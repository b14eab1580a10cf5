import Phrasebook.Proofs.Substitution.Pieces

/-! Where a text lies inside an escape.
A backslash takes the character behind it, and one that is taken takes nothing, so that the length
of the last run of backslashes decides. -/
namespace Phrasebook

/-- How many backslashes stand at the end. -/
def trailing (text : List Char) : Nat := (text.reverse.takeWhile (· == '\\')).length

/-- The text does not end inside an escape. -/
def Complete (text : List Char) : Prop := trailing text % 2 = 0

instance {text : List Char} : Decidable (Complete text) := inferInstanceAs (Decidable (_ = _))

/-- No backslash takes the character at the place. -/
def Unescaped (text : List Char) (place : Nat) : Prop := Complete (text.take place)

instance {text : List Char} {place : Nat} : Decidable (Unescaped text place) :=
  inferInstanceAs (Decidable (Complete _))

variable {text front back : List Char} {c : Char} {place : Nat}

theorem trailing_append : trailing (front ++ back) =
    if trailing back = back.length then back.length + trailing front else trailing back := by
  unfold trailing
  rw [List.reverse_append, List.takeWhile_append, List.length_reverse]
  split
  · rw [List.length_append, List.length_reverse]
  · rfl

theorem complete_nil : Complete [] := rfl

/-- Behind a complete text, escapes are those of the rest by itself. -/
theorem Complete.append_iff (complete : Complete front) :
    Complete (front ++ back) ↔ Complete back := by
  have even : trailing front % 2 = 0 := complete
  unfold Complete
  rw [trailing_append]
  split <;> omega

theorem complete_snoc (front : List Char) (other : c ≠ '\\') : Complete (front ++ [c]) := by
  have none : trailing [c] = 0 := by simp [trailing, other]
  unfold Complete
  rw [trailing_append, none]
  rfl

theorem complete_escape (c : Char) : Complete ['\\', c] := by
  by_cases same : c = '\\'
  · subst same
    rfl
  · exact complete_snoc ['\\'] same

theorem complete_reference (kind : Kind) (name : List Char) :
    Complete (kind.sigil :: '[' :: (name ++ [']'])) :=
  complete_snoc (kind.sigil :: '[' :: name) (by decide)

theorem Complete.unescaped_iff (complete : Complete front) :
    Unescaped (front ++ back) (front.length + place) ↔ Unescaped back place := by
  unfold Unescaped
  rw [List.take_length_add_append]
  exact complete.append_iff

end Phrasebook
