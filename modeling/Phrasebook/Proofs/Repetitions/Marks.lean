import Std.Data.String.ToNat
import Phrasebook.Evaluation.State

/-! The flags that mark an iteration.
A flag names its mark and its depth, so that the four flags of one depth can be set and unset
together without a change to any other flag. -/
namespace Phrasebook

namespace IterationMark

theorem flagName_eq (m : IterationMark) (depth : Nat) :
    m.flagName depth = m.label ++ ("_" ++ Nat.repr depth) := by
  rw [← String.append_assoc]
  rfl

/-- A flag names its mark and its depth. -/
theorem flagName_inj {m m' : IterationMark} {depth depth' : Nat} :
    m.flagName depth = m'.flagName depth' ↔ m = m' ∧ depth = depth' := by
  constructor
  · intro same
    rw [flagName_eq, flagName_eq] at same
    have letters := congrArg String.toList same
    simp only [String.toList_append] at letters
    have marks : m = m' := by
      cases m <;> cases m' <;> first | rfl | exact absurd (List.cons.inj letters).1 (by decide)
    subst marks
    have numbers := (String.append_right_inj _).mp ((String.append_right_inj _).mp same)
    exact ⟨rfl, Nat.repr_inj.mp numbers⟩
  · rintro ⟨rfl, rfl⟩
    rfl

end IterationMark

namespace Flags

def put (flags : Flags) (present : Bool) (name : String) : Flags :=
  if present then flags.insert name else flags.erase name

theorem contains_put (flags : Flags) (present : Bool) (key name : String) :
    (flags.put present key).contains name =
      if key = name then present else flags.contains name := by
  unfold put
  cases present <;> by_cases same : key = name <;>
    simp [same, Std.ExtTreeSet.contains_insert, Std.ExtTreeSet.contains_erase]

/-- The flags of one depth are set where they hold, and unset where not. -/
def settle (flags : Flags) (holds : IterationMark → Bool) (depth : Nat) : Flags :=
  IterationMark.all.foldl (fun flags mark => flags.put (holds mark) (mark.flagName depth)) flags

theorem contains_settle (flags : Flags) (holds : IterationMark → Bool) (depth : Nat)
    (mark : IterationMark) :
    (flags.settle holds depth).contains (mark.flagName depth) = holds mark := by
  cases mark <;>
    simp [settle, IterationMark.all, contains_put, IterationMark.flagName_inj]

theorem contains_settle_other {flags : Flags} {holds : IterationMark → Bool} {depth : Nat}
    {name : String} (other : ∀ mark : IterationMark, mark.flagName depth ≠ name) :
    (flags.settle holds depth).contains name = flags.contains name := by
  simp [settle, IterationMark.all, contains_put, other]

/-- What was set before at the depth does not matter. -/
theorem settle_settle (flags : Flags) (holds holds' : IterationMark → Bool) (depth : Nat) :
    (flags.settle holds depth).settle holds' depth = flags.settle holds' depth := by
  apply Std.ExtTreeSet.ext_contains
  intro name
  by_cases own : ∃ mark : IterationMark, mark.flagName depth = name
  · obtain ⟨mark, rfl⟩ := own
    rw [contains_settle, contains_settle]
  · have other : ∀ mark : IterationMark, mark.flagName depth ≠ name :=
      fun mark same => own ⟨mark, same⟩
    rw [contains_settle_other other, contains_settle_other other, contains_settle_other other]

end Flags

namespace State

theorem localFlags_unmarkIteration (s : State) (depth : Nat) :
    (s.unmarkIteration depth).localFlags = s.localFlags.settle (fun _ => false) depth := rfl

end State

end Phrasebook
