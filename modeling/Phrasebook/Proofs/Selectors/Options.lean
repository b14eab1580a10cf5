import Phrasebook.Call
import Phrasebook.Proofs.Structure.Opening

/-! What of a selector a run reads once it is in an option.
The slash after an option ends it unless a plus sign before it takes it for the symbol of a call.
In that case the run goes on in the next option. What is read like this is cut off from the rest of
the selector: no construct in it looks beyond its end. -/
namespace Phrasebook.Structure

open Call (isSymbol)

/-- The text ends in a plus sign that has no symbol yet. -/
def awaitsSymbol : List Char → Bool
  | [] => false
  | [c] => c == '+'
  | c :: d :: rest =>
    if c = '+' ∧ isSymbol d = true then awaitsSymbol rest else awaitsSymbol (d :: rest)

/-- What is read of an option and the options after it. -/
def readOn (option : List Char) : List (List Char) → List Char
  | [] => option
  | next :: later => if awaitsSymbol option then option ++ '/' :: readOn next later else option

/-- The text is read up to its end, and there the `fence` is read as a character by itself. -/
inductive Apart (fence : Char) : List Char → Prop where
  | nil : Apart fence []
  | call {c : Char} {rest : List Char} (symbol : isSymbol c = true) (later : Apart fence rest) :
    Apart fence ('+' :: c :: rest)
  | char {c : Char} {rest : List Char} (plain : c ∉ landmarks)
    (lone : c = '+' → isSymbol (rest.head?.getD fence) = false) (later : Apart fence rest) :
    Apart fence (c :: rest)

variable {fence : Char} {option rest : List Char}

/-- Only the plus sign that awaits a symbol at the end of an option depends on what follows. -/
theorem apart_append (plain : ∀ c ∈ option, c ∉ landmarks)
    (behind : Apart fence (if awaitsSymbol option then '+' :: rest else rest)) :
    Apart fence (option ++ rest) := by
  fun_induction awaitsSymbol option with
  | case1 => exact behind
  | case2 c =>
    by_cases plus : c = '+'
    · subst plus
      exact behind
    · rw [if_neg (by simpa using plus)] at behind
      exact .char (plain c List.mem_cons_self) (fun same => absurd same plus) behind
  | case3 c d others call ih =>
    obtain ⟨rfl, symbol⟩ := call
    have later := (List.forall_mem_cons.mp (List.forall_mem_cons.mp plain).2).2
    exact .call symbol (ih later behind)
  | case4 c d others other ih =>
    obtain ⟨here, later⟩ := List.forall_mem_cons.mp plain
    refine .char here (fun plus => ?_) (ih later behind)
    simpa [plus] using other

/-- What is read on ends before a slash, or before the brace that closes the selector. -/
theorem exists_fence {later : List (List Char)}
    (plain : ∀ part ∈ option :: later, ∀ c ∈ part, c ∉ landmarks) :
    ∃ fence after, option ++ (slashed later ++ ['}']) = readOn option later ++ fence :: after ∧
      (fence = '/' ∨ fence = '}' ∧ after = []) ∧ Apart fence (readOn option later) := by
  induction later generalizing option with
  | nil =>
    refine ⟨'}', [], rfl, .inr ⟨rfl, rfl⟩, ?_⟩
    have lone : Apart '}' ['+'] := .char (by decide) (fun _ => by decide) .nil
    rw [readOn, ← List.append_nil option]
    refine apart_append (plain option List.mem_cons_self) ?_
    split
    · exact lone
    · exact .nil
  | cons next later ih =>
    obtain ⟨here, behind⟩ := List.forall_mem_cons.mp plain
    have split : slashed (next :: later) ++ ['}'] = '/' :: (next ++ (slashed later ++ ['}'])) := by
      simp [slashed]
    rw [split, readOn]
    cases awaits : awaitsSymbol option with
    | true =>
      obtain ⟨fence, after, whole, ends, apart⟩ := ih behind
      rw [if_pos rfl]
      refine ⟨fence, after, ?_, ends, apart_append here ?_⟩
      · rw [whole, List.append_assoc, List.cons_append]
      · rw [awaits, if_pos rfl]
        exact .call (by decide) apart
    | false =>
      rw [if_neg Bool.false_ne_true]
      refine ⟨'/', _, rfl, .inl rfl, ?_⟩
      rw [← List.append_nil option]
      refine apart_append here ?_
      rw [awaits, if_neg Bool.false_ne_true]
      exact .nil

/-- At the start of an option the rest of the selector is that option and the ones after it. -/
theorem drop_start {text first : List Char} {i : Nat} {others : List (List Char)}
    (h : text.drop i = first ++ (slashed others ++ rest)) {k start : Nat}
    (starts : (i :: laterStarts (i + first.length) others)[k]? = some start) :
    ∃ option later, (first :: others).drop k = option :: later ∧
      text.drop start = option ++ (slashed later ++ rest) := by
  induction others generalizing first i k with
  | nil =>
    cases k with
    | zero =>
      cases starts
      exact ⟨first, [], rfl, h⟩
    | succ k => simp [laterStarts] at starts
  | cons second others ih =>
    cases k with
    | zero =>
      cases starts
      exact ⟨first, second :: others, rfl, h⟩
    | succ k =>
      have behind : text.drop (i + first.length + 1) = second ++ (slashed others ++ rest) :=
        (drop_char (drop_part h)).trans (List.append_assoc second _ _)
      exact ih behind starts

end Phrasebook.Structure
