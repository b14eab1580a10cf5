import Phrasebook.Proofs.Globals.Verbatim
import Phrasebook.Proofs.Progress

/-! Values of globals with text behind them.
An escaped value is written as it is, and nothing else happens before the text behind it is read.
The exception is a value with digits at its end before a percent sign and an opening bracket, with
any more digits between: digits are not escaped, and these are the number of a frequency. -/
namespace Phrasebook

open Structure State

/-- The run is at the end of an escaped value. The main stream has the value, no other stream is
there, and nothing is drawn, warned of or open. -/
structure Copied (value rest : List Char) (flags : Flags) (g : Generator) (s : State) : Prop where
  position : s.reader.position = (escapeLiteral value).length
  ahead : s.reader.tail s.reader.position = rest
  main : s.streams.finish.main = String.ofList value
  names : s.streams.finish.names = ["main"]
  generator : s.generator = g
  flags : s.globalFlags = flags
  warnings : s.warnings = []
  selectors : s.selectors = []
  repetitions : s.repetitions = []

variable {setting : Setting} {salt : UInt64} {site : Site} {position : Nat} {sc : Scene}
  {u : State} {value rest digits : List Char} {flags : Flags} {g : Generator}

theorem exists_copied (setting : Setting) (flags : Flags) (g : Generator)
    (apart : joinsFrequency value rest = false) :
    ∃ s, Reaches setting (start (escapeLiteral value ++ rest) flags g) s ∧
      Copied value rest flags g s := by
  obtain ⟨s, reached, shown⟩ := exists_shows_copied setting value rest flags g apart
  have written := Streams.finish_write_empty (String.ofList value)
  refine ⟨s, reached, ?_⟩
  constructor
  · exact shown.position
  · rw [Reader.tail_eq, shown.text, shown.position, List.drop_left]
  · rw [shown.streams, written]
    simp [Output.main, Output.text?]
  · rw [shown.streams, written]
    rfl
  · exact shown.generator
  · exact shown.globalFlags
  · exact shown.warnings
  · exact shown.selectors
  · exact shown.repetitions

theorem escapeLiteral_digits (decimal : ∀ c ∈ digits, c.isDigit = true) :
    escapeLiteral digits = digits := by
  induction digits with
  | nil => rfl
  | cons c digits ih =>
    obtain ⟨first, others⟩ := List.forall_mem_cons.mp decimal
    rw [escapeLiteral_other (digit_not_structural first), ih others]

theorem beginsFrequency_digits (decimal : ∀ c ∈ digits, c.isDigit = true) (rest : List Char) :
    beginsFrequency (digits ++ rest) = beginsFrequency rest := by
  have all : digits.all Char.isDigit = true := List.all_eq_true.mpr decimal
  have copied := beginsFrequency_escapeLiteral digits rest
  rwa [escapeLiteral_digits decimal, all, Bool.true_and] at copied

theorem joinsFrequency_cons {c : Char} (mixed : ¬ ∀ d ∈ c :: value, d.isDigit = true)
    (rest : List Char) :
    joinsFrequency (c :: value) rest = joinsFrequency value rest ∧
      (c.isDigit = true → beginsFrequency (escapeLiteral value ++ rest) = false) := by
  constructor
  · cases value with
    | nil =>
      have other : c.isDigit = false := by simpa using mixed
      simp [joinsFrequency, other]
    | cons d value => rw [joinsFrequency, List.getLast?_cons_cons, joinsFrequency]
  · intro digit
    rw [beginsFrequency_escapeLiteral, Bool.and_eq_false_imp]
    intro all
    have decimal : ∀ d ∈ c :: value, d.isDigit = true :=
      List.forall_mem_cons.mpr ⟨digit, List.all_eq_true.mp all⟩
    exact absurd decimal mixed

/-- A run comes to the first of the digits that join with what follows. -/
theorem Structure.Shows.joins (joined : joinsFrequency value rest = true)
    (free : site.Free position (escapeLiteral value).length)
    (shown : Shows salt site position sc u)
    (here : site.text.drop position = escapeLiteral value ++ rest) :
    ∃ v sc' first digits, Reaches setting u v ∧ Shows salt site first sc' v ∧
      site.text.drop first = digits ++ rest ∧ digits ≠ [] ∧ (∀ c ∈ digits, c.isDigit = true) ∧
      first + digits.length = position + (escapeLiteral value).length := by
  induction value generalizing position sc u with
  | nil => contradiction
  | cons c value ih =>
    by_cases decimal : ∀ d ∈ c :: value, d.isDigit = true
    · rw [escapeLiteral_digits decimal] at here ⊢
      exact ⟨u, sc, position, c :: value, .refl u, shown, here, nofun, decimal, rfl⟩
    · obtain ⟨later, apart⟩ := joinsFrequency_cons decimal rest
      have split : escapeLiteral (c :: value) = escapeLiteral [c] ++ escapeLiteral value := by
        simp [escapeLiteral]
      rw [split, List.length_append] at free ⊢
      rw [split, List.append_assoc] at here
      obtain ⟨v, copied, between⟩ := shown.copiesChar apart
        (free.part (Nat.le_refl _) (by omega)) here
      obtain ⟨w, sc', first, digits, reached, rest⟩ := ih (later.symm.trans joined)
        (free.part (Nat.le_add_right _ _) (by omega)) between (drop_part here)
      refine ⟨w, sc', first, digits, copied.trans reached, ?_⟩
      rwa [← Nat.add_assoc]

theorem Reader.le_digitsEnd_of_drop {r : Reader} {i : Nat}
    (h : r.text.toList.drop i = digits ++ rest) (decimal : ∀ c ∈ digits, c.isDigit = true) :
    i + digits.length ≤ r.digitsEnd i := by
  induction digits generalizing i with
  | nil => exact r.le_digitsEnd i
  | cons c digits ih =>
    obtain ⟨first, others⟩ := List.forall_mem_cons.mp decimal
    have later := ih (drop_char h) others
    rw [digitsEnd, charAt_of_drop h, if_pos first, List.length_cons]
    omega

/-- The number of a frequency is skipped with the bracket behind it. -/
theorem State.digit_skips {s t : State} {c : Char} {index : Nat}
    (frequency : beginsFrequency (s.reader.text.toList.drop index) = true)
    (h : s.digit c index = .ok t) :
    ∃ target generator, s.reader.digitsEnd index + 2 ≤ target ∧
      t = { s with generator }.moveTo target := by
  simp only [digit, if_pos ((s.reader.frequency_iff index).mpr frequency)] at h
  split at h
  · contradiction
  · obtain ⟨close, closed, h⟩ := bind_eq_ok.mp h
    obtain ⟨⟨drawn, generator⟩, _, h⟩ := bind_eq_ok.mp h
    have further := Reader.le_of_blockEnd closed
    cases h
    refine ⟨_, generator, ?_, rfl⟩
    split <;> omega

theorem Structure.Shows.skips {text : List Char} {v t : State} {first : Nat}
    (shown : Shows salt ⟨text, [], []⟩ first sc v) (here : text.drop first = digits ++ rest)
    (present : digits ≠ []) (decimal : ∀ c ∈ digits, c.isDigit = true)
    (frequency : beginsFrequency rest = true) (stepped : v.step setting = .ok t) :
    Beyond (first + digits.length + 1) t := by
  obtain ⟨c, others, rfl⟩ := List.exists_cons_of_ne_nil present
  have next := shown.next here
  have performed : (v.moveTo (first + 1)).digit c first = .ok t := by
    rw [State.step, Reader.read, Reader.peek, shown.position, Reader.charAt_of_drop (shown.drop here),
      State.perform, sign_of_digit (decimal c List.mem_cons_self)] at stepped
    exact stepped
  have number := next.drop here
  have joined : beginsFrequency ((v.moveTo (first + 1)).reader.text.toList.drop first) = true := by
    rw [number, beginsFrequency_digits decimal, frequency]
  obtain ⟨target, generator, further, rfl⟩ := digit_skips joined performed
  have stop := Reader.le_digitsEnd_of_drop number decimal
  have inside : first + (c :: others).length + 1 ≤ (v.moveTo (first + 1)).reader.text.size := by
    have size := congrArg List.length number
    have more : 0 < rest.length := by
      cases rest with
      | nil => contradiction
      | cons d rest => exact Nat.succ_pos _
    rw [List.length_drop, List.length_append, Array.length_toList] at size
    omega
  constructor
  · exact Nat.le_min.mpr ⟨by omega, inside⟩
  · intro close member
    rw [show _ = [] from next.selectors] at member
    contradiction
  · intro r member
    rw [show _ = [] from next.repetitions] at member
    contradiction

/-- From the first of the digits on, no state of the run is at their end. -/
theorem Structure.Shows.passes {text : List Char} {v t : State} {first : Nat}
    (shown : Shows salt ⟨text, [], []⟩ first sc v) (here : text.drop first = digits ++ rest)
    (present : digits ≠ []) (decimal : ∀ c ∈ digits, c.isDigit = true)
    (frequency : beginsFrequency rest = true) (reached : Reaches setting v t) :
    t.reader.position ≠ first + digits.length := by
  obtain ⟨n, later⟩ := reached
  cases later with
  | refl =>
    have some_ : 0 < digits.length := List.length_pos_iff.mpr present
    rw [shown.position]
    omega
  | step more stepped later =>
    have beyond := shown.skips here present decimal frequency stepped
    exact Nat.ne_of_gt (beyond.reaches ⟨_, later⟩).position

theorem not_copied (setting : Setting) (flags : Flags) (g : Generator)
    (joined : joinsFrequency value rest = true) :
    ¬ ∃ s, Reaches setting (start (escapeLiteral value ++ rest) flags g) s ∧
      Copied value rest flags g s := by
  rintro ⟨s, reached, copied⟩
  have free : (Site.mk (escapeLiteral value ++ rest) [] []).Free 0
      (escapeLiteral value).length := nofun
  obtain ⟨v, sc, first, digits, before, shown, here, present, decimal, place⟩ :=
    (shows_start (escapeLiteral value ++ rest) flags g).joins joined free rfl
  rw [Nat.zero_add, ← copied.position] at place
  rcases reached.linear before with back | on
  · have beyond : Beyond s.reader.position s := by
      constructor
      · exact Nat.le_refl _
      · rw [copied.selectors]
        exact nofun
      · rw [copied.repetitions]
        exact nofun
    have further := (beyond.reaches back).position
    have some_ : 0 < digits.length := List.length_pos_iff.mpr present
    rw [shown.position] at further
    omega
  · have frequency : beginsFrequency rest = true := (Bool.and_eq_true_iff.mp joined).2
    exact shown.passes here present decimal frequency on place.symm

/-- Escaping keeps a value as it is before every text that its last digits do not join with. -/
theorem exists_copied_iff (setting : Setting) (value rest : List Char) (flags : Flags)
    (g : Generator) :
    (∃ s, Reaches setting (start (escapeLiteral value ++ rest) flags g) s ∧
      Copied value rest flags g s) ↔ joinsFrequency value rest = false := by
  constructor
  · intro run
    rw [Bool.eq_false_iff]
    intro joined
    exact not_copied setting flags g joined run
  · exact exists_copied setting flags g

theorem position_ne_of_digits {s : State} (present : digits ≠ [])
    (decimal : ∀ c ∈ digits, c.isDigit = true) (frequency : beginsFrequency rest = true)
    (reached : Reaches setting (start (escapeLiteral digits ++ rest) flags g) s) :
    s.reader.position ≠ (escapeLiteral digits).length := by
  rw [escapeLiteral_digits decimal] at reached ⊢
  have passed := (shows_start (digits ++ rest) flags g).passes rfl present decimal frequency
    reached
  rwa [Nat.zero_add] at passed

/-- The run goes from the first digit into the body of the frequency. -/
theorem not_copied_hundred :
    ¬ ∃ s, Reaches ⟨∅, "\n"⟩ (start (escapeLiteral "100".toList ++ "%[x]".toList) ∅
        (Generator.ofSeed 7 0)) s ∧
      s.reader.position = (escapeLiteral "100".toList).length := by
  rintro ⟨s, reached, place⟩
  have decimal : "100".toList.all Char.isDigit = true := by decide
  exact position_ne_of_digits (by decide) (List.all_eq_true.mp decimal) (by decide) reached place

end Phrasebook
