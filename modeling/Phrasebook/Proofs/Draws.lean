import Mathlib.Algebra.Group.Int.Defs
import Mathlib.Algebra.Group.Nat.Defs
import Phrasebook.Proofs.Results

/-! Draws from ranges that have values.
Every bound is checked, or positive by the way it comes about, before the generator is asked. -/
namespace Phrasebook

theorem Count.le_of_parse? {text : List Char} {min max : Nat}
    (h : parse? text = some (.between min max)) : min ≤ max := by
  unfold parse? at h
  split at h
  · simp only [bind, Option.bind_eq_some_iff] at h
    obtain ⟨_, _, _, _, h⟩ := h
    split at h
    · contradiction
    · cases h
      omega
  · simp only [bind, Option.bind_eq_some_iff] at h
    obtain ⟨_, _, h⟩ := h
    split at h <;> cases h

theorem Count.exists_draw {text : List Char} {count : Count} (h : parse? text = some count)
    (g : Generator) : ∃ drawn, count.draw g = .ok drawn := by
  cases count with
  | exactly n => exact ⟨_, rfl⟩
  | between min max =>
    have order : (min : Int) < max + 1 := by
      have := le_of_parse? h
      omega
    exact ⟨_, by rw [draw, Generator.range_of_lt g order]; rfl⟩

theorem Text.le_of_natural? {limit n : Nat} {text : List Char} (h : natural? limit text = some n) :
    n ≤ limit := by
  have kept := (Option.filter_eq_some_iff.mp h).2
  simpa using kept

namespace Count

def low : Count → Nat
  | exactly n => n
  | between min _ => min

def high : Count → Nat
  | exactly n => n
  | between _ max => max

theorem bounds_of_parse? {text : List Char} {count : Count} (h : parse? text = some count) :
    0 < count.low ∧ count.high < 2 ^ 32 := by
  unfold parse? at h
  split at h
  · obtain ⟨min, first, h⟩ := Option.bind_eq_some_iff.mp h
    obtain ⟨max, second, h⟩ := Option.bind_eq_some_iff.mp h
    have bound := Text.le_of_natural? second
    split at h
    · contradiction
    · cases h
      simp only [low, high]
      omega
  · obtain ⟨n, read, h⟩ := Option.bind_eq_some_iff.mp h
    have bound := Text.le_of_natural? read
    split at h
    · contradiction
    · cases h
      simp only [low, high]
      omega

theorem toNat_ofInt {n : Int} (low : 0 ≤ n) (high : n < 2 ^ 32) :
    ((UInt32.ofInt n).toNat : Int) = n := by
  rw [UInt32.ofInt, UInt32.toNat_ofNat']
  omega

theorem draw_pos {text : List Char} {count : Count} {g g' : Generator} {limit : UInt32}
    (parsed : parse? text = some count) (drawn : count.draw g = .ok (limit, g')) :
    0 < limit.toNat := by
  have bounds := bounds_of_parse? parsed
  rcases draw_ok drawn with ⟨n, rfl, rfl, -⟩ | ⟨min, max, rfl, rfl, -⟩
  · have value : n.toUInt32.toNat = n := Nat.mod_eq_of_lt bounds.2
    rw [value]
    exact bounds.1
  · have order := le_of_parse? parsed
    have smallest : 0 < min := bounds.1
    have largest : max < 2 ^ 32 := bounds.2
    have span : (0 : Int) < (max : Int) + 1 - min := by omega
    have low := Int.emod_nonneg (g.peek : Int) (Int.ne_of_gt span)
    have high := Int.emod_lt_of_pos (g.peek : Int) span
    have value := toNat_ofInt (n := min + g.peek % ((max : Int) + 1 - min)) (by omega) (by omega)
    omega

end Count

theorem lt_of_numberRange {body : List Char} {min max : Int}
    (h : numberRange body = .ok (min, max)) : min < max := by
  simp only [numberRange] at h
  split at h
  · contradiction
  · split at h
    · contradiction
    · contradiction
    · split at h
      · cases h
        assumption
      · contradiction

/-- The words that a call without a kept word picks among. -/
def Lexicon.offered (lexicon : Lexicon) (call : Call) : List Nat :=
  match call.classList? with
  | some names => (lexicon.intersection names).toOption.getD []
  | none => (lexicon.candidates? call.className).getD []

/-- Where the options start of a selector that opens at the one place and closes at the other. -/
def Reader.optionPlaces (r : Reader) (index close : Nat) : List Nat :=
  (index + 1) :: optionStarts 0 (index + 1) (r.slice (index + 1) close)

/-- What is chosen among without a tag or a weight to go by: the options of a selector, or the words
that a call picks among. -/
inductive State.ChoosesAmong (setting : Setting) (s : State) (index : Nat) : Sign → Nat → Prop where
  | options {close : Nat} (untagged : s.tag = none)
      (closed : s.reader.curlyClose? (index + 1) = some close) :
      ChoosesAmong setting s index .openSelector (s.reader.optionPlaces index close).length
  | words {call : Call} {lexicon : Lexicon} (read : Call.parse? (s.reader.tail index) = some call)
      (known : setting.lexicons[call.symbol]? = some lexicon)
      (fresh : ((carrierKey? call).bind fun key => s.carriers.lookup key) = none)
      (weightless : Lexicon.sumOf lexicon.weightAt (lexicon.offered call) = 0) :
      ChoosesAmong setting s index .call (lexicon.offered call).length

/-- A choice among so many things that nothing of their number is left in 32 bits. -/
def State.Refuses (setting : Setting) (s : State) (index : Nat) (sign : Sign) : Prop :=
  ∃ count, 0 < count ∧ 2 ^ 32 ∣ count ∧ s.ChoosesAmong setting index sign count

namespace Lexicon

variable {l : Lexicon} {candidates : List Nat} {g : Generator} {cause : RangeError}

theorem pickEvenly_error (h : pickEvenly candidates g = .error cause) :
    cause = .zeroBound ∧ 0 < candidates.length ∧ 2 ^ 32 ∣ candidates.length := by
  cases candidates with
  | nil => contradiction
  | cons i rest =>
    rcases bind_eq_error.mp h with refused | ⟨_, _, done⟩
    · obtain ⟨zero, whole⟩ := Generator.oneOf_error refused
      exact ⟨zero, Nat.succ_pos _, whole⟩
    · contradiction

theorem weightedPickAmong_of_dvd (l : Lexicon) (g : Generator) (filled : 0 < candidates.length)
    (whole : 2 ^ 32 ∣ candidates.length) (weightless : sumOf l.weightAt candidates = 0) :
    l.weightedPickAmong candidates g = .error .zeroBound := by
  cases candidates with
  | nil => contradiction
  | cons i rest =>
    rw [weightedPickAmong]
    simp only [weightless, if_true, pickEvenly, List.isEmpty_cons, Bool.false_eq_true, if_false]
    rw [Generator.oneOf_of_dvd g whole]
    rfl

theorem weightedPickAmong_error (h : l.weightedPickAmong candidates g = .error cause) :
    cause = .zeroBound ∧ 0 < candidates.length ∧ 2 ^ 32 ∣ candidates.length ∧
      sumOf l.weightAt candidates = 0 := by
  simp only [weightedPickAmong] at h
  split at h
  · rename_i weightless
    obtain ⟨zero, filled, whole⟩ := pickEvenly_error h
    exact ⟨zero, filled, whole, weightless⟩
  · contradiction

theorem candidates?_eq_none {name : String} (named : (!name.isEmpty) = true)
    (absent : (!l.hasClass name) = true) : l.candidates? name = none := by
  rw [candidates?, if_neg (by simpa using named), members?]
  apply Std.ExtTreeMap.getElem?_eq_none_of_contains_eq_false
  simpa [hasClass] using absent

theorem weightedPick_eq_among (l : Lexicon) (name : String) (g : Generator) :
    l.weightedPick name g = l.weightedPickAmong ((l.candidates? name).getD []) g := by
  rw [weightedPick]
  cases l.candidates? name <;> rfl

end Lexicon

namespace State

/-- What a pick without a kept word comes to. Where no words are offered it may fail or give a doubt
without a draw, and else the offered words are picked among by weight. -/
inductive FreshPick (lexicon : Lexicon) (call : Call) (index : Nat) (g : Generator) :
    Except Stop (Picked × Generator) → Prop where
  | fault {names : List String} {cause : LexiconError} (none_ : lexicon.offered call = [])
      (failed : lexicon.intersection names = .error cause) :
      FreshPick lexicon call index g (.error (.fault (.wordCall cause) index))
  | doubt (cause : Doubt) (none_ : lexicon.offered call = []) :
      FreshPick lexicon call index g (.ok (.doubt cause, g))
  | draw (picked : Option Nat × Generator → Picked) :
      FreshPick lexicon call index g
        (orStop (lexicon.weightedPickAmong (lexicon.offered call) g) >>=
          fun drawn => .ok (picked drawn, drawn.2))

theorem freshPick_pickFresh (lexicon : Lexicon) (call : Call) (index : Nat) (g : Generator) :
    FreshPick lexicon call index g (pickFresh lexicon call index g) := by
  cases listed : call.classList? with
  | some names =>
    have offers : lexicon.offered call = (lexicon.intersection names).toOption.getD [] := by
      rw [Lexicon.offered, listed]
    simp only [pickFresh, listed]
    cases shared : lexicon.intersection names with
    | error cause =>
      rw [shared] at offers
      exact .fault offers shared
    | ok common =>
      rw [shared] at offers
      cases common with
      | nil => exact .doubt _ offers
      | cons i rest =>
        have offers : lexicon.offered call = i :: rest := offers
        simp only [← offers]
        exact .draw _
  | none =>
    have offers : lexicon.offered call = (lexicon.candidates? call.className).getD [] := by
      rw [Lexicon.offered, listed]
    simp only [pickFresh, listed]
    split
    · rename_i unknown
      obtain ⟨named, absent⟩ := Bool.and_eq_true_iff.mp unknown
      rw [Lexicon.candidates?_eq_none named absent] at offers
      exact .doubt _ offers
    · rw [Lexicon.weightedPick_eq_among, ← offers]
      exact .draw _

theorem choose_error {s : State} {options : Nat} {cause : RangeError} (several : 2 ≤ options)
    (h : s.choose options = .error cause) :
    cause = .zeroBound ∧ s.tag = none ∧ 2 ^ 32 ∣ options := by
  unfold choose at h
  split at h
  · rename_i untagged
    obtain ⟨zero, whole⟩ := Generator.oneOf_error h
    exact ⟨zero, untagged, whole⟩
  · rw [dif_pos (show 0 < options by omega)] at h
    contradiction

theorem openSelector_eq {s : State} {index close : Nat}
    (closed : s.reader.curlyClose? (index + 1) = some close)
    (several : ¬ (s.reader.optionPlaces index close).length < 2) :
    s.openSelector index = orStop (s.choose (s.reader.optionPlaces index close).length) >>=
      fun drawn => .ok ({ s with
        generator := drawn.2, tag := none, selectors := close :: s.selectors }.moveTo
          ((s.reader.optionPlaces index close).get drawn.1)) := by
  rw [openSelector, closed]
  exact if_neg several

end State

end Phrasebook
