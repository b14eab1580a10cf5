import Phrasebook.Proofs.Faults
import Phrasebook.Proofs.Safety.Banks

/-! Choices among too many things.
A step is refused its choice exactly where it chooses evenly among a positive multiple of 2 ^ 32
things. A text with fewer characters has fewer options, and a bank with fewer words offers fewer. -/
namespace Phrasebook

namespace Reader

theorem lt_of_balance {opening closing : Char} {depth i j : Nat} {text : List Char}
    (h : balance opening closing depth i text = some j) : j < i + text.length := by
  fun_induction balance opening closing depth i text with
  | case1 | case2 => simp at h
  | case5 => simp_all
  | case3 _ _ _ _ ih => have := ih h; simp only [List.length_cons]; omega
  | case4 _ _ _ _ ih => have := ih h; simp only [List.length_cons]; omega
  | case6 _ _ _ _ _ ih => have := ih h; simp only [List.length_cons]; omega
  | case7 _ _ _ _ _ _ _ ih => have := ih h; simp only [List.length_cons]; omega

theorem lt_of_closing? {r : Reader} {opening closing : Char} {start j : Nat}
    (h : r.closing? opening closing start = some j) : j < r.text.size := by
  have low := le_of_closing? h
  have high := lt_of_balance h
  rw [tail_eq, List.length_drop, Array.length_toList] at high
  omega

theorem length_slice (r : Reader) (start stop : Nat) :
    (r.slice start stop).length = min stop r.text.size - start := by
  rw [Reader.slice, Array.length_toList, Array.size_extract]

end Reader

theorem length_optionStarts (depth i : Nat) (body : List Char) :
    (optionStarts depth i body).length ≤ body.length := by
  fun_induction optionStarts depth i body <;>
    simp only [List.length_cons, List.length_nil] <;> omega

theorem Reader.length_optionPlaces {r : Reader} {index close : Nat}
    (closed : r.curlyClose? (index + 1) = some close) :
    (r.optionPlaces index close).length ≤ r.text.size := by
  have low := le_of_closing? closed
  have high := lt_of_closing? closed
  have count := length_optionStarts 0 (index + 1) (r.slice (index + 1) close)
  rw [length_slice] at count
  rw [optionPlaces, List.length_cons]
  omega

theorem Lexicon.Stocked.length_offered {l : Lexicon} (stocked : l.Stocked) (call : Call) :
    (l.offered call).length ≤ l.words.length := by
  unfold offered
  split
  · rename_i names _
    cases shared : l.intersection names with
    | error cause => exact Nat.zero_le _
    | ok common => exact stocked.length_intersection shared
  · cases listed : l.candidates? call.className with
    | none => exact Nat.zero_le _
    | some candidates => exact stocked.length_candidates listed

/-- Every bank was made and reshuffled any number of times. -/
def Setting.Stocked (setting : Setting) : Prop :=
  ∀ (symbol : Char) (lexicon : Lexicon), setting.lexicons[symbol]? = some lexicon → lexicon.Stocked

namespace State

variable {setting : Setting} {s : State} {c : Char} {index close : Nat} {call : Call}
  {lexicon : Lexicon}

theorem openSelector_of_dvd (untagged : s.tag = none)
    (closed : s.reader.curlyClose? (index + 1) = some close)
    (whole : 2 ^ 32 ∣ (s.reader.optionPlaces index close).length) :
    s.openSelector index = .error (.draw .zeroBound) := by
  have some_ : 0 < (s.reader.optionPlaces index close).length := Nat.succ_pos _
  have many := Nat.le_of_dvd some_ whole
  have refused : s.choose (s.reader.optionPlaces index close).length = .error .zeroBound := by
    rw [choose, untagged]
    exact Generator.oneOf_of_dvd _ whole
  rw [openSelector_eq closed (by omega), refused]
  rfl

theorem pickFresh_of_dvd (g : Generator) (filled : 0 < (lexicon.offered call).length)
    (whole : 2 ^ 32 ∣ (lexicon.offered call).length)
    (weightless : Lexicon.sumOf lexicon.weightAt (lexicon.offered call) = 0) :
    pickFresh lexicon call index g = .error (.draw .zeroBound) := by
  have refused := Lexicon.weightedPickAmong_of_dvd lexicon g filled whole weightless
  have some_ := List.ne_nil_of_length_pos filled
  have pick := freshPick_pickFresh lexicon call index g
  generalize pickFresh lexicon call index g = r at pick ⊢
  cases pick with
  | fault none_ => exact absurd none_ some_
  | doubt _ none_ => exact absurd none_ some_
  | draw =>
    rw [refused]
    rfl

theorem wordCall_of_dvd (read : Call.parse? (s.reader.tail index) = some call)
    (known : setting.lexicons[call.symbol]? = some lexicon)
    (fresh : ((carrierKey? call).bind fun key => s.carriers.lookup key) = none)
    (filled : 0 < (lexicon.offered call).length) (whole : 2 ^ 32 ∣ (lexicon.offered call).length)
    (weightless : Lexicon.sumOf lexicon.weightAt (lexicon.offered call) = 0) :
    s.wordCall setting index = .error (.draw .zeroBound) := by
  have refused : ∀ u : State, u.carriers = s.carriers →
      u.pickWord lexicon call index = .error (.draw .zeroBound) := by
    intro u same
    simp only [pickWord, same, fresh]
    rw [pickFresh_of_dvd u.generator filled whole weightless]
    rfl
  simp only [wordCall, read, known]
  rw [refused]
  · rfl
  · rfl

theorem perform_of_refuses (h : s.Refuses setting index (Sign.ofChar c)) :
    s.perform setting c index = .error (.draw .zeroBound) := by
  unfold perform
  generalize Sign.ofChar c = sign at h ⊢
  obtain ⟨count, filled, whole, among⟩ := h
  cases among with
  | options untagged closed => exact openSelector_of_dvd untagged closed whole
  | words read known fresh weightless =>
    exact wordCall_of_dvd read known fresh filled whole weightless

/-- The choice is all that a step can be refused. -/
theorem step_eq_draw_iff {cause : RangeError} :
    s.step setting = .error (.draw cause) ↔ cause = .zeroBound ∧ s.Overfull setting := by
  constructor
  · exact blames_step setting s _
  · rintro ⟨rfl, full⟩
    exact perform_of_refuses (refuses_read.mpr full)

theorem not_overfull (short : s.reader.text.size < 2 ^ 32) (stocked : setting.Stocked)
    (few : ∀ (symbol : Char) (lexicon : Lexicon), setting.lexicons[symbol]? = some lexicon →
      lexicon.words.length < 2 ^ 32) : ¬ s.Overfull setting := by
  rintro ⟨count, filled, whole, among⟩
  have many := Nat.le_of_dvd filled whole
  generalize Sign.ofChar s.reader.peek = sign at among
  cases among with
  | options untagged closed =>
    have := Reader.length_optionPlaces closed
    omega
  | @words call lexicon read known fresh weightless =>
    have := (stocked _ _ known).length_offered call
    have := few _ _ known
    omega

end State

end Phrasebook
