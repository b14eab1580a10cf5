import Phrasebook.Proofs.Faults
import Phrasebook.Proofs.Safety.Picking

/-! No run panics.
A step on a machine agrees with the specification at every sound state, and every state that a run
on a machine reaches is sound. -/
namespace Phrasebook.Machine

variable {text : List Char} {s : State} {index : Nat} {setting : Setting}

theorem ofClose_eq {text : Array Char} {repetitions : List Repetition}
    (placed : ∀ r ∈ repetitions, Placed text r) :
    ofClose index repetitions = .ok (Boundary.ofClose index repetitions) := by
  cases repetitions with
  | nil => rfl
  | cons r outer =>
    have unfinished := (placed r List.mem_cons_self).unfinished
    have limited := r.limit.toNat_lt
    rw [ofClose, Boundary.ofClose, bounded_eq (by omega), bind_ok]
    split
    · split
      · rfl
      · split <;> rfl
    · split <;> rfl

theorem closeBlock_eq (sound : Sound text s) :
    closeBlock s index = .ok (s.closeBlock index) := by
  have placed := placed_ofClose index sound.repetitions
  rw [closeBlock, ofClose_eq sound.repetitions, bind_ok, State.closeBlock]
  generalize Boundary.ofClose index s.repetitions = closed at placed
  obtain ⟨boundary, repetitions⟩ := closed
  cases repetitions with
  | nil => cases boundary <;> rfl
  | cons r outer =>
    have unfinished := (placed r List.mem_cons_self).unfinished
    simp only
    rw [markIteration_eq unfinished]
    cases boundary <;> rfl

theorem perform_eq {c : Char} (supplied : setting.Supplied) (sound : Sound text s)
    (short : text.length < 2 ^ 32) (inside : index < text.length) :
    perform setting s c index = lift (s.perform setting c index) := by
  have size : s.reader.text.size = text.length := by
    rw [sound.unchanged, List.size_toArray]
  have short : Short s.reader := by
    unfold Short
    omega
  have inside : index < s.reader.text.size := by omega
  unfold perform State.perform
  cases Sign.ofChar c with
  | escape => exact escape_eq short
  | openGroup => exact openGroup_eq short inside
  | closeGroup => rfl
  | digit => exact digit_eq short inside
  | openSelector => exact openSelector_eq short inside
  | slash =>
    apply slash_eq short
    intro close member
    obtain ⟨within, _⟩ := List.getElem?_eq_some_iff.mp (sound.selectors close member)
    omega
  | closeSelector => rfl
  | tag => exact readTag_eq short inside
  | repetition => exact openRepetition_eq short inside
  | openBlock => rfl
  | closeBlock => exact closeBlock_eq sound
  | flag => exact flag_eq short inside
  | call => exact wordCall_eq supplied short inside
  | lineBreak => exact written_eq _ _
  | carriageReturn => rfl
  | casing => exact toggleCasing_eq short
  | upper => rfl
  | number => exact randomNumber_eq short inside
  | literal => exact written_eq _ _

theorem step_eq (supplied : setting.Supplied) (sound : Sound text s)
    (short : text.length < 2 ^ 32) (more : s.reader.atEnd = false) :
    step setting s = lift (s.step setting) := by
  have size : s.reader.text.size = text.length := by
    rw [sound.unchanged, List.size_toArray]
  have before := Reader.position_lt more
  have cursor := sound.cursor
  have read : Sound text { s with reader := s.reader.read.2 } :=
    { sound with cursor := Sound.inside { s with reader := s.reader.read.2 } sound.unchanged }
  rw [step, read_eq (by unfold Short; omega), bind_ok]
  exact perform_eq supplied read short (by omega)

theorem sound_of_reaches (supplied : setting.Supplied) (short : text.length < 2 ^ 32) {t : State}
    (start : Sound text s) (h : Reaches setting s t) : Sound text t := by
  induction h with
  | refl => exact start
  | step _ more stepped ih =>
    have sound := ih
    rw [step_eq supplied sound short more] at stepped
    cases result : State.step setting _ with
    | error stop =>
      rw [result] at stepped
      contradiction
    | ok next =>
      rw [result] at stepped
      cases stepped
      exact sound.step more result

theorem lift_ne_panic {α : Type} {sign : Sign} {refused : Prop} {r : Except Stop α}
    (h : Blames sign refused r) (granted : ¬ refused) (panic : Panic) :
    lift r ≠ .error (.panic panic) := by
  cases r with
  | ok a => exact nofun
  | error stop =>
    cases stop with
    | fault cause index => exact nofun
    | draw cause => exact absurd (h _ rfl).2 granted

theorem not_overfull (supplied : setting.Supplied) (sound : Sound text s)
    (short : text.length < 2 ^ 32) : ¬ s.Overfull setting := by
  apply State.not_overfull
  · rwa [sound.unchanged, List.size_toArray]
  · exact fun symbol lexicon known => (supplied symbol lexicon known).1
  · intro symbol lexicon known
    have few := (supplied symbol lexicon known).2
    omega

/-- A run on a machine never panics. The state of every step is sound, and what the step does is
what the specification says. -/
theorem never_panics (text : List Char) (short : text.length < 2 ^ 32) (setting : Setting)
    (supplied : setting.Supplied) (flags : Flags) (g : Generator) (s : State)
    (reached : Reaches setting (State.start text flags g) s) :
    Sound text s ∧
      (s.reader.atEnd = false → step setting s = lift (s.step setting)) ∧
      (s.reader.atEnd = false → ∀ panic, step setting s ≠ .error (.panic panic)) := by
  have sound := sound_of_reaches supplied short (Sound.start text flags g) reached
  refine ⟨sound, step_eq supplied sound short, ?_⟩
  intro more panic
  rw [step_eq supplied sound short more]
  exact lift_ne_panic (State.blames_step setting s) (not_overfull supplied sound short) panic

def oneWord : Word := Word.make ["sea"] 1 ["water"]

def oneBank : Lexicon where
  symbol := 'N'
  title := "nouns"
  description := ""
  subtypes := ["base"]
  words := [oneWord]
  classIndex := Lexicon.enter 0 oneWord ∅

def oneSetting : Setting where
  lexicons := (∅ : Std.ExtTreeMap Char Lexicon).insert 'N' oneBank
  lineBreak := "\n"

def oneStart : State := State.start "^[2-3][, ][+N]".toList ∅ (Generator.ofSeed 7 0)

theorem supplied_one : oneSetting.Supplied := by
  intro symbol lexicon known
  have made : Lexicon.make 'N' "nouns" "" ["base"] [oneWord] = .ok oneBank := rfl
  rw [oneSetting, Std.ExtTreeMap.getElem?_insert] at known
  split at known
  · cases known
    exact ⟨.made made, by decide⟩
  · simp at known

theorem never_panics_one :
    Sound "^[2-3][, ][+N]".toList oneStart ∧
      step oneSetting oneStart = lift (oneStart.step oneSetting) := by
  have safe := never_panics "^[2-3][, ][+N]".toList (by decide) oneSetting supplied_one ∅
    (Generator.ofSeed 7 0) oneStart (.refl _)
  exact ⟨safe.1, safe.2.1 (by decide)⟩

end Phrasebook.Machine
