import Phrasebook.Proofs.Calls.Execution
import Phrasebook.Proofs.Draws
import Phrasebook.Proofs.Generators

/-! The draws that a run makes.
They are counted by what the text asks for: a frequency, a random number, a selector without a tag
and a count with two bounds take one draw each, and a call takes one if it picks among words. The
count does not look at the generator, and says how far the run moves it. -/
namespace Phrasebook

def Count.draws : Count → Nat
  | exactly _ => 0
  | between _ _ => 1

/-- A pick makes one draw if there is anything to pick. -/
def pickDraws {α : Type} : List α → Nat
  | [] => 0
  | _ :: _ => 1

theorem Count.generator_draw {count : Count} {g g' : Generator} {limit : UInt32}
    (h : count.draw g = .ok (limit, g')) : g' = g.skip count.draws := by
  rcases draw_ok h with ⟨n, rfl, _, rfl⟩ | ⟨min, max, rfl, _, rfl⟩
  · exact g'.skip_zero.symm
  · rfl

namespace Lexicon

variable {l : Lexicon} {candidates : List Nat} {picked? : Option Nat} {g g' : Generator}

theorem generator_pickEvenly (h : pickEvenly candidates g = .ok (picked?, g')) :
    g' = g.skip (pickDraws candidates) := by
  cases candidates with
  | nil =>
    cases h
    exact g.skip_zero.symm
  | cons i rest =>
    obtain ⟨⟨choice, _⟩, drawn, h⟩ := bind_eq_ok.mp h
    obtain ⟨_, _, rfl⟩ := Generator.oneOf_ok drawn
    cases h
    rfl

theorem generator_weightedPickAmong (h : l.weightedPickAmong candidates g = .ok (picked?, g')) :
    g' = g.skip (pickDraws candidates) := by
  simp only [weightedPickAmong] at h
  split at h
  · exact generator_pickEvenly h
  · rename_i weighty
    cases candidates with
    | nil => exact absurd rfl weighty
    | cons i rest =>
      cases h
      rfl

end Lexicon

namespace State

variable {setting : Setting} {s t : State} {c : Char} {index : Nat} {call : Call}
  {lexicon : Lexicon} {picked? : Option Nat} {g g' : Generator} {picked : Picked}

def callDraws (setting : Setting) (s : State) (index : Nat) : Nat :=
  match Call.parse? (s.reader.tail index) with
  | none => 0
  | some call =>
    match setting.lexicons[call.symbol]? with
    | none => 0
    | some lexicon =>
      if ((carrierKey? call).bind fun key => s.carriers.lookup key).isSome then 0
      else pickDraws (lexicon.offered call)

/-- The number of draws of a step that succeeds. -/
def performDraws (setting : Setting) (s : State) (c : Char) (index : Nat) : Nat :=
  match Sign.ofChar c with
  | .digit =>
    let stop := s.reader.digitsEnd index
    if s.reader.charAt stop = '%' ∧ s.reader.charAt (stop + 1) = '[' then 1 else 0
  | .openSelector => if s.tag.isSome then 0 else 1
  | .repetition =>
    match s.reader.blockEnd (index + 1) .repeaterCount with
    | .error _ => 0
    | .ok countEnd =>
      (Count.parse? (Text.trim (s.reader.slice (index + 2) countEnd))).elim 0 Count.draws
  | .number => 1
  | .call => s.callDraws setting index
  | _ => 0

def draws (setting : Setting) (s : State) : Nat :=
  { s with reader := s.reader.read.2 }.performDraws setting s.reader.peek s.reader.position

/-- The draws from a state to where its run stops. The step that stops it makes none. -/
def drawn (setting : Setting) (s : State) : Nat :=
  if _ : s.reader.atEnd = true then 0
  else
    match _ : s.step setting with
    | .error _ => 0
    | .ok t => s.draws setting + t.drawn setting
termination_by s.potential
decreasing_by exact potential_step (by simp_all) (by assumption)

theorem generator_emitLiteral (s : State) (c : Char) :
    (s.emitLiteral c).generator = s.generator := by
  obtain ⟨_, _, _, _, same⟩ := emitLiteral_frame s c
  rw [same]

theorem generator_digit (h : s.digit c index = .ok t) :
    t.generator = s.generator.skip
      (if s.reader.charAt (s.reader.digitsEnd index) = '%' ∧
        s.reader.charAt (s.reader.digitsEnd index + 1) = '[' then 1 else 0) := by
  simp only [digit] at h
  split at h
  · rename_i frequency
    rw [if_pos frequency]
    split at h
    · contradiction
    · obtain ⟨close, _, h⟩ := bind_eq_ok.mp h
      obtain ⟨⟨value, generator⟩, drawn, h⟩ := bind_eq_ok.mp h
      have drawn := orStop_eq_ok.mp drawn
      rw [Generator.below_of_pos s.generator (by decide)] at drawn
      cases drawn
      cases h
      rfl
  · rename_i plain
    cases h
    rw [if_neg plain, Generator.skip_zero, generator_emitLiteral]

theorem generator_choose {options : Nat} {choice : Fin options}
    (h : s.choose options = .ok (choice, g)) :
    g = s.generator.skip (if s.tag.isSome then 0 else 1) := by
  unfold choose at h
  split at h
  · rename_i untagged
    rw [untagged]
    exact (Generator.oneOf_ok h).2.2
  · rename_i tag tagged
    rw [tagged]
    split at h
    · cases h
      exact s.generator.skip_zero.symm
    · contradiction

theorem generator_pickFresh (h : pickFresh lexicon call index g = .ok (picked, g')) :
    g' = g.skip (pickDraws (lexicon.offered call)) := by
  have pick := freshPick_pickFresh lexicon call index g
  generalize pickFresh lexicon call index g = r at pick h
  cases pick with
  | fault => contradiction
  | doubt _ none_ =>
    cases h
    rw [none_]
    exact (Generator.skip_zero _).symm
  | draw =>
    obtain ⟨⟨_, _⟩, drawn, h⟩ := bind_eq_ok.mp h
    cases h
    exact Lexicon.generator_weightedPickAmong (orStop_eq_ok.mp drawn)

theorem generator_pickWord (h : s.pickWord lexicon call index = .ok (picked?, t)) :
    t.generator = s.generator.skip
      (if ((carrierKey? call).bind fun key => s.carriers.lookup key).isSome then 0
        else pickDraws (lexicon.offered call)) := by
  simp only [pickWord] at h
  split at h
  · rename_i i kept
    cases h
    rw [kept]
    exact s.generator.skip_zero.symm
  · rename_i fresh
    rw [fresh]
    obtain ⟨⟨picked, generator⟩, drawn, h⟩ := bind_eq_ok.mp h
    have moved := generator_pickFresh drawn
    cases picked <;> cases h <;> exact moved

theorem generator_wordCall (h : s.wordCall setting index = .ok t) :
    t.generator = s.generator.skip (s.callDraws setting index) := by
  unfold callDraws
  rcases wordCall_ok h with ⟨unread, rfl⟩ | ⟨call, u, read, same, effect⟩
  · rw [unread]
    exact s.generator.skip_zero.symm
  · rw [read]
    rcases effect with ⟨unknown, rfl⟩ | ⟨lexicon, picked?, v, known, picked, effect⟩
    · simp only [unknown]
      rw [same]
      exact s.generator.skip_zero.symm
    · have moved := generator_pickWord picked
      simp only [known]
      rw [same] at moved
      rcases effect with ⟨_, rfl⟩ | ⟨i, _, written⟩
      · exact moved
      · rw [(writeWord_keeps written).1]
        exact moved

theorem generator_openRepetition (h : s.openRepetition index = .ok t) :
    t.generator = s.generator.skip
      (match s.reader.blockEnd (index + 1) .repeaterCount with
      | .error _ => 0
      | .ok countEnd =>
        (Count.parse? (Text.trim (s.reader.slice (index + 2) countEnd))).elim 0 Count.draws) := by
  obtain ⟨_, _, _, count, _, _, counted, _, _, parsed, drawn, rfl⟩ := openRepetition_ok h
  simp only [counted, parsed, Option.elim_some]
  exact Count.generator_draw drawn

theorem generator_perform (h : s.perform setting c index = .ok t) :
    t.generator = s.generator.skip (s.performDraws setting c index) := by
  have spared := (spares_perform h).generator
  unfold perform at h
  unfold performDraws
  generalize Sign.ofChar c = sign at h spared ⊢
  cases sign with
  | digit => exact generator_digit h
  | openSelector =>
    obtain ⟨_, _, _, _, _, choice, generator, chosen, rfl⟩ := openSelector_ok h
    exact generator_choose chosen
  | repetition => exact generator_openRepetition h
  | call => exact generator_wordCall h
  | number =>
    obtain ⟨_, _, _, _, _, _, rfl⟩ := randomNumber_ok h
    rfl
  | escape | openGroup | closeGroup | slash | closeSelector | tag | openBlock | closeBlock | flag
  | lineBreak | carriageReturn | casing | upper | literal =>
    rw [Generator.skip_zero]
    exact spared (by decide)

theorem generator_step (h : s.step setting = .ok t) :
    t.generator = s.generator.skip (s.draws setting) := by
  have moved := generator_perform h
  rw [draws]
  exact moved

/-- A run moves its generator by its draws and leaves the frames below alone. -/
theorem generator_finish (setting : Setting) (s : State) :
    (s.finish setting).1.generator = s.generator.skip (s.drawn setting) := by
  fun_induction finish setting s with
  | case1 s ended =>
    rw [drawn, dif_pos ended, Generator.skip_zero]
  | case2 s more stop stopped =>
    rw [drawn, dif_neg more]
    split
    · exact s.generator.skip_zero.symm
    · rename_i stepped
      rw [stopped] at stepped
      contradiction
  | case3 s more t stepped ih =>
    rw [drawn, dif_neg more]
    split
    · rename_i stopped
      rw [stepped] at stopped
      contradiction
    · rename_i t' stepped'
      rw [stepped] at stepped'
      cases stepped'
      rw [ih, generator_step stepped, Generator.skip_skip]

end State

theorem generator_evaluate (setting : Setting) (text : List Char) (flags : Flags) (g : Generator) :
    (evaluate setting text flags g).generator =
      g.skip ((State.start text flags g).drawn setting) :=
  State.generator_finish setting _

end Phrasebook
