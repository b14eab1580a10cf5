import Phrasebook.Proofs.LineEndings.Constructs
import Phrasebook.Proofs.Selectors.Lockstep
import Phrasebook.Proofs.Termination

/-! Whole runs of a text with carriage returns.
Where the one run reads a line feed, the other reads a carriage return, which does nothing, and then
the line feed; every other step has one beside it. So both end alike, if no escape takes a line feed
and no flag has one in its name. -/
namespace Phrasebook

open Text (withReturns shift)

/-- A reader is its text and its position. -/
theorem Reader.eq_moveTo_ofList {text : List Char} {r : Reader} (unchanged : r.text.toList = text) :
    r = (Reader.ofList text).moveTo r.position := by
  obtain ⟨whole, tails, position, rfl, inside⟩ := r
  subst unchanged
  simp [Reader.ofList, Reader.moveTo, inside]

namespace State

variable {text : List Char} {setting : Setting} {s s' t : State} {c : Char} {index : Nat}

/-- No name of a flag call that the run reads has a line feed inside. -/
def FlagsWithinLines (setting : Setting) (s : State) : Prop :=
  ∀ u, Reaches setting s u → u.reader.peek = '$' →
    ∀ name, u.reader.flagName? u.reader.position = some name → '\n' ∉ name

theorem step_eq (s : State) : s.step setting =
    (s.moveTo (s.reader.position + 1)).perform setting s.reader.peek s.reader.position := rfl

namespace Abreast

theorem perform (abreast : Abreast text s t) (setting : Setting) (unbroken : Unbroken text)
    (place : s.reader.position = index + 1) (here : s.reader.charAt index = c) (other : c ≠ '\n')
    (names : c = '$' → ∀ name, s.reader.flagName? index = some name → '\n' ∉ name) :
    Matches (Abreast text) (s.perform setting c index)
      (t.perform setting c (shift text index)) := by
  have inside : s.reader.charAt index ≠ '\n' := by rwa [here]
  unfold State.perform
  generalize sign : Sign.ofChar c = kind
  have single (d : Char) (one : kind.char? = some d) : c = d := Sign.char?_ofChar (sign ▸ one)
  cases kind with
  | escape =>
    have backslash := Reader.getElem?_of_charAt (here.trans (single '\\' rfl)) (by decide)
    have next : s.reader.peek ≠ '\n' := by
      intro newline
      rw [Reader.peek, place] at newline
      have taken := Reader.getElem?_of_charAt newline (by decide)
      rw [← Array.getElem?_toList, abreast.texts.here] at backslash taken
      exact unbroken index backslash taken
    exact .value (abreast.escape next)
  | openGroup => exact abreast.openGroup unbroken inside
  | closeGroup => exact abreast.closeGroup
  | digit => exact abreast.digit unbroken c
  | openSelector => exact abreast.openSelector unbroken inside
  | slash => exact .value (abreast.slash c)
  | closeSelector => exact abreast.closeSelector
  | tag => exact abreast.readTag inside
  | repetition => exact abreast.openRepetition unbroken inside
  | openBlock => exact .value abreast
  | closeBlock => exact .value (abreast.closeBlock index)
  | flag => exact abreast.flag unbroken inside (names (single '$' rfl))
  | call => exact abreast.wordCall setting
  | lineBreak =>
    exact .value (abreast.kept (abreast.alike.emitLineBreak _) ⟨rfl, rfl, rfl, rfl⟩
      ⟨rfl, rfl, rfl, rfl⟩)
  | carriageReturn => exact .value abreast
  | casing => exact .value abreast.toggleCasing
  | upper =>
    refine .value (abreast.kept ?_ ⟨rfl, rfl, rfl, rfl⟩ ⟨rfl, rfl, rfl, rfl⟩)
    exact { abreast.alike with upper := congrArg not abreast.alike.upper }
  | number => exact abreast.randomNumber unbroken inside
  | literal => exact .value (abreast.emitLiteral c)

/-- A step beside a step, where no line feed is read. -/
theorem step (abreast : Abreast text s t) (setting : Setting) (unbroken : Unbroken text)
    (more : s.reader.atEnd = false) (other : s.reader.peek ≠ '\n')
    (names : s.reader.peek = '$' →
      ∀ name, s.reader.flagName? s.reader.position = some name → '\n' ∉ name) :
    Matches (Abreast text) (s.step setting) (t.step setting) := by
  have moved := abreast.moveTo (s.reader.position + 1)
  have stepped := moved.perform setting unbroken (Reader.position_read more) rfl other names
  rw [abreast.texts.shift_succ other, ← abreast.position] at stepped
  have same := abreast.peek
  rw [if_neg other] at same
  rw [step_eq, step_eq, same]
  exact stepped

/-- Two steps beside the one that reads a line feed. -/
theorem lineFeed (abreast : Abreast text s t) (setting : Setting)
    (newline : s.reader.peek = '\n') :
    ∃ s' t', s.step setting = .ok s' ∧ Reaches setting t t' ∧ Abreast text s' t' := by
  have here := Reader.getElem?_of_charAt newline (by decide)
  rw [← Array.getElem?_toList, abreast.texts.here] at here
  obtain ⟨inside, same⟩ := List.getElem?_eq_some_iff.mp here
  have left := abreast.texts.drop s.reader.position
  rw [abreast.texts.here, List.drop_eq_getElem_cons inside, same, Text.withReturns_newline,
    ← abreast.position] at left
  have first : t.reader.peek = '\r' := Reader.charAt_of_drop left
  have room := Reader.lt_size_of_drop (drop_char left)
  have position : (t.moveTo (t.reader.position + 1)).reader.position = t.reader.position + 1 :=
    Nat.min_eq_left (Nat.le_of_lt room)
  have second : (t.moveTo (t.reader.position + 1)).reader.peek = '\n' := by
    rw [Reader.peek, position]
    exact Reader.charAt_of_drop (drop_char left)
  have more : t.reader.atEnd = false := Reader.more_of_left left
  have more' : (t.moveTo (t.reader.position + 1)).reader.atEnd = false :=
    Reader.more_of_left (Reader.left_skip (show t.reader.left = ['\r'] ++ _ from left))
  have read : s.step setting =
      .ok ((s.moveTo (s.reader.position + 1)).emitLineBreak setting.lineBreak) := by
    rw [step_eq, newline]
    rfl
  have passed : t.step setting = .ok (t.moveTo (t.reader.position + 1)) := by
    rw [step_eq, first]
    rfl
  have read' : (t.moveTo (t.reader.position + 1)).step setting =
      .ok ((t.moveTo (t.reader.position + 2)).emitLineBreak setting.lineBreak) := by
    rw [step_eq, second, position]
    rfl
  have moved := abreast.moveTo (s.reader.position + 1)
  rw [Text.shift_newline here, ← abreast.position] at moved
  refine ⟨_, _, read, .head more passed (.one more' read'), ?_⟩
  exact moved.kept (moved.alike.emitLineBreak _) ⟨rfl, rfl, rfl, rfl⟩ ⟨rfl, rfl, rfl, rfl⟩

theorem atEnd (abreast : Abreast text s t) : t.reader.atEnd = s.reader.atEnd := by
  rw [Bool.eq_iff_iff, Reader.atEnd_iff, Reader.atEnd_iff, abreast.position, abreast.texts.size,
    Text.shift_inj]

end Abreast

/-- Both runs get to the end of their texts, or both stop in faults that match, in states that are
alike. -/
structure EndsAbreast (run run' : State × Option Stop) : Prop where
  state : run.1.Alike run'.1
  stop : run'.2.map Stop.bare = run.2.map Stop.bare

theorem FlagsWithinLines.step (lines : FlagsWithinLines setting s) (more : s.reader.atEnd = false)
    (stepped : s.step setting = .ok s') : FlagsWithinLines setting s' := by
  intro u reached
  exact lines u (.head more stepped reached)

namespace Abreast

/-- Where the one run stops, the other does, in a fault that matches. -/
theorem stopped {stop : Stop} (abreast : Abreast text s t) (unbroken : Unbroken text)
    (lines : FlagsWithinLines setting s) (more : s.reader.atEnd = false)
    (h : s.step setting = .error stop) :
    ∃ stop', t.step setting = .error stop' ∧ stop'.bare = stop.bare := by
  have other : s.reader.peek ≠ '\n' := by
    intro newline
    obtain ⟨_, _, stepped, -, -⟩ := abreast.lineFeed setting newline
    rw [h] at stepped
    contradiction
  have matched := abreast.step setting unbroken more other (lines s (.refl s))
  rw [h] at matched
  generalize t.step setting = second at matched
  cases matched with
  | stop same => exact ⟨_, rfl, same⟩

/-- Where the one run takes a step, the other gets beside it. -/
theorem stepped (abreast : Abreast text s t) (unbroken : Unbroken text)
    (lines : FlagsWithinLines setting s) (more : s.reader.atEnd = false)
    (h : s.step setting = .ok s') : ∃ t', Reaches setting t t' ∧ Abreast text s' t' := by
  by_cases newline : s.reader.peek = '\n'
  · obtain ⟨_, t', stepped', reached, abreast'⟩ := abreast.lineFeed setting newline
    rw [h] at stepped'
    cases stepped'
    exact ⟨t', reached, abreast'⟩
  · have matched := abreast.step setting unbroken more newline (lines s (.refl s))
    rw [h] at matched
    generalize second : t.step setting = result at matched
    cases matched with
    | value abreast' => exact ⟨_, .one (abreast.atEnd.trans more) second, abreast'⟩

/-- By induction on the steps of the run without carriage returns. -/
theorem ends (abreast : Abreast text s t) (unbroken : Unbroken text)
    (lines : FlagsWithinLines setting s) : EndsAbreast (s.finish setting) (t.finish setting) := by
  obtain ⟨n, u, steps, halted⟩ := exists_halted setting s
  induction steps generalizing t with
  | refl s =>
    have ended := abreast.atEnd
    cases more : s.reader.atEnd with
    | true =>
      rw [more] at ended
      rw [finish_of_atEnd more, finish_of_atEnd ended]
      exact ⟨abreast.alike, rfl⟩
    | false =>
      rw [more] at ended
      rcases halted with done | ⟨stop, stopped⟩
      · rw [more] at done
        contradiction
      · obtain ⟨stop', stopped', same⟩ := abreast.stopped unbroken lines more stopped
        rw [finish_of_stop more stopped, finish_of_stop ended stopped']
        exact ⟨abreast.alike, congrArg some same⟩
  | @step n s s' u more stepped _ ih =>
    obtain ⟨t', reached, abreast'⟩ := abreast.stepped unbroken lines more stepped
    rw [finish_of_step more stepped, finish_of_reaches reached]
    exact ih abreast' (lines.step more stepped) halted

end Abreast

theorem abreast_start (text : List Char) (flags : Flags) (g : Generator) :
    Abreast text (start text flags g) (start (withReturns text) flags g) where
  texts := ⟨rfl, rfl⟩
  position := Text.shift_zero.symm
  selectors := rfl
  closes := by
    intro close member
    contradiction
  repetitions := rfl
  salt := rfl
  alike := ⟨rfl, rfl, rfl, rfl, rfl, rfl, rfl, rfl, rfl, rfl, rfl, rfl⟩

/-- It is enough to look at the flag calls of the text, whether a run reads them or not. -/
theorem flagsWithinLines_of_text (flags : Flags) (g : Generator)
    (plain : ∀ index name, (Reader.ofList text).charAt index = '$' →
      (Reader.ofList text).flagName? index = some name → '\n' ∉ name) :
    FlagsWithinLines setting (start text flags g) := by
  intro u reached dollar name found
  have sound := (Sound.start text flags g).reaches reached
  have same : u.reader = (Reader.ofList text).moveTo u.reader.position :=
    Reader.eq_moveTo_ofList (by rw [sound.unchanged])
  rw [Reader.peek] at dollar
  generalize u.reader.position = index at same dollar found
  rw [same] at dollar found
  exact plain index name dollar found

end State

/-- Line endings do not matter: a carriage return before each line feed leaves the output or the
kind of the fault, the flags, the generator and the warnings as they are, apart from the places of
the text. -/
theorem evaluate_withReturns (setting : Setting) (text : List Char) (flags : Flags) (g : Generator)
    (unbroken : Unbroken text) (lines : State.FlagsWithinLines setting (.start text flags g)) :
    (evaluate setting (withReturns text) flags g).result.mapError Stop.bare =
        (evaluate setting text flags g).result.mapError Stop.bare ∧
      (evaluate setting (withReturns text) flags g).flags =
        (evaluate setting text flags g).flags ∧
      (evaluate setting (withReturns text) flags g).generator =
        (evaluate setting text flags g).generator ∧
      causes (evaluate setting (withReturns text) flags g).warnings =
        causes (evaluate setting text flags g).warnings := by
  have ends := (State.abreast_start text flags g).ends unbroken lines
  unfold evaluate
  generalize (State.start text flags g).finish setting = run at ends
  generalize (State.start (withReturns text) flags g).finish setting = run' at ends
  obtain ⟨s, stop?⟩ := run
  obtain ⟨t, stop'?⟩ := run'
  obtain ⟨alike, stops⟩ := ends
  have doubts : causes t.warnings.reverse = causes s.warnings.reverse := by
    rw [causes, causes, List.map_reverse, List.map_reverse]
    exact congrArg List.reverse alike.doubts.symm
  refine ⟨?_, alike.globalFlags.symm, alike.generator.symm, doubts⟩
  cases stop? with
  | none =>
    cases stop'? with
    | none => exact congrArg (fun streams => Except.ok streams.finish) alike.streams.symm
    | some stop => contradiction
  | some stop =>
    cases stop'? with
    | none => contradiction
    | some stop' => exact congrArg Except.error (Option.some.inj stops)

/-- A flag with a line feed behind its name, a selector over three lines, and a call of an unknown
symbol. -/
def drizzle : List Char := "$gs[wet\n]\n$g?[wet][a\n\x7brain/\nmist\x7d]+n".toList

def drizzleReturned : List Char :=
  "$gs[wet\r\n]\r\n$g?[wet][a\r\n\x7brain/\r\nmist\x7d]+n".toList

theorem evaluate_withReturns_drizzle :
    Unbroken drizzle ∧ State.FlagsWithinLines ⟨∅, "\n"⟩ (.start drizzle ∅ (Generator.ofSeed 7 0)) ∧
      (evaluate ⟨∅, "\n"⟩ drizzleReturned ∅ (Generator.ofSeed 7 0)).result.mapError Stop.bare =
        (evaluate ⟨∅, "\n"⟩ drizzle ∅ (Generator.ofSeed 7 0)).result.mapError Stop.bare ∧
      (evaluate ⟨∅, "\n"⟩ drizzleReturned ∅ (Generator.ofSeed 7 0)).flags =
        (evaluate ⟨∅, "\n"⟩ drizzle ∅ (Generator.ofSeed 7 0)).flags := by
  have unbroken : Unbroken drizzle := by
    intro i backslash
    exact absurd (List.mem_of_getElem? backslash) (by decide)
  have lines : State.FlagsWithinLines ⟨∅, "\n"⟩ (.start drizzle ∅ (Generator.ofSeed 7 0)) := by
    apply State.flagsWithinLines_of_text
    intro index name dollar found
    obtain ⟨inside, -⟩ :=
      Array.getElem?_eq_some_iff.mp (Reader.getElem?_of_charAt dollar (by decide))
    have each : ∀ index < (Reader.ofList drizzle).text.size,
        ∀ name ∈ (Reader.ofList drizzle).flagName? index, '\n' ∉ name := by decide +kernel
    exact each index inside name found
  have written : withReturns drizzle = drizzleReturned := by decide
  obtain ⟨result, flags, -, -⟩ :=
    evaluate_withReturns ⟨∅, "\n"⟩ drizzle ∅ (Generator.ofSeed 7 0) unbroken lines
  rw [written] at result flags
  exact ⟨unbroken, lines, result, flags⟩

end Phrasebook
