import Phrasebook.Proofs.LineEndings.Abreast

/-! The constructs, carried out abreast.
Each opens, jumps and draws by what the readers find, so that the one run goes on at the shifted
place of the other. -/
namespace Phrasebook

open Text (WithinLine withReturns shift)

variable {text : List Char} {s t : State} {c : Char} {index : Nat}

/-- A name with a line feed has a blank in it, whether the carriage return is there or not. -/
theorem blank_ofRaw {raw : List Char} (member : '\n' ∈ raw) :
    (Group.ofRaw raw).name.toList.any Letter.isBlank = true := by
  have found (name : List Char) (inside : '\n' ∈ name) :
      (String.ofList name).toList.any Letter.isBlank = true := by
    rw [String.toList_ofList]
    exact List.any_eq_true.mpr ⟨'\n', inside, by decide⟩
  unfold Group.ofRaw
  split
  · exact found _ (List.mem_of_ne_of_mem (by decide) member)
  · exact found _ (List.mem_of_ne_of_mem (by decide) member)
  · exact found _ member

/-- The name of a flag call at the place, without the blanks around it. -/
def Reader.flagName? (r : Reader) (index : Nat) : Option (List Char) :=
  if (flagFunction? (r.slice (index + 1) (index + 3))).isSome then
    (r.blockEnd (index + 3) .flagName).toOption.map fun nameEnd =>
      Text.trim (r.slice (index + 4) nameEnd)
  else none

namespace State.Abreast

theorem escape (abreast : Abreast text s t) (other : s.reader.peek ≠ '\n') :
    Abreast text s.escape t.escape := by
  have unfolded (s : State) : s.escape =
      if s.reader.peek = Reader.endMark then s.moveTo (s.reader.position + 1)
      else (s.moveTo (s.reader.position + 1)).emitRaw s.reader.peek := rfl
  have moved := abreast.moveTo (s.reader.position + 1)
  rw [abreast.texts.shift_succ other, ← abreast.position] at moved
  rw [unfolded, unfolded, abreast.peek, if_neg other]
  split
  · exact moved
  · exact moved.kept (moved.alike.emitRaw _) ⟨rfl, rfl, rfl, rfl⟩ ⟨rfl, rfl, rfl, rfl⟩

theorem openGroup (abreast : Abreast text s t) (unbroken : Unbroken text)
    (other : s.reader.charAt index ≠ '\n') :
    Matches (Abreast text) (s.openGroup index) (t.openGroup (shift text index)) := by
  have closing := abreast.texts.closing? '<' '>' (by decide) (by decide) unbroken (index + 1)
  have finding := abreast.texts.findChar? (c := ':') (by decide) other
  simp only [State.openGroup, Reader.angleClose?, ← abreast.texts.shift_succ other, closing,
    finding]
  cases s.reader.closing? '<' '>' (index + 1) with
  | none => exact .fault _ _ rfl
  | some close =>
    cases found : s.reader.findChar? ':' (index + 1) with
    | none => exact .fault _ _ rfl
    | some colon =>
      simp only [Option.map_some, abreast.texts.slice]
      by_cases newline : '\n' ∈ s.reader.slice (index + 1) colon
      · have blank := blank_ofRaw newline
        have blank' := blank_ofRaw (Text.newline_mem_withReturns.mpr newline)
        rw [if_pos (.inr (.inr blank)), if_pos (.inr (.inr blank'))]
        exact .fault _ _ rfl
      · rw [Text.withReturns_eq_self newline]
        have order : shift text close ≤ shift text colon ↔ close ≤ colon := by
          rw [← Nat.not_lt, Text.shift_lt_iff, Nat.not_lt]
        simp only [order]
        split
        · exact .fault _ _ rfl
        · rw [← abreast.shift_succ (Reader.getElem?_of_findChar? found) (by decide)]
          apply Matches.value
          have pushed : Abreast text
              { s with streams := s.streams.push (s.reader.slice (index + 1) colon) }
              { t with streams := t.streams.push (s.reader.slice (index + 1) colon) } := by
            refine abreast.kept ?_ ⟨rfl, rfl, rfl, rfl⟩ ⟨rfl, rfl, rfl, rfl⟩
            exact { abreast.alike with streams := by simp only [abreast.alike.streams] }
          exact pushed.moveTo (colon + 1)

theorem closeGroup (abreast : Abreast text s t) :
    Matches (Abreast text) (s.closeGroup index) (t.closeGroup (shift text index)) := by
  simp only [State.closeGroup, ← abreast.alike.streams]
  cases s.streams.pop with
  | none => exact .fault _ _ rfl
  | some popped =>
    refine .value (abreast.kept ?_ ⟨rfl, rfl, rfl, rfl⟩ ⟨rfl, rfl, rfl, rfl⟩)
    exact { abreast.alike with streams := rfl }

theorem drawn (abreast : Abreast text s t) (generator : Generator) :
    Abreast text { s with generator } { t with generator } :=
  abreast.kept { abreast.alike with generator := rfl } ⟨rfl, rfl, rfl, rfl⟩ ⟨rfl, rfl, rfl, rfl⟩

theorem digit (abreast : Abreast text s t) (unbroken : Unbroken text) (c : Char) :
    Matches (Abreast text) (s.digit c index) (t.digit c (shift text index)) := by
  simp only [State.digit, abreast.texts.digitsEnd, abreast.texts.slice, Text.decimal?_withReturns]
  generalize s.reader.digitsEnd index = stop
  by_cases percent : s.reader.charAt stop = '%'
  · have other : s.reader.charAt stop ≠ '\n' := by
      rw [percent]
      decide
    have bracket := abreast.texts.charAt_eq_iff (i := stop + 1) (show WithinLine '[' by decide)
    have percent' := (abreast.texts.charAt_eq_iff (show WithinLine '%' by decide)).mpr percent
    rw [← abreast.texts.shift_succ other]
    simp only [percent, percent', true_and, bracket]
    split
    · split
      · exact .fault _ _ rfl
      · apply abreast.block unbroken
        intro close _ opened closing
        rw [← abreast.alike.generator, Generator.below_of_pos s.generator (by decide)]
        have two : shift text stop + 2 = shift text (stop + 2) := by
          rw [opened, abreast.texts.shift_succ other]
        apply Matches.value
        rw [two, ← closing, ← apply_ite (shift text)]
        exact (abreast.drawn _).moveTo _
    · exact .value (abreast.emitLiteral c)
  · have percent' := mt (abreast.texts.charAt_eq_iff (show WithinLine '%' by decide)).mp percent
    rw [if_neg fun both => percent both.1, if_neg fun both => percent' both.1]
    exact .value (abreast.emitLiteral c)

theorem choose (abreast : Abreast text s t) {options options' : Nat} (same : options' = options) :
    Matches (fun a b => b.1.val = a.1.val ∧ b.2 = a.2) (orStop (s.choose options))
      (orStop (t.choose options')) := by
  subst same
  have chosen : t.choose options' = s.choose options' := by
    simp only [State.choose, ← abreast.alike.tag, abreast.salt, ← abreast.alike.generator]
  rw [chosen]
  refine (Matches.refl _).mono ?_
  rintro a _ - - rfl
  exact ⟨rfl, rfl⟩

theorem openSelector (abreast : Abreast text s t) (unbroken : Unbroken text)
    (other : s.reader.charAt index ≠ '\n') :
    Matches (Abreast text) (s.openSelector index) (t.openSelector (shift text index)) := by
  have next := abreast.texts.shift_succ other
  have closing := abreast.texts.closing? '{' '}' (by decide) (by decide) unbroken (index + 1)
  rw [next] at closing
  rw [State.openSelector, State.openSelector, Reader.curlyClose?, Reader.curlyClose?, closing]
  cases closed : s.reader.closing? '{' '}' (index + 1) with
  | none => exact .fault _ _ rfl
  | some close =>
    have body := s.reader.drop_eq_slice_append (index + 1) close
    rw [abreast.texts.here] at body
    have listed : optionStarts 0 (shift text (index + 1)) (withReturns _) = _ :=
      optionStarts_withReturns unbroken body
    rw [← abreast.texts.slice, next] at listed
    dsimp only [Option.map_some]
    rw [listed, ← next, ← List.map_cons]
    generalize (index + 1) :: optionStarts 0 (index + 1) (s.reader.slice (index + 1) close) = starts
    have length : (starts.map (shift text)).length = starts.length := List.length_map _
    by_cases few : starts.length < 2
    · rw [if_pos few, if_pos (length ▸ few), length]
      exact .fault _ _ rfl
    · rw [if_neg few, if_neg (length ▸ few)]
      refine (abreast.choose length).bind ?_
      rintro ⟨choice, drawn⟩ ⟨choice', drawn'⟩ - - ⟨place, rfl⟩
      have place : choice'.val = choice.val := place
      have target : (starts.map (shift text)).get choice' = shift text (starts.get choice) := by
        simp only [List.get_eq_getElem, List.getElem_map, place]
      have opened : Abreast text
          { s with generator := drawn', tag := none, selectors := close :: s.selectors }
          { t with generator := drawn', tag := none, selectors := shift text close :: t.selectors } :=
        { abreast with
          texts := ⟨abreast.texts.here, abreast.texts.there⟩
          selectors := by rw [abreast.selectors, List.map_cons]
          closes := List.forall_mem_cons.mpr
            ⟨Reader.getElem?_of_closing? closed, abreast.closes⟩
          alike := { abreast.alike with generator := rfl, tag := rfl } }
      simp only [target]
      exact .value (opened.moveTo _)

theorem slash (abreast : Abreast text s t) (c : Char) :
    Abreast text (s.slash c) (t.slash c) := by
  unfold State.slash
  rw [abreast.selectors]
  cases opened : s.selectors with
  | nil => exact abreast.emitLiteral c
  | cons close selectors =>
    have closes := abreast.closes
    rw [opened, List.forall_mem_cons] at closes
    have left : Abreast text { s with selectors }
        { t with selectors := selectors.map (shift text) } :=
      { abreast with
        texts := ⟨abreast.texts.here, abreast.texts.there⟩
        selectors := rfl
        closes := closes.2
        alike := { abreast.alike with } }
    have moved := left.moveTo (close + 1)
    rw [abreast.shift_succ closes.1 (by decide)] at moved
    exact moved

theorem closeSelector (abreast : Abreast text s t) :
    Matches (Abreast text) (s.closeSelector index) (t.closeSelector (shift text index)) := by
  unfold State.closeSelector
  rw [abreast.selectors]
  cases opened : s.selectors with
  | nil => exact .fault _ _ rfl
  | cons close selectors =>
    have closes := abreast.closes
    rw [opened, List.forall_mem_cons] at closes
    exact .value { abreast with
      texts := ⟨abreast.texts.here, abreast.texts.there⟩
      selectors := rfl
      closes := closes.2
      alike := { abreast.alike with } }

theorem readTag (abreast : Abreast text s t) (other : s.reader.charAt index ≠ '\n') :
    Matches (Abreast text) (s.readTag index) (t.readTag (shift text index)) := by
  simp only [State.readTag, ← abreast.texts.shift_succ other, abreast.texts.digitsEnd,
    abreast.texts.slice, Text.natural?_withReturns]
  generalize s.reader.digitsEnd (index + 1) = stop
  have curly := abreast.texts.charAt_eq_iff (i := stop) (show WithinLine '{' by decide)
  cases Text.natural? 0xFFFFFFFFFFFFFFFF (s.reader.slice (index + 1) stop) with
  | none => exact .fault _ _ rfl
  | some id =>
    by_cases opened : s.reader.charAt stop = '{'
    · rw [opened, curly.mpr opened]
      have tagged : Abreast text { s with tag := some id.toUInt64 }
          { t with tag := some id.toUInt64 } :=
        abreast.kept { abreast.alike with tag := rfl } ⟨rfl, rfl, rfl, rfl⟩ ⟨rfl, rfl, rfl, rfl⟩
      exact .value (tagged.moveTo stop)
    · have opened' := mt curly.mp opened
      split
      · contradiction
      · split
        · contradiction
        · exact .fault _ _ rfl

theorem repeating (abreast : Abreast text s t) (repetitions : List Repetition) :
    Abreast text { s with repetitions }
      { t with repetitions := repetitions.map (·.shift text) } :=
  { abreast with
    texts := ⟨abreast.texts.here, abreast.texts.there⟩
    repetitions := rfl
    alike := { abreast.alike with } }

theorem markIteration (abreast : Abreast text s t) (depth : Nat) (r : Repetition) :
    Abreast text (s.markIteration depth r) (t.markIteration depth (r.shift text)) := by
  refine abreast.kept ?_ ⟨rfl, rfl, rfl, rfl⟩ ⟨rfl, rfl, rfl, rfl⟩
  have flags := abreast.alike.localFlags
  exact { abreast.alike with
    localFlags := by
      simp only [State.markIteration, flags]
      rfl }

theorem unmarkIteration (abreast : Abreast text s t) (depth : Nat) :
    Abreast text (s.unmarkIteration depth) (t.unmarkIteration depth) := by
  refine abreast.kept ?_ ⟨rfl, rfl, rfl, rfl⟩ ⟨rfl, rfl, rfl, rfl⟩
  have flags := abreast.alike.localFlags
  exact { abreast.alike with localFlags := by simp only [State.unmarkIteration, flags] }

theorem openRepetition (abreast : Abreast text s t) (unbroken : Unbroken text)
    (other : s.reader.charAt index ≠ '\n') :
    Matches (Abreast text) (s.openRepetition index) (t.openRepetition (shift text index)) := by
  have next := abreast.texts.shift_succ other
  simp only [State.openRepetition]
  rw [← next]
  apply abreast.block unbroken
  intro countEnd _ start countBehind
  rw [← countBehind]
  apply abreast.block unbroken
  intro separatorEnd _ separatorStart separatorBehind
  rw [← separatorBehind]
  apply abreast.block unbroken
  intro contentEnd _ contentStart _
  have two : shift text index + 2 = shift text (index + 2) := by rw [start, next]
  rw [two, abreast.texts.slice, Text.trim_withReturns, Count.parse?_withReturns]
  cases Count.parse? (Text.trim (s.reader.slice (index + 2) countEnd)) with
  | none => exact .fault _ _ rfl
  | some count =>
    rw [← abreast.alike.generator]
    refine (Matches.refl _).bind ?_
    rintro ⟨limit, generator⟩ _ - - rfl
    have content : shift text (separatorEnd + 2) = shift text separatorEnd + 2 := by
      rw [contentStart, separatorBehind]
    have separator : shift text (countEnd + 2) = shift text countEnd + 2 := by
      rw [separatorStart, countBehind]
    have fresh : (freshRepetition countEnd separatorEnd contentEnd limit).shift text =
        freshRepetition (shift text countEnd) (shift text separatorEnd) (shift text contentEnd)
          limit := by
      simp only [Repetition.shift, freshRepetition, content, separator]
    have opened := (abreast.drawn generator).repeating
      (freshRepetition countEnd separatorEnd contentEnd limit :: s.repetitions)
    have moved := (opened.markIteration (s.repetitions.length + 1)
      (freshRepetition countEnd separatorEnd contentEnd limit)).moveTo (separatorEnd + 2)
    rw [List.map_cons, fresh, content] at moved
    simp only [abreast.repetitions, List.length_cons, List.length_map]
    exact .value moved

theorem closeBlock (abreast : Abreast text s t) (index : Nat) :
    Abreast text (s.closeBlock index) (t.closeBlock (shift text index)) := by
  unfold State.closeBlock
  rw [abreast.repetitions, Boundary.ofClose_shift, List.length_map]
  generalize Boundary.ofClose index s.repetitions = closed
  obtain ⟨boundary, repetitions⟩ := closed
  have left := abreast.repeating repetitions
  cases repetitions with
  | nil =>
    cases boundary with
    | separator position | content position => exact left.moveTo position
    | finished depth => exact left.unmarkIteration depth
    | inside => exact left
  | cons r outer =>
    cases boundary with
    | separator position | content position => exact (left.markIteration _ r).moveTo position
    | finished depth => exact left.unmarkIteration depth
    | inside => exact left

/-- With letters that are a flag function, the three characters of the call lie on one line. -/
theorem shift_letters (abreast : Abreast text s t) (other : s.reader.charAt index ≠ '\n')
    {function : FlagScope × FlagAction}
    (known : flagFunction? (s.reader.slice (index + 1) (index + 3)) = some function) :
    shift text (index + 3) = shift text index + 3 := by
  obtain ⟨c, d, letters, first, second⟩ := plain_of_flagFunction? known
  have here : s.reader.text[index + 1]? = some c :=
    Reader.getElem?_of_slice (j := 0) (by rw [letters]; rfl)
  have there : s.reader.text[index + 2]? = some d :=
    Reader.getElem?_of_slice (j := 1) (by rw [letters]; rfl)
  rw [abreast.shift_succ there second, abreast.shift_succ here first,
    abreast.texts.shift_succ other]

theorem slice_letters (abreast : Abreast text s t) (other : s.reader.charAt index ≠ '\n') :
    t.reader.slice (shift text index + 1) (shift text index + 3) =
      (withReturns (s.reader.text.toList.drop (index + 1))).take 2 := by
  rw [← abreast.texts.drop, abreast.texts.shift_succ other]
  exact t.reader.slice_two _

/-- Both runs read the same flag function or none, and the same letters of it. -/
theorem letters (abreast : Abreast text s t) (other : s.reader.charAt index ≠ '\n') :
    flagFunction? (t.reader.slice (shift text index + 1) (shift text index + 3)) =
        flagFunction? (s.reader.slice (index + 1) (index + 3)) ∧
      ∀ function, flagFunction? (s.reader.slice (index + 1) (index + 3)) = some function →
        t.reader.slice (shift text index + 1) (shift text index + 3) =
          s.reader.slice (index + 1) (index + 3) := by
  have here : s.reader.slice (index + 1) (index + 3) =
      (s.reader.text.toList.drop (index + 1)).take 2 := s.reader.slice_two _
  rw [abreast.slice_letters other, here]
  constructor
  · exact flagFunction?_withReturns _
  · intro function
    exact letters_withReturns

theorem flag (abreast : Abreast text s t) (unbroken : Unbroken text)
    (other : s.reader.charAt index ≠ '\n')
    (names : ∀ name, s.reader.flagName? index = some name → '\n' ∉ name) :
    Matches (Abreast text) (s.flag index) (t.flag (shift text index)) := by
  obtain ⟨same, quoted⟩ := abreast.letters other
  simp only [State.flag, same]
  cases known : flagFunction? (s.reader.slice (index + 1) (index + 3)) with
  | none => exact .fault _ _ rfl
  | some function =>
    obtain ⟨scope, action⟩ := function
    have three := abreast.shift_letters other known
    simp only [quoted _ known]
    rw [← three]
    apply abreast.block unbroken
    intro nameEnd named nameStart nameBehind
    have four : shift text index + 4 = shift text (index + 4) := by rw [nameStart, three]
    have line : '\n' ∉ Text.trim (s.reader.slice (index + 4) nameEnd) := by
      apply names
      simp [Reader.flagName?, known, named, Except.toOption]
    rw [four, abreast.texts.slice, Text.trim_withReturns, Text.withReturns_eq_self line,
      abreast.alike.flags scope, ← nameBehind]
    split
    · exact .fault _ _ rfl
    · have assigned (flags : Flags) : Abreast text (s.setFlags scope flags)
          (t.setFlags scope flags) :=
        abreast.kept (abreast.alike.setFlags scope flags) (still_setFlags s scope flags)
          (still_setFlags t scope flags)
      cases action with
      | set | unset => exact .value ((assigned _).moveTo (nameEnd + 1))
      | whenSet | whenUnset =>
        apply abreast.block unbroken
        intro bodyEnd _ bodyStart bodyBehind
        have entry : shift text nameEnd + 2 = shift text (nameEnd + 2) := by
          rw [bodyStart, nameBehind]
        rw [entry, ← bodyBehind, ← apply_ite (shift text)]
        exact .value (abreast.moveTo _)

theorem toggleCasing (abreast : Abreast text s t) : Abreast text s.toggleCasing t.toggleCasing := by
  have tilde : t.reader.peek = '~' ↔ s.reader.peek = '~' := by
    rw [Reader.peek, abreast.position, abreast.texts.charAt_eq_iff (by decide)]
    rfl
  unfold State.toggleCasing
  by_cases double : s.reader.peek = '~'
  · have other : s.reader.charAt s.reader.position ≠ '\n' := by
      rw [← Reader.peek, double]
      decide
    have moved := abreast.moveTo (s.reader.position + 1)
    rw [abreast.texts.shift_succ other, ← abreast.position] at moved
    rw [if_pos double, if_pos (tilde.mpr double)]
    refine moved.kept ?_ ⟨rfl, rfl, rfl, rfl⟩ ⟨rfl, rfl, rfl, rfl⟩
    exact { moved.alike with proper := congrArg not abreast.alike.proper }
  · rw [if_neg double, if_neg (mt tilde.mp double)]
    refine abreast.kept ?_ ⟨rfl, rfl, rfl, rfl⟩ ⟨rfl, rfl, rfl, rfl⟩
    exact { abreast.alike with firstPending := congrArg not abreast.alike.firstPending }

theorem randomNumber (abreast : Abreast text s t) (unbroken : Unbroken text)
    (other : s.reader.charAt index ≠ '\n') :
    Matches (Abreast text) (s.randomNumber index) (t.randomNumber (shift text index)) := by
  have next := abreast.texts.shift_succ other
  unfold State.randomNumber
  rw [← next]
  apply abreast.block unbroken
  intro close _ start behind
  have two : shift text index + 2 = shift text (index + 2) := by rw [start, next]
  have range := numberRange_withReturns (s.reader.slice (index + 2) close)
  rw [two, abreast.texts.slice]
  generalize numberRange (withReturns (s.reader.slice (index + 2) close)) = found' at range
  generalize numberRange (s.reader.slice (index + 2) close) = found at range
  cases found with
  | error problem =>
    cases found' with
    | error problem' => exact .fault _ _ (congrArg Fault.malformedNumber (Except.error.inj range))
    | ok bounds => contradiction
  | ok bounds =>
    cases found' with
    | error problem' => contradiction
    | ok bounds' =>
      obtain rfl : bounds' = bounds := Except.ok.inj range
      simp only
      rw [← abreast.alike.generator]
      refine (Matches.refl _).bind ?_
      rintro ⟨value, generator⟩ _ - - rfl
      have drawn : Abreast text { s with generator, article := none }
          { t with generator, article := none } :=
        abreast.kept { abreast.alike with generator := rfl, article := rfl }
          ⟨rfl, rfl, rfl, rfl⟩ ⟨rfl, rfl, rfl, rfl⟩
      have moved := drawn.moveTo (close + 1)
      rw [behind] at moved
      exact .value (moved.kept (moved.alike.emitWord _) ⟨rfl, rfl, rfl, rfl⟩ ⟨rfl, rfl, rfl, rfl⟩)

theorem wordCall (abreast : Abreast text s t) (setting : Setting) :
    Matches (Abreast text) (s.wordCall setting index) (t.wordCall setting (shift text index)) := by
  have read := Call.parse?_withReturns (s.reader.tail index)
  rw [← abreast.texts.tail] at read
  cases here : Call.parse? (s.reader.tail index) with
  | none =>
    rw [here] at read
    have warned := abreast.alike.warn .unrecognizedWordCall index (shift text index)
    simp only [State.wordCall, here, read, Option.map_none]
    exact .value (abreast.kept warned ⟨rfl, rfl, rfl, rfl⟩ ⟨rfl, rfl, rfl, rfl⟩)
  | some call =>
    rw [here] at read
    refine (Matches.of_agree (abreast.alike.wordCall setting here read)).mono ?_
    intro s' t' done done' alike
    obtain ⟨_, _, _, _, _, _, _, _, rfl, place⟩ := wordCall_frame done
    obtain ⟨_, _, _, _, _, _, _, _, rfl, place'⟩ := wordCall_frame done'
    rw [here] at place
    rw [read] at place'
    have behind : shift text (index + call.length) =
        shift text index + shift (s.reader.tail index) call.length := by
      rw [Text.shift_add, Reader.tail_eq, abreast.texts.here]
    have moved := abreast.moveTo (index + call.length)
    rw [behind] at moved
    subst place place'
    exact moved.kept alike ⟨rfl, rfl, rfl, rfl⟩ ⟨rfl, rfl, rfl, rfl⟩

end State.Abreast

end Phrasebook
