import Phrasebook.Proofs.Brackets
import Phrasebook.Proofs.Calls.Execution
import Phrasebook.Proofs.Notices.Lines
import Phrasebook.Proofs.Tags.Places
import Phrasebook.Proofs.Termination

/-! Where faults and warnings point.
A fault gives the place of the construct that failed. Where a block of it does not open or is never
closed, the fault gives the place where that block should open instead. A warning gives the place of
the call that it is about. -/
namespace Phrasebook

def Construct.brackets : Construct → Char × Char
  | outputGroup => ('<', '>')
  | selector => ('{', '}')
  | frequencyBody | repeaterCount | repeaterSeparator | repeaterContent | flagName | flagBody
    | randomNumber => ('[', ']')

/-- The block in square brackets opens at the one place and closes at the other. -/
def Block (text : List Char) (start close : Nat) : Prop :=
  text[start]? = some '[' ∧ Closes '[' ']' text (start + 1) close

/-- Where a part of a construct has to open. The construct begins at the start, and its parts stand
one right behind the other. -/
inductive Opens (text : List Char) (start : Nat) : Construct → Nat → Prop where
  | outputGroup : Opens text start .outputGroup start
  | selector : Opens text start .selector start
  | frequencyBody {stop : Nat} (further : start < stop)
      (digits : ∀ i, start ≤ i → i < stop → (text[i]?).any Char.isDigit = true)
      (percent : text[stop]? = some '%') : Opens text start .frequencyBody (stop + 1)
  | repeaterCount : Opens text start .repeaterCount (start + 1)
  | repeaterSeparator {countEnd : Nat} (count : Block text (start + 1) countEnd) :
      Opens text start .repeaterSeparator (countEnd + 1)
  | repeaterContent {countEnd separatorEnd : Nat} (count : Block text (start + 1) countEnd)
      (separator : Block text (countEnd + 1) separatorEnd) :
      Opens text start .repeaterContent (separatorEnd + 1)
  | flagName : Opens text start .flagName (start + 3)
  | flagBody {nameEnd : Nat} (name : Block text (start + 3) nameEnd) :
      Opens text start .flagBody (nameEnd + 1)
  | randomNumber : Opens text start .randomNumber (start + 1)

/-- The part that should open here does not, or nothing closes it. -/
inductive Lacking (brackets : Char × Char) (text : List Char) (place : Nat) : Prop where
  | opening (within : place ≤ text.length) (absent : text[place]? ≠ some brackets.1)
  | closing (opened : text[place]? = some brackets.1)
      (unclosed : ∀ close, ¬ Closes brackets.1 brackets.2 text (place + 1) close)

/-- The character that a construct begins with. -/
def Construct.Begins (c : Char) : Construct → Prop
  | outputGroup => c = '<'
  | selector => c = '{'
  | frequencyBody => c.isDigit = true
  | repeaterCount | repeaterSeparator | repeaterContent => c = '^'
  | flagName | flagBody => c = '$'
  | randomNumber => c = '#'

/-- The character at which a construct with the fault begins. -/
def Fault.Begins (c : Char) : Fault → Prop
  | unterminated construct => construct.Begins c
  | malformedGroup => c = '<'
  | unmatchedGroupClose => c = '>'
  | zeroFrequency => c.isDigit = true
  | selectorArity _ => c = '{'
  | unmatchedSelectorClose => c = '}'
  | malformedUniform => c = '*'
  | malformedRepeater _ => c = '^'
  | unknownFlagFunction _ | missingFlagName _ => c = '$'
  | malformedNumber _ => c = '#'
  | wordCall _ => c = '+'

/-- The place that a fault of a construct gives, if the construct begins at the start. -/
def Fault.Points (text : List Char) (start index : Nat) : Fault → Prop
  | unterminated construct =>
    Opens text start construct index ∧ Lacking construct.brackets text index
  | _ => index = start

/-- The error of what does not succeed. -/
def toError? {ε α : Type} : Except ε α → Option ε
  | .error e => some e
  | .ok _ => none

theorem toError?_eq_some {ε α : Type} {x : Except ε α} {e : ε} :
    toError? x = some e ↔ x = .error e := by
  cases x <;> simp [toError?]

theorem Sign.digit_ofChar {c : Char} (h : ofChar c = digit) : c.isDigit = true := by
  unfold ofChar at h
  split at h
  all_goals
    first
      | contradiction
      | split at h <;> first | assumption | contradiction

/-- A construct with a fault of a sign begins with the character of the sign. -/
theorem Fault.begins_of_sign {cause : Fault} {c : Char} (h : Sign.ofChar c = cause.sign) :
    cause.Begins c := by
  have single (d : Char) (one : cause.sign.char? = some d) : c = d := Sign.char?_ofChar (h ▸ one)
  cases cause with
  | unterminated construct =>
    cases construct with
    | frequencyBody => exact Sign.digit_ofChar h
    | outputGroup | selector | repeaterCount | repeaterSeparator | repeaterContent | flagName
      | flagBody | randomNumber => exact single _ rfl
  | zeroFrequency => exact Sign.digit_ofChar h
  | malformedGroup | unmatchedGroupClose | selectorArity | unmatchedSelectorClose
    | malformedUniform | malformedRepeater | unknownFlagFunction | missingFlagName
    | malformedNumber | wordCall => exact single _ rfl

/-- What does not succeed ends in a fault that gives a place of the construct at the start. -/
def Pins {α : Type} (text : List Char) (start : Nat) (r : Except Stop α) : Prop :=
  ∀ cause index, r = .error (.fault cause index) → cause.Points text start index

namespace Pins

variable {α β : Type} {text : List Char} {start : Nat}

theorem ok (a : α) : Pins text start (.ok a) := by
  intro cause index same
  contradiction

theorem fault {cause : Fault} {index : Nat} (points : cause.Points text start index) :
    Pins text start (.error (.fault cause index) : Except Stop α) := by
  intro cause' index' same
  cases same
  exact points

theorem bind {x : Except Stop α} {f : α → Except Stop β} (hx : Pins text start x)
    (hf : ∀ a, x = .ok a → Pins text start (f a)) : Pins text start (x >>= f) := by
  cases x with
  | error stop =>
    intro cause index same
    cases same
    exact hx cause index rfl
  | ok a => exact hf a rfl

theorem orStop (drawn : Except RangeError α) : Pins text start (orStop drawn) := by
  cases drawn with
  | error cause =>
    intro _ _ same
    cases Except.error.inj same
  | ok a => exact .ok a

end Pins

namespace Reader

variable {r : Reader} {construct : Construct} {start place close i : Nat}

theorem block_of_blockEnd (h : r.blockEnd place construct = .ok close) :
    Block r.text.toList place close := by
  obtain ⟨opened, closed⟩ := blockEnd_ok h
  refine ⟨?_, (closing?_eq_some_iff (by decide) (by decide) (by decide)).mp closed⟩
  rw [Array.getElem?_toList]
  exact getElem?_of_charAt opened (by decide)

theorem lt_of_block (h : Block r.text.toList place close) : close < r.text.size := by
  obtain ⟨-, closes⟩ := h
  have closed := (closing?_eq_some_iff (by decide) (by decide) (by decide)).mpr closes
  obtain ⟨inside, -⟩ := Array.getElem?_eq_some_iff.mp (getElem?_of_closing? closed)
  exact inside

theorem pins_blockEnd (square : construct.brackets = ('[', ']'))
    (opens : Opens r.text.toList start construct place) (within : place ≤ r.text.size) :
    Pins r.text.toList start (r.blockEnd place construct) := by
  unfold blockEnd
  split
  · rename_i opened
    split
    · exact .ok _
    · rename_i unclosed
      apply Pins.fault
      refine ⟨opens, ?_⟩
      rw [square]
      apply Lacking.closing
      · rw [Array.getElem?_toList]
        exact getElem?_of_charAt opened (by decide)
      · exact not_closes_of_closing?_none (by decide) (by decide) (by decide) unclosed
  · rename_i unopened
    apply Pins.fault
    refine ⟨opens, ?_⟩
    rw [square]
    apply Lacking.opening
    · rwa [Array.length_toList]
    · intro opened
      rw [Array.getElem?_toList] at opened
      exact unopened (charAt_of_getElem? opened)

theorem digit_of_lt_digitsEnd (after : start ≤ i) (before : i < r.digitsEnd start) :
    (r.text.toList[i]?).any Char.isDigit = true := by
  fun_induction digitsEnd r start with
  | case1 start digit ih =>
    by_cases first : start = i
    · subst first
      have inside := r.lt_size_of_isDigit digit
      rw [charAt, Array.getElem?_eq_getElem inside, Option.getD_some] at digit
      rw [Array.getElem?_toList, Array.getElem?_eq_getElem inside, Option.any_some]
      exact digit
    · exact ih (by omega) before
  | case2 start _ => omega

theorem lt_digitsEnd (digit : (r.charAt i).isDigit = true) : i < r.digitsEnd i := by
  rw [digitsEnd, if_pos digit]
  exact r.le_digitsEnd (i + 1)

end Reader

namespace State

variable {setting : Setting} {s : State} {c : Char} {index : Nat}

theorem pins_openGroup (here : s.reader.text.toList[index]? = some '<') :
    Pins s.reader.text.toList index (s.openGroup index) := by
  simp only [openGroup]
  split
  · rename_i unclosed
    apply Pins.fault
    refine ⟨.outputGroup, .closing here ?_⟩
    exact Reader.not_closes_of_closing?_none (by decide) (by decide) (by decide) unclosed
  · split
    · exact .fault rfl
    · split
      · exact .fault rfl
      · exact .ok _

theorem pins_closeGroup : Pins s.reader.text.toList index (s.closeGroup index) := by
  unfold closeGroup
  split
  · exact .ok _
  · exact .fault rfl

theorem pins_digit (digit : (s.reader.charAt index).isDigit = true) :
    Pins s.reader.text.toList index (s.digit c index) := by
  simp only [State.digit]
  split
  · rename_i marks
    split
    · exact .fault rfl
    · have percent := Reader.getElem?_of_charAt marks.1 (by decide)
      rw [← Array.getElem?_toList] at percent
      have opened := Reader.getElem?_of_charAt marks.2 (by decide)
      obtain ⟨inside, -⟩ := Array.getElem?_eq_some_iff.mp opened
      have opens : Opens s.reader.text.toList index .frequencyBody
          (s.reader.digitsEnd index + 1) :=
        .frequencyBody (Reader.lt_digitsEnd digit) (fun _ => Reader.digit_of_lt_digitsEnd) percent
      apply Pins.bind (Reader.pins_blockEnd rfl opens (Nat.le_of_lt inside))
      intro close _
      exact .bind (.orStop _) fun _ _ => .ok _
  · exact .ok _

theorem pins_openSelector (here : s.reader.text.toList[index]? = some '{') :
    Pins s.reader.text.toList index (s.openSelector index) := by
  simp only [openSelector]
  split
  · rename_i unclosed
    apply Pins.fault
    refine ⟨.selector, .closing here ?_⟩
    exact Reader.not_closes_of_closing?_none (by decide) (by decide) (by decide) unclosed
  · split
    · exact .fault rfl
    · exact .bind (.orStop _) fun _ _ => .ok _

theorem pins_closeSelector : Pins s.reader.text.toList index (s.closeSelector index) := by
  unfold closeSelector
  split
  · exact .ok _
  · exact .fault rfl

theorem pins_readTag : Pins s.reader.text.toList index (s.readTag index) := by
  simp only [readTag]
  split
  · exact .ok _
  · exact .fault rfl

theorem pins_openRepetition (inside : index < s.reader.text.size) :
    Pins s.reader.text.toList index (s.openRepetition index) := by
  simp only [openRepetition]
  apply Pins.bind (Reader.pins_blockEnd rfl .repeaterCount inside)
  intro countEnd counted
  have count := Reader.block_of_blockEnd counted
  apply Pins.bind (Reader.pins_blockEnd rfl (.repeaterSeparator count) (Reader.lt_of_block count))
  intro separatorEnd separated
  have separator := Reader.block_of_blockEnd separated
  apply Pins.bind (Reader.pins_blockEnd rfl (.repeaterContent count separator)
    (Reader.lt_of_block separator))
  intro contentEnd _
  split
  · exact .fault rfl
  · exact .bind (.orStop _) fun _ _ => .ok _

/-- The letters of a known function lie in the text. -/
theorem le_size_of_flagFunction {function : FlagScope × FlagAction}
    (known : flagFunction? (s.reader.slice (index + 1) (index + 3)) = some function) :
    index + 3 ≤ s.reader.text.size := by
  have letters : (s.reader.slice (index + 1) (index + 3)).length = 2 := by
    unfold flagFunction? at known
    split at known
    · rename_i letters
      rw [letters]
      rfl
    · contradiction
  rw [Reader.length_slice] at letters
  omega

theorem pins_flag : Pins s.reader.text.toList index (s.flag index) := by
  simp only [flag]
  split
  · exact .fault rfl
  · rename_i known
    apply Pins.bind (Reader.pins_blockEnd rfl .flagName (le_size_of_flagFunction known))
    intro nameEnd named
    have name := Reader.block_of_blockEnd named
    split
    · exact .fault rfl
    · split
      · exact .ok _
      · exact .ok _
      all_goals
        apply Pins.bind (Reader.pins_blockEnd rfl (.flagBody name) (Reader.lt_of_block name))
        intro bodyEnd _
        exact .ok _

theorem pins_randomNumber (inside : index < s.reader.text.size) :
    Pins s.reader.text.toList index (s.randomNumber index) := by
  unfold randomNumber
  apply Pins.bind (Reader.pins_blockEnd rfl .randomNumber inside)
  intro close _
  split
  · exact .fault rfl
  · exact .bind (.orStop _) fun _ _ => .ok _

theorem pins_pickFresh (text : List Char) (lexicon : Lexicon) (call : Call) (index : Nat)
    (g : Generator) : Pins text index (pickFresh lexicon call index g) := by
  have pick := freshPick_pickFresh lexicon call index g
  generalize pickFresh lexicon call index g = r at pick ⊢
  cases pick with
  | fault => exact .fault rfl
  | doubt => exact .ok _
  | draw => exact .bind (.orStop _) fun _ _ => .ok _

theorem pins_wordCall (text : List Char) : Pins text index (s.wordCall setting index) := by
  simp only [wordCall]
  split
  · exact .ok _
  · split
    · exact .ok _
    · apply Pins.bind
      · simp only [pickWord]
        split
        · exact .ok _
        · apply Pins.bind (pins_pickFresh text _ _ index _)
          intro picked _
          cases picked.1 <;> exact .ok _
      · intro picked _
        split
        · exact .ok _
        · simp only [writeWord]
          split
          · exact .ok _
          · exact .ok _
          · exact .fault rfl

theorem pins_perform (here : s.reader.text.toList[index]? = some c) :
    Pins s.reader.text.toList index (s.perform setting c index) := by
  have entry := here
  rw [Array.getElem?_toList] at entry
  obtain ⟨inside, -⟩ := Array.getElem?_eq_some_iff.mp entry
  have single (d : Char) (one : (Sign.ofChar c).char? = some d) :
      s.reader.text.toList[index]? = some d := by
    rw [here, Sign.char?_ofChar one]
  have digit : Sign.ofChar c = .digit → c.isDigit = true := Sign.digit_ofChar
  unfold perform
  generalize Sign.ofChar c = sign at single digit
  cases sign with
  | openGroup => exact pins_openGroup (single '<' rfl)
  | closeGroup => exact pins_closeGroup
  | digit =>
    apply pins_digit
    rw [Reader.charAt_of_getElem? entry]
    exact digit rfl
  | openSelector => exact pins_openSelector (single '{' rfl)
  | closeSelector => exact pins_closeSelector
  | tag => exact pins_readTag
  | repetition => exact pins_openRepetition inside
  | flag => exact pins_flag
  | call => exact pins_wordCall _
  | number => exact pins_randomNumber inside
  | escape | slash | openBlock | closeBlock | lineBreak | carriageReturn | casing | upper
  | literal => exact .ok _

theorem getElem?_peek (more : s.reader.atEnd = false) :
    s.reader.text.toList[s.reader.position]? = some s.reader.peek := by
  have inside := Reader.position_lt more
  rw [Array.getElem?_toList, Reader.peek, Reader.charAt, Array.getElem?_eq_getElem inside,
    Option.getD_some]

/-- A step that fails is at the beginning of a construct, and its fault gives a place of it. -/
theorem points_of_step {cause : Fault} (more : s.reader.atEnd = false)
    (stopped : s.step setting = .error (.fault cause index)) :
    cause.Begins s.reader.peek ∧ cause.Points s.reader.text.toList s.reader.position index := by
  constructor
  · exact Fault.begins_of_sign (sign_of_fault stopped)
  · have read : s.reader.read.2.text.toList[s.reader.position]? = some s.reader.peek :=
      getElem?_peek more
    exact pins_perform (s := { s with reader := s.reader.read.2 }) read cause index stopped

theorem warnings_of_pickWord {t : State} {lexicon : Lexicon} {call : Call} {picked? : Option Nat}
    (h : s.pickWord lexicon call index = .ok (picked?, t)) :
    (picked? = none ∧ ∃ cause, t.warnings = ⟨cause, index⟩ :: s.warnings) ∨
      ∃ i, picked? = some i ∧ t.warnings = s.warnings := by
  rcases pickWord_ok h with ⟨i, _, _, _, rfl, rfl⟩ | ⟨_, ⟨cause, _, rfl, rfl⟩ | ⟨i, _, rfl, rfl⟩⟩
  · exact .inr ⟨i, rfl, rfl⟩
  · exact .inl ⟨rfl, cause, rfl⟩
  · exact .inr ⟨i, rfl, rfl⟩

/-- A step warns at most once, and only of the call that it reads. -/
theorem warnings_of_step {t : State} (stepped : s.step setting = .ok t) :
    t.warnings = s.warnings ∨
      s.reader.peek = '+' ∧ ∃ cause, t.warnings = ⟨cause, s.reader.position⟩ :: s.warnings := by
  by_cases calls : Sign.ofChar s.reader.peek = .call
  · have plus : s.reader.peek = '+' := Sign.char?_ofChar (by rw [calls]; rfl)
    unfold step perform at stepped
    rw [calls] at stepped
    rcases wordCall_ok stepped with ⟨_, rfl⟩ | ⟨call, u, _, rfl, effect⟩
    · exact .inr ⟨plus, _, rfl⟩
    · rcases effect with ⟨_, rfl⟩ | ⟨lexicon, picked?, v, _, picked, done⟩
      · exact .inr ⟨plus, _, rfl⟩
      · rcases warnings_of_pickWord picked with ⟨rfl, cause, told⟩ | ⟨i, rfl, untold⟩
        · rcases done with ⟨-, rfl⟩ | ⟨_, present, -⟩
          · exact .inr ⟨plus, cause, told⟩
          · contradiction
        · rcases done with ⟨absent, -⟩ | ⟨_, _, written⟩
          · contradiction
          · obtain ⟨_, _, same | ⟨symbol, subtype, told⟩⟩ := writeWord_keeps written
            · exact .inl (same.trans untold)
            · rw [untold] at told
              exact .inr ⟨plus, _, told⟩
  · have told : Untold { s with reader := s.reader.read.2 } t := untold_perform stepped calls
    exact .inl told.warnings

/-- A step of the run over the text gives the warning, and reads the call at its index. -/
structure Warns (setting : Setting) (text : List Char) (first : State) (w : Warning)
    (s t : State) : Prop where
  reached : Reaches setting first s
  more : s.reader.atEnd = false
  stepped : s.step setting = .ok t
  told : t.warnings = w :: s.warnings
  place : s.reader.position = w.index
  call : text[w.index]? = some '+'

/-- A step of the run over the text fails, at the beginning of the construct that the fault is
about. -/
structure Fails (setting : Setting) (text : List Char) (first : State) (cause : Fault)
    (index : Nat) (s : State) : Prop where
  reached : Reaches setting first s
  more : s.reader.atEnd = false
  stopped : s.step setting = .error (.fault cause index)
  begins : ∃ c, text[s.reader.position]? = some c ∧ cause.Begins c
  points : cause.Points text s.reader.position index

variable {text : List Char} {flags : Flags} {g : Generator}

theorem text_of_reaches (reached : Reaches setting (start text flags g) s) :
    s.reader.text.toList = text := by
  have sound := (Sound.start text flags g).reaches reached
  rw [sound.unchanged]

theorem exists_warns (reached : Reaches setting (start text flags g) s) :
    ∀ w ∈ s.warnings, ∃ u v, Warns setting text (start text flags g) w u v := by
  have invariant : Reaches setting (start text flags g) s ∧
      ∀ w ∈ s.warnings, ∃ u v, Warns setting text (start text flags g) w u v := by
    apply reached.preserves (P := fun r => Reaches setting (start text flags g) r ∧
      ∀ w ∈ r.warnings, ∃ u v, Warns setting text (start text flags g) w u v)
    · intro u v ⟨before, told⟩ more stepped
      refine ⟨before.trans (.one more stepped), ?_⟩
      rcases warnings_of_step stepped with same | ⟨plus, cause, added⟩
      · rw [same]
        exact told
      · intro w member
        rw [added] at member
        rcases List.mem_cons.mp member with rfl | earlier
        · have here := getElem?_peek more
          rw [text_of_reaches before, plus] at here
          exact ⟨u, v, before, more, stepped, added, rfl, here⟩
        · exact told w earlier
    · refine ⟨.refl _, ?_⟩
      intro w member
      contradiction
  exact invariant.2

theorem exists_fails {stop : Stop} (reached : Reaches setting (start text flags g) s)
    (more : s.reader.atEnd = false) (stopped : s.step setting = .error stop) :
    (∃ cause index, stop = .fault cause index ∧
      Fails setting text (start text flags g) cause index s) ∨
      stop = .draw .zeroBound ∧ s.Overfull setting := by
  cases stop with
  | draw cause =>
    obtain ⟨rfl, full⟩ := blames_step setting s _ stopped
    exact .inr ⟨rfl, full⟩
  | fault cause index =>
    obtain ⟨begins, points⟩ := points_of_step more stopped
    have here := getElem?_peek more
    rw [text_of_reaches reached] at here points
    exact .inl ⟨cause, index, rfl, reached, more, stopped, ⟨_, here, begins⟩, points⟩

/-- The last state of a run has all its warnings, and where the run fails, the next step does. -/
theorem exists_last (setting : Setting) (text : List Char) (flags : Flags) (g : Generator) :
    ∃ s, Reaches setting (start text flags g) s ∧
      (evaluate setting text flags g).warnings = s.warnings.reverse ∧
      ∀ stop, (evaluate setting text flags g).result = .error stop →
        s.reader.atEnd = false ∧ s.step setting = .error stop := by
  obtain ⟨n, s, steps, halted⟩ := exists_halted setting (start text flags g)
  have reached : Reaches setting (start text flags g) s := ⟨n, steps⟩
  refine ⟨s, reached, ?_⟩
  cases more : s.reader.atEnd with
  | true =>
    rw [evaluate_of_reaches reached more]
    refine ⟨rfl, ?_⟩
    intro stop failed
    contradiction
  | false =>
    rcases halted with ended | ⟨stop, stopped⟩
    · rw [ended] at more
      contradiction
    · rw [evaluate_of_stopped reached more stopped]
      refine ⟨rfl, ?_⟩
      intro stop' failed
      cases failed
      exact ⟨rfl, stopped⟩

/-- Every warning gives the place of a call that the run has read, and a fault gives the place of
the construct that failed, or of the part of it that does not open or close. Only a choice that is
refused stops a run without a place. Lines and columns tell the places apart, and stand in their
order. -/
theorem evaluate_places (setting : Setting) (text : List Char) (flags : Flags) (g : Generator) :
    (∀ w ∈ (evaluate setting text flags g).warnings,
      ∃ s t, Warns setting text (start text flags g) w s t) ∧
    (∀ stop, (evaluate setting text flags g).result = .error stop →
      (∃ cause index s, stop = .fault cause index ∧
        Fails setting text (start text flags g) cause index s) ∨
        stop = .draw .zeroBound ∧ ∃ s, Reaches setting (start text flags g) s ∧
          s.Overfull setting) ∧
    ∀ severity severity' stage stage' message message' i j, i ≤ text.length → j ≤ text.length →
      ((Notice.about severity stage message text i).place =
        (Notice.about severity' stage' message' text j).place → i = j) ∧
      (Precedes (Notice.about severity stage message text i).place
        (Notice.about severity' stage' message' text j).place ↔ i < j) := by
  obtain ⟨s, reached, told, failing⟩ := exists_last setting text flags g
  refine ⟨?_, ?_, ?_⟩
  · intro w member
    rw [told, List.mem_reverse] at member
    exact exists_warns reached w member
  · intro stop failed
    obtain ⟨more, stopped⟩ := failing stop failed
    rcases exists_fails reached more stopped with ⟨cause, index, same, fails⟩ | ⟨same, full⟩
    · exact .inl ⟨cause, index, s, same, fails⟩
    · exact .inr ⟨same, s, reached, full⟩
  · intro severity severity' stage stage' message message' i j first second
    exact ⟨Notice.place_injective severity severity' stage stage' message message' first second,
      Notice.place_precedes_iff severity severity' stage stage' message message' first second⟩

/-- A call of an unknown symbol in one line, and an open range in the next. -/
def unclosedRange : List Char := "on +n:\n#[5".toList

theorem evaluate_places_unclosed :
    (∃ s t, Warns ⟨∅, "\n"⟩ unclosedRange (start unclosedRange ∅ (Generator.ofSeed 7 0))
        ⟨.unknownSymbol 'n', 3⟩ s t) ∧
      (∃ s, Fails ⟨∅, "\n"⟩ unclosedRange (start unclosedRange ∅ (Generator.ofSeed 7 0))
        (.unterminated .randomNumber) 8 s) ∧
      Precedes (Notice.about .warning .evaluation "first" unclosedRange 3).place
        (Notice.about .error .evaluation "second" unclosedRange 8).place := by
  have run : (advance? ⟨∅, "\n"⟩ 6 (start unclosedRange ∅ (Generator.ofSeed 7 0))).map
      (fun s => (s.warnings, s.reader.atEnd, toError? (s.step ⟨∅, "\n"⟩))) =
      some ([⟨.unknownSymbol 'n', 3⟩], false, some (.fault (.unterminated .randomNumber) 8)) := by
    decide +kernel
  obtain ⟨s, came, facts⟩ := Option.map_eq_some_iff.mp run
  obtain ⟨told, more, stopped⟩ : s.warnings = [⟨.unknownSymbol 'n', 3⟩] ∧
      s.reader.atEnd = false ∧
      toError? (s.step ⟨∅, "\n"⟩) = some (.fault (.unterminated .randomNumber) 8) := by
    simpa only [Prod.mk.injEq] using facts
  have reached := reaches_of_advance? came
  have whole := evaluate_of_stopped reached more (toError?_eq_some.mp stopped)
  obtain ⟨warned, failed, ordered⟩ :=
    evaluate_places ⟨∅, "\n"⟩ unclosedRange ∅ (Generator.ofSeed 7 0)
  rw [whole] at warned failed
  refine ⟨warned _ ?_, ?_, ?_⟩
  · rw [told]
    exact List.mem_singleton_self _
  · rcases failed _ rfl with ⟨cause, index, t, same, fails⟩ | ⟨same, _⟩
    · cases same
      exact ⟨t, fails⟩
    · cases same
  · exact (ordered _ _ _ _ _ _ 3 8 (by decide) (by decide)).2.mpr (by decide)

end State

end Phrasebook
