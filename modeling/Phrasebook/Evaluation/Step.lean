import Phrasebook.Call
import Phrasebook.Evaluation.State

/-! One step of a run: a character is read, and the construct that it begins is carried out.
Positions are absolute, and `index` is always that of the character just read. -/
namespace Phrasebook

/-- What a character means at the place where a step reads it. -/
inductive Sign where
  | escape
  | openGroup
  | closeGroup
  | digit
  | openSelector
  | slash
  | closeSelector
  | tag
  | repetition
  | openBlock
  | closeBlock
  | flag
  | call
  | lineBreak
  | carriageReturn
  | casing
  | upper
  | number
  | literal
deriving Repr, DecidableEq

def Sign.ofChar : Char → Sign
  | '\\' => escape
  | '<' => openGroup
  | '>' => closeGroup
  | '{' => openSelector
  | '/' => slash
  | '}' => closeSelector
  | '*' => tag
  | '^' => repetition
  | '[' => openBlock
  | ']' => closeBlock
  | '$' => flag
  | '+' => call
  | '|' => lineBreak
  | '\n' => lineBreak
  | '\r' => carriageReturn
  | '~' => casing
  | '@' => upper
  | '#' => number
  | c => if c.isDigit then digit else literal

namespace Reader

theorem lt_size_of_isDigit (r : Reader) {i : Nat} (h : (r.charAt i).isDigit = true) :
    i < r.text.size := by
  apply Nat.lt_of_not_le
  intro beyond
  simp [charAt, Array.getElem?_eq_none beyond, endMark] at h

def digitsEnd (r : Reader) (i : Nat) : Nat :=
  if (r.charAt i).isDigit then digitsEnd r (i + 1) else i
termination_by r.text.size - i
decreasing_by
  have : i < r.text.size := r.lt_size_of_isDigit (by assumption)
  omega

def blockEnd (r : Reader) (start : Nat) (construct : Construct) : Except Stop Nat :=
  if r.charAt start = '[' then
    match r.squareClose? (start + 1) with
    | some close => .ok close
    | none => .error (.fault (.unterminated construct) start)
  else .error (.fault (.unterminated construct) start)

end Reader

/-- The starts of the options after the first, in the body of a selector that begins at `i`. -/
def optionStarts (depth i : Nat) : List Char → List Nat
  | [] => []
  | c :: rest =>
    if c = '\\' then
      match rest with
      | [] => []
      | _ :: rest => optionStarts depth (i + 2) rest
    else if c = '{' then optionStarts (depth + 1) (i + 1) rest
    else if c = '}' then optionStarts (depth - 1) (i + 1) rest
    else if c = '/' ∧ depth = 0 then (i + 1) :: optionStarts depth (i + 1) rest
    else optionStarts depth (i + 1) rest

section optionStarts

variable {c : Char} {depth i : Nat} {rest : List Char}

theorem optionStarts_escape (c : Char) :
    optionStarts depth i ('\\' :: c :: rest) = optionStarts depth (i + 2) rest := by
  simp [optionStarts]

theorem optionStarts_opening :
    optionStarts depth i ('{' :: rest) = optionStarts (depth + 1) (i + 1) rest := by
  rw [optionStarts.eq_def]
  simp

theorem optionStarts_closing :
    optionStarts depth i ('}' :: rest) = optionStarts (depth - 1) (i + 1) rest := by
  rw [optionStarts.eq_def]
  simp

theorem optionStarts_slash_zero :
    optionStarts 0 i ('/' :: rest) = (i + 1) :: optionStarts 0 (i + 1) rest := by
  rw [optionStarts.eq_def]
  simp

theorem optionStarts_slash_succ :
    optionStarts (depth + 1) i ('/' :: rest) = optionStarts (depth + 1) (i + 1) rest := by
  rw [optionStarts.eq_def]
  simp

theorem optionStarts_other (h : c ∉ ['\\', '{', '}', '/']) :
    optionStarts depth i (c :: rest) = optionStarts depth (i + 1) rest := by
  simp only [List.mem_cons, List.not_mem_nil, or_false, not_or] at h
  rw [optionStarts.eq_def]
  simp [h]

end optionStarts

inductive Count where
  | exactly (n : Nat)
  | between (min max : Nat)
deriving Repr, DecidableEq

namespace Count

/-- A positive number, or two of them in order with a hyphen between. -/
def parse? (text : List Char) : Option Count :=
  match Text.cut? '-' text with
  | some (low, high) => do
    let min ← Text.natural? 0xFFFFFFFF (Text.trim low)
    let max ← Text.natural? 0xFFFFFFFF (Text.trim high)
    if min = 0 ∨ max < min then none else some (between min max)
  | none => do
    let n ← Text.natural? 0xFFFFFFFF text
    if n = 0 then none else some (exactly n)

def draw (g : Generator) : Count → Except RangeError (UInt32 × Generator)
  | exactly n => .ok (n.toUInt32, g)
  | between min max => do
    let (n, g) ← g.range min (max + 1)
    return (UInt32.ofInt n, g)

end Count

inductive FlagScope where
  | run
  | lasting
deriving Repr, DecidableEq

inductive FlagAction where
  | set
  | unset
  | whenSet
  | whenUnset
deriving Repr, DecidableEq

def FlagScope.ofChar? : Char → Option FlagScope
  | 'l' => some run
  | 'g' => some lasting
  | _ => none

def FlagAction.ofChar? : Char → Option FlagAction
  | 's' => some set
  | 'u' => some unset
  | '?' => some whenSet
  | '!' => some whenUnset
  | _ => none

def flagFunction? : List Char → Option (FlagScope × FlagAction)
  | [scope, action] => do return (← FlagScope.ofChar? scope, ← FlagAction.ofChar? action)
  | _ => none

/-- The bounds in the body of a random number. The hyphen between them is the first one after the
first character, so that the lower bound may be negative. -/
def numberRange (body : List Char) : Except NumberProblem (Int × Int) :=
  let parts? := match body with
    | [] => none
    | c :: rest =>
      (Text.cut? '-' rest).map fun (low, high) => (Text.trim (c :: low), Text.trim high)
  match parts? with
  | none => .error (.noRange (String.ofList body))
  | some (low, high) =>
    match Text.integer? low, Text.integer? high with
    | none, _ => .error (.minimum (String.ofList low))
    | some _, none => .error (.maximum (String.ofList high))
    | some min, some max => if min < max then .ok (min, max) else .error (.order min max)

def orStop {α : Type} (drawn : Except RangeError α) : Except Stop α := drawn.mapError .draw

namespace State

def escape (s : State) : State :=
  let (c, reader) := s.reader.read
  let s := { s with reader }
  if c = Reader.endMark then s else s.emitRaw c

def openGroup (s : State) (index : Nat) : Except Stop State :=
  match s.reader.angleClose? (index + 1) with
  | none => .error (.fault (.unterminated .outputGroup) index)
  | some close =>
    match s.reader.findChar? ':' (index + 1) with
    | none => .error (.fault .malformedGroup index)
    | some colon =>
      let raw := s.reader.slice (index + 1) colon
      let name := (Group.ofRaw raw).name
      if close ≤ colon ∨ name.isEmpty ∨ name.toList.any Letter.isBlank then
        .error (.fault .malformedGroup index)
      else .ok ({ s with streams := s.streams.push raw }.moveTo (colon + 1))

def closeGroup (s : State) (index : Nat) : Except Stop State :=
  match s.streams.pop with
  | some (_, streams) => .ok { s with streams }
  | none => .error (.fault .unmatchedGroupClose index)

/-- `NN%[body]` runs its body if a draw from 0 to 100 does not exceed the number. Other digits are
plain text. -/
def digit (s : State) (c : Char) (index : Nat) : Except Stop State :=
  let stop := s.reader.digitsEnd index
  if s.reader.charAt stop = '%' ∧ s.reader.charAt (stop + 1) = '[' then
    let percent := min ((Text.decimal? (s.reader.slice index stop)).getD 0) 100
    if percent = 0 then .error (.fault .zeroFrequency index)
    else do
      let close ← s.reader.blockEnd (stop + 1) .frequencyBody
      let (drawn, generator) ← orStop (s.generator.below 101)
      let target := if drawn.val ≤ percent then stop + 2 else close + 1
      return { s with generator }.moveTo target
  else .ok (s.emitLiteral c)

/-- The option that a selector runs: by its tag, which fixes it for the run, or else by a draw. -/
def choose (s : State) (options : Nat) : Except RangeError (Fin options × Generator) :=
  match s.tag with
  | none => s.generator.oneOf options
  | some tag =>
    if positive : 0 < options then
      .ok (⟨Frame.value ⟨s.salt, tag.toInt64⟩ % options, Nat.mod_lt _ positive⟩, s.generator)
    else .error .zeroBound

def openSelector (s : State) (index : Nat) : Except Stop State :=
  match s.reader.curlyClose? (index + 1) with
  | none => .error (.fault (.unterminated .selector) index)
  | some close =>
    let body := s.reader.slice (index + 1) close
    let starts := (index + 1) :: optionStarts 0 (index + 1) body
    if starts.length < 2 then .error (.fault (.selectorArity starts.length) index)
    else do
      let (choice, generator) ← orStop (s.choose starts.length)
      return { s with
        generator, tag := none, selectors := close :: s.selectors }.moveTo (starts.get choice)

def slash (s : State) (c : Char) : State :=
  match s.selectors with
  | close :: selectors => { s with selectors }.moveTo (close + 1)
  | [] => s.emitLiteral c

def closeSelector (s : State) (index : Nat) : Except Stop State :=
  match s.selectors with
  | _ :: selectors => .ok { s with selectors }
  | [] => .error (.fault .unmatchedSelectorClose index)

def readTag (s : State) (index : Nat) : Except Stop State :=
  let stop := s.reader.digitsEnd (index + 1)
  let id := Text.natural? 0xFFFFFFFFFFFFFFFF (s.reader.slice (index + 1) stop)
  match id, s.reader.charAt stop with
  | some id, '{' => .ok ({ s with tag := some id.toUInt64 }.moveTo stop)
  | _, _ => .error (.fault .malformedUniform index)

/-- `^[count][separator][content]` enters its content for the first time. -/
def openRepetition (s : State) (index : Nat) : Except Stop State := do
  let countEnd ← s.reader.blockEnd (index + 1) .repeaterCount
  let separatorEnd ← s.reader.blockEnd (countEnd + 1) .repeaterSeparator
  let contentEnd ← s.reader.blockEnd (separatorEnd + 1) .repeaterContent
  let countText := s.reader.slice (index + 2) countEnd
  match Count.parse? (Text.trim countText) with
  | none => .error (.fault (.malformedRepeater (String.ofList countText)) index)
  | some count =>
    let (limit, generator) ← orStop (count.draw s.generator)
    let repetition := {
      contentStart := separatorEnd + 2
      contentEnd := contentEnd
      separatorStart := countEnd + 2
      separatorEnd := separatorEnd
      limit := limit
      done := 0
      onSeparator := false : Repetition }
    let s := { s with generator, repetitions := repetition :: s.repetitions }
    return (s.markIteration s.repetitions.length repetition).moveTo repetition.contentStart

/-- A closing bracket moves the innermost repetition on if it ends the block that this is on. The
flags then describe the iteration that comes next. -/
def closeBlock (s : State) (index : Nat) : State :=
  let depth := s.repetitions.length
  let (boundary, repetitions) := Boundary.ofClose index s.repetitions
  let s := { s with repetitions }
  let marked := match repetitions with
    | r :: _ => s.markIteration depth r
    | [] => s
  match boundary with
  | .separator position => marked.moveTo position
  | .content position => marked.moveTo position
  | .finished depth => s.unmarkIteration depth
  | .inside => s

def flags (s : State) : FlagScope → Flags
  | .run => s.localFlags
  | .lasting => s.globalFlags

def setFlags (s : State) (scope : FlagScope) (flags : Flags) : State :=
  match scope with
  | .run => { s with localFlags := flags }
  | .lasting => { s with globalFlags := flags }

/-- `$ls[f]` and the like set or unset a flag; `$l?[f][body]` and the like run a body or skip it. -/
def flag (s : State) (index : Nat) : Except Stop State :=
  let letters := s.reader.slice (index + 1) (index + 3)
  match flagFunction? letters with
  | none => .error (.fault (.unknownFlagFunction (String.ofList letters)) index)
  | some (scope, action) => do
    let nameEnd ← s.reader.blockEnd (index + 3) .flagName
    let name := String.ofList (Text.trim (s.reader.slice (index + 4) nameEnd))
    if name.isEmpty then .error (.fault (.missingFlagName (String.ofList letters)) index)
    else match action with
      | .set => return (s.setFlags scope ((s.flags scope).insert name)).moveTo (nameEnd + 1)
      | .unset => return (s.setFlags scope ((s.flags scope).erase name)).moveTo (nameEnd + 1)
      | .whenSet | .whenUnset =>
        let bodyEnd ← s.reader.blockEnd (nameEnd + 1) .flagBody
        let runs := (s.flags scope).contains name == (action == .whenSet)
        return s.moveTo (if runs then nameEnd + 2 else bodyEnd + 1)

/-- A tilde sets or clears the pending first letter, and a double one the proper mode. -/
def toggleCasing (s : State) : State :=
  if s.reader.peek = '~' then { s.moveTo (s.reader.position + 1) with proper := !s.proper }
  else { s with firstPending := !s.firstPending }

/-- `#[min-max]` writes a number from `min` up to but not including `max`. -/
def randomNumber (s : State) (index : Nat) : Except Stop State := do
  let close ← s.reader.blockEnd (index + 1) .randomNumber
  match numberRange (s.reader.slice (index + 2) close) with
  | .error problem => .error (.fault (.malformedNumber problem) index)
  | .ok (min, max) =>
    let (value, generator) ← orStop (s.generator.range min max)
    return ({ s with generator, article := none }.moveTo (close + 1)).emitWord (toString value)

def carrierKey? (call : Call) : Option CarrierKey :=
  call.carrier.map fun carrier => ⟨call.className, call.symbol, carrier⟩

inductive Picked where
  | word (index : Nat)
  | doubt (cause : Doubt)
deriving Repr, DecidableEq

def pickFresh (lexicon : Lexicon) (call : Call) (index : Nat) (g : Generator) :
    Except Stop (Picked × Generator) := do
  let orEmpty : Option Nat → Picked := fun picked? =>
    match picked? with
    | some i => .word i
    | none => .doubt (.emptyBank call.symbol)
  match call.classList? with
  | some names =>
    match lexicon.intersection names with
    | .error cause => .error (.fault (.wordCall cause) index)
    | .ok [] => return (.doubt (.emptyIntersection call.symbol call.className), g)
    | .ok candidates =>
      let (picked?, g) ← orStop (lexicon.weightedPickAmong candidates g)
      return (orEmpty picked?, g)
  | none =>
    if !call.className.isEmpty && !lexicon.hasClass call.className then
      return (.doubt (.unknownClass call.symbol call.className), g)
    else
      let (picked?, g) ← orStop (lexicon.weightedPick call.className g)
      return (orEmpty picked?, g)

/-- The word of a call: the one its carrier keeps, or a fresh pick that the carrier then keeps. -/
def pickWord (s : State) (lexicon : Lexicon) (call : Call) (index : Nat) :
    Except Stop (Option Nat × State) :=
  let kept? := (carrierKey? call).bind fun key => s.carriers.lookup key
  match kept? with
  | some i => .ok (some i, s)
  | none => do
    let (picked, generator) ← pickFresh lexicon call index s.generator
    match picked with
    | .doubt cause => return (none, { s with generator }.warn cause index)
    | .word i =>
      let carriers := match carrierKey? call with
        | some key => (key, i) :: s.carriers
        | none => s.carriers
      return (some i, { s with generator, carriers })

/-- Writes the word of a call, and before it an `n` where a pending `a` asks for one. -/
def writeWord (s : State) (lexicon : Lexicon) (call : Call) (index i : Nat)
    (article : Option PendingArticle) : Except Stop State :=
  match lexicon.resolve i call.subtype s.casing with
  | .ok word => .ok ((s.correctArticle article word).emitCased word)
  | .error (.subtypeNotFound symbol subtype) =>
    let token := Lexicon.missingSubtypeToken symbol subtype
    let s := s.warn (.subtypeNotFound symbol subtype) index
    .ok ((s.correctArticle article token).emitCased token)
  | .error cause => .error (.fault (.wordCall cause) index)

def wordCall (setting : Setting) (s : State) (index : Nat) : Except Stop State :=
  match Call.parse? (s.reader.tail index) with
  | none => .ok (s.warn .unrecognizedWordCall index)
  | some call =>
    let article := s.article
    let s := { s with article := none }.moveTo (index + call.length)
    match setting.lexicons[call.symbol]? with
    | none => .ok (s.warn (.unknownSymbol call.symbol) index)
    | some lexicon => do
      let (picked?, s) ← s.pickWord lexicon call index
      match picked? with
      | none => return s
      | some i => s.writeWord lexicon call index i article

def perform (setting : Setting) (s : State) (c : Char) (index : Nat) : Except Stop State :=
  match Sign.ofChar c with
  | .escape => .ok s.escape
  | .openGroup => s.openGroup index
  | .closeGroup => s.closeGroup index
  | .digit => s.digit c index
  | .openSelector => s.openSelector index
  | .slash => .ok (s.slash c)
  | .closeSelector => s.closeSelector index
  | .tag => s.readTag index
  | .repetition => s.openRepetition index
  | .openBlock => .ok s
  | .closeBlock => .ok (s.closeBlock index)
  | .flag => s.flag index
  | .call => s.wordCall setting index
  | .lineBreak => .ok (s.emitLineBreak setting.lineBreak)
  | .carriageReturn => .ok s
  | .casing => .ok s.toggleCasing
  | .upper => .ok { s with upper := !s.upper }
  | .number => s.randomNumber index
  | .literal => .ok (s.emitLiteral c)

def step (setting : Setting) (s : State) : Except Stop State :=
  { s with reader := s.reader.read.2 }.perform setting s.reader.peek s.reader.position

end State

end Phrasebook
