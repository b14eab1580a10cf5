import Phrasebook.Machine.Reading
import Phrasebook.Machine.Scan

/-! One step of a run on a machine.
Every construct reads, searches, counts and draws by operations that can fail. What cannot fail is
taken over from the specification as it is. -/
namespace Phrasebook.Machine

/-- The group on top of the stack, whose lowest element comes first. -/
def top (streams : Streams) : Checked Group := do
  entry streams.groups.reverse (← less streams.groups.length 1)

/-- A write asks for the topmost group before it reaches a stream. -/
def written (before after : State) : Checked State := do
  let _ ← top before.streams
  return after

def escape (s : State) : Checked State := do
  let (c, reader) ← read s.reader
  let s := { s with reader }
  if c = Reader.endMark then return s else written s (s.emitRaw c)

def openGroup (s : State) (index : Nat) : Checked State := do
  let start ← word (index + 1)
  match ← findClosing s.reader '<' '>' 0 start with
  | none => .error (.fault (.unterminated .outputGroup) index)
  | some close =>
    match ← findChar s.reader ':' start with
    | none => .error (.fault .malformedGroup index)
    | some colon =>
      let raw ← slice s.reader start colon
      let name := (Group.ofRaw raw).name
      if close ≤ colon ∨ name.isEmpty ∨ name.toList.any Letter.isBlank then
        .error (.fault .malformedGroup index)
      else
        let next ← word (colon + 1)
        return { s with streams := s.streams.push raw }.moveTo next

def digit (s : State) (c : Char) (index : Nat) : Checked State := do
  let stop ← digitsEnd s.reader index
  let bracket ← word (stop + 1)
  if s.reader.charAt stop = '%' ∧ s.reader.charAt bracket = '[' then
    let digits ← slice s.reader index stop
    let percent := min ((Text.decimal? digits).getD 0) 100
    if percent = 0 then .error (.fault .zeroFrequency index)
    else
      let close ← blockEnd s.reader bracket .frequencyBody
      let (drawn, generator) ← below s.generator 101
      let target ← if drawn ≤ percent then word (stop + 2) else word (close + 1)
      return { s with generator }.moveTo target
  else written s (s.emitLiteral c)

def choose (s : State) (options : Nat) : Checked (Nat × Generator) :=
  match s.tag with
  | none => below s.generator options
  | some tag =>
    if 0 < options then return (Frame.value ⟨s.salt, tag.toInt64⟩ % options, s.generator)
    else .error (.panic (.draw .zeroBound))

def openSelector (s : State) (index : Nat) : Checked State := do
  let start ← word (index + 1)
  match ← findClosing s.reader '{' '}' 0 start with
  | none => .error (.fault (.unterminated .selector) index)
  | some close =>
    let starts := start :: (← optionStarts s.reader close 0 start)
    if starts.length < 2 then .error (.fault (.selectorArity starts.length) index)
    else
      let (choice, generator) ← choose s starts.length
      let target ← entry starts choice
      return { s with generator, tag := none, selectors := close :: s.selectors }.moveTo target

def slash (s : State) (c : Char) : Checked State :=
  match s.selectors with
  | close :: selectors => do
    let target ← word (close + 1)
    return { s with selectors }.moveTo target
  | [] => written s (s.emitLiteral c)

def readTag (s : State) (index : Nat) : Checked State := do
  let start ← word (index + 1)
  let stop ← digitsEnd s.reader start
  let digits ← slice s.reader start stop
  match Text.natural? 0xFFFFFFFFFFFFFFFF digits with
  | some id =>
    if s.reader.charAt stop = '{' then return { s with tag := some id.toUInt64 }.moveTo stop
    else .error (.fault .malformedUniform index)
  | none => .error (.fault .malformedUniform index)

/-- A range of counts is drawn from as a range of signed 64-bit numbers. -/
def drawCount (count : Count) (g : Generator) : Checked (UInt32 × Generator) :=
  match count with
  | .exactly n => return (n.toUInt32, g)
  | .between min max => do
    let stop ← bounded 63 (max + 1)
    match g.range min stop with
    | .ok (n, g) => return (UInt32.ofInt n, g)
    | .error cause => .error (.panic (.draw cause))

/-- The flags of an iteration need its number, counted from 1. -/
def markIteration (s : State) (depth : Nat) (r : Repetition) : Checked State := do
  let _ ← bounded 32 (r.done + 1)
  return s.markIteration depth r

def openRepetition (s : State) (index : Nat) : Checked State := do
  let countEnd ← blockEnd s.reader (← word (index + 1)) .repeaterCount
  let separatorEnd ← blockEnd s.reader (← word (countEnd + 1)) .repeaterSeparator
  let contentEnd ← blockEnd s.reader (← word (separatorEnd + 1)) .repeaterContent
  let countText ← slice s.reader (← word (index + 2)) countEnd
  match Count.parse? (Text.trim countText) with
  | none => .error (.fault (.malformedRepeater (String.ofList countText)) index)
  | some count =>
    let (limit, generator) ← drawCount count s.generator
    let contentStart ← word (separatorEnd + 2)
    let separatorStart ← word (countEnd + 2)
    let repetition := {
      contentStart, contentEnd, separatorStart, separatorEnd, limit
      done := 0
      onSeparator := false : Repetition }
    let s := { s with generator, repetitions := repetition :: s.repetitions }
    let s ← markIteration s s.repetitions.length repetition
    return s.moveTo contentStart

/-- What a closing bracket means, with the count of iterations done as an unsigned 32-bit number. -/
def ofClose (index : Nat) : List Repetition → Checked (Boundary × List Repetition)
  | [] => return (.inside, [])
  | r :: outer => do
    if !r.onSeparator && index == r.contentEnd then
      let done ← bounded 32 (r.done + 1)
      if r.limit.toNat ≤ done then return (.finished (outer.length + 1), outer)
      else if r.separatorStart < r.separatorEnd then
        return (.separator r.separatorStart, { r with done, onSeparator := true } :: outer)
      else return (.content r.contentStart, { r with done } :: outer)
    else if r.onSeparator && index == r.separatorEnd then
      return (.content r.contentStart, { r with onSeparator := false } :: outer)
    else return (.inside, r :: outer)

def closeBlock (s : State) (index : Nat) : Checked State := do
  let depth := s.repetitions.length
  let (boundary, repetitions) ← ofClose index s.repetitions
  let s := { s with repetitions }
  let marked := match repetitions with
    | r :: _ => markIteration s depth r
    | [] => return s
  match boundary with
  | .separator position => return (← marked).moveTo position
  | .content position => return (← marked).moveTo position
  | .finished depth => return s.unmarkIteration depth
  | .inside => return s

def flag (s : State) (index : Nat) : Checked State := do
  let letters ← slice s.reader (← word (index + 1)) (← word (index + 3))
  match flagFunction? letters with
  | none => .error (.fault (.unknownFlagFunction (String.ofList letters)) index)
  | some (scope, action) =>
    let nameEnd ← blockEnd s.reader (← word (index + 3)) .flagName
    let name := String.ofList (Text.trim (← slice s.reader (← word (index + 4)) nameEnd))
    let behind ← word (nameEnd + 1)
    if name.isEmpty then .error (.fault (.missingFlagName (String.ofList letters)) index)
    else match action with
      | .set => return (s.setFlags scope ((s.flags scope).insert name)).moveTo behind
      | .unset => return (s.setFlags scope ((s.flags scope).erase name)).moveTo behind
      | .whenSet | .whenUnset =>
        let bodyEnd ← blockEnd s.reader behind .flagBody
        let runs := (s.flags scope).contains name == (action == .whenSet)
        return s.moveTo (← if runs then word (nameEnd + 2) else word (bodyEnd + 1))

def toggleCasing (s : State) : Checked State := do
  if s.reader.peek = '~' then
    let (_, reader) ← read s.reader
    return { s with reader, proper := !s.proper }
  else return { s with firstPending := !s.firstPending }

def randomNumber (s : State) (index : Nat) : Checked State := do
  let close ← blockEnd s.reader (← word (index + 1)) .randomNumber
  match ← numberRange (← slice s.reader (← word (index + 2)) close) with
  | .error problem => .error (.fault (.malformedNumber problem) index)
  | .ok (min, max) =>
    match s.generator.range min max with
    | .error cause => .error (.panic (.draw cause))
    | .ok (value, generator) =>
      let next ← word (close + 1)
      let s := { s with generator, article := none }.moveTo next
      written s (s.emitWord (toString value))

def weight (w : Word) : Checked Nat := word (w.weight.toNat + w.offset.toNat)

def total (l : Lexicon) (sum : Nat) : List Nat → Checked Nat
  | [] => return sum
  | i :: rest =>
    match l.words[i]? with
    | some w => do total l (← word (sum + (← weight w))) rest
    | none => total l sum rest

def locate (l : Lexicon) (draw sum : Nat) : List Nat → Checked (Option Nat)
  | [] => return none
  | i :: rest =>
    match l.words[i]? with
    | some w => do
      let sum ← word (sum + (← weight w))
      if draw < sum then return some i else locate l draw sum rest
    | none => locate l draw sum rest

def weightedPickAmong (l : Lexicon) (candidates : List Nat) (g : Generator) :
    Checked (Option Nat × Generator) :=
  if candidates.isEmpty then return (none, g)
  else do
    let total ← total l 0 candidates
    if total = 0 then
      let (i, g) ← below g candidates.length
      return (some (← entry candidates i), g)
    else
      let (draw, g) := g.next
      return ((← locate l (draw % total) 0 candidates).or candidates.getLast?, g)

def weightedPick (l : Lexicon) (name : String) (g : Generator) :
    Checked (Option Nat × Generator) :=
  match l.candidates? name with
  | none => return (none, g)
  | some candidates => weightedPickAmong l candidates g

def pickFresh (lexicon : Lexicon) (call : Call) (index : Nat) (g : Generator) :
    Checked (State.Picked × Generator) := do
  let orEmpty : Option Nat → State.Picked := fun picked? =>
    match picked? with
    | some i => .word i
    | none => .doubt (.emptyBank call.symbol)
  match call.classList? with
  | some names =>
    match lexicon.intersection names with
    | .error cause => .error (.fault (.wordCall cause) index)
    | .ok [] => return (.doubt (.emptyIntersection call.symbol call.className), g)
    | .ok candidates =>
      let (picked?, g) ← weightedPickAmong lexicon candidates g
      return (orEmpty picked?, g)
  | none =>
    if !call.className.isEmpty && !lexicon.hasClass call.className then
      return (.doubt (.unknownClass call.symbol call.className), g)
    else
      let (picked?, g) ← weightedPick lexicon call.className g
      return (orEmpty picked?, g)

def pickWord (s : State) (lexicon : Lexicon) (call : Call) (index : Nat) :
    Checked (Option Nat × State) := do
  let kept? := (State.carrierKey? call).bind fun key => s.carriers.lookup key
  match kept? with
  | some i => return (some i, s)
  | none =>
    let (picked, generator) ← pickFresh lexicon call index s.generator
    match picked with
    | .doubt cause => return (none, { s with generator }.warn cause index)
    | .word i =>
      let carriers := match State.carrierKey? call with
        | some key => (key, i) :: s.carriers
        | none => s.carriers
      return (some i, { s with generator, carriers })

/-- Looking up a word and its form cannot fail on a machine; writing it can. -/
def writeWord (s : State) (lexicon : Lexicon) (call : Call) (index i : Nat)
    (article : Option PendingArticle) : Checked State := do
  let after ← lift (s.writeWord lexicon call index i article)
  written s after

def wordCall (setting : Setting) (s : State) (index : Nat) : Checked State := do
  match ← parseCall (← tail s.reader index) with
  | none => return s.warn .unrecognizedWordCall index
  | some call =>
    let article := s.article
    let next ← word (index + call.length)
    let s := { s with article := none }.moveTo next
    match setting.lexicons[call.symbol]? with
    | none => return s.warn (.unknownSymbol call.symbol) index
    | some lexicon =>
      let (picked?, s) ← pickWord s lexicon call index
      match picked? with
      | none => return s
      | some i => writeWord s lexicon call index i article

def perform (setting : Setting) (s : State) (c : Char) (index : Nat) : Checked State :=
  match Sign.ofChar c with
  | .escape => escape s
  | .openGroup => openGroup s index
  | .closeGroup => lift (s.closeGroup index)
  | .digit => digit s c index
  | .openSelector => openSelector s index
  | .slash => slash s c
  | .closeSelector => lift (s.closeSelector index)
  | .tag => readTag s index
  | .repetition => openRepetition s index
  | .openBlock => return s
  | .closeBlock => closeBlock s index
  | .flag => flag s index
  | .call => wordCall setting s index
  | .lineBreak => written s (s.emitLineBreak setting.lineBreak)
  | .carriageReturn => return s
  | .casing => toggleCasing s
  | .upper => return { s with upper := !s.upper }
  | .number => randomNumber s index
  | .literal => written s (s.emitLiteral c)

def step (setting : Setting) (s : State) : Checked State := do
  let (c, reader) ← read s.reader
  perform setting { s with reader } c s.reader.position

inductive Reaches (setting : Setting) : State → State → Prop where
  | refl (s : State) : Reaches setting s s
  | step {s t u : State} (before : Reaches setting s t) (more : t.reader.atEnd = false)
      (stepped : step setting t = .ok u) : Reaches setting s u

end Phrasebook.Machine
