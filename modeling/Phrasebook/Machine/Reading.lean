import Phrasebook.Machine.Checked

/-! Parsing of word calls and of random numbers on a machine.
The parts of a call are stretches between places, and a random number is cut at a count of bytes. -/
namespace Phrasebook.Machine

/-- The first closing bracket in a text that begins at a place, if only allowed characters stand
before it. -/
def scanBlock (closing : Char) (allowed : Char → Bool) (i : Nat) : List Char → Checked (Option Nat)
  | [] => return none
  | c :: rest =>
    if c = closing then do
      let i ← word i
      return some i
    else if allowed c then scanBlock closing allowed (i + 1) rest
    else return none

def blockStop (text : List Char) (start : Nat) (closing : Char) (allowed : Char → Bool) :
    Checked (Option Nat) :=
  if start ≤ text.length then scanBlock closing allowed start (text.drop start) else return none

def parseModern (text : List Char) : Checked (Option Call) :=
  match text[1]? with
  | none => return none
  | some symbol =>
    if !Call.isSymbol symbol || text[2]? != some '[' then return none
    else do
      match ← blockStop text 3 ']' Call.isBodyChar with
      | none => return none
      | some close =>
        let body ← stretch text 3 close
        match Call.Parts.ofWords? (Text.words body) with
        | none => return none
        | some parts =>
          let length ← word (close + 1)
          return some {
            symbol
            subtype := String.ofList parts.subtype
            className := String.ofList parts.className
            carrier := parts.carrier.map String.ofList
            length }

def squareBlock (text : List Char) (i : Nat) (allowed : Char → Bool) :
    Checked (Option (List Char × Nat)) :=
  if text[i]? = some '[' then do
    let start ← word (i + 1)
    match ← blockStop text start ']' allowed with
    | none => return none
    | some close =>
      let body ← stretch text start close
      let next ← word (close + 1)
      return some (body, next)
  else return some ([], i)

def carrierBlock (text : List Char) (i : Nat) : Checked (Option (List Char) × Nat) :=
  if text[i]? = some '<' then do
    let start ← word (i + 1)
    match ← blockStop text start '>' Call.isNameChar with
    | none => return (none, i)
    | some close =>
      if start < close then
        let name ← stretch text start close
        let next ← word (close + 1)
        return (some name, next)
      else return (none, i)
  else return (none, i)

def parseLegacy (text : List Char) : Checked (Option Call) := do
  match ← squareBlock text 1 Call.isClassChar with
  | none => return none
  | some (className, i) =>
    match text[i]? with
    | none => return none
    | some symbol =>
      if Call.isSymbol symbol then
        match ← squareBlock text (← word (i + 1)) Call.isNameChar with
        | none => return none
        | some (subtype, i) =>
          let (carrier, length) ← carrierBlock text i
          return some {
            symbol
            subtype := String.ofList subtype
            className := String.ofList className
            carrier := carrier.map String.ofList
            length }
      else return none

def parseCall (text : List Char) : Checked (Option Call) :=
  if text.head? = some '+' then do
    match ← parseModern text with
    | some call => return some call
    | none => parseLegacy text
  else return none

/-- Cuts a text after so many bytes, which have to end a character. -/
def cutBytes (n : Nat) (text : List Char) : Checked (List Char × List Char) :=
  match n, text with
  | 0, text => return ([], text)
  | n + 1, [] => .error (.panic (.slice 0 (n + 1) 0))
  | n + 1, c :: rest =>
    if c.utf8Size ≤ n + 1 then do
      let (before, after) ← cutBytes (n + 1 - c.utf8Size) rest
      return (c :: before, after)
    else .error (.panic (.slice 0 (n + 1) c.utf8Size))

def hyphenByte (i : Nat) : List Char → Option Nat
  | [] => none
  | c :: rest => if c = '-' then some i else hyphenByte (i + c.utf8Size) rest

def numberRange (body : List Char) : Checked (Except NumberProblem (Int × Int)) :=
  let hyphen? := match body with
    | [] => none
    | c :: rest => hyphenByte c.utf8Size rest
  match hyphen? with
  | none => return .error (.noRange (String.ofList body))
  | some hyphen => do
    let (low, _) ← cutBytes hyphen body
    let (_, high) ← cutBytes (← word (hyphen + 1)) body
    let (low, high) := (Text.trim low, Text.trim high)
    match Text.integer? low, Text.integer? high with
    | none, _ => return .error (.minimum (String.ofList low))
    | some _, none => return .error (.maximum (String.ofList high))
    | some min, some max => return if min < max then .ok (min, max) else .error (.order min max)

end Phrasebook.Machine
