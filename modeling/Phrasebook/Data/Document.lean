import Phrasebook.Data.Lexeme

/-! Values of the notation that bank files are written in, and whole documents.
Lists stand in square brackets. In round brackets stand records, which have field names, and
groups, which have none; either may begin with a type name. Curly brackets hold tables. A comma may
follow the last part of each. -/
namespace Phrasebook.Data

/-- A value. Tables, groups, and numbers without a natural value are read to the end but not
kept. -/
inductive Value where
  | natural (n : Nat)
  | text (characters : List Char)
  | char (c : Char)
  | symbol (name : List Char)
  | list (parts : List Value)
  | record (typeName : Option (List Char)) (fields : List (List Char × Value))
  | other
deriving Repr

/-- How many brackets and parts may nest: each part counts, each bracket around parts, and each
`Some`. -/
def nestingLimit : Nat := 128

/-- Words that are values by themselves, unless they are marked as raw names. -/
def constants : List String := ["true", "false", "None", "inf", "NaN"]

def optionalName (text : List Char) : Option (List Char) × List Char :=
  match name text with
  | some (found, rest) => (some found, rest)
  | none => (none, text)

def beginsField (text : List Char) : Option Bool :=
  match name text with
  | none => some false
  | some (_, rest) => do
    match ← skip rest with
    | [] => none
    | c :: _ => return c == ':'

/-- Whether another part follows inside brackets, given whether a comma came before. Without one
only the closing bracket may follow. -/
def hasPart (closing : Char) (afterComma : Bool) : List Char → Option Bool
  | [] => none
  | c :: _ => if c = closing then some false else if afterComma then some true else none

mutual

/-- A value, with so many levels of nesting left. With `bareSome`, brackets need not follow
`Some`. -/
def valueWithin (bareSome : Bool) : Nat → Nat → List Char → Option (Value × List Char)
  | 0, _, _ => none
  | fuel + 1, depth, text =>
    match constants.findSome? (keyword · text), keyword "Some" text with
    | some rest, _ => some (.other, rest)
    | none, some rest => (someWithin bareSome fuel depth rest).map (.other, ·)
    | none, none =>
      match optionalName text with
      | (some found, rest) => do
        match ← skip rest with
        | '(' :: inside => roundWithin bareSome fuel depth (some found) inside
        | rest => return (.symbol found, rest)
      | (none, []) => none
      | (none, '(' :: ')' :: rest) => some (.other, rest)
      | (none, '(' :: inside) => roundWithin bareSome fuel depth none inside
      | (none, '[' :: inside) =>
        if depth = 0 then none
        else do
          let (parts, rest) ← partsWithin bareSome fuel (depth - 1) ']' true inside
          return (.list parts, rest)
      | (none, '{' :: inside) =>
        if depth = 0 then none
        else do
          let rest ← entriesWithin bareSome fuel (depth - 1) true inside
          return (.other, rest)
      | (none, text@(c :: _)) =>
        if c = '"' ∨ c = 'r' then (string text).map fun (s, rest) => (.text s, rest)
        else if c = '\'' then (character text).map fun (c, rest) => (.char c, rest)
        else if c.isDigit ∨ c = '+' ∨ c = '-' then
          (number text).map fun (n?, rest) => (n?.elim .other .natural, rest)
        else if c = '.' then (fractional text).map (.other, ·)
        else none

def someWithin (bareSome : Bool) : Nat → Nat → List Char → Option (List Char)
  | 0, _, _ => none
  | fuel + 1, depth, text => do
    let text ← skip text
    if depth = 0 then none
    else match text with
      | '(' :: inside =>
        let (_, rest) ← valueWithin bareSome fuel (depth - 1) (← skip inside)
        let (_, rest) ← comma rest
        expect ')' rest
      | _ =>
        if bareSome then (valueWithin bareSome fuel (depth - 1) text).map Prod.snd else none

def roundWithin (bareSome : Bool) :
    Nat → Nat → Option (List Char) → List Char → Option (Value × List Char)
  | 0, _, _, _ => none
  | fuel + 1, depth, typeName, inside => do
    let isRecord ← beginsField (← skip inside)
    if depth = 0 then none
    else if isRecord then
      let (fields, rest) ← fieldsWithin bareSome fuel (depth - 1) true inside
      return (.record typeName fields, rest)
    else
      let (_, rest) ← partsWithin bareSome fuel (depth - 1) ')' true inside
      return (.other, rest)

def partsWithin (bareSome : Bool) :
    Nat → Nat → Char → Bool → List Char → Option (List Value × List Char)
  | 0, _, _, _, _ => none
  | fuel + 1, depth, closing, afterComma, text => do
    let text ← skip text
    if ← hasPart closing afterComma text then
      if depth = 0 then none
      else
        let (part, rest) ← valueWithin bareSome fuel (depth - 1) text
        let (afterComma, rest) ← comma rest
        let (parts, rest) ← partsWithin bareSome fuel depth closing afterComma rest
        return (part :: parts, rest)
    else return ([], text.drop 1)

def fieldsWithin (bareSome : Bool) :
    Nat → Nat → Bool → List Char → Option (List (List Char × Value) × List Char)
  | 0, _, _, _ => none
  | fuel + 1, depth, afterComma, text => do
    let text ← skip text
    if ← hasPart ')' afterComma text then
      if depth = 0 then none
      else
        let (field, rest) ← name text
        let rest ← expect ':' (← skip rest)
        let (value, rest) ← valueWithin bareSome fuel (depth - 1) (← skip rest)
        let (afterComma, rest) ← comma rest
        let (fields, rest) ← fieldsWithin bareSome fuel depth afterComma rest
        return ((field, value) :: fields, rest)
    else return ([], text.drop 1)

def entriesWithin (bareSome : Bool) : Nat → Nat → Bool → List Char → Option (List Char)
  | 0, _, _, _ => none
  | fuel + 1, depth, afterComma, text => do
    let text ← skip text
    if ← hasPart '}' afterComma text then
      if depth = 0 then none
      else
        let (_, rest) ← valueWithin bareSome fuel (depth - 1) text
        let rest ← expect ':' (← skip rest)
        let (_, rest) ← valueWithin bareSome fuel (depth - 1) (← skip rest)
        let (afterComma, rest) ← comma rest
        entriesWithin bareSome fuel depth afterComma rest
    else return text.drop 1

end

/-- What a document may switch on. Only the second one changes how a bank file reads: brackets need
not follow `Some`. -/
inductive Extension where
  | unwrapNewtypes
  | implicitSome
  | unwrapVariantNewtypes
deriving Repr, DecidableEq

def Extension.ofName? (name : List Char) : Option Extension :=
  if name = "unwrap_newtypes".toList then some unwrapNewtypes
  else if name = "implicit_some".toList then some implicitSome
  else if name = "unwrap_variant_newtypes".toList then some unwrapVariantNewtypes
  else none

def expectAll : List Char → List Char → Option (List Char)
  | [], text => some text
  | c :: cs, text => do expectAll cs (← skip (← expect c text))

def extensions : Nat → List Char → Option (List Extension × List Char)
  | 0, _ => none
  | fuel + 1, text => do
    let (found, rest) ← name text
    let extension ← Extension.ofName? found
    let (separated, rest) ← comma rest
    let another := rest.head?.any isNameChar
    if another then
      if separated then
        let (others, rest) ← extensions fuel rest
        return (extension :: others, rest)
      else none
    else return ([extension], ← expectAll [')', ']'] rest)

def attributes : Nat → List Char → Option (List Extension × List Char)
  | 0, _ => none
  | fuel + 1, text =>
    match text with
    | '#' :: _ => do
      let opened ← expectAll ['#', '!', '['] text
      let rest ← keyword "enable" opened
      let (found, rest) ← extensions opened.length (← expectAll ['('] (← skip rest))
      let (others, rest) ← attributes fuel rest
      return (found ++ others, rest)
    | _ => some ([], text)

def document? (text : List Char) : Option Value := do
  let (extensions, rest) ← attributes (text.length + 1) (← skip text)
  let bareSome := extensions.contains .implicitSome
  let (value, rest) ← valueWithin bareSome (3 * rest.length + 3) nestingLimit rest
  if (← skip rest).isEmpty then some value else none

end Phrasebook.Data
