/-! The words of the notation that bank files are written in: space and comments, names, strings,
characters and numbers. Each reader takes the text from its first character and gives what it read
and the rest, or nothing where the text is malformed. -/
namespace Phrasebook.Data

def isSpace (c : Char) : Bool := [' ', '\t', '\n', '\r'].contains c

/-- Where skipping stands: outside of comments, in a line comment, or in a block comment inside so
many others. -/
inductive Skipping where
  | between
  | line
  | block (depth : Nat)
deriving Repr, DecidableEq

/-- Skips space and comments. A slash must begin a comment, and a block comment must end. -/
def skipFrom : Skipping → List Char → Option (List Char)
  | .between, [] => some []
  | .between, '/' :: '/' :: rest => skipFrom .line rest
  | .between, '/' :: '*' :: rest => skipFrom (.block 0) rest
  | .between, c :: rest =>
    if isSpace c then skipFrom .between rest
    else if c = '/' then none
    else some (c :: rest)
  | .line, [] => some []
  | .line, c :: rest => skipFrom (if c = '\n' then .between else .line) rest
  | .block _, [] => none
  | .block depth, '/' :: '*' :: rest => skipFrom (.block (depth + 1)) rest
  | .block 0, '*' :: '/' :: rest => skipFrom .between rest
  | .block (depth + 1), '*' :: '/' :: rest => skipFrom (.block depth) rest
  | .block depth, _ :: rest => skipFrom (.block depth) rest

def skip (text : List Char) : Option (List Char) := skipFrom .between text

def expect (c : Char) : List Char → Option (List Char)
  | d :: rest => if c = d then some rest else none
  | [] => none

def comma (text : List Char) : Option (Bool × List Char) := do
  match ← skip text with
  | ',' :: rest => return (true, ← skip rest)
  | rest => return (false, rest)

def isNameStart (c : Char) : Bool := c.isAlpha || c == '_'

def isNameChar (c : Char) : Bool := c.isAlphanum || c == '_'

def isRawNameChar (c : Char) : Bool := isNameChar c || ['.', '+', '-'].contains c

/-- A name. One with dots, plus or minus signs must be marked by `r#`; what opens a raw string is
not a name. -/
def name : List Char → Option (List Char × List Char)
  | [] => none
  | 'r' :: '#' :: rest =>
    match rest.takeWhile isRawNameChar with
    | [] => none
    | raw => some (raw, rest.dropWhile isRawNameChar)
  | text@(c :: rest) =>
    let plain := text.takeWhile isNameChar
    if !isNameStart c || (c == 'r' && (rest.head?.all (· == '"')))
        || plain.length < (text.takeWhile isRawNameChar).length then none
    else some (plain, text.dropWhile isNameChar)

/-- Reads a fixed word, if no character follows that would make it a longer name. -/
def keyword (word : String) (text : List Char) : Option (List Char) :=
  let rest := text.drop word.length
  if word.toList.isPrefixOf text && !rest.head?.any isNameChar then some rest else none

def hexDigit (c : Char) : Option Nat :=
  if c.isDigit then some (c.toNat - '0'.toNat)
  else if 'a' ≤ c ∧ c ≤ 'f' then some (c.toNat - 'a'.toNat + 10)
  else if 'A' ≤ c ∧ c ≤ 'F' then some (c.toNat - 'A'.toNat + 10)
  else none

/-- The value of digits in a base up to 16, where underscores are passed over. -/
def digitsValue (base : Nat) (text : List Char) : Option Nat :=
  text.foldlM
    (fun value c =>
      if c = '_' then some value
      else do
        let digit ← hexDigit c
        if digit < base then some (base * value + digit) else none) 0

def escaped : List Char → Option (Char × List Char)
  | '\'' :: rest => some ('\'', rest)
  | '"' :: rest => some ('"', rest)
  | '\\' :: rest => some ('\\', rest)
  | 'n' :: rest => some ('\n', rest)
  | 'r' :: rest => some ('\r', rest)
  | 't' :: rest => some ('\t', rest)
  | '0' :: rest => some ('\x00', rest)
  | 'x' :: high :: low :: rest => do
    return (Char.ofNat (16 * (← hexDigit high) + (← hexDigit low)), rest)
  | 'u' :: '{' :: rest => do
    let digits := (rest.take 6).takeWhile (· != '}')
    let code ← digits.foldlM (fun value c => (hexDigit c).map (16 * value + ·)) 0
    let after ← expect '}' (rest.drop digits.length)
    if digits.isEmpty || !Nat.isValidChar code then none else some (Char.ofNat code, after)
  | _ => none

theorem length_of_expect {c : Char} {text rest : List Char} (h : expect c text = some rest) :
    rest.length < text.length := by
  cases text with
  | nil => simp [expect] at h
  | cons d tail =>
    simp only [expect, Option.ite_none_right_eq_some, Option.some.injEq] at h
    simp [h.2]

theorem length_of_escaped {text rest : List Char} {c : Char} (h : escaped text = some (c, rest)) :
    rest.length < text.length := by
  unfold escaped at h
  split at h
  case h_8 =>
    simp only [Option.pure_def, Option.bind_eq_bind, Option.bind_eq_some_iff, Option.some.injEq,
      Prod.mk.injEq] at h
    obtain ⟨_, _, _, _, _, rfl⟩ := h
    simp only [List.length_cons]
    omega
  case h_9 =>
    simp only [Option.bind_eq_bind, Option.bind_eq_some_iff] at h
    obtain ⟨_, _, after, closed, h⟩ := h
    split at h
    · simp at h
    · simp only [Option.some.injEq, Prod.mk.injEq] at h
      have := length_of_expect closed
      rw [List.length_drop] at this
      simp only [← h.2, List.length_cons]
      omega
  all_goals simp_all

def quoted (text : List Char) : Option (List Char × List Char) :=
  match text with
  | [] => none
  | '"' :: rest => some ([], rest)
  | '\\' :: rest =>
    match _ : escaped rest with
    | some (c, after) => (quoted after).map fun (body, rest) => (c :: body, rest)
    | none => none
  | c :: rest => (quoted rest).map fun (body, rest) => (c :: body, rest)
termination_by text.length
decreasing_by
  · have := length_of_escaped ‹escaped _ = _›
    simp only [List.length_cons]
    omega
  · simp

def verbatim (closing : List Char) : List Char → Option (List Char × List Char)
  | [] => none
  | c :: rest =>
    if closing.isPrefixOf (c :: rest) then some ([], (c :: rest).drop closing.length)
    else (verbatim closing rest).map fun (body, after) => (c :: body, after)

/-- A string in quotes with escapes, or a raw one between matching numbers of hash signs. -/
def string : List Char → Option (List Char × List Char)
  | '"' :: rest => quoted rest
  | 'r' :: rest => do
    let hashes := rest.takeWhile (· == '#')
    let body ← expect '"' (rest.drop hashes.length)
    verbatim ('"' :: hashes) body
  | _ => none

def character : List Char → Option (Char × List Char)
  | '\'' :: '\\' :: rest => do
    let (c, rest) ← escaped rest
    return (c, ← expect '\'' rest)
  | '\'' :: c :: '\'' :: rest => if c = '\'' then none else some (c, rest)
  | _ => none

def isWholeChar (c : Char) : Bool := (hexDigit c).isSome || c == '_'

def isFractionChar (c : Char) : Bool := c.isDigit || ['e', 'E', '.', '+', '-', '_'].contains c

/-- A whole number without a sign, decimal or after `0x`, `0b` or `0o`. -/
def whole (text : List Char) : Option (Nat × List Char) := do
  let (base, text) := match text with
    | '0' :: 'x' :: rest => (16, rest)
    | '0' :: 'b' :: rest => (2, rest)
    | '0' :: 'o' :: rest => (8, rest)
    | _ => (10, text)
  let digits := text.takeWhile isWholeChar
  if digits.isEmpty || digits.head? == some '_' then none
  else return (← digitsValue base digits, text.dropWhile isWholeChar)

def unsigned : List Char → List Char
  | '+' :: rest => rest
  | '-' :: rest => rest
  | text => text

/-- Whether a text is a decimal number with a digit, where sign, point and exponent may be left
out. -/
def isDecimal (text : List Char) : Bool :=
  let body := unsigned text
  let before := body.takeWhile Char.isDigit
  let rest := body.dropWhile Char.isDigit
  let fraction := match rest with
    | '.' :: rest => rest
    | _ => []
  let after := fraction.takeWhile Char.isDigit
  let exponent := if rest.head? == some '.' then fraction.dropWhile Char.isDigit else rest
  let scaled := match exponent with
    | [] => true
    | c :: digits =>
      (c == 'e' || c == 'E') && !(unsigned digits).isEmpty && (unsigned digits).all Char.isDigit
  !(before.isEmpty && after.isEmpty) && scaled

/-- A number with a fraction or an exponent, or infinity, or the mark of no number, any of them
with a sign or without. A bank has no use for its value. -/
def fractional (text : List Char) : Option (List Char) :=
  match ["inf", "NaN"].findSome? (keyword · (unsigned text)) with
  | some rest => some rest
  | none =>
    let written := text.takeWhile isFractionChar
    if isDecimal written then some (text.dropWhile isFractionChar) else none

/-- A number, with its value if it is whole, has no sign and fits 64 bits. -/
def number (text : List Char) : Option (Option Nat × List Char) :=
  let bare := unsigned text
  let isFraction := (bare.takeWhile isWholeChar).length < (bare.takeWhile isFractionChar).length
  let limit := match text with
    | '-' :: _ => 0x8000000000000000
    | '+' :: _ => 0x7FFFFFFFFFFFFFFF
    | _ => 0xFFFFFFFFFFFFFFFF
  match (whole bare).filter (fun (value, _) => !isFraction && value ≤ limit) with
  | some (value, rest) => some (if bare.length = text.length then some value else none, rest)
  | none => (fractional text).map (none, ·)

end Phrasebook.Data
