import Phrasebook.Letter.Alphanumeric
import Phrasebook.Text

/-! Word calls, which begin with a plus sign.
The modern spelling is `+s[subtype of class for carrier]`, where every part but the brackets may be
left out; the legacy spelling is `+[class]s[subtype]<carrier>`, where only the symbol is needed.
The modern one is tried first. -/
namespace Phrasebook

structure Call where
  symbol : Char
  /-- Empty for the first subtype of the bank. -/
  subtype : String
  /-- Empty for no class; with commas for a list of classes. -/
  className : String
  carrier : Option String
  /-- The number of characters of the call, with its plus sign. -/
  length : Nat
deriving Repr, DecidableEq

namespace Call

open Letter (isAlphanumeric isBlank)

def isSymbol (c : Char) : Bool :=
  !isBlank c && ['[', ']', '{', '}', '<', '>', '\\', '\x00'].all (c != ·)

def isNameChar (c : Char) : Bool :=
  isAlphanumeric c || ['_', '-', '\'', '.'].contains c

def isClassChar (c : Char) : Bool := isNameChar c || c == ','

def isBodyChar (c : Char) : Bool := isNameChar c || c == ',' || isBlank c

/-- The allowed characters up to the closing bracket, and what follows it. -/
def block? (closing : Char) (allowed : Char → Bool) : List Char → Option (List Char × List Char)
  | [] => none
  | c :: rest =>
    if c = closing then some ([], rest)
    else if allowed c then
      (block? closing allowed rest).map fun (body, after) => (c :: body, after)
    else none

structure Parts where
  subtype : List Char
  className : List Char
  carrier : Option (List Char)
deriving Repr, DecidableEq

def joined : List (List Char) → Bool
  | a :: b :: rest => (a.getLast? == some ',' || b.head? == some ',') && joined (b :: rest)
  | _ => true

def ofWord : List Char := ['o', 'f']

def forWord : List Char := ['f', 'o', 'r']

/-- The class words after the first `of`, if it comes before any `for`, and the words after them. -/
def takeClasses : List (List Char) → Option (List (List Char)) × List (List Char)
  | [] => (none, [])
  | word :: rest =>
    if word = ofWord then (some (rest.takeWhile (· != forWord)), rest.dropWhile (· != forWord))
    else (none, word :: rest)

/-- Sorts the words of a modern body into parts. The subtype and the carrier are one word without a
comma, and class words are joined by commas. -/
def Parts.ofWords? (words : List (List Char)) : Option Parts :=
  let isName := fun word : List Char => word != ofWord && word != forWord
  let subtype := words.takeWhile isName
  let (classes?, rest) := takeClasses (words.dropWhile isName)
  let carrier? := match rest with
    | [] => none
    | _ :: carrier => some carrier
  let single := fun name : List (List Char) => name.length ≤ 1 && name.all (!·.contains ',')
  if single subtype && carrier?.all (fun name => single name && !name.isEmpty)
      && classes?.all (fun classes => !classes.isEmpty && joined classes) then
    some ⟨subtype.flatten, (classes?.getD []).flatten, carrier?.map List.flatten⟩
  else none

def modern? : List Char → Option Call
  | symbol :: '[' :: rest =>
    if isSymbol symbol then do
      let (body, _) ← block? ']' isBodyChar rest
      let parts ← Parts.ofWords? (Text.words body)
      return {
        symbol
        subtype := String.ofList parts.subtype
        className := String.ofList parts.className
        carrier := parts.carrier.map String.ofList
        length := body.length + 4 }
    else none
  | _ => none

/-- A block in square brackets that may be missing: its content, its length with the brackets, and
what follows. Nothing if a bracket opens and the block is not one. -/
def squareBlock? (allowed : Char → Bool) : List Char → Option (List Char × Nat × List Char)
  | '[' :: rest => (block? ']' allowed rest).map fun (body, after) => (body, body.length + 2, after)
  | text => some ([], 0, text)

/-- A non-empty name in angle brackets. Anything else there, such as the start of an output group,
does not belong to the call. -/
def carrierBlock? : List Char → Option (List Char)
  | '<' :: rest =>
    match block? '>' isNameChar rest with
    | some (c :: name, _) => some (c :: name)
    | _ => none
  | _ => none

def legacy? (text : List Char) : Option Call := do
  let (className, classLength, rest) ← squareBlock? isClassChar text
  match rest with
  | [] => none
  | symbol :: rest =>
    if isSymbol symbol then
      let (subtype, subtypeLength, rest) ← squareBlock? isNameChar rest
      let carrier := carrierBlock? rest
      return {
        symbol
        subtype := String.ofList subtype
        className := String.ofList className
        carrier := carrier.map String.ofList
        length := 2 + classLength + subtypeLength + (carrier.elim 0 (·.length + 2)) }
    else none

def parse? : List Char → Option Call
  | '+' :: rest => (modern? rest).or (legacy? rest)
  | _ => none

def classList? (call : Call) : Option (List String) :=
  let text := call.className.toList
  if text.contains ',' then
    some (((Text.pieces ',' text).map Text.trim).filter (· ≠ []) |>.map String.ofList)
  else none

theorem two_le_length_of_modern? {text : List Char} {call : Call}
    (h : modern? text = some call) : 2 ≤ call.length := by
  unfold modern? at h
  split at h
  · split at h
    · simp only [bind, Option.bind_eq_some_iff, pure, Option.some.injEq] at h
      obtain ⟨_, _, _, _, rfl⟩ := h
      exact Nat.le_add_left 2 _
    · contradiction
  · contradiction

theorem two_le_length_of_legacy? {text : List Char} {call : Call}
    (h : legacy? text = some call) : 2 ≤ call.length := by
  obtain ⟨⟨className, classLength, rest⟩, _, h⟩ := Option.bind_eq_some_iff.mp h
  cases rest with
  | nil => contradiction
  | cons symbol rest =>
    simp only at h
    split at h
    · obtain ⟨⟨subtype, subtypeLength, rest⟩, _, h⟩ := Option.bind_eq_some_iff.mp h
      cases h
      simp only
      omega
    · contradiction

theorem two_le_length_of_parse? {text : List Char} {call : Call}
    (h : parse? text = some call) : 2 ≤ call.length := by
  unfold parse? at h
  split at h
  · rcases Option.or_eq_some_iff.mp h with modern | ⟨_, legacy⟩
    · exact two_le_length_of_modern? modern
    · exact two_le_length_of_legacy? legacy
  · contradiction

end Call

end Phrasebook
