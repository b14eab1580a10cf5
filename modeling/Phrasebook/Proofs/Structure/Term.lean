import Mathlib.Algebra.Group.Nat.Defs
import Phrasebook.Evaluation.State
import Phrasebook.Evaluation.Step

/-! Patterns as trees.
A term is a sequence of items, nested to any depth. It prints as pattern text in which every bracket
is closed by the construct that opened it; no other module reads the text back into a tree. -/
namespace Phrasebook.Structure

/-- Characters that begin or end a construct, or change how others are written. -/
def markup : List Char :=
  ['\\', '{', '}', '[', ']', '<', '>', '/', '|', '+', '^', '$', '#', '*', '~', '@', '\r', '\n']

abbrev PlainChar := { c : Char // c ∉ markup ∧ c.isDigit = false }

abbrev EscapedChar := { c : Char // c ≠ Reader.endMark }

structure Name where
  chars : List Char
  nonempty : chars ≠ []
  alphanumeric : ∀ c ∈ chars, Letter.isAlphanumeric c = true

def Name.text (n : Name) : String := String.ofList n.chars

structure Numeral where
  digits : List Char
  nonempty : digits ≠ []
  decimal : ∀ c ∈ digits, c.isDigit = true

def Numeral.value (n : Numeral) : Nat :=
  n.digits.foldl (fun value c => 10 * value + (c.toNat - '0'.toNat)) 0

abbrev Tag := { n : Numeral // n.value < 2 ^ 64 }

abbrev Percent := { n : Numeral // 1 ≤ n.value }

abbrev Times := { n : Numeral // 1 ≤ n.value ∧ n.value < 2 ^ 32 }

inductive Item where
  | plain (c : PlainChar)
  | escaped (c : EscapedChar)
  | lineBreak
  | block (body : List Item)
  | selector (tag : Option Tag) (first second : List Item) (others : List (List Item))
  | frequency (percent : Percent) (body : List Item)
  | repetition (times : Times) (separator content : List Item)
  | assign (scope : FlagScope) (present : Bool) (flag : Name)
  | test (scope : FlagScope) (present : Bool) (flag : Name) (body : List Item)
  | group (visibility : Visibility) (name : Name) (body : List Item)

def bracketed (before body : List Char) : List Char :=
  before ++ ('[' :: body ++ [']'])

def slashed (options : List (List Char)) : List Char := options.flatMap ('/' :: ·)

def selectorText (first : List Char) (others : List (List Char)) : List Char :=
  '{' :: (first ++ slashed others) ++ ['}']

def tagText : Option Tag → List Char
  | none => []
  | some id => '*' :: id.val.digits

def scopeLetter : FlagScope → Char
  | .run => 'l'
  | .lasting => 'g'

def assignLetter (present : Bool) : Char := if present then 's' else 'u'

def testLetter (present : Bool) : Char := if present then '?' else '!'

def visibilityMark : Visibility → List Char
  | .shared => []
  | .internal => ['_']
  | .exclusive => ['.']

mutual

def Item.print : Item → List Char
  | .plain c => [c.val]
  | .escaped c => ['\\', c.val]
  | .lineBreak => ['|']
  | .block body => bracketed [] (printTerm body)
  | .selector tag first second others =>
    tagText tag ++ selectorText (printTerm first) (printTerm second :: printOptions others)
  | .frequency percent body => bracketed (percent.val.digits ++ ['%']) (printTerm body)
  | .repetition times separator content =>
    bracketed (bracketed (bracketed ['^'] times.val.digits) (printTerm separator))
      (printTerm content)
  | .assign scope present flag =>
    bracketed ['$', scopeLetter scope, assignLetter present] flag.chars
  | .test scope present flag body =>
    bracketed (bracketed ['$', scopeLetter scope, testLetter present] flag.chars) (printTerm body)
  | .group visibility name body =>
    '<' :: (visibilityMark visibility ++ name.chars ++ ':' :: printTerm body) ++ ['>']

def printTerm : List Item → List Char
  | [] => []
  | item :: term => item.print ++ printTerm term

def printOptions : List (List Item) → List (List Char)
  | [] => []
  | option :: options => printTerm option :: printOptions options

end

mutual

/-- The options of every selector without a tag can be numbered in 32 bits. -/
def Item.Narrow : Item → Prop
  | .plain _ | .escaped _ | .lineBreak | .assign .. => True
  | .block body | .frequency _ body | .test _ _ _ body | .group _ _ body => NarrowTerm body
  | .selector tag first second others =>
    (tag = none → others.length + 2 < 2 ^ 32) ∧ NarrowTerm first ∧ NarrowTerm second ∧
      NarrowOptions others
  | .repetition _ separator content => NarrowTerm separator ∧ NarrowTerm content

def NarrowTerm : List Item → Prop
  | [] => True
  | item :: term => item.Narrow ∧ NarrowTerm term

def NarrowOptions : List (List Item) → Prop
  | [] => True
  | option :: options => NarrowTerm option ∧ NarrowOptions options

end

end Phrasebook.Structure
