import Std.Data.ExtTreeMap
import Std.Data.ExtTreeSet
import Phrasebook.Generator
import Phrasebook.Letter.Casing

/-! Word banks: words with one form per subtype, chosen by class and weight.
A bank is checked when it is made, and its class index is laid down then; the freshness pass
changes the offsets of words and nothing else. -/
namespace Phrasebook

structure Word where
  forms : List String
  weight : UInt32
  /-- Added to the weight until the next freshness pass. -/
  offset : UInt32
  classes : Std.ExtTreeSet String

namespace Word

def make (forms : List String) (weight : UInt32) (classes : List String) : Word :=
  ⟨forms, weight, 0, Std.ExtTreeSet.ofList classes⟩

def totalWeight (w : Word) : Nat := w.weight.toNat + w.offset.toNat

def hasClass (w : Word) (name : String) : Bool := w.classes.contains name

end Word

inductive LexiconError where
  | noSubtypes (symbol : Char)
  | malformedEntry (symbol : Char) (index found expected : Nat)
  | tooFewClasses (given : String)
  | unknownClass (symbol : Char) (name : String)
  | subtypeNotFound (symbol : Char) (subtype : String)
  | indexOutOfRange (symbol : Char) (index : Nat)
deriving Repr, DecidableEq

def LexiconError.message : LexiconError → String
  | noSubtypes symbol => s!"word bank '{symbol}' declares no subtypes"
  | malformedEntry symbol index found expected =>
    s!"word {index} in bank '{symbol}' has {found} forms, expected {expected}"
  | tooFewClasses given => s!"class list '{given}' needs at least two class names"
  | unknownClass symbol name => s!"unknown class '{name}' in word bank '{symbol}'"
  | subtypeNotFound symbol subtype => s!"subtype '{subtype}' not found in word bank '{symbol}'"
  | indexOutOfRange symbol index => s!"word index {index} out of range for bank '{symbol}'"

structure Lexicon where
  symbol : Char
  title : String
  description : String
  subtypes : List String
  words : List Word
  classIndex : Std.ExtTreeMap String (List Nat)

namespace Lexicon

/-- What is written where a word has no form for the subtype asked for. -/
def missingSubtypeToken (symbol : Char) (subtype : String) : String :=
  s!"<{symbol}:SubtypeNotFound({subtype})>"

def enter (index : Nat) (word : Word) (classIndex : Std.ExtTreeMap String (List Nat)) :
    Std.ExtTreeMap String (List Nat) :=
  word.classes.toList.foldl
    (fun entries name => entries.alter name fun old => some (old.getD [] ++ [index])) classIndex

def check (symbol : Char) (expected : Nat) :
    Nat → Std.ExtTreeMap String (List Nat) → List Word →
      Except LexiconError (Std.ExtTreeMap String (List Nat))
  | _, classIndex, [] => .ok classIndex
  | index, classIndex, word :: words =>
    if word.forms.length = expected then
      check symbol expected (index + 1) (enter index word classIndex) words
    else .error (.malformedEntry symbol index word.forms.length expected)

def make (symbol : Char) (title description : String) (subtypes : List String)
    (words : List Word) : Except LexiconError Lexicon :=
  if subtypes.isEmpty then .error (.noSubtypes symbol)
  else do
    let classIndex ← check symbol subtypes.length 0 ∅ words
    return { symbol, title, description, subtypes, words, classIndex }

def hasClass (l : Lexicon) (name : String) : Bool := l.classIndex.contains name

def members? (l : Lexicon) (name : String) : Option (List Nat) := l.classIndex[name]?

def candidates? (l : Lexicon) (name : String) : Option (List Nat) :=
  if name.isEmpty then some (List.range l.words.length) else l.members? name

def pickEvenly (candidates : List Nat) (g : Generator) :
    Except RangeError (Option Nat × Generator) :=
  if candidates.isEmpty then .ok (none, g)
  else do
    let (i, g) ← g.oneOf candidates.length
    return (some (candidates.get i), g)

def pickIndex (l : Lexicon) (name : String) (g : Generator) :
    Except RangeError (Option Nat × Generator) :=
  match l.candidates? name with
  | none => .ok (none, g)
  | some candidates => pickEvenly candidates g

def weightAt (l : Lexicon) (i : Nat) : Nat :=
  match l.words[i]? with
  | some word => word.totalWeight
  | none => 0

def sumOf (weight : Nat → Nat) : List Nat → Nat
  | [] => 0
  | i :: rest => weight i + sumOf weight rest

/-- The first candidate whose weights summed up to it exceed the draw. -/
def locate (weight : Nat → Nat) (draw : Nat) : List Nat → Option Nat
  | [] => none
  | i :: rest => if draw < weight i then some i else locate weight (draw - weight i) rest

/-- One of the candidates, in proportion to their weights by a draw modulo the total. Without any
weight the pick is even. -/
def weightedPickAmong (l : Lexicon) (candidates : List Nat) (g : Generator) :
    Except RangeError (Option Nat × Generator) :=
  let total := sumOf l.weightAt candidates
  if total = 0 then pickEvenly candidates g
  else
    let (draw, g) := g.next
    .ok ((locate l.weightAt (draw % total) candidates).or candidates.getLast?, g)

def weightedPick (l : Lexicon) (name : String) (g : Generator) :
    Except RangeError (Option Nat × Generator) :=
  match l.candidates? name with
  | none => .ok (none, g)
  | some candidates => l.weightedPickAmong candidates g

def membersOrFail (l : Lexicon) (name : String) : Except LexiconError (List Nat) :=
  match l.members? name with
  | some members => .ok members
  | none => .error (.unknownClass l.symbol name)

/-- The words that belong to every one of at least two classes, in bank order. -/
def intersection (l : Lexicon) (names : List String) : Except LexiconError (List Nat) :=
  if names.length < 2 then .error (.tooFewClasses (",".intercalate names))
  else do
    let lists ← names.mapM l.membersOrFail
    match lists with
    | [] => return []
    | first :: others => return first.filter fun i => others.all (·.contains i)

def subtypeIndex? (l : Lexicon) (subtype : String) : Option Nat :=
  if subtype.isEmpty then some 0 else l.subtypes.findIdx? (· == subtype)

def resolve (l : Lexicon) (index : Nat) (subtype : String) (casing : Letter.Casing) :
    Except LexiconError String :=
  match l.words[index]? with
  | none => .error (.indexOutOfRange l.symbol index)
  | some word =>
    match (l.subtypeIndex? subtype).bind (word.forms[·]?) with
    | none => .error (.subtypeNotFound l.symbol subtype)
    | some form => .ok (casing.apply form)

/-- One in so many words is given an offset by the freshness pass. -/
def freshnessOdds (factor : UInt32) : Nat := min (min (3 * factor.toNat) 0xFFFFFFFF + 1) 0xFFFFFFFF

/-- A new offset: from `factor` to twenty times it with one chance in the odds, else none. -/
def refresh (factor : UInt32) (word : Word) (g : Generator) :
    Except RangeError (Word × Generator) := do
  let (chance, g) ← g.below (freshnessOdds factor)
  if chance.val = 0 then
    let (offset, g) ← g.range factor.toNat (factor.toNat * 20 + 1)
    return ({ word with offset := UInt32.ofInt offset }, g)
  else return ({ word with offset := 0 }, g)

def refreshAll (factor : UInt32) : List Word → Generator → Except RangeError (List Word × Generator)
  | [], g => .ok ([], g)
  | word :: words, g => do
    let (word, g) ← refresh factor word g
    let (words, g) ← refreshAll factor words g
    return (word :: words, g)

def reshuffle (l : Lexicon) (factor : UInt32) (g : Generator) :
    Except RangeError (Lexicon × Generator) := do
  let (words, g) ← refreshAll factor l.words g
  return ({ l with words }, g)

end Lexicon

end Phrasebook
