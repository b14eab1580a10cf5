import Phrasebook.Data.Document
import Phrasebook.Loading

/-! Word banks, pattern banks and definitions in bank files.
Records may name their type and have their fields in any order. A known field stands once at most,
and unknown ones are passed over. -/
namespace Phrasebook.Data

namespace Value

def string? : Value → Option String
  | text s => some (String.ofList s)
  | _ => none

def char? : Value → Option Char
  | char c => some c
  | _ => none

def word32? : Value → Option UInt32
  | natural n => if n < UInt32.size then some n.toUInt32 else none
  | _ => none

def listOf? {α : Type} (part? : Value → Option α) : Value → Option (List α)
  | list parts => parts.mapM part?
  | _ => none

end Value

/-- The fields of a record whose type name, if it has one, is the given one. -/
def record? (typeName : String) : Value → Option (List (List Char × Value))
  | .record given fields => if given.all (· == typeName.toList) then some fields else none
  | _ => none

def required {α : Type} (fields : List (List Char × Value)) (key : String)
    (decode : Value → Option α) : Option α :=
  match fields.filter (·.1 == key.toList) with
  | [(_, value)] => decode value
  | _ => none

def optional {α : Type} (fields : List (List Char × Value)) (key : String)
    (decode : Value → Option α) (default : α) : Option α :=
  match fields.filter (·.1 == key.toList) with
  | [] => some default
  | [(_, value)] => decode value
  | _ => none

def word? (value : Value) : Option WordSource := do
  let fields ← record? "WordEntry" value
  let forms ← required fields "forms" (Value.listOf? Value.string?)
  let weight ← optional fields "weight" Value.word32? 1
  let classes ← optional fields "classes" (Value.listOf? Value.string?) []
  return { forms, weight, classes }

def lexicon? (value : Value) : Option LexiconSource := do
  let fields ← record? "WordBankSource" value
  let symbol ← required fields "symbol" Value.char?
  let title ← optional fields "title" Value.string? ""
  let description ← optional fields "description" Value.string? ""
  let subtypes ← required fields "subtypes" (Value.listOf? Value.string?)
  let words ← required fields "words" (Value.listOf? word?)
  return { symbol, title, description, subtypes, words }

def pattern? (value : Value) : Option Pattern := do
  let fields ← record? "Pattern" value
  return ⟨← required fields "title" Value.string?, ← required fields "text" Value.string?⟩

def anthology? (value : Value) : Option Anthology := do
  let fields ← record? "PatternBank" value
  let symbol ← required fields "symbol" Value.char?
  let title ← optional fields "title" Value.string? ""
  let patterns ← required fields "patterns" (Value.listOf? pattern?)
  return ⟨symbol, title, patterns⟩

def kind? : Value → Option Kind
  | .symbol name =>
    if name = "Macro".toList then some .inline
    else if name = "Global".toList then some .global
    else none
  | _ => none

def definition? (value : Value) : Option Definition := do
  let fields ← record? "Definition" value
  let kind ← required fields "kind" kind?
  let name ← required fields "name" Value.string?
  let body ← required fields "body" Value.string?
  return ⟨kind, name, body⟩

/-- Why a text is not a bank: it cannot be read as one, or what it says is not a word bank. -/
inductive BankError where
  | malformed
  | invalid (cause : LexiconError)
deriving Repr, DecidableEq

def BankError.ofParse : ParseError Unit → BankError
  | .undecoded _ => .malformed
  | .invalid cause => .invalid cause

def decode {α : Type} (form? : Value → Option α) (text : String) : Except Unit α :=
  match (document? text.toList).bind form? with
  | none => .error ()
  | some a => .ok a

/-- A decoder and a disk that do not say why they fail. -/
def decoder : Decoder Unit where
  lexicon := decode lexicon?
  anthology := decode anthology?
  definitions := decode (Value.listOf? definition?)

def disk : Disk Unit := ⟨fun _ => (), fun _ => ()⟩

def parseLexicon (text : String) : Except BankError Lexicon :=
  (decoder.parseLexicon text).mapError .ofParse

def parseAnthology (text : String) : Except BankError Anthology :=
  (decoder.parseAnthology text).mapError .ofParse

def parseGlossary (text : String) : Except BankError Glossary := do
  return Glossary.ofList (← (decoder.parseDefinitions text).mapError .ofParse)

end Phrasebook.Data
