import Std.Data.ExtTreeSet
import Phrasebook.Article
import Phrasebook.Evaluation.Fault
import Phrasebook.Reader
import Phrasebook.Repetition
import Phrasebook.Streams

/-! The state of a run, and how it writes.
A run reads its text once from left to right, apart from the jumps that selectors and repetitions
make; everything it writes passes through the modes of letter case. -/
namespace Phrasebook

abbrev Flags := Std.ExtTreeSet String

structure Setting where
  lexicons : Std.ExtTreeMap Char Lexicon
  lineBreak : String

/-- A written `a` that may still turn into `an`. -/
structure PendingArticle where
  marks : List Mark
  upper : Bool
deriving Repr, DecidableEq

/-- Calls with one key share the word that the first of them picked. -/
structure CarrierKey where
  className : String
  symbol : Char
  carrier : String
deriving Repr, DecidableEq

structure State where
  reader : Reader
  /-- The closing brackets of the selectors whose options run, innermost first. -/
  selectors : List Nat
  repetitions : List Repetition
  streams : Streams
  carriers : List (CarrierKey × Nat)
  localFlags : Flags
  globalFlags : Flags
  warnings : List Warning
  generator : Generator
  /-- The seed of tagged selectors, fixed at the start. -/
  salt : UInt64
  /-- The tag read just before a selector. -/
  tag : Option UInt64
  article : Option PendingArticle
  upper : Bool
  proper : Bool
  firstPending : Bool
  lastChar : Char

namespace State

open Letter (isAlphanumeric)

def start (text : List Char) (flags : Flags) (generator : Generator) : State where
  reader := Reader.ofList text
  selectors := []
  repetitions := []
  streams := Streams.empty
  carriers := []
  localFlags := ∅
  globalFlags := flags
  warnings := []
  generator := generator
  salt := generator.peek.toUInt64
  tag := none
  article := none
  upper := false
  proper := false
  firstPending := false
  lastChar := Reader.endMark

def moveTo (s : State) (i : Nat) : State := { s with reader := s.reader.moveTo i }

@[simp] theorem streams_moveTo (s : State) (i : Nat) : (s.moveTo i).streams = s.streams := rfl

def warn (s : State) (cause : Doubt) (index : Nat) : State :=
  { s with warnings := ⟨cause, index⟩ :: s.warnings }

/-- The letter case of a whole word: upper before proper before a pending first letter. -/
def casing (s : State) : Letter.Casing :=
  if s.upper then .upper
  else if s.proper then .proper
  else if s.firstPending then .first
  else .plain

/-- Whether the next character begins a word. An apostrophe does not end one. -/
def atWordStart (s : State) : Bool := !isAlphanumeric s.lastChar && s.lastChar != '\''

def emitCased (s : State) (word : String) : State :=
  { s with
    firstPending := s.firstPending && !word.toList.any isAlphanumeric
    lastChar := word.toList.getLast?.getD s.lastChar
    streams := s.streams.write word }

def emitWord (s : State) (word : String) : State := s.emitCased (s.casing.apply word)

/-- Writes one character of plain text. Of its upper-case form only the first character counts. A
lone `a` is remembered with the places where it was written. -/
def emitLiteral (s : State) (c : Char) : State :=
  if isAlphanumeric c then
    let raised := s.upper || s.firstPending || (s.proper && s.atWordStart)
    let streams := s.streams.writeChar (if raised then Letter.capital c else c)
    let alone := (c == 'a' || c == 'A') && s.atWordStart && !isAlphanumeric s.reader.peek
    { s with
      firstPending := false
      lastChar := c
      streams := streams
      article := if alone then some ⟨streams.marks, s.upper⟩ else none }
  else { s with lastChar := c, streams := s.streams.writeChar c }

def emitRaw (s : State) (c : Char) : State :=
  { s with
    article := if isAlphanumeric c then none else s.article
    lastChar := c
    streams := s.streams.writeChar c }

def emitLineBreak (s : State) (lineBreak : String) : State :=
  { s with lastChar := '\n', streams := s.streams.write lineBreak }

/-- Turns a pending `a` into `an` where a word begins with a vowel sound. -/
def correctArticle (s : State) (article : Option PendingArticle) (word : String) : State :=
  match article with
  | some a =>
    if Article.startsWithVowelSound word.toList then
      { s with streams := s.streams.insertAt a.marks (if a.upper then "N" else "n") }
    else s
  | none => s

def markIteration (s : State) (depth : Nat) (r : Repetition) : State :=
  { s with
    localFlags := IterationMark.all.foldl
      (fun flags mark =>
        if r.holds mark then flags.insert (mark.flagName depth)
        else flags.erase (mark.flagName depth)) s.localFlags }

def unmarkIteration (s : State) (depth : Nat) : State :=
  { s with
    localFlags := IterationMark.all.foldl
      (fun flags mark => flags.erase (mark.flagName depth)) s.localFlags }

end State

end Phrasebook
