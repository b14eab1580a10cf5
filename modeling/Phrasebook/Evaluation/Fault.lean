import Phrasebook.Lexicon

/-! What can go wrong in a pattern: faults end a run, warnings do not. -/
namespace Phrasebook

inductive Construct where
  | outputGroup
  | frequencyBody
  | selector
  | repeaterCount
  | repeaterSeparator
  | repeaterContent
  | flagName
  | flagBody
  | randomNumber
deriving Repr, DecidableEq

def Construct.label : Construct → String
  | outputGroup => "output group"
  | frequencyBody => "frequency body"
  | selector => "selector"
  | repeaterCount => "repeater count"
  | repeaterSeparator => "repeater separator"
  | repeaterContent => "repeater content"
  | flagName => "flag name"
  | flagBody => "flag body"
  | randomNumber => "random number"

inductive NumberProblem where
  | noRange (body : String)
  | minimum (text : String)
  | maximum (text : String)
  | order (min max : Int)
deriving Repr, DecidableEq

def NumberProblem.message : NumberProblem → String
  | noRange body => s!"expected min-max, found '{body}'"
  | minimum text => s!"invalid minimum '{text}'"
  | maximum text => s!"invalid maximum '{text}'"
  | order min max => s!"minimum {min} is not below maximum {max}"

inductive Fault where
  | unterminated (construct : Construct)
  | malformedGroup
  | unmatchedGroupClose
  | zeroFrequency
  | selectorArity (options : Nat)
  | unmatchedSelectorClose
  | malformedUniform
  | malformedRepeater (count : String)
  | unknownFlagFunction (name : String)
  | missingFlagName (name : String)
  | malformedNumber (problem : NumberProblem)
  | wordCall (cause : LexiconError)
deriving Repr, DecidableEq

def Fault.message : Fault → String
  | unterminated construct => s!"unterminated {construct.label}"
  | malformedGroup => "output group needs a name followed by ':'"
  | unmatchedGroupClose => "'>' without an open output group"
  | zeroFrequency => "frequency of 0% never runs"
  | selectorArity options => s!"selector needs at least two options, found {options}"
  | unmatchedSelectorClose => "'\x7d' without an active selector"
  | malformedUniform => "uniform tag must be digits followed by a selector"
  | malformedRepeater count => s!"malformed repeater: invalid count '{count}'"
  | unknownFlagFunction name => s!"unknown flag function '{name}'"
  | missingFlagName name => s!"malformed flag call: ${name} needs a flag name"
  | malformedNumber problem => s!"malformed random number: {problem.message}"
  | wordCall cause => s!"word call failed: {cause.message}"

/-- Why a run ends before its text does: a fault and its index, or a draw from a range without
values. -/
inductive Stop where
  | fault (cause : Fault) (index : Nat)
  | draw (cause : RangeError)
deriving Repr, DecidableEq

inductive Doubt where
  | unrecognizedWordCall
  | unknownSymbol (symbol : Char)
  | unknownClass (symbol : Char) (name : String)
  | emptyIntersection (symbol : Char) (names : String)
  | emptyBank (symbol : Char)
  | subtypeNotFound (symbol : Char) (subtype : String)
deriving Repr, DecidableEq

def Doubt.message : Doubt → String
  | unrecognizedWordCall => "word call matches neither grammar"
  | unknownSymbol symbol => s!"no word bank registered for symbol '{symbol}'"
  | unknownClass symbol name => s!"word bank '{symbol}' has no class '{name}'"
  | emptyIntersection symbol names =>
    s!"no word in bank '{symbol}' belongs to every class of '{names}'"
  | emptyBank symbol => s!"word bank '{symbol}' has no words to pick from"
  | subtypeNotFound symbol subtype => s!"word bank '{symbol}' has no subtype '{subtype}'"

structure Warning where
  cause : Doubt
  index : Nat
deriving Repr, DecidableEq

end Phrasebook
