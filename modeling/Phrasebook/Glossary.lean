import Std.Data.ExtTreeMap

/-! Named bodies of pattern text.
An inline body takes the place of its reference; a global is evaluated once and its value is kept.
The two kinds have separate names. -/
namespace Phrasebook

inductive Kind where
  | inline
  | global
deriving Repr, DecidableEq

namespace Kind

def sigil : Kind → Char
  | inline => '='
  | global => '&'

def ofSigil? (c : Char) : Option Kind :=
  if c = inline.sigil then some inline
  else if c = global.sigil then some global
  else none

def label : Kind → String
  | inline => "macro"
  | global => "global"

end Kind

structure Definition where
  kind : Kind
  name : String
  body : String
deriving Repr, DecidableEq

structure Glossary where
  inlines : Std.ExtTreeMap String String
  globals : Std.ExtTreeMap String String
deriving BEq

namespace Glossary

def empty : Glossary := ⟨∅, ∅⟩

def insert (g : Glossary) (d : Definition) : Glossary :=
  match d.kind with
  | .inline => { g with inlines := g.inlines.insert d.name d.body }
  | .global => { g with globals := g.globals.insert d.name d.body }

def body? (g : Glossary) (kind : Kind) (name : String) : Option String :=
  match kind with
  | .inline => g.inlines[name]?
  | .global => g.globals[name]?

def ofList (definitions : List Definition) : Glossary := definitions.foldl insert empty

def globalNames (g : Glossary) : List String := g.globals.keys

def isEmpty (g : Glossary) : Bool := g.inlines.isEmpty && g.globals.isEmpty

def merge (g other : Glossary) : Glossary :=
  ⟨g.inlines.insertMany other.inlines.toList, g.globals.insertMany other.globals.toList⟩

end Glossary

end Phrasebook
