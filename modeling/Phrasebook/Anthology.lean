import Phrasebook.Generator

/-! Pattern banks: titled patterns under one symbol. -/
namespace Phrasebook

structure Pattern where
  title : String
  text : String
deriving Repr, DecidableEq

structure Anthology where
  symbol : Char
  title : String
  patterns : List Pattern
deriving Repr, DecidableEq

namespace Anthology

def find? (a : Anthology) (title : String) : Option Pattern :=
  a.patterns.find? (·.title == title)

/-- One of the patterns, each as likely as any other. An empty bank makes no draw. -/
def random (a : Anthology) (g : Generator) : Except RangeError (Option Pattern × Generator) :=
  if a.patterns.isEmpty then .ok (none, g)
  else do
    let (i, g) ← g.oneOf a.patterns.length
    return (some (a.patterns.get i), g)

end Anthology

end Phrasebook
