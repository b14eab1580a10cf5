import Phrasebook.Letter.Blank

/-! The choice between `a` and `an` by the sound a word begins with. -/
namespace Phrasebook.Article

/-- Beginnings with a vowel letter that are spoken with a consonant. -/
def consonantBeginnings : List String := ["uni", "use", "usu", "uti", "eu", "ewe", "one", "once"]

/-- Beginnings with a silent consonant. -/
def vowelBeginnings : List String := ["hour", "honest", "honor", "heir"]

/-- The lower-case form of the letters A to Z and of the dotted capital I, whose form is an i and a
combining dot. No other character has a form that begins with a letter of the alphabet above. -/
def lower (c : Char) : List Char :=
  if c.toNat = 0x130 then ['i', Char.ofNat 0x307] else [c.toLower]

def beginsWith (text : List Char) (beginning : String) : Bool :=
  beginning.toList.isPrefixOf text

/-- Whether a word begins with a vowel sound: the listed beginnings first, then a, e, i, o, u. -/
def startsWithVowelSound (word : List Char) : Bool :=
  let text := (word.dropWhile Letter.isBlank).flatMap lower
  if vowelBeginnings.any (beginsWith text) then true
  else if consonantBeginnings.any (beginsWith text) then false
  else text.head?.any ['a', 'e', 'i', 'o', 'u'].contains

end Phrasebook.Article
