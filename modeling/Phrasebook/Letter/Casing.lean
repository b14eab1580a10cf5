import Phrasebook.Letter.Alphanumeric
import Phrasebook.Letter.Blank
import Phrasebook.Letter.Uppercase

/-! Letter case for whole pieces of text. -/
namespace Phrasebook.Letter

inductive Casing where
  | plain
  | first
  | proper
  | upper
deriving Repr, DecidableEq, Inhabited

namespace Casing

/-- Upper-cases letters and digits at the start of the text or after a blank. -/
def capitalizeWords (atStart : Bool) : List Char → List Char
  | [] => []
  | c :: rest =>
    (if atStart && isAlphanumeric c then uppercase c else [c]) ++ capitalizeWords (isBlank c) rest

def applyList : Casing → List Char → List Char
  | plain, text => text
  | first, [] => []
  | first, c :: rest => uppercase c ++ rest
  | proper, text => capitalizeWords true text
  | upper, text => uppercaseText text

def apply (casing : Casing) (text : String) : String :=
  String.ofList (casing.applyList text.toList)

theorem apply_plain (text : String) : plain.apply text = text := String.ofList_toList

end Casing

end Phrasebook.Letter
