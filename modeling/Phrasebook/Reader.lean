import Phrasebook.Text

/-! A text with a reading position.
Positions count characters. Past the end every read gives the character U+0000 and stays there, so
nothing here can fail; searches give absolute positions and skip escaped characters. -/
namespace Phrasebook

structure Reader where
  text : Array Char
  /-- What the text has from each position on. -/
  tails : Array (List Char)
  position : Nat
  tails_eq : tails = Text.suffixes text.toList
  inside : position ≤ text.size
deriving DecidableEq

namespace Reader

/-- What is read where the text has ended. -/
def endMark : Char := '\x00'

def ofList (text : List Char) : Reader where
  text := text.toArray
  tails := Text.suffixes text
  position := 0
  tails_eq := rfl
  inside := Nat.zero_le _

def atEnd (r : Reader) : Bool := r.position == r.text.size

def charAt (r : Reader) (i : Nat) : Char := (r.text[i]?).getD endMark

def peek (r : Reader) : Char := r.charAt r.position

def moveTo (r : Reader) (i : Nat) : Reader :=
  { r with position := min i r.text.size, inside := Nat.min_le_right _ _ }

def read (r : Reader) : Char × Reader := (r.peek, r.moveTo (r.position + 1))

def slice (r : Reader) (start stop : Nat) : List Char := (r.text.extract start stop).toList

def tail (r : Reader) (start : Nat) : List Char := (r.tails[start]?).getD []

def isEscaped (r : Reader) (i : Nat) : Bool := 0 < i && r.charAt (i - 1) == '\\'

/-- Looks for a stretch that does not directly follow a backslash. The text begins at `i`, and
`escaped` says whether a backslash stands before it. -/
def search (needle : List Char) (escaped : Bool) (i : Nat) : List Char → Option Nat
  | [] => none
  | c :: rest =>
    if needle.isPrefixOf (c :: rest) && !escaped then some i
    else search needle (c == '\\') (i + 1) rest

/-- The first place from `start` on where a non-empty stretch occurs unescaped. -/
def find? (r : Reader) (needle : List Char) (start : Nat) : Option Nat :=
  if needle.isEmpty then none
  else search needle (r.isEscaped start) start (r.tail start)

def findChar? (r : Reader) (c : Char) (start : Nat) : Option Nat := r.find? [c] start

/-- Looks for the bracket that closes `depth` open inner brackets and one more. The text begins at
`i`; a backslash and the character after it are passed over. -/
def balance (opening closing : Char) (depth i : Nat) : List Char → Option Nat
  | [] => none
  | c :: rest =>
    if c = '\\' then
      match rest with
      | [] => none
      | _ :: rest => balance opening closing depth (i + 2) rest
    else if c = opening then balance opening closing (depth + 1) (i + 1) rest
    else if c = closing then
      match depth with
      | 0 => some i
      | depth + 1 => balance opening closing depth (i + 1) rest
    else balance opening closing depth (i + 1) rest

def closing? (r : Reader) (opening closing : Char) (start : Nat) : Option Nat :=
  balance opening closing 0 start (r.tail start)

def squareClose? (r : Reader) (start : Nat) : Option Nat := r.closing? '[' ']' start

def curlyClose? (r : Reader) (start : Nat) : Option Nat := r.closing? '{' '}' start

def angleClose? (r : Reader) (start : Nat) : Option Nat := r.closing? '<' '>' start

def lineColumn (r : Reader) (i : Nat) : Nat × Nat := Text.lineColumn r.text.toList i

theorem tail_eq (r : Reader) (start : Nat) : r.tail start = r.text.toList.drop start := by
  rw [tail, r.tails_eq, Text.getD_suffixes]

@[simp] theorem text_moveTo (r : Reader) (i : Nat) : (r.moveTo i).text = r.text := rfl

@[simp] theorem position_moveTo (r : Reader) (i : Nat) :
    (r.moveTo i).position = min i r.text.size := rfl

theorem le_position_moveTo {r : Reader} {i : Nat} (h : r.position ≤ i) :
    r.position ≤ (r.moveTo i).position := by
  have := r.inside
  rw [position_moveTo]
  omega

theorem atEnd_iff (r : Reader) : r.atEnd = true ↔ r.position = r.text.size := by
  simp [atEnd]

theorem position_lt {r : Reader} (more : r.atEnd = false) : r.position < r.text.size := by
  have within := r.inside
  have before : r.position ≠ r.text.size := by
    rwa [Bool.eq_false_iff, ne_eq, atEnd_iff] at more
  omega

theorem position_read {r : Reader} (more : r.atEnd = false) :
    r.read.2.position = r.position + 1 :=
  Nat.min_eq_left (position_lt more)

section balance

variable {opening closing c : Char} {depth i : Nat} {rest : List Char}

theorem balance_escape (c : Char) :
    balance opening closing depth i ('\\' :: c :: rest) =
      balance opening closing depth (i + 2) rest := by
  simp [balance]

theorem balance_opening (plain : opening ≠ '\\') :
    balance opening closing depth i (opening :: rest) =
      balance opening closing (depth + 1) (i + 1) rest := by
  rw [balance.eq_def]
  simp [plain]

theorem balance_closing_zero (plain : closing ≠ '\\') (different : closing ≠ opening) :
    balance opening closing 0 i (closing :: rest) = some i := by
  rw [balance.eq_def]
  simp [plain, different]

theorem balance_closing_succ (plain : closing ≠ '\\') (different : closing ≠ opening) :
    balance opening closing (depth + 1) i (closing :: rest) =
      balance opening closing depth (i + 1) rest := by
  rw [balance.eq_def]
  simp [plain, different]

theorem balance_other (plain : c ≠ '\\') (notOpening : c ≠ opening) (notClosing : c ≠ closing) :
    balance opening closing depth i (c :: rest) = balance opening closing depth (i + 1) rest := by
  rw [balance.eq_def]
  simp [plain, notOpening, notClosing]

end balance

theorem le_of_balance {opening closing : Char} {depth i j : Nat} {text : List Char}
    (h : balance opening closing depth i text = some j) : i ≤ j := by
  fun_induction balance opening closing depth i text with
  | case1 | case2 => simp at h
  | case5 => simp_all
  | case3 _ _ _ _ ih => have := ih h; omega
  | case4 _ _ _ _ ih => have := ih h; omega
  | case6 _ _ _ _ _ ih => have := ih h; omega
  | case7 _ _ _ _ _ _ _ ih => have := ih h; omega

theorem le_of_search {needle : List Char} {escaped : Bool} {i j : Nat} {text : List Char}
    (h : search needle escaped i text = some j) : i ≤ j := by
  fun_induction search needle escaped i text with
  | case1 => simp at h
  | case2 => simp_all
  | case3 _ _ _ _ _ ih => have := ih h; omega

theorem le_of_findChar? {r : Reader} {c : Char} {start j : Nat}
    (h : r.findChar? c start = some j) : start ≤ j := by
  simp only [findChar?, find?, List.isEmpty_cons, Bool.false_eq_true, if_false] at h
  exact le_of_search h

theorem le_of_closing? {r : Reader} {opening closing : Char} {start j : Nat}
    (h : r.closing? opening closing start = some j) : start ≤ j :=
  le_of_balance h

end Reader

end Phrasebook
