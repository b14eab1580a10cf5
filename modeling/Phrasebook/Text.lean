import Phrasebook.Letter.Blank

/-! Texts as lists of characters: trimming, cutting into pieces, decimal numbers, and the line and
column that a text leads up to. -/
namespace Phrasebook.Text

open Letter (isBlank)

def trim (text : List Char) : List Char :=
  ((text.dropWhile isBlank).reverse.dropWhile isBlank).reverse

def words : List Char → List (List Char)
  | [] => []
  | c :: rest =>
    if isBlank c then words rest
    else if rest.head?.any (!isBlank ·) then
      match words rest with
      | [] => [[c]]
      | word :: others => (c :: word) :: others
    else [c] :: words rest

/-- The stretches between separators: one more than there are separators, empty ones included. -/
def pieces (separator : Char) : List Char → List (List Char)
  | [] => [[]]
  | c :: rest =>
    if c = separator then [] :: pieces separator rest
    else match pieces separator rest with
      | [] => [[c]]
      | piece :: others => (c :: piece) :: others

def cut? (separator : Char) : List Char → Option (List Char × List Char)
  | [] => none
  | c :: rest =>
    if c = separator then some ([], rest)
    else (cut? separator rest).map fun (before, after) => (c :: before, after)

def decimal? (text : List Char) : Option Nat :=
  if text ≠ [] ∧ text.all Char.isDigit then
    some (text.foldl (fun n c => 10 * n + (c.toNat - '0'.toNat)) 0)
  else none

/-- A decimal number up to the limit, which may carry a plus sign. -/
def natural? (limit : Nat) (text : List Char) : Option Nat :=
  let digits := match text with
    | '+' :: rest => rest
    | _ => text
  (decimal? digits).filter (· ≤ limit)

/-- A decimal number of the 64-bit signed range, which may carry either sign. -/
def integer? (text : List Char) : Option Int :=
  let value? : Option Int := match text with
    | '-' :: rest => (decimal? rest).map fun n => -n
    | '+' :: rest => (decimal? rest).map fun n => n
    | _ => (decimal? text).map fun n => n
  value?.filter fun n => -0x8000000000000000 ≤ n ∧ n < 0x8000000000000000

def walk (line column : Nat) : Nat → List Char → Nat × Nat
  | 0, _ => (line, column)
  | _ + 1, [] => (line, column)
  | n + 1, c :: rest => if c = '\n' then walk (line + 1) 1 n rest else walk line (column + 1) n rest

/-- Line and column of a position, or of the end if that comes first, both counted from 1. -/
def lineColumn (text : List Char) (i : Nat) : Nat × Nat := walk 1 1 i text

/-- The suffixes of a text that are not empty, the longest first, after those found before. -/
def pushSuffixes (found : Array (List Char)) (text : List Char) : Array (List Char) :=
  match text with
  | [] => found
  | _ :: rest => pushSuffixes (found.push text) rest

def suffixes (text : List Char) : Array (List Char) := pushSuffixes #[] text

theorem getElem?_pushSuffixes_of_lt (found : Array (List Char)) (text : List Char) {i : Nat}
    (h : i < found.size) : (pushSuffixes found text)[i]? = found[i]? := by
  induction text generalizing found with
  | nil => rfl
  | cons c rest ih =>
    rw [pushSuffixes, ih _ (by simp; omega), Array.getElem?_push_lt h, Array.getElem?_eq_getElem h]

theorem getD_pushSuffixes (found : Array (List Char)) (text : List Char) (i : Nat) :
    ((pushSuffixes found text)[found.size + i]?).getD [] = text.drop i := by
  induction text generalizing found i with
  | nil => simp [pushSuffixes]
  | cons c rest ih =>
    rw [pushSuffixes]
    cases i with
    | zero => simp [getElem?_pushSuffixes_of_lt]
    | succ i =>
      have := ih (found.push (c :: rest)) i
      rw [Array.size_push] at this
      rw [show found.size + (i + 1) = found.size + 1 + i by omega, this, List.drop_succ_cons]

theorem getD_suffixes (text : List Char) (i : Nat) :
    ((suffixes text)[i]?).getD [] = text.drop i := by
  simpa [suffixes] using getD_pushSuffixes #[] text i

theorem dropWhile_isBlank {text : List Char} (h : ∀ c ∈ text, isBlank c = false) :
    text.dropWhile isBlank = text := by
  cases text with
  | nil => rfl
  | cons c rest => rw [List.dropWhile_cons_of_neg (by simp [h c List.mem_cons_self])]

theorem trim_eq_self {text : List Char} (h : ∀ c ∈ text, isBlank c = false) :
    trim text = text := by
  rw [trim, dropWhile_isBlank h, dropWhile_isBlank (by simpa using h), List.reverse_reverse]

theorem cut?_eq_some {separator : Char} {text before after : List Char}
    (h : cut? separator text = some (before, after)) : text = before ++ separator :: after := by
  induction text generalizing before with
  | nil => simp [cut?] at h
  | cons c rest ih =>
    by_cases hit : c = separator
    · simp only [cut?, if_pos hit, Option.some.injEq, Prod.mk.injEq] at h
      simp [← h.1, ← h.2, hit]
    · simp only [cut?, if_neg hit, Option.map_eq_some_iff, Prod.exists, Prod.mk.injEq] at h
      obtain ⟨b, a, found, rfl, rfl⟩ := h
      simp [ih found]

theorem cut?_append {separator : Char} {before after : List Char} (absent : separator ∉ before) :
    cut? separator (before ++ separator :: after) = some (before, after) := by
  induction before with
  | nil => simp [cut?]
  | cons c before ih =>
    have other : c ≠ separator := (List.ne_of_not_mem_cons absent).symm
    have later := ih (List.not_mem_of_not_mem_cons absent)
    rw [List.cons_append, cut?, if_neg other, later]
    rfl

theorem cut?_of_absent {separator : Char} {text : List Char} (absent : separator ∉ text) :
    cut? separator text = none := by
  induction text with
  | nil => rfl
  | cons c text ih =>
    have other : c ≠ separator := (List.ne_of_not_mem_cons absent).symm
    have later := ih (List.not_mem_of_not_mem_cons absent)
    rw [cut?, if_neg other, later]
    rfl

theorem pieces_ne_nil (separator : Char) (text : List Char) : pieces separator text ≠ [] := by
  cases text with
  | nil => simp [pieces]
  | cons c rest =>
    unfold pieces
    split
    · simp
    · split <;> simp

theorem pieces_other {separator c : Char} {rest piece : List Char} {others : List (List Char)}
    (other : c ≠ separator) (h : pieces separator rest = piece :: others) :
    pieces separator (c :: rest) = (c :: piece) :: others := by
  simp [pieces, other, h]

theorem pieces_append {separator : Char} {piece rest : List Char} (absent : separator ∉ piece) :
    pieces separator (piece ++ separator :: rest) = piece :: pieces separator rest := by
  induction piece with
  | nil => simp [pieces]
  | cons c piece ih =>
    simp only [List.mem_cons, not_or] at absent
    exact pieces_other (Ne.symm absent.1) (ih absent.2)

theorem pieces_of_absent {separator : Char} {text : List Char} (absent : separator ∉ text) :
    pieces separator text = [text] := by
  induction text with
  | nil => rfl
  | cons c rest ih =>
    simp only [List.mem_cons, not_or] at absent
    exact pieces_other (Ne.symm absent.1) (ih absent.2)

/-- The pieces of a text are the lists that give it back with separators between. -/
theorem pieces_intercalate {separator : Char} {parts : List (List Char)} (several : parts ≠ [])
    (absent : ∀ part ∈ parts, separator ∉ part) :
    pieces separator ([separator].intercalate parts) = parts := by
  induction parts with
  | nil => contradiction
  | cons part parts ih =>
    simp only [List.forall_mem_cons] at absent
    cases parts with
    | nil => simpa using pieces_of_absent absent.1
    | cons next parts =>
      rw [List.intercalate_cons_cons, List.append_assoc, List.singleton_append,
        pieces_append absent.1, ih (by simp) absent.2]

theorem intercalate_pieces (separator : Char) (text : List Char) :
    [separator].intercalate (pieces separator text) = text := by
  induction text with
  | nil => rfl
  | cons c rest ih =>
    obtain ⟨piece, others, cut⟩ := List.exists_cons_of_ne_nil (pieces_ne_nil separator rest)
    rw [cut] at ih
    by_cases hit : c = separator
    · simp [pieces, hit, cut, List.intercalate_cons_cons, ih]
    · rw [pieces_other hit cut]
      cases others <;> simp_all [List.intercalate_cons_cons]

theorem separator_not_mem_of_mem_pieces {separator : Char} {text piece : List Char}
    (h : piece ∈ pieces separator text) : separator ∉ piece := by
  induction text generalizing piece with
  | nil => simp_all [pieces]
  | cons c rest ih =>
    obtain ⟨first, others, cut⟩ := List.exists_cons_of_ne_nil (pieces_ne_nil separator rest)
    rw [cut] at ih
    by_cases hit : c = separator
    · simp only [pieces, if_pos hit, cut, List.mem_cons] at h
      rcases h with rfl | later
      · simp
      · exact ih (List.mem_cons.mpr later)
    · rw [pieces_other hit cut, List.mem_cons] at h
      rcases h with rfl | later
      · simpa using ⟨Ne.symm hit, ih List.mem_cons_self⟩
      · exact ih (List.mem_cons_of_mem _ later)

end Phrasebook.Text
