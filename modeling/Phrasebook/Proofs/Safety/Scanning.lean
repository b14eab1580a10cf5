import Phrasebook.Machine.Scan

/-! Searches on a machine find what the specification finds.
A text of less than 2 ^ 32 characters leaves room for every place that a search computes. -/
namespace Phrasebook.Machine

def Short (r : Reader) : Prop := r.text.size < 2 ^ 32

variable {r : Reader} {i : Nat}

theorem Short.word_eq (short : Short r) {n : Nat} (near : n ≤ r.text.size + 4) :
    word n = .ok n := by
  unfold Short at short
  exact Machine.word_eq (by omega)

theorem drop_of_lt (inside : i < r.text.size) :
    r.text.toList.drop i = r.charAt i :: r.text.toList.drop (i + 1) := by
  have inList : i < r.text.toList.length := by rwa [Array.length_toList]
  rw [List.drop_eq_getElem_cons inList, Reader.charAt, Array.getElem?_eq_getElem inside,
    Option.getD_some, Array.getElem_toList]

theorem drop_of_le (outside : r.text.size ≤ i) : r.text.toList.drop i = [] := by
  apply List.drop_eq_nil_of_le
  rwa [Array.length_toList]

theorem charAt_eq (inside : i < r.text.size) : charAt r i = .ok (r.charAt i) := by
  apply entry_eq
  rw [Array.getElem?_toList, Reader.charAt, Array.getElem?_eq_getElem inside, Option.getD_some]

theorem read_eq (short : Short r) : read r = .ok r.read := by
  have inside := r.inside
  rw [read, Reader.read]
  split
  · rw [short.word_eq (by omega)]
    rfl
  · have stays : r.moveTo (r.position + 1) = r := by
      have full : min (r.position + 1) r.text.size = r.position := by omega
      simp only [Reader.moveTo, full]
    rw [stays]
    rfl

theorem slice_eq (r : Reader) (start stop : Nat) :
    slice r start stop = .ok (r.slice start stop) := by
  have size : r.text.toList.length = r.text.size := Array.length_toList
  have cut : (r.text.toList.drop (min start (min stop r.text.size))).take
      (min stop r.text.size - min start (min stop r.text.size)) =
        (r.text.toList.drop start).take (stop - start) := by
    by_cases order : start ≤ min stop r.text.size
    · rw [Nat.min_eq_left order, List.take_eq_take_iff, List.length_drop]
      omega
    · have nothing : (r.text.toList.drop start).take (stop - start) = [] := by
        rw [List.take_eq_nil_iff, List.drop_eq_nil_iff]
        omega
      have empty : min stop r.text.size - min start (min stop r.text.size) = 0 := by omega
      rw [nothing, empty, List.take_zero]
  rw [slice, stretch, if_pos (by omega), cut, Reader.slice, Array.toList_extract,
    List.extract_eq_take_drop]

theorem tail_eq (r : Reader) (start : Nat) : tail r start = .ok (r.tail start) := by
  have size : r.text.toList.length = r.text.size := Array.length_toList
  rw [tail, stretch, if_pos (by omega), Reader.tail_eq]
  by_cases inside : start ≤ r.text.size
  · rw [Nat.min_eq_left inside, List.take_of_length_le (by rw [List.length_drop]; omega)]
  · rw [Nat.min_eq_right (by omega), Nat.sub_self, List.take_zero, drop_of_le (by omega)]

theorem isEscaped_eq (inside : i ≤ r.text.size) : isEscaped r i = .ok (r.isEscaped i) := by
  unfold isEscaped Reader.isEscaped
  split
  · rename_i later
    rw [less_eq later, bind_ok, charAt_eq (by omega), bind_ok, decide_eq_true later,
      Bool.true_and]
    rfl
  · rename_i first
    rw [decide_eq_false first, Bool.false_and]
    rfl

theorem isEscaped_succ (r : Reader) (i : Nat) : r.isEscaped (i + 1) = (r.charAt i == '\\') := by
  simp [Reader.isEscaped]

theorem findChar_search (needle : Char) :
    findChar r needle i =
      .ok (Reader.search [needle] (r.isEscaped i) i (r.text.toList.drop i)) := by
  induction left : r.text.size - i generalizing i with
  | zero =>
    rw [findChar, if_neg (by omega), drop_of_le (by omega)]
    rfl
  | succ left ih =>
    have inside : i < r.text.size := by omega
    have later := ih (i := i + 1) (by omega)
    rw [isEscaped_succ] at later
    rw [findChar, if_pos inside, charAt_eq inside, bind_ok, later, drop_of_lt inside,
      Reader.search]
    by_cases hit : r.charAt i = needle
    · rw [if_pos hit, isEscaped_eq (Nat.le_of_lt inside), bind_ok]
      cases r.isEscaped i with
      | false =>
        simp [List.isPrefixOf, hit]
        rfl
      | true =>
        simp [List.isPrefixOf, hit]
    · rw [if_neg hit, if_neg]
      simp [List.isPrefixOf, Ne.symm hit]

theorem findChar_eq (needle : Char) : findChar r needle i = .ok (r.findChar? needle i) := by
  rw [findChar_search, Reader.findChar?, Reader.find?, if_neg (by simp), Reader.tail_eq]

theorem findClosing_balance {opening closing : Char} (short : Short r) {depth : Nat}
    (shallow : depth ≤ i) :
    findClosing r opening closing depth i =
      .ok (Reader.balance opening closing depth i (r.text.toList.drop i)) := by
  induction left : r.text.size - i using Nat.strongRecOn generalizing i depth with
  | ind left ih =>
    by_cases inside : i < r.text.size
    · rw [findClosing, if_pos inside, charAt_eq inside, bind_ok, drop_of_lt inside,
        short.word_eq (n := i + 2) (by omega), short.word_eq (n := depth + 1) (by omega),
        short.word_eq (n := i + 1) (by omega)]
      have next : ∀ d, d ≤ i + 1 → findClosing r opening closing d (i + 1) = _ :=
        fun d shallow => ih (r.text.size - (i + 1)) (by omega) shallow rfl
      have skip : findClosing r opening closing depth (i + 2) = _ :=
        ih (r.text.size - (i + 2)) (by omega) (by omega) rfl
      by_cases escape : r.charAt i = '\\'
      · rw [if_pos escape, bind_ok, skip, escape]
        by_cases more : i + 1 < r.text.size
        · rw [drop_of_lt more, Reader.balance_escape]
        · rw [drop_of_le (i := i + 1) (by omega), drop_of_le (i := i + 2) (by omega)]
          simp [Reader.balance]
      · rw [if_neg escape, Reader.balance.eq_def]
        simp only [if_neg escape]
        by_cases opened : r.charAt i = opening
        · simp only [if_pos opened, bind_ok]
          exact next (depth + 1) (by omega)
        · simp only [if_neg opened]
          by_cases closed : r.charAt i = closing
          · simp only [if_pos closed]
            cases depth with
            | zero => rfl
            | succ depth =>
              rw [if_neg (Nat.succ_ne_zero depth), less_eq (by omega), bind_ok, bind_ok]
              exact next depth (by omega)
          · simp only [if_neg closed, bind_ok]
            exact next depth (by omega)
    · rw [findClosing, if_neg inside, drop_of_le (by omega)]
      rfl

theorem findClosing_eq {opening closing : Char} (short : Short r) :
    findClosing r opening closing 0 i = .ok (r.closing? opening closing i) := by
  rw [findClosing_balance short (Nat.zero_le i), Reader.closing?, Reader.tail_eq]

theorem digitsEnd_eq (short : Short r) : digitsEnd r i = .ok (r.digitsEnd i) := by
  fun_induction Reader.digitsEnd r i with
  | case1 i isDigit ih =>
    have inside := r.lt_size_of_isDigit isDigit
    rw [digitsEnd, if_pos isDigit, short.word_eq (by omega), bind_ok, ih]
  | case2 i notDigit =>
    rw [digitsEnd, if_neg notDigit]
    rfl

theorem blockEnd_eq {start : Nat} {construct : Construct} (short : Short r)
    (near : start ≤ r.text.size + 3) :
    blockEnd r start construct = lift (r.blockEnd start construct) := by
  unfold blockEnd Reader.blockEnd
  split
  · rw [short.word_eq (by omega), bind_ok, findClosing_eq short, bind_ok, Reader.squareClose?]
    cases r.closing? '[' ']' (start + 1) <;> rfl
  · rfl

theorem slice_of_lt {close : Nat} (order : i < close) (inside : close ≤ r.text.size) :
    r.slice i close = r.charAt i :: r.slice (i + 1) close := by
  have more : close - i = close - (i + 1) + 1 := by omega
  simp only [Reader.slice, Array.toList_extract, List.extract_eq_take_drop]
  rw [drop_of_lt (by omega), more, List.take_succ_cons]

theorem slice_of_le {close : Nat} (order : close ≤ i) : r.slice i close = [] := by
  simp only [Reader.slice, Array.toList_extract, List.extract_eq_take_drop]
  rw [Nat.sub_eq_zero_of_le order, List.take_zero]

theorem optionStarts_eq {close depth : Nat} (short : Short r) (inside : close ≤ r.text.size)
    (shallow : depth ≤ i) :
    optionStarts r close depth i = .ok (Phrasebook.optionStarts depth i (r.slice i close)) := by
  induction left : close - i using Nat.strongRecOn generalizing i depth with
  | ind left ih =>
    by_cases order : i < close
    · have next : ∀ d, d ≤ i + 1 → optionStarts r close d (i + 1) = _ :=
        fun d shallow => ih (close - (i + 1)) (by omega) shallow rfl
      have skip : optionStarts r close depth (i + 2) = _ :=
        ih (close - (i + 2)) (by omega) (by omega) rfl
      rw [optionStarts, if_pos order, slice_of_lt order inside,
        short.word_eq (n := i + 2) (by omega), short.word_eq (n := depth + 1) (by omega),
        short.word_eq (n := i + 1) (by omega)]
      by_cases escape : r.charAt i = '\\'
      · rw [if_pos escape, bind_ok, skip, escape]
        by_cases more : i + 1 < close
        · rw [slice_of_lt more inside, optionStarts_escape]
        · rw [slice_of_le (i := i + 1) (by omega), slice_of_le (i := i + 2) (by omega)]
          simp [Phrasebook.optionStarts]
      · rw [if_neg escape, Phrasebook.optionStarts.eq_def]
        simp only [if_neg escape]
        by_cases opened : r.charAt i = '{'
        · simp only [if_pos opened, bind_ok]
          exact next (depth + 1) (by omega)
        · simp only [if_neg opened]
          by_cases closed : r.charAt i = '}'
          · simp only [if_pos closed, bind_ok]
            exact next (depth - 1) (by omega)
          · simp only [if_neg closed]
            by_cases divides : r.charAt i = '/' ∧ depth = 0
            · simp only [if_pos divides, bind_ok, next depth (by omega)]
              rfl
            · simp only [if_neg divides, bind_ok]
              exact next depth (by omega)
    · rw [optionStarts, if_neg order, slice_of_le (by omega)]
      rfl

end Phrasebook.Machine
