import Phrasebook.Proofs.LineEndings.Texts

/-! What a reader finds in a text with carriage returns.
Every search finds there the shifted place of what it finds in the text itself: a carriage return is
no character that a search looks for, and no backslash stands before it. -/
namespace Phrasebook

open Text (WithinLine withReturns shift)

/-- No line feed directly follows a backslash. -/
def Unbroken (text : List Char) : Prop :=
  ∀ i, text[i]? = some '\\' → text[i + 1]? ≠ some '\n'

variable {text stretch rest : List Char} {c d opening closing : Char} {depth i : Nat}

namespace Reader

/-- The second reader has the text of the first with carriage returns. -/
structure Parallel (text : List Char) (r r' : Reader) : Prop where
  here : r.text.toList = text
  there : r'.text.toList = withReturns text

end Reader

theorem Text.shift_char (h : text.drop i = c :: rest) (other : c ≠ '\n') :
    shift text (i + 1) = shift text i + 1 := by
  apply shift_succ
  rw [getElem?_of_drop h]
  simpa using other

theorem Text.shift_lineFeed (h : text.drop i = '\n' :: rest) :
    shift text (i + 1) = shift text i + 2 :=
  shift_newline (getElem?_of_drop h)

/-- What an escape takes is no line feed. -/
theorem Unbroken.other (unbroken : Unbroken text) (h : text.drop i = '\\' :: c :: rest) :
    c ≠ '\n' := by
  rintro rfl
  exact unbroken i (getElem?_of_drop h) (getElem?_of_drop (drop_char h))

theorem Text.shift_escape (unbroken : Unbroken text) (h : text.drop i = '\\' :: c :: rest) :
    shift text (i + 2) = shift text i + 2 := by
  rw [shift_char (drop_char h) (unbroken.other h), shift_char h (by decide)]

namespace Reader

theorem balance_withReturns (opens : WithinLine opening) (closes : WithinLine closing)
    (unbroken : Unbroken text) (h : text.drop i = stretch) :
    balance opening closing depth (shift text i) (withReturns stretch) =
      (balance opening closing depth i stretch).map (shift text) := by
  fun_induction balance opening closing depth i stretch with
  | case1 => rfl
  | case2 => rfl
  | case3 depth i c rest ih =>
    have other := unbroken.other h
    rw [Text.withReturns_cons (by decide), Text.withReturns_cons other, balance_escape,
      ← Text.shift_escape unbroken h, ih (drop_char (drop_char h))]
  | case4 depth i rest plain ih =>
    rw [Text.withReturns_cons opens.2, balance_opening plain, ← Text.shift_char h opens.2,
      ih (drop_char h)]
  | case5 i rest plain different =>
    rw [Text.withReturns_cons closes.2, balance_closing_zero plain different]
    rfl
  | case6 i rest depth plain different ih =>
    rw [Text.withReturns_cons closes.2, balance_closing_succ plain different,
      ← Text.shift_char h closes.2, ih (drop_char h)]
  | case7 depth i c rest plain notOpening notClosing ih =>
    by_cases newline : c = '\n'
    · subst newline
      rw [Text.withReturns_newline, balance_other (by decide) opens.1.symm closes.1.symm,
        balance_other plain notOpening notClosing, ← ih (drop_char h), Text.shift_lineFeed h]
    · rw [Text.withReturns_cons newline, balance_other plain notOpening notClosing,
        ← Text.shift_char h newline, ih (drop_char h)]

theorem search_withReturns (sought : WithinLine c) (escaped : Bool) (h : text.drop i = stretch) :
    search [c] escaped (shift text i) (withReturns stretch) =
      (search [c] escaped i stretch).map (shift text) := by
  induction stretch generalizing i escaped with
  | nil => rfl
  | cons d rest ih =>
    have later := ih (d == '\\') (drop_char h)
    by_cases newline : d = '\n'
    · subst newline
      have first : [c].isPrefixOf ('\r' :: '\n' :: withReturns rest) = false := by
        simp [List.isPrefixOf, sought.1]
      have second (others : List Char) : [c].isPrefixOf ('\n' :: others) = false := by
        simp [List.isPrefixOf, sought.2]
      have plain : ('\r' == '\\') = false := rfl
      rw [Text.withReturns_newline, search, first, search, second, search, second]
      simp only [Bool.false_and, Bool.false_eq_true, if_false]
      rw [← later, Text.shift_lineFeed h]
    · rw [Text.withReturns_cons newline, search, search, ← Text.shift_char h newline, later]
      have same : [c].isPrefixOf (d :: withReturns rest) = [c].isPrefixOf (d :: rest) := by
        simp [List.isPrefixOf]
      rw [same]
      split <;> rfl

end Reader

theorem optionStarts_withReturns (unbroken : Unbroken text) (h : text.drop i = stretch ++ rest) :
    optionStarts depth (shift text i) (withReturns stretch) =
      (optionStarts depth i stretch).map (shift text) := by
  fun_induction optionStarts depth i stretch with
  | case1 => rfl
  | case2 => rfl
  | case3 depth i c stretch ih =>
    have other := unbroken.other h
    rw [Text.withReturns_cons (by decide), Text.withReturns_cons other, optionStarts_escape,
      ← Text.shift_escape unbroken h, ih (drop_char (drop_char h))]
  | case4 depth i stretch _ ih =>
    rw [Text.withReturns_cons (by decide), optionStarts_opening,
      ← Text.shift_char h (by decide), ih (drop_char h)]
  | case5 depth i stretch _ _ ih =>
    rw [Text.withReturns_cons (by decide), optionStarts_closing,
      ← Text.shift_char h (by decide), ih (drop_char h)]
  | case6 depth i c stretch _ _ _ slash ih =>
    obtain ⟨rfl, rfl⟩ := slash
    rw [Text.withReturns_cons (by decide), optionStarts_slash_zero,
      ← Text.shift_char h (by decide), ih (drop_char h), List.map_cons]
  | case7 depth i c stretch plain notOpening notClosing notSlash ih =>
    have passed (i : Nat) (stretch : List Char) :
        optionStarts depth i (c :: stretch) = optionStarts depth (i + 1) stretch := by
      rw [optionStarts.eq_def]
      simp only [if_neg plain, if_neg notOpening, if_neg notClosing, if_neg notSlash]
    by_cases newline : c = '\n'
    · subst newline
      rw [Text.withReturns_newline, optionStarts_other (by decide), passed,
        ← ih (drop_char h), Text.shift_lineFeed h]
    · rw [Text.withReturns_cons newline, passed, ← Text.shift_char h newline, ih (drop_char h)]

theorem Reader.slice_two (r : Reader) (i : Nat) :
    r.slice i (i + 2) = (r.text.toList.drop i).take 2 := by
  rw [slice, Array.toList_extract, List.extract_eq_take_drop, Nat.add_sub_cancel_left]

namespace Reader.Parallel

variable {r r' : Reader} {j : Nat}

theorem drop (parallel : Parallel text r r') (i : Nat) :
    r'.text.toList.drop (shift text i) = withReturns (r.text.toList.drop i) := by
  rw [parallel.there, parallel.here, Text.drop_withReturns]

theorem tail (parallel : Parallel text r r') (i : Nat) :
    r'.tail (shift text i) = withReturns (r.tail i) := by
  rw [tail_eq, tail_eq, parallel.drop]

theorem size (parallel : Parallel text r r') : r'.text.size = shift text r.text.size := by
  have length : r.text.size = text.length := by rw [← parallel.here, Array.length_toList]
  rw [length, Text.shift_length, ← parallel.there, Array.length_toList]

theorem charAt (parallel : Parallel text r r') (i : Nat) :
    r'.charAt (shift text i) = if r.charAt i = '\n' then '\r' else r.charAt i := by
  have found := Text.getElem?_withReturns text i
  rw [← parallel.there, Array.getElem?_toList] at found
  rw [Reader.charAt, Reader.charAt, found, ← parallel.here, Array.getElem?_toList]
  cases r.text[i]? <;> rfl

theorem shift_succ (parallel : Parallel text r r') (other : r.charAt i ≠ '\n') :
    shift text (i + 1) = shift text i + 1 := by
  apply Text.shift_succ
  intro newline
  rw [← parallel.here, Array.getElem?_toList] at newline
  exact other (by rw [Reader.charAt, newline]; rfl)

theorem charAt_eq_iff (parallel : Parallel text r r') (sought : WithinLine c) :
    r'.charAt (shift text i) = c ↔ r.charAt i = c := by
  rw [parallel.charAt]
  split
  · rename_i newline
    rw [newline]
    exact ⟨fun same => absurd same.symm sought.1, fun same => absurd same.symm sought.2⟩
  · rfl

theorem slice (parallel : Parallel text r r') (i j : Nat) :
    r'.slice (shift text i) (shift text j) = withReturns (r.slice i j) := by
  rw [slice_eq_drop, slice_eq_drop, parallel.there, parallel.here, Text.take_withReturns]
  rcases Nat.le_total i j with before | behind
  · rw [← Text.shift_take before, Text.drop_withReturns]
  · have nothing : (text.take j).drop i = [] :=
      List.drop_eq_nil_of_le (Nat.le_trans (List.length_take_le j text) behind)
    have size : (withReturns (text.take j)).length ≤ shift text i := by
      rw [← Text.take_withReturns]
      exact Nat.le_trans (List.length_take_le _ _) (Text.shift_le behind)
    rw [nothing, List.drop_eq_nil_of_le size]
    rfl

theorem closing? (parallel : Parallel text r r') (opening closing : Char)
    (opens : WithinLine opening) (closes : WithinLine closing) (unbroken : Unbroken text) (i : Nat) :
    r'.closing? opening closing (shift text i) =
      (r.closing? opening closing i).map (shift text) := by
  rw [Reader.closing?, Reader.closing?, parallel.tail]
  apply balance_withReturns opens closes unbroken
  rw [tail_eq, parallel.here]

theorem findChar? (parallel : Parallel text r r') (sought : WithinLine c)
    (before : r.charAt i ≠ '\n') :
    r'.findChar? c (shift text (i + 1)) = (r.findChar? c (i + 1)).map (shift text) := by
  have escaped : r'.isEscaped (shift text (i + 1)) = r.isEscaped (i + 1) := by
    rw [parallel.shift_succ before, isEscaped, isEscaped, Nat.add_sub_cancel,
      Nat.add_sub_cancel, parallel.charAt, if_neg before]
    simp
  rw [Reader.findChar?, Reader.findChar?, find?, find?, if_neg (by simp), if_neg (by simp),
    escaped, parallel.tail]
  apply search_withReturns sought
  rw [tail_eq, parallel.here]

theorem digitsEnd (parallel : Parallel text r r') (i : Nat) :
    r'.digitsEnd (shift text i) = shift text (r.digitsEnd i) := by
  fun_induction Reader.digitsEnd r i with
  | case1 i digit ih =>
    have other : r.charAt i ≠ '\n' := by
      intro newline
      rw [newline] at digit
      contradiction
    rw [Reader.digitsEnd, parallel.charAt, if_neg other, if_pos digit, ← parallel.shift_succ other,
      ih]
  | case2 i stop =>
    rw [Reader.digitsEnd, parallel.charAt, if_neg]
    split
    · decide
    · exact stop

/-- A block ends at the shifted place, and it has brackets at both ends. -/
theorem blockEnd (parallel : Parallel text r r') (unbroken : Unbroken text) (i : Nat)
    (construct : Construct) :
    Matches (fun n n' => n' = shift text n) (r.blockEnd i construct)
      (r'.blockEnd (shift text i) construct) := by
  have bracket := parallel.charAt_eq_iff (i := i) (show WithinLine '[' by decide)
  unfold Reader.blockEnd
  by_cases opened : r.charAt i = '['
  · have found := parallel.closing? '[' ']' (by decide) (by decide) unbroken (i + 1)
    have other : r.charAt i ≠ '\n' := by
      rw [opened]
      decide
    rw [if_pos opened, if_pos (bracket.mpr opened), ← parallel.shift_succ other, squareClose?,
      squareClose?, found]
    cases r.closing? '[' ']' (i + 1) with
    | none => exact .fault _ _ rfl
    | some n => exact .value rfl
  · rw [if_neg opened, if_neg (mt bracket.mp opened)]
    exact .fault _ _ rfl

theorem position_moveTo (parallel : Parallel text r r') (i : Nat) :
    (r'.moveTo (shift text i)).position = shift text (r.moveTo i).position := by
  rw [Reader.position_moveTo, Reader.position_moveTo, parallel.size, Text.shift_min]

end Reader.Parallel

end Phrasebook
