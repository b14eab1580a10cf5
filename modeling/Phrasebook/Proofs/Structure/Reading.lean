import Phrasebook.Proofs.Structure.Scanning

/-! What a reader finds where the rest of its text is known.
The rest of a text is written as what is read next and what comes behind it; every lookup then
answers from that split, and every jump lands at the end of a part of it. -/
namespace Phrasebook

theorem drop_part {text before rest : List Char} {i : Nat} (h : text.drop i = before ++ rest) :
    text.drop (i + before.length) = rest := by
  rw [← List.drop_drop, h, List.drop_left]

theorem drop_char {text rest : List Char} {c : Char} {i : Nat} (h : text.drop i = c :: rest) :
    text.drop (i + 1) = rest := by
  rw [← List.drop_drop, h, List.drop_one, List.tail_cons]

theorem getElem?_of_drop {text rest : List Char} {c : Char} {i : Nat}
    (h : text.drop i = c :: rest) : text[i]? = some c := by
  rw [← List.head?_drop, h, List.head?_cons]

namespace Reader

variable {r : Reader} {i : Nat} {c : Char} {text rest : List Char}

theorem lt_size_of_drop (h : r.text.toList.drop i = c :: rest) : i < r.text.size := by
  apply Nat.lt_of_not_le
  intro beyond
  rw [List.drop_eq_nil_of_le (by simpa using beyond)] at h
  contradiction

theorem getElem?_eq_some_iff : r.text[i]? = some c ↔ ∃ rest, r.text.toList.drop i = c :: rest := by
  rw [← Array.getElem?_toList]
  constructor
  · intro here
    obtain ⟨inside, same⟩ := List.getElem?_eq_some_iff.mp here
    exact ⟨_, by rw [List.drop_eq_getElem_cons inside, same]⟩
  · rintro ⟨rest, behind⟩
    exact getElem?_of_drop behind

theorem charAt_of_drop (h : r.text.toList.drop i = c :: rest) : r.charAt i = c := by
  rw [charAt, getElem?_eq_some_iff.mpr ⟨rest, h⟩, Option.getD_some]

theorem slice_eq_drop (r : Reader) (i j : Nat) : r.slice i j = (r.text.toList.take j).drop i := by
  rw [slice, Array.toList_extract, List.extract_eq_take_drop, List.drop_take]

theorem drop_eq_slice_append (r : Reader) (i j : Nat) :
    r.text.toList.drop i = r.slice i j ++ (r.text.toList.drop i).drop (j - i) := by
  rw [slice_eq_drop, List.drop_take, List.take_append_drop]

theorem slice_of_drop (h : r.text.toList.drop i = text ++ rest) :
    r.slice i (i + text.length) = text := by
  have cut : r.slice i (i + text.length) = (r.text.toList.drop i).take text.length := by
    simp [slice]
  rw [cut, h, List.take_left]

theorem digitsEnd_of_drop (h : r.text.toList.drop i = text ++ c :: rest)
    (decimal : ∀ d ∈ text, d.isDigit = true) (stop : c.isDigit = false) :
    r.digitsEnd i = i + text.length := by
  induction text generalizing i with
  | nil =>
    rw [digitsEnd, charAt_of_drop h, if_neg (by simp [stop])]
    rfl
  | cons d text ih =>
    have tail := ih (drop_char h) fun e he => decimal e (List.mem_cons_of_mem _ he)
    rw [digitsEnd, charAt_of_drop h, if_pos (decimal d List.mem_cons_self), tail,
      List.length_cons]
    omega

theorem closing?_of_drop {opening closing : Char}
    (h : r.text.toList.drop i = text ++ closing :: rest) (plain : closing ≠ '\\')
    (different : closing ≠ opening) (balanced : Structure.Balanced opening closing text) :
    r.closing? opening closing i = some (i + text.length) := by
  rw [closing?, tail_eq, h, balanced]
  exact balance_closing_zero plain different

theorem blockEnd_of_drop (construct : Construct)
    (h : r.text.toList.drop i = '[' :: text ++ ']' :: rest)
    (balanced : Structure.Balanced '[' ']' text) :
    r.blockEnd i construct = .ok (i + 1 + text.length) := by
  have inner : r.text.toList.drop (i + 1) = text ++ ']' :: rest := drop_char h
  have closed : r.squareClose? (i + 1) = some (i + 1 + text.length) :=
    closing?_of_drop inner (by decide) (by decide) balanced
  rw [blockEnd, charAt_of_drop h, if_pos rfl, closed]

theorem search_of_absent {needle : Char} (escaped : Bool) (nonempty : text ≠ [])
    (absent : ∀ d ∈ text, d ≠ needle ∧ d ≠ '\\') :
    search [needle] escaped i (text ++ needle :: rest) = some (i + text.length) := by
  induction text generalizing i escaped with
  | nil => contradiction
  | cons d text ih =>
    have other := absent d List.mem_cons_self
    have tail : search [needle] (d == '\\') (i + 1) (text ++ needle :: rest) =
        some (i + (d :: text).length) := by
      have plain : (d == '\\') = false := by simp [other.2]
      cases text with
      | nil => simp [search, plain]
      | cons e text =>
        rw [ih _ (List.cons_ne_nil e text) fun f hf => absent f (List.mem_cons_of_mem _ hf)]
        simp only [List.length_cons, Option.some.injEq]
        omega
    rw [List.cons_append, search, tail, if_neg]
    simp [List.isPrefixOf, other.1.symm]

theorem findChar?_of_drop {needle : Char} (h : r.text.toList.drop i = text ++ needle :: rest)
    (nonempty : text ≠ []) (absent : ∀ d ∈ text, d ≠ needle ∧ d ≠ '\\') :
    r.findChar? needle i = some (i + text.length) := by
  rw [findChar?, find?, if_neg (by simp), tail_eq, h]
  exact search_of_absent _ nonempty absent

end Reader

end Phrasebook
