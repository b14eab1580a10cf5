import Phrasebook.Proofs.Structure.Reading

/-! What closes a bracket.
A grammar says which texts are balanced in a pair of brackets; in it a backslash takes the next
character with it, whatever that is. A search comes to a closing bracket exactly where the text
before it is balanced, so that it finds nothing only where no bracket closes the text. -/
namespace Phrasebook

/-- Every bracket of the pair that is not escaped has its partner in the text. -/
inductive WellNested (opening closing : Char) : List Char → Prop where
  | nil : WellNested opening closing []
  | char {c : Char} {rest : List Char} (other : c ≠ '\\' ∧ c ≠ opening ∧ c ≠ closing)
      (later : WellNested opening closing rest) : WellNested opening closing (c :: rest)
  | escape (c : Char) {rest : List Char} (later : WellNested opening closing rest) :
      WellNested opening closing ('\\' :: c :: rest)
  | nest {inner rest : List Char} (inside : WellNested opening closing inner)
      (later : WellNested opening closing rest) :
      WellNested opening closing (opening :: (inner ++ closing :: rest))

/-- So many closing brackets without a partner stand in the text, which is balanced between them. -/
inductive Unwinds (opening closing : Char) : Nat → List Char → Prop where
  | nested {text : List Char} (h : WellNested opening closing text) :
      Unwinds opening closing 0 text
  | close {depth : Nat} {inner rest : List Char} (inside : WellNested opening closing inner)
      (later : Unwinds opening closing depth rest) :
      Unwinds opening closing (depth + 1) (inner ++ closing :: rest)

/-- The bracket closes the text that begins at the start. -/
def Closes (opening closing : Char) (text : List Char) (start close : Nat) : Prop :=
  ∃ inner rest, text.drop start = inner ++ closing :: rest ∧ WellNested opening closing inner ∧
    close = start + inner.length

section brackets

variable {opening closing : Char} {text before : List Char} {depth start close : Nat}

theorem WellNested.balanced (different : opening ≠ closing) (plainOpening : opening ≠ '\\')
    (plainClosing : closing ≠ '\\') (h : WellNested opening closing text) :
    Structure.Balanced opening closing text := by
  induction h with
  | nil => exact .nil
  | char other _ ih => exact (Structure.Balanced.char other.1 other.2.1 other.2.2).append ih
  | escape c _ ih => exact (Structure.Balanced.escape c).append ih
  | nest _ _ inner later =>
    have whole := (inner.wrap different plainOpening plainClosing).append later
    rwa [List.append_assoc] at whole

theorem Unwinds.behind
    (nested : ∀ rest, WellNested opening closing rest → WellNested opening closing (before ++ rest))
    (h : Unwinds opening closing depth text) : Unwinds opening closing depth (before ++ text) := by
  cases h with
  | nested inner => exact .nested (nested _ inner)
  | close inside later =>
    rw [← List.append_assoc]
    exact .close (nested _ inside) later

theorem unwinds_of_balance {i j : Nat} (h : Reader.balance opening closing depth i text = some j) :
    ∃ inner rest, text = inner ++ closing :: rest ∧ Unwinds opening closing depth inner ∧
      j = i + inner.length := by
  fun_induction Reader.balance opening closing depth i text with
  | case1 | case2 => contradiction
  | case3 depth i c rest ih =>
    obtain ⟨inner, after, rfl, unwinds, rfl⟩ := ih h
    have nested : ∀ s, WellNested opening closing s → WellNested opening closing (['\\', c] ++ s) :=
      fun _ => .escape c
    refine ⟨'\\' :: c :: inner, after, rfl, unwinds.behind nested, ?_⟩
    simp only [List.length_cons]
    omega
  | case4 depth i rest plain ih =>
    obtain ⟨inner, after, rfl, unwinds, rfl⟩ := ih h
    cases unwinds with
    | @close _ first others inside later =>
      have nested : ∀ s, WellNested opening closing s →
          WellNested opening closing ((opening :: (first ++ [closing])) ++ s) := by
        intro s balanced
        have whole := WellNested.nest inside balanced
        rwa [← List.singleton_append (l := s), ← List.append_assoc] at whole
      refine ⟨opening :: (first ++ closing :: others), after, rfl, ?_, ?_⟩
      · simpa using later.behind nested
      · simp only [List.length_cons]
        omega
  | case5 i rest plain other =>
    cases h
    exact ⟨[], rest, rfl, .nested .nil, rfl⟩
  | case6 i rest plain other depth ih =>
    obtain ⟨inner, after, rfl, unwinds, rfl⟩ := ih h
    refine ⟨closing :: inner, after, rfl, .close .nil unwinds, ?_⟩
    simp only [List.length_cons]
    omega
  | case7 depth i c rest plain notOpening notClosing ih =>
    obtain ⟨inner, after, rfl, unwinds, rfl⟩ := ih h
    have nested : ∀ s, WellNested opening closing s → WellNested opening closing ([c] ++ s) :=
      fun _ => .char ⟨plain, notOpening, notClosing⟩
    refine ⟨c :: inner, after, rfl, unwinds.behind nested, ?_⟩
    simp only [List.length_cons]
    omega

/-- A text is balanced exactly where a search in it stops at a bracket right behind it. -/
theorem wellNested_iff_balance (different : opening ≠ closing) (plainOpening : opening ≠ '\\')
    (plainClosing : closing ≠ '\\') (i : Nat) : WellNested opening closing text ↔
      Reader.balance opening closing 0 i (text ++ [closing]) = some (i + text.length) := by
  constructor
  · intro nested
    rw [nested.balanced different plainOpening plainClosing]
    exact Reader.balance_closing_zero plainClosing different.symm
  · intro found
    obtain ⟨inner, rest, split, unwinds, same⟩ := unwinds_of_balance found
    obtain ⟨rfl, _⟩ := List.append_inj split (Nat.add_left_cancel same)
    cases unwinds with
    | nested balanced => exact balanced

/-- Behind a balanced text the brackets are those of the rest by itself. -/
theorem WellNested.append_iff (different : opening ≠ closing) (plainOpening : opening ≠ '\\')
    (plainClosing : closing ≠ '\\') (front : WellNested opening closing before) :
    WellNested opening closing (before ++ text) ↔ WellNested opening closing text := by
  rw [wellNested_iff_balance different plainOpening plainClosing 0,
    wellNested_iff_balance different plainOpening plainClosing before.length, List.append_assoc,
    front.balanced different plainOpening plainClosing, List.length_append, Nat.zero_add,
    Nat.zero_add]

namespace Reader

variable {r : Reader} {construct : Construct}

theorem closing?_eq_some_iff (different : opening ≠ closing) (plainOpening : opening ≠ '\\')
    (plainClosing : closing ≠ '\\') :
    r.closing? opening closing start = some close ↔
      Closes opening closing r.text.toList start close := by
  constructor
  · intro found
    rw [closing?, tail_eq] at found
    obtain ⟨inner, rest, split, unwinds, rfl⟩ := unwinds_of_balance found
    cases unwinds with
    | nested balanced => exact ⟨inner, rest, split, balanced, rfl⟩
  · rintro ⟨inner, rest, split, nested, rfl⟩
    exact closing?_of_drop split plainClosing different.symm
      (nested.balanced different plainOpening plainClosing)

theorem not_closes_of_closing?_none (different : opening ≠ closing) (plainOpening : opening ≠ '\\')
    (plainClosing : closing ≠ '\\') (none : r.closing? opening closing start = none) (close : Nat) :
    ¬ Closes opening closing r.text.toList start close := by
  intro closes
  rw [(closing?_eq_some_iff different plainOpening plainClosing).mpr closes] at none
  contradiction

/-- The bracket at the place ends a balanced stretch of the text that begins at the start. -/
def ClosedAt (r : Reader) (opening closing : Char) (start place : Nat) : Prop :=
  start ≤ place ∧ r.text[place]? = some closing ∧ WellNested opening closing (r.slice start place)

theorem closedAt_iff :
    r.ClosedAt opening closing start close ↔ Closes opening closing r.text.toList start close := by
  constructor
  · rintro ⟨order, here, nested⟩
    obtain ⟨rest, behind⟩ := getElem?_eq_some_iff.mp here
    obtain ⟨inside, _⟩ := Array.getElem?_eq_some_iff.mp here
    refine ⟨r.slice start close, rest, ?_, nested, ?_⟩
    · rw [r.drop_eq_slice_append start close, List.drop_drop, Nat.add_sub_cancel' order, behind]
    · rw [slice, Array.length_toList, Array.size_extract]
      omega
  · rintro ⟨inner, rest, split, nested, rfl⟩
    refine ⟨Nat.le_add_right _ _, getElem?_eq_some_iff.mpr ⟨rest, drop_part split⟩, ?_⟩
    rwa [slice_of_drop split]

/-- A search comes to the bracket that ends a balanced stretch from its start on. There is at most
one such bracket, and the search finds nothing exactly where there is none. -/
theorem closing?_exact (different : opening ≠ closing) (plainOpening : opening ≠ '\\')
    (plainClosing : closing ≠ '\\') (r : Reader) (start : Nat) :
    (∀ i, r.closing? opening closing start = some i ↔ r.ClosedAt opening closing start i) ∧
      (∀ i j, r.ClosedAt opening closing start i → r.ClosedAt opening closing start j → i = j) ∧
      (r.closing? opening closing start = none ↔ ∀ i, ¬ r.ClosedAt opening closing start i) ∧
      ∀ inner rest, WellNested opening closing inner →
        (ofList (inner ++ closing :: rest)).closing? opening closing 0 = some inner.length := by
  have found (r : Reader) (start i : Nat) :
      r.closing? opening closing start = some i ↔ r.ClosedAt opening closing start i :=
    (closing?_eq_some_iff different plainOpening plainClosing).trans closedAt_iff.symm
  refine ⟨found r start, ?_, ?_, ?_⟩
  · intro i j first second
    have same := ((found r start i).mpr first).symm.trans ((found r start j).mpr second)
    exact Option.some.inj same
  · rw [Option.eq_none_iff_forall_ne_some]
    exact forall_congr' fun i => not_congr (found r start i)
  · intro inner rest nested
    have split : (ofList (inner ++ closing :: rest)).text.toList.drop 0 =
        inner ++ closing :: rest := rfl
    refine (found _ _ _).mpr (closedAt_iff.mpr ⟨inner, rest, split, nested, ?_⟩)
    exact (Nat.zero_add _).symm

/-- An escaped bracket and an inner pair are passed over, and behind the end nothing is found. -/
def escapedClose : Reader := ofList "\x7ba\\\x7d\x7bb\x7d\x7dc".toList

theorem closing?_exact_escapedClose :
    '{' ≠ '}' ∧ '{' ≠ '\\' ∧ '}' ≠ '\\' ∧ escapedClose.closing? '{' '}' 1 = some 7 ∧
      escapedClose.ClosedAt '{' '}' 1 7 ∧ ¬ escapedClose.ClosedAt '{' '}' 1 3 ∧
      ¬ escapedClose.ClosedAt '{' '}' 12 7 ∧ WellNested '{' '}' ['\\', '}'] ∧
      (ofList ['\\', '}', '}']).closing? '{' '}' 0 = some 2 := by
  have found : escapedClose.closing? '{' '}' 1 = some 7 := by decide +kernel
  have beyond : escapedClose.closing? '{' '}' 12 = none := by decide +kernel
  have curly := closing?_exact (show '{' ≠ '}' by decide) (by decide) (by decide)
  have closed := ((curly escapedClose 1).1 7).mp found
  have escape : WellNested '{' '}' ['\\', '}'] := .escape '}' .nil
  refine ⟨by decide, by decide, by decide, found, closed, ?_, ?_, escape, ?_⟩
  · intro early
    exact absurd ((curly escapedClose 1).2.1 3 7 early closed) (by decide)
  · exact (curly escapedClose 12).2.2.1.mp beyond 7
  · exact (curly escapedClose 1).2.2.2 ['\\', '}'] [] escape

end Reader

end brackets

end Phrasebook
