import Phrasebook.Text

/-! The words of a text that is put together from parts.
A blank ends a word on either side of it; where two parts meet without a blank, the last word of the
one and the first word of the other are one word. -/
namespace Phrasebook.Text

open Letter (isBlank)

variable {c : Char} {text rest word first : List Char} {others : List (List Char)}

theorem words_blank (blank : isBlank c = true) (rest : List Char) :
    words (c :: rest) = words rest := by
  rw [words, if_pos blank]

theorem words_blanks {blanks : List Char} (blank : ∀ c ∈ blanks, isBlank c = true) :
    words (blanks ++ rest) = words rest := by
  induction blanks with
  | nil => rfl
  | cons c blanks ih =>
    obtain ⟨first, others⟩ := List.forall_mem_cons.mp blank
    rw [List.cons_append, words_blank first, ih others]

/-- The first word begins with the first character. -/
theorem words_solid (solid : isBlank c = false) (rest : List Char) :
    ∃ word others, words (c :: rest) = (c :: word) :: others := by
  rw [words, if_neg (by simp [solid])]
  split
  · cases words rest with
    | nil => exact ⟨[], [], rfl⟩
    | cons word others => exact ⟨word, others, rfl⟩
  · exact ⟨[], words rest, rfl⟩

theorem words_next {d : Char} (solid : isBlank c = false) (next : isBlank d = false)
    (h : words (d :: rest) = first :: others) :
    words (c :: d :: rest) = (c :: first) :: others := by
  rw [words, if_neg (by simp [solid]), if_pos (by simp [next]), h]

theorem words_append_blank (text : List Char) (blank : isBlank c = true) (rest : List Char) :
    words (text ++ c :: rest) = words text ++ words rest := by
  induction text with
  | nil => exact words_blank blank rest
  | cons d text ih =>
    by_cases solid : isBlank d = true
    · rw [List.cons_append, words_blank solid, words_blank solid, ih]
    · cases text with
      | nil =>
        rw [List.cons_append, List.nil_append, words, if_neg solid, if_neg (by simp [blank]),
          words_blank blank, words, if_neg solid]
        rfl
      | cons e text =>
        have plain : isBlank d = false := by simpa using solid
        by_cases next : isBlank e = true
        · have ends : words (d :: e :: (text ++ c :: rest)) =
              [d] :: words (e :: (text ++ c :: rest)) := by
            rw [words, if_neg solid, if_neg (by simp [next])]
          have alone : words (d :: e :: text) = [d] :: words (e :: text) := by
            rw [words, if_neg solid, if_neg (by simp [next])]
          rw [List.cons_append, List.cons_append, ends, alone, List.cons_append]
          exact congrArg ([d] :: ·) ih
        · have letter : isBlank e = false := by simpa using next
          obtain ⟨word, others, found⟩ := words_solid letter text
          rw [found] at ih
          rw [words_next plain letter found]
          exact words_next plain letter ih

/-- White space keeps the words on both sides apart. -/
theorem words_apart {blanks : List Char} (present : blanks ≠ [])
    (blank : ∀ c ∈ blanks, isBlank c = true) (text rest : List Char) :
    words (text ++ (blanks ++ rest)) = words text ++ words rest := by
  obtain ⟨c, others, rfl⟩ := List.exists_cons_of_ne_nil present
  obtain ⟨here, later⟩ := List.forall_mem_cons.mp blank
  rw [List.cons_append, words_append_blank text here, words_blanks later]

theorem words_append_solid {d : Char} (present : word ≠ []) (solid : ∀ c ∈ word, isBlank c = false)
    (next : isBlank d = false) (h : words (d :: rest) = first :: others) :
    words (word ++ d :: rest) = (word ++ first) :: others := by
  induction word with
  | nil => contradiction
  | cons c word ih =>
    obtain ⟨head, tail⟩ := List.forall_mem_cons.mp solid
    cases word with
    | nil => exact words_next head next h
    | cons e word =>
      have later := ih (List.cons_ne_nil e word) tail
      exact words_next head (tail e List.mem_cons_self) later

theorem words_of_solid (present : word ≠ []) (solid : ∀ c ∈ word, isBlank c = false) :
    words word = [word] := by
  induction word with
  | nil => contradiction
  | cons c word ih =>
    obtain ⟨head, tail⟩ := List.forall_mem_cons.mp solid
    cases word with
    | nil => simp [words, head]
    | cons d word =>
      have later := ih (List.cons_ne_nil d word) tail
      exact words_next head (tail d List.mem_cons_self) later

/-- A word is not empty, and it is made of characters of the text that are not blank. -/
theorem mem_words (h : word ∈ words text) :
    word ≠ [] ∧ ∀ c ∈ word, c ∈ text ∧ isBlank c = false := by
  fun_induction words text generalizing word with
  | case1 => contradiction
  | case2 c rest _ ih =>
    obtain ⟨present, solid⟩ := ih h
    exact ⟨present, fun d member => (solid d member).imp_left (List.mem_cons_of_mem c)⟩
  | case3 c rest solid _ _ _ =>
    rw [List.mem_singleton.mp h]
    simpa using solid
  | case4 c rest solid _ first others found ih =>
    rw [found] at ih
    rcases List.mem_cons.mp h with rfl | later
    · have behind := (ih List.mem_cons_self).2
      refine ⟨List.cons_ne_nil c first, List.forall_mem_cons.mpr ⟨by simpa using solid, ?_⟩⟩
      exact fun d member => (behind d member).imp_left (List.mem_cons_of_mem c)
    · obtain ⟨present, solid⟩ := ih (List.mem_cons_of_mem first later)
      exact ⟨present, fun d member => (solid d member).imp_left (List.mem_cons_of_mem c)⟩
  | case5 c rest solid _ ih =>
    rcases List.mem_cons.mp h with rfl | later
    · simpa using solid
    · obtain ⟨present, solid⟩ := ih later
      exact ⟨present, fun d member => (solid d member).imp_left (List.mem_cons_of_mem c)⟩

end Phrasebook.Text
