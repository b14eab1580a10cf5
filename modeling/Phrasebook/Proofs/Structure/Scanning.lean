import Phrasebook.Proofs.Structure.Term

/-! How the searches of a reader pass over printed terms.
A search for a closing bracket goes over a printed term as over a single character, and so does the
search for the slashes between options. -/
namespace Phrasebook.Structure

/-- The search for a closing bracket passes over the text, at any depth and before any rest. -/
def Balanced (opening closing : Char) (text : List Char) : Prop :=
  ∀ depth i rest, Reader.balance opening closing depth i (text ++ rest) =
    Reader.balance opening closing depth (i + text.length) rest

/-- The search for later options finds none in the text. -/
def Quiet (text : List Char) : Prop :=
  ∀ depth i rest, optionStarts depth i (text ++ rest) = optionStarts depth (i + text.length) rest

/-- The search for later options finds none in the text while it is inside an inner selector. -/
def Veiled (text : List Char) : Prop :=
  ∀ depth i rest, optionStarts (depth + 1) i (text ++ rest) =
    optionStarts (depth + 1) (i + text.length) rest

structure Tidy (text : List Char) : Prop where
  square : Balanced '[' ']' text
  curly : Balanced '{' '}' text
  angle : Balanced '<' '>' text
  quiet : Quiet text

section Balanced

variable {opening closing : Char} {s t : List Char}

theorem Balanced.nil : Balanced opening closing [] := by
  intro depth i rest
  rfl

theorem Balanced.append (hs : Balanced opening closing s) (ht : Balanced opening closing t) :
    Balanced opening closing (s ++ t) := by
  intro depth i rest
  rw [List.append_assoc, hs, ht, List.length_append, Nat.add_assoc]

theorem Balanced.char {c : Char} (notEscape : c ≠ '\\') (notOpening : c ≠ opening)
    (notClosing : c ≠ closing) : Balanced opening closing [c] := by
  intro depth i rest
  exact Reader.balance_other notEscape notOpening notClosing

theorem Balanced.escape (c : Char) : Balanced opening closing ['\\', c] := by
  intro depth i rest
  exact Reader.balance_escape c

theorem Balanced.wrap (different : opening ≠ closing) (plainOpening : opening ≠ '\\')
    (plainClosing : closing ≠ '\\') (hs : Balanced opening closing s) :
    Balanced opening closing (opening :: s ++ [closing]) := by
  intro depth i rest
  have inner := hs (depth + 1) (i + 1) (closing :: rest)
  have size : i + (opening :: s ++ [closing]).length = i + 1 + s.length + 1 := by
    simp only [List.length_append, List.length_cons, List.length_nil]
    omega
  rw [size, List.append_assoc, List.cons_append, Reader.balance_opening plainOpening]
  exact inner.trans (Reader.balance_closing_succ plainClosing different.symm)

end Balanced

section Quiet

variable {s t : List Char}

theorem Quiet.nil : Quiet [] := by
  intro depth i rest
  rfl

theorem Quiet.append (hs : Quiet s) (ht : Quiet t) : Quiet (s ++ t) := by
  intro depth i rest
  rw [List.append_assoc, hs, ht, List.length_append, Nat.add_assoc]

theorem Quiet.char {c : Char} (h : c ∉ ['\\', '{', '}', '/']) : Quiet [c] := by
  intro depth i rest
  exact optionStarts_other h

theorem Quiet.escape (c : Char) : Quiet ['\\', c] := by
  intro depth i rest
  exact optionStarts_escape c

theorem Quiet.veiled (hs : Quiet s) : Veiled s := by
  intro depth i rest
  exact hs (depth + 1) i rest

theorem Veiled.append (hs : Veiled s) (ht : Veiled t) : Veiled (s ++ t) := by
  intro depth i rest
  rw [List.append_assoc, hs, ht, List.length_append, Nat.add_assoc]

theorem Veiled.slash : Veiled ['/'] := by
  intro depth i rest
  exact optionStarts_slash_succ

theorem Veiled.slashed {options : List (List Char)} (h : ∀ option ∈ options, Quiet option) :
    Veiled (slashed options) := by
  induction options with
  | nil => exact Quiet.nil.veiled
  | cons option options ih =>
    have tail := ih fun o ho => h o (List.mem_cons_of_mem _ ho)
    exact (Veiled.slash.append (h option List.mem_cons_self).veiled).append tail

theorem Veiled.wrap (hs : Veiled s) : Quiet ('{' :: s ++ ['}']) := by
  intro depth i rest
  have inner := hs depth (i + 1) ('}' :: rest)
  have size : i + ('{' :: s ++ ['}']).length = i + 1 + s.length + 1 := by
    simp only [List.length_append, List.length_cons, List.length_nil]
    omega
  rw [size, List.append_assoc, List.cons_append, optionStarts_opening]
  exact inner.trans optionStarts_closing

end Quiet

section Tidy

variable {s t : List Char}

theorem Tidy.nil : Tidy [] := ⟨.nil, .nil, .nil, .nil⟩

theorem Tidy.append (hs : Tidy s) (ht : Tidy t) : Tidy (s ++ t) :=
  ⟨hs.square.append ht.square, hs.curly.append ht.curly, hs.angle.append ht.angle,
    hs.quiet.append ht.quiet⟩

/-- The characters that a search stops to look at. -/
def landmarks : List Char := ['\\', '[', ']', '{', '}', '<', '>', '/']

theorem Tidy.char {c : Char} (h : c ∉ landmarks) : Tidy [c] := by
  simp only [landmarks, List.mem_cons, List.not_mem_nil, or_false, not_or] at h
  obtain ⟨escape, openSquare, closeSquare, openCurly, closeCurly, openAngle, closeAngle, slash⟩ := h
  refine ⟨.char escape openSquare closeSquare, .char escape openCurly closeCurly,
    .char escape openAngle closeAngle, .char ?_⟩
  simp [escape, openCurly, closeCurly, slash]

theorem Tidy.escape (c : Char) : Tidy ['\\', c] :=
  ⟨.escape c, .escape c, .escape c, .escape c⟩

theorem Tidy.chars (h : ∀ c ∈ s, c ∉ landmarks) : Tidy s := by
  induction s with
  | nil => exact .nil
  | cons c s ih =>
    have tail := ih fun d hd => h d (List.mem_cons_of_mem _ hd)
    exact (Tidy.char (h c List.mem_cons_self)).append tail

theorem Tidy.bracketed (hs : Tidy s) (ht : Tidy t) : Tidy (bracketed s t) := by
  refine hs.append ⟨.wrap (by decide) (by decide) (by decide) ht.square, ?_, ?_, ?_⟩
  · exact (Balanced.char (by decide) (by decide) (by decide)).append
      (ht.curly.append (.char (by decide) (by decide) (by decide)))
  · exact (Balanced.char (by decide) (by decide) (by decide)).append
      (ht.angle.append (.char (by decide) (by decide) (by decide)))
  · exact (Quiet.char (by decide)).append (ht.quiet.append (.char (by decide)))

theorem Tidy.angled (ht : Tidy t) : Tidy ('<' :: t ++ ['>']) := by
  refine ⟨?_, ?_, .wrap (by decide) (by decide) (by decide) ht.angle, ?_⟩
  · exact (Balanced.char (by decide) (by decide) (by decide)).append
      (ht.square.append (.char (by decide) (by decide) (by decide)))
  · exact (Balanced.char (by decide) (by decide) (by decide)).append
      (ht.curly.append (.char (by decide) (by decide) (by decide)))
  · exact (Quiet.char (by decide)).append (ht.quiet.append (.char (by decide)))

theorem Balanced.slashed {opening closing : Char} {options : List (List Char)}
    (slash : Balanced opening closing ['/'])
    (h : ∀ option ∈ options, Balanced opening closing option) :
    Balanced opening closing (slashed options) := by
  induction options with
  | nil => exact .nil
  | cons option options ih =>
    have tail := ih fun o ho => h o (List.mem_cons_of_mem _ ho)
    exact (slash.append (h option List.mem_cons_self)).append tail

theorem Tidy.selector {options : List (List Char)} (hs : Tidy s)
    (h : ∀ option ∈ options, Tidy option) : Tidy (selectorText s options) := by
  have square := hs.square.append
    (Balanced.slashed (.char (by decide) (by decide) (by decide)) fun o ho => (h o ho).square)
  have curly := hs.curly.append
    (Balanced.slashed (.char (by decide) (by decide) (by decide)) fun o ho => (h o ho).curly)
  have angle := hs.angle.append
    (Balanced.slashed (.char (by decide) (by decide) (by decide)) fun o ho => (h o ho).angle)
  have veiled := hs.quiet.veiled.append (.slashed fun o ho => (h o ho).quiet)
  refine ⟨?_, .wrap (by decide) (by decide) (by decide) curly, ?_, veiled.wrap⟩
  · exact (Balanced.char (by decide) (by decide) (by decide)).append
      (square.append (.char (by decide) (by decide) (by decide)))
  · exact (Balanced.char (by decide) (by decide) (by decide)).append
      (angle.append (.char (by decide) (by decide) (by decide)))

end Tidy

theorem not_landmark_of_alphanumeric {c : Char} (h : Letter.isAlphanumeric c = true) :
    c ∉ landmarks := by
  intro member
  have none : landmarks.all (!Letter.isAlphanumeric ·) = true := by decide
  simpa [h] using List.all_eq_true.mp none c member

theorem not_landmark_of_digit {c : Char} (h : c.isDigit = true) : c ∉ landmarks := by
  intro member
  have none : landmarks.all (!Char.isDigit ·) = true := by decide
  simpa [h] using List.all_eq_true.mp none c member

theorem not_landmark_of_plain (c : PlainChar) : c.val ∉ landmarks := by
  intro member
  have all : landmarks.all (markup.contains ·) = true := by decide
  exact c.property.1 (List.contains_iff_mem.mp (List.all_eq_true.mp all c.val member))

theorem Name.tidy (n : Name) : Tidy n.chars :=
  .chars fun c hc => not_landmark_of_alphanumeric (n.alphanumeric c hc)

theorem Numeral.tidy (n : Numeral) : Tidy n.digits :=
  .chars fun c hc => not_landmark_of_digit (n.decimal c hc)

theorem tidy_tagText (tag : Option Tag) : Tidy (tagText tag) := by
  cases tag with
  | none => exact .nil
  | some id => exact (Tidy.char (by decide)).append id.val.tidy

theorem tidy_letters (scope : FlagScope) (letter : Char) (h : letter ∉ landmarks) :
    Tidy ['$', scopeLetter scope, letter] := by
  have first : scopeLetter scope ∉ landmarks := by cases scope <;> decide
  exact (Tidy.char (by decide)).append ((Tidy.char first).append (.char h))

theorem tidy_visibilityMark (visibility : Visibility) : Tidy (visibilityMark visibility) := by
  cases visibility with
  | shared => exact .nil
  | internal => exact .char (by decide)
  | exclusive => exact .char (by decide)

mutual

theorem Item.tidy : (item : Item) → Tidy item.print
  | .plain c => by
    rw [Item.print]
    exact .char (not_landmark_of_plain c)
  | .escaped c => by
    rw [Item.print]
    exact .escape c.val
  | .lineBreak => by
    rw [Item.print]
    exact .char (by decide)
  | .block body => by
    rw [Item.print]
    exact Tidy.nil.bracketed (tidy_printTerm body)
  | .selector tag first second others => by
    rw [Item.print]
    refine (tidy_tagText tag).append ((tidy_printTerm first).selector ?_)
    intro option member
    rcases List.mem_cons.mp member with rfl | later
    · exact tidy_printTerm second
    · exact tidy_printOptions others option later
  | .frequency percent body => by
    rw [Item.print]
    exact (percent.val.tidy.append (.char (by decide))).bracketed (tidy_printTerm body)
  | .repetition times separator content => by
    rw [Item.print]
    have counted := (Tidy.char (c := '^') (by decide)).bracketed times.val.tidy
    exact (counted.bracketed (tidy_printTerm separator)).bracketed (tidy_printTerm content)
  | .assign scope present flag => by
    rw [Item.print]
    exact (tidy_letters scope _ (by cases present <;> decide)).bracketed flag.tidy
  | .test scope present flag body => by
    rw [Item.print]
    have named := (tidy_letters scope (testLetter present) (by cases present <;> decide)).bracketed
      flag.tidy
    exact named.bracketed (tidy_printTerm body)
  | .group visibility name body => by
    rw [Item.print]
    have opened := (tidy_visibilityMark visibility).append name.tidy
    have colon := (Tidy.char (c := ':') (by decide)).append (tidy_printTerm body)
    exact (opened.append colon).angled

theorem tidy_printTerm : (term : List Item) → Tidy (printTerm term)
  | [] => by
    rw [printTerm]
    exact .nil
  | item :: term => by
    rw [printTerm]
    exact item.tidy.append (tidy_printTerm term)

theorem tidy_printOptions : (options : List (List Item)) →
    ∀ option ∈ printOptions options, Tidy option
  | [] => by
    rw [printOptions]
    exact fun option member => absurd member List.not_mem_nil
  | term :: options => by
    rw [printOptions]
    intro option member
    rcases List.mem_cons.mp member with rfl | later
    · exact tidy_printTerm term
    · exact tidy_printOptions options option later

end

end Phrasebook.Structure
