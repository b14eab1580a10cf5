import Phrasebook.Proofs.Faults
import Phrasebook.Proofs.Progress
import Phrasebook.Proofs.Safety.Scanning
import Phrasebook.Proofs.Safety.Soundness
import Phrasebook.Proofs.Structure.Constructs

/-! Where a step leaves the place of reading.
Apart from the character that it reads, a step goes on right behind a sign that belongs to its own
construct. Only escapes and word calls read over other characters without a look at their meaning,
and so only they can read over the star of a tag. -/
namespace Phrasebook

/-- The character right before the place is neither a star nor a digit, so that no tag reaches up
to it. -/
def Seam (text : Array Char) (place : Nat) : Prop :=
  ∃ i c, place = i + 1 ∧ text[i]? = some c ∧ c ≠ '*' ∧ c.isDigit = false

namespace Reader

theorem getElem?_of_charAt {r : Reader} {i : Nat} {c : Char} (h : r.charAt i = c)
    (present : c ≠ endMark) : r.text[i]? = some c := by
  unfold charAt at h
  cases found : r.text[i]? with
  | none =>
    rw [found] at h
    exact absurd h.symm present
  | some d =>
    rw [found] at h
    exact congrArg some h

theorem charAt_of_getElem? {r : Reader} {i : Nat} {c : Char} (h : r.text[i]? = some c) :
    r.charAt i = c := by
  rw [charAt, h, Option.getD_some]

theorem getElem?_of_search {c : Char} {escaped : Bool} {i j : Nat} {text : List Char}
    (h : search [c] escaped i text = some j) : text[j - i]? = some c := by
  fun_induction search [c] escaped i text with
  | case1 => contradiction
  | case2 escaped i d rest found =>
    cases h
    have same : c = d := by
      rw [Bool.and_eq_true] at found
      simpa [List.isPrefixOf] using found.1
    rw [Nat.sub_self, same]
    rfl
  | case3 escaped i d rest _ ih =>
    have further := le_of_search h
    rw [show j - i = j - (i + 1) + 1 by omega, List.getElem?_cons_succ]
    exact ih h

theorem getElem?_of_findChar? {r : Reader} {c : Char} {start j : Nat}
    (h : r.findChar? c start = some j) : r.text[j]? = some c := by
  have further := le_of_findChar? h
  simp only [findChar?, find?, List.isEmpty_cons, Bool.false_eq_true, if_false] at h
  have found := getElem?_of_search h
  rw [tail_eq, List.getElem?_drop, Array.getElem?_toList] at found
  rwa [show start + (j - start) = j by omega] at found

theorem getElem?_of_slice {r : Reader} {start stop j : Nat} {c : Char}
    (h : (r.slice start stop)[j]? = some c) : r.text[start + j]? = some c := by
  rw [slice, Array.toList_extract, List.extract_eq_take_drop, List.getElem?_take] at h
  split at h
  · rwa [List.getElem?_drop, Array.getElem?_toList] at h
  · contradiction

/-- Moving behind a character that is there goes exactly there. -/
theorem position_moveTo_succ {r : Reader} {i : Nat} {c : Char} (here : r.text[i]? = some c) :
    (r.moveTo (i + 1)).position = i + 1 := by
  obtain ⟨inside, _⟩ := Array.getElem?_eq_some_iff.mp here
  exact Nat.min_eq_left inside

theorem slice_digitsEnd {r : Reader} {i : Nat} (inside : i ≤ r.text.size) :
    (∀ c ∈ r.slice i (r.digitsEnd i), c.isDigit = true) ∧ r.digitsEnd i ≤ r.text.size := by
  fun_induction digitsEnd r i with
  | case1 i digit ih =>
    have more := r.lt_size_of_isDigit digit
    obtain ⟨decimal, within⟩ := ih more
    refine ⟨?_, within⟩
    rw [Machine.slice_of_lt (Nat.lt_of_lt_of_le (Nat.lt_succ_self i) (r.le_digitsEnd _)) within]
    exact List.forall_mem_cons.mpr ⟨digit, decimal⟩
  | case2 i other =>
    refine ⟨?_, inside⟩
    rw [Machine.slice_of_le (Nat.le_refl i)]
    intro c member
    contradiction

end Reader

theorem Seam.moveTo {r : Reader} {place : Nat} (h : Seam r.text place) :
    Seam r.text (r.moveTo place).position := by
  obtain ⟨i, c, rfl, here, plain⟩ := h
  rw [Reader.position_moveTo_succ here]
  exact ⟨i, c, rfl, here, plain⟩

theorem Seam.behind {text : Array Char} {i : Nat} {c : Char} (here : text[i]? = some c)
    (plain : c ≠ '*' ∧ c.isDigit = false) : Seam text (i + 1) :=
  ⟨i, c, rfl, here, plain⟩

theorem getElem?_optionStarts {depth i start : Nat} {body : List Char}
    (h : start ∈ optionStarts depth i body) : ∃ j, start = i + j + 1 ∧ body[j]? = some '/' := by
  have passed {k n : Nat} {rest : List Char} (skipped : List Char)
      (size : skipped.length = n)
      (found : ∃ j, start = k + n + j + 1 ∧ rest[j]? = some '/') :
      ∃ j, start = k + j + 1 ∧ (skipped ++ rest)[j]? = some '/' := by
    obtain ⟨j, rfl, slash⟩ := found
    refine ⟨n + j, by omega, ?_⟩
    rw [List.getElem?_append_right (by omega), size, Nat.add_sub_cancel_left]
    exact slash
  fun_induction optionStarts depth i body with
  | case1 | case2 => simp at h
  | case3 _ _ c rest ih => exact passed ['\\', c] rfl (ih h)
  | case4 _ _ rest _ ih => exact passed ['{'] rfl (ih h)
  | case5 _ _ rest _ _ ih => exact passed ['}'] rfl (ih h)
  | case6 depth i c rest _ _ _ slash ih =>
    rcases List.mem_cons.mp h with rfl | later
    · exact ⟨0, rfl, congrArg some slash.1⟩
    · exact passed [c] rfl (ih later)
  | case7 _ _ c rest _ _ _ _ ih => exact passed [c] rfl (ih h)

namespace State

variable {setting : Setting} {s t : State} {c : Char} {index : Nat}

/-- The text is the same, and neither the tag nor the salt is touched. -/
structure Bare (s t : State) : Prop where
  text : t.reader.text = s.reader.text
  tag : t.tag = s.tag
  salt : t.salt = s.salt

theorem Bare.trans {u : State} (h : Bare s t) (h' : Bare t u) : Bare s u :=
  ⟨h'.text.trans h.text, h'.tag.trans h.tag, h'.salt.trans h.salt⟩

theorem Bare.moveTo (h : Bare s t) (i : Nat) : Bare s (t.moveTo i) :=
  h.trans ⟨rfl, rfl, rfl⟩

/-- Every place of the text that the run may jump back to lies right behind a bracket. -/
def Sewn (text : Array Char) (s : State) : Prop :=
  s.Leads (fun close => Seam text (close + 1)) (Seam text)

theorem Sewn.moves {text : Array Char} (h : s.Sewn text) (unchanged : s.reader.text = text)
    (moved : Moves s index t) : t.Sewn text := by
  subst unchanged
  apply Leads.moves h moved
  · intro close closed
    exact .behind (Reader.getElem?_of_closing? closed) (by decide)
  · intro start close construct _ found
    have opened := Reader.getElem?_of_charAt (Reader.blockEnd_ok found).1 (by decide)
    exact .behind opened (by decide)

/-- How a construct other than a tag or a selector, which begins with the character at the index,
leaves the place of reading. -/
inductive Lands (c : Char) (index : Nat) (s t : State) : Prop where
  | next (other : c ≠ '*') (place : t.reader.position = s.reader.position)
  | seam (place : Seam s.reader.text t.reader.position)
  | past (sign : c = '\\' ∨ c = '+') (further : index < t.reader.position)

theorem Lands.behind {place : Nat} (same : t.reader = s.reader.moveTo place)
    (h : Seam s.reader.text place) : Lands c index s t := by
  apply Lands.seam
  rw [same]
  exact h.moveTo

theorem bare_emitLiteral (s : State) (c : Char) :
    Bare s (s.emitLiteral c) ∧ (s.emitLiteral c).reader = s.reader := by
  obtain ⟨_, _, _, _, same⟩ := emitLiteral_frame s c
  rw [same]
  exact ⟨⟨rfl, rfl, rfl⟩, rfl⟩

theorem bare_setFlags (s : State) (scope : FlagScope) (flags : Flags) :
    Bare s (s.setFlags scope flags) ∧ (s.setFlags scope flags).reader = s.reader := by
  obtain ⟨_, _, same⟩ := setFlags_frame s scope flags
  rw [same]
  exact ⟨⟨rfl, rfl, rfl⟩, rfl⟩

theorem bare_escape (s : State) : Bare s s.escape ∧ s.escape.reader = s.reader.read.2 := by
  obtain ⟨_, _, _, same⟩ := escape_frame s
  rw [same]
  exact ⟨⟨rfl, rfl, rfl⟩, rfl⟩

theorem bare_wordCall (h : s.wordCall setting index = .ok t) :
    Bare s t ∧ (t.reader = s.reader ∨ ∃ call, Call.parse? (s.reader.tail index) = some call ∧
      t.reader = s.reader.moveTo (index + call.length)) := by
  obtain ⟨_, _, _, _, _, _, _, _, rfl, rfl⟩ := wordCall_frame h
  cases Call.parse? (s.reader.tail index) with
  | none => exact ⟨⟨rfl, rfl, rfl⟩, .inl rfl⟩
  | some call => exact ⟨⟨rfl, rfl, rfl⟩, .inr ⟨call, rfl, rfl⟩⟩

theorem lands_digit (other : c ≠ '*')
    (h : s.digit c index = .ok t) : Bare s t ∧ Lands c index s t := by
  rcases digit_ok h with rfl | ⟨percent, close, _, closed, entered⟩
  · obtain ⟨bare, same⟩ := bare_emitLiteral s c
    exact ⟨bare, .next other (congrArg Reader.position same)⟩
  · have opened := Reader.getElem?_of_charAt (Reader.blockEnd_ok closed).1 (by decide)
    have bracket := Reader.getElem?_of_blockEnd closed
    rw [entered]
    constructor
    · apply Bare.moveTo
      exact ⟨rfl, rfl, rfl⟩
    · apply Lands.behind rfl
      split
      · exact .behind opened (by decide)
      · exact .behind bracket (by decide)

theorem lands_flag (h : s.flag index = .ok t) : Bare s t ∧ Lands c index s t := by
  obtain ⟨scope, _, nameEnd, name, _, named, _, effect⟩ := flag_ok h
  have bracket := Reader.getElem?_of_blockEnd named
  have assigned (flags : Flags) : Bare s ((s.setFlags scope flags).moveTo (nameEnd + 1)) ∧
      Lands c index s ((s.setFlags scope flags).moveTo (nameEnd + 1)) := by
    obtain ⟨bare, same⟩ := bare_setFlags s scope flags
    have moved := congrArg (Reader.moveTo · (nameEnd + 1)) same
    exact ⟨bare.moveTo _, .behind moved (.behind bracket (by decide))⟩
  rcases effect with ⟨_, rfl⟩ | ⟨_, rfl⟩ | ⟨bodyEnd, closed, rfl⟩
  · exact assigned _
  · exact assigned _
  · have opened := Reader.getElem?_of_charAt (Reader.blockEnd_ok closed).1 (by decide)
    have closing := Reader.getElem?_of_blockEnd closed
    refine ⟨⟨rfl, rfl, rfl⟩, .behind rfl ?_⟩
    split
    · exact .behind opened (by decide)
    · exact .behind closing (by decide)

theorem lands_closeBlock (other : c ≠ '*') (sewn : s.Sewn s.reader.text) :
    Bare s (s.closeBlock index) ∧ Lands c index s (s.closeBlock index) := by
  obtain ⟨_, target⟩ := Boundary.leads_ofClose index sewn.repetitions
  unfold closeBlock
  generalize Boundary.ofClose index s.repetitions = closed at target
  obtain ⟨boundary, repetitions⟩ := closed
  cases boundary with
  | separator position | content position =>
    have place := target position rfl
    cases repetitions <;> exact ⟨⟨rfl, rfl, rfl⟩, .behind rfl place⟩
  | finished depth => cases repetitions <;> exact ⟨⟨rfl, rfl, rfl⟩, .next other rfl⟩
  | inside => cases repetitions <;> exact ⟨⟨rfl, rfl, rfl⟩, .next other rfl⟩

theorem lands_wordCall (start : s.reader.position = index + 1)
    (h : s.wordCall setting index = .ok t) : Bare s t ∧ Lands '+' index s t := by
  obtain ⟨bare, same | ⟨call, read, same⟩⟩ := bare_wordCall h
  · exact ⟨bare, .next (by decide) (congrArg Reader.position same)⟩
  · have length := Call.two_le_length_of_parse? read
    have inside := s.reader.inside
    have place : t.reader.position = min (index + call.length) s.reader.text.size := by
      rw [same]
      rfl
    exact ⟨bare, .past (.inr rfl) (by omega)⟩

theorem lands_escape (start : s.reader.position = index + 1) : Lands '\\' index s s.escape := by
  have inside := s.reader.inside
  have place : s.escape.reader.position = min (s.reader.position + 1) s.reader.text.size := by
    rw [(bare_escape s).2]
    rfl
  exact .past (.inl rfl) (by omega)

theorem lands_perform (start : s.reader.position = index + 1)
    (sewn : s.Sewn s.reader.text) (other : c ≠ '*')
    (unselected : c ≠ '{') (h : s.perform setting c index = .ok t) :
    Bare s t ∧ Lands c index s t := by
  have literal : Bare s (s.emitLiteral c) ∧ Lands c index s (s.emitLiteral c) := by
    obtain ⟨bare, same⟩ := bare_emitLiteral s c
    exact ⟨bare, .next other (congrArg Reader.position same)⟩
  unfold perform at h
  generalize sign : Sign.ofChar c = kind at h
  have single (d : Char) (one : kind.char? = some d) : c = d := Sign.char?_ofChar (sign ▸ one)
  cases kind with
  | tag => exact absurd (single '*' rfl) other
  | openSelector => exact absurd (single '{' rfl) unselected
  | escape =>
    cases h
    rw [single '\\' rfl]
    exact ⟨(bare_escape s).1, lands_escape start⟩
  | openGroup =>
    obtain ⟨_, colon, _, found, _, rfl⟩ := openGroup_ok h
    have place := Reader.getElem?_of_findChar? found
    exact ⟨⟨rfl, rfl, rfl⟩, .behind rfl (.behind place (by decide))⟩
  | closeGroup =>
    obtain ⟨_, _, _, rfl⟩ := closeGroup_ok h
    exact ⟨⟨rfl, rfl, rfl⟩, .next other rfl⟩
  | digit =>
    exact lands_digit other h
  | slash =>
    cases h
    unfold slash
    split
    · rename_i close selectors opened
      have place := sewn.selectors close (by rw [opened]; exact List.mem_cons_self)
      exact ⟨⟨rfl, rfl, rfl⟩, .behind rfl place⟩
    · exact literal
  | closeSelector =>
    obtain ⟨_, _, _, rfl⟩ := closeSelector_ok h
    exact ⟨⟨rfl, rfl, rfl⟩, .next other rfl⟩
  | repetition =>
    obtain ⟨_, _, _, _, _, _, _, _, contained, _, _, rfl⟩ := openRepetition_ok h
    have opened := Reader.getElem?_of_charAt (Reader.blockEnd_ok contained).1 (by decide)
    exact ⟨⟨rfl, rfl, rfl⟩, .behind rfl (.behind opened (by decide))⟩
  | closeBlock =>
    cases h
    exact lands_closeBlock other sewn
  | flag =>
    exact lands_flag h
  | call =>
    rw [single '+' rfl]
    exact lands_wordCall start h
  | casing =>
    cases h
    unfold toggleCasing
    split
    · rename_i double
      have place := Reader.getElem?_of_charAt double (by decide)
      exact ⟨⟨rfl, rfl, rfl⟩, .behind rfl (.behind place (by decide))⟩
    · exact ⟨⟨rfl, rfl, rfl⟩, .next other rfl⟩
  | number =>
    obtain ⟨_, _, _, closed, _, _, rfl⟩ := randomNumber_ok h
    have bracket := Reader.getElem?_of_blockEnd closed
    exact ⟨⟨rfl, rfl, rfl⟩, .behind rfl (.behind bracket (by decide))⟩
  | openBlock | lineBreak | carriageReturn | upper =>
    cases h
    exact ⟨⟨rfl, rfl, rfl⟩, .next other rfl⟩
  | literal =>
    cases h
    exact literal

end State

end Phrasebook
