import Phrasebook.Evaluation.Effect

/-! Why a run ends.
Each step lowers a number that depends on what may still be read: the rest of the text, the text
after each open selector, and the iterations left of each open repetition. Reading one character
pays for all that the character can open, whatever brackets the text has. -/
namespace Phrasebook

/-- What the text from a position on is worth. One character more is worth more than all the
iterations that a repetition can have. -/
def reach (size position : Nat) : Nat := Nat.pow 0x400000000 (size - position)

theorem reach_pos (size position : Nat) : 0 < reach size position :=
  Nat.pow_pos (by decide)

theorem reach_anti (size : Nat) {i j : Nat} (h : i ≤ j) : reach size j ≤ reach size i :=
  Nat.pow_le_pow_right (by decide) (by omega)

theorem reach_succ {size i : Nat} (h : i < size) :
    reach size i = 0x400000000 * reach size (i + 1) := by
  have e : size - i = size - (i + 1) + 1 := by omega
  rw [reach, reach, e]
  exact Nat.mul_comm _ _

@[simp] theorem reach_min (size i : Nat) : reach size (min i size) = reach size i := by
  rw [reach, reach, show size - min i size = size - i by omega]

/-- What the iterations after the present one may read, and the present one if its separator is
still to be read. -/
def Repetition.worth (size : Nat) (r : Repetition) : Nat :=
  (r.limit.toNat - r.done - 1) * (reach size r.contentStart + reach size r.separatorStart) +
    if r.onSeparator then reach size r.contentStart else 0

namespace State

def selectorsWorth (size : Nat) : List Nat → Nat
  | [] => 0
  | close :: selectors => reach size (close + 1) + selectorsWorth size selectors

def repetitionsWorth (size : Nat) : List Repetition → Nat
  | [] => 0
  | r :: repetitions => r.worth size + repetitionsWorth size repetitions

def pending (s : State) : Nat :=
  selectorsWorth s.reader.text.size s.selectors +
    repetitionsWorth s.reader.text.size s.repetitions

def potential (s : State) : Nat := reach s.reader.text.size s.reader.position + s.pending

/-- The second state reads the same text from the same place or further on, and nothing was opened
or closed. -/
structure Ahead (s s' : State) : Prop where
  text : s'.reader.text = s.reader.text
  position : s.reader.position ≤ s'.reader.position
  selectors : s'.selectors = s.selectors
  repetitions : s'.repetitions = s.repetitions

theorem Ahead.stay {s s' : State} (reader : s'.reader = s.reader)
    (selectors : s'.selectors = s.selectors) (repetitions : s'.repetitions = s.repetitions) :
    Ahead s s' :=
  ⟨congrArg Reader.text reader, Nat.le_of_eq (congrArg Reader.position reader.symm), selectors,
    repetitions⟩

theorem Ahead.trans {s t u : State} (h : Ahead s t) (h' : Ahead t u) : Ahead s u :=
  ⟨h'.text.trans h.text, Nat.le_trans h.position h'.position,
    h'.selectors.trans h.selectors, h'.repetitions.trans h.repetitions⟩

theorem Ahead.moveTo {s s' : State} (h : Ahead s s') {i : Nat} (further : s'.reader.position ≤ i) :
    Ahead s (s'.moveTo i) :=
  h.trans ⟨rfl, Reader.le_position_moveTo further, rfl, rfl⟩

theorem Ahead.emitCased {s s' : State} (h : Ahead s s') (word : String) :
    Ahead s (s'.emitCased word) :=
  h.trans (.stay rfl rfl rfl)

theorem ahead_emitLiteral (s : State) (c : Char) : Ahead s (s.emitLiteral c) := by
  obtain ⟨_, _, _, _, same⟩ := emitLiteral_frame s c
  rw [same]
  exact .stay rfl rfl rfl

theorem ahead_setFlags (s : State) (scope : FlagScope) (flags : Flags) {i : Nat}
    (further : s.reader.position ≤ i) : Ahead s ((s.setFlags scope flags).moveTo i) := by
  obtain ⟨_, _, same⟩ := setFlags_frame s scope flags
  rw [same]
  apply Ahead.moveTo
  · exact .stay rfl rfl rfl
  · exact further

theorem ahead_escape (s : State) : Ahead s s.escape := by
  have position : s.reader.position ≤ s.reader.read.2.position := by
    have := s.reader.inside
    simp only [Reader.read, Reader.position_moveTo]
    omega
  obtain ⟨_, _, _, same⟩ := escape_frame s
  rw [same]
  exact ⟨rfl, position, rfl, rfl⟩

theorem ahead_toggleCasing (s : State) : Ahead s s.toggleCasing := by
  unfold toggleCasing
  split
  · apply Ahead.trans (.moveTo (.stay rfl rfl rfl) (Nat.le_succ _))
    exact .stay rfl rfl rfl
  · exact .stay rfl rfl rfl

theorem ahead_openGroup {s s' : State} {index : Nat} (start : s.reader.position = index + 1)
    (h : s.openGroup index = .ok s') : Ahead s s' := by
  obtain ⟨close, colon, _, found, _, rfl⟩ := openGroup_ok h
  have := Reader.le_of_findChar? found
  apply Ahead.moveTo
  · exact .stay rfl rfl rfl
  · change s.reader.position ≤ colon + 1
    omega

theorem ahead_closeGroup {s s' : State} {index : Nat} (h : s.closeGroup index = .ok s') :
    Ahead s s' := by
  obtain ⟨_, _, _, rfl⟩ := closeGroup_ok h
  exact .stay rfl rfl rfl

theorem ahead_digit {s s' : State} {c : Char} {index : Nat} (start : s.reader.position = index + 1)
    (h : s.digit c index = .ok s') : Ahead s s' := by
  rcases digit_ok h with rfl | ⟨_, close, _, closed, rfl⟩
  · exact ahead_emitLiteral s c
  · have digits := s.reader.le_digitsEnd index
    have := Reader.le_of_blockEnd closed
    apply Ahead.moveTo
    · exact .stay rfl rfl rfl
    · change s.reader.position ≤ _
      split <;> omega

theorem ahead_readTag {s s' : State} {index : Nat} (start : s.reader.position = index + 1)
    (h : s.readTag index = .ok s') : Ahead s s' := by
  obtain ⟨_, _, rfl, _, _, rfl⟩ := readTag_ok h
  have digits := s.reader.le_digitsEnd (index + 1)
  apply Ahead.moveTo
  · exact .stay rfl rfl rfl
  · change s.reader.position ≤ _
    omega

theorem ahead_flag {s s' : State} {index : Nat} (start : s.reader.position = index + 1)
    (h : s.flag index = .ok s') : Ahead s s' := by
  obtain ⟨scope, _, nameEnd, _, _, named, _, effect⟩ := flag_ok h
  have behind := Reader.le_of_blockEnd named
  rcases effect with ⟨_, rfl⟩ | ⟨_, rfl⟩ | ⟨bodyEnd, closed, rfl⟩
  · exact ahead_setFlags s _ _ (by omega)
  · exact ahead_setFlags s _ _ (by omega)
  · have := Reader.le_of_blockEnd closed
    apply Ahead.moveTo (.stay rfl rfl rfl)
    split <;> omega

theorem ahead_randomNumber {s s' : State} {index : Nat} (start : s.reader.position = index + 1)
    (h : s.randomNumber index = .ok s') : Ahead s s' := by
  obtain ⟨close, _, _, closed, _, _, rfl⟩ := randomNumber_ok h
  have := Reader.le_of_blockEnd closed
  refine .emitCased (.moveTo ?_ ?_) _
  · exact .stay rfl rfl rfl
  · change s.reader.position ≤ _
    omega

theorem ahead_wordCall {setting : Setting} {s s' : State} {index : Nat}
    (start : s.reader.position = index + 1)
    (h : s.wordCall setting index = .ok s') : Ahead s s' := by
  obtain ⟨_, _, _, _, _, _, _, _, rfl, rfl⟩ := wordCall_frame h
  cases read : Call.parse? (s.reader.tail index) with
  | none => exact .stay rfl rfl rfl
  | some call =>
    have skipped : s.reader.position ≤ index + call.length := by
      have := Call.two_le_length_of_parse? read
      omega
    exact ⟨rfl, Reader.le_position_moveTo skipped, rfl, rfl⟩

theorem potential_of_ahead {s s' : State} (h : Ahead s s') : s'.potential ≤ s.potential := by
  have := reach_anti s.reader.text.size h.position
  simp only [potential, pending, h.text, h.selectors, h.repetitions]
  omega

theorem potential_openSelector {s s' : State} {index : Nat} (start : s.reader.position = index + 1)
    (h : s.openSelector index = .ok s') :
    s'.potential ≤ s.potential + reach s.reader.text.size (index + 1) := by
  obtain ⟨close, starts, closed, rfl, _, choice, _, _, rfl⟩ := openSelector_ok h
  have behind := reach_anti s.reader.text.size
    (show index + 1 ≤ close + 1 by have := Reader.le_of_closing? closed; omega)
  have ahead := reach_anti s.reader.text.size (le_start (List.get_mem _ choice))
  simp only [potential, pending, moveTo, Reader.text_moveTo, Reader.position_moveTo, reach_min,
    selectorsWorth, start]
  omega

theorem potential_openRepetition {s s' : State} {index : Nat}
    (start : s.reader.position = index + 1) (h : s.openRepetition index = .ok s') :
    s'.potential ≤ s.potential + 0x200000000 * reach s.reader.text.size (index + 1) := by
  obtain ⟨countEnd, separatorEnd, contentEnd, count, limit, _, counted, separated, _, _, _, rfl⟩ :=
    openRepetition_ok h
  have after := Reader.le_of_blockEnd counted
  have beyond := Reader.le_of_blockEnd separated
  have content := reach_anti s.reader.text.size (show index + 1 ≤ separatorEnd + 2 by omega)
  have separator := reach_anti s.reader.text.size (show index + 1 ≤ countEnd + 2 by omega)
  have rounds : (limit.toNat - 0 - 1) * (reach s.reader.text.size (separatorEnd + 2) +
      reach s.reader.text.size (countEnd + 2)) ≤
      0x100000000 * (2 * reach s.reader.text.size (index + 1)) :=
    Nat.mul_le_mul (by have := limit.toNat_lt; omega) (by omega)
  simp only [potential, pending, moveTo, markIteration, freshRepetition, Reader.text_moveTo,
    Reader.position_moveTo, reach_min, repetitionsWorth, Repetition.worth, start,
    Bool.false_eq_true, if_false]
  omega

theorem potential_slash (s : State) (c : Char) : (s.slash c).potential ≤ s.potential := by
  unfold slash
  split
  · rename_i close selectors open_
    simp only [potential, pending, moveTo, Reader.text_moveTo, Reader.position_moveTo, reach_min,
      open_, selectorsWorth]
    omega
  · exact potential_of_ahead (ahead_emitLiteral s c)

theorem potential_closeSelector {s s' : State} {index : Nat}
    (h : s.closeSelector index = .ok s') : s'.potential ≤ s.potential := by
  unfold closeSelector at h
  split at h <;> cases h
  rename_i close selectors open_
  simp only [potential, pending, open_, selectorsWorth]
  omega

theorem worth_ofClose (size index : Nat) (repetitions : List Repetition) :
    match Boundary.ofClose index repetitions with
    | (.separator position, rest) | (.content position, rest) =>
      reach size position + repetitionsWorth size rest ≤ repetitionsWorth size repetitions
    | (_, rest) => repetitionsWorth size rest ≤ repetitionsWorth size repetitions := by
  cases repetitions with
  | nil => simp [Boundary.ofClose]
  | cons r outer =>
    have round (k : Nat) (more : 0 < k) (each : Nat) : each + (k - 1) * each = k * each := by
      obtain ⟨j, rfl⟩ : ∃ j, k = j + 1 := ⟨k - 1, by omega⟩
      rw [Nat.add_sub_cancel, Nat.succ_mul, Nat.add_comm]
    by_cases content : (!r.onSeparator && index == r.contentEnd) = true
    · have off : r.onSeparator = false := by simp_all
      by_cases last : r.limit.toNat ≤ r.done + 1
      · simp [Boundary.ofClose, content, last, repetitionsWorth]
      · have paid := round (r.limit.toNat - r.done - 1) (by omega)
          (reach size r.contentStart + reach size r.separatorStart)
        rw [show r.limit.toNat - r.done - 1 - 1 = r.limit.toNat - (r.done + 1) - 1 by omega] at paid
        by_cases separated : r.separatorStart < r.separatorEnd
        · simp only [Boundary.ofClose, if_pos content, if_neg last, if_pos separated]
          simp only [repetitionsWorth, Repetition.worth, off, Bool.false_eq_true, if_true,
            if_false]
          omega
        · simp only [Boundary.ofClose, if_pos content, if_neg last, if_neg separated]
          simp only [repetitionsWorth, Repetition.worth, off, Bool.false_eq_true, if_false]
          omega
    · by_cases separator : (r.onSeparator && index == r.separatorEnd) = true
      · have on : r.onSeparator = true := by simp_all
        simp only [Boundary.ofClose, if_neg content, if_pos separator]
        simp only [repetitionsWorth, Repetition.worth, on, Bool.false_eq_true, if_true, if_false]
        omega
      · simp [Boundary.ofClose, content, separator]

theorem potential_closeBlock (s : State) (index : Nat) :
    (s.closeBlock index).potential ≤ s.potential := by
  have worth := worth_ofClose s.reader.text.size index s.repetitions
  generalize closed : Boundary.ofClose index s.repetitions = result at worth
  obtain ⟨boundary, rest⟩ := result
  cases boundary <;> cases rest <;>
    simp only [closeBlock, closed, potential, pending, moveTo, unmarkIteration, markIteration,
      Reader.text_moveTo, Reader.position_moveTo, reach_min] at worth ⊢ <;>
    omega

/-- How a step changes the place of reading and what is open. -/
inductive Moves (s : State) (index : Nat) : State → Prop where
  | ahead {s' : State} (h : Ahead s s') : Moves s index s'
  | openSelector {s' : State} (h : s.openSelector index = .ok s') : Moves s index s'
  | slash (c : Char) : Moves s index (s.slash c)
  | closeSelector {s' : State} (h : s.closeSelector index = .ok s') : Moves s index s'
  | openRepetition {s' : State} (h : s.openRepetition index = .ok s') : Moves s index s'
  | closeBlock : Moves s index (s.closeBlock index)

theorem moves_perform {setting : Setting} {s s' : State} {c : Char} {index : Nat}
    (start : s.reader.position = index + 1) (h : s.perform setting c index = .ok s') :
    Moves s index s' := by
  unfold perform at h
  generalize Sign.ofChar c = sign at h
  cases sign with
  | escape =>
    cases h
    exact .ahead (ahead_escape s)
  | openGroup => exact .ahead (ahead_openGroup start h)
  | closeGroup => exact .ahead (ahead_closeGroup h)
  | digit => exact .ahead (ahead_digit start h)
  | openSelector => exact .openSelector h
  | slash =>
    cases h
    exact .slash c
  | closeSelector => exact .closeSelector h
  | tag => exact .ahead (ahead_readTag start h)
  | repetition => exact .openRepetition h
  | closeBlock =>
    cases h
    exact .closeBlock
  | flag => exact .ahead (ahead_flag start h)
  | call => exact .ahead (ahead_wordCall start h)
  | casing =>
    cases h
    exact .ahead (ahead_toggleCasing s)
  | number => exact .ahead (ahead_randomNumber start h)
  | literal =>
    cases h
    exact .ahead (ahead_emitLiteral s c)
  | openBlock | lineBreak | carriageReturn | upper =>
    cases h
    exact .ahead (.stay rfl rfl rfl)

theorem potential_moves {s s' : State} {index : Nat} (start : s.reader.position = index + 1)
    (h : Moves s index s') :
    s'.potential ≤ s.potential + 0x200000000 * reach s.reader.text.size (index + 1) := by
  cases h with
  | ahead further =>
    have := potential_of_ahead further
    omega
  | openSelector opened =>
    have := potential_openSelector start opened
    omega
  | slash c =>
    have := potential_slash s c
    omega
  | closeSelector closed =>
    have := potential_closeSelector closed
    omega
  | openRepetition opened => exact potential_openRepetition start opened
  | closeBlock =>
    have := potential_closeBlock s index
    omega

theorem potential_step {setting : Setting} {s s' : State} (more : s.reader.atEnd = false)
    (h : s.step setting = .ok s') : s'.potential < s.potential := by
  have start := Reader.position_read more
  have bound := potential_moves start (moves_perform start h)
  have gap := reach_succ (Reader.position_lt more)
  have positive := reach_pos s.reader.text.size (s.reader.position + 1)
  simp only [potential, pending, Reader.read, Reader.text_moveTo] at start bound ⊢
  rw [start] at bound
  omega

end State

end Phrasebook
