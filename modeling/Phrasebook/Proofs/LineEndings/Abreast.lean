import Phrasebook.Proofs.LineEndings.Calls
import Phrasebook.Proofs.LineEndings.Searches
import Phrasebook.Proofs.Tags.Places

/-! Two runs abreast, of which the second reads the text of the first with carriage returns.
Their places correspond by the shift, and all else is alike; each construct keeps them so, or stops
both in matching faults. -/
namespace Phrasebook

open Text (withReturns shift)

/-- The same repetition over the shifted blocks. -/
def Repetition.shift (text : List Char) (r : Repetition) : Repetition :=
  { r with
    contentStart := Text.shift text r.contentStart
    contentEnd := Text.shift text r.contentEnd
    separatorStart := Text.shift text r.separatorStart
    separatorEnd := Text.shift text r.separatorEnd }

def Boundary.shift (text : List Char) : Boundary → Boundary
  | separator position => separator (Text.shift text position)
  | content position => content (Text.shift text position)
  | finished depth => finished depth
  | inside => inside

theorem Boundary.ofClose_shift (text : List Char) (index : Nat) (repetitions : List Repetition) :
    ofClose (Text.shift text index) (repetitions.map (·.shift text)) =
      ((ofClose index repetitions).1.shift text,
        (ofClose index repetitions).2.map (·.shift text)) := by
  cases repetitions with
  | nil => rfl
  | cons r outer =>
    have same (i j : Nat) : (Text.shift text i == Text.shift text j) = (i == j) := by
      rw [Bool.eq_iff_iff, beq_iff_eq, beq_iff_eq, Text.shift_inj]
    simp only [List.map_cons, ofClose, Repetition.shift, same, Text.shift_lt_iff, List.length_map]
    split
    · split
      · rfl
      · split <;> rfl
    · split <;> rfl

namespace State

/-- The second run reads the text of the first with carriage returns, at the shifted places. -/
structure Abreast (text : List Char) (s t : State) : Prop where
  texts : Reader.Parallel text s.reader t.reader
  position : t.reader.position = shift text s.reader.position
  selectors : t.selectors = s.selectors.map (shift text)
  closes : ∀ close ∈ s.selectors, s.reader.text[close]? = some '}'
  repetitions : t.repetitions = s.repetitions.map (·.shift text)
  salt : t.salt = s.salt
  alike : s.Alike t

/-- Nothing is read, opened or closed. -/
structure Still (s s' : State) : Prop where
  reader : s'.reader = s.reader
  selectors : s'.selectors = s.selectors
  repetitions : s'.repetitions = s.repetitions
  salt : s'.salt = s.salt

theorem still_emitLiteral (s : State) (c : Char) : Still s (s.emitLiteral c) := by
  obtain ⟨_, _, _, _, same⟩ := emitLiteral_frame s c
  rw [same]
  exact ⟨rfl, rfl, rfl, rfl⟩

theorem still_setFlags (s : State) (scope : FlagScope) (flags : Flags) :
    Still s (s.setFlags scope flags) := by
  obtain ⟨_, _, same⟩ := setFlags_frame s scope flags
  rw [same]
  exact ⟨rfl, rfl, rfl, rfl⟩

theorem Alike.emitRaw {s t : State} (h : Alike s t) (c : Char) :
    Alike (s.emitRaw c) (t.emitRaw c) := by
  obtain ⟨_, _, _, _, _, doubts, rfl⟩ := h.frame
  exact { Alike.refl (s.emitRaw c) with doubts }

theorem Alike.emitWord {s t : State} (h : Alike s t) (word : String) :
    Alike (s.emitWord word) (t.emitWord word) := by
  have casing : t.casing = s.casing := by
    simp only [State.casing, h.upper, h.proper, h.firstPending]
  rw [State.emitWord, State.emitWord, casing]
  exact h.emitCased _

theorem Alike.setFlags {s t : State} (h : Alike s t) (scope : FlagScope) (flags : Flags) :
    Alike (s.setFlags scope flags) (t.setFlags scope flags) := by
  cases scope with
  | run => exact { h with localFlags := rfl }
  | lasting => exact { h with globalFlags := rfl }

theorem Alike.flags {s t : State} (h : Alike s t) (scope : FlagScope) :
    t.flags scope = s.flags scope := by
  cases scope with
  | run => exact h.localFlags.symm
  | lasting => exact h.globalFlags.symm

namespace Abreast

variable {text : List Char} {s t s' t' : State} {c : Char} {index i : Nat}

theorem kept (abreast : Abreast text s t) (alike : s'.Alike t') (still : Still s s')
    (still' : Still t t') : Abreast text s' t' where
  texts := by
    rw [still.reader, still'.reader]
    exact abreast.texts
  position := by
    rw [still.reader, still'.reader]
    exact abreast.position
  selectors := by
    rw [still.selectors, still'.selectors]
    exact abreast.selectors
  closes := by
    rw [still.reader, still.selectors]
    exact abreast.closes
  repetitions := by
    rw [still.repetitions, still'.repetitions]
    exact abreast.repetitions
  salt := by
    rw [still.salt, still'.salt]
    exact abreast.salt
  alike := alike

theorem moveTo (abreast : Abreast text s t) (i : Nat) :
    Abreast text (s.moveTo i) (t.moveTo (shift text i)) :=
  { abreast with
    texts := ⟨abreast.texts.here, abreast.texts.there⟩
    position := abreast.texts.position_moveTo i
    alike := abreast.alike.moveTo i _ }

/-- The place behind a character of a line is the place behind the shifted character. -/
theorem shift_succ (abreast : Abreast text s t) (here : s.reader.text[i]? = some c)
    (other : c ≠ '\n') : shift text (i + 1) = shift text i + 1 := by
  apply abreast.texts.shift_succ
  rw [Reader.charAt_of_getElem? here]
  exact other

theorem shift_blockEnd (abreast : Abreast text s t) {close : Nat} {construct : Construct}
    (found : s.reader.blockEnd i construct = .ok close) :
    shift text (i + 1) = shift text i + 1 ∧ shift text (close + 1) = shift text close + 1 := by
  constructor
  · apply abreast.texts.shift_succ
    rw [(Reader.blockEnd_ok found).1]
    decide
  · exact abreast.shift_succ (Reader.getElem?_of_blockEnd found) (by decide)

/-- Both go on behind a block, or stop because it does not open or close. -/
theorem block (abreast : Abreast text s t) (unbroken : Unbroken text) {construct : Construct}
    {f f' : Nat → Except Stop State}
    (behind : ∀ close, s.reader.blockEnd i construct = .ok close →
      shift text (i + 1) = shift text i + 1 → shift text (close + 1) = shift text close + 1 →
      Matches (Abreast text) (f close) (f' (shift text close))) :
    Matches (Abreast text) (s.reader.blockEnd i construct >>= f)
      (t.reader.blockEnd (shift text i) construct >>= f') := by
  refine (abreast.texts.blockEnd unbroken i construct).bind ?_
  rintro close _ found - rfl
  obtain ⟨opening, closing⟩ := abreast.shift_blockEnd found
  exact behind close found opening closing

theorem peek (abreast : Abreast text s t) :
    t.reader.peek = if s.reader.peek = '\n' then '\r' else s.reader.peek := by
  rw [Reader.peek, abreast.position, abreast.texts.charAt]
  rfl

theorem emitLiteral (abreast : Abreast text s t) (c : Char) :
    Abreast text (s.emitLiteral c) (t.emitLiteral c) := by
  have next : Letter.isAlphanumeric s.reader.peek = Letter.isAlphanumeric t.reader.peek := by
    rw [abreast.peek]
    split
    · rename_i newline
      rw [newline]
      decide
    · rfl
  exact abreast.kept (abreast.alike.emitLiteral c next) (still_emitLiteral s c)
    (still_emitLiteral t c)

end Abreast

end State

end Phrasebook
