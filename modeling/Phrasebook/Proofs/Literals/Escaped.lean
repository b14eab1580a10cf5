import Phrasebook.Proofs.Globals.Verbatim

/-! Texts in which every character stands behind a backslash.
A run writes such characters as they are and does nothing else. The exception is U+0000, which reads
like the end of the text: behind a backslash it is passed over and not written. -/
namespace Phrasebook

open State (Reaches)

/-- The text that asks for exactly these characters. -/
def escapeAll (text : List Char) : List Char := text.flatMap fun c => ['\\', c]

/-- The characters that are not taken for the end of a text. -/
def visible (text : List Char) : List Char := text.filter (· != Reader.endMark)

/-- The state that escapes of these characters lead to. -/
def State.afterEscapes (s : State) (text : List Char) : State :=
  { s with
    reader := s.reader.moveTo (s.reader.position + 2 * text.length)
    streams := s.streams.write (String.ofList (visible text))
    article := if (visible text).any Letter.isAlphanumeric then none else s.article
    lastChar := (visible text).getLast?.getD s.lastChar }

variable {setting : Setting} {s : State} {c : Char} {text rest : List Char}

theorem visible_cons (c : Char) (text : List Char) :
    visible (c :: text) = visible [c] ++ visible text :=
  List.filter_append [c] text

theorem visible_eq_self : visible text = text ↔ Reader.endMark ∉ text := by
  simp only [visible, List.filter_eq_self, bne_iff_ne, ne_eq]
  exact ⟨fun h member => h _ member rfl, fun h c member same => h (same ▸ member)⟩

theorem length_escapeAll (text : List Char) : (escapeAll text).length = 2 * text.length := by
  simp [escapeAll, Nat.mul_comm]

namespace Reader

theorem moveTo_position (r : Reader) : r.moveTo r.position = r := by
  simp [moveTo, Nat.min_eq_left r.inside]

theorem moveTo_moveTo (r : Reader) (i j : Nat) : (r.moveTo i).moveTo j = r.moveTo j := rfl

end Reader

namespace State

theorem afterEscapes_nil (s : State) : s.afterEscapes [] = s := by
  have same := s.reader.moveTo_position
  simp [afterEscapes, visible, same]

theorem afterEscapes_cons (inside : s.reader.position + 2 ≤ s.reader.text.size) :
    s.afterEscapes (c :: text) = (s.afterEscapes [c]).afterEscapes text := by
  have place : s.reader.position + 2 * (c :: text).length =
      min (s.reader.position + 2 * 1) s.reader.text.size + 2 * text.length := by
    rw [List.length_cons]
    omega
  simp only [afterEscapes, visible_cons c text, String.ofList_append, Streams.write_append,
    List.any_append, List.getLast?_append, Reader.position_moveTo, Reader.moveTo_moveTo,
    List.length_singleton, place]
  congr 1
  · cases (visible [c]).any Letter.isAlphanumeric <;>
      cases (visible text).any Letter.isAlphanumeric <;> rfl
  · cases (visible text).getLast? <;> rfl

variable (here : s.reader.text.toList.drop s.reader.position = '\\' :: c :: rest)
include here

theorem fits_escape : s.reader.position + 2 ≤ s.reader.text.size :=
  Reader.lt_size_of_drop (drop_char here)

theorem escape_eq_afterEscapes :
    (s.moveTo (s.reader.position + 1)).escape = s.afterEscapes [c] := by
  have place : (s.moveTo (s.reader.position + 1)).reader.position = s.reader.position + 1 :=
    Nat.min_eq_left (Nat.le_of_succ_le (fits_escape here))
  have read : (s.moveTo (s.reader.position + 1)).reader.peek = c := by
    rw [Reader.peek, place]
    exact Reader.charAt_of_drop (r := s.reader) (drop_char here)
  by_cases present : c = Reader.endMark
  · subst present
    have passed : (s.moveTo (s.reader.position + 1)).escape =
        (s.moveTo (s.reader.position + 1)).moveTo (s.reader.position + 1 + 1) := by
      rw [escape, Reader.read, place]
      exact if_pos read
    rw [passed]
    rfl
  · have shown : visible [c] = [c] := visible_eq_self.mpr (by simpa using Ne.symm present)
    rw [Structure.escape_eq read present, place, afterEscapes, shown]
    simp only [emitRaw, List.any_cons, List.any_nil, Bool.or_false]
    rfl

theorem reaches_escape : Reaches setting s (s.afterEscapes [c]) := by
  apply Structure.reaches_of_drop rfl here
  exact congrArg Except.ok (escape_eq_afterEscapes here)

omit here

/-- From every state, escapes are read one after the other up to the last. -/
theorem reaches_afterEscapes
    (here : s.reader.text.toList.drop s.reader.position = escapeAll text ++ rest) :
    Reaches setting s (s.afterEscapes text) := by
  induction text generalizing s with
  | nil =>
    rw [afterEscapes_nil]
    exact .refl s
  | cons c text ih =>
    have split : s.reader.text.toList.drop s.reader.position =
        '\\' :: c :: (escapeAll text ++ rest) := here
    have inside := fits_escape split
    have behind : s.reader.text.toList.drop (min (s.reader.position + 2) s.reader.text.size) =
        escapeAll text ++ rest := by
      rw [Nat.min_eq_left inside]
      exact drop_char (drop_char split)
    rw [afterEscapes_cons inside]
    exact (reaches_escape split).trans (ih behind)

end State

/-- The state of a run that has read a text behind backslashes, and nothing else, and comes to the
rest. -/
def State.behindEscapes (text rest : List Char) (flags : Flags) (g : Generator) : State :=
  { State.start (escapeAll text ++ rest) flags g with
    reader := (Reader.ofList (escapeAll text ++ rest)).moveTo (escapeAll text).length
    streams := Streams.empty.write (String.ofList (visible text))
    lastChar := (visible text).getLast?.getD Reader.endMark }

section start

variable (text rest : List Char) (flags : Flags) (g : Generator)

theorem reaches_behindEscapes (setting : Setting) :
    Reaches setting (.start (escapeAll text ++ rest) flags g)
      (.behindEscapes text rest flags g) := by
  let start := State.start (escapeAll text ++ rest) flags g
  have article : (if (visible text).any Letter.isAlphanumeric then none else start.article) =
      none := ite_self none
  have place : start.reader.position + 2 * text.length = (escapeAll text).length := by
    rw [length_escapeAll]
    exact Nat.zero_add _
  have same : start.afterEscapes text = .behindEscapes text rest flags g := by
    rw [State.afterEscapes, article, place]
    rfl
  rw [← same]
  exact State.reaches_afterEscapes rfl

theorem position_behindEscapes :
    (State.behindEscapes text rest flags g).reader.position = (escapeAll text).length := by
  apply Nat.min_eq_left
  simp [Reader.ofList]

theorem tail_behindEscapes :
    (State.behindEscapes text rest flags g).reader.tail (escapeAll text).length = rest := by
  rw [Reader.tail_eq]
  exact List.drop_left

end start

/-- Whatever a text has before it behind backslashes is written, apart from U+0000, and nothing else
has changed where the text begins. So what has no U+0000 comes out as it is. -/
theorem evaluate_escapeAll (setting : Setting) (text rest : List Char) (flags : Flags)
    (g : Generator) :
    (Reaches setting (.start (escapeAll text ++ rest) flags g)
        (.behindEscapes text rest flags g) ∧
      (State.behindEscapes text rest flags g).reader.position = (escapeAll text).length ∧
      (State.behindEscapes text rest flags g).reader.tail (escapeAll text).length = rest) ∧
    evaluate setting (escapeAll text) flags g =
      { result := .ok ⟨(∅ : Std.ExtTreeMap String String).insert "main"
          (String.ofList (visible text))⟩
        flags := flags
        warnings := []
        generator := g } ∧
    (visible text = text ↔ Reader.endMark ∉ text) := by
  refine ⟨⟨reaches_behindEscapes text rest flags g setting,
    position_behindEscapes text rest flags g, tail_behindEscapes text rest flags g⟩, ?_,
    visible_eq_self⟩
  have reached := reaches_behindEscapes text [] flags g setting
  have ended : (State.behindEscapes text [] flags g).reader.atEnd = true := by
    rw [Reader.atEnd_iff, position_behindEscapes]
    exact (congrArg List.length (List.append_nil (escapeAll text))).symm
  rw [List.append_nil] at reached
  rw [State.evaluate_of_reaches reached ended, ← Streams.finish_write_empty]
  rfl

/-- The backslash is read, and the character behind it is taken for the end of the text. -/
theorem not_written_escaped :
    ¬ ∃ output, (evaluate ⟨∅, "\n"⟩ (escapeAll ['\x00']) ∅ (.ofSeed 0 0)).result = .ok output ∧
      output.main = "\x00" := by
  have run : (State.advance? ⟨∅, "\n"⟩ 1 (.start (escapeAll ['\x00']) ∅ (.ofSeed 0 0))).map
      (fun s => (s.reader.atEnd, s.streams.finish.main)) = some (true, "") := by
    decide +kernel
  obtain ⟨s, ran, ends⟩ := Option.map_eq_some_iff.mp run
  obtain ⟨ended, written⟩ := Prod.mk.inj ends
  rw [State.evaluate_of_reaches (State.reaches_of_advance? ran) ended]
  rintro ⟨output, same, main⟩
  cases same
  rw [written] at main
  exact absurd main (by decide)

end Phrasebook
