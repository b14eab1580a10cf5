import Phrasebook.Evaluation.Effect
import Phrasebook.Proofs.Steps

/-! Calls that a run carries out.
Every step but that of a call leaves the kept words and the warnings as they are. A step that
carries out a call picks a word first, and writes it only then. -/
namespace Phrasebook.State

variable {setting : Setting} {s t u : State} {c : Char} {index : Nat} {call : Call}
  {lexicon : Lexicon}

/-- The next step carries out a call with a word from a bank. -/
structure Executes (setting : Setting) (s : State) (call : Call) (lexicon : Lexicon) : Prop where
  read : Call.parse? (s.reader.tail s.reader.position) = some call
  known : setting.lexicons[call.symbol]? = some lexicon

/-- The state in which a call picks its word: the call has been read, and no article waits. -/
def calling (s : State) (call : Call) : State :=
  { s with article := none }.moveTo (s.reader.position + call.length)

def pick (s : State) (lexicon : Lexicon) (call : Call) : Except Stop (Option Nat × State) :=
  (s.calling call).pickWord lexicon call s.reader.position

namespace Executes

theorem plus (h : Executes setting s call lexicon) : s.reader.peek = '+' := by
  have read := h.read
  rw [Reader.tail_eq] at read
  unfold Call.parse? at read
  split at read
  · rename_i rest ahead
    have head : (s.reader.text.toList.drop s.reader.position)[0]? = some '+' := by
      rw [ahead, List.getElem?_cons_zero]
    rw [List.getElem?_drop, Nat.add_zero, Array.getElem?_toList] at head
    rw [Reader.peek, Reader.charAt, head, Option.getD_some]
  · contradiction

theorem step_eq (h : Executes setting s call lexicon) :
    s.step setting = s.pick lexicon call >>= fun picked =>
      match picked.1 with
      | none => .ok picked.2
      | some i => picked.2.writeWord lexicon call s.reader.position i s.article := by
  have performed : s.step setting =
      { s with reader := s.reader.read.2 }.wordCall setting s.reader.position := by
    rw [step, h.plus]
    rfl
  have read : Call.parse? (s.reader.read.2.tail s.reader.position) = some call := h.read
  rw [performed, wordCall]
  simp only [read, h.known]
  rfl

theorem step_ok (h : Executes setting s call lexicon) (stepped : s.step setting = .ok t) :
    ∃ picked? u, s.pick lexicon call = .ok (picked?, u) ∧
      ((picked? = none ∧ t = u) ∨
        ∃ i, picked? = some i ∧
          u.writeWord lexicon call s.reader.position i s.article = .ok t) := by
  rw [h.step_eq] at stepped
  obtain ⟨⟨picked?, u⟩, picked, effect⟩ := bind_eq_ok.mp stepped
  refine ⟨picked?, u, picked, ?_⟩
  cases picked? with
  | none => exact .inl ⟨rfl, (Except.ok.inj effect).symm⟩
  | some i => exact .inr ⟨i, rfl, effect⟩

end Executes

theorem writeWord_keeps {i : Nat} {article : Option PendingArticle}
    (h : s.writeWord lexicon call index i article = .ok t) :
    t.generator = s.generator ∧ t.carriers = s.carriers ∧
      (t.warnings = s.warnings ∨ ∃ symbol subtype,
        t.warnings = ⟨.subtypeNotFound symbol subtype, index⟩ :: s.warnings) := by
  have corrected (r : State) (word : String) :
      (r.correctArticle article word).generator = r.generator ∧
        (r.correctArticle article word).carriers = r.carriers ∧
        (r.correctArticle article word).warnings = r.warnings := by
    obtain ⟨_, same⟩ := correctArticle_frame r article word
    rw [same]
    exact ⟨rfl, rfl, rfl⟩
  simp only [writeWord] at h
  split at h
  · rename_i word _
    cases h
    obtain ⟨generator, carriers, warnings⟩ := corrected s word
    exact ⟨generator, carriers, .inl warnings⟩
  · rename_i symbol subtype _
    cases h
    obtain ⟨generator, carriers, warnings⟩ := corrected
      (s.warn (.subtypeNotFound symbol subtype) index)
      (Lexicon.missingSubtypeToken symbol subtype)
    exact ⟨generator, carriers, .inr ⟨symbol, subtype, warnings⟩⟩
  · contradiction

/-- Kept words and warnings are as before. -/
structure Untold (s t : State) : Prop where
  carriers : t.carriers = s.carriers
  warnings : t.warnings = s.warnings

theorem untold_perform (h : s.perform setting c index = .ok t) (other : Sign.ofChar c ≠ .call) :
    Untold s t :=
  ⟨(spares_perform h).carriers other, (spares_perform h).warnings other⟩

/-- A step tells nothing, or it warns of a call that cannot be carried out, or it carries one out. -/
theorem step_cases (h : s.step setting = .ok t) :
    Untold s t ∨
      (∃ cause, (cause = .unrecognizedWordCall ∨ ∃ symbol, cause = .unknownSymbol symbol) ∧
        t.carriers = s.carriers ∧ t.warnings = ⟨cause, s.reader.position⟩ :: s.warnings) ∨
      ∃ call lexicon, Executes setting s call lexicon := by
  by_cases calls : Sign.ofChar s.reader.peek = .call
  · unfold step perform at h
    rw [calls] at h
    rcases wordCall_ok h with ⟨_, rfl⟩ | ⟨call, _, read, rfl, effect⟩
    · exact .inr (.inl ⟨_, .inl rfl, rfl, rfl⟩)
    · rcases effect with ⟨_, rfl⟩ | ⟨lexicon, _, _, known, _⟩
      · exact .inr (.inl ⟨_, .inr ⟨call.symbol, rfl⟩, rfl, rfl⟩)
      · exact .inr (.inr ⟨call, lexicon, read, known⟩)
  · have told : Untold { s with reader := s.reader.read.2 } t := untold_perform h calls
    exact .inl ⟨told.carriers, told.warnings⟩

end Phrasebook.State
