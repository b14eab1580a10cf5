import Phrasebook.Evaluation.Potential
import Phrasebook.Proofs.Steps

/-! Runs that do not go back.
The only places before its position that a run may jump to are those of its selectors and
repetitions. Where these lie beyond a place of the text, the run stays beyond it for good. -/
namespace Phrasebook

/-- The repetition leads to no place before the given one. -/
structure Repetition.Beyond (p : Nat) (r : Repetition) : Prop where
  content : p ≤ r.contentStart
  separator : p ≤ r.separatorStart

/-- Both places that the repetition leads back to have the property. -/
structure Repetition.Leads (P : Nat → Prop) (r : Repetition) : Prop where
  content : P r.contentStart
  separator : P r.separatorStart

def Boundary.target? : Boundary → Option Nat
  | separator position | content position => some position
  | finished _ | inside => none

theorem Boundary.leads_ofClose {P : Nat → Prop} {repetitions : List Repetition} (index : Nat)
    (h : ∀ r ∈ repetitions, r.Leads P) :
    (∀ r ∈ (ofClose index repetitions).2, r.Leads P) ∧
      ∀ position, (ofClose index repetitions).1.target? = some position → P position := by
  cases repetitions with
  | nil =>
    refine ⟨h, ?_⟩
    rintro _ ⟨⟩
  | cons r outer =>
    have first := h r List.mem_cons_self
    have others : ∀ q ∈ outer, q.Leads P := fun q member => h q (List.mem_cons_of_mem _ member)
    have changed (r' : Repetition) (leads : r'.Leads P) : ∀ q ∈ r' :: outer, q.Leads P := by
      intro q member
      rcases List.mem_cons.mp member with rfl | later
      · exact leads
      · exact others q later
    rw [ofClose]
    split
    · split
      · refine ⟨others, ?_⟩
        rintro _ ⟨⟩
      · split
        · refine ⟨changed _ ⟨first.content, first.separator⟩, ?_⟩
          rintro _ ⟨⟩
          exact first.separator
        · refine ⟨changed _ ⟨first.content, first.separator⟩, ?_⟩
          rintro _ ⟨⟩
          exact first.content
    · split
      · refine ⟨changed _ ⟨first.content, first.separator⟩, ?_⟩
        rintro _ ⟨⟩
        exact first.content
      · refine ⟨h, ?_⟩
        rintro _ ⟨⟩

namespace State

variable {setting : Setting} {s t : State} {P Q : Nat → Prop} {index : Nat}

/-- The ends of the open selectors have one property, and the places that the open repetitions lead
back to have another. -/
structure Leads (P Q : Nat → Prop) (s : State) : Prop where
  selectors : ∀ close ∈ s.selectors, P close
  repetitions : ∀ r ∈ s.repetitions, r.Leads Q

namespace Leads

theorem ahead (h : s.Leads P Q) (further : Ahead s t) : t.Leads P Q := by
  constructor
  · rw [further.selectors]
    exact h.selectors
  · rw [further.repetitions]
    exact h.repetitions

theorem openSelector (h : s.Leads P Q) (opened : s.openSelector index = .ok t)
    (selector : ∀ close, s.reader.curlyClose? (index + 1) = some close → P close) :
    t.Leads P Q := by
  obtain ⟨close, _, closed, _, _, _, _, _, rfl⟩ := openSelector_ok opened
  exact { h with selectors := List.forall_mem_cons.mpr ⟨selector close closed, h.selectors⟩ }

theorem slash (h : s.Leads P Q) (c : Char) : (s.slash c).Leads P Q := by
  unfold State.slash
  split
  · rename_i close selectors opened
    have closes : ∀ other ∈ close :: selectors, P other := by
      rw [← opened]
      exact h.selectors
    exact { h with selectors := (List.forall_mem_cons.mp closes).2 }
  · exact h.ahead (ahead_emitLiteral s c)

theorem closeSelector (h : s.Leads P Q) (closed : s.closeSelector index = .ok t) :
    t.Leads P Q := by
  obtain ⟨close, selectors, opened, rfl⟩ := closeSelector_ok closed
  refine { h with selectors := ?_ }
  intro other member
  exact h.selectors other (by rw [opened]; exact List.mem_cons_of_mem _ member)

theorem openRepetition (h : s.Leads P Q) (opened : s.openRepetition index = .ok t)
    (block : ∀ start close construct, index < start →
      s.reader.blockEnd start construct = .ok close → Q (start + 1)) : t.Leads P Q := by
  obtain ⟨countEnd, separatorEnd, contentEnd, _, limit, _, counted, separated, contained, _, _,
    rfl⟩ := openRepetition_ok opened
  have count := Reader.le_of_blockEnd counted
  have separator := Reader.le_of_blockEnd separated
  have first : (freshRepetition countEnd separatorEnd contentEnd limit).Leads Q :=
    ⟨block (separatorEnd + 1) contentEnd _ (by omega) contained,
      block (countEnd + 1) separatorEnd _ (by omega) separated⟩
  exact { h with repetitions := List.forall_mem_cons.mpr ⟨first, h.repetitions⟩ }

theorem closeBlock (h : s.Leads P Q) (index : Nat) : (s.closeBlock index).Leads P Q := by
  obtain ⟨kept, _⟩ := Boundary.leads_ofClose index h.repetitions
  unfold State.closeBlock
  generalize Boundary.ofClose index s.repetitions = closed at kept
  obtain ⟨boundary, repetitions⟩ := closed
  cases boundary <;> cases repetitions <;> exact ⟨h.selectors, kept⟩

/-- It is enough that what a step opens has the properties. -/
theorem moves (h : s.Leads P Q) (moved : Moves s index t)
    (selector : ∀ close, s.reader.curlyClose? (index + 1) = some close → P close)
    (block : ∀ start close construct, index < start →
      s.reader.blockEnd start construct = .ok close → Q (start + 1)) : t.Leads P Q := by
  cases moved with
  | ahead further => exact h.ahead further
  | openSelector opened => exact h.openSelector opened selector
  | slash c => exact h.slash c
  | closeSelector closed => exact h.closeSelector closed
  | openRepetition opened => exact h.openRepetition opened block
  | closeBlock => exact h.closeBlock index

end Leads

structure Beyond (p : Nat) (s : State) : Prop where
  position : p ≤ s.reader.position
  selectors : ∀ close ∈ s.selectors, p ≤ close
  repetitions : ∀ r ∈ s.repetitions, r.Beyond p

namespace Beyond

variable {p i : Nat}

theorem leads (h : Beyond p s) : s.Leads (p ≤ ·) (p ≤ ·) where
  selectors := h.selectors
  repetitions := fun r member => ⟨(h.repetitions r member).content,
    (h.repetitions r member).separator⟩

theorem of_leads (position : p ≤ s.reader.position) (h : s.Leads (p ≤ ·) (p ≤ ·)) :
    Beyond p s where
  position := position
  selectors := h.selectors
  repetitions := fun r member => ⟨(h.repetitions r member).content,
    (h.repetitions r member).separator⟩

theorem le_moveTo (h : Beyond p s) (further : p ≤ i) : p ≤ (s.reader.moveTo i).position :=
  Nat.le_min.mpr ⟨further, Nat.le_trans h.position s.reader.inside⟩

theorem moveTo (h : Beyond p s) (further : p ≤ i) : Beyond p (s.moveTo i) :=
  { h with position := h.le_moveTo further }

theorem le_closeBlock (h : Beyond p s) (index : Nat) :
    p ≤ (s.closeBlock index).reader.position := by
  obtain ⟨_, target⟩ := Boundary.leads_ofClose index h.leads.repetitions
  unfold State.closeBlock
  generalize Boundary.ofClose index s.repetitions = closed at target
  obtain ⟨boundary, repetitions⟩ := closed
  cases boundary with
  | separator position | content position =>
    cases repetitions <;> exact h.le_moveTo (target position rfl)
  | finished depth => cases repetitions <;> exact h.position
  | inside => cases repetitions <;> exact h.position

theorem le_moves (h : Beyond p s) (start : s.reader.position = index + 1)
    (moved : Moves s index t) : p ≤ t.reader.position := by
  have here := h.position
  cases moved with
  | ahead further => exact Nat.le_trans here further.position
  | openSelector opened =>
    obtain ⟨close, _, _, rfl, _, choice, _, _, rfl⟩ := openSelector_ok opened
    have option := le_start (List.get_mem _ choice)
    exact h.le_moveTo (by omega)
  | slash c =>
    unfold State.slash
    split
    · rename_i close selectors opened
      have inner := h.selectors close (by rw [opened]; exact List.mem_cons_self)
      exact h.le_moveTo (Nat.le_succ_of_le inner)
    · exact Nat.le_trans here (ahead_emitLiteral s c).position
  | closeSelector closed =>
    obtain ⟨_, _, _, rfl⟩ := closeSelector_ok closed
    exact here
  | openRepetition opened =>
    obtain ⟨countEnd, separatorEnd, _, _, _, _, counted, separated, _, _, _, rfl⟩ :=
      openRepetition_ok opened
    have count := Reader.le_of_blockEnd counted
    have separator := Reader.le_of_blockEnd separated
    exact h.le_moveTo (by omega)
  | closeBlock => exact h.le_closeBlock index

theorem moves (h : Beyond p s) (start : s.reader.position = index + 1) (moved : Moves s index t) :
    Beyond p t := by
  have here := h.position
  refine of_leads (h.le_moves start moved) (h.leads.moves moved ?_ ?_)
  · intro close closed
    have inner := Reader.le_of_closing? closed
    omega
  · intro opening close construct further _
    omega

theorem step (h : Beyond p s) (more : s.reader.atEnd = false) (stepped : s.step setting = .ok t) :
    Beyond p t := by
  have read : Beyond p (s.moveTo (s.reader.position + 1)) :=
    h.moveTo (Nat.le_succ_of_le h.position)
  have start := Reader.position_read more
  exact read.moves start (moves_perform start stepped)

theorem reaches (h : Beyond p s) (run : Reaches setting s t) : Beyond p t :=
  run.preserves (fun _ _ beyond more stepped => beyond.step more stepped) h

end Beyond

end State

end Phrasebook
