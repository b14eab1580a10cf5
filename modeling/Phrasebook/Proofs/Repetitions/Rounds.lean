import Phrasebook.Evaluation.Potential
import Phrasebook.Proofs.Draws
import Phrasebook.Proofs.Steps

/-! The rounds of the open repetitions.
A ledger keeps, beside each repetition that was opened, the blocks that have ended in it since. It
follows whatever order the brackets come in, and shows that the counts and phases of the open
repetitions are those of their histories: contents with one separator between each two, if there is
a separator, and an end with the last content. What a run has open is always in such a ledger. -/
namespace Phrasebook

inductive RoundBlock where
  | content
  | separator
deriving Repr, DecidableEq

namespace Repetition

/-- The block that a closing bracket ends, if the repetition is the innermost one. -/
def ended? (r : Repetition) (index : Nat) : Option RoundBlock :=
  if r.onSeparator then if index = r.separatorEnd then some .separator else none
  else if index = r.contentEnd then some .content else none

/-- What has to end between one content and the next. -/
def between (r : Repetition) : List RoundBlock :=
  if r.separatorStart < r.separatorEnd then [.separator] else []

/-- A repetition before its first round. -/
structure Fresh (r : Repetition) : Prop where
  positive : 0 < r.limit.toNat
  done : r.done = 0
  onContent : r.onSeparator = false

theorem ended?_eq_content {r : Repetition} {index : Nat} (h : r.ended? index = some .content) :
    r.onSeparator = false ∧ index = r.contentEnd := by
  unfold ended? at h
  cases phase : r.onSeparator <;> simp_all

theorem ended?_eq_separator {r : Repetition} {index : Nat} (h : r.ended? index = some .separator) :
    r.onSeparator = true ∧ index = r.separatorEnd := by
  unfold ended? at h
  cases phase : r.onSeparator <;> simp_all

end Repetition

/-- A closing bracket by the block that it ends in the innermost repetition. -/
theorem Boundary.ofClose_cons (index : Nat) (r : Repetition) (outer : List Repetition) :
    ofClose index (r :: outer) = match r.ended? index with
      | none => (.inside, r :: outer)
      | some .separator => (.content r.contentStart, { r with onSeparator := false } :: outer)
      | some .content =>
        if r.limit.toNat ≤ r.done + 1 then (.finished (outer.length + 1), outer)
        else if r.separatorStart < r.separatorEnd then
          (.separator r.separatorStart, { r with done := r.done + 1, onSeparator := true } :: outer)
        else (.content r.contentStart, { r with done := r.done + 1 } :: outer) := by
  unfold ofClose Repetition.ended?
  cases phase : r.onSeparator with
  | true => by_cases here : index = r.separatorEnd <;> simp [here, phase]
  | false => by_cases here : index = r.contentEnd <;> simp [here, phase]

/-- A repetition with the blocks that have ended in it, the first one first. -/
structure Account where
  repetition : Repetition
  ended : List RoundBlock
deriving Repr, DecidableEq

/-- The accounts of the open repetitions, innermost first, and of those that are over. -/
structure Ledger where
  running : List Account
  finished : List Account
deriving Repr, DecidableEq

inductive RoundEvent where
  | opened (r : Repetition)
  | closed (index : Nat)
deriving Repr, DecidableEq

/-- The open repetitions after an event, innermost first. -/
def RoundEvent.perform (stack : List Repetition) : RoundEvent → List Repetition
  | .opened r => r :: stack
  | .closed index => (Boundary.ofClose index stack).2

def openAfter (events : List RoundEvent) : List Repetition := events.foldl RoundEvent.perform []

namespace Ledger

def stack (l : Ledger) : List Repetition := l.running.map Account.repetition

/-- A closing bracket is entered for the innermost repetition, whose account is closed if the
bracket ends it. -/
def close (l : Ledger) (index : Nat) : Ledger :=
  match l.running with
  | [] => l
  | a :: outer =>
    let ended := a.ended ++ (a.repetition.ended? index).toList
    match Boundary.ofClose index l.stack with
    | (.finished _, _) | (_, []) => ⟨outer, ⟨a.repetition, ended⟩ :: l.finished⟩
    | (_, r :: _) => ⟨⟨r, ended⟩ :: outer, l.finished⟩

def enter (l : Ledger) : RoundEvent → Ledger
  | .opened r => { l with running := ⟨r, []⟩ :: l.running }
  | .closed index => l.close index

def after (events : List RoundEvent) : Ledger := events.foldl enter ⟨[], []⟩

end Ledger

/-- So many contents, each with what has to end behind it. -/
def rounds (gap : List RoundBlock) : Nat → List RoundBlock
  | 0 => []
  | n + 1 => .content :: (gap ++ rounds gap n)

section rounds

variable {gap front middle back last : List RoundBlock} {n : Nat}

theorem rounds_succ (gap : List RoundBlock) (n : Nat) :
    rounds gap (n + 1) = rounds gap n ++ .content :: gap := by
  induction n with
  | zero => simp [rounds]
  | succ n ih =>
    change .content :: (gap ++ rounds gap (n + 1)) = .content :: (gap ++ rounds gap n) ++ _
    rw [ih, List.cons_append, List.append_assoc]

theorem count_rounds (free : .content ∉ gap) : (rounds gap n).count .content = n := by
  induction n with
  | zero => rfl
  | succ n ih =>
    rw [rounds, List.count_cons_self, List.count_append, ih, List.count_eq_zero_of_not_mem free,
      Nat.zero_add]

theorem takeWhile_content (free : .content ∉ middle) :
    (middle ++ .content :: back).takeWhile (· != .content) = middle := by
  have other : ∀ b ∈ middle, (b != .content) = true := by
    intro b member
    rw [bne_iff_ne]
    rintro rfl
    exact free member
  rw [List.takeWhile_append_of_pos other, List.takeWhile_cons_of_neg (by decide), List.append_nil]

/-- Between one content and the next stands the gap. -/
theorem gap_of_rounds (free : .content ∉ gap) (free' : .content ∉ middle)
    (h : front ++ .content :: (middle ++ .content :: back) = rounds gap n) : middle = gap := by
  induction n generalizing front with
  | zero => simp [rounds] at h
  | succ n ih =>
    rw [rounds] at h
    cases front with
    | nil =>
      have rest := (List.cons.inj h).2
      cases n with
      | zero =>
        rw [rounds, List.append_nil] at rest
        rw [← rest] at free
        exact absurd (List.mem_append_right _ List.mem_cons_self) free
      | succ n =>
        have cut : middle ++ .content :: back = gap ++ .content :: (gap ++ rounds gap n) := rest
        rw [← takeWhile_content free', cut, takeWhile_content free]
    | cons b front =>
      have rest := (List.cons.inj h).2
      -- The content before the middle would be part of the gap, or it belongs to a later round.
      rcases List.append_eq_append_iff.mp rest with ⟨inner, whole, split⟩ | ⟨inner, rfl, split⟩
      · cases inner with
        | nil => exact @ih [] split
        | cons b' inner =>
          obtain ⟨rfl, _⟩ := List.cons.inj split
          rw [whole] at free
          exact absurd (List.mem_append_right _ List.mem_cons_self) free
      · exact ih split.symm

end rounds

theorem Repetition.content_not_mem_between (r : Repetition) : .content ∉ r.between := by
  unfold between
  split <;> decide

namespace Account

/-- Two contents that end one after the other have one end of the separator between them, or none
if the separator is empty. -/
def Alternates (a : Account) : Prop :=
  ∀ front middle back, a.ended = front ++ .content :: (middle ++ .content :: back) →
    .content ∉ middle → middle = a.repetition.between

/-- The count and the phase of an open repetition are those of its history. -/
structure Running (a : Account) : Prop where
  below : a.repetition.done < a.repetition.limit.toNat
  history : a.ended ++ (if a.repetition.onSeparator then [.separator] else []) =
    rounds a.repetition.between a.repetition.done
  phase : a.repetition.onSeparator = true →
    1 ≤ a.repetition.done ∧ a.repetition.separatorStart < a.repetition.separatorEnd

/-- A repetition that is over has had all its contents, and nothing behind the last one. -/
structure Finished (a : Account) : Prop where
  positive : 0 < a.repetition.limit.toNat
  history : a.ended ++ a.repetition.between =
    rounds a.repetition.between a.repetition.limit.toNat

variable {a : Account}

theorem alternates_of_append {rest : List RoundBlock} {n : Nat}
    (h : a.ended ++ rest = rounds a.repetition.between n) : a.Alternates := by
  intro front middle back split free
  rw [split, List.append_assoc, List.cons_append, List.append_assoc, List.cons_append] at h
  exact gap_of_rounds a.repetition.content_not_mem_between free h

theorem Running.count (h : a.Running) : a.ended.count .content = a.repetition.done := by
  have pending : (if a.repetition.onSeparator then [RoundBlock.separator] else []).count .content
      = 0 := by
    split <;> rfl
  rw [← count_rounds (n := a.repetition.done) a.repetition.content_not_mem_between, ← h.history,
    List.count_append, pending, Nat.add_zero]

/-- The history of a repetition that is over ends with its last content. -/
theorem Finished.ended_eq (h : a.Finished) : a.ended =
    rounds a.repetition.between (a.repetition.limit.toNat - 1) ++ [.content] := by
  have history := h.history
  have positive := h.positive
  rw [show a.repetition.limit.toNat = a.repetition.limit.toNat - 1 + 1 by omega, rounds_succ,
    ← List.singleton_append, ← List.append_assoc] at history
  exact List.append_cancel_right history

theorem Finished.count (h : a.Finished) : a.ended.count .content = a.repetition.limit.toNat := by
  have positive := h.positive
  rw [h.ended_eq, List.count_append, count_rounds a.repetition.content_not_mem_between]
  simp only [List.count_singleton_self]
  omega

theorem Running.opened {r : Repetition} (fresh : r.Fresh) : Running ⟨r, []⟩ where
  below := by
    rw [fresh.done]
    exact fresh.positive
  history := by
    rw [fresh.onContent, fresh.done]
    rfl
  phase := by
    intro separator
    rw [fresh.onContent] at separator
    contradiction

theorem Running.separatorEnded {index : Nat} (h : a.Running)
    (ends : a.repetition.ended? index = some .separator) :
    Running ⟨{ a.repetition with onSeparator := false }, a.ended ++ [.separator]⟩ where
  below := h.below
  history := by
    have history := h.history
    rw [(Repetition.ended?_eq_separator ends).1, if_pos rfl] at history
    exact (List.append_nil _).trans history
  phase := by simp

/-- With one more content the history has one more round, but for the separator that may follow. -/
theorem Running.contentEnded {index : Nat} (h : a.Running)
    (ends : a.repetition.ended? index = some .content) :
    a.ended ++ [.content] ++ a.repetition.between =
      rounds a.repetition.between (a.repetition.done + 1) := by
  have history := h.history
  rw [(Repetition.ended?_eq_content ends).1, if_neg Bool.false_ne_true, List.append_nil] at history
  rw [rounds_succ, ← history, List.append_assoc, List.singleton_append]

theorem Running.onSeparator {index : Nat} (h : a.Running)
    (ends : a.repetition.ended? index = some .content)
    (more : a.repetition.done + 1 < a.repetition.limit.toNat)
    (separated : a.repetition.separatorStart < a.repetition.separatorEnd) :
    Running ⟨{ a.repetition with done := a.repetition.done + 1, onSeparator := true },
      a.ended ++ [.content]⟩ where
  below := more
  history := by
    have history := h.contentEnded ends
    rwa [Repetition.between, if_pos separated] at history ⊢
  phase := fun _ => ⟨Nat.le_add_left 1 _, separated⟩

theorem Running.onContent {index : Nat} (h : a.Running)
    (ends : a.repetition.ended? index = some .content)
    (more : a.repetition.done + 1 < a.repetition.limit.toNat)
    (unseparated : ¬ a.repetition.separatorStart < a.repetition.separatorEnd) :
    Running ⟨{ a.repetition with done := a.repetition.done + 1 }, a.ended ++ [.content]⟩ where
  below := more
  history := by
    have history := h.contentEnded ends
    rw [Repetition.between, if_neg unseparated] at history ⊢
    rwa [(Repetition.ended?_eq_content ends).1]
  phase := by
    rw [(Repetition.ended?_eq_content ends).1]
    intro separator
    contradiction

theorem Running.finishes {index : Nat} (h : a.Running)
    (ends : a.repetition.ended? index = some .content)
    (last : a.repetition.limit.toNat ≤ a.repetition.done + 1) :
    Finished ⟨a.repetition, a.ended ++ [.content]⟩ where
  positive := Nat.zero_lt_of_lt h.below
  history := by
    have below := h.below
    have whole : a.repetition.done + 1 = a.repetition.limit.toNat := by omega
    rw [← whole]
    exact h.contentEnded ends

end Account

namespace Ledger

variable {l : Ledger} {a : Account} {outer : List Account} {index : Nat}

/-- Every account of the ledger is in order. -/
structure Sound (l : Ledger) : Prop where
  running : ∀ a ∈ l.running, a.Running
  finished : ∀ a ∈ l.finished, a.Finished

theorem close_eq (h : l.running = a :: outer) (index : Nat) :
    l.close index = match a.repetition.ended? index with
      | none => l
      | some .separator =>
        ⟨⟨{ a.repetition with onSeparator := false }, a.ended ++ [.separator]⟩ :: outer, l.finished⟩
      | some .content =>
        if a.repetition.limit.toNat ≤ a.repetition.done + 1 then
          ⟨outer, ⟨a.repetition, a.ended ++ [.content]⟩ :: l.finished⟩
        else if a.repetition.separatorStart < a.repetition.separatorEnd then
          ⟨⟨{ a.repetition with done := a.repetition.done + 1, onSeparator := true },
            a.ended ++ [.content]⟩ :: outer, l.finished⟩
        else ⟨⟨{ a.repetition with done := a.repetition.done + 1 }, a.ended ++ [.content]⟩ :: outer,
          l.finished⟩ := by
  obtain ⟨running, finished⟩ := l
  subst h
  simp only [close, stack, List.map_cons, Boundary.ofClose_cons]
  cases ends : a.repetition.ended? index with
  | none => simp
  | some block =>
    cases block with
    | separator => simp
    | content =>
      by_cases last : a.repetition.limit.toNat ≤ a.repetition.done + 1
      · simp [last]
      · by_cases separated : a.repetition.separatorStart < a.repetition.separatorEnd <;>
          simp [last, separated]

theorem stack_close (l : Ledger) (index : Nat) :
    (l.close index).stack = (Boundary.ofClose index l.stack).2 := by
  cases h : l.running with
  | nil =>
    have empty : l.stack = [] := by rw [stack, h, List.map_nil]
    rw [close, h, empty]
    rfl
  | cons a outer =>
    have whole : l.stack = a.repetition :: outer.map Account.repetition := by
      rw [stack, h, List.map_cons]
    rw [close_eq h, whole, Boundary.ofClose_cons]
    cases a.repetition.ended? index with
    | none => exact whole
    | some block =>
      cases block with
      | separator => rfl
      | content =>
        dsimp only
        split
        · rfl
        · split <;> rfl

theorem stack_enter (l : Ledger) (event : RoundEvent) :
    (l.enter event).stack = event.perform l.stack := by
  cases event with
  | opened r => rfl
  | closed index => exact stack_close l index

theorem Sound.close (h : l.Sound) (index : Nat) : (l.close index).Sound := by
  cases opened : l.running with
  | nil => rwa [Ledger.close, opened]
  | cons a outer =>
    obtain ⟨inner, others⟩ := List.forall_mem_cons.mp (opened ▸ h.running)
    rw [close_eq opened]
    cases ends : a.repetition.ended? index with
    | none => exact h
    | some block =>
      cases block with
      | separator =>
        exact ⟨List.forall_mem_cons.mpr ⟨inner.separatorEnded ends, others⟩, h.finished⟩
      | content =>
        dsimp only
        split
        · rename_i last
          exact ⟨others, List.forall_mem_cons.mpr ⟨inner.finishes ends last, h.finished⟩⟩
        · rename_i more
          have more := Nat.lt_of_not_le more
          split
          · rename_i separated
            have moved := inner.onSeparator ends more separated
            exact ⟨List.forall_mem_cons.mpr ⟨moved, others⟩, h.finished⟩
          · rename_i unseparated
            have moved := inner.onContent ends more unseparated
            exact ⟨List.forall_mem_cons.mpr ⟨moved, others⟩, h.finished⟩

theorem Sound.enter (h : l.Sound) {event : RoundEvent}
    (fresh : ∀ r, event = .opened r → r.Fresh) : (l.enter event).Sound := by
  cases event with
  | opened r => exact ⟨List.forall_mem_cons.mpr ⟨.opened (fresh r rfl), h.running⟩, h.finished⟩
  | closed index => exact h.close index

theorem sound_foldl {events : List RoundEvent} (fresh : ∀ r, .opened r ∈ events → r.Fresh)
    (h : l.Sound) : (events.foldl enter l).Sound ∧
      (events.foldl enter l).stack = events.foldl RoundEvent.perform l.stack := by
  induction events generalizing l with
  | nil => exact ⟨h, rfl⟩
  | cons event events ih =>
    have first : (l.enter event).Sound := h.enter fun r same => fresh r (same ▸ List.mem_cons_self)
    rw [List.foldl_cons, List.foldl_cons, ← stack_enter]
    exact ih (fun r member => fresh r (List.mem_cons_of_mem _ member)) first

theorem sound_after {events : List RoundEvent} (fresh : ∀ r, .opened r ∈ events → r.Fresh) :
    (after events).Sound ∧ (after events).stack = openAfter events :=
  sound_foldl fresh ⟨fun _ member => absurd member List.not_mem_nil,
    fun _ member => absurd member List.not_mem_nil⟩

end Ledger

/-- The repetitions are those that some events leave open. -/
def LeftOpen (repetitions : List Repetition) : Prop :=
  ∃ events, (∀ r, .opened r ∈ events → r.Fresh) ∧ openAfter events = repetitions

theorem LeftOpen.perform {repetitions : List Repetition} {event : RoundEvent}
    (h : LeftOpen repetitions) (fresh : ∀ r, event = .opened r → r.Fresh) :
    LeftOpen (event.perform repetitions) := by
  obtain ⟨events, earlier, rfl⟩ := h
  refine ⟨events ++ [event], ?_, List.foldl_append⟩
  intro r member
  rcases List.mem_append.mp member with before | last
  · exact earlier r before
  · exact fresh r (List.mem_singleton.mp last).symm

namespace State

variable {setting : Setting} {s t : State} {index : Nat}

theorem repetitions_closeBlock (s : State) (index : Nat) :
    (s.closeBlock index).repetitions = (Boundary.ofClose index s.repetitions).2 := by
  unfold closeBlock
  generalize Boundary.ofClose index s.repetitions = closed
  obtain ⟨boundary, repetitions⟩ := closed
  cases boundary <;> cases repetitions <;> rfl

/-- A step leaves the repetitions alone, or it opens one, or it shows them a bracket. -/
theorem Moves.leftOpen (moved : Moves s index t) (h : LeftOpen s.repetitions) :
    LeftOpen t.repetitions := by
  cases moved with
  | ahead further => rwa [further.repetitions]
  | openSelector opened =>
    obtain ⟨_, _, _, _, _, _, _, _, rfl⟩ := openSelector_ok opened
    exact h
  | slash c =>
    unfold State.slash
    split
    · exact h
    · rwa [(ahead_emitLiteral s c).repetitions]
  | closeSelector closed =>
    obtain ⟨_, _, _, rfl⟩ := closeSelector_ok closed
    exact h
  | openRepetition opened =>
    obtain ⟨countEnd, separatorEnd, contentEnd, _, limit, _, _, _, _, parsed, drawn, rfl⟩ :=
      openRepetition_ok opened
    have fresh : (freshRepetition countEnd separatorEnd contentEnd limit).Fresh :=
      ⟨Count.draw_pos parsed drawn, rfl, rfl⟩
    exact h.perform fun r same => RoundEvent.opened.inj same ▸ fresh
  | closeBlock =>
    rw [repetitions_closeBlock]
    have shown : LeftOpen (RoundEvent.perform s.repetitions (.closed index)) := h.perform nofun
    exact shown

/-- The repetitions that a run has open have accounts, and these are in order. -/
theorem exists_accounts {text : List Char} {flags : Flags} {generator : Generator}
    (run : Reaches setting (start text flags generator) t) :
    ∃ l : Ledger, l.Sound ∧ l.stack = t.repetitions := by
  have leftOpen : LeftOpen t.repetitions := by
    refine run.preserves (P := fun u => LeftOpen u.repetitions) ?_ ⟨[], nofun, rfl⟩
    intro u v open' more stepped
    exact (moves_perform (Reader.position_read more) stepped).leftOpen open'
  obtain ⟨events, fresh, same⟩ := leftOpen
  obtain ⟨sound, stack⟩ := Ledger.sound_after fresh
  exact ⟨_, sound, stack.trans same⟩

end State

/-- A closing bracket means nothing to the innermost repetition, or ends it, or moves it on. -/
theorem Boundary.ofClose_outcome (index : Nat) (r : Repetition) (outer : List Repetition) :
    (r.ended? index = none ∧ ofClose index (r :: outer) = (.inside, r :: outer)) ∨
      (r.ended? index = some .content ∧ r.limit.toNat ≤ r.done + 1 ∧
        ofClose index (r :: outer) = (.finished (outer.length + 1), outer)) ∨
      ∃ boundary done onSeparator,
        ofClose index (r :: outer) = (boundary, { r with done, onSeparator } :: outer) ∧
          boundary ≠ .inside ∧ (∀ depth, boundary ≠ .finished depth) ∧ r.ended? index ≠ none ∧
          (r.ended? index = some .content → r.done + 1 < r.limit.toNat) := by
  rw [ofClose_cons]
  cases r.ended? index with
  | none => exact .inl ⟨rfl, rfl⟩
  | some block =>
    cases block with
    | separator => exact .inr (.inr ⟨_, r.done, false, rfl, by simp⟩)
    | content =>
      by_cases last : r.limit.toNat ≤ r.done + 1
      · exact .inr (.inl ⟨rfl, last, if_pos last⟩)
      · have more := Nat.lt_of_not_le last
        refine .inr (.inr ?_)
        simp only [if_neg last]
        split
        · exact ⟨_, r.done + 1, true, rfl, by simpa using more⟩
        · exact ⟨_, r.done + 1, r.onSeparator, rfl, by simpa using more⟩

namespace Ledger

/-- In whatever order repetitions are opened and brackets are read, the open ones have their counts
and phases from their histories, and so have those that are over. The next bracket ends the
innermost one exactly with its last content, and of the others it changes nothing. -/
theorem rounds_exact (events : List RoundEvent) (fresh : ∀ r, .opened r ∈ events → r.Fresh) :
    (after events).stack = openAfter events ∧
      (∀ r ∈ openAfter events, r.done < r.limit.toNat ∧
        (r.onSeparator = true → 1 ≤ r.done ∧ r.separatorStart < r.separatorEnd)) ∧
      (∀ a ∈ (after events).running,
        a.ended.count .content = a.repetition.done ∧ a.Alternates) ∧
      (∀ a ∈ (after events).finished, a.ended.count .content = a.repetition.limit.toNat ∧
        a.ended.getLast? = some .content ∧ a.Alternates) ∧
      (∀ index a outer, (after events).running = a :: outer →
        ((Boundary.ofClose index (openAfter events)).1 = .inside ↔
          a.repetition.ended? index = none) ∧
        ((Boundary.ofClose index (openAfter events)).2 = (openAfter events).tail ↔
          a.repetition.ended? index = some .content ∧
            a.ended.count .content + 1 = a.repetition.limit.toNat)) ∧
      (∀ index stack, (Boundary.ofClose index stack).1 = .inside →
        (Boundary.ofClose index stack).2 = stack) ∧
      ∀ index r outer,
        Boundary.ofClose index (r :: outer) = (.finished (outer.length + 1), outer) ∨
          ∃ boundary done onSeparator, (∀ depth, boundary ≠ .finished depth) ∧
            Boundary.ofClose index (r :: outer) =
              (boundary, { r with done, onSeparator } :: outer) := by
  obtain ⟨sound, same⟩ := sound_after fresh
  refine ⟨same, ?_, ?_, ?_, ?_, ?_, ?_⟩
  · intro r member
    rw [← same, stack] at member
    obtain ⟨a, running, rfl⟩ := List.mem_map.mp member
    exact ⟨(sound.running a running).below, (sound.running a running).phase⟩
  · intro a running
    have inOrder := sound.running a running
    exact ⟨inOrder.count, Account.alternates_of_append inOrder.history⟩
  · intro a finished
    have whole := sound.finished a finished
    refine ⟨whole.count, ?_, Account.alternates_of_append whole.history⟩
    rw [whole.ended_eq, List.getLast?_concat]
  · intro index a outer running
    have inOrder := sound.running a (running ▸ List.mem_cons_self)
    have below := inOrder.below
    rw [← same, stack, running, List.map_cons, List.tail_cons, inOrder.count]
    rcases Boundary.ofClose_outcome index a.repetition (outer.map Account.repetition) with
      ⟨none, effect⟩ | ⟨content, last, effect⟩ | ⟨_, _, _, effect, moved, _, some, more⟩
    · rw [effect, none]
      exact ⟨iff_of_true rfl rfl, iff_of_false (List.cons_ne_self _ _) (fun ends => nomatch ends.1)⟩
    · rw [effect, content]
      exact ⟨iff_of_false (fun inside => nomatch inside) (fun ends => nomatch ends),
        iff_of_true rfl ⟨rfl, by omega⟩⟩
    · rw [effect]
      refine ⟨iff_of_false moved some, iff_of_false (List.cons_ne_self _ _) ?_⟩
      rintro ⟨content, last⟩
      exact absurd last (Nat.ne_of_lt (more content))
  · intro index stack inside
    cases stack with
    | nil => rfl
    | cons r outer =>
      rcases Boundary.ofClose_outcome index r outer with
        ⟨_, effect⟩ | ⟨_, _, effect⟩ | ⟨_, _, _, effect, moved, _⟩
      · rw [effect]
      · rw [effect] at inside
        contradiction
      · rw [effect] at inside
        exact absurd inside moved
  · intro index r outer
    rcases Boundary.ofClose_outcome index r outer with
      ⟨_, effect⟩ | ⟨_, _, effect⟩ | ⟨_, _, _, effect, _, goes, _⟩
    · exact .inr ⟨_, r.done, r.onSeparator, by simp, effect⟩
    · exact .inl effect
    · exact .inr ⟨_, _, _, goes, effect⟩

/-- An outer repetition with a separator and an inner one without, whose contents end at one place.
The inner one is opened while the separator of the outer one runs. -/
def sharedEnd : List RoundEvent :=
  [.opened ⟨9, 10, 5, 7, 2, 0, false⟩, .closed 10, .opened ⟨6, 10, 6, 6, 3, 0, false⟩, .closed 7,
    .closed 10, .closed 10, .closed 10, .closed 7]

theorem rounds_exact_sharedEnd :
    (∀ r, .opened r ∈ sharedEnd → r.Fresh) ∧
      (after sharedEnd).running = [⟨⟨9, 10, 5, 7, 2, 1, false⟩, [.content, .separator]⟩] ∧
      (after sharedEnd).finished =
        [⟨⟨6, 10, 6, 6, 3, 2, false⟩, [.content, .content, .content]⟩] ∧
      (after sharedEnd).stack = openAfter sharedEnd ∧
      (∀ a ∈ (after sharedEnd).finished, a.ended.count .content = a.repetition.limit.toNat ∧
        a.ended.getLast? = some .content ∧ a.Alternates) ∧
      (Boundary.ofClose 10 (openAfter sharedEnd)).2 = [] := by
  have fresh : ∀ r, .opened r ∈ sharedEnd → r.Fresh := by
    intro r member
    simp only [sharedEnd, List.mem_cons, RoundEvent.opened.injEq, reduceCtorEq, false_or,
      List.not_mem_nil, or_false] at member
    rcases member with rfl | rfl <;> exact ⟨by decide, rfl, rfl⟩
  obtain ⟨faithful, _, _, finished, next, _⟩ := rounds_exact sharedEnd fresh
  have running : (after sharedEnd).running =
      [⟨⟨9, 10, 5, 7, 2, 1, false⟩, [.content, .separator]⟩] := by decide
  exact ⟨fresh, running, by decide, faithful, finished, (next 10 _ [] running).2.mpr (by decide)⟩

end Ledger

end Phrasebook
