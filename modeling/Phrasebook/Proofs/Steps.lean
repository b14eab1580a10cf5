import Phrasebook.Evaluation.Run

/-! Runs as sequences of steps.
A step is a function of the state, so from one state there is one run, and all the sequences of
steps from it are beginnings of that run. -/
namespace Phrasebook.State

/-- So many steps lead from one state to another. Where the text has ended there are none. -/
inductive Steps (setting : Setting) : Nat → State → State → Prop where
  | refl (s : State) : Steps setting 0 s s
  | step {n : Nat} {s t u : State} (more : s.reader.atEnd = false)
      (stepped : s.step setting = .ok t) (rest : Steps setting n t u) : Steps setting (n + 1) s u

def Reaches (setting : Setting) (s t : State) : Prop := ∃ n, Steps setting n s t

/-- Nothing more happens: the text has ended, or the next step stops the run. -/
def Halted (setting : Setting) (s : State) : Prop :=
  s.reader.atEnd = true ∨ ∃ stop, s.step setting = .error stop

variable {setting : Setting} {s t u : State}

theorem Reaches.refl (s : State) : Reaches setting s s := ⟨0, .refl s⟩

theorem Steps.trans {m n : Nat} (h : Steps setting m s t) (h' : Steps setting n t u) :
    Steps setting (m + n) s u := by
  induction h with
  | refl => simpa using h'
  | @step k s t _ more stepped _ ih =>
    have e : k + 1 + n = (k + n) + 1 := by omega
    rw [e]
    exact .step more stepped (ih h')

theorem Reaches.trans (h : Reaches setting s t) (h' : Reaches setting t u) :
    Reaches setting s u := by
  obtain ⟨m, hm⟩ := h
  obtain ⟨n, hn⟩ := h'
  exact ⟨m + n, hm.trans hn⟩

theorem Reaches.head (more : s.reader.atEnd = false) (stepped : s.step setting = .ok t)
    (rest : Reaches setting t u) : Reaches setting s u := by
  obtain ⟨n, hn⟩ := rest
  exact ⟨n + 1, .step more stepped hn⟩

theorem Reaches.one (more : s.reader.atEnd = false) (stepped : s.step setting = .ok t) :
    Reaches setting s t :=
  .head more stepped (.refl t)

theorem Reaches.preserves {P : State → Prop} (h : Reaches setting s t)
    (kept : ∀ u v, P u → u.reader.atEnd = false → u.step setting = .ok v → P v) (start : P s) :
    P t := by
  obtain ⟨n, hn⟩ := h
  induction hn with
  | refl => exact start
  | step more stepped _ ih => exact ih (kept _ _ start more stepped)

/-- Of two states that a run reaches, one is reached from the other. -/
theorem Reaches.linear (h : Reaches setting s t) (h' : Reaches setting s u) :
    Reaches setting t u ∨ Reaches setting u t := by
  obtain ⟨m, hm⟩ := h
  induction hm with
  | refl s => exact .inl h'
  | step more stepped rest ih =>
    obtain ⟨n, hn⟩ := h'
    cases hn with
    | refl => exact .inr ⟨_, .step more stepped rest⟩
    | step _ stepped' rest' =>
      rw [stepped] at stepped'
      cases stepped'
      exact ih ⟨_, rest'⟩

/-- The state that so many steps lead to, if the run gets so far. -/
def advance? (setting : Setting) : Nat → State → Option State
  | 0, s => some s
  | n + 1, s =>
    if s.reader.atEnd then none else (s.step setting).toOption.bind (advance? setting n)

theorem reaches_of_advance? {n : Nat} (h : advance? setting n s = some t) :
    Reaches setting s t := by
  induction n generalizing s with
  | zero =>
    cases h
    exact .refl _
  | succ n ih =>
    rw [advance?] at h
    split at h
    · contradiction
    · rename_i more
      obtain ⟨u, stepped, rest⟩ := Option.bind_eq_some_iff.mp h
      exact .head (by simpa using more) (toOption_eq_some.mp stepped) (ih rest)

theorem Steps.le_of_halted {m n : Nat} (whole : Steps setting n s u) (halted : Halted setting u)
    (part : Steps setting m s t) : m ≤ n := by
  induction whole generalizing m with
  | refl s =>
    cases part with
    | refl => exact Nat.le_refl 0
    | step more stepped _ =>
      rcases halted with ended | ⟨stop, stopped⟩
      · rw [ended] at more
        contradiction
      · rw [stopped] at stepped
        contradiction
  | step _ stepped _ ih =>
    cases part with
    | refl => exact Nat.zero_le _
    | step _ stepped' rest =>
      rw [stepped] at stepped'
      cases stepped'
      exact Nat.succ_le_succ (ih halted rest)

theorem finish_of_step (more : s.reader.atEnd = false) (stepped : s.step setting = .ok t) :
    s.finish setting = t.finish setting := by
  rw [finish, dif_neg (by simp [more])]
  split
  · rename_i stopped
    rw [stepped] at stopped
    contradiction
  · rename_i stepped'
    rw [stepped] at stepped'
    cases stepped'
    rfl

theorem finish_of_reaches (h : Reaches setting s t) : s.finish setting = t.finish setting := by
  obtain ⟨n, hn⟩ := h
  induction hn with
  | refl => rfl
  | step more stepped _ ih => exact (finish_of_step more stepped).trans ih

theorem finish_of_atEnd (ended : s.reader.atEnd = true) : s.finish setting = (s, none) := by
  rw [finish, dif_pos ended]

theorem finish_of_stop {stop : Stop} (more : s.reader.atEnd = false)
    (stopped : s.step setting = .error stop) : s.finish setting = (s, some stop) := by
  rw [finish, dif_neg (by simp [more])]
  split
  · rename_i stopped'
    rw [stopped] at stopped'
    cases stopped'
    rfl
  · rename_i stepped
    rw [stopped] at stepped
    contradiction

theorem evaluate_of_reaches {text : List Char} {flags : Flags} {g : Generator}
    (reached : Reaches setting (start text flags g) s) (ended : s.reader.atEnd = true) :
    evaluate setting text flags g =
      { result := .ok s.streams.finish
        flags := s.globalFlags
        warnings := s.warnings.reverse
        generator := s.generator } := by
  rw [evaluate, finish_of_reaches reached, finish_of_atEnd ended]

theorem evaluate_of_stopped {text : List Char} {flags : Flags} {g : Generator} {stop : Stop}
    (reached : Reaches setting (start text flags g) s) (more : s.reader.atEnd = false)
    (stopped : s.step setting = .error stop) :
    evaluate setting text flags g =
      { result := .error stop
        flags := s.globalFlags
        warnings := s.warnings.reverse
        generator := s.generator } := by
  rw [evaluate, finish_of_reaches reached, finish_of_stop more stopped]

end Phrasebook.State
