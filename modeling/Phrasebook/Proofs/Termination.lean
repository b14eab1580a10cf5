import Phrasebook.Proofs.Overfull
import Phrasebook.Proofs.Safety.Soundness
import Phrasebook.Proofs.Steps

/-! Every run ends.
The potential of a state bounds the steps that can follow it, whatever its brackets, selectors and
repetitions; the start has no more of it than its text can pay for. -/
namespace Phrasebook.State

variable {setting : Setting} {s t : State}

theorem potential_of_steps {n : Nat} (h : Steps setting n s t) :
    t.potential + n ≤ s.potential := by
  induction h with
  | refl => exact Nat.le_refl _
  | step more stepped _ ih =>
    have lower := potential_step more stepped
    omega

theorem potential_pos (s : State) : 0 < s.potential := by
  have := reach_pos s.reader.text.size s.reader.position
  unfold potential
  omega

theorem exists_halted (setting : Setting) (s : State) :
    ∃ n t, Steps setting n s t ∧ Halted setting t := by
  induction measured : s.potential using Nat.strongRecOn generalizing s with
  | ind m ih =>
    cases more : s.reader.atEnd with
    | true => exact ⟨0, s, .refl s, .inl more⟩
    | false =>
      cases stepped : s.step setting with
      | error stop => exact ⟨0, s, .refl s, .inr ⟨stop, stepped⟩⟩
      | ok t =>
        have lower := potential_step more stepped
        obtain ⟨n, u, rest, halted⟩ := ih t.potential (by omega) t rfl
        exact ⟨n + 1, u, .step more stepped rest, halted⟩

theorem potential_start (text : List Char) (flags : Flags) (g : Generator) :
    (start text flags g).potential = (2 ^ 34) ^ text.length := by
  simp [potential, pending, start, Reader.ofList, reach, selectorsWorth, repetitionsWorth]

/-- Every run comes to the end of its text, to a fault or to a choice that is refused, within a
number of steps that its text alone limits. No sequence of steps is longer, and what the run leaves
is the state reached. With less than 2 ^ 32 characters and words no choice is refused. -/
theorem run_ends (setting : Setting) (text : List Char) (flags : Flags) (g : Generator) :
    ∃ n s, n < (2 ^ 34) ^ text.length ∧ Steps setting n (start text flags g) s ∧
      (∀ m t, Steps setting m (start text flags g) t → m ≤ n) ∧
      ((s.reader.atEnd = true ∧ (start text flags g).finish setting = (s, none)) ∨
        (∃ cause index, s.step setting = .error (.fault cause index) ∧
          (start text flags g).finish setting = (s, some (.fault cause index))) ∨
        s.Overfull setting ∧ s.step setting = .error (.draw .zeroBound) ∧
          (start text flags g).finish setting = (s, some (.draw .zeroBound))) ∧
      (text.length < 2 ^ 32 → setting.Stocked →
        (∀ (symbol : Char) (lexicon : Lexicon), setting.lexicons[symbol]? = some lexicon →
          lexicon.words.length < 2 ^ 32) → ¬ s.Overfull setting) := by
  obtain ⟨n, s, steps, halted⟩ := exists_halted setting (start text flags g)
  refine ⟨n, s, ?_, steps, fun m t part => steps.le_of_halted halted part, ?_, ?_⟩
  · have spent := potential_of_steps steps
    have left := potential_pos s
    rw [potential_start] at spent
    omega
  · rw [finish_of_reaches ⟨n, steps⟩]
    cases more : s.reader.atEnd with
    | true => exact .inl ⟨rfl, finish_of_atEnd more⟩
    | false =>
      rcases halted with ended | ⟨stop, stopped⟩
      · rw [ended] at more
        contradiction
      · cases stop with
        | fault cause index =>
          exact .inr (.inl ⟨cause, index, stopped, finish_of_stop more stopped⟩)
        | draw cause =>
          obtain ⟨rfl, full⟩ := step_eq_draw_iff.mp stopped
          exact .inr (.inr ⟨full, stopped, finish_of_stop more stopped⟩)
  · intro short stocked few
    have sound := (Sound.start text flags g).reaches ⟨n, steps⟩
    apply not_overfull _ stocked few
    rwa [sound.unchanged, List.size_toArray]

end Phrasebook.State
