import Phrasebook.Proofs.Banks.Freshness
import Phrasebook.Proofs.Globals.Coherence
import Phrasebook.Proofs.Sessions.Requests

/-! Branches isolate whatever draws inside them.
The frames that wait below a branch are a suffix of the frames that wait at any later time, for as
long as the branch is not merged: draws and requests leave all waiting frames alone, and an inner
branch only adds to them. -/
namespace Phrasebook

/-- What can be done with a generator. A request comes with the phrasebook that it is made to. -/
inductive Act where
  | next
  | prev
  | below (bound : Nat)
  | range (min max : Int)
  | word
  | bytes (count : Nat)
  | setGeneration (generation : Int64)
  | branchAt (generation : Int64)
  | merge
  | reshuffleLexicon (lexicon : Lexicon) (factor : UInt32)
  | reshuffle (b : Book) (factor : UInt32)
  | answer (b : Book) (request : Request)

variable {g g' : Generator} {base : List Frame} {a : Act} {acts : List Act}

namespace Generator

/-- A draw that is refused leaves the generator as it is. -/
def after {α : Type} (g : Generator) : Except RangeError (α × Generator) → Generator
  | .ok (_, g') => g'
  | .error _ => g

def act (g : Generator) : Act → Generator
  | .next => g.next.2
  | .prev => g.prev.2
  | .below bound => g.after (g.below bound)
  | .range min max => g.after (g.range min max)
  | .word => g.word.2
  | .bytes count => (g.bytes count).2
  | .setGeneration generation => g.setGeneration generation
  | .branchAt generation => g.branchAt generation
  | .merge => g.merge
  | .reshuffleLexicon lexicon factor => g.after (lexicon.reshuffle factor g)
  | .reshuffle b factor => (b.reshuffle factor g).generator
  | .answer b request => (b.answer g request).generator

def actAll (g : Generator) (acts : List Act) : Generator := acts.foldl act g

theorem skip_words (n : Nat) (g : Generator) : (words n g).2 = g.skip n := by
  induction n generalizing g with
  | zero => exact g.skip_zero.symm
  | succ n ih =>
    change (words n (g.skip 1)).2 = _
    rw [ih, skip_skip, Nat.add_comm]

theorem skip_below {bound : Nat} {drawn : Fin bound} (h : g.below bound = .ok (drawn, g')) :
    g' = g.skip 1 := by
  unfold below at h
  split at h
  · cases h
    rfl
  · contradiction

theorem skip_range {min max drawn : Int} (h : g.range min max = .ok (drawn, g')) :
    g' = g.skip 1 := by
  unfold range at h
  split at h
  · cases h
    rfl
  · contradiction

end Generator

namespace Lexicon

theorem skip_reshuffle {l fresh : Lexicon} {factor : UInt32}
    (h : l.reshuffle factor g = .ok (fresh, g')) : ∃ n, g' = g.skip n := by
  rw [reshuffle_eq] at h
  cases h
  exact ⟨_, rfl⟩

end Lexicon

namespace Book

theorem skip_reshuffleAll {factor : UInt32} {lexicons fresh : List (Char × Lexicon)}
    (h : reshuffleAll factor lexicons g = .ok (fresh, g')) : ∃ n, g' = g.skip n := by
  induction lexicons generalizing g fresh with
  | nil =>
    cases h
    exact ⟨0, (Generator.skip_zero _).symm⟩
  | cons entry lexicons ih =>
    obtain ⟨⟨_, g₁⟩, one, h⟩ := bind_eq_ok.mp h
    obtain ⟨⟨_, g₂⟩, others, h⟩ := bind_eq_ok.mp h
    cases h
    obtain ⟨m, rfl⟩ := Lexicon.skip_reshuffle one
    obtain ⟨n, rfl⟩ := ih others
    exact ⟨m + n, g.skip_skip m n⟩

theorem skip_reshuffle (b : Book) (factor : UInt32) (g : Generator) :
    ∃ n, (b.reshuffle factor g).generator = g.skip n := by
  unfold reshuffle
  split
  · exact ⟨0, g.skip_zero.symm⟩
  · rename_i shuffled
    exact skip_reshuffleAll shuffled

/-- A request moves the generator by the draws that it makes, and does nothing else to it. -/
theorem generator_answer (b : Book) (g : Generator) (request : Request) :
    (b.answer g request).generator = g.skip (b.draws g request) := by
  cases answered b g request with
  | expansion text asked =>
    subst asked
    exact g.skip_zero.symm
  | pass p single _ generator same =>
    obtain ⟨_, moved, _⟩ := run_frame p
    rw [draws, single, same]
    dsimp only [Reply.map]
    rw [moved, generator, Generator.skip_skip]
    simp
  | refusal e none_ _ same =>
    rw [draws, none_, same]
    simp
  | globals asked =>
    subst asked
    have accounts := accounts_assignGlobals b g
    change (b.assignGlobals g).generator = _
    rw [accounts.generator, draws, passes, List.map_map]
    simp [pickingDraws]
    rfl

example : (ofGlossary .empty).draws (Generator.ofSeed 7 0)
    (.interpret "{a/b}*7{c/d}50%[e]") = 2 := by
  decide +kernel

end Book

namespace Generator

theorem waiting_skip {n : Nat} (h : g' = g.skip n) : g'.waiting = g.waiting := by
  rw [h]
  rfl

theorem waiting_after {α : Type} {drawn : Except RangeError (α × Generator)}
    (h : ∀ a g', drawn = .ok (a, g') → ∃ n, g' = g.skip n) :
    (g.after drawn).waiting = g.waiting := by
  cases drawn with
  | error _ => rfl
  | ok result =>
    obtain ⟨a, g'⟩ := result
    obtain ⟨n, moved⟩ := h a g' rfl
    exact waiting_skip moved

/-- Only branching and merging change which frames wait. -/
theorem waiting_act (g : Generator) (merging : a ≠ .merge)
    (branching : ∀ generation, a ≠ .branchAt generation) :
    (g.act a).waiting = g.waiting := by
  cases a with
  | merge => contradiction
  | branchAt generation => exact absurd rfl (branching generation)
  | next | prev | word | setGeneration => rfl
  | below bound => exact waiting_after fun _ _ drawn => ⟨1, skip_below drawn⟩
  | range min max => exact waiting_after fun _ _ drawn => ⟨1, skip_range drawn⟩
  | bytes count => exact waiting_skip (skip_words _ g)
  | reshuffleLexicon lexicon factor =>
    exact waiting_after fun _ _ shuffled => Lexicon.skip_reshuffle shuffled
  | reshuffle b factor =>
    obtain ⟨n, moved⟩ := b.skip_reshuffle factor g
    exact waiting_skip moved
  | answer b request => exact waiting_skip (b.generator_answer g request)

theorem suffix_act (kept : base <:+ g.waiting)
    (deep : base.length ≤ (g.act a).waiting.length) : base <:+ (g.act a).waiting := by
  by_cases merging : a = .merge
  · subst merging
    change base <:+ g.merge.waiting
    change base.length ≤ g.merge.waiting.length at deep
    unfold merge at deep ⊢
    split
    · exact kept
    · rename_i below waiting frames
      rw [frames] at kept deep
      rcases List.suffix_cons_iff.mp kept with rfl | further
      · exact absurd deep (Nat.not_succ_le_self _)
      · exact further
  · by_cases branching : ∃ generation, a = .branchAt generation
    · obtain ⟨generation, rfl⟩ := branching
      exact kept.trans (List.suffix_cons g.active g.waiting)
    · rw [waiting_act g merging fun generation same => branching ⟨generation, same⟩]
      exact kept

theorem suffix_actAll (kept : base <:+ g.waiting)
    (deep : ∀ n ≤ acts.length, base.length ≤ (g.actAll (acts.take n)).waiting.length) :
    base <:+ (g.actAll acts).waiting := by
  induction acts generalizing g with
  | nil => exact kept
  | cons a acts ih =>
    apply ih (g := g.act a)
    · exact suffix_act kept (deep 1 (Nat.succ_le_succ (Nat.zero_le _)))
    · intro n le
      exact deep (n + 1) (Nat.succ_le_succ le)

theorem merge_actAll (g : Generator) (start : Int64) (acts : List Act)
    (deep : ∀ n ≤ acts.length, g.depth < ((g.branchAt start).actAll (acts.take n)).depth)
    (back : ((g.branchAt start).actAll acts).depth = g.depth + 1) :
    ((g.branchAt start).actAll acts).merge = g := by
  have kept : g.active :: g.waiting <:+ ((g.branchAt start).actAll acts).waiting := by
    apply suffix_actAll
    · exact List.suffix_refl _
    · intro n le
      exact Nat.le_of_lt_succ (deep n le)
  have same := kept.eq_of_length (Nat.succ.inj back).symm
  rw [merge, ← same]

/-- A branch isolates: whatever is done on it, merging it at its own depth gives back the generator
that was branched. And a request alone moves the active frame by its draws, and nothing else. -/
theorem branch_isolates :
    (∀ (g : Generator) (start : Int64) (acts : List Act),
      (∀ n ≤ acts.length, g.depth < ((g.branchAt start).actAll (acts.take n)).depth) →
      ((g.branchAt start).actAll acts).depth = g.depth + 1 →
      ((g.branchAt start).actAll acts).merge = g) ∧
    ∀ (b : Book) (g : Generator) (request : Request),
      (b.answer g request).generator.depth = g.depth ∧
        (b.answer g request).generator.waiting = g.waiting ∧
        (b.answer g request).generator.seed = g.seed ∧
        (b.answer g request).generator.generation =
          g.generation + Int64.ofNat (b.draws g request) := by
  refine ⟨merge_actAll, ?_⟩
  intro b g request
  rw [b.generator_answer g request]
  exact ⟨rfl, rfl, rfl, rfl⟩

/-- An inner branch, a run with a draw, and a new generation. -/
def errand : List Act :=
  [.next, .branchAt 5, .prev, .merge, .answer (Book.ofGlossary .empty) (.interpret "{a/b}"),
    .setGeneration 9]

theorem branch_isolates_errand :
    (((ofSeed 7 3).branchAt 0).actAll errand).generation = 9 ∧
      (((ofSeed 7 3).branchAt 0).actAll errand).merge = ofSeed 7 3 := by
  refine ⟨rfl, ?_⟩
  exact branch_isolates.1 (ofSeed 7 3) 0 errand (by decide +kernel) (by decide +kernel)

end Generator

end Phrasebook
