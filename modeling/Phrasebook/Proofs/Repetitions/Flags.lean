import Phrasebook.Proofs.Faults
import Phrasebook.Proofs.Repetitions.Marks
import Phrasebook.Proofs.Safety.Soundness

/-! The flags of the open repetitions.
Entering a repetition, moving it on and leaving it touch the flags of its own depth and no others.
A run that sets and unsets no flag by name therefore has the flags of the repetitions that are open,
each at its depth, and nothing else. -/
namespace Phrasebook

/-- The repetition sets the flag at its depth. -/
def Repetition.Sets (r : Repetition) (depth : Nat) (name : String) : Prop :=
  ∃ mark : IterationMark, r.holds mark = true ∧ name = mark.flagName depth

/-- One of the open repetitions, innermost first, sets the flag. -/
def SetByOpen : List Repetition → String → Prop
  | [], _ => False
  | r :: outer, name => r.Sets (outer.length + 1) name ∨ SetByOpen outer name

section SetByOpen

variable {repetitions outer : List Repetition} {flags : Flags} {name : String}

theorem SetByOpen.depth_le {mark : IterationMark} {depth : Nat}
    (h : SetByOpen repetitions (mark.flagName depth)) : depth ≤ repetitions.length := by
  induction repetitions with
  | nil => exact h.elim
  | cons r outer ih =>
    rw [List.length_cons]
    rcases h with ⟨_, _, same⟩ | below
    · exact Nat.le_of_eq (IterationMark.flagName_inj.mp same).2
    · exact Nat.le_succ_of_le (ih below)

/-- The union over the depths, counted from the outermost repetition. -/
theorem setByOpen_iff : SetByOpen repetitions name ↔
    ∃ (i : Nat) (r : Repetition), repetitions.reverse[i]? = some r ∧ r.Sets (i + 1) name := by
  induction repetitions with
  | nil => simp [SetByOpen]
  | cons r outer ih =>
    rw [SetByOpen, ih, List.reverse_cons]
    constructor
    · rintro (own | ⟨i, q, found, sets⟩)
      · exact ⟨outer.length, r, by simp, own⟩
      · obtain ⟨inside, _⟩ := List.getElem?_eq_some_iff.mp found
        exact ⟨i, q, by rwa [List.getElem?_append_left inside], sets⟩
    · rintro ⟨i, q, found, sets⟩
      rcases Nat.lt_or_ge i outer.reverse.length with inside | beyond
      · rw [List.getElem?_append_left inside] at found
        exact .inr ⟨i, q, found, sets⟩
      · obtain ⟨rfl, rfl⟩ : i = outer.length ∧ r = q := by
          rw [List.getElem?_append_right beyond, List.getElem?_singleton] at found
          rw [List.length_reverse] at beyond found
          split at found
          · exact ⟨by omega, Option.some.inj found⟩
          · contradiction
        exact .inl sets

/-- If the flags of other depths are those of the outer repetitions, then settling the next depth
adds just what holds there. -/
theorem contains_settle_iff (holds : IterationMark → Bool)
    (below : ∀ key, (∀ mark : IterationMark, mark.flagName (outer.length + 1) ≠ key) →
      (flags.contains key = true ↔ SetByOpen outer key)) :
    (flags.settle holds (outer.length + 1)).contains name = true ↔
      (∃ mark : IterationMark, holds mark = true ∧ name = mark.flagName (outer.length + 1)) ∨
        SetByOpen outer name := by
  by_cases own : ∃ mark : IterationMark, mark.flagName (outer.length + 1) = name
  · obtain ⟨mark, rfl⟩ := own
    rw [Flags.contains_settle]
    constructor
    · intro held
      exact .inl ⟨mark, held, rfl⟩
    · rintro (⟨other, held, same⟩ | inner)
      · rwa [(IterationMark.flagName_inj.mp same).1]
      · exact absurd inner.depth_le (Nat.not_succ_le_self _)
  · have other : ∀ mark : IterationMark, mark.flagName (outer.length + 1) ≠ name :=
      fun mark same => own ⟨mark, same⟩
    rw [Flags.contains_settle_other other, below name other]
    constructor
    · exact .inr
    · rintro (⟨mark, _, same⟩ | inner)
      · exact absurd same.symm (other mark)
      · exact inner

end SetByOpen

namespace State

variable {setting : Setting} {s t u : State} {c : Char} {index : Nat}

/-- The flags of the run are those that the open repetitions set. -/
def Mirrors (s : State) : Prop :=
  ∀ name, s.localFlags.contains name = true ↔ SetByOpen s.repetitions name

theorem Mirrors.start (text : List Char) (flags : Flags) (g : Generator) :
    (State.start text flags g).Mirrors := by
  intro name
  simp [State.start, SetByOpen]

/-- The open repetitions and the flags of the run are as before. -/
structure Unmoved (s t : State) : Prop where
  localFlags : t.localFlags = s.localFlags
  repetitions : t.repetitions = s.repetitions

theorem Mirrors.unmoved (h : s.Mirrors) (same : Unmoved s t) : t.Mirrors := by
  intro name
  rw [same.localFlags, same.repetitions]
  exact h name

theorem Mirrors.openRepetition (h : s.Mirrors) (opened : s.openRepetition index = .ok t) :
    t.Mirrors := by
  obtain ⟨_, _, _, _, _, _, _, _, _, _, _, rfl⟩ := openRepetition_ok opened
  intro name
  exact contains_settle_iff _ fun key _ => h key

theorem Mirrors.closeBlock (h : s.Mirrors) (index : Nat) : (s.closeBlock index).Mirrors := by
  rcases closeBlock_cases s index with same | ⟨r, outer, opened, effect⟩
  · rw [same]
    exact h
  · have below (key : String)
        (other : ∀ mark : IterationMark, mark.flagName (outer.length + 1) ≠ key) :
        s.localFlags.contains key = true ↔ SetByOpen outer key := by
      rw [h key, opened, SetByOpen]
      constructor
      · rintro (⟨mark, _, same⟩ | inner)
        · exact absurd same.symm (other mark)
        · exact inner
      · exact .inr
    intro name
    rcases effect with finished | ⟨r', position, moved⟩
    · rw [finished, localFlags_unmarkIteration]
      refine (contains_settle_iff (fun _ => false) below).trans ?_
      constructor
      · rintro (⟨_, held, _⟩ | inner)
        · contradiction
        · exact inner
      · exact .inr
    · rw [moved]
      exact contains_settle_iff _ below

/-- The next step sets or unsets a flag of the run by name. -/
def AssignsFlag (s : State) : Prop :=
  s.reader.peek = '$' ∧ ∃ action, (action = .set ∨ action = .unset) ∧
    flagFunction? (s.reader.slice (s.reader.position + 1) (s.reader.position + 3)) =
      some (.run, action)

theorem unmoved_setFlags (s : State) (flags : Flags) (i : Nat) :
    Unmoved s ((s.setFlags .lasting flags).moveTo i) := ⟨rfl, rfl⟩

theorem unmoved_flag (h : s.flag index = .ok t)
    (unnamed : ∀ action, action = .set ∨ action = .unset →
      flagFunction? (s.reader.slice (index + 1) (index + 3)) ≠ some (.run, action)) :
    Unmoved s t := by
  obtain ⟨scope, action, _, _, known, _, _, effect⟩ := flag_ok h
  have lasting (assigns : action = .set ∨ action = .unset) : scope = .lasting := by
    cases scope with
    | run => exact absurd known (unnamed action assigns)
    | lasting => rfl
  rcases effect with ⟨rfl, rfl⟩ | ⟨rfl, rfl⟩ | ⟨_, _, rfl⟩
  · rw [lasting (.inl rfl)]
    exact unmoved_setFlags s _ _
  · rw [lasting (.inr rfl)]
    exact unmoved_setFlags s _ _
  · exact ⟨rfl, rfl⟩

theorem unmoved_perform (h : s.perform setting c index = .ok t)
    (opens : Sign.ofChar c ≠ .repetition) (closes : Sign.ofChar c ≠ .closeBlock)
    (unnamed : Sign.ofChar c = .flag → ∀ action, action = .set ∨ action = .unset →
      flagFunction? (s.reader.slice (index + 1) (index + 3)) ≠ some (.run, action)) :
    Unmoved s t := by
  by_cases flags : Sign.ofChar c = .flag
  · unfold State.perform at h
    rw [flags] at h
    exact unmoved_flag h (unnamed flags)
  · have spared := spares_perform h
    exact ⟨spared.localFlags opens closes flags, spared.repetitions opens closes⟩

theorem Mirrors.perform (mirrors : s.Mirrors) (h : s.perform setting c index = .ok t)
    (unnamed : c = '$' → ∀ action, action = .set ∨ action = .unset →
      flagFunction? (s.reader.slice (index + 1) (index + 3)) ≠ some (.run, action)) :
    t.Mirrors := by
  by_cases opens : Sign.ofChar c = .repetition
  · rw [State.perform, opens] at h
    exact mirrors.openRepetition h
  · by_cases closes : Sign.ofChar c = .closeBlock
    · rw [State.perform, closes] at h
      cases h
      exact mirrors.closeBlock index
    · apply mirrors.unmoved (unmoved_perform h opens closes _)
      intro flag
      exact unnamed (Sign.char?_ofChar (by rw [flag]; rfl))

theorem Mirrors.step (mirrors : s.Mirrors) (stepped : s.step setting = .ok t)
    (unnamed : ¬ s.AssignsFlag) : t.Mirrors := by
  have read : Mirrors { s with reader := s.reader.read.2 } := mirrors
  apply read.perform stepped
  intro dollar action assigns known
  exact unnamed ⟨dollar, action, assigns, known⟩

theorem Mirrors.reaches (mirrors : s.Mirrors) (run : Reaches setting s t)
    (unnamed : ∀ u v, Reaches setting s u → u.reader.atEnd = false → u.step setting = .ok v →
      Reaches setting v t → ¬ u.AssignsFlag) : t.Mirrors := by
  obtain ⟨n, steps⟩ := run
  induction steps with
  | refl => exact mirrors
  | step more stepped rest ih =>
    apply ih (mirrors.step stepped (unnamed _ _ (.refl _) more stepped ⟨_, rest⟩))
    intro u v reached
    exact unnamed u v (.head more stepped reached)

/-- At every state of a run that has assigned no flag of its own, the flags of the run are those
that the repetitions set which are open there: each at its depth, counted from the outermost. -/
theorem localFlags_mirror (text : List Char) (flags : Flags) (g : Generator)
    (reached : Reaches setting (start text flags g) s)
    (unnamed : ∀ t u, Reaches setting (start text flags g) t → t.reader.atEnd = false →
      t.step setting = .ok u → Reaches setting u s → ¬ t.AssignsFlag) :
    (∀ name, s.localFlags.contains name = true ↔
      ∃ (depth : Nat) (r : Repetition) (mark : IterationMark),
        s.repetitions.reverse[depth]? = some r ∧ r.holds mark = true ∧
          name = mark.flagName (depth + 1)) ∧
      (s.repetitions = [] → s.localFlags = ∅) := by
  have mirrors : s.Mirrors := (Mirrors.start text flags g).reaches reached unnamed
  constructor
  · intro name
    rw [mirrors name, setByOpen_iff]
    constructor
    · rintro ⟨depth, r, open_, mark, held, named⟩
      exact ⟨depth, r, mark, open_, held, named⟩
    · rintro ⟨depth, r, mark, open_, held, named⟩
      exact ⟨depth, r, open_, mark, held, named⟩
  · intro closed
    apply Std.ExtTreeSet.ext_contains
    intro name
    have none : ¬ s.localFlags.contains name = true := by
      rw [mirrors name, closed]
      exact id
    rw [Bool.eq_false_iff.mpr none]
    simp

/-- A repetition in the content of another, read up to the last round of both. -/
def nestedRounds : List Char := "^[2][, ][^[3][][b]]".toList

theorem localFlags_mirror_nested :
    ∃ s, Reaches ⟨∅, "\n"⟩ (start nestedRounds ∅ (Generator.ofSeed 7 0)) s ∧
      (∀ t u, Reaches ⟨∅, "\n"⟩ (start nestedRounds ∅ (Generator.ofSeed 7 0)) t →
        t.reader.atEnd = false → t.step ⟨∅, "\n"⟩ = .ok u → Reaches ⟨∅, "\n"⟩ u s →
          ¬ t.AssignsFlag) ∧
      s.repetitions.map (·.done) = [2, 1] ∧
      s.localFlags.toList = ["even_1", "last_1", "last_2", "odd_2"] ∧
      ∀ name, s.localFlags.contains name = true ↔
        ∃ (depth : Nat) (r : Repetition) (mark : IterationMark),
          s.repetitions.reverse[depth]? = some r ∧ r.holds mark = true ∧
            name = mark.flagName (depth + 1) := by
  have run : ((advance? ⟨∅, "\n"⟩ 17 (start nestedRounds ∅ (Generator.ofSeed 7 0))).map fun s =>
      (s.repetitions.map (·.done), s.localFlags.toList)) =
      some ([2, 1], ["even_1", "last_1", "last_2", "odd_2"]) := by
    decide +kernel
  obtain ⟨s, came, seen⟩ := Option.map_eq_some_iff.mp run
  obtain ⟨rounds, present⟩ := Prod.mk.inj seen
  have reached := reaches_of_advance? came
  have unnamed : ∀ t u, Reaches ⟨∅, "\n"⟩ (start nestedRounds ∅ (Generator.ofSeed 7 0)) t →
      t.reader.atEnd = false → t.step ⟨∅, "\n"⟩ = .ok u → Reaches ⟨∅, "\n"⟩ u s →
        ¬ t.AssignsFlag := by
    rintro t u before more _ _ ⟨dollar, _⟩
    have unchanged := ((Sound.start nestedRounds ∅ (Generator.ofSeed 7 0)).reaches before).unchanged
    have member : '$' ∈ t.reader.text.toList := by
      have inside := Reader.position_lt more
      rw [← dollar, Reader.peek, Reader.charAt, Array.getElem?_eq_getElem inside,
        Option.getD_some]
      exact Array.getElem_mem_toList inside
    rw [unchanged] at member
    exact absurd member (by decide)
  exact ⟨s, reached, unnamed, rounds, present,
    (localFlags_mirror nestedRounds ∅ (Generator.ofSeed 7 0) reached unnamed).1⟩

end State

end Phrasebook
