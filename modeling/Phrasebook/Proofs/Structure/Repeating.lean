import Phrasebook.Proofs.Repetitions.Marks
import Phrasebook.Proofs.Structure.Constructs

/-! The simulation of a repetition.
A run comes back to the closing bracket of the content once for every iteration. The invariant there
is the number of iterations done; what is left of them is the loop of the meaning. -/
namespace Phrasebook.Structure

open State (Reaches)

theorem Scene.mark_mark (sc : Scene) (depth limit i : Nat) :
    (sc.mark depth limit i).mark depth limit i = sc.mark depth limit i :=
  congrArg (fun localFlags => { sc with localFlags }) (Flags.settle_settle sc.localFlags _ _ depth)

def turn (countEnd separatorEnd contentEnd : Nat) (limit : UInt32) (done : Nat)
    (onSeparator : Bool) : Repetition :=
  { State.freshRepetition countEnd separatorEnd contentEnd limit with done, onSeparator }

def Site.within (site : Site) (r : Repetition) : Site :=
  { site with repetitions := r :: site.repetitions }

variable {setting : Setting} {salt : UInt64} {site : Site} {position : Nat} {sc : Scene}
  {u v : State} {s t rest : List Char} {f g : Nat → Scene → Scene}

theorem Shows.mark {s : State} (shown : Shows salt site position sc s) (depth : Nat)
    (r : Repetition) :
    Shows salt site position (sc.mark depth r.limit.toNat r.current)
      (s.markIteration depth r) := by
  refine { shown with localFlags := ?_ }
  have holds : r.holds = holdsIn r.limit.toNat r.current := by
    funext m
    cases m <;> rfl
  rw [State.markIteration, Scene.mark, shown.localFlags, holds]

theorem Shows.unmark {s : State} (shown : Shows salt site position sc s) (depth : Nat) :
    Shows salt site position (sc.unmark depth) (s.unmarkIteration depth) := by
  refine { shown with localFlags := ?_ }
  rw [State.unmarkIteration, Scene.unmark, shown.localFlags]

section closing

variable {s : State} {r : Repetition} {outer : List Repetition}

theorem closeBlock_finished (opened : s.repetitions = r :: outer) (on : r.onSeparator = false)
    (last : r.limit.toNat ≤ r.done + 1) :
    s.closeBlock r.contentEnd =
      { s with repetitions := outer }.unmarkIteration (outer.length + 1) := by
  have boundary : Boundary.ofClose r.contentEnd s.repetitions =
      (.finished (outer.length + 1), outer) := by
    rw [opened, Boundary.ofClose, if_pos (by simp [on]), if_pos last]
  rw [State.closeBlock, boundary]

theorem closeBlock_separator (opened : s.repetitions = r :: outer) (on : r.onSeparator = false)
    (more : r.done + 1 < r.limit.toNat) (separated : r.separatorStart < r.separatorEnd) :
    s.closeBlock r.contentEnd =
      ({ s with
        repetitions := { r with done := r.done + 1, onSeparator := true } :: outer }.markIteration
          (outer.length + 1) { r with done := r.done + 1, onSeparator := true }).moveTo
            r.separatorStart := by
  have boundary : Boundary.ofClose r.contentEnd s.repetitions = (.separator r.separatorStart,
      { r with done := r.done + 1, onSeparator := true } :: outer) := by
    rw [opened, Boundary.ofClose, if_pos (by simp [on]), if_neg (by omega), if_pos separated]
  rw [State.closeBlock, boundary, opened, List.length_cons]

theorem closeBlock_content (opened : s.repetitions = r :: outer) (on : r.onSeparator = false)
    (more : r.done + 1 < r.limit.toNat) (joined : ¬ r.separatorStart < r.separatorEnd) :
    s.closeBlock r.contentEnd =
      ({ s with repetitions := { r with done := r.done + 1 } :: outer }.markIteration
        (outer.length + 1) { r with done := r.done + 1 }).moveTo r.contentStart := by
  have boundary : Boundary.ofClose r.contentEnd s.repetitions =
      (.content r.contentStart, { r with done := r.done + 1 } :: outer) := by
    rw [opened, Boundary.ofClose, if_pos (by simp [on]), if_neg (by omega), if_neg joined]
  rw [State.closeBlock, boundary, opened, List.length_cons]

theorem closeBlock_return (opened : s.repetitions = r :: outer) (on : r.onSeparator = true) :
    s.closeBlock r.separatorEnd =
      ({ s with repetitions := { r with onSeparator := false } :: outer }.markIteration
        (outer.length + 1) { r with onSeparator := false }).moveTo r.contentStart := by
  have boundary : Boundary.ofClose r.separatorEnd s.repetitions =
      (.content r.contentStart, { r with onSeparator := false } :: outer) := by
    rw [opened, Boundary.ofClose, if_neg (by simp [on]), if_pos (by simp [on])]
  rw [State.closeBlock, boundary, opened, List.length_cons]

end closing

structure Laid (text separator content rest : List Char) (countEnd separatorEnd contentEnd : Nat) :
    Prop where
  separated : separatorEnd = countEnd + 2 + separator.length
  contained : contentEnd = separatorEnd + 2 + content.length
  inSeparator : ∃ behind, text.drop (countEnd + 2) = separator ++ ']' :: behind
  inContent : text.drop (separatorEnd + 2) = content ++ ']' :: rest

section loop

variable {countEnd separatorEnd contentEnd done : Nat} {limit : UInt32}

theorem Laid.atSeparatorEnd (laid : Laid site.text s t rest countEnd separatorEnd contentEnd) :
    ∃ behind, site.text.drop separatorEnd = ']' :: behind := by
  obtain ⟨behind, here⟩ := laid.inSeparator
  refine ⟨behind, ?_⟩
  rw [laid.separated]
  exact drop_part here

theorem Laid.atContentEnd (laid : Laid site.text s t rest countEnd separatorEnd contentEnd) :
    site.text.drop contentEnd = ']' :: rest := by
  rw [laid.contained]
  exact drop_part laid.inContent

theorem Laid.fits (laid : Laid site.text s t rest countEnd separatorEnd contentEnd) :
    contentEnd + 1 ≤ site.text.length := by
  have size := congrArg List.length laid.atContentEnd
  rw [List.length_drop, List.length_cons] at size
  omega

theorem Shows.turnTo {repetitions : List Repetition}
    (shown : Shows salt { site with repetitions } position sc v) (r' : Repetition) {i : Nat}
    (inside : i ≤ site.text.length) :
    Shows salt (site.within r') i
      (sc.mark (site.repetitions.length + 1) r'.limit.toNat r'.current)
      (({ v with repetitions := r' :: site.repetitions }.markIteration
        (site.repetitions.length + 1) r').moveTo i) := by
  have turned : Shows salt (site.within r') position sc
      { v with repetitions := r' :: site.repetitions } := { shown with repetitions := rfl }
  exact (turned.mark (site.repetitions.length + 1) r').moveTo inside

theorem Shows.approach (laid : Laid site.text s t rest countEnd separatorEnd contentEnd)
    (separator : Simulates setting salt s f) (empty : s = [] → ∀ depth sc, f depth sc = sc)
    (more : done + 1 < limit.toNat)
    (shown : Shows salt (site.within (turn countEnd separatorEnd contentEnd limit done false))
      contentEnd sc v) :
    ∃ w, Reaches setting v w ∧
      Shows salt (site.within (turn countEnd separatorEnd contentEnd limit (done + 1) false))
        (separatorEnd + 2)
        (sc.approach (site.repetitions.length + 1) limit.toNat (done + 2)
          (f (site.repetitions.length + 1))) w := by
  have inside := laid.fits
  have separated := laid.separated
  have contained := laid.contained
  have next := shown.next laid.atContentEnd
  by_cases joined : s = []
  · have nothing : ¬ countEnd + 2 < separatorEnd := by
      rw [joined, List.length_nil] at separated
      omega
    have closed := closeBlock_content next.repetitions rfl more nothing
    refine ⟨_, shown.step laid.atContentEnd (congrArg Except.ok closed), ?_⟩
    rw [Scene.approach, empty joined, Scene.mark_mark]
    exact next.turnTo _ (show separatorEnd + 2 ≤ site.text.length by omega)
  · have something : countEnd + 2 < separatorEnd := by
      have := List.length_pos_iff.mpr joined
      omega
    have closed := closeBlock_separator next.repetitions rfl more something
    have toSeparator : Reaches setting v _ :=
      shown.step laid.atContentEnd (congrArg Except.ok closed)
    have entered := next.turnTo (turn countEnd separatorEnd contentEnd limit (done + 1) true)
      (show countEnd + 2 ≤ site.text.length by omega)
    obtain ⟨_, here⟩ := laid.inSeparator
    obtain ⟨w, across, after⟩ := separator _ _ _ _ _ entered here (by
      intro r innermost
      cases innermost
      exact .inr (Nat.le_of_eq separated.symm))
    rw [← separated] at after
    obtain ⟨_, bracket⟩ := laid.atSeparatorEnd
    have past := after.next bracket
    have returned := closeBlock_return past.repetitions rfl
    have toContent : Reaches setting w _ := after.step bracket (congrArg Except.ok returned)
    refine ⟨_, (toSeparator.trans across).trans toContent, ?_⟩
    exact past.turnTo _ (show separatorEnd + 2 ≤ site.text.length by omega)

/-- From the end of an iteration a run does those that are left, and leaves the repetition. -/
theorem Shows.further (laid : Laid site.text s t rest countEnd separatorEnd contentEnd)
    (separator : Simulates setting salt s f) (empty : s = [] → ∀ depth sc, f depth sc = sc)
    (content : Simulates setting salt t g) (left : Nat) (count : done + left + 1 = limit.toNat)
    (shown : Shows salt (site.within (turn countEnd separatorEnd contentEnd limit done false))
      contentEnd sc v) :
    ∃ w, Reaches setting v w ∧
      Shows salt site (contentEnd + 1)
        (Scene.further (site.repetitions.length + 1) limit.toNat
          (f (site.repetitions.length + 1)) (g (site.repetitions.length + 1)) (done + 1) left sc)
        w := by
  induction left generalizing done sc v with
  | zero =>
    have next := shown.next laid.atContentEnd
    have last : limit.toNat ≤ done + 1 := by omega
    have closed := closeBlock_finished next.repetitions rfl last
    refine ⟨_, shown.step laid.atContentEnd (congrArg Except.ok closed), ?_⟩
    have outside : Shows salt site (contentEnd + 1) sc
        { v.moveTo (contentEnd + 1) with repetitions := site.repetitions } :=
      { next with repetitions := rfl }
    exact outside.unmark (site.repetitions.length + 1)
  | succ left ih =>
    obtain ⟨w, again, entered⟩ := shown.approach laid separator empty (by omega)
    obtain ⟨x, across, after⟩ := content _ _ _ _ _ entered laid.inContent (by
      intro r innermost
      cases innermost
      exact .inr (Nat.le_of_eq laid.contained.symm))
    rw [← laid.contained] at after
    obtain ⟨y, rest, behind⟩ := ih (by omega) after
    exact ⟨y, (again.trans across).trans rest, behind⟩

theorem Simulates.repetition (times : Times) (tidySeparator : Tidy s) (tidyContent : Tidy t)
    (separator : Simulates setting salt s f) (empty : s = [] → ∀ depth sc, f depth sc = sc)
    (content : Simulates setting salt t g) :
    Simulates setting salt (bracketed (bracketed (bracketed ['^'] times.val.digits) s) t)
      fun depth sc => sc.cycle (depth + 1) times.val.value (f (depth + 1)) (g (depth + 1)) := by
  intro site position sc rest u shown here free
  have ahead : site.text.drop position = '^' :: ('[' :: times.val.digits ++ ']' ::
      ('[' :: s ++ ']' :: ('[' :: t ++ ']' :: rest))) := by
    simpa [bracketed] using here
  have size : (bracketed (bracketed (bracketed ['^'] times.val.digits) s) t).length =
      2 + times.val.digits.length + 2 + s.length + 2 + t.length + 1 := by
    simp [bracketed]
    omega
  have inside := fits shown.le_length here
  rw [size] at inside ⊢
  let countEnd := position + 2 + times.val.digits.length
  let separatorEnd := countEnd + 2 + s.length
  let contentEnd := separatorEnd + 2 + t.length
  have inSeparator : site.text.drop (countEnd + 2) =
      s ++ ']' :: ('[' :: t ++ ']' :: rest) :=
    drop_char (drop_char (drop_part (drop_char (drop_char ahead))))
  have inContent : site.text.drop (separatorEnd + 2) = t ++ ']' :: rest :=
    drop_char (drop_char (drop_part inSeparator))
  have laid : Laid site.text s t rest countEnd separatorEnd contentEnd :=
    ⟨rfl, rfl, ⟨_, inSeparator⟩, inContent⟩
  have limit : times.val.value.toUInt32.toNat = times.val.value :=
    Nat.mod_eq_of_lt times.property.2
  have next := shown.next ahead
  have opened := openRepetition_of_drop times (next.drop ahead) tidySeparator tidyContent
    countEnd separatorEnd rfl rfl
  rw [next.repetitions] at opened
  have stepped : Reaches setting u _ := shown.step ahead opened
  let opening := turn countEnd separatorEnd contentEnd times.val.value.toUInt32 0 false
  have entered : Shows salt (site.within opening) (separatorEnd + 2)
      (sc.mark (site.repetitions.length + 1) times.val.value.toUInt32.toNat 1) _ :=
    next.turnTo opening (show separatorEnd + 2 ≤ site.text.length by omega)
  obtain ⟨v, across, after⟩ := content _ _ _ _ _ entered inContent (by
    intro r innermost
    cases innermost
    exact .inr (Nat.le_refl _))
  have once : 0 + (times.val.value - 1) + 1 = times.val.value.toUInt32.toNat := by
    have := times.property.1
    omega
  obtain ⟨w, again, behind⟩ := after.further laid separator empty content _ once
  refine ⟨w, (stepped.trans across).trans again, ?_⟩
  have place : position + (2 + times.val.digits.length + 2 + s.length + 2 + t.length + 1) =
      contentEnd + 1 := by omega
  rw [place]
  rw [limit] at behind
  exact behind

end loop

end Phrasebook.Structure
