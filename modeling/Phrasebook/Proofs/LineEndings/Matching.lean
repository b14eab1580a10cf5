import Phrasebook.Proofs.Likeness

/-! Results that match although the texts that they quote do not.
Two stops match if they are equal apart from their indices and from the stretches of text that some
faults quote. -/
namespace Phrasebook

/-- The problem without the text that it quotes. -/
def NumberProblem.bare : NumberProblem → NumberProblem
  | noRange _ => noRange ""
  | minimum _ => minimum ""
  | maximum _ => maximum ""
  | order min max => order min max

/-- The fault without the text that it quotes. -/
def Fault.bare : Fault → Fault
  | malformedRepeater _ => malformedRepeater ""
  | unknownFlagFunction _ => unknownFlagFunction ""
  | malformedNumber problem => malformedNumber problem.bare
  | fault => fault

def Stop.bare : Stop → Stop
  | fault cause _ => fault cause.bare 0
  | draw cause => draw cause

theorem Stop.Kin.bare {stop stop' : Stop} (kin : stop.Kin stop') : stop'.bare = stop.bare := by
  cases kin <;> rfl

/-- Both results are stops that match, or both are values in a relation. -/
inductive Matches {α β : Type} (R : α → β → Prop) : Except Stop α → Except Stop β → Prop where
  | stop {stop stop' : Stop} (same : stop'.bare = stop.bare) :
      Matches R (.error stop) (.error stop')
  | value {a : α} {b : β} (related : R a b) : Matches R (.ok a) (.ok b)

namespace Matches

variable {α β γ δ : Type} {R : α → β → Prop} {Q : γ → δ → Prop} {x : Except Stop α}
  {y : Except Stop β}

theorem fault {cause cause' : Fault} (i j : Nat) (same : cause'.bare = cause.bare) :
    Matches R (.error (.fault cause i)) (.error (.fault cause' j)) := by
  apply stop
  rw [Stop.bare, Stop.bare, same]

theorem of_agree (h : Agree R x y) : Matches R x y := by
  cases h with
  | stop kin => exact .stop kin.bare
  | value related => exact .value related

theorem bind {f : α → Except Stop γ} {f' : β → Except Stop δ} (h : Matches R x y)
    (rest : ∀ a b, x = .ok a → y = .ok b → R a b → Matches Q (f a) (f' b)) :
    Matches Q (x >>= f) (y >>= f') := by
  cases h with
  | stop same => exact .stop same
  | value related => exact rest _ _ rfl rfl related

theorem mono {Q : α → β → Prop} (h : Matches R x y)
    (more : ∀ a b, x = .ok a → y = .ok b → R a b → Q a b) : Matches Q x y := by
  cases h with
  | stop same => exact .stop same
  | value related => exact .value (more _ _ rfl rfl related)

theorem refl (x : Except Stop α) : Matches (fun a b => b = a) x x := by
  cases x with
  | error stop => exact .stop rfl
  | ok a => exact .value rfl

end Matches

end Phrasebook
