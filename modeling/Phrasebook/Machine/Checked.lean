import Mathlib.Algebra.Group.Nat.Defs
import Phrasebook.Evaluation.Step

/-! Operations that can fail on a machine.
Integers have a width, places are looked up in arrays, stretches are cut out of them, and the
generator insists on its ranges. Where one of these fails the run is lost: that is a panic, and not
a fault of the pattern. -/
namespace Phrasebook.Machine

inductive Panic where
  | draw (cause : RangeError)
  | index (i size : Nat)
  | slice (start stop size : Nat)
  | overflow (value : Int)
deriving Repr, DecidableEq

inductive Halt where
  | fault (cause : Fault) (index : Nat)
  | panic (cause : Panic)
deriving Repr, DecidableEq

abbrev Checked (α : Type) := Except Halt α

def Halt.ofStop : Stop → Halt
  | .fault cause index => .fault cause index
  | .draw cause => .panic (.draw cause)

def lift {α : Type} (r : Except Stop α) : Checked α := r.mapError .ofStop

def bounded (bits n : Nat) : Checked Nat :=
  if n < 2 ^ bits then .ok n else .error (.panic (.overflow n))

def word (n : Nat) : Checked Nat := bounded 64 n

def less (a b : Nat) : Checked Nat :=
  if b ≤ a then .ok (a - b) else .error (.panic (.overflow (a - b)))

def entry {α : Type} (items : List α) (i : Nat) : Checked α :=
  match items[i]? with
  | some item => .ok item
  | none => .error (.panic (.index i items.length))

def stretch {α : Type} (items : List α) (start stop : Nat) : Checked (List α) :=
  if start ≤ stop ∧ stop ≤ items.length then .ok ((items.drop start).take (stop - start))
  else .error (.panic (.slice start stop items.length))

def below (g : Generator) (bound : Nat) : Checked (Nat × Generator) :=
  match g.oneOf bound with
  | .ok (n, g) => .ok (n.val, g)
  | .error cause => .error (.panic (.draw cause))

section agreement

variable {α β : Type}

theorem bind_ok {ε : Type} (a : α) (f : α → Except ε β) : (Except.ok a >>= f) = f a := rfl

theorem orStop_ok (a : α) : orStop (.ok a) = .ok a := rfl

theorem lift_ok (a : α) : lift (.ok a) = .ok a := rfl

theorem lift_bind (r : Except Stop α) (f : α → Except Stop β) :
    lift (r >>= f) = (lift r >>= fun a => lift (f a)) := by
  cases r <;> rfl

theorem bounded_eq {bits n : Nat} (h : n < 2 ^ bits) : bounded bits n = .ok n := if_pos h

theorem word_eq {n : Nat} (h : n < 2 ^ 64) : word n = .ok n := if_pos h

theorem less_eq {a b : Nat} (h : b ≤ a) : less a b = .ok (a - b) := if_pos h

theorem entry_eq {items : List α} {i : Nat} {item : α} (h : items[i]? = some item) :
    entry items i = .ok item := by
  rw [entry, h]

theorem stretch_eq {before body after : List α} {start stop : Nat}
    (hs : start = before.length) (he : stop = before.length + body.length) :
    stretch (before ++ body ++ after) start stop = .ok body := by
  subst hs he
  rw [stretch, if_pos]
  · rw [List.append_assoc, List.drop_left, Nat.add_sub_cancel_left, List.take_left]
  · simp only [List.length_append]
    omega

theorem below_eq (g : Generator) {bound : Nat} (positive : 0 < bound) (small : bound < 2 ^ 32) :
    below g bound = .ok (g.peek % bound, g.advance) := by
  rw [below, Generator.oneOf_of_lt g positive small]

end agreement

end Phrasebook.Machine
