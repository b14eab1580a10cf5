/-! Bounded repetition of a content block, with a separator block between iterations.
Positions point into the text: each block starts just past its `[` and ends at its `]`. -/
namespace Phrasebook

inductive IterationMark where
  | first
  | last
  | odd
  | even
deriving Repr, DecidableEq

namespace IterationMark

def all : List IterationMark := [first, last, odd, even]

def label : IterationMark → String
  | first => "first"
  | last => "last"
  | odd => "odd"
  | even => "even"

def flagName (mark : IterationMark) (depth : Nat) : String := s!"{mark.label}_{depth}"

end IterationMark

structure Repetition where
  contentStart : Nat
  contentEnd : Nat
  separatorStart : Nat
  separatorEnd : Nat
  limit : UInt32
  done : Nat
  onSeparator : Bool
deriving Repr, DecidableEq

namespace Repetition

/-- The iteration that runs, or that the separator leads to, counted from 1. -/
def current (r : Repetition) : Nat := r.done + 1

def holds (r : Repetition) : IterationMark → Bool
  | .first => r.current == 1
  | .last => r.current == r.limit.toNat
  | .odd => r.current % 2 == 1
  | .even => r.current % 2 == 0

end Repetition

/-- What a closing bracket means for the repetitions that are open: a jump to the separator or to
the content, the end of the innermost one at its depth, or nothing. -/
inductive Boundary where
  | separator (position : Nat)
  | content (position : Nat)
  | finished (depth : Nat)
  | inside
deriving Repr, DecidableEq

/-- A `]` at an index, seen by the open repetitions, innermost first. Only the innermost one looks
at it, and only at the end of the block that it is on. -/
def Boundary.ofClose (index : Nat) : List Repetition → Boundary × List Repetition
  | [] => (.inside, [])
  | r :: outer =>
    if !r.onSeparator && index == r.contentEnd then
      if r.limit.toNat ≤ r.done + 1 then (.finished (outer.length + 1), outer)
      else if r.separatorStart < r.separatorEnd then
        (.separator r.separatorStart, { r with done := r.done + 1, onSeparator := true } :: outer)
      else (.content r.contentStart, { r with done := r.done + 1 } :: outer)
    else if r.onSeparator && index == r.separatorEnd then
      (.content r.contentStart, { r with onSeparator := false } :: outer)
    else (.inside, r :: outer)

end Phrasebook
