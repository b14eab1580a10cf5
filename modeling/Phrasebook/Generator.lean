/-! A reproducible source of draws.
The value of a draw is a fixed function of a seed and a generation, so a generator holds only the
two words and moves the generation by one for each draw. Branches stack a derived seed on top;
merging goes back to the frame below as it was left. -/
namespace Phrasebook

structure Frame where
  seed : UInt64
  generation : Int64
deriving Repr, DecidableEq, Inhabited

/-- The frame that draws, and the frames that wait below it, innermost first. -/
structure Generator where
  active : Frame
  waiting : List Frame
deriving Repr, DecidableEq, Inhabited

inductive RangeError where
  | zeroBound
  | emptyRange (min max : Int)
deriving Repr, DecidableEq

def RangeError.message : RangeError → String
  | zeroBound => "invalid range: max must be above 0"
  | emptyRange min max => s!"invalid range: min ({min}) must be below max ({max})"

/-- Rotation towards the high bits; only the low six bits of the count matter. -/
def rotateHigh (word count : UInt64) : UInt64 :=
  (word <<< count) ||| (word >>> (64 - count))

def rotateLow (word count : UInt64) : UInt64 :=
  (word >>> count) ||| (word <<< (64 - count))

namespace Frame

/-- The word at this seed and generation: both are spread, mixed into each other by rotations
that depend on the data, and folded into one. -/
def word (f : Frame) : UInt64 :=
  let s := f.seed + 0x5851F42D4C957F2D
  let g := f.generation.toUInt64 * 0x9E3779B97F4A7C15 + 0x14057B7EF767814F
  let s := s ^^^ rotateHigh g (s >>> 58)
  let g := g ^^^ rotateLow s (g >>> 58)
  let s := s * 0xD6E8FEB86659FD93
  let g := g + rotateHigh s (g &&& 63)
  s ^^^ rotateLow g (s &&& 63)

def value (f : Frame) : Nat :=
  (f.word &&& 0x7FFFFFFF).toNat

def advance (f : Frame) : Frame :=
  { f with generation := f.generation + 1 }

def retreat (f : Frame) : Frame :=
  { f with generation := f.generation - 1 }

theorem value_lt (f : Frame) : f.value < 0x80000000 := by
  have bound : f.value ≤ 0x7FFFFFFF := by
    rw [value, UInt64.toNat_and]
    exact Nat.and_le_right
  omega

end Frame

namespace Generator

def ofSeed (seed : UInt64) (generation : Int64) : Generator :=
  ⟨⟨seed, generation⟩, []⟩

def seed (g : Generator) : UInt64 := g.active.seed

def generation (g : Generator) : Int64 := g.active.generation

def depth (g : Generator) : Nat := g.waiting.length + 1

def setGeneration (g : Generator) (generation : Int64) : Generator :=
  { g with active := { g.active with generation } }

def advance (g : Generator) : Generator :=
  { g with active := g.active.advance }

def retreat (g : Generator) : Generator :=
  { g with active := g.active.retreat }

def peekAt (g : Generator) (generation : Int64) : Nat :=
  Frame.value ⟨g.seed, generation⟩

def peek (g : Generator) : Nat := g.peekAt g.generation

def next (g : Generator) : Nat × Generator := (g.peek, g.advance)

/-- The value of the next draw, after which the generator steps back instead of ahead. -/
def prev (g : Generator) : Nat × Generator := (g.peek, g.retreat)

def below (g : Generator) (bound : Nat) : Except RangeError (Fin bound × Generator) :=
  if positive : 0 < bound then
    .ok (⟨g.peek % bound, Nat.mod_lt _ positive⟩, g.advance)
  else .error .zeroBound

/-- One of so many things. Of their number only the low 32 bits count. -/
def oneOf (g : Generator) (count : Nat) : Except RangeError (Fin count × Generator) := do
  let (i, g) ← g.below (count % UInt32.size)
  return (i.castLE (Nat.mod_le count UInt32.size), g)

def range (g : Generator) (min max : Int) : Except RangeError (Int × Generator) :=
  if min < max then .ok (min + g.peek % (max - min), g.advance)
  else .error (.emptyRange min max)

def word (g : Generator) : UInt64 × Generator := (g.active.word, g.advance)

def words : Nat → Generator → List UInt64 × Generator
  | 0, g => ([], g)
  | n + 1, g =>
    let (rest, last) := words n g.advance
    (g.active.word :: rest, last)

def bytesOf (word : UInt64) : List UInt8 :=
  (List.range 8).map fun i => (word >>> (8 * i).toUInt64).toUInt8

/-- So many bytes, eight from a draw; what the last draw has too many is dropped. -/
def bytes (g : Generator) (count : Nat) : List UInt8 × Generator :=
  let (drawn, last) := g.words ((count + 7) / 8)
  ((drawn.flatMap bytesOf).take count, last)

/-- Puts a frame on top whose seed is the word at the present one. -/
def branchAt (g : Generator) (generation : Int64) : Generator :=
  ⟨⟨g.active.word, generation⟩, g.active :: g.waiting⟩

def branch (g : Generator) : Generator := g.branchAt 0

def merge (g : Generator) : Generator :=
  match g.waiting with
  | [] => g
  | below :: waiting => ⟨below, waiting⟩

theorem peek_lt (g : Generator) : g.peek < 0x80000000 := Frame.value_lt _

theorem below_of_pos (g : Generator) {bound : Nat} (h : 0 < bound) :
    g.below bound = .ok (⟨g.peek % bound, Nat.mod_lt _ h⟩, g.advance) := by
  simp [below, h]

theorem oneOf_of_pos (g : Generator) {count : Nat} (h : 0 < count % UInt32.size) :
    g.oneOf count =
      .ok (⟨g.peek % (count % UInt32.size), Nat.lt_of_lt_of_le (Nat.mod_lt _ h) (Nat.mod_le _ _)⟩,
        g.advance) := by
  rw [oneOf, below_of_pos g h]
  rfl

theorem oneOf_of_lt (g : Generator) {count : Nat} (positive : 0 < count)
    (small : count < UInt32.size) :
    g.oneOf count = .ok (⟨g.peek % count, Nat.mod_lt _ positive⟩, g.advance) := by
  have same : count % UInt32.size = count := Nat.mod_eq_of_lt small
  rw [oneOf_of_pos g (by omega)]
  simp only [same]

theorem oneOf_of_dvd (g : Generator) {count : Nat} (h : UInt32.size ∣ count) :
    g.oneOf count = .error .zeroBound := by
  have zero : ¬ 0 < count % UInt32.size := by
    rw [Nat.mod_eq_zero_of_dvd h]
    exact Nat.lt_irrefl 0
  rw [oneOf, below, dif_neg zero]
  rfl

theorem oneOf_ok {g g' : Generator} {count : Nat} {i : Fin count}
    (h : g.oneOf count = .ok (i, g')) :
    0 < count % UInt32.size ∧ i.val = g.peek % (count % UInt32.size) ∧ g' = g.advance := by
  by_cases positive : 0 < count % UInt32.size
  · rw [oneOf_of_pos g positive] at h
    cases h
    exact ⟨positive, rfl, rfl⟩
  · rw [oneOf_of_dvd g (Nat.dvd_of_mod_eq_zero (by omega))] at h
    contradiction

theorem oneOf_error {g : Generator} {count : Nat} {cause : RangeError}
    (h : g.oneOf count = .error cause) : cause = .zeroBound ∧ UInt32.size ∣ count := by
  by_cases whole : UInt32.size ∣ count
  · rw [oneOf_of_dvd g whole] at h
    cases h
    exact ⟨rfl, whole⟩
  · rw [oneOf_of_pos g (Nat.pos_of_ne_zero fun zero => whole (Nat.dvd_of_mod_eq_zero zero))] at h
    contradiction

theorem range_of_lt (g : Generator) {min max : Int} (h : min < max) :
    g.range min max = .ok (min + g.peek % (max - min), g.advance) := by
  simp [range, h]

end Generator

end Phrasebook
