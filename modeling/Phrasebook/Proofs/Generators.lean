import Mathlib.Algebra.Group.Nat.Defs
import Phrasebook.Generator

/-! The generator along its draws, and the values that they take.
These are the numbers below 2 ^ 31, each of them at some seed and generation: where both words
before the mixing are the same small number, the rotations leave them alone, and the mixing gives
that number. -/
namespace Phrasebook

theorem rotateHigh_zero (w : UInt64) : rotateHigh w 0 = w := by
  have same : w >>> (64 - 0) = w := by
    rw [← UInt64.toNat_inj, UInt64.toNat_shiftRight]
    rfl
  rw [rotateHigh, same, UInt64.shiftLeft_zero, UInt64.or_self]

theorem rotateLow_zero (w : UInt64) : rotateLow w 0 = w := by
  have same : w <<< (64 - 0) = w := by
    rw [← UInt64.toNat_inj, UInt64.toNat_shiftLeft]
    exact Nat.mod_eq_of_lt w.toNat_lt
  rw [rotateLow, same, UInt64.shiftRight_zero, UInt64.or_self]

theorem zero_rotateHigh (count : UInt64) : rotateHigh 0 count = 0 := by
  rw [rotateHigh, UInt64.zero_shiftLeft, UInt64.zero_shiftRight, UInt64.or_self]

namespace Frame

/-- The frame whose seed and generation are both spread to the given word. -/
def spreadTo (w : UInt64) : Frame :=
  ⟨w - 0x5851F42D4C957F2D, ((w - 0x14057B7EF767814F) * 0xF1DE83E19937733D).toInt64⟩

/-- The factors that spread the generation and undo it are inverse to each other. -/
theorem generation_spreadTo (w : UInt64) :
    (spreadTo w).generation.toUInt64 * 0x9E3779B97F4A7C15 + 0x14057B7EF767814F = w := by
  have inverse : (0xF1DE83E19937733D : UInt64) * 0x9E3779B97F4A7C15 = 1 := by decide
  rw [spreadTo, UInt64.toUInt64_toInt64, UInt64.mul_assoc, inverse, UInt64.mul_one,
    UInt64.sub_add_cancel]

theorem word_spreadTo {w : UInt64} (small : w.toNat < 2 ^ 58) : (spreadTo w).word = w := by
  have unturned : w >>> 58 = 0 := by
    rw [← UInt64.toNat_inj, UInt64.toNat_shiftRight]
    exact Nat.shiftRight_eq_zero _ _ small
  have seeded : (spreadTo w).seed + 0x5851F42D4C957F2D = w := UInt64.sub_add_cancel w _
  rw [word, seeded, generation_spreadTo]
  simp only [unturned, rotateHigh_zero, UInt64.xor_self, UInt64.xor_zero, UInt64.zero_mul,
    zero_rotateHigh, UInt64.add_zero, UInt64.zero_and, rotateLow_zero, UInt64.zero_xor]

end Frame

namespace Generator

/-- The generator after so many draws. -/
def skip (g : Generator) (n : Nat) : Generator := g.setGeneration (g.generation + Int64.ofNat n)

@[simp] theorem skip_zero (g : Generator) : g.skip 0 = g := by
  have still : g.generation + Int64.ofNat 0 = g.generation := Int64.add_zero _
  rw [skip, still]
  rfl

@[simp] theorem skip_skip (g : Generator) (m n : Nat) : (g.skip m).skip n = g.skip (m + n) := by
  have sum : g.generation + Int64.ofNat m + Int64.ofNat n = g.generation + Int64.ofNat (m + n) := by
    rw [Int64.ofNat_add, Int64.add_assoc]
  change g.setGeneration (g.generation + Int64.ofNat m + Int64.ofNat n) = _
  rw [sum, skip]

/-- The value of the draw that comes after so many others. -/
def upcoming (g : Generator) (n : Nat) : Nat := (g.skip n).peek

theorem upcoming_zero (g : Generator) : g.upcoming 0 = g.peek := by
  rw [upcoming, skip_zero]

theorem upcoming_skip (g : Generator) (m n : Nat) : (g.skip m).upcoming n = g.upcoming (m + n) := by
  rw [upcoming, skip_skip, upcoming]

theorem upcoming_lt (g : Generator) (n : Nat) : g.upcoming n < 2 ^ 31 := (g.skip n).peek_lt

theorem exists_peek_iff {value : Nat} : (∃ g : Generator, g.peek = value) ↔ value < 2 ^ 31 := by
  constructor
  · rintro ⟨g, rfl⟩
    exact g.peek_lt
  · intro small
    have fits : value.toUInt64.toNat = value := Nat.mod_eq_of_lt (by omega)
    have frame := Frame.word_spreadTo (w := value.toUInt64) (by omega)
    refine ⟨⟨Frame.spreadTo value.toUInt64, []⟩, ?_⟩
    change (Frame.spreadTo value.toUInt64).value = value
    rw [Frame.value, frame, UInt64.toNat_and, fits]
    exact (Nat.and_two_pow_sub_one_eq_mod value 31).trans (Nat.mod_eq_of_lt small)

end Generator

end Phrasebook
