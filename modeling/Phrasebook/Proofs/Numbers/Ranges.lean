import Phrasebook.Proofs.Globals.Verbatim
import Phrasebook.Proofs.LineEndings.Texts
import Phrasebook.Proofs.Numbers.Decimals

/-! Random numbers.
The hyphen between the bounds is looked for behind the first character, which may be a blank. So a
number is drawn from the range between any two bounds, except where a blank stands before a hyphen
that is a sign: this hyphen then ends the lower bound, and nothing is left of it. -/
namespace Phrasebook

open Call (Blanks)

/-- The value that a draw gives in a range, in 64-bit arithmetic: a difference or a sum that does
not fit wraps around. -/
def Generator.wrappingRange (g : Generator) (min max : Int64) : Int64 :=
  min + (g.peek.toUInt64 % (max - min).toUInt64).toInt64

/-- Two bounds with a hyphen between, and white space on both sides of each. -/
structure Bounds where
  lead : Blanks
  lower : Decimal
  inner : Blanks
  next : Blanks
  upper : Decimal
  trail : Blanks

namespace Bounds

variable (r : Bounds)

def body : List Char :=
  r.lead.chars ++ (r.lower.text ++ r.inner.chars) ++
    '-' :: (r.next.chars ++ (r.upper.text ++ r.trail.chars))

def print : List Char := '#' :: ('[' :: r.body ++ [']'])

/-- A blank stands before the sign of the lower bound. -/
def Detached : Prop := r.lead.chars ≠ [] ∧ r.lower.negative = true

end Bounds

section words

variable {min max : Int64} (order : min.toInt < max.toInt)
include order

/-- The difference of two signed words fits in an unsigned one. -/
theorem toNat_span : ((max - min).toUInt64.toNat : Int) = max.toInt - min.toInt := by
  have low := min.le_toInt
  have high := max.toInt_lt
  have bound := (max - min).toUInt64.toNat_lt
  have wrapped : ((max - min).toUInt64.toNat : Int).bmod (2 ^ 64) = (max - min).toInt :=
    (BitVec.toInt_eq_toNat_bmod _).symm
  rw [Int64.toInt_sub] at wrapped
  have same := congrArg (· % ((2 ^ 64 : Nat) : Int)) wrapped
  simp only [Int.bmod_emod] at same
  omega

/-- The remainder of a draw is less than the span, and at most the draw: it fits in a signed word,
and so does its sum with the lower bound. -/
theorem toInt_wrappingRange (g : Generator) : (g.wrappingRange min max).toInt =
    min.toInt + g.peek % (max.toInt - min.toInt) := by
  have span := toNat_span order
  have small := g.peek_lt
  have low := min.le_toInt
  have high := max.toInt_lt
  let rest := g.peek % (max - min).toUInt64.toNat
  have remainder : (g.peek : Int) % (max.toInt - min.toInt) = rest := by
    rw [← span, ← Int.natCast_emod]
  have below : rest < (max - min).toUInt64.toNat := Nat.mod_lt _ (by omega)
  have most : rest ≤ g.peek := Nat.mod_le _ _
  have fits : g.peek < UInt64.size := Nat.lt_trans small (by decide)
  have word : (g.peek.toUInt64 % (max - min).toUInt64).toNat = rest := by
    rw [UInt64.toNat_mod, Nat.toUInt64_eq, UInt64.toNat_ofNat_of_lt' fits]
  have signed : (g.peek.toUInt64 % (max - min).toUInt64).toInt64.toInt = rest := by
    have wrapped : _ = ((g.peek.toUInt64 % (max - min).toUInt64).toNat : Int).bmod (2 ^ 64) :=
      BitVec.toInt_eq_toNat_bmod (g.peek.toUInt64 % (max - min).toUInt64).toBitVec
    rw [word, Int.bmod_eq_of_le (by omega) (by omega)] at wrapped
    exact wrapped
  rw [remainder, Generator.wrappingRange, Int64.toInt_add, signed]
  exact Int.bmod_eq_of_le (by omega) (by omega)

theorem wrappingRange_mem (g : Generator) :
    min ≤ g.wrappingRange min max ∧ g.wrappingRange min max < max := by
  have value := toInt_wrappingRange order g
  have nonneg : 0 ≤ (g.peek : Int) % (max.toInt - min.toInt) := Int.emod_nonneg _ (by omega)
  have below : (g.peek : Int) % (max.toInt - min.toInt) < max.toInt - min.toInt :=
    Int.emod_lt_of_pos _ (by omega)
  rw [Int64.le_iff_toInt_le, Int64.lt_iff_toInt_lt, value]
  omega

end words

theorem numberRange_append {c : Char} {before after : List Char} (absent : '-' ∉ before) :
    numberRange (c :: before ++ '-' :: after) =
      rangeBetween (Text.trim (c :: before)) (Text.trim after) := by
  rw [List.cons_append, numberRange_cons, Text.cut?_append absent]

namespace Bounds

variable {r : Bounds} {a b : Int64}

theorem exists_lower (attached : ¬ r.Detached) :
    ∃ c rest, r.lead.chars ++ (r.lower.text ++ r.inner.chars) = c :: rest ∧ '-' ∉ rest := by
  have inner := r.inner.hyphen_not_mem
  have digits := r.lower.numeral.hyphen_not_mem
  cases leads : r.lead.chars with
  | nil =>
    rw [List.nil_append, Decimal.text]
    split
    · exact ⟨'-', _, rfl, List.not_mem_append digits inner⟩
    · obtain ⟨c, rest, split⟩ := List.exists_cons_of_ne_nil r.lower.numeral.nonempty
      rw [split] at digits ⊢
      exact ⟨c, _, rfl, List.not_mem_append (List.not_mem_of_not_mem_cons digits) inner⟩
  | cons c blanks =>
    have lead := r.lead.hyphen_not_mem
    rw [leads] at lead
    have unsigned : r.lower.negative ≠ true := fun negative =>
      attached ⟨by rw [leads]; exact List.cons_ne_nil _ _, negative⟩
    rw [Decimal.text, if_neg unsigned]
    exact ⟨c, _, rfl, List.not_mem_append (List.not_mem_of_not_mem_cons lead)
      (List.not_mem_append digits inner)⟩

theorem numberRange_body (low : r.lower.value = a.toInt) (high : r.upper.value = b.toInt)
    (order : a.toInt < b.toInt) (attached : ¬ r.Detached) :
    numberRange r.body = .ok (a.toInt, b.toInt) := by
  obtain ⟨c, rest, split, absent⟩ := exists_lower attached
  have first : Text.integer? r.lower.text = some a.toInt := by
    rw [← low]
    exact r.lower.integer?_text (low ▸ a.le_toInt) (low ▸ a.toInt_lt)
  have second : Text.integer? r.upper.text = some b.toInt := by
    rw [← high]
    exact r.upper.integer?_text (high ▸ b.le_toInt) (high ▸ b.toInt_lt)
  rw [body, split, numberRange_append absent, ← split,
    Text.trim_between r.lead r.inner r.lower.not_blank,
    Text.trim_between r.next r.trail r.upper.not_blank, rangeBetween, first, second]
  exact if_pos order

theorem numberRange_detached (detached : r.Detached) :
    numberRange r.body = .error (.minimum "") := by
  obtain ⟨present, negative⟩ := detached
  obtain ⟨c, blanks, lead⟩ := List.exists_cons_of_ne_nil present
  have absent := r.lead.hyphen_not_mem
  rw [lead] at absent
  have signed : r.body = c :: blanks ++ '-' :: (r.lower.numeral.digits ++ r.inner.chars ++
      '-' :: (r.next.chars ++ (r.upper.text ++ r.trail.chars))) := by
    simp [body, Decimal.text, negative, lead]
  rw [signed, numberRange_append (List.not_mem_of_not_mem_cons absent), ← lead, Text.trim_blanks]
  rfl

theorem balanced_body (r : Bounds) : Structure.Balanced '[' ']' r.body := by
  apply (Structure.Tidy.chars _).square
  simp only [body, List.mem_append, List.mem_cons]
  rintro c ((lead | lower | inner) | rfl | next | upper | trail)
  · exact r.lead.not_landmark c lead
  · exact r.lower.not_landmark c lower
  · exact r.inner.not_landmark c inner
  · decide
  · exact r.next.not_landmark c next
  · exact r.upper.not_landmark c upper
  · exact r.trail.not_landmark c trail

end Bounds

/-- The state behind a random number that gave this value. -/
def State.afterNumber (s : State) (stop : Nat) (value : Int64) : State :=
  ({ s with generator := s.generator.advance, article := none }.moveTo stop).emitWord
    (toString value.toInt)

theorem State.streams_afterNumber {s : State} (plain : s.casing = .plain) (stop : Nat)
    (value : Int64) :
    (s.afterNumber stop value).streams = s.streams.write (toString value.toInt) := by
  change s.streams.write (s.casing.apply (toString value.toInt)) = _
  rw [plain, Letter.Casing.apply_plain]

/-- Wherever a random number stands in a text, its step draws once and writes the value, or stops
before the draw. -/
theorem State.randomNumber_of_drop {s : State} {p : Nat} {r : Bounds} {rest : List Char}
    {a b : Int64} (here : s.reader.text.toList.drop p = r.print ++ rest)
    (low : r.lower.value = a.toInt) (high : r.upper.value = b.toInt) (order : a.toInt < b.toInt) :
    (¬ r.Detached → s.randomNumber p =
      .ok (s.afterNumber (p + r.print.length) (s.generator.wrappingRange a b))) ∧
    (r.Detached → s.randomNumber p =
      .error (.fault (.malformedNumber (.minimum "")) p)) := by
  have block : s.reader.text.toList.drop (p + 1) = '[' :: r.body ++ ']' :: rest :=
    (drop_char here).trans (List.append_assoc ('[' :: r.body) [']'] rest)
  have closed := Reader.blockEnd_of_drop .randomNumber block r.balanced_body
  have read : s.reader.slice (p + 2) (p + 1 + 1 + r.body.length) = r.body :=
    Reader.slice_of_drop (drop_char block)
  have size : p + r.print.length = p + 1 + 1 + r.body.length + 1 := by
    simp only [Bounds.print, List.length_cons, List.length_append, List.length_nil]
    omega
  constructor
  · intro attached
    rw [randomNumber, closed, afterNumber, toInt_wrappingRange order, size]
    simp only [bind, Except.bind, read, Bounds.numberRange_body low high order attached,
      Generator.range_of_lt s.generator order]
    rfl
  · intro detached
    rw [randomNumber, closed]
    simp only [bind, Except.bind, read, Bounds.numberRange_detached detached]

/-- Between any bounds in order, one draw gives a number of the range, and this is all that is
written. A blank before the sign of the lower bound stops the run, and nothing is drawn. -/
theorem evaluate_number (setting : Setting) (flags : Flags) (g : Generator) {r : Bounds}
    {a b : Int64} (low : r.lower.value = a.toInt) (high : r.upper.value = b.toInt) (order : a < b) :
    (¬ r.Detached → ∃ v : Int64, v = g.wrappingRange a b ∧ a ≤ v ∧ v < b ∧
      v.toInt - a.toInt = g.peek % (b.toInt - a.toInt) ∧
      evaluate setting r.print flags g =
        { result := .ok ⟨(∅ : Std.ExtTreeMap String String).insert "main" (toString v.toInt)⟩
          flags := flags
          warnings := []
          generator := g.advance }) ∧
    (r.Detached → evaluate setting r.print flags g =
      { result := .error (.fault (.malformedNumber (.minimum "")) 0)
        flags := flags
        warnings := []
        generator := g }) := by
  let start := State.start r.print flags g
  have ordered := Int64.lt_iff_toInt_lt.mp order
  have here : start.reader.text.toList.drop 0 = r.print ++ [] := (List.append_nil r.print).symm
  have there : (start.moveTo 1).reader.text.toList.drop 0 = r.print ++ [] := here
  obtain ⟨draws, stops⟩ := State.randomNumber_of_drop there low high ordered
  constructor
  · intro attached
    obtain ⟨least, below⟩ := wrappingRange_mem ordered g
    have value : (g.wrappingRange a b).toInt - a.toInt = g.peek % (b.toInt - a.toInt) := by
      rw [toInt_wrappingRange ordered, Int.add_comm, Int.add_sub_cancel]
    have reached : State.Reaches setting start
        ((start.moveTo 1).afterNumber (0 + r.print.length) (g.wrappingRange a b)) :=
      Structure.reaches_of_drop rfl here (draws attached)
    refine ⟨g.wrappingRange a b, rfl, least, below, value, ?_⟩
    generalize g.wrappingRange a b = v at reached
    have written := (start.moveTo 1).streams_afterNumber rfl (0 + r.print.length) v
    rw [State.evaluate_of_reaches reached, written, ← Streams.finish_write_empty]
    · rfl
    · have size : (start.moveTo 1).reader.text.size = r.print.length := List.size_toArray
      change ((start.moveTo 1).reader.moveTo (0 + r.print.length)).atEnd = true
      rw [Reader.atEnd_iff, Reader.position_moveTo, Reader.text_moveTo, size, Nat.zero_add,
        Nat.min_self]
  · intro detached
    rw [State.evaluate_of_stopped (.refl start) rfl (stops detached)]
    rfl

/-- The widest range, whose span does not fit in a signed word. -/
def widest : Bounds where
  lead := .none
  lower := ⟨true, "9223372036854775808".toList, by decide, List.all_eq_true.mp (by decide)⟩
  inner := .space
  next := ⟨['\t'], List.all_eq_true.mp (by decide)⟩
  upper := ⟨false, "9223372036854775807".toList, by decide, List.all_eq_true.mp (by decide)⟩
  trail := .none

theorem evaluate_number_widest :
    widest.print = "#[-9223372036854775808 -\t9223372036854775807]".toList ∧
      ∃ v : Int64, v.toInt - Int64.minValue.toInt = (Generator.ofSeed 0 0).peek ∧
        evaluate ⟨∅, "\n"⟩ widest.print ∅ (.ofSeed 0 0) =
          { result := .ok ⟨(∅ : Std.ExtTreeMap String String).insert "main" (toString v.toInt)⟩
            flags := ∅
            warnings := []
            generator := (Generator.ofSeed 0 0).advance } := by
  have attached : ¬ widest.Detached := fun detached => detached.1 rfl
  have low : widest.lower.value = Int64.minValue.toInt := by decide +kernel
  have high : widest.upper.value = Int64.maxValue.toInt := by decide +kernel
  have order : Int64.minValue < Int64.maxValue := by decide
  have draws := (evaluate_number ⟨∅, "\n"⟩ ∅ (.ofSeed 0 0) low high order).1
  obtain ⟨v, -, -, -, value, run⟩ := draws attached
  refine ⟨by decide +kernel, v, ?_, run⟩
  rw [value]
  decide +kernel

/-- The bounds -2 and -1, with a blank before the first sign. -/
def spacedOut : Bounds where
  lead := .space
  lower := ⟨true, ['2'], by decide, List.all_eq_true.mp (by decide)⟩
  inner := .none
  next := .none
  upper := ⟨true, ['1'], by decide, List.all_eq_true.mp (by decide)⟩
  trail := .none

/-- The sign of the lower bound is taken for the hyphen between the bounds. -/
theorem not_drawn_spacedOut :
    spacedOut.print = "#[ -2--1]".toList ∧
      ¬ ∃ output, (evaluate ⟨∅, "\n"⟩ spacedOut.print ∅ (.ofSeed 0 0)).result = .ok output := by
  let start := State.start spacedOut.print ∅ (.ofSeed 0 0)
  have here : (start.moveTo 1).reader.text.toList.drop 0 = spacedOut.print ++ [] := rfl
  have low : spacedOut.lower.value = (-2 : Int64).toInt := by decide +kernel
  have high : spacedOut.upper.value = (-1 : Int64).toInt := by decide +kernel
  have detached : spacedOut.Detached := ⟨by decide, rfl⟩
  have stopped : start.step ⟨∅, "\n"⟩ = .error (.fault (.malformedNumber (.minimum "")) 0) :=
    (State.randomNumber_of_drop here low high (by decide)).2 detached
  refine ⟨by decide, ?_⟩
  rw [State.evaluate_of_stopped (.refl start) rfl stopped]
  rintro ⟨output, same⟩
  contradiction

end Phrasebook
