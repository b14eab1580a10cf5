import Phrasebook.Proofs.Spellings.Layout
import Phrasebook.Proofs.Structure.Opening

/-! Whole numbers in decimal, and white space around them.
Digits are neither blank nor a hyphen. So trimming leaves a number as it is, and the only hyphen in
it is its sign. -/
namespace Phrasebook

open Call (Blanks)
open Letter (isBlank)
open Structure (Numeral landmarks)

/-- Digits, which may begin with zeros, and before them a hyphen or nothing. -/
structure Decimal where
  negative : Bool
  numeral : Numeral

namespace Structure.Numeral

theorem integer?_eq (n : Numeral) (small : n.value < 0x8000000000000000) :
    Text.integer? n.digits = some (n.value : Int) := by
  have fits : -0x8000000000000000 ≤ (n.value : Int) ∧ (n.value : Int) < 0x8000000000000000 := by
    omega
  unfold Text.integer?
  split
  · rename_i rest signed
    have hyphen := n.decimal '-' (by rw [signed]; exact List.mem_cons_self)
    contradiction
  · rename_i rest signed
    have plus := n.decimal '+' (by rw [signed]; exact List.mem_cons_self)
    contradiction
  · rw [n.decimal?_eq]
    change (some (n.value : Int)).filter _ = _
    rw [Option.filter_some, if_pos (decide_eq_true fits)]

theorem integer?_negated (n : Numeral) (small : n.value ≤ 0x8000000000000000) :
    Text.integer? ('-' :: n.digits) = some (-(n.value : Int)) := by
  have fits : -0x8000000000000000 ≤ -(n.value : Int) ∧ -(n.value : Int) < 0x8000000000000000 := by
    omega
  rw [Text.integer?, n.decimal?_eq]
  change (some (-(n.value : Int))).filter _ = _
  rw [Option.filter_some, if_pos (decide_eq_true fits)]

end Structure.Numeral

namespace Decimal

def text (d : Decimal) : List Char :=
  if d.negative then '-' :: d.numeral.digits else d.numeral.digits

def value (d : Decimal) : Int := if d.negative then -d.numeral.value else d.numeral.value

variable (d : Decimal)

theorem forall_mem_text {p : Char → Prop} (hyphen : p '-') (digit : ∀ c, c.isDigit = true → p c) :
    ∀ c ∈ d.text, p c := by
  intro c member
  rw [text] at member
  split at member
  · rcases List.mem_cons.mp member with rfl | later
    · exact hyphen
    · exact digit c (d.numeral.decimal c later)
  · exact digit c (d.numeral.decimal c member)

theorem not_blank : ∀ c ∈ d.text, isBlank c = false :=
  d.forall_mem_text (by decide) fun c digit =>
    Letter.isBlank_of_isAlphanumeric (Letter.isAlphanumeric_of_isAlphanum c
      (by simp [Char.isAlphanum, digit]))

theorem not_landmark : ∀ c ∈ d.text, c ∉ landmarks :=
  d.forall_mem_text (by decide) fun _ => Structure.not_landmark_of_digit

theorem integer?_text (low : -0x8000000000000000 ≤ d.value) (high : d.value < 0x8000000000000000) :
    Text.integer? d.text = some d.value := by
  rw [value] at low high
  rw [text, value]
  split
  · rename_i negative
    rw [if_pos negative] at low
    exact d.numeral.integer?_negated (by omega)
  · rename_i positive
    rw [if_neg positive] at high
    exact d.numeral.integer?_eq (by omega)

end Decimal

namespace Call.Blanks

variable (w : Blanks)

theorem hyphen_not_mem : '-' ∉ w.chars := by
  intro member
  exact absurd (w.blank '-' member) (by decide)

theorem not_landmark : ∀ c ∈ w.chars, c ∉ landmarks := by
  intro c member landmark
  have none : landmarks.all (!isBlank ·) = true := by decide
  simpa [w.blank c member] using List.all_eq_true.mp none c landmark

end Call.Blanks

namespace Text

theorem trim_between (lead trail : Blanks) {text : List Char}
    (solid : ∀ c ∈ text, isBlank c = false) :
    trim (lead.chars ++ (text ++ trail.chars)) = text := by
  have solid_reversed : ∀ c ∈ text.reverse, isBlank c = false :=
    fun c member => solid c (List.mem_reverse.mp member)
  have blank_reversed : ∀ c ∈ trail.chars.reverse, isBlank c = true :=
    fun c member => trail.blank c (List.mem_reverse.mp member)
  rw [trim, List.dropWhile_append_of_pos lead.blank]
  cases text with
  | nil =>
    have cut : (trail.chars ++ []).dropWhile isBlank = [] :=
      List.dropWhile_append_of_pos trail.blank
    rw [List.append_nil] at cut
    rw [List.nil_append, cut]
    rfl
  | cons c text =>
    have first : isBlank c = false := solid c List.mem_cons_self
    rw [List.cons_append, List.dropWhile_cons_of_neg (by simp [first]), ← List.cons_append,
      List.reverse_append, List.dropWhile_append_of_pos blank_reversed,
      dropWhile_isBlank solid_reversed, List.reverse_reverse]

theorem trim_blanks (w : Blanks) : trim w.chars = [] := by
  have trimmed := trim_between w .none (show ∀ c ∈ [], isBlank c = false by simp)
  rw [List.nil_append] at trimmed
  exact (congrArg trim (List.append_nil w.chars).symm).trans trimmed

end Text

end Phrasebook
