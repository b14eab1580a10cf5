import Phrasebook.Notice

/-! Lines and columns are as good as places.
Each character leads to a later line or to a later column of the same line, so that places of a text
stand in the order of their lines and columns, and no two of them share both. -/
namespace Phrasebook

/-- An earlier line, or an earlier column of the same line. -/
def Precedes : Nat × Nat → Nat × Nat → Prop := Prod.Lex (· < ·) (· < ·)

theorem Precedes.trans {p q r : Nat × Nat} (h : Precedes p q) (h' : Precedes q r) :
    Precedes p r := by
  cases h with
  | left _ _ line =>
    cases h' with
    | left _ _ line' => exact .left _ _ (Nat.lt_trans line line')
    | right _ _ => exact .left _ _ line
  | right line column =>
    cases h' with
    | left _ _ line' => exact .left _ _ line'
    | right _ column' => exact .right _ (Nat.lt_trans column column')

theorem Precedes.irrefl (p : Nat × Nat) : ¬ Precedes p p := by
  intro h
  cases h with
  | left _ _ line => exact Nat.lt_irrefl _ line
  | right _ column => exact Nat.lt_irrefl _ column

namespace Text

/-- The line and the column after a character. -/
def advance (line column : Nat) (c : Char) : Nat × Nat :=
  if c = '\n' then (line + 1, 1) else (line, column + 1)

theorem walk_succ (line column n : Nat) (c : Char) (rest : List Char) :
    walk line column (n + 1) (c :: rest) =
      walk (advance line column c).1 (advance line column c).2 n rest := by
  rw [walk, advance]
  split <;> rfl

theorem precedes_advance (line column : Nat) (c : Char) :
    Precedes (line, column) (advance line column c) := by
  unfold advance
  split
  · exact .left _ _ (Nat.lt_succ_self line)
  · exact .right _ (Nat.lt_succ_self column)

theorem precedes_walk {line column n : Nat} {text : List Char} (further : 0 < n)
    (inside : n ≤ text.length) : Precedes (line, column) (walk line column n text) := by
  induction text generalizing line column n with
  | nil =>
    rw [List.length_nil] at inside
    omega
  | cons c rest ih =>
    obtain ⟨m, rfl⟩ := Nat.exists_eq_add_one_of_ne_zero (Nat.ne_of_gt further)
    rw [walk_succ]
    have first := precedes_advance line column c
    cases m with
    | zero =>
      rw [walk]
      exact first
    | succ m =>
      rw [List.length_cons] at inside
      exact first.trans (ih (Nat.succ_pos m) (by omega))

theorem walk_precedes_walk {line column i j : Nat} {text : List Char} (order : i < j)
    (inside : j ≤ text.length) : Precedes (walk line column i text) (walk line column j text) := by
  induction text generalizing line column i j with
  | nil =>
    rw [List.length_nil] at inside
    omega
  | cons c rest ih =>
    cases i with
    | zero =>
      rw [walk]
      exact precedes_walk order inside
    | succ i =>
      obtain ⟨k, rfl⟩ := Nat.exists_eq_add_one_of_ne_zero (Nat.ne_of_gt (Nat.zero_lt_of_lt order))
      rw [walk_succ, walk_succ]
      rw [List.length_cons] at inside
      exact ih (by omega) (by omega)

theorem lineColumn_precedes {i j : Nat} {text : List Char} (order : i < j)
    (inside : j ≤ text.length) : Precedes (lineColumn text i) (lineColumn text j) :=
  walk_precedes_walk order inside

end Text

/-- The line and the column that a notice gives. -/
def Notice.place (n : Notice) : Nat × Nat := (n.line, n.column)

theorem Notice.place_about (severity : Severity) (stage : Stage) (message : String)
    (text : List Char) (index : Nat) :
    (about severity stage message text index).place = Text.lineColumn text index := rfl

/-- Notices about places of one text stand in the order of these places. -/
theorem Notice.place_precedes_iff (severity severity' : Severity) (stage stage' : Stage)
    (message message' : String) {i j : Nat} {text : List Char} (first : i ≤ text.length)
    (second : j ≤ text.length) :
    Precedes (about severity stage message text i).place
      (about severity' stage' message' text j).place ↔ i < j := by
  rw [place_about, place_about]
  constructor
  · intro before
    rcases Nat.lt_trichotomy i j with order | rfl | order
    · exact order
    · exact absurd before (Precedes.irrefl _)
    · have after := Text.lineColumn_precedes order first
      exact absurd (before.trans after) (Precedes.irrefl _)
  · intro order
    exact Text.lineColumn_precedes order second

theorem Notice.place_injective (severity severity' : Severity) (stage stage' : Stage)
    (message message' : String) {i j : Nat} {text : List Char} (first : i ≤ text.length)
    (second : j ≤ text.length)
    (same : (about severity stage message text i).place =
      (about severity' stage' message' text j).place) : i = j := by
  rcases Nat.lt_trichotomy i j with order | rfl | order
  · have before := (place_precedes_iff severity severity' stage stage' message message' first
      second).mpr order
    rw [same] at before
    exact absurd before (Precedes.irrefl _)
  · rfl
  · have before := (place_precedes_iff severity' severity stage' stage message' message second
      first).mpr order
    rw [same] at before
    exact absurd before (Precedes.irrefl _)

end Phrasebook
