import Mathlib.Data.List.Sort
import Phrasebook.Proofs.Banks.Classes

/-! Banks that are made and then reshuffled.
A freshness pass keeps the classes of every word, so that the class index stays exact: a list of
candidates is the list of the words that belong to the classes asked for, in bank order. -/
namespace Phrasebook.Lexicon

inductive Stocked : Lexicon → Prop where
  | made {symbol : Char} {title description : String} {subtypes : List String} {words : List Word}
      {l : Lexicon} (h : make symbol title description subtypes words = .ok l) : Stocked l
  | reshuffled {l l' : Lexicon} {factor : UInt32} {g g' : Generator} (before : Stocked l)
      (h : l.reshuffle factor g = .ok (l', g')) : Stocked l'

/-- The places of the words that belong to every one of the classes. -/
def among (l : Lexicon) (names : List String) : List Nat :=
  l.words.findIdxs fun word => names.all word.hasClass

variable {l : Lexicon} {name : String} {names : List String} {members candidates : List Nat}
  {i : Nat}

theorem mem_among :
    i ∈ l.among names ↔
      ∃ inside : i < l.words.length, ∀ name ∈ names, l.words[i].hasClass name = true := by
  rw [among, List.mem_findIdxs_iff_exists_getElem_pos]
  simp only [List.all_eq_true]

theorem pairwise_among : (l.among names).Pairwise (· < ·) := List.pairwise_findIdxs

theorem length_among : (l.among names).length ≤ l.words.length := by
  rw [among, List.length_findIdxs]
  exact List.countP_le_length

namespace Stocked

theorem indexed (h : Stocked l) : Indexed l.words l.classIndex := by
  induction h with
  | made h => exact indexed_of_make h
  | reshuffled _ h ih =>
    rw [reshuffle_eq] at h
    cases h
    exact ih.of_withoutOffset (withoutOffset_refreshedAll _ _ _)

theorem members_eq (h : Stocked l) (listed : l.members? name = some members) :
    members = l.among [name] := by
  have entry := h.indexed.listed name
  rw [Std.ExtTreeMap.getD_eq_getD_getElem?, show l.classIndex[name]? = some members from listed]
    at entry
  simpa [among] using entry

theorem members_ne_nil (h : Stocked l) (listed : l.members? name = some members) :
    members ≠ [] := by
  rintro rfl
  exact h.indexed.inhabited name listed

theorem candidates_eq (h : Stocked l) (listed : l.candidates? name = some candidates) :
    candidates = l.among (if name.isEmpty then [] else [name]) := by
  unfold candidates? at listed
  split at listed
  · rename_i empty
    cases listed
    rw [if_pos empty]
    apply List.pairwise_lt_range.eq_of_mem_iff pairwise_among
    intro i
    simp [mem_among]
  · rename_i named
    rw [if_neg named]
    exact h.members_eq listed

end Stocked

theorem membersOrFail_eq_ok :
    l.membersOrFail name = .ok members ↔ l.members? name = some members := by
  unfold membersOrFail
  cases l.members? name <;> simp

namespace Stocked

theorem mapM_members (h : Stocked l) {lists : List (List Nat)}
    (gathered : names.mapM l.membersOrFail = .ok lists) :
    lists = names.map fun name => l.among [name] := by
  induction names generalizing lists with
  | nil =>
    cases gathered
    rfl
  | cons name names ih =>
    rw [List.mapM_cons] at gathered
    cases member : l.membersOrFail name with
    | error cause =>
      rw [member] at gathered
      contradiction
    | ok members =>
      cases rest : names.mapM l.membersOrFail with
      | error cause =>
        rw [member, rest] at gathered
        contradiction
      | ok others =>
        rw [member, rest] at gathered
        cases gathered
        rw [List.map_cons, ih rest, h.members_eq (membersOrFail_eq_ok.mp member)]

/-- The words common to several classes are found in the members of the first one. -/
theorem intersection_eq (h : Stocked l) {common : List Nat}
    (shared : l.intersection names = .ok common) : common = l.among names := by
  simp only [intersection] at shared
  split at shared
  · contradiction
  · rename_i several
    cases gathered : names.mapM l.membersOrFail with
    | error cause =>
      rw [gathered] at shared
      contradiction
    | ok lists =>
      rw [gathered] at shared
      obtain rfl := h.mapM_members gathered
      cases names with
      | nil => exact absurd Nat.zero_lt_two several
      | cons name names =>
        cases shared
        apply (pairwise_among.filter _).eq_of_mem_iff pairwise_among
        intro i
        simp only [List.mem_filter, List.all_map, List.all_eq_true, Function.comp_apply,
          List.contains_iff_mem, mem_among, List.forall_mem_cons, List.not_mem_nil, false_implies,
          implies_true, and_true]
        constructor
        · rintro ⟨⟨inside, first⟩, others⟩
          exact ⟨inside, first, fun other member => (others other member).2⟩
        · rintro ⟨inside, first, others⟩
          exact ⟨⟨inside, first⟩, fun other member => ⟨inside, others other member⟩⟩

theorem length_candidates (h : Stocked l) (listed : l.candidates? name = some candidates) :
    candidates.length ≤ l.words.length := by
  rw [h.candidates_eq listed]
  exact length_among

theorem length_intersection (h : Stocked l) {common : List Nat}
    (shared : l.intersection names = .ok common) : common.length ≤ l.words.length := by
  rw [h.intersection_eq shared]
  exact length_among

end Stocked

end Phrasebook.Lexicon
