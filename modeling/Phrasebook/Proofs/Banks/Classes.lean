import Mathlib.Data.List.Basic
import Phrasebook.Proofs.Banks.Freshness

/-! The class index of a bank.
It lists for every class the places of the words that have it, in bank order, and has no entry for a
class without words. A freshness pass touches nothing that the index depends on. -/
namespace Phrasebook

namespace Lexicon

structure Indexed (words : List Word) (classIndex : Std.ExtTreeMap String (List Nat)) : Prop where
  listed : ∀ name : String, classIndex.getD name [] = words.findIdxs (·.hasClass name)
  inhabited : ∀ name : String, classIndex[name]? ≠ some []

section enter

variable {index : Nat} {name : String} {names : List String}
  {classIndex : Std.ExtTreeMap String (List Nat)}

theorem getD_enterAll (distinct : names.Nodup) :
    (names.foldl (fun entries name => entries.alter name fun old => some (old.getD [] ++ [index]))
      classIndex).getD name [] =
        classIndex.getD name [] ++ (if name ∈ names then [index] else []) := by
  induction names generalizing classIndex with
  | nil => simp
  | cons first names ih =>
    obtain ⟨fresh, distinct⟩ := List.nodup_cons.mp distinct
    rw [List.foldl_cons, ih distinct, Std.ExtTreeMap.getD_alter]
    by_cases same : first = name
    · subst same
      simp [fresh, Std.ExtTreeMap.getD_eq_getD_getElem?]
    · have other : name ≠ first := fun h => same h.symm
      simp [same, other]

theorem inhabited_enterAll (h : ∀ name : String, classIndex[name]? ≠ some []) :
    (names.foldl (fun entries name => entries.alter name fun old => some (old.getD [] ++ [index]))
      classIndex)[name]? ≠ some [] := by
  induction names generalizing classIndex with
  | nil => exact h name
  | cons first names ih =>
    apply ih
    intro other
    rw [Std.ExtTreeMap.getElem?_alter]
    split
    · simp
    · exact h other

theorem nodup_classes (word : Word) : word.classes.toList.Nodup := by
  have different := word.classes.distinct_toList
  exact different.imp fun apart same => apart (by rw [same]; exact Std.ReflCmp.compare_self)

end enter

variable {words words' : List Word} {classIndex classIndex' : Std.ExtTreeMap String (List Nat)}
  {symbol : Char} {expected : Nat}

theorem Indexed.empty : Indexed [] ∅ := by
  constructor
  · intro name
    simp
  · intro name
    simp

theorem Indexed.enter (h : Indexed words classIndex) (word : Word) :
    Indexed (words ++ [word]) (Lexicon.enter words.length word classIndex) := by
  constructor
  · intro name
    have member : name ∈ word.classes.toList ↔ word.hasClass name = true := by
      rw [Std.ExtTreeSet.mem_toList]
      exact Iff.rfl
    rw [Lexicon.enter, getD_enterAll (nodup_classes word), h.listed, List.findIdxs_append,
      Nat.zero_add, List.findIdxs_singleton]
    simp only [member]
  · intro name
    exact inhabited_enterAll h.inhabited

theorem Indexed.check (h : Indexed words classIndex)
    (checked : Lexicon.check symbol expected words.length classIndex words' = .ok classIndex') :
    Indexed (words ++ words') classIndex' := by
  induction words' generalizing words classIndex with
  | nil =>
    cases checked
    rwa [List.append_nil]
  | cons word words' ih =>
    simp only [Lexicon.check] at checked
    split at checked
    · have length : (words ++ [word]).length = words.length + 1 := List.length_append
      rw [← length] at checked
      have later := ih (h.enter word) checked
      rwa [List.append_assoc] at later
    · contradiction

theorem indexed_of_make {title description : String} {subtypes : List String} {l : Lexicon}
    (h : make symbol title description subtypes words = .ok l) : Indexed l.words l.classIndex := by
  simp only [make] at h
  split at h
  · contradiction
  · simp only [bind, Except.bind] at h
    split at h
    · contradiction
    · rename_i checked
      cases h
      exact Indexed.empty.check checked

theorem Indexed.of_withoutOffset (h : Indexed words classIndex)
    (same : words'.map Word.withoutOffset = words.map Word.withoutOffset) :
    Indexed words' classIndex := by
  have classes (name : String) (words : List Word) :
      words.findIdxs (·.hasClass name) =
        (words.map Word.withoutOffset).findIdxs (·.hasClass name) := by
    rw [List.findIdxs_map]
    rfl
  constructor
  · intro name
    rw [h.listed, classes, classes name words', same]
  · exact h.inhabited

end Lexicon

end Phrasebook
