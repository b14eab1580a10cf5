import Phrasebook.Evaluation.Effect
import Phrasebook.Loading
import Phrasebook.Proofs.Safety.Banks

/-! Candidates by class.
Wherever a bank comes from, the members of a class are exactly the words that have it, and the
intersection of several classes exactly the words that have them all, in bank order. So the order of
the classes in a call and their repetition do not matter to what it picks. -/
namespace Phrasebook

namespace Lexicon

variable {l : Lexicon} {name : String} {names names' : List String} {members common : List Nat}

/-- Banks that are made or read from a bank file by any decoder, and those reshuffled from them. -/
inductive Provided : Lexicon → Prop where
  | made {symbol : Char} {title description : String} {subtypes : List String} {words : List Word}
      {l : Lexicon} (h : make symbol title description subtypes words = .ok l) : Provided l
  | read {ε : Type} {decoder : Decoder ε} {text : String} {l : Lexicon}
      (h : decoder.parseLexicon text = .ok l) : Provided l
  | reshuffled {l l' : Lexicon} {factor : UInt32} {g g' : Generator} (before : Provided l)
      (h : l.reshuffle factor g = .ok (l', g')) : Provided l'

/-- Whatever a decoder gives are the parts of a bank, which is then made from them. -/
theorem stocked_of_parseLexicon {ε : Type} {decoder : Decoder ε} {text : String}
    (h : decoder.parseLexicon text = .ok l) : Stocked l := by
  obtain ⟨source, _, made⟩ := bind_eq_ok.mp h
  exact .made (mapError_eq_ok.mp made)

theorem Provided.stocked (h : Provided l) : Stocked l := by
  induction h with
  | made h => exact .made h
  | read h => exact stocked_of_parseLexicon h
  | reshuffled _ h ih => exact .reshuffled ih h

/-- The words that belong to every one of the classes, each once and in bank order. -/
structure Lists (l : Lexicon) (names : List String) (indices : List Nat) : Prop where
  increasing : indices.Pairwise (· < ·)
  mem_iff : ∀ i, i ∈ indices ↔
    ∃ inside : i < l.words.length, ∀ name ∈ names, l.words[i].hasClass name = true

theorem lists_among (l : Lexicon) (names : List String) : l.Lists names (l.among names) :=
  ⟨pairwise_among, fun _ => mem_among⟩

theorem among_congr (same : ∀ name, name ∈ names' ↔ name ∈ names) :
    l.among names' = l.among names := by
  unfold among
  congr 1
  funext word
  rw [Bool.eq_iff_iff, List.all_eq_true, List.all_eq_true]
  simp only [same]

theorem among_eq_nil_iff :
    l.among [name] = [] ↔ ∀ word ∈ l.words, word.hasClass name = false := by
  rw [among, List.findIdxs_eq_nil_iff]
  simp only [List.all_cons, List.all_nil, Bool.and_true]

theorem hasClass_eq_isSome (l : Lexicon) (name : String) :
    l.hasClass name = (l.members? name).isSome :=
  Std.ExtTreeMap.isSome_getElem?_eq_contains.symm

theorem mapM_of_known (known : ∀ name ∈ names, l.hasClass name = true) :
    ∃ lists, names.mapM l.membersOrFail = .ok lists := by
  induction names with
  | nil => exact ⟨[], rfl⟩
  | cons name names ih =>
    obtain ⟨lists, gathered⟩ := ih fun other member => known other (List.mem_cons_of_mem _ member)
    have first := known name List.mem_cons_self
    rw [hasClass_eq_isSome] at first
    obtain ⟨members, listed⟩ := Option.isSome_iff_exists.mp first
    refine ⟨members :: lists, ?_⟩
    rw [List.mapM_cons, membersOrFail_eq_ok.mpr listed, gathered]
    rfl

namespace Stocked

theorem members_eq_none_iff (h : Stocked l) :
    l.members? name = none ↔ ∀ word ∈ l.words, word.hasClass name = false := by
  rw [← among_eq_nil_iff]
  cases listed : l.members? name with
  | none =>
    have entry := h.indexed.listed name
    rw [Std.ExtTreeMap.getD_eq_getD_getElem?, show l.classIndex[name]? = none from listed] at entry
    simpa [among] using entry.symm
  | some members =>
    rw [← h.members_eq listed]
    exact iff_of_false (Option.some_ne_none members) (h.members_ne_nil listed)

/-- A class that a bank knows has a word. -/
theorem exists_word_iff (h : Stocked l) :
    l.hasClass name = true ↔ ∃ word ∈ l.words, word.hasClass name = true := by
  rw [hasClass_eq_isSome, ← Option.ne_none_iff_isSome, ne_eq, h.members_eq_none_iff]
  simp

theorem intersection_of_known (h : Stocked l) (several : 2 ≤ names.length)
    (known : ∀ name ∈ names, l.hasClass name = true) :
    l.intersection names = .ok (l.among names) := by
  obtain ⟨lists, gathered⟩ := mapM_of_known known
  cases shared : l.intersection names with
  | ok common => rw [h.intersection_eq shared]
  | error cause =>
    simp only [intersection, gathered, if_neg (Nat.not_lt.mpr several)] at shared
    cases lists <;> contradiction

end Stocked

end Lexicon

namespace State

variable {l : Lexicon} {call call' : Call} {index i : Nat} {g g' : Generator}
  {names names' : List String} {common : List Nat}

/-- A call for several classes picks among their intersection. -/
theorem pickFresh_eq_word_iff (listed : call.classList? = some names)
    (shared : l.intersection names = .ok common) :
    pickFresh l call index g = .ok (.word i, g') ↔
      l.weightedPickAmong common g = .ok (some i, g') := by
  simp only [pickFresh, listed, shared]
  cases common with
  | nil =>
    have none_ : l.weightedPickAmong [] g = .ok (none, g) := rfl
    rw [none_]
    exact iff_of_false nofun nofun
  | cons first rest =>
    constructor
    · intro picked
      obtain ⟨⟨picked?, g₁⟩, drawn, effect⟩ := bind_eq_ok.mp picked
      cases picked? with
      | none => cases effect
      | some j =>
        cases effect
        exact orStop_eq_ok.mp drawn
    · intro drawn
      exact bind_eq_ok.mpr ⟨_, orStop_eq_ok.mpr drawn, rfl⟩

end State

namespace Lexicon

variable {l : Lexicon}

/-- The members of a class and the words common to several are listed exactly, and a call for
several classes picks the same word for every way to name them. -/
theorem classes_exact (h : Provided l) :
    (∀ name, (l.hasClass name = true ↔ ∃ word ∈ l.words, word.hasClass name = true) ∧
      (l.members? name = none ↔ ∀ word ∈ l.words, word.hasClass name = false) ∧
      ∀ members, l.members? name = some members → l.Lists [name] members) ∧
    ∀ names, 2 ≤ names.length → (∀ name ∈ names, l.hasClass name = true) →
      ∃ common, l.intersection names = .ok common ∧ l.Lists names common ∧
        ∀ names', 2 ≤ names'.length → (∀ name, name ∈ names' ↔ name ∈ names) →
          l.intersection names' = .ok common ∧
          ∀ call call' : Call, call.classList? = some names → call'.classList? = some names' →
            ∀ index i g g', State.pickFresh l call' index g = .ok (.word i, g') ↔
              State.pickFresh l call index g = .ok (.word i, g') := by
  have stocked := h.stocked
  constructor
  · intro name
    refine ⟨stocked.exists_word_iff, stocked.members_eq_none_iff, ?_⟩
    intro members listed
    rw [stocked.members_eq listed]
    exact l.lists_among [name]
  · intro names several known
    have shared := stocked.intersection_of_known several known
    refine ⟨l.among names, shared, l.lists_among names, ?_⟩
    intro names' several' same
    have shared' : l.intersection names' = .ok (l.among names) := by
      rw [← among_congr same]
      apply stocked.intersection_of_known several'
      exact fun name member => known name ((same name).mp member)
    refine ⟨shared', ?_⟩
    intro call call' listed listed' index i g g'
    rw [State.pickFresh_eq_word_iff listed' shared', State.pickFresh_eq_word_iff listed shared]

def apple : Word := Word.make ["apple"] 1 ["fruit", "red"]

def banana : Word := Word.make ["banana"] 1 ["fruit", "yellow"]

def cherry : Word := Word.make ["cherry"] 1 ["red", "fruit"]

def orchard : Lexicon where
  symbol := 'f'
  title := ""
  description := ""
  subtypes := ["one"]
  words := [apple, banana, cherry]
  classIndex := enter 2 cherry (enter 1 banana (enter 0 apple ∅))

theorem classes_exact_orchard :
    Provided orchard ∧ (∀ name ∈ ["red", "fruit"], orchard.hasClass name = true) ∧
      ∃ common, orchard.intersection ["red", "fruit"] = .ok common ∧
        orchard.Lists ["red", "fruit"] common ∧
        orchard.intersection ["fruit", "red", "fruit"] = .ok common := by
  have made : make 'f' "" "" ["one"] [apple, banana, cherry] = .ok orchard := rfl
  have exact_ := classes_exact (.made made)
  have known : ∀ name ∈ ["red", "fruit"], orchard.hasClass name = true := by
    intro name listed
    refine (exact_.1 name).1.mpr ⟨apple, List.mem_cons_self, ?_⟩
    rw [List.mem_pair] at listed
    simpa [apple, Word.hasClass, Word.make, or_comm] using listed
  obtain ⟨common, shared, lists, others⟩ := exact_.2 ["red", "fruit"] (by decide) known
  have again := (others ["fruit", "red", "fruit"] (by decide) (by simp)).1
  exact ⟨.made made, known, common, shared, lists, again⟩

end Lexicon

end Phrasebook
