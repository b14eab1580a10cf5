import Mathlib.Algebra.Group.Int.Defs
import Mathlib.Algebra.Group.Nat.Defs
import Phrasebook.Evaluation.Effect
import Phrasebook.Proofs.Generators

/-! The freshness pass, draw by draw.
A word takes one draw of a pass, and a second one where the first falls on zero modulo the odds. The
second draw gives the offset, from the factor to twenty times it, of which 32 bits are kept: as
draws stay below 2 ^ 31, they hold every offset up to a factor of 2 ^ 31 + 1, and beyond that not. -/
namespace Phrasebook

/-- What a freshness pass leaves of a word. -/
def Word.withoutOffset (w : Word) : Word := { w with offset := 0 }

/-- A word after a pass, by the values of its first draw and of a second one. -/
def Word.refreshed (factor : UInt32) (chance spread : Nat) (word : Word) : Word :=
  { word with
    offset := if chance % Lexicon.freshnessOdds factor = 0 then
      UInt32.ofNat (factor.toNat + spread % (19 * factor.toNat + 1)) else 0 }

namespace Lexicon

variable {factor : UInt32} {values : Nat → Nat} {chance spread : Nat} {word : Word}
  {words : List Word}

/-- The draws that a word takes, by the value of the first one. -/
def wordDraws (factor : UInt32) (chance : Nat) : Nat :=
  if chance % freshnessOdds factor = 0 then 2 else 1

/-- The draws of a pass before it comes to a word. -/
def turn (factor : UInt32) (values : Nat → Nat) : Nat → Nat
  | 0 => 0
  | k + 1 => turn factor values k + wordDraws factor (values (turn factor values k))

/-- The words after a pass whose draws have these values. -/
def refreshedAll (factor : UInt32) (values : Nat → Nat) (words : List Word) : List Word :=
  words.mapIdx fun k word =>
    word.refreshed factor (values (turn factor values k)) (values (turn factor values k + 1))

/-- How many of so many words take a second draw. -/
def hits (factor : UInt32) (values : Nat → Nat) (n : Nat) : Nat :=
  (List.range n).countP fun k => values (turn factor values k) % freshnessOdds factor = 0

theorem freshnessOdds_pos (factor : UInt32) : 0 < freshnessOdds factor := by
  unfold freshnessOdds
  omega

theorem wordDraws_of_hit (hit : chance % freshnessOdds factor = 0) :
    wordDraws factor chance = 2 := if_pos hit

theorem wordDraws_of_miss (miss : ¬ chance % freshnessOdds factor = 0) :
    wordDraws factor chance = 1 := if_neg miss

theorem ofInt_natCast (n : Nat) : UInt32.ofInt n = UInt32.ofNat n := by
  have low : ((n : Int) % 2 ^ 32).toNat = n % 2 ^ 32 := by omega
  rw [UInt32.ofInt, low]
  exact UInt32.ofNat_mod_size

theorem refresh_eq (factor : UInt32) (word : Word) (g : Generator) :
    refresh factor word g =
      .ok (word.refreshed factor g.peek (g.upcoming 1), g.skip (wordDraws factor g.peek)) := by
  refine bind_eq_ok.mpr ⟨_, Generator.below_of_pos g (freshnessOdds_pos factor), ?_⟩
  by_cases hit : g.peek % freshnessOdds factor = 0
  · have order : (factor.toNat : Int) < factor.toNat * 20 + 1 := by omega
    have span : (factor.toNat : Int) * 20 + 1 - factor.toNat = (19 * factor.toNat + 1 : Nat) := by
      omega
    have twice : g.advance.advance = g.skip 2 := g.skip_skip 1 1
    rw [wordDraws_of_hit hit, Word.refreshed, if_pos hit, ← ofInt_natCast, ← twice,
      Int.natCast_add, Int.natCast_emod, ← span]
    exact (if_pos hit).trans (bind_eq_ok.mpr ⟨_, Generator.range_of_lt g.advance order, rfl⟩)
  · rw [wordDraws_of_miss hit, Word.refreshed, if_neg hit]
    exact if_neg hit

theorem turn_succ (factor : UInt32) (values : Nat → Nat) (k : Nat) :
    turn factor values (k + 1) = wordDraws factor (values 0) +
      turn factor (fun n => values (wordDraws factor (values 0) + n)) k := by
  induction k with
  | zero => simp [turn]
  | succ k ih =>
    rw [turn, ih, turn]
    omega

theorem refreshedAll_cons (factor : UInt32) (values : Nat → Nat) (word : Word)
    (words : List Word) :
    refreshedAll factor values (word :: words) =
      word.refreshed factor (values 0) (values 1) ::
        refreshedAll factor (fun n => values (wordDraws factor (values 0) + n)) words := by
  rw [refreshedAll, List.mapIdx_cons, refreshedAll]
  simp only [turn_succ, Nat.add_assoc]
  rfl

/-- A pass is what the values of its draws make of the words, one after the other. -/
theorem refreshAll_eq (factor : UInt32) (words : List Word) (g : Generator) :
    refreshAll factor words g = .ok (refreshedAll factor g.upcoming words,
      g.skip (turn factor g.upcoming words.length)) := by
  induction words generalizing g with
  | nil =>
    rw [refreshAll, List.length_nil, turn, Generator.skip_zero]
    rfl
  | cons word words ih =>
    have later : (g.skip (wordDraws factor g.peek)).upcoming =
        fun n => g.upcoming (wordDraws factor (g.upcoming 0) + n) := by
      funext n
      rw [Generator.upcoming_skip, Generator.upcoming_zero]
    refine bind_eq_ok.mpr ⟨_, refresh_eq factor word g, bind_eq_ok.mpr ⟨_, ih _, ?_⟩⟩
    rw [refreshedAll_cons, later, Generator.skip_skip, List.length_cons, turn_succ,
      Generator.upcoming_zero]
    rfl

theorem turn_eq (factor : UInt32) (values : Nat → Nat) (n : Nat) :
    turn factor values n = n + hits factor values n := by
  induction n with
  | zero => rfl
  | succ n ih =>
    rw [turn, hits, List.range_succ, List.countP_append, List.countP_singleton, ← hits, wordDraws,
      ih]
    simp only [decide_eq_true_eq]
    rw [← ih]
    split <;> omega

theorem reshuffle_eq (l : Lexicon) (factor : UInt32) (g : Generator) :
    l.reshuffle factor g = .ok ({ l with words := refreshedAll factor g.upcoming l.words },
      g.skip (l.words.length + hits factor g.upcoming l.words.length)) := by
  rw [← turn_eq]
  exact bind_eq_ok.mpr ⟨_, refreshAll_eq factor l.words g, rfl⟩

theorem withoutOffset_refreshedAll (factor : UInt32) (values : Nat → Nat) (words : List Word) :
    (refreshedAll factor values words).map Word.withoutOffset = words.map Word.withoutOffset := by
  induction words generalizing values with
  | nil => rfl
  | cons word words ih =>
    rw [refreshedAll_cons, List.map_cons, List.map_cons, ih]
    rfl

/-- What a pass is meant to leave as an offset: none, or from the factor to twenty times it. -/
def Fresh (factor offset : UInt32) : Prop :=
  offset = 0 ∨ factor.toNat ≤ offset.toNat ∧ offset.toNat ≤ 20 * factor.toNat

instance (factor offset : UInt32) : Decidable (Fresh factor offset) :=
  inferInstanceAs (Decidable (_ ∨ _))

theorem fresh_refreshed (low : factor.toNat ≤ 2 ^ 31 + 1) (small : spread < 2 ^ 31) :
    Fresh factor (word.refreshed factor chance spread).offset := by
  have spreadLow := Nat.mod_le spread (19 * factor.toNat + 1)
  have spreadHigh := Nat.mod_lt spread (show 0 < 19 * factor.toNat + 1 by omega)
  by_cases hit : chance % freshnessOdds factor = 0
  · rw [Word.refreshed, if_pos hit]
    by_cases fits : factor.toNat + spread % (19 * factor.toNat + 1) < 2 ^ 32
    · right
      dsimp only
      rw [UInt32.toNat_ofNat_of_lt' fits]
      omega
    · -- The only sum that 32 bits do not hold is 2 ^ 32 itself, which leaves no offset.
      have whole : factor.toNat + spread % (19 * factor.toNat + 1) = 2 ^ 32 := by omega
      left
      dsimp only
      rw [whole]
      rfl
  · rw [Word.refreshed, if_neg hit]
    exact .inl rfl

/-- Beyond the limit a pair of draws makes the offset 1. -/
theorem not_fresh_refreshed (high : 2 ^ 31 + 1 < factor.toNat) :
    ¬ Fresh factor (word.refreshed factor 0 (2 ^ 32 + 1 - factor.toNat)).offset := by
  have size := factor.toNat_lt
  have own : (2 ^ 32 + 1 - factor.toNat) % (19 * factor.toNat + 1) = 2 ^ 32 + 1 - factor.toNat :=
    Nat.mod_eq_of_lt (by omega)
  have sum : factor.toNat + (2 ^ 32 + 1 - factor.toNat) = 2 ^ 32 + 1 := by omega
  rw [Word.refreshed, if_pos (Nat.zero_mod _), own, sum]
  rintro (none_ | ⟨above, -⟩)
  · exact absurd (show UInt32.ofNat (2 ^ 32 + 1) = 0 from none_) (by decide)
  · change factor.toNat ≤ 1 at above
    omega

theorem fresh_refreshedAll (low : factor.toNat ≤ 2 ^ 31 + 1) (small : ∀ n, values n < 2 ^ 31) :
    ∀ word ∈ refreshedAll factor values words, Fresh factor word.offset := by
  intro word member
  obtain ⟨k, inside, rfl⟩ := List.mem_mapIdx.mp member
  exact fresh_refreshed low (small _)

theorem exists_not_fresh (high : 2 ^ 31 + 1 < factor.toNat) (inhabited : words ≠ []) :
    ∃ values : Nat → Nat, (∀ n, values n < 2 ^ 31) ∧
      ∃ word ∈ refreshedAll factor values words, ¬ Fresh factor word.offset := by
  cases words with
  | nil => contradiction
  | cons word words =>
    refine ⟨fun n => if n = 0 then 0 else 2 ^ 32 + 1 - factor.toNat, ?_, ?_⟩
    · intro n
      dsimp only
      split <;> omega
    · rw [refreshedAll_cons]
      exact ⟨_, List.mem_cons_self, not_fresh_refreshed high⟩

/-- A pass draws once for each word, and once more for those it gives an offset, and changes nothing
but offsets. They are in the range that is meant, whatever the draws, just for the factors up to
2 ^ 31 + 1. -/
theorem reshuffle_exact (l : Lexicon) (factor : UInt32) :
    (∀ g : Generator, (∀ n, g.upcoming n < 2 ^ 31) ∧
      l.reshuffle factor g = .ok ({ l with words := refreshedAll factor g.upcoming l.words },
        g.skip (l.words.length + hits factor g.upcoming l.words.length))) ∧
    (∀ values, (refreshedAll factor values l.words).map Word.withoutOffset =
      l.words.map Word.withoutOffset) ∧
    (factor.toNat ≤ 2 ^ 31 + 1 → ∀ values : Nat → Nat, (∀ n, values n < 2 ^ 31) →
      ∀ word ∈ refreshedAll factor values l.words, Fresh factor word.offset) ∧
    (2 ^ 31 + 1 < factor.toNat → l.words ≠ [] →
      ∃ values : Nat → Nat, (∀ n, values n < 2 ^ 31) ∧
        ∃ word ∈ refreshedAll factor values l.words, ¬ Fresh factor word.offset) := by
  refine ⟨fun g => ⟨g.upcoming_lt, l.reshuffle_eq factor g⟩, ?_, ?_, ?_⟩
  · exact fun values => withoutOffset_refreshedAll factor values l.words
  · exact fun low values small => fresh_refreshedAll low small
  · exact exists_not_fresh

def lone : Lexicon where
  symbol := 'c'
  title := ""
  description := ""
  subtypes := ["one"]
  words := [Word.make ["cat"] 1 []]
  classIndex := ∅

/-- The first draw of this generator is 0 and the second 1469722381. -/
def luckyStart : Generator := Generator.ofSeed 12082607849862758611 8029199774643565357

theorem reshuffle_exact_lone :
    (2 : UInt32).toNat ≤ 2 ^ 31 + 1 ∧ ∃ fresh g', lone.reshuffle 2 luckyStart = .ok (fresh, g') ∧
      fresh.words.map (·.offset) = [12] ∧ ∀ word ∈ fresh.words, Fresh 2 word.offset := by
  obtain ⟨drawn, -, ranged, -⟩ := reshuffle_exact lone 2
  have low : (2 : UInt32).toNat ≤ 2 ^ 31 + 1 := by decide
  exact ⟨low, _, _, (drawn luckyStart).2, by decide +kernel, ranged low _ (drawn luckyStart).1⟩

/-- The offset drawn is 4469722381, of which 32 bits are less than the factor. -/
theorem reshuffle_overruns :
    ∃ fresh g', lone.reshuffle 3000000000 luckyStart = .ok (fresh, g') ∧
      ∃ word ∈ fresh.words, ¬ Fresh 3000000000 word.offset := by
  refine ⟨_, _, lone.reshuffle_eq 3000000000 luckyStart, ?_⟩
  decide +kernel

end Lexicon

end Phrasebook
