import Mathlib.Data.Int.CardIntervalMod
import Mathlib.Data.Set.Card
import Phrasebook.Proofs.Generators
import Phrasebook.Proofs.Banks.Weights
import Phrasebook.Proofs.Safety.Picking

/-! The share of the draws that a candidate gets.
Candidates that stand once in a list own one stretch each of the numbers below the total, as long as
their weight. A draw is taken modulo the total, which brings it to every number about equally often
as long as the total is small, and only to the first 2 ^ 31 numbers where it is not. -/
namespace Phrasebook.Lexicon

variable {l : Lexicon} {weight : Nat → Nat} {draw i total start length value : Nat}
  {candidates before after : List Nat}

theorem sumOf_append (weight : Nat → Nat) (xs ys : List Nat) :
    sumOf weight (xs ++ ys) = sumOf weight xs + sumOf weight ys := by
  induction xs with
  | nil => exact (Nat.zero_add _).symm
  | cons first rest ih => rw [List.cons_append, sumOf, sumOf, ih, Nat.add_assoc]

theorem locate_eq_some_iff (distinct : (before ++ i :: after).Nodup) :
    locate weight draw (before ++ i :: after) = some i ↔
      sumOf weight before ≤ draw ∧ draw < sumOf weight before + weight i := by
  induction before generalizing draw with
  | nil =>
    have absent : i ∉ after := (List.nodup_cons.mp distinct).1
    rw [List.nil_append, locate, sumOf]
    split
    · rename_i inside
      exact iff_of_true rfl ⟨Nat.zero_le _, by omega⟩
    · rename_i outside
      exact iff_of_false (fun found => absent (locate_some found).1) (by omega)
  | cons first before ih =>
    obtain ⟨apart, distinct⟩ := List.nodup_cons.mp distinct
    have other : first ≠ i := by
      rintro rfl
      exact apart (List.mem_append_right _ List.mem_cons_self)
    rw [List.cons_append, locate, sumOf]
    split
    · rename_i inside
      exact iff_of_false (fun found => other (Option.some.inj found)) (by omega)
    · rename_i outside
      rw [ih distinct]
      omega

/-- The weight of the candidates that stand before one. -/
def weightBefore (l : Lexicon) (candidates : List Nat) (i : Nat) : Nat :=
  sumOf l.weightAt (candidates.takeWhile (· != i))

/-- The values of a draw on which a pick falls on a candidate. -/
def winning (l : Lexicon) (candidates : List Nat) (i : Nat) : Set Nat :=
  { value | ∃ g : Generator, g.peek = value ∧
      ∃ g', l.weightedPickAmong candidates g = .ok (some i, g') }

theorem exists_parts (distinct : candidates.Nodup) (member : i ∈ candidates) :
    ∃ before after, candidates = before ++ i :: after ∧
      l.weightBefore candidates i = sumOf l.weightAt before := by
  obtain ⟨before, after, rfl⟩ := List.append_of_mem member
  have absent : ∀ j ∈ before, (j != i) = true := by
    intro j listed
    rw [bne_iff_ne]
    rintro rfl
    exact (List.nodup_append.mp distinct).2.2 j listed j List.mem_cons_self rfl
  refine ⟨before, after, rfl, ?_⟩
  rw [weightBefore, List.takeWhile_append_of_pos absent, List.takeWhile_cons_of_neg (by simp),
    List.append_nil]

theorem mem_winning_iff (distinct : candidates.Nodup) (member : i ∈ candidates)
    (weighty : 0 < sumOf l.weightAt candidates) :
    value ∈ l.winning candidates i ↔ value < 2 ^ 31 ∧
      l.weightBefore candidates i ≤ value % sumOf l.weightAt candidates ∧
      value % sumOf l.weightAt candidates <
        l.weightBefore candidates i + l.weightAt i := by
  obtain ⟨before, after, split, same⟩ := exists_parts (l := l) distinct member
  have found : ∀ draw, locate l.weightAt draw candidates = some i ↔
      l.weightBefore candidates i ≤ draw ∧ draw < l.weightBefore candidates i + l.weightAt i := by
    intro draw
    rw [same, split]
    exact locate_eq_some_iff (split ▸ distinct)
  rw [← found, ← Generator.exists_peek_iff]
  constructor
  · rintro ⟨g, rfl, g', picked⟩
    obtain ⟨j, -, -, located, equation⟩ := weightedPickAmong_of_weighty weighty g
    rw [equation] at picked
    cases picked
    exact ⟨⟨g, rfl⟩, located⟩
  · rintro ⟨⟨g, rfl⟩, located⟩
    obtain ⟨j, -, -, again, equation⟩ := weightedPickAmong_of_weighty weighty g
    rw [located] at again
    cases again
    exact ⟨g, rfl, g.advance, equation⟩

section counting

variable {bound residue : Nat}

/-- The numbers below a bound that fall on a stretch of the residues. -/
def falling (bound total start length : Nat) : Finset Nat :=
  (Finset.range bound).filter fun value => start ≤ value % total ∧ value % total < start + length

theorem residue_bounds (bound : Nat) (low : residue < total) :
    bound / total ≤ ((Finset.range bound).filter (· % total = residue)).card ∧
      ((Finset.range bound).filter (· % total = residue)).card ≤ bound / total + 1 := by
  have counted : ((Finset.range bound).filter (· % total = residue)).card =
      bound / total + if residue < bound % total then 1 else 0 := by
    have congruent := Nat.count_modEq_card bound (Nat.zero_lt_of_lt low) residue
    rw [Nat.count_eq_card_filter_range] at congruent
    simpa only [Nat.ModEq, Nat.mod_eq_of_lt low] using congruent
  rw [counted]
  split <;> omega

theorem falling_succ (bound total start length : Nat) :
    falling bound total start (length + 1) =
      falling bound total start length ∪
        (Finset.range bound).filter (· % total = start + length) := by
  ext value
  simp only [falling, Finset.mem_union, Finset.mem_filter, Finset.mem_range]
  omega

theorem disjoint_falling (bound total start length : Nat) :
    Disjoint (falling bound total start length)
      ((Finset.range bound).filter (· % total = start + length)) := by
  rw [falling, Finset.disjoint_filter]
  omega

/-- Every residue of the stretch takes its part of the numbers. -/
theorem falling_bounds (inside : start + length ≤ total) :
    bound / total * length ≤ (falling bound total start length).card ∧
      (falling bound total start length).card ≤ (bound / total + 1) * length := by
  induction length with
  | zero => simp [falling]
  | succ length ih =>
    have further := ih (by omega)
    have last := residue_bounds bound (show start + length < total by omega)
    rw [falling_succ, Finset.card_union_of_disjoint (disjoint_falling _ _ _ _), Nat.mul_succ,
      Nat.mul_succ]
    omega

end counting

theorem weightBefore_add_le (distinct : candidates.Nodup) (member : i ∈ candidates) :
    l.weightBefore candidates i + l.weightAt i ≤ sumOf l.weightAt candidates := by
  obtain ⟨before, after, rfl, same⟩ := exists_parts (l := l) distinct member
  rw [same, sumOf_append, sumOf]
  omega

theorem winning_eq_falling (distinct : candidates.Nodup) (member : i ∈ candidates)
    (weighty : 0 < sumOf l.weightAt candidates) :
    l.winning candidates i = falling (2 ^ 31) (sumOf l.weightAt candidates)
      (l.weightBefore candidates i) (l.weightAt i) := by
  ext value
  rw [mem_winning_iff distinct member weighty, falling, Finset.mem_coe, Finset.mem_filter,
    Finset.mem_range]

theorem length_le_of_valid (distinct : candidates.Nodup)
    (valid : ∀ i ∈ candidates, i < l.words.length) : candidates.length ≤ l.words.length := by
  have listed : candidates ⊆ List.range l.words.length :=
    fun i member => List.mem_range.mpr (valid i member)
  simpa using (distinct.subperm listed).length_le

/-- Every draw finds a candidate that has a weight, and no sum on the way to it overflows. Of the
2 ^ 31 values of a draw a candidate gets a whole share for each unit of its weight, and one value
more for each at most. -/
theorem share_bounds (l : Lexicon) (candidates : List Nat) (small : l.words.length < 2 ^ 31)
    (distinct : candidates.Nodup) (valid : ∀ i ∈ candidates, i < l.words.length)
    (weighty : 0 < sumOf l.weightAt candidates) :
    (∀ value, (∃ g : Generator, g.peek = value) ↔ value < 2 ^ 31) ∧
    (∀ g : Generator, ∃ i ∈ candidates, 0 < l.weightAt i ∧
      locate l.weightAt (g.peek % sumOf l.weightAt candidates) candidates = some i ∧
      l.weightedPickAmong candidates g = .ok (some i, g.advance) ∧
      Machine.weightedPickAmong l candidates g = .ok (some i, g.advance)) ∧
    ∀ i ∈ candidates,
      2 ^ 31 / sumOf l.weightAt candidates * l.weightAt i ≤ (l.winning candidates i).ncard ∧
      (l.winning candidates i).ncard ≤
        (2 ^ 31 / sumOf l.weightAt candidates + 1) * l.weightAt i := by
  refine ⟨fun value => Generator.exists_peek_iff, ?_, ?_⟩
  · intro g
    obtain ⟨i, member, positive, located, picked⟩ := weightedPickAmong_of_weighty weighty g
    have short := Nat.lt_of_le_of_lt (length_le_of_valid distinct valid) small
    refine ⟨i, member, positive, located, picked, ?_⟩
    rw [Machine.weightedPickAmong_eq short, picked]
    rfl
  · intro i member
    rw [winning_eq_falling distinct member weighty, Set.ncard_coe_finset]
    exact falling_bounds (weightBefore_add_le distinct member)

/-- Three words, of which the second has no weight. -/
def uneven : Lexicon where
  symbol := 'u'
  title := ""
  description := ""
  subtypes := ["one"]
  words := [Word.make ["twice"] 2 [], Word.make ["never"] 0 [], Word.make ["once"] 1 []]
  classIndex := ∅

theorem share_bounds_uneven :
    uneven.words.length < 2 ^ 31 ∧ [2, 1, 0].Nodup ∧ (∀ i ∈ [2, 1, 0], i < uneven.words.length) ∧
      0 < sumOf uneven.weightAt [2, 1, 0] ∧
      1431655764 ≤ (uneven.winning [2, 1, 0] 0).ncard ∧
      (uneven.winning [2, 1, 0] 0).ncard ≤ 1431655766 := by
  have few : uneven.words.length < 2 ^ 31 := by decide
  have distinct : [2, 1, 0].Nodup := by decide
  have valid : ∀ i ∈ [2, 1, 0], i < uneven.words.length := by decide
  have weighty : 0 < sumOf uneven.weightAt [2, 1, 0] := by decide
  have shares := (share_bounds uneven [2, 1, 0] few distinct valid weighty).2.2 0 (by decide)
  exact ⟨few, distinct, valid, weighty, shares⟩

theorem exists_winning_iff (distinct : candidates.Nodup) (member : i ∈ candidates)
    (positive : 0 < l.weightAt i) :
    (∃ value < 2 ^ 31, value ∈ l.winning candidates i) ↔
      l.weightBefore candidates i < 2 ^ 31 := by
  have inside := weightBefore_add_le (l := l) distinct member
  have weighty : 0 < sumOf l.weightAt candidates := by omega
  constructor
  · rintro ⟨value, low, wins⟩
    obtain ⟨_, above, _⟩ := (mem_winning_iff distinct member weighty).mp wins
    have := Nat.mod_le value (sumOf l.weightAt candidates)
    omega
  · intro low
    have own : l.weightBefore candidates i % sumOf l.weightAt candidates =
        l.weightBefore candidates i := Nat.mod_eq_of_lt (by omega)
    refine ⟨l.weightBefore candidates i, low, ?_⟩
    rw [mem_winning_iff distinct member weighty, own]
    omega

/-- A candidate with a weight is found by some draw just where those before it weigh less than
2 ^ 31 together, and so all of them are where the total is no more than that. In a bank with less
than 2 ^ 31 words the sums fit into 64 bits. -/
theorem reachable_iff (l : Lexicon) (candidates : List Nat) (distinct : candidates.Nodup) :
    (∀ i ∈ candidates, 0 < l.weightAt i →
      ((∃ value < 2 ^ 31, value ∈ l.winning candidates i) ↔
        l.weightBefore candidates i < 2 ^ 31)) ∧
    (sumOf l.weightAt candidates ≤ 2 ^ 31 → ∀ i ∈ candidates, 0 < l.weightAt i →
      ∃ value < 2 ^ 31, value ∈ l.winning candidates i) ∧
    (l.words.length < 2 ^ 31 → (∀ i ∈ candidates, i < l.words.length) → ∀ g : Generator,
      Machine.weightedPickAmong l candidates g =
        Machine.lift (orStop (l.weightedPickAmong candidates g))) := by
  refine ⟨fun i member positive => exists_winning_iff distinct member positive, ?_, ?_⟩
  · intro few i member positive
    have inside := weightBefore_add_le (l := l) distinct member
    exact (exists_winning_iff distinct member positive).mpr (by omega)
  · intro small valid g
    have short := Nat.lt_of_le_of_lt (length_le_of_valid distinct valid) small
    exact Machine.weightedPickAmong_eq short

/-- A word that takes all the values of a draw, and one behind it. -/
def lopsided : Lexicon where
  symbol := 'n'
  title := ""
  description := ""
  subtypes := ["one"]
  words := [Word.make ["heavy"] 2147483648 [], Word.make ["light"] 1 []]
  classIndex := ∅

theorem reachable_iff_lopsided :
    [1, 0].Nodup ∧ 0 < lopsided.weightAt 0 ∧
      ∃ value < 2 ^ 31, value ∈ lopsided.winning [1, 0] 0 := by
  have distinct : [1, 0].Nodup := by decide
  have positive : 0 < lopsided.weightAt 0 := by decide
  have reachable := (reachable_iff lopsided [1, 0] distinct).1 0 (by decide) positive
  exact ⟨distinct, positive, reachable.mpr (by decide)⟩

/-- In the order of the bank the light word has a weight, and no draw finds it. -/
theorem light_unreachable :
    make 'n' "" "" ["one"] lopsided.words = .ok lopsided ∧ [0, 1].Nodup ∧
      (∀ i ∈ [0, 1], i < lopsided.words.length) ∧ 0 < lopsided.weightAt 1 ∧
      ¬ ∃ value < 2 ^ 31, value ∈ lopsided.winning [0, 1] 1 := by
  have distinct : [0, 1].Nodup := by decide
  have positive : 0 < lopsided.weightAt 1 := by decide
  refine ⟨rfl, distinct, by decide, positive, ?_⟩
  rw [exists_winning_iff distinct (by decide) positive]
  decide

end Phrasebook.Lexicon
