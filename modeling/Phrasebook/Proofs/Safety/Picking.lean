import Phrasebook.Proofs.Safety.Agreement
import Phrasebook.Proofs.Safety.Banks

/-! Picks by weight stay within 64 bits.
A weight takes 33 bits and a bank has less than 2 ^ 31 words, so that neither the total nor any sum
on the way to it overflows. -/
namespace Phrasebook

def Setting.Supplied (setting : Setting) : Prop :=
  ∀ (symbol : Char) (lexicon : Lexicon), setting.lexicons[symbol]? = some lexicon →
    lexicon.Stocked ∧ lexicon.words.length < 2 ^ 31

namespace Machine

variable {l : Lexicon} {g : Generator} {sum draw : Nat} {candidates : List Nat}

theorem totalWeight_lt (w : Word) : w.totalWeight < 2 ^ 33 := by
  have := w.weight.toNat_lt
  have := w.offset.toNat_lt
  unfold Word.totalWeight
  omega

theorem weight_eq (w : Word) : weight w = .ok w.totalWeight := by
  have bound := totalWeight_lt w
  exact word_eq (Nat.lt_trans bound (by decide))

theorem weightAt_of_word {i : Nat} {w : Word} (h : l.words[i]? = some w) :
    l.weightAt i = w.totalWeight := by
  rw [Lexicon.weightAt, h]

theorem weightAt_of_none {i : Nat} (h : l.words[i]? = none) : l.weightAt i = 0 := by
  rw [Lexicon.weightAt, h]

theorem total_eq (small : sum + candidates.length * 2 ^ 33 < 2 ^ 64) :
    total l sum candidates = .ok (sum + Lexicon.sumOf l.weightAt candidates) := by
  induction candidates generalizing sum with
  | nil => rfl
  | cons i rest ih =>
    rw [List.length_cons] at small
    rw [Lexicon.sumOf, total]
    cases present : l.words[i]? with
    | none =>
      have fewer : rest.length * 2 ^ 33 ≤ (rest.length + 1) * 2 ^ 33 :=
        Nat.mul_le_mul_right _ (Nat.le_succ _)
      have room := Nat.lt_of_le_of_lt (Nat.add_le_add_left fewer sum) small
      rw [weightAt_of_none present, Nat.zero_add]
      exact ih room
    | some w =>
      have bound := totalWeight_lt w
      simp only
      rw [weightAt_of_word present, weight_eq, bind_ok, word_eq (by omega), bind_ok,
        ih (by omega), Nat.add_assoc]

/-- Comparing the sum with the draw finds the same candidate as lowering the draw. -/
theorem locate_eq (small : sum + candidates.length * 2 ^ 33 < 2 ^ 64) (low : sum ≤ draw) :
    locate l draw sum candidates =
      .ok (Lexicon.locate l.weightAt (draw - sum) candidates) := by
  induction candidates generalizing sum with
  | nil => rfl
  | cons i rest ih =>
    rw [List.length_cons] at small
    rw [Lexicon.locate, locate]
    cases present : l.words[i]? with
    | none =>
      have fewer : rest.length * 2 ^ 33 ≤ (rest.length + 1) * 2 ^ 33 :=
        Nat.mul_le_mul_right _ (Nat.le_succ _)
      have room := Nat.lt_of_le_of_lt (Nat.add_le_add_left fewer sum) small
      rw [weightAt_of_none present, if_neg (Nat.not_lt_zero _), Nat.sub_zero]
      exact ih room low
    | some w =>
      have bound := totalWeight_lt w
      simp only
      rw [weightAt_of_word present, weight_eq, bind_ok, word_eq (by omega), bind_ok]
      by_cases found : draw < sum + w.totalWeight
      · have below : draw - sum < w.totalWeight := by omega
        rw [if_pos found, if_pos below]
        rfl
      · have beyond : ¬ draw - sum < w.totalWeight := by omega
        rw [if_neg found, if_neg beyond, ih (by omega) (by omega), Nat.sub_add_eq]

theorem weightedPickAmong_eq (small : candidates.length < 2 ^ 31) :
    weightedPickAmong l candidates g = lift (orStop (l.weightedPickAmong candidates g)) := by
  cases candidates with
  | nil => rfl
  | cons i rest =>
    have room : 0 + (i :: rest).length * 2 ^ 33 < 2 ^ 64 := by omega
    have positive : 0 < (i :: rest).length := Nat.succ_pos _
    have filled : ¬(i :: rest).isEmpty = true := Bool.false_ne_true
    rw [weightedPickAmong, Lexicon.weightedPickAmong, total_eq room, Nat.zero_add, if_neg filled,
      bind_ok]
    split
    · have few : (i :: rest).length < 2 ^ 32 := by omega
      rw [below_eq g positive few, bind_ok, Lexicon.pickEvenly, if_neg filled,
        Generator.oneOf_of_lt g positive few, bind_ok]
      simp only
      have listed := List.getElem?_eq_getElem (Nat.mod_lt g.peek positive)
      rw [entry_eq listed]
      rfl
    · simp only [Generator.next]
      rw [locate_eq room (Nat.zero_le _), Nat.sub_zero]
      rfl

theorem weightedPick_eq (stocked : l.Stocked) (small : l.words.length < 2 ^ 31) (name : String) :
    weightedPick l name g = lift (orStop (l.weightedPick name g)) := by
  unfold weightedPick Lexicon.weightedPick
  cases listed : l.candidates? name with
  | none => rfl
  | some candidates =>
    have bound := stocked.length_candidates listed
    exact weightedPickAmong_eq (by omega)

variable {s : State} {index : Nat} {call : Call} {setting : Setting}

theorem pickFresh_eq (stocked : l.Stocked) (small : l.words.length < 2 ^ 31) :
    pickFresh l call index g = lift (State.pickFresh l call index g) := by
  unfold pickFresh State.pickFresh
  cases call.classList? with
  | some names =>
    simp only
    cases shared : l.intersection names with
    | error cause => rfl
    | ok common =>
      have bound := stocked.length_intersection shared
      cases common with
      | nil => rfl
      | cons i rest =>
        simp only
        rw [weightedPickAmong_eq (by omega), lift_bind]
        rfl
  | none =>
    simp only
    split
    · rfl
    · rw [weightedPick_eq stocked small, lift_bind]
      rfl

theorem pickWord_eq (stocked : l.Stocked) (small : l.words.length < 2 ^ 31) :
    pickWord s l call index = lift (s.pickWord l call index) := by
  simp only [pickWord, State.pickWord]
  generalize (State.carrierKey? call).bind (fun key => s.carriers.lookup key) = kept?
  cases kept? with
  | some i => rfl
  | none =>
    simp only
    rw [pickFresh_eq stocked small, lift_bind]
    cases State.pickFresh l call index s.generator with
    | error stop => rfl
    | ok drawn =>
      obtain ⟨picked, generator⟩ := drawn
      cases picked <;> rfl

theorem writeWord_eq {i : Nat} {article : Option PendingArticle} :
    writeWord s l call index i article = lift (s.writeWord l call index i article) := by
  rw [writeWord]
  cases s.writeWord l call index i article with
  | error stop => rfl
  | ok after =>
    rw [lift_ok, bind_ok, written_eq]

theorem wordCall_eq (supplied : setting.Supplied) (short : Short s.reader)
    (inside : index < s.reader.text.size) :
    wordCall setting s index = lift (s.wordCall setting index) := by
  have long : s.reader.text.size < 2 ^ 32 := short
  have size : (s.reader.tail index).length = s.reader.text.size - index := by
    rw [Reader.tail_eq, List.length_drop, Array.length_toList]
  rw [wordCall, State.wordCall, tail_eq, bind_ok, parseCall_eq (by omega), bind_ok]
  cases read : Call.parse? (s.reader.tail index) with
  | none => rfl
  | some call =>
    have bound := Call.length_of_parse? read
    simp only
    rw [short.word_eq (by omega), bind_ok]
    cases known : setting.lexicons[call.symbol]? with
    | none => rfl
    | some lexicon =>
      obtain ⟨stocked, small⟩ := supplied call.symbol lexicon known
      simp only
      rw [pickWord_eq stocked small, lift_bind]
      cases State.pickWord _ lexicon call index with
      | error stop => rfl
      | ok picked =>
        obtain ⟨picked?, after⟩ := picked
        cases picked? with
        | none => rfl
        | some i => exact writeWord_eq

end Machine

end Phrasebook
