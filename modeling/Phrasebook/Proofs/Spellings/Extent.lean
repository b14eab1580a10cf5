import Phrasebook.Evaluation.Effect
import Phrasebook.Proofs.Safety.Parsing
import Phrasebook.Proofs.Structure.Reading

/-! How far a call reaches.
A call is made of the characters that its length counts. Cut off behind them, the text gives the
same call by the same grammar: what either grammar has looked at further on, it has not taken. -/
namespace Phrasebook

namespace Call

variable {closing : Char} {allowed : Char → Bool} {text body after name : List Char} {call : Call}

/-- A block is over with its closing bracket. -/
theorem block?_cut (h : block? closing allowed text = some (body, after)) (rest : List Char) :
    block? closing allowed (body ++ closing :: rest) = some (body, rest) := by
  induction text generalizing body with
  | nil => contradiction
  | cons c text ih =>
    rw [block?] at h
    split at h
    · cases h
      rw [List.nil_append, block?, if_pos rfl]
    · rename_i other
      split at h
      · rename_i inside
        obtain ⟨⟨b, a⟩, found, same⟩ := Option.map_eq_some_iff.mp h
        cases same
        rw [List.cons_append, block?, if_neg other, if_pos inside, ih found, Option.map_some]
      · contradiction

/-- A call in the modern spelling is over with its bracket. -/
theorem modern?_cut (h : modern? text = some call) : ∃ consumed rest, text = consumed ++ rest ∧
    call.length = consumed.length + 1 ∧ ∀ more, modern? (consumed ++ more) = some call := by
  unfold modern? at h
  split at h
  · rename_i symbol inner
    split at h
    · rename_i symbolic
      obtain ⟨⟨body, after⟩, found, h⟩ := Option.bind_eq_some_iff.mp h
      refine ⟨symbol :: '[' :: (body ++ [']']), after, ?_, ?_, fun more => ?_⟩
      · simp [block?_eq_some found]
      · obtain ⟨_, _, h⟩ := Option.bind_eq_some_iff.mp h
        cases h
        simp
      · rw [List.cons_append, List.cons_append, List.append_assoc, List.singleton_append, modern?,
          if_pos symbolic, block?_cut found more]
        exact h
    · contradiction
  · contradiction

/-- A missing block stays missing where no bracket opens. -/
theorem squareBlock?_cut {length : Nat}
    (h : squareBlock? allowed text = some (body, length, after)) :
    ∃ block, text = block ++ after ∧ block.length = length ∧ ∀ rest, rest.head? ≠ some '[' →
      squareBlock? allowed (block ++ rest) = some (body, length, rest) := by
  unfold squareBlock? at h
  split at h
  · obtain ⟨⟨b, a⟩, found, same⟩ := Option.map_eq_some_iff.mp h
    cases same
    refine ⟨'[' :: (body ++ [']']), ?_, by simp, fun rest _ => ?_⟩
    · simp [block?_eq_some found]
    · rw [List.cons_append, List.append_assoc, List.singleton_append, squareBlock?,
        block?_cut found rest, Option.map_some]
  · cases h
    refine ⟨[], rfl, rfl, fun rest unopened => ?_⟩
    cases rest with
    | nil => rfl
    | cons c rest => exact squareBlock?_of_ne (by simpa using unopened) rest

/-- A carrier in its brackets, or nothing. -/
def angled (carrier : Option (List Char)) : List Char :=
  carrier.elim [] fun name => '<' :: (name ++ ['>'])

theorem carrierBlock?_cut (text : List Char) :
    (∃ rest, text = angled (carrierBlock? text) ++ rest) ∧
      carrierBlock? (angled (carrierBlock? text)) = carrierBlock? text := by
  cases named : carrierBlock? text with
  | none => exact ⟨⟨text, rfl⟩, rfl⟩
  | some name =>
    obtain ⟨after, rfl, present⟩ := carrierBlock?_eq_some named
    refine ⟨⟨after, by simp [angled]⟩, ?_⟩
    rw [carrierBlock?] at named
    split at named
    · rename_i c rest other found
      cases named
      rw [angled, Option.elim_some, carrierBlock?, block?_cut found []]
    · contradiction

theorem legacy?_cut (h : legacy? text = some call) : ∃ consumed rest, text = consumed ++ rest ∧
    call.length = consumed.length + 1 ∧ legacy? consumed = some call := by
  obtain ⟨⟨className, classLength, others⟩, classes, h⟩ := Option.bind_eq_some_iff.mp h
  obtain ⟨classBlock, rfl, rfl, sameClass⟩ := squareBlock?_cut classes
  cases others with
  | nil => contradiction
  | cons symbol others =>
    simp only at h
    split at h
    · rename_i symbolic
      obtain ⟨⟨subtype, subtypeLength, others⟩, subtypes, h⟩ := Option.bind_eq_some_iff.mp h
      obtain ⟨subtypeBlock, rfl, rfl, sameSubtype⟩ := squareBlock?_cut subtypes
      obtain ⟨⟨rest, split⟩, sameCarrier⟩ := carrierBlock?_cut others
      generalize carrierBlock? others = carrier at split sameCarrier h
      subst split
      refine ⟨classBlock ++ symbol :: (subtypeBlock ++ angled carrier), rest, by simp, ?_, ?_⟩
      · cases h
        cases carrier <;> simp [angled] <;> omega
      · have other : (symbol :: (subtypeBlock ++ angled carrier)).head? ≠ some '[' := by
          rintro same
          cases same
          contradiction
        have angle : (angled carrier).head? ≠ some '[' := by
          cases carrier <;> simp [angled]
        rw [legacy?, sameClass _ other]
        simp only [Option.bind_eq_bind, Option.bind_some]
        rw [if_pos symbolic, sameSubtype _ angle]
        simp only [Option.bind_some]
        rw [sameCarrier]
        exact h
    · contradiction

/-- Of the text of a call, a shorter part gives no such call. -/
theorem parse?_take_of_lt {n : Nat} (short : n < call.length) :
    parse? (text.take n) ≠ some call := by
  intro read
  have length := length_of_parse? read
  rw [List.length_take] at length
  omega

theorem parse?_cut (h : parse? text = some call) :
    parse? (text.take call.length) = some call := by
  unfold parse? at h
  split at h
  · rename_i text
    rcases Option.or_eq_some_iff.mp h with modern | ⟨unread, legacy⟩
    · obtain ⟨consumed, rest, rfl, length, read⟩ := modern?_cut modern
      have alone : modern? consumed = some call := by simpa using read []
      rw [length, List.take_succ_cons, List.take_left, parse?, alone, Option.some_or]
    · obtain ⟨consumed, rest, rfl, length, read⟩ := legacy?_cut legacy
      have unread : modern? consumed = none := by
        cases modern : modern? consumed with
        | none => rfl
        | some other =>
          obtain ⟨front, behind, rfl, _, read'⟩ := modern?_cut modern
          rw [List.append_assoc, read'] at unread
          contradiction
      rw [length, List.take_succ_cons, List.take_left, parse?, unread, read, Option.none_or]
  · contradiction

/-- A call is read from the characters that its length counts and from no fewer, and a run goes on
right behind them. -/
theorem parse?_take (h : parse? text = some call) :
    2 ≤ call.length ∧ call.length ≤ text.length ∧ parse? (text.take call.length) = some call ∧
      (∀ n < call.length, parse? (text.take n) ≠ some call) ∧
      ∀ (setting : Setting) (s t : State) (index : Nat), s.reader.tail index = text →
        s.wordCall setting index = .ok t →
          t.reader.text = s.reader.text ∧ t.reader.position = index + call.length ∧
            index + call.length ≤ s.reader.text.size ∧
            s.reader.slice index (index + call.length) = text.take call.length := by
  refine ⟨two_le_length_of_parse? h, length_of_parse? h, parse?_cut h,
    fun n short => parse?_take_of_lt short, ?_⟩
  intro setting s t index rest called
  obtain ⟨reader, _, _, _, _, _, _, _, rfl, moved⟩ := State.wordCall_frame called
  rw [rest, h, Option.elim_some] at moved
  subst moved
  rw [Reader.tail_eq] at rest
  have inside : index + call.length ≤ s.reader.text.size := by
    have low := two_le_length_of_parse? h
    have high := length_of_parse? h
    rw [← rest, List.length_drop, Array.length_toList] at high
    omega
  refine ⟨rfl, Nat.min_eq_left inside, inside, ?_⟩
  rw [Reader.slice, Array.toList_extract, List.extract_eq_take_drop, Nat.add_sub_cancel_left, rest]

/-- No call in the modern spelling, as nothing stands behind `of`. -/
def subtypeOf : List Char := "+n[of]<hero>!".toList

theorem parse?_take_subtypeOf :
    parse? subtypeOf = some ⟨'n', "of", "", some "hero", 12⟩ ∧
      parse? (subtypeOf.take 12) = some ⟨'n', "of", "", some "hero", 12⟩ ∧
      parse? (subtypeOf.take 11) ≠ some ⟨'n', "of", "", some "hero", 12⟩ ∧
      ∃ t, (State.start subtypeOf ∅ (Generator.ofSeed 7 0)).wordCall ⟨∅, "\n"⟩ 0 = .ok t ∧
        t.reader.position = 12 := by
  have read : parse? subtypeOf = some ⟨'n', "of", "", some "hero", 12⟩ := by decide +kernel
  have called : ((State.start subtypeOf ∅ (Generator.ofSeed 7 0)).wordCall ⟨∅, "\n"⟩ 0).toOption.map
      (fun _ => ()) = some () := by decide +kernel
  obtain ⟨t, ok, _⟩ := Option.map_eq_some_iff.mp called
  have ok := toOption_eq_some.mp ok
  obtain ⟨_, _, cut, shorter, jump⟩ := parse?_take read
  have whole : (State.start subtypeOf ∅ (Generator.ofSeed 7 0)).reader.tail 0 = subtypeOf := by
    decide +kernel
  exact ⟨read, cut, shorter 11 (by decide), t, ok, (jump ⟨∅, "\n"⟩ _ t 0 whole ok).2.1⟩

end Call

end Phrasebook
