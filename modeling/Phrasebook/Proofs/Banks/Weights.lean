import Phrasebook.Proofs.Safety.Banks

/-! Picks by weight.
The scan stops at a candidate with a weight. Where no candidate has one, the pick is even, and any
of them may be picked. -/
namespace Phrasebook.Lexicon

variable {l : Lexicon} {weight : Nat → Nat} {draw i : Nat} {candidates : List Nat}
  {g g' : Generator} {picked? : Option Nat} {name : String} {names : List String}
  {cause : LexiconError}

theorem locate_some (h : locate weight draw candidates = some i) :
    i ∈ candidates ∧ 0 < weight i := by
  induction candidates generalizing draw with
  | nil => contradiction
  | cons first rest ih =>
    rw [locate] at h
    split at h
    · rename_i below
      cases h
      exact ⟨List.mem_cons_self, Nat.zero_lt_of_lt below⟩
    · obtain ⟨member, positive⟩ := ih h
      exact ⟨List.mem_cons_of_mem first member, positive⟩

theorem eq_zero_of_sumOf (h : sumOf weight candidates = 0) : ∀ i ∈ candidates, weight i = 0 := by
  induction candidates with
  | nil => simp
  | cons first rest ih =>
    rw [sumOf, Nat.add_eq_zero_iff] at h
    exact List.forall_mem_cons.mpr ⟨h.1, ih h.2⟩

theorem exists_locate (h : draw < sumOf weight candidates) :
    ∃ i, locate weight draw candidates = some i := by
  induction candidates generalizing draw with
  | nil => contradiction
  | cons first rest ih =>
    rw [sumOf] at h
    rw [locate]
    split
    · exact ⟨first, rfl⟩
    · exact ih (by omega)

theorem pickEvenly_ok (h : pickEvenly candidates g = .ok (picked?, g')) :
    (candidates = [] ∧ picked? = none) ∨ ∃ i ∈ candidates, picked? = some i := by
  unfold pickEvenly at h
  split at h
  · rename_i empty
    cases h
    exact .inl ⟨List.isEmpty_iff.mp empty, rfl⟩
  · simp only [bind, Except.bind] at h
    split at h
    · contradiction
    · cases h
      exact .inr ⟨_, List.get_mem _ _, rfl⟩

/-- Where there is any weight, the scan ends at a candidate that has some. -/
theorem weightedPickAmong_of_weighty (weighty : 0 < sumOf l.weightAt candidates) (g : Generator) :
    ∃ i ∈ candidates, 0 < l.weightAt i ∧
      locate l.weightAt (g.peek % sumOf l.weightAt candidates) candidates = some i ∧
      l.weightedPickAmong candidates g = .ok (some i, g.advance) := by
  obtain ⟨i, located⟩ := exists_locate (Nat.mod_lt g.peek weighty)
  obtain ⟨member, positive⟩ := locate_some located
  refine ⟨i, member, positive, located, ?_⟩
  simp only [weightedPickAmong, if_neg (Nat.ne_of_gt weighty), Generator.next, located]
  rfl

theorem weightedPickAmong_ok (h : l.weightedPickAmong candidates g = .ok (picked?, g')) :
    (candidates = [] ∧ picked? = none) ∨
      ∃ i ∈ candidates, picked? = some i ∧
        (l.weightAt i = 0 → ∀ j ∈ candidates, l.weightAt j = 0) := by
  rcases Nat.eq_zero_or_pos (sumOf l.weightAt candidates) with weightless | weighty
  · simp only [weightedPickAmong, if_pos weightless] at h
    rcases pickEvenly_ok h with none_ | ⟨i, member, picked⟩
    · exact .inl none_
    · exact .inr ⟨i, member, picked, fun _ => eq_zero_of_sumOf weightless⟩
  · obtain ⟨i, member, positive, -, picked⟩ := weightedPickAmong_of_weighty weighty g
    rw [picked] at h
    cases h
    exact .inr ⟨i, member, rfl, fun zero => absurd zero (Nat.ne_of_gt positive)⟩

theorem membersOrFail_error (h : l.membersOrFail name = .error cause) :
    cause = .unknownClass l.symbol name := by
  unfold membersOrFail at h
  split at h
  · contradiction
  · cases h
    rfl

theorem mapM_members_error (h : names.mapM l.membersOrFail = .error cause) :
    ∃ name ∈ names, cause = .unknownClass l.symbol name := by
  induction names with
  | nil => contradiction
  | cons name names ih =>
    rw [List.mapM_cons] at h
    cases member : l.membersOrFail name with
    | error first =>
      rw [member] at h
      cases h
      exact ⟨name, List.mem_cons_self, membersOrFail_error member⟩
    | ok members =>
      cases rest : names.mapM l.membersOrFail with
      | error later =>
        rw [member, rest] at h
        cases h
        obtain ⟨other, listed, unknown⟩ := ih rest
        exact ⟨other, List.mem_cons_of_mem name listed, unknown⟩
      | ok others =>
        rw [member, rest] at h
        contradiction

theorem intersection_error (h : l.intersection names = .error cause) :
    (names.length < 2 ∧ cause = .tooFewClasses (",".intercalate names)) ∨
      ∃ name ∈ names, cause = .unknownClass l.symbol name := by
  simp only [intersection] at h
  split at h
  · rename_i few
    cases h
    exact .inl ⟨few, rfl⟩
  · cases gathered : names.mapM l.membersOrFail with
    | error first =>
      rw [gathered] at h
      cases h
      exact .inr (mapM_members_error gathered)
    | ok lists =>
      rw [gathered] at h
      cases lists <;> contradiction

/-- An index that a call for words of these classes may pick. -/
structure Fit (l : Lexicon) (names : List String) (i : Nat) : Prop where
  inside : i < l.words.length
  classes : ∀ name ∈ names, l.words[i].hasClass name = true
  weighty : l.weightAt i = 0 → ∀ j ∈ l.among names, l.weightAt j = 0

theorem fit_of_picked (h : l.weightedPickAmong (l.among names) g = .ok (picked?, g')) :
    (l.among names = [] ∧ picked? = none) ∨ ∃ i, picked? = some i ∧ l.Fit names i := by
  rcases weightedPickAmong_ok h with none_ | ⟨i, member, picked, weighty⟩
  · exact .inl none_
  · obtain ⟨inside, classes⟩ := mem_among.mp member
    exact .inr ⟨i, picked, inside, classes, weighty⟩

theorem Stocked.candidates_nil (h : Stocked l) (listed : l.candidates? name = some []) :
    name = "" ∧ l.words = [] := by
  unfold candidates? at listed
  split at listed
  · rename_i empty
    rw [Option.some.injEq, List.range_eq_nil] at listed
    exact ⟨String.isEmpty_iff.mp empty, List.length_eq_zero_iff.mp listed⟩
  · exact absurd rfl (h.members_ne_nil listed)

theorem exists_candidates (known : name.isEmpty ∨ l.hasClass name) :
    ∃ candidates, l.candidates? name = some candidates := by
  unfold candidates?
  split
  · exact ⟨_, rfl⟩
  · rename_i named
    have known := known.resolve_left named
    exact ⟨_, Std.ExtTreeMap.getElem?_eq_some_getElem known⟩

/-- Only a bank without words has no word for a class that it knows. -/
theorem Stocked.weightedPick_ok (h : Stocked l) (known : name.isEmpty ∨ l.hasClass name)
    (drawn : l.weightedPick name g = .ok (picked?, g')) :
    (picked? = none ∧ name = "" ∧ l.words = []) ∨
      ∃ i, picked? = some i ∧ l.Fit (if name.isEmpty then [] else [name]) i := by
  obtain ⟨candidates, listed⟩ := exists_candidates known
  have same := h.candidates_eq listed
  rw [weightedPick, listed] at drawn
  dsimp only at drawn
  rw [same] at drawn
  rcases fit_of_picked drawn with ⟨empty, none_⟩ | fit
  · rw [same, empty] at listed
    exact .inl ⟨none_, h.candidates_nil listed⟩
  · exact .inr fit

/-- A word that is there can only lack a form. -/
theorem Fit.resolve_error (h : l.Fit names i) {subtype : String} {casing : Letter.Casing}
    (failed : l.resolve i subtype casing = .error cause) :
    cause = .subtypeNotFound l.symbol subtype := by
  rw [resolve, List.getElem?_eq_getElem h.inside] at failed
  dsimp only at failed
  split at failed
  · cases failed
    rfl
  · contradiction

end Phrasebook.Lexicon
