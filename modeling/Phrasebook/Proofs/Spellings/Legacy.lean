import Phrasebook.Proofs.Likeness
import Phrasebook.Proofs.Safety.Parsing
import Phrasebook.Proofs.Spellings.Modern

/-! Every call can be written in the legacy spelling.
What either grammar takes for a name is made of the characters that the legacy brackets allow, and
in the legacy spelling of a call the first bracket stands where the modern grammar wants a symbol.
So the spelling parses back by the legacy grammar, whichever the call was read by. -/
namespace Phrasebook

namespace Call

variable {closing c : Char} {allowed : Char → Bool} {text body after rest name : List Char}
  {words : List (List Char)} {call : Call}

/-- The call as `+[class]symbol[subtype]<carrier>`. -/
def legacyText (call : Call) : List Char :=
  '+' :: '[' :: (call.className.toList ++ ']' :: call.symbol :: '[' ::
    (call.subtype.toList ++ ']' ::
      call.carrier.elim [] fun name => '<' :: (name.toList ++ ['>'])))

/-- The parts of a call are made of the characters that its brackets allow. -/
structure WellSpelled (call : Call) : Prop where
  symbol : isSymbol call.symbol = true
  className : ∀ c ∈ call.className.toList, isClassChar c = true
  subtype : ∀ c ∈ call.subtype.toList, isNameChar c = true
  carrier : ∀ name ∈ call.carrier, name.toList ≠ [] ∧ ∀ c ∈ name.toList, isNameChar c = true

theorem allowed_of_block? (h : block? closing allowed text = some (body, after)) :
    ∀ c ∈ body, allowed c = true := by
  induction text generalizing body with
  | nil => contradiction
  | cons d text ih =>
    rw [block?] at h
    split at h
    · cases h
      exact fun c member => absurd member List.not_mem_nil
    · split at h
      · rename_i here
        obtain ⟨⟨inner, rest⟩, found, same⟩ := Option.map_eq_some_iff.mp h
        cases same
        exact List.forall_mem_cons.mpr ⟨here, ih found⟩
      · contradiction

theorem allowed_of_squareBlock? {length : Nat}
    (h : squareBlock? allowed text = some (body, length, after)) : ∀ c ∈ body, allowed c = true := by
  unfold squareBlock? at h
  split at h
  · obtain ⟨⟨inner, rest⟩, found, same⟩ := Option.map_eq_some_iff.mp h
    cases same
    exact allowed_of_block? found
  · cases h
    exact fun c member => absurd member List.not_mem_nil

theorem named_of_carrierBlock? (h : carrierBlock? text = some name) :
    name ≠ [] ∧ ∀ c ∈ name, isNameChar c = true := by
  unfold carrierBlock? at h
  split at h
  · split at h
    · rename_i found
      cases h
      exact ⟨List.cons_ne_nil _ _, allowed_of_block? found⟩
    · contradiction
  · contradiction

theorem isClassChar_of_isBodyChar (body : isBodyChar c = true) (solid : Letter.isBlank c = false) :
    isClassChar c = true := by
  simpa [isBodyChar, isClassChar, solid] using body

theorem isNameChar_of_isClassChar (listed : isClassChar c = true) (other : c ≠ ',') :
    isNameChar c = true := by
  simpa [isClassChar, other] using listed

/-- Words of a body that have no comma are made of name characters. -/
theorem named_of_single (listed : ∀ word ∈ words, ∀ c ∈ word, isClassChar c = true)
    (whole : words.all (!·.contains ',') = true) : ∀ c ∈ words.flatten, isNameChar c = true := by
  intro c member
  obtain ⟨word, here, inside⟩ := List.mem_flatten.mp member
  refine isNameChar_of_isClassChar (listed word here c inside) ?_
  rintro rfl
  have absent := List.all_eq_true.mp whole word here
  simp [inside] at absent

theorem mem_of_takeClasses (words : List (List Char)) :
    (∀ word ∈ (takeClasses words).1.getD [], word ∈ words) ∧
      ∀ word ∈ (takeClasses words).2, word ∈ words := by
  cases words with
  | nil => simp [takeClasses]
  | cons first words =>
    rw [takeClasses]
    split
    · exact ⟨fun word taken => List.mem_cons_of_mem _ ((List.takeWhile_sublist _).mem taken),
        fun word left => List.mem_cons_of_mem _ ((List.dropWhile_sublist _).mem left)⟩
    · simp

/-- What well formed words are sorted into is well formed. -/
theorem spelled_of_ofWords? {parts : Parts}
    (listed : ∀ word ∈ words, word ≠ [] ∧ ∀ c ∈ word, isClassChar c = true)
    (h : Parts.ofWords? words = some parts) :
    (∀ c ∈ parts.subtype, isNameChar c = true) ∧ (∀ c ∈ parts.className, isClassChar c = true) ∧
      ∀ name ∈ parts.carrier, name ≠ [] ∧ ∀ c ∈ name, isNameChar c = true := by
  simp only [Parts.ofWords?, Option.ite_none_right_eq_some, Bool.and_eq_true] at h
  have from_words {word : List Char}
      (member : word ∈ words.dropWhile fun word => word != ofWord && word != forWord) :
      word ≠ [] ∧ ∀ c ∈ word, isClassChar c = true :=
    listed word ((List.dropWhile_sublist _).mem member)
  obtain ⟨class_words, other_words⟩ :=
    mem_of_takeClasses (words.dropWhile fun word => word != ofWord && word != forWord)
  generalize takeClasses (words.dropWhile fun word => word != ofWord && word != forWord) = sorted
    at h class_words other_words
  obtain ⟨classes?, others⟩ := sorted
  obtain ⟨⟨⟨⟨_, subtype_whole⟩, carrier_single⟩, _⟩, same⟩ := h
  cases same
  refine ⟨?_, ?_, ?_⟩
  · refine named_of_single (fun word member => ?_) subtype_whole
    exact (listed word ((List.takeWhile_sublist _).mem member)).2
  · intro c member
    obtain ⟨word, here, inside⟩ := List.mem_flatten.mp member
    exact (from_words (class_words word here)).2 c inside
  · intro name member
    cases others with
    | nil => contradiction
    | cons introducer carrier =>
      simp only [Option.map_some, Option.mem_some_iff] at member
      subst member
      simp only [Option.all_some, Bool.and_eq_true, decide_eq_true_eq] at carrier_single
      obtain ⟨⟨_, whole⟩, present⟩ := carrier_single
      have words_of_carrier : ∀ word ∈ carrier, word ≠ [] ∧ ∀ c ∈ word, isClassChar c = true :=
        fun word member => from_words (other_words word (List.mem_cons_of_mem introducer member))
      refine ⟨?_, named_of_single (fun word member => (words_of_carrier word member).2) whole⟩
      cases carrier with
      | nil => contradiction
      | cons word words => simp [(words_of_carrier word List.mem_cons_self).1]

theorem wellSpelled_of_modern? (h : modern? text = some call) : WellSpelled call := by
  unfold modern? at h
  split at h
  · split at h
    · rename_i symbol rest symbolic
      simp only [bind, Option.bind_eq_some_iff, pure, Option.some.injEq] at h
      obtain ⟨⟨body, after⟩, found, parts, sorted, rfl⟩ := h
      have listed : ∀ word ∈ Text.words body, word ≠ [] ∧ ∀ c ∈ word, isClassChar c = true := by
        intro word member
        obtain ⟨present, inside⟩ := Text.mem_words member
        exact ⟨present, fun c here => isClassChar_of_isBodyChar
          (allowed_of_block? found c (inside c here).1) (inside c here).2⟩
      obtain ⟨subtype, className, carrier⟩ := spelled_of_ofWords? listed sorted
      exact ⟨symbolic, by simpa using className, by simpa using subtype, by simpa using carrier⟩
    · contradiction
  · contradiction

theorem wellSpelled_of_legacy? (h : legacy? text = some call) : WellSpelled call := by
  obtain ⟨⟨className, classLength, rest⟩, first, h⟩ := Option.bind_eq_some_iff.mp h
  cases rest with
  | nil => contradiction
  | cons symbol rest =>
    simp only at h
    split at h
    · rename_i symbolic
      obtain ⟨⟨subtype, subtypeLength, rest⟩, second, h⟩ := Option.bind_eq_some_iff.mp h
      cases h
      refine ⟨symbolic, ?_, ?_, ?_⟩
      · simpa using allowed_of_squareBlock? first
      · simpa using allowed_of_squareBlock? second
      · intro name member
        obtain ⟨chars, found, rfl⟩ := Option.map_eq_some_iff.mp member
        simpa using named_of_carrierBlock? found
    · contradiction

theorem wellSpelled_of_parse? (h : parse? text = some call) : WellSpelled call := by
  unfold parse? at h
  split at h
  · rcases Option.or_eq_some_iff.mp h with modern | ⟨_, legacy⟩
    · exact wellSpelled_of_modern? modern
    · exact wellSpelled_of_legacy? legacy
  · contradiction

theorem squareBlock?_append (closed : allowed ']' = false)
    (inside : ∀ c ∈ text, allowed c = true) :
    squareBlock? allowed ('[' :: (text ++ ']' :: rest)) = some (text, text.length + 2, rest) := by
  rw [squareBlock?, block?_append closed inside]
  rfl

theorem carrierBlock?_append (present : name ≠ []) (named : ∀ c ∈ name, isNameChar c = true) :
    carrierBlock? ('<' :: (name ++ ['>'])) = some name := by
  have closed : isNameChar '>' = false := by decide +kernel
  obtain ⟨c, others, rfl⟩ := List.exists_cons_of_ne_nil present
  simp only [carrierBlock?, block?_append closed named]

theorem modern?_bracket (text : List Char) : modern? ('[' :: text) = none := by
  cases text with
  | nil => rfl
  | cons c text => exact modern?_of_ne (fun both => absurd both.2 (by decide)) text

theorem parse?_legacyText (spelled : WellSpelled call) :
    parse? call.legacyText = some { call with length := call.legacyText.length } := by
  have class_closed : isClassChar ']' = false := by decide +kernel
  have name_closed : isNameChar ']' = false := by decide +kernel
  have carried : carrierBlock? (call.carrier.elim [] fun name => '<' :: (name.toList ++ ['>'])) =
      call.carrier.map String.toList := by
    cases named : call.carrier with
    | none => rfl
    | some name =>
      obtain ⟨present, chars⟩ := spelled.carrier name named
      exact carrierBlock?_append present chars
  have again : (call.carrier.map String.toList).map String.ofList = call.carrier := by
    cases call.carrier <;> simp
  have size : call.legacyText.length = 2 + (call.className.toList.length + 2) +
      (call.subtype.toList.length + 2) +
        (call.carrier.map String.toList).elim 0 (·.length + 2) := by
    rw [legacyText]
    cases call.carrier <;> simp <;> omega
  rw [size, legacyText, parse?, modern?_bracket, Option.none_or, legacy?,
    squareBlock?_append class_closed spelled.className]
  simp only [bind, Option.bind_some, if_pos spelled.symbol,
    squareBlock?_append name_closed spelled.subtype, carried, again, pure, String.ofList_toList]

/-- Whatever spelling a call is read in, its parts are well formed, its legacy spelling parses back
to it, and a run does the same at either and goes on behind it. -/
theorem legacyText_canonical (h : parse? text = some call) :
    WellSpelled call ∧
    parse? call.legacyText = some { call with length := call.legacyText.length } ∧
    ∀ (setting : Setting) (s t : State) (i j : Nat), s.Alike t → s.reader.tail i = text →
      parse? (t.reader.tail j) = parse? call.legacyText →
        Agree (fun s' t' => s'.Alike t' ∧ s'.reader = s.reader.moveTo (i + call.length) ∧
            t'.reader = t.reader.moveTo (j + call.legacyText.length))
          (s.wordCall setting i) (t.wordCall setting j) := by
  have spelled := wellSpelled_of_parse? h
  have again := parse?_legacyText spelled
  refine ⟨spelled, again, ?_⟩
  intro setting s t i j alike here there
  have read : parse? (s.reader.tail i) = some call := by rw [here, h]
  have reread := there.trans again
  refine (alike.wordCall setting read reread).mono ?_
  intro s' t' done done' later
  obtain ⟨_, _, _, _, _, _, _, _, rfl, place⟩ := State.wordCall_frame done
  obtain ⟨_, _, _, _, _, _, _, _, rfl, place'⟩ := State.wordCall_frame done'
  rw [read] at place
  rw [reread] at place'
  exact ⟨later, place, place'⟩

def petCall : Call where
  symbol := 'n'
  subtype := "plural"
  className := "big,red"
  carrier := some "pet"
  length := 32

theorem legacyText_canonical_pet :
    parse? "+n[plural of big , red for pet ]s".toList = some petCall ∧
      petCall.legacyText = "+[big,red]n[plural]<pet>".toList ∧
      parse? petCall.legacyText = some { petCall with length := petCall.legacyText.length } := by
  have read : parse? "+n[plural of big , red for pet ]s".toList = some petCall := by
    decide +kernel
  exact ⟨read, by decide, (legacyText_canonical read).2.1⟩

end Call

end Phrasebook
