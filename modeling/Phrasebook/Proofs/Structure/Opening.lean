import Phrasebook.Evaluation.Effect
import Phrasebook.Proofs.Overfull
import Phrasebook.Proofs.Steps
import Phrasebook.Proofs.Structure.Reading

/-! What the opening step of a construct does where the whole construct stands ahead.
Each statement reads the parts of the printed construct off the rest of the text, and says where the
run goes on. -/
namespace Phrasebook.Structure

theorem Numeral.decimal?_eq (n : Numeral) : Text.decimal? n.digits = some n.value := by
  rw [Text.decimal?, if_pos ⟨n.nonempty, List.all_eq_true.mpr n.decimal⟩, Numeral.value]

theorem Numeral.natural?_eq (n : Numeral) {limit : Nat} (small : n.value ≤ limit) :
    Text.natural? limit n.digits = some n.value := by
  have unsigned : Text.natural? limit n.digits = (Text.decimal? n.digits).filter (· ≤ limit) := by
    unfold Text.natural?
    split
    · rename_i rest signed
      have plus := n.decimal '+' (by rw [signed]; exact List.mem_cons_self)
      contradiction
    · rfl
  rw [unsigned, n.decimal?_eq, Option.filter_some, if_pos (by simpa using small)]

theorem Numeral.not_blank (n : Numeral) : ∀ c ∈ n.digits, Letter.isBlank c = false := by
  intro c member
  have letter : c.isAlphanum = true := by simp [Char.isAlphanum, n.decimal c member]
  exact Letter.isBlank_of_isAlphanumeric (Letter.isAlphanumeric_of_isAlphanum c letter)

theorem Numeral.hyphen_not_mem (n : Numeral) : '-' ∉ n.digits := by
  intro member
  exact absurd (n.decimal '-' member) (by decide)

theorem Name.trim_eq (n : Name) : Text.trim n.chars = n.chars :=
  Text.trim_eq_self fun c member => Letter.isBlank_of_isAlphanumeric (n.alphanumeric c member)

theorem Name.text_nonempty (n : Name) : n.text.isEmpty = false := by
  have nonempty := n.nonempty
  simpa [Name.text, String.isEmpty_iff_utf8ByteSize_eq_zero] using nonempty

theorem parse?_numeral (n : Times) : Count.parse? (Text.trim n.val.digits) =
    some (.exactly n.val.value) := by
  obtain ⟨n, positive, small⟩ := n
  have read : Text.natural? 0xFFFFFFFF n.digits = some n.value := n.natural?_eq (by omega)
  rw [Text.trim_eq_self n.not_blank, Count.parse?, Text.cut?_of_absent n.hyphen_not_mem]
  simp only [read, Option.bind_eq_bind, Option.bind_some]
  rw [if_neg (by omega)]

theorem ofRaw_name (visibility : Visibility) (name : Name) :
    Group.ofRaw (visibilityMark visibility ++ name.chars) = ⟨name.text, visibility⟩ := by
  cases visibility with
  | internal => rfl
  | exclusive => rfl
  | shared =>
    obtain ⟨chars, nonempty, alphanumeric⟩ := name
    cases chars with
    | nil => contradiction
    | cons c chars =>
      have letter := alphanumeric c List.mem_cons_self
      change Group.ofRaw (c :: chars) = ⟨String.ofList (c :: chars), .shared⟩
      unfold Group.ofRaw
      split
      · rename_i dotted
        rw [(List.cons.inj dotted).1] at letter
        contradiction
      · rename_i dashed
        rw [(List.cons.inj dashed).1] at letter
        contradiction
      · rfl

/-- Where the options after the first begin, if the slash before them is at `i`. -/
def laterStarts : Nat → List (List Char) → List Nat
  | _, [] => []
  | i, option :: options => (i + 1) :: laterStarts (i + 1 + option.length) options

theorem length_laterStarts (i : Nat) (options : List (List Char)) :
    (laterStarts i options).length = options.length := by
  induction options generalizing i with
  | nil => rfl
  | cons option options ih => rw [laterStarts, List.length_cons, List.length_cons, ih]

theorem optionStarts_slashed {i : Nat} {options : List (List Char)}
    (quiet : ∀ option ∈ options, Quiet option) :
    optionStarts 0 i (slashed options) = laterStarts i options := by
  induction options generalizing i with
  | nil => simp [slashed, laterStarts, optionStarts]
  | cons option options ih =>
    have later := ih (i := i + 1 + option.length) fun o ho => quiet o (List.mem_cons_of_mem _ ho)
    have first : slashed (option :: options) = '/' :: (option ++ slashed options) := rfl
    rw [first, optionStarts_slash_zero, quiet option List.mem_cons_self, later, laterStarts]

theorem drop_option {text rest first : List Char} {i : Nat} {others : List (List Char)}
    (h : text.drop i = first ++ (slashed others ++ '}' :: rest))
    (k : Nat) (inList : k < (first :: others).length)
    (start : Nat) (starts : (i :: laterStarts (i + first.length) others)[k]? = some start) :
    i ≤ start ∧
      start + ((first :: others)[k]).length ≤ i + (first ++ slashed others).length ∧
      ∃ c after, text.drop start = (first :: others)[k] ++ c :: after ∧
        (c = '/' ∨ c = '}' ∧
          start + ((first :: others)[k]).length = i + (first ++ slashed others).length) := by
  induction others generalizing first i k with
  | nil =>
    obtain rfl : k = 0 := by simpa using inList
    cases starts
    exact ⟨Nat.le_refl _, by simp, '}', rest, h, .inr ⟨rfl, by simp [slashed]⟩⟩
  | cons second others ih =>
    have split : slashed (second :: others) = '/' :: (second ++ slashed others) := rfl
    rw [split] at h ⊢
    cases k with
    | zero =>
      cases starts
      exact ⟨Nat.le_refl _, by simp, '/', _, h, .inl rfl⟩
    | succ k =>
      have behind :
          text.drop (i + first.length + 1) = second ++ (slashed others ++ '}' :: rest) := by
        exact (drop_char (drop_part h)).trans (List.append_assoc second _ _)
      have inTail : k < (second :: others).length := by simpa using inList
      obtain ⟨low, high, c, after, found, ending⟩ := ih behind k inTail starts
      have size : i + (first ++ '/' :: (second ++ slashed others)).length =
          i + first.length + 1 + (second ++ slashed others).length := by
        simp only [List.length_append, List.length_cons]
        omega
      rw [size]
      exact ⟨by omega, high, c, after, found, ending⟩

section openings

variable {s : State} {p : Nat} {body rest : List Char}

theorem digit_of_drop {c : Char} (n : Percent)
    (h : s.reader.text.toList.drop p = n.val.digits ++ '%' :: ('[' :: body ++ ']' :: rest))
    (balanced : Balanced '[' ']' body) :
    s.digit c p = .ok ({ s with generator := s.generator.advance }.moveTo
      (if s.generator.peek % 101 ≤ min n.val.value 100 then p + n.val.digits.length + 2
        else p + n.val.digits.length + 2 + body.length + 1)) := by
  have stop := Reader.digitsEnd_of_drop h n.val.decimal (by decide)
  have sign := Reader.charAt_of_drop (drop_part h)
  have block := drop_char (drop_part h)
  have number : (Text.decimal? (s.reader.slice p (p + n.val.digits.length))).getD 0 =
      n.val.value := by
    rw [Reader.slice_of_drop h, n.val.decimal?_eq, Option.getD_some]
  have positive : ¬ min n.val.value 100 = 0 := by
    have := n.property
    omega
  have closed := Reader.blockEnd_of_drop .frequencyBody block balanced
  rw [State.digit, stop]
  simp only [if_pos (And.intro sign (Reader.charAt_of_drop block)), number, if_neg positive, closed,
    Generator.below_of_pos s.generator (show 0 < 101 by decide)]
  rfl

theorem flag_of_drop {l a : Char} {scope : FlagScope} {action : FlagAction} (name : Name)
    (h : s.reader.text.toList.drop p = '$' :: l :: a :: ('[' :: name.chars ++ ']' :: rest))
    (known : flagFunction? [l, a] = some (scope, action)) :
    s.flag p = match action with
      | .set =>
        .ok ((s.setFlags scope ((s.flags scope).insert name.text)).moveTo
          (p + 4 + name.chars.length + 1))
      | .unset =>
        .ok ((s.setFlags scope ((s.flags scope).erase name.text)).moveTo
          (p + 4 + name.chars.length + 1))
      | .whenSet | .whenUnset => do
        let bodyEnd ← s.reader.blockEnd (p + 4 + name.chars.length + 1) .flagBody
        return s.moveTo (if (s.flags scope).contains name.text == (action == .whenSet)
          then p + 4 + name.chars.length + 2 else bodyEnd + 1) := by
  have letters : s.reader.slice (p + 1) (p + 3) = [l, a] :=
    Reader.slice_of_drop (show _ = [l, a] ++ _ from drop_char h)
  have block := drop_char (drop_char (drop_char h))
  have closed := Reader.blockEnd_of_drop .flagName block name.tidy.square
  have read : s.reader.slice (p + 4) (p + 4 + name.chars.length) = name.chars :=
    Reader.slice_of_drop (drop_char block)
  rw [State.flag]
  simp only [letters, known, closed, bind, Except.bind, read, name.trim_eq]
  rw [if_neg (by simpa [Name.text] using name.text_nonempty)]
  cases action <;> rfl

theorem openGroup_of_drop {visibility : Visibility} (name : Name)
    (h : s.reader.text.toList.drop p =
      '<' :: (visibilityMark visibility ++ name.chars ++ ':' :: body) ++ '>' :: rest)
    (tidy : Tidy body) :
    s.openGroup p = .ok ({ s with
      streams := s.streams.push (visibilityMark visibility ++ name.chars) }.moveTo
        (p + 1 + (visibilityMark visibility ++ name.chars).length + 1)) := by
  have inner : s.reader.text.toList.drop (p + 1) =
      (visibilityMark visibility ++ name.chars ++ ':' :: body) ++ '>' :: rest := drop_char h
  have named : s.reader.text.toList.drop (p + 1) =
      (visibilityMark visibility ++ name.chars) ++ ':' :: (body ++ '>' :: rest) := by
    rw [inner, List.append_assoc, List.cons_append]
  have header := (tidy_visibilityMark visibility).append name.tidy
  have whole : Tidy (visibilityMark visibility ++ name.chars ++ ':' :: body) :=
    header.append ((Tidy.char (c := ':') (by decide)).append tidy)
  have closed : s.reader.angleClose? (p + 1) = _ :=
    Reader.closing?_of_drop inner (by decide) (by decide) whole.angle
  have nonempty : visibilityMark visibility ++ name.chars ≠ [] := by
    simp [name.nonempty]
  have absent : ∀ c ∈ visibilityMark visibility ++ name.chars, c ≠ ':' ∧ c ≠ '\\' := by
    intro c member
    rcases List.mem_append.mp member with mark | letter
    · cases visibility <;> simp_all [visibilityMark]
    · have alphanumeric := name.alphanumeric c letter
      constructor <;> rintro rfl <;> contradiction
  have colon := Reader.findChar?_of_drop named nonempty absent
  have raw := Reader.slice_of_drop named
  rw [State.openGroup, closed]
  simp only [colon, raw, ofRaw_name]
  rw [if_neg]
  rintro (order | empty | blank)
  · simp only [List.length_append, List.length_cons] at order
    omega
  · rw [name.text_nonempty] at empty
    contradiction
  · obtain ⟨c, member, blank⟩ := List.any_eq_true.mp blank
    rw [Name.text, String.toList_ofList] at member
    rw [Letter.isBlank_of_isAlphanumeric (name.alphanumeric c member)] at blank
    contradiction

theorem readTag_of_drop (tag : Tag)
    (h : s.reader.text.toList.drop p = '*' :: (tag.val.digits ++ '{' :: rest)) :
    s.readTag p = .ok ({ s with tag := some tag.val.value.toUInt64 }.moveTo
      (p + 1 + tag.val.digits.length)) := by
  have digits := drop_char h
  have stop := Reader.digitsEnd_of_drop digits tag.val.decimal (by decide)
  have brace := Reader.charAt_of_drop (drop_part digits)
  have id : Text.natural? 0xFFFFFFFFFFFFFFFF
      (s.reader.slice (p + 1) (p + 1 + tag.val.digits.length)) = some tag.val.value := by
    have small := tag.property
    rw [Reader.slice_of_drop digits, tag.val.natural?_eq (by omega)]
  rw [State.readTag, stop]
  simp only [id, brace]

/-- A printed selector closes at its last brace, and its options start behind the cuts. -/
theorem optionPlaces_of_drop {first : List Char} {others : List (List Char)}
    (h : s.reader.text.toList.drop p = selectorText first others ++ rest) (tidy : Tidy first)
    (tidyOthers : ∀ option ∈ others, Tidy option) :
    s.reader.curlyClose? (p + 1) = some (p + 1 + (first ++ slashed others).length) ∧
      s.reader.optionPlaces p (p + 1 + (first ++ slashed others).length) =
        (p + 1) :: laterStarts (p + 1 + first.length) others := by
  have inner : s.reader.text.toList.drop (p + 1) = (first ++ slashed others) ++ '}' :: rest := by
    have split : selectorText first others ++ rest =
        '{' :: ((first ++ slashed others) ++ '}' :: rest) := by simp [selectorText]
    exact drop_char (h.trans split)
  have curly : Balanced '{' '}' (first ++ slashed others) :=
    tidy.curly.append (.slashed (.char (by decide) (by decide) (by decide))
      fun option member => (tidyOthers option member).curly)
  refine ⟨Reader.closing?_of_drop inner (by decide) (by decide) curly, ?_⟩
  rw [Reader.optionPlaces, Reader.slice_of_drop inner, tidy.quiet,
    optionStarts_slashed fun option member => (tidyOthers option member).quiet]

theorem openSelector_of_drop {first : List Char} {others : List (List Char)}
    (h : s.reader.text.toList.drop p = selectorText first others ++ rest) (tidy : Tidy first)
    (tidyOthers : ∀ option ∈ others, Tidy option) (several : others ≠ [])
    (starts : List Nat) (known : starts = (p + 1) :: laterStarts (p + 1 + first.length) others)
    {choice : Fin starts.length} {g : Generator}
    (chosen : s.choose starts.length = .ok (choice, g)) :
    s.openSelector p = .ok ({ s with
      generator := g
      tag := none
      selectors := (p + 1 + (first ++ slashed others).length) :: s.selectors }.moveTo
        (starts.get choice)) := by
  obtain ⟨closed, places⟩ := optionPlaces_of_drop h tidy tidyOthers
  obtain rfl : starts = s.reader.optionPlaces p _ := known.trans places.symm
  have count : ¬ (s.reader.optionPlaces p
      (p + 1 + (first ++ slashed others).length)).length < 2 := by
    have positive := List.length_pos_iff.mpr several
    rw [known, List.length_cons, length_laterStarts]
    omega
  rw [State.openSelector_eq closed count, chosen]
  rfl

theorem openRepetition_of_drop {separator content : List Char} (times : Times)
    (h : s.reader.text.toList.drop p = '^' :: ('[' :: times.val.digits ++ ']' ::
      ('[' :: separator ++ ']' :: ('[' :: content ++ ']' :: rest))))
    (tidySeparator : Tidy separator) (tidyContent : Tidy content) (countEnd separatorEnd : Nat)
    (counted : countEnd = p + 2 + times.val.digits.length)
    (separated : separatorEnd = countEnd + 2 + separator.length) :
    s.openRepetition p = .ok (({ s with
      repetitions := State.freshRepetition countEnd separatorEnd
        (separatorEnd + 2 + content.length) times.val.value.toUInt32 ::
          s.repetitions }.markIteration (s.repetitions.length + 1)
            (State.freshRepetition countEnd separatorEnd (separatorEnd + 2 + content.length)
              times.val.value.toUInt32)).moveTo (separatorEnd + 2)) := by
  subst counted separated
  have count := drop_char h
  have inSeparator := drop_char (drop_part (drop_char count))
  have inContent := drop_char (drop_part (drop_char inSeparator))
  have closedCount := Reader.blockEnd_of_drop .repeaterCount count times.val.tidy.square
  have closedSeparator := Reader.blockEnd_of_drop .repeaterSeparator inSeparator
    tidySeparator.square
  have closedContent := Reader.blockEnd_of_drop .repeaterContent inContent tidyContent.square
  have read : s.reader.slice (p + 2) (p + 2 + times.val.digits.length) = times.val.digits :=
    Reader.slice_of_drop (drop_char count)
  rw [State.openRepetition]
  simp only [closedCount, closedSeparator, closedContent, bind, Except.bind, read, parse?_numeral]
  rfl

end openings

/-- Of a multiple of 2 ^ 32 options none is chosen. -/
theorem evaluate_of_dvd (setting : Setting) {first : List Char} {others : List (List Char)}
    (tidy : Tidy first) (tidyOthers : ∀ option ∈ others, Tidy option)
    (whole : 2 ^ 32 ∣ (first :: others).length) (flags : Flags) (g : Generator) :
    (evaluate setting (selectorText first others) flags g).result = .error (.draw .zeroBound) := by
  let s := State.start (selectorText first others) flags g
  have here : s.reader.text.toList.drop s.reader.position = selectorText first others ++ [] :=
    (List.append_nil _).symm
  obtain ⟨closed, places⟩ := optionPlaces_of_drop here tidy tidyOthers
  have among : s.ChoosesAmong setting s.reader.position .openSelector _ := .options rfl closed
  rw [places, List.length_cons, length_laterStarts] at among
  have brace : s.reader.peek = '{' := Reader.charAt_of_drop here
  have full : s.Overfull setting := by
    rw [State.Overfull, brace]
    exact ⟨_, Nat.succ_pos _, whole, among⟩
  have refused : s.step setting = .error (.draw .zeroBound) :=
    State.step_eq_draw_iff.mpr ⟨rfl, full⟩
  rw [State.evaluate_of_stopped (.refl s) rfl refused]

end Phrasebook.Structure
