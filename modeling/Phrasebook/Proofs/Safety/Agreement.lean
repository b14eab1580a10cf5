import Phrasebook.Machine.Step
import Phrasebook.Proofs.Overfull
import Phrasebook.Proofs.Safety.Parsing
import Phrasebook.Proofs.Safety.Scanning
import Phrasebook.Proofs.Safety.Soundness

/-! A step on a machine is a step of the specification.
Where places are words and the stacks are sound no operation fails, and what remains is what the
specification does. -/
namespace Phrasebook

namespace Reader

theorem lt_of_blockEnd {r : Reader} {start close : Nat} {construct : Construct}
    (h : r.blockEnd start construct = .ok close) : close < r.text.size :=
  lt_of_closing? (blockEnd_ok h).2

theorem digitsEnd_le {r : Reader} {i : Nat} (inside : i ≤ r.text.size) :
    r.digitsEnd i ≤ r.text.size := by
  fun_induction digitsEnd r i with
  | case1 i isDigit ih => exact ih (r.lt_size_of_isDigit isDigit)
  | case2 i _ => exact inside

end Reader

namespace Machine

variable {s : State} {index : Nat} {c : Char}

theorem top_eq (streams : Streams) : top streams = .ok streams.top := by
  obtain ⟨byName, inner⟩ := streams
  rw [top, less_eq (by simp [Streams.groups]), bind_ok]
  apply entry_eq
  rw [List.getElem?_reverse (by simp [Streams.groups])]
  cases inner <;> simp [Streams.groups, Streams.top]

theorem written_eq (before after : State) : written before after = .ok after := by
  rw [written, top_eq]
  rfl

theorem escape_eq (short : Short s.reader) : escape s = .ok s.escape := by
  rw [escape, read_eq short, bind_ok, State.escape]
  simp only [written_eq]
  split <;> rfl

theorem openGroup_eq (short : Short s.reader) (inside : index < s.reader.text.size) :
    openGroup s index = lift (s.openGroup index) := by
  rw [openGroup, short.word_eq (by omega), bind_ok, findClosing_eq short, bind_ok, State.openGroup,
    Reader.angleClose?]
  cases closed : s.reader.closing? '<' '>' (index + 1) with
  | none => rfl
  | some close =>
    have bound := Reader.lt_of_closing? closed
    simp only [findChar_eq, bind_ok, slice_eq]
    cases s.reader.findChar? ':' (index + 1) with
    | none => rfl
    | some colon =>
      simp only
      split
      · rfl
      · rw [short.word_eq (by omega)]
        rfl

theorem digit_eq (short : Short s.reader) (inside : index < s.reader.text.size) :
    digit s c index = lift (s.digit c index) := by
  have stop := Reader.digitsEnd_le (Nat.le_of_lt inside)
  rw [digit, digitsEnd_eq short, bind_ok, short.word_eq (by omega), bind_ok, State.digit]
  simp only [slice_eq, bind_ok, written_eq]
  split
  · split
    · rfl
    · rw [blockEnd_eq short (by omega)]
      cases closed : s.reader.blockEnd (s.reader.digitsEnd index + 1) .frequencyBody with
      | error stop => rfl
      | ok close =>
        have bound := Reader.lt_of_blockEnd closed
        rw [lift_ok, bind_ok, bind_ok, below_eq s.generator (by decide) (by decide), bind_ok,
          Generator.below_of_pos s.generator (by decide), orStop_ok, bind_ok]
        simp only
        split
        · rw [short.word_eq (by omega)]
          rfl
        · rw [short.word_eq (by omega)]
          rfl
  · rfl

theorem choose_eq {options : Nat} (several : 2 ≤ options) (small : options < 2 ^ 32) :
    ∃ choice generator, s.choose options = .ok (choice, generator) ∧
      choose s options = .ok (choice.val, generator) := by
  have positive : 0 < options := by omega
  unfold choose State.choose
  cases s.tag with
  | none =>
    exact ⟨_, _, Generator.oneOf_of_lt s.generator positive small,
      below_eq s.generator positive small⟩
  | some tag => exact ⟨_, _, dif_pos positive, if_pos positive⟩

theorem openSelector_eq (short : Short s.reader) (inside : index < s.reader.text.size) :
    openSelector s index = lift (s.openSelector index) := by
  rw [openSelector, short.word_eq (by omega), bind_ok, findClosing_eq short, bind_ok,
    State.openSelector, Reader.curlyClose?]
  cases closed : s.reader.closing? '{' '}' (index + 1) with
  | none => rfl
  | some close =>
    have bound := Reader.lt_of_closing? closed
    have count := length_optionStarts 0 (index + 1) (s.reader.slice (index + 1) close)
    have long : s.reader.text.size < 2 ^ 32 := short
    rw [Reader.length_slice] at count
    simp only
    rw [optionStarts_eq short (Nat.le_of_lt bound) (Nat.zero_le _), bind_ok]
    split
    · rfl
    · rename_i several
      have few : ((index + 1) :: Phrasebook.optionStarts 0 (index + 1)
          (s.reader.slice (index + 1) close)).length < 2 ^ 32 := by
        rw [List.length_cons]
        omega
      obtain ⟨choice, generator, chosen, drawn⟩ := choose_eq (s := s) (by omega) few
      rw [drawn, bind_ok, chosen, orStop_ok, entry_eq (List.getElem?_eq_getElem choice.isLt)]
      rfl

theorem slash_eq (short : Short s.reader)
    (places : ∀ close ∈ s.selectors, close < s.reader.text.size) :
    slash s c = .ok (s.slash c) := by
  unfold slash State.slash
  cases opened : s.selectors with
  | nil => exact written_eq _ _
  | cons close selectors =>
    have bound := places close (by rw [opened]; exact List.mem_cons_self)
    simp only
    rw [short.word_eq (by omega)]
    rfl

theorem readTag_eq (short : Short s.reader) (inside : index < s.reader.text.size) :
    readTag s index = lift (s.readTag index) := by
  rw [readTag, short.word_eq (by omega), bind_ok, digitsEnd_eq short, bind_ok, slice_eq, bind_ok,
    State.readTag]
  generalize s.reader.digitsEnd (index + 1) = stop
  generalize Text.natural? 0xFFFFFFFFFFFFFFFF (s.reader.slice (index + 1) stop) = id?
  generalize s.reader.charAt stop = following
  cases id? with
  | none => rfl
  | some id =>
    by_cases opened : following = '{'
    · subst opened
      rfl
    · simp only [if_neg opened]
      split
      · exact absurd rfl opened
      · rfl

theorem drawCount_eq {text : List Char} {count : Count} (parsed : Count.parse? text = some count)
    (g : Generator) : drawCount count g = lift (orStop (count.draw g)) := by
  cases count with
  | exactly n => rfl
  | between min max =>
    have order := Count.le_of_parse? parsed
    have bound : max < 2 ^ 32 := (Count.bounds_of_parse? parsed).2
    have range : (min : Int) < (max + 1 : Nat) := by omega
    have range' : (min : Int) < (max : Int) + 1 := by omega
    rw [drawCount, bounded_eq (by omega), bind_ok, Generator.range_of_lt g range, Count.draw,
      Generator.range_of_lt g range']
    rfl

theorem markIteration_eq {depth : Nat} {r : Repetition} (unfinished : r.done < r.limit.toNat) :
    markIteration s depth r = .ok (s.markIteration depth r) := by
  have bound := r.limit.toNat_lt
  rw [markIteration, bounded_eq (by omega)]
  rfl

theorem openRepetition_eq (short : Short s.reader) (inside : index < s.reader.text.size) :
    openRepetition s index = lift (s.openRepetition index) := by
  rw [openRepetition, State.openRepetition, short.word_eq (by omega), bind_ok,
    blockEnd_eq short (by omega)]
  cases counted : s.reader.blockEnd (index + 1) .repeaterCount with
  | error stop => rfl
  | ok countEnd =>
    have countBound := Reader.lt_of_blockEnd counted
    rw [lift_ok, bind_ok, bind_ok, short.word_eq (by omega), bind_ok, blockEnd_eq short (by omega)]
    cases separated : s.reader.blockEnd (countEnd + 1) .repeaterSeparator with
    | error stop => rfl
    | ok separatorEnd =>
      have separatorBound := Reader.lt_of_blockEnd separated
      rw [lift_ok, bind_ok, bind_ok, short.word_eq (by omega), bind_ok,
        blockEnd_eq short (by omega)]
      cases contained : s.reader.blockEnd (separatorEnd + 1) .repeaterContent with
      | error stop => rfl
      | ok contentEnd =>
        rw [lift_ok, bind_ok, bind_ok, short.word_eq (by omega), bind_ok, slice_eq, bind_ok]
        cases parsed : Count.parse? (Text.trim (s.reader.slice (index + 2) countEnd)) with
        | none =>
          simp only [parsed]
          rfl
        | some count =>
          simp only [parsed]
          rw [drawCount_eq parsed]
          obtain ⟨⟨limit, generator⟩, drawn⟩ := Count.exists_draw parsed s.generator
          have positive := Count.draw_pos parsed drawn
          rw [drawn, orStop_ok, lift_ok, bind_ok, bind_ok, short.word_eq (by omega), bind_ok,
            short.word_eq (by omega), bind_ok]
          simp only
          rw [markIteration_eq positive]
          rfl

theorem flag_eq (short : Short s.reader) (inside : index < s.reader.text.size) :
    flag s index = lift (s.flag index) := by
  rw [flag, State.flag, short.word_eq (n := index + 1) (by omega), bind_ok,
    short.word_eq (n := index + 3) (by omega), bind_ok, slice_eq, bind_ok]
  cases known : flagFunction? (s.reader.slice (index + 1) (index + 3)) with
  | none =>
    rfl
  | some function =>
    obtain ⟨scope, action⟩ := function
    simp only
    rw [bind_ok, blockEnd_eq short (by omega)]
    cases named : s.reader.blockEnd (index + 3) .flagName with
    | error stop => rfl
    | ok nameEnd =>
      have nameBound := Reader.lt_of_blockEnd named
      rw [lift_ok, bind_ok, bind_ok, short.word_eq (n := index + 4) (by omega), bind_ok, slice_eq,
        bind_ok, short.word_eq (n := nameEnd + 1) (by omega), bind_ok]
      split
      · rfl
      · cases action with
        | set => rfl
        | unset => rfl
        | whenSet | whenUnset =>
          simp only
          rw [blockEnd_eq short (by omega)]
          cases closed : s.reader.blockEnd (nameEnd + 1) .flagBody with
          | error stop => rfl
          | ok bodyEnd =>
            have bodyBound := Reader.lt_of_blockEnd closed
            rw [lift_ok, bind_ok, bind_ok, short.word_eq (n := nameEnd + 2) (by omega),
              short.word_eq (n := bodyEnd + 1) (by omega)]
            split <;> rfl

theorem toggleCasing_eq (short : Short s.reader) : toggleCasing s = .ok s.toggleCasing := by
  unfold toggleCasing State.toggleCasing
  split
  · rw [read_eq short]
    rfl
  · rfl

theorem byteCount_le (text : List Char) : byteCount text ≤ 4 * text.length := by
  induction text with
  | nil => exact Nat.le_refl 0
  | cons c text ih =>
    have width := c.utf8Size_le_four
    simp only [byteCount, List.length_cons] at ih ⊢
    omega

theorem randomNumber_eq (short : Short s.reader) (inside : index < s.reader.text.size) :
    randomNumber s index = lift (s.randomNumber index) := by
  rw [randomNumber, State.randomNumber, short.word_eq (by omega), bind_ok,
    blockEnd_eq short (by omega)]
  cases closed : s.reader.blockEnd (index + 1) .randomNumber with
  | error stop => rfl
  | ok close =>
    have bound := Reader.lt_of_blockEnd closed
    have bytes := byteCount_le (s.reader.slice (index + 2) close)
    have long : s.reader.text.size < 2 ^ 32 := short
    rw [Reader.length_slice] at bytes
    rw [lift_ok, bind_ok, bind_ok, short.word_eq (by omega), bind_ok, slice_eq, bind_ok,
      numberRange_eq (by omega), bind_ok]
    cases read : Phrasebook.numberRange (s.reader.slice (index + 2) close) with
    | error problem => rfl
    | ok bounds =>
      obtain ⟨min, max⟩ := bounds
      simp only
      rw [Generator.range_of_lt s.generator (lt_of_numberRange read)]
      simp only [written_eq]
      rw [short.word_eq (by omega)]
      rfl

end Machine

end Phrasebook
