import Phrasebook.Proofs.Brackets
import Phrasebook.Proofs.Draws
import Phrasebook.Proofs.Structure.Opening
import Phrasebook.Proofs.Substitution.Escapes

/-! How a selector is cut into its options.
The search for the closing brace and the search for the slashes are two scans of one text. They see
the same brackets and the same escapes, so that every option is balanced by itself and no other
division of the body has options like that. -/
namespace Phrasebook

open Structure (Quiet Veiled slashed laterStarts length_laterStarts optionStarts_slashed)

/-- A slash is neither escaped nor inside a pair of braces: the text before it is balanced. -/
def Divided (text : List Char) : Prop :=
  ∃ before after, text = before ++ '/' :: after ∧ WellNested '{' '}' before

/-- With slashes between them the options give the body, and no option could be cut further. -/
structure Divides (options : List (List Char)) (body : List Char) : Prop where
  nonempty : options ≠ []
  joined : ['/'].intercalate options = body
  nested : ∀ option ∈ options, WellNested '{' '}' option
  undivided : ∀ option ∈ options, ¬ Divided option

section Divides

variable {text before body first : List Char} {options others : List (List Char)}

theorem WellNested.behind_iff (front : WellNested '{' '}' before) :
    WellNested '{' '}' (before ++ text) ↔ WellNested '{' '}' text :=
  front.append_iff (by decide) (by decide) (by decide)

theorem WellNested.slashed_iff (front : WellNested '{' '}' before) :
    WellNested '{' '}' (before ++ '/' :: text) ↔ WellNested '{' '}' text := by
  rw [front.behind_iff]
  exact (WellNested.char (by decide) .nil : WellNested '{' '}' ['/']).behind_iff

theorem Divided.behind (front : WellNested '{' '}' before) (h : Divided text) :
    Divided (before ++ text) := by
  obtain ⟨inner, after, rfl, nested⟩ := h
  exact ⟨before ++ inner, after, (List.append_assoc _ _ _).symm, front.behind_iff.mpr nested⟩

theorem WellNested.complete (h : WellNested '{' '}' text) : Complete text := by
  induction h with
  | nil => exact complete_nil
  | char other _ ih => exact (complete_snoc [] other.1).append_iff.mpr ih
  | escape c _ ih => exact (complete_escape c).append_iff.mpr ih
  | nest _ _ inside later =>
    have behind := (complete_snoc [] (show '}' ≠ '\\' by decide)).append_iff.mpr later
    exact (complete_snoc [] (show '{' ≠ '\\' by decide)).append_iff.mpr
      (inside.append_iff.mpr behind)

/-- Inside a pair of braces no slash of a balanced text counts. -/
theorem WellNested.veiled (h : WellNested '{' '}' text) : Veiled text := by
  induction h with
  | nil => exact Quiet.nil.veiled
  | @char c _ other _ ih =>
    by_cases slash : c = '/'
    · subst slash
      exact Veiled.slash.append ih
    · exact (Quiet.char (by simp [other, slash])).veiled.append ih
  | escape c _ ih => exact (Quiet.escape c).veiled.append ih
  | nest _ _ inside later =>
    have whole := inside.wrap.veiled.append later
    rwa [List.append_assoc] at whole

theorem WellNested.quiet (h : WellNested '{' '}' text) (undivided : ¬ Divided text) :
    Quiet text := by
  induction h with
  | nil => exact .nil
  | @char c rest other later ih =>
    have here : c ≠ '/' := by
      rintro rfl
      exact undivided ⟨[], rest, rfl, .nil⟩
    have front : WellNested '{' '}' [c] := .char other .nil
    exact (Quiet.char (by simp [other, here])).append (ih fun d => undivided (d.behind front))
  | escape c _ ih =>
    have front : WellNested '{' '}' ['\\', c] := .escape c .nil
    exact (Quiet.escape c).append (ih fun d => undivided (d.behind front))
  | @nest inner rest inside later _ ih =>
    -- Slashes inside the pair do not count, so that only the rest could be divided.
    have front : WellNested '{' '}' ('{' :: inner ++ ['}']) := .nest inside .nil
    have whole := inside.veiled.wrap.append (ih fun d => undivided (by
      have behind := d.behind front
      rwa [List.append_assoc] at behind))
    rwa [List.append_assoc] at whole

theorem intercalate_slash (first : List Char) (others : List (List Char)) :
    ['/'].intercalate (first :: others) = first ++ slashed others := by
  induction others generalizing first with
  | nil => simp [slashed]
  | cons second others ih =>
    rw [List.intercalate_cons_cons, ih, List.append_assoc]
    rfl

/-- The first slash that divides a text has a text before it that is not divided. -/
theorem Divided.exists_first (h : Divided body) : ∃ first rest, body = first ++ '/' :: rest ∧
    WellNested '{' '}' first ∧ ¬ Divided first := by
  obtain ⟨before, after, split, nested⟩ := h
  induction size : before.length using Nat.strongRecOn generalizing before after with
  | ind n ih =>
    by_cases divided : Divided before
    -- A slash that divides the text before this one is an earlier one of the whole text.
    · obtain ⟨earlier, between, rfl, inner⟩ := divided
      rw [List.append_assoc, List.cons_append] at split
      refine ih earlier.length ?_ earlier _ split inner rfl
      rw [← size, List.length_append, List.length_cons]
      omega
    · exact ⟨before, after, split, nested, divided⟩

theorem Divides.single (nested : WellNested '{' '}' body) (undivided : ¬ Divided body) :
    Divides [body] body where
  nonempty := List.cons_ne_nil _ _
  joined := by simp
  nested := by simpa using nested
  undivided := by simpa using undivided

theorem Divides.cons (nested : WellNested '{' '}' first) (undivided : ¬ Divided first)
    (h : Divides options body) : Divides (first :: options) (first ++ '/' :: body) where
  nonempty := List.cons_ne_nil _ _
  joined := by
    obtain ⟨second, others, rfl⟩ := List.exists_cons_of_ne_nil h.nonempty
    rw [List.intercalate_cons_cons, h.joined, List.append_assoc, List.singleton_append]
  nested := List.forall_mem_cons.mpr ⟨nested, h.nested⟩
  undivided := List.forall_mem_cons.mpr ⟨undivided, h.undivided⟩

theorem Divides.divided_iff (h : Divides options body) : Divided body ↔ 2 ≤ options.length := by
  obtain ⟨first, others, rfl⟩ := List.exists_cons_of_ne_nil h.nonempty
  have joined := h.joined
  rw [intercalate_slash] at joined
  cases others with
  | nil =>
    have undivided := h.undivided first List.mem_cons_self
    rw [slashed, List.flatMap_nil, List.append_nil] at joined
    rw [← joined]
    exact iff_of_false undivided (by simp)
  | cons second others =>
    have nested := h.nested first List.mem_cons_self
    exact iff_of_true ⟨first, _, joined.symm, nested⟩ (by simp)

theorem exists_divides (nested : WellNested '{' '}' body) : ∃ options, Divides options body := by
  induction size : body.length using Nat.strongRecOn generalizing body with
  | ind n ih =>
    by_cases divided : Divided body
    · obtain ⟨first, rest, rfl, inner, undivided⟩ := divided.exists_first
      have shorter : rest.length < n := by
        rw [← size, List.length_append, List.length_cons]
        omega
      obtain ⟨options, divides⟩ := ih rest.length shorter (inner.slashed_iff.mp nested) rfl
      exact ⟨first :: options, divides.cons inner undivided⟩
    · exact ⟨[body], .single nested divided⟩

end Divides

namespace Reader

variable {r : Reader} {start close place : Nat} {first rest : List Char}
  {others : List (List Char)}

/-- The stretches from each start up to the slash before the next one, and from the last start up
to the close. -/
def cuts (r : Reader) (close : Nat) : List Nat → List (List Char)
  | [] => []
  | [start] => [r.slice start close]
  | start :: next :: later => r.slice start (next - 1) :: r.cuts close (next :: later)

def options (r : Reader) (index close : Nat) : List (List Char) :=
  r.cuts close (r.optionPlaces index close)

/-- Behind the slash after an option stand the next one and the ones after it. -/
theorem drop_next {second : List Char}
    (h : r.text.toList.drop start = first ++ (slashed (second :: others) ++ rest)) :
    r.text.toList.drop (start + first.length + 1) = second ++ (slashed others ++ rest) :=
  (drop_char (drop_part h)).trans (List.append_assoc second _ _)

theorem end_next (start : Nat) (first second : List Char) (others : List (List Char)) :
    start + (first ++ slashed (second :: others)).length =
      start + first.length + 1 + (second ++ slashed others).length := by
  simp only [slashed, List.flatMap_cons, List.length_append, List.length_cons]
  omega

theorem cuts_laterStarts (h : r.text.toList.drop start = first ++ (slashed others ++ rest)) :
    r.cuts (start + (first ++ slashed others).length)
      (start :: laterStarts (start + first.length) others) = first :: others := by
  induction others generalizing start first with
  | nil =>
    rw [laterStarts, cuts, slashed, List.flatMap_nil, List.append_nil, slice_of_drop h]
  | cons second others ih =>
    rw [laterStarts, cuts, Nat.add_sub_cancel, slice_of_drop h, end_next, ih (drop_next h)]

theorem slice_append {i j k : Nat} (low : i ≤ j) (high : j ≤ k) :
    r.slice i k = r.slice i j ++ r.slice j k := by
  rw [slice, slice, slice, ← Array.toList_append, Array.extract_append_extract,
    Nat.min_eq_left low, Nat.max_eq_right high]

/-- Before every cut stand whole options, so that the text up to there is balanced. -/
theorem nested_of_mem_laterStarts
    (h : r.text.toList.drop start = first ++ (slashed others ++ rest))
    (nested : ∀ option ∈ first :: others, WellNested '{' '}' option)
    (cut : place + 1 ∈ laterStarts (start + first.length) others) :
    start ≤ place ∧ place < start + (first ++ slashed others).length ∧
      WellNested '{' '}' (r.slice start place) := by
  induction others generalizing start first with
  | nil => contradiction
  | cons second others ih =>
    obtain ⟨here, later⟩ := List.forall_mem_cons.mp nested
    rw [end_next]
    rcases List.mem_cons.mp cut with same | further
    · obtain rfl : place = start + first.length := by omega
      refine ⟨Nat.le_add_right _ _, by omega, ?_⟩
      rwa [slice_of_drop h]
    · obtain ⟨low, high, inner⟩ := ih (drop_next h) later further
      have split : r.text.toList.drop start =
          (first ++ ['/']) ++ (second ++ (slashed others ++ rest)) := by
        simpa [slashed] using h
      have part : r.slice start (start + first.length + 1) = first ++ ['/'] := by
        simpa [Nat.add_assoc] using slice_of_drop split
      refine ⟨by omega, high, ?_⟩
      rw [slice_append (by omega) low, part, List.append_assoc, List.singleton_append,
        here.slashed_iff]
      exact inner

theorem length_cuts (r : Reader) (close : Nat) (starts : List Nat) :
    (r.cuts close starts).length = starts.length := by
  fun_induction cuts r close starts with
  | case1 | case2 => rfl
  | case3 _ _ _ ih => exact congrArg (· + 1) ih

/-- The search for slashes finds the options of any division of the body, one behind the other. -/
theorem starts_of_divides {options : List (List Char)} (order : start ≤ close)
    (inside : close ≤ r.text.size) (h : Divides options (r.slice start close)) :
    ∃ first others, options = first :: others ∧
      optionStarts 0 start (r.slice start close) = laterStarts (start + first.length) others ∧
      r.text.toList.drop start = first ++ (slashed others ++ r.text.toList.drop close) ∧
      close = start + (first ++ slashed others).length := by
  obtain ⟨first, others, rfl⟩ := List.exists_cons_of_ne_nil h.nonempty
  have body := h.joined
  rw [intercalate_slash] at body
  have quiet : ∀ option ∈ first :: others, Quiet option :=
    fun option member => (h.nested option member).quiet (h.undivided option member)
  obtain ⟨quietFirst, quietOthers⟩ := List.forall_mem_cons.mp quiet
  refine ⟨first, others, rfl, ?_, ?_, ?_⟩
  · rw [← body, quietFirst, optionStarts_slashed quietOthers]
  · rw [← List.append_assoc, body, r.drop_eq_slice_append start close, List.drop_drop,
      Nat.add_sub_cancel' order]
  · rw [body, slice, Array.length_toList, Array.size_extract]
    omega

variable {index : Nat}

/-- What closes a selector, closes a balanced body. -/
theorem closedAt_of_curlyClose? (closed : r.curlyClose? (index + 1) = some close) :
    r.ClosedAt '{' '}' (index + 1) close :=
  closedAt_iff.mpr
    ((closing?_eq_some_iff (by decide) (by decide) (by decide)).mp closed)

theorem options_of_divides {options : List (List Char)}
    (closed : r.curlyClose? (index + 1) = some close)
    (h : Divides options (r.slice (index + 1) close)) : r.options index close = options := by
  obtain ⟨order, here, _⟩ := closedAt_of_curlyClose? closed
  obtain ⟨inside, _⟩ := Array.getElem?_eq_some_iff.mp here
  obtain ⟨first, others, rfl, starts, split, size⟩ :=
    starts_of_divides order (Nat.le_of_lt inside) h
  rw [Reader.options, optionPlaces, starts]
  conv => lhs; arg 2; rw [size]
  exact cuts_laterStarts split

theorem divides_options (closed : r.curlyClose? (index + 1) = some close) :
    Divides (r.options index close) (r.slice (index + 1) close) := by
  obtain ⟨options, h⟩ := exists_divides (closedAt_of_curlyClose? closed).2.2
  rwa [options_of_divides closed h]

/-- What stands in the body before a cut is balanced. -/
theorem nested_of_mem_optionPlaces (closed : r.curlyClose? (index + 1) = some close)
    (cut : place + 1 ∈ r.optionPlaces index close) :
    place < close ∧ WellNested '{' '}' (r.slice (index + 1) place) := by
  have h := divides_options closed
  obtain ⟨order, here, _⟩ := closedAt_of_curlyClose? closed
  obtain ⟨inside, _⟩ := Array.getElem?_eq_some_iff.mp here
  obtain ⟨first, others, parts, starts, split, size⟩ :=
    starts_of_divides order (Nat.le_of_lt inside) h
  rw [optionPlaces, starts] at cut
  rcases List.mem_cons.mp cut with same | later
  · obtain rfl : place = index := by omega
    refine ⟨order, ?_⟩
    rw [slice, Array.extract_empty_of_stop_le_start (Nat.le_succ place)]
    exact .nil
  · obtain ⟨_, high, inner⟩ := nested_of_mem_laterStarts split (parts ▸ h.nested) later
    exact ⟨size ▸ high, inner⟩

theorem position_moveTo_optionPlaces (closed : r.curlyClose? (index + 1) = some close)
    (member : place ∈ r.optionPlaces index close) : (r.moveTo place).position = place := by
  obtain ⟨order, here, _⟩ := closedAt_of_curlyClose? closed
  obtain ⟨inside, _⟩ := Array.getElem?_eq_some_iff.mp here
  refine Nat.min_eq_left ?_
  cases place with
  | zero => exact Nat.zero_le _
  | succ before =>
    have := (nested_of_mem_optionPlaces closed member).1
    omega

end Reader

variable {s : State} {index close : Nat}

theorem State.openSelector_of_few (closed : s.reader.curlyClose? (index + 1) = some close)
    (few : (s.reader.optionPlaces index close).length < 2) : s.openSelector index =
      .error (.fault (.selectorArity (s.reader.optionPlaces index close).length) index) := by
  rw [openSelector, closed]
  exact if_pos few

theorem State.openSelector_of_several (closed : s.reader.curlyClose? (index + 1) = some close)
    (several : ¬ (s.reader.optionPlaces index close).length < 2) (cause : Fault) (place : Nat) :
    s.openSelector index ≠ .error (.fault cause place) := by
  rw [openSelector_eq closed several]
  cases s.choose (s.reader.optionPlaces index close).length with
  | ok drawn =>
    intro fault
    contradiction
  | error refused =>
    intro fault
    cases Except.error.inj fault

/-- A selector is refused for want of options exactly where no slash divides its body. -/
theorem State.openSelector_arity_iff (closed : s.reader.curlyClose? (index + 1) = some close)
    (count place : Nat) :
    s.openSelector index = .error (.fault (.selectorArity count) place) ↔
      count = 1 ∧ place = index ∧ ¬ Divided (s.reader.slice (index + 1) close) := by
  have h := Reader.divides_options closed
  have length : (s.reader.options index close).length =
      (s.reader.optionPlaces index close).length := Reader.length_cuts _ _ _
  rw [h.divided_iff, length]
  by_cases few : (s.reader.optionPlaces index close).length < 2
  · have positive := List.length_pos_iff.mpr h.nonempty
    have one : (s.reader.optionPlaces index close).length = 1 := by omega
    rw [openSelector_of_few closed few, one]
    constructor
    · intro same
      cases same
      exact ⟨rfl, rfl, by omega⟩
    · rintro ⟨rfl, rfl, _⟩
      rfl
  · constructor
    · exact fun fault => absurd fault (openSelector_of_several closed few _ place)
    · exact fun ⟨_, _, few'⟩ => absurd few' (by omega)

/-- Where a brace closes a selector, its options give the body with slashes between them, each of
them is balanced and none could be cut further, and there is no other such division. No escape
reaches over a cut or over the brace. The run goes on at one of the options, or the selector is
refused because nothing divides it. -/
theorem State.openSelector_divides (closed : s.reader.curlyClose? (index + 1) = some close) :
    Divides (s.reader.options index close) (s.reader.slice (index + 1) close) ∧
      (∀ options, Divides options (s.reader.slice (index + 1) close) →
        options = s.reader.options index close) ∧
      (∀ place, place = close ∨ place + 1 ∈ s.reader.optionPlaces index close →
        Complete (s.reader.slice (index + 1) place)) ∧
      (∀ t, s.openSelector index = .ok t →
        t.reader.position ∈ s.reader.optionPlaces index close) ∧
      ∀ count place, s.openSelector index = .error (.fault (.selectorArity count) place) ↔
        count = 1 ∧ place = index ∧ ¬ Divided (s.reader.slice (index + 1) close) := by
  have nested := (Reader.closedAt_of_curlyClose? closed).2.2
  refine ⟨Reader.divides_options closed, fun options h => (Reader.options_of_divides closed h).symm,
    ?_, ?_, openSelector_arity_iff closed⟩
  · rintro place (rfl | cut)
    · exact nested.complete
    · exact (Reader.nested_of_mem_optionPlaces closed cut).2.complete
  · intro t opened
    obtain ⟨close', starts, closed', known, _, choice, _, _, rfl⟩ := openSelector_ok opened
    obtain rfl : close = close' := Option.some.inj (closed.symm.trans closed')
    subst known
    have member := List.get_mem (s.reader.optionPlaces index close) choice
    change (s.reader.moveTo ((s.reader.optionPlaces index close).get choice)).position ∈ _
    rwa [Reader.position_moveTo_optionPlaces closed member]

/-- The slash after the backslash and the one in the inner braces cut nothing. -/
def twoOptions : State := .start "\x7ba\\/b/\x7bc/d\x7de\x7df".toList ∅ (Generator.ofSeed 7 0)

theorem State.openSelector_divides_twoOptions :
    twoOptions.reader.curlyClose? 1 = some 12 ∧ twoOptions.reader.optionPlaces 0 12 = [1, 6] ∧
      Divides ["a\\/b".toList, "\x7bc/d\x7de".toList] (twoOptions.reader.slice 1 12) ∧
      (∀ options, Divides options (twoOptions.reader.slice 1 12) →
        options = ["a\\/b".toList, "\x7bc/d\x7de".toList]) ∧
      Complete (twoOptions.reader.slice 1 5) := by
  have closed : twoOptions.reader.curlyClose? (0 + 1) = some 12 := by decide +kernel
  have places : twoOptions.reader.optionPlaces 0 12 = [1, 6] := by decide +kernel
  have options : twoOptions.reader.options 0 12 = ["a\\/b".toList, "\x7bc/d\x7de".toList] := by
    decide +kernel
  obtain ⟨divides, unique, complete, _⟩ := openSelector_divides closed
  rw [options] at divides unique
  exact ⟨closed, places, divides, unique, complete 5 (.inr (by rw [places]; decide))⟩

end Phrasebook
