import Phrasebook.Proofs.LineEndings.Matching
import Phrasebook.Proofs.Spellings.Words
import Phrasebook.Proofs.Structure.Reading

/-! Texts with a carriage return before each line feed.
The characters of the text keep their order, and each moves on by the line feeds before it. Both
characters are blanks, so that trimming, cutting and reading numbers do not see the difference. -/
namespace Phrasebook.Text

open Letter (isBlank)

/-- Not one of the two characters of a line ending. -/
def WithinLine (c : Char) : Prop := c ≠ '\r' ∧ c ≠ '\n'

instance {c : Char} : Decidable (WithinLine c) := inferInstanceAs (Decidable (_ ∧ _))

def returned (c : Char) : List Char := if c = '\n' then ['\r', '\n'] else [c]

def withReturns (text : List Char) : List Char := text.flatMap returned

/-- Where the character of a place stands in the text with carriage returns. A line feed stands
there with its carriage return. -/
def shift (text : List Char) (place : Nat) : Nat := place + (text.take place).count '\n'

variable {text rest front back : List Char} {c : Char} {i j : Nat}

@[simp] theorem withReturns_nil : withReturns [] = [] := rfl

theorem withReturns_newline (rest : List Char) :
    withReturns ('\n' :: rest) = '\r' :: '\n' :: withReturns rest := rfl

theorem withReturns_cons (other : c ≠ '\n') (rest : List Char) :
    withReturns (c :: rest) = c :: withReturns rest := by
  rw [withReturns, List.flatMap_cons, returned, if_neg other]
  rfl

theorem withReturns_append (front back : List Char) :
    withReturns (front ++ back) = withReturns front ++ withReturns back :=
  List.flatMap_append

theorem withReturns_eq_self (plain : '\n' ∉ text) : withReturns text = text := by
  induction text with
  | nil => rfl
  | cons c rest ih =>
    simp only [List.mem_cons, not_or] at plain
    rw [withReturns_cons (Ne.symm plain.1), ih plain.2]

theorem newline_mem_withReturns : '\n' ∈ withReturns text ↔ '\n' ∈ text := by
  constructor
  · intro member
    by_cases plain : '\n' ∈ text
    · exact plain
    · rwa [withReturns_eq_self plain] at member
  · intro member
    exact List.mem_flatMap.mpr ⟨'\n', member, by decide⟩

theorem length_withReturns (text : List Char) :
    (withReturns text).length = text.length + text.count '\n' := by
  induction text with
  | nil => rfl
  | cons c rest ih =>
    by_cases newline : c = '\n'
    · subst newline
      rw [withReturns_newline, List.length_cons, List.length_cons, ih, List.length_cons,
        List.count_cons_self]
      omega
    · rw [withReturns_cons newline, List.length_cons, ih, List.length_cons,
        List.count_cons_of_ne newline]
      omega

section shift

@[simp] theorem shift_zero : shift text 0 = 0 := by simp [shift]

theorem shift_add (text : List Char) (i j : Nat) :
    shift text (i + j) = shift text i + shift (text.drop i) j := by
  simp only [shift, List.take_add, List.count_append]
  omega

theorem shift_length : shift text text.length = (withReturns text).length := by
  rw [shift, List.take_length, length_withReturns]

theorem shift_front (front back : List Char) :
    shift (front ++ back) front.length = (withReturns front).length := by
  rw [shift, List.take_left, length_withReturns]

theorem shift_succ (other : text[i]? ≠ some '\n') : shift text (i + 1) = shift text i + 1 := by
  have single : ((text.drop i).take 1).count '\n' = 0 := by
    rw [List.count_eq_zero, List.take_one, List.head?_drop]
    simpa using other
  rw [shift_add]
  simp only [shift, single]

theorem shift_newline (newline : text[i]? = some '\n') :
    shift text (i + 1) = shift text i + 2 := by
  have single : ((text.drop i).take 1).count '\n' = 1 := by
    rw [List.take_one, List.head?_drop, newline]
    rfl
  rw [shift_add]
  simp only [shift, single]

theorem shift_lt (further : i < j) : shift text i < shift text j := by
  obtain ⟨k, rfl⟩ := Nat.exists_eq_add_of_lt further
  rw [Nat.add_assoc, shift_add]
  simp only [shift]
  omega

theorem shift_le (further : i ≤ j) : shift text i ≤ shift text j := by
  rcases Nat.lt_or_eq_of_le further with before | rfl
  · exact Nat.le_of_lt (shift_lt before)
  · exact Nat.le_refl _

theorem shift_lt_iff : shift text i < shift text j ↔ i < j := by
  refine ⟨fun before => ?_, shift_lt⟩
  apply Nat.lt_of_not_le
  intro further
  exact Nat.not_lt_of_le (shift_le further) before

theorem shift_inj : shift text i = shift text j ↔ i = j := by
  refine ⟨fun same => ?_, fun same => by rw [same]⟩
  rcases Nat.lt_trichotomy i j with before | equal | behind
  · have lower : shift text i < shift text j := shift_lt before
    omega
  · exact equal
  · have lower : shift text j < shift text i := shift_lt behind
    omega

theorem shift_min (i j : Nat) : shift text (min i j) = min (shift text i) (shift text j) := by
  rcases Nat.le_total i j with before | behind
  · rw [Nat.min_eq_left before, Nat.min_eq_left (shift_le before)]
  · rw [Nat.min_eq_right behind, Nat.min_eq_right (shift_le behind)]

theorem shift_take (before : i ≤ j) : shift (text.take j) i = shift text i := by
  rw [shift, shift, List.take_take, Nat.min_eq_left before]

theorem take_withReturns (text : List Char) (i : Nat) :
    (withReturns text).take (shift text i) = withReturns (text.take i) := by
  by_cases inside : i ≤ text.length
  · have parts := withReturns_append (text.take i) (text.drop i)
    have size : (withReturns (text.take i)).length = shift text i := by
      rw [length_withReturns, List.length_take, Nat.min_eq_left inside, shift]
    rw [List.take_append_drop] at parts
    rw [parts, ← size, List.take_left]
  · have beyond : shift text text.length ≤ shift text i := shift_le (Nat.le_of_not_le inside)
    rw [shift_length] at beyond
    rw [List.take_of_length_le beyond, List.take_of_length_le (by omega)]

theorem drop_withReturns (text : List Char) (i : Nat) :
    (withReturns text).drop (shift text i) = withReturns (text.drop i) := by
  have whole := List.take_append_drop (shift text i) (withReturns text)
  have parts := withReturns_append (text.take i) (text.drop i)
  rw [List.take_append_drop] at parts
  rw [take_withReturns] at whole
  exact List.append_cancel_left (whole.trans parts)

/-- Where a line feed stands, the text with carriage returns has one of these. -/
theorem getElem?_withReturns (text : List Char) (i : Nat) :
    (withReturns text)[shift text i]? =
      text[i]?.map fun c => if c = '\n' then '\r' else c := by
  rw [← List.head?_drop, drop_withReturns, ← List.head?_drop]
  cases text.drop i with
  | nil => rfl
  | cons c rest =>
    by_cases newline : c = '\n'
    · subst newline
      rfl
    · rw [withReturns_cons newline, List.head?_cons, List.head?_cons, Option.map_some,
        if_neg newline]

end shift

section blanks

/-- Replacing blanks by blanks moves no end of the trimmed text. -/
theorem dropWhile_flatMap {f : Char → List Char} (text : List Char)
    (blank : ∀ c, isBlank c = true → ∀ d ∈ f c, isBlank d = true)
    (solid : ∀ c, isBlank c = false → f c = [c]) :
    (text.flatMap f).dropWhile isBlank = (text.dropWhile isBlank).flatMap f := by
  induction text with
  | nil => rfl
  | cons c rest ih =>
    cases kind : isBlank c with
    | true =>
      rw [List.flatMap_cons, List.dropWhile_append_of_pos (blank c kind),
        List.dropWhile_cons_of_pos kind, ih]
    | false =>
      have stays : ¬ isBlank c = true := by simp [kind]
      rw [List.dropWhile_cons_of_neg stays, List.flatMap_cons, solid c kind, List.singleton_append,
        List.dropWhile_cons_of_neg stays]

theorem isBlank_returned (blank : isBlank c = true) : ∀ d ∈ returned c, isBlank d = true := by
  unfold returned
  split
  · exact List.forall_mem_cons.mpr ⟨rfl, List.forall_mem_singleton.mpr rfl⟩
  · exact List.forall_mem_singleton.mpr blank

theorem returned_solid (solid : isBlank c = false) : returned c = [c] := by
  apply if_neg
  rintro rfl
  contradiction

theorem trim_withReturns (text : List Char) : trim (withReturns text) = withReturns (trim text) := by
  have blank (c : Char) (h : isBlank c = true) :
      ∀ d ∈ (List.reverse ∘ returned) c, isBlank d = true := by
    intro d member
    exact isBlank_returned h d (List.mem_reverse.mp member)
  have solid (c : Char) (h : isBlank c = false) : (List.reverse ∘ returned) c = [c] := by
    rw [Function.comp_apply, returned_solid h]
    rfl
  rw [trim, trim, withReturns, dropWhile_flatMap text (fun c => isBlank_returned)
    (fun c => returned_solid), List.reverse_flatMap, dropWhile_flatMap _ blank solid,
    withReturns, List.flatMap_reverse]

theorem words_withReturns (text : List Char) : words (withReturns text) = words text := by
  induction text with
  | nil => rfl
  | cons c rest ih =>
    by_cases newline : c = '\n'
    · subst newline
      rw [withReturns_newline, words_blank (by decide), words_blank (by decide), ih,
        words_blank (by decide)]
    · have next : (withReturns rest).head?.any (!isBlank ·) = rest.head?.any (!isBlank ·) := by
        cases rest with
        | nil => rfl
        | cons d rest =>
          by_cases newline' : d = '\n'
          · subst newline'
            rfl
          · rw [withReturns_cons newline', List.head?_cons, List.head?_cons]
      rw [withReturns_cons newline, words, words, next, ih]

end blanks

section numbers

theorem cut?_withReturns {separator : Char} (plain : WithinLine separator)
    (text : List Char) : cut? separator (withReturns text) =
      (cut? separator text).map fun (before, after) => (withReturns before, withReturns after) := by
  induction text with
  | nil => rfl
  | cons c rest ih =>
    by_cases newline : c = '\n'
    · subst newline
      rw [withReturns_newline, cut?, if_neg plain.1.symm, cut?, if_neg plain.2.symm, ih, cut?,
        if_neg plain.2.symm]
      cases cut? separator rest <;> rfl
    · by_cases hit : c = separator
      · rw [withReturns_cons newline, cut?, if_pos hit, cut?, if_pos hit]
        rfl
      · rw [withReturns_cons newline, cut?, if_neg hit, ih, cut?, if_neg hit]
        cases cut? separator rest with
        | none => rfl
        | some parts =>
          obtain ⟨before, after⟩ := parts
          simp only [Option.map_some, withReturns_cons newline]

theorem decimal?_of_newline (member : '\n' ∈ text) : decimal? text = none := by
  rw [decimal?, if_neg]
  rintro ⟨-, digits⟩
  exact absurd (List.all_eq_true.mp digits '\n' member) (by decide)

theorem natural?_of_newline (limit : Nat) (member : '\n' ∈ text) : natural? limit text = none := by
  simp only [natural?]
  split
  · have later := List.mem_of_ne_of_mem (by decide) member
    rw [decimal?_of_newline later]
    rfl
  · rw [decimal?_of_newline member]
    rfl

theorem integer?_of_newline (member : '\n' ∈ text) : integer? text = none := by
  unfold integer?
  split
  · have later := List.mem_of_ne_of_mem (by decide) member
    rw [decimal?_of_newline later]
    rfl
  · have later := List.mem_of_ne_of_mem (by decide) member
    rw [decimal?_of_newline later]
    rfl
  · rw [decimal?_of_newline member]
    rfl

/-- What fails on every text with a line feed does not see carriage returns. -/
theorem apply_withReturns {α : Type} {f : List Char → Option α}
    (fails : ∀ text, '\n' ∈ text → f text = none) (text : List Char) :
    f (withReturns text) = f text := by
  by_cases member : '\n' ∈ text
  · rw [fails text member, fails _ (newline_mem_withReturns.mpr member)]
  · rw [withReturns_eq_self member]

theorem decimal?_withReturns (text : List Char) : decimal? (withReturns text) = decimal? text :=
  apply_withReturns (fun _ => decimal?_of_newline) text

theorem natural?_withReturns (limit : Nat) (text : List Char) :
    natural? limit (withReturns text) = natural? limit text :=
  apply_withReturns (fun _ => natural?_of_newline limit) text

theorem integer?_withReturns (text : List Char) : integer? (withReturns text) = integer? text :=
  apply_withReturns (fun _ => integer?_of_newline) text

end numbers

end Phrasebook.Text

namespace Phrasebook

open Text (withReturns)

theorem Count.parse?_withReturns (text : List Char) :
    parse? (withReturns text) = parse? text := by
  unfold parse?
  rw [Text.cut?_withReturns (by decide)]
  cases Text.cut? '-' text with
  | none => simp only [Option.map_none, Text.natural?_withReturns]
  | some parts =>
    simp only [Option.map_some, Text.trim_withReturns, Text.natural?_withReturns]

/-- The range between two trimmed bounds. -/
def rangeBetween (low high : List Char) : Except NumberProblem (Int × Int) :=
  match Text.integer? low, Text.integer? high with
  | none, _ => .error (.minimum (String.ofList low))
  | some _, none => .error (.maximum (String.ofList high))
  | some min, some max => if min < max then .ok (min, max) else .error (.order min max)

theorem numberRange_cons (c : Char) (rest : List Char) : numberRange (c :: rest) =
    match Text.cut? '-' rest with
    | none => .error (.noRange (String.ofList (c :: rest)))
    | some (low, high) => rangeBetween (Text.trim (c :: low)) (Text.trim high) := by
  rw [numberRange]
  cases Text.cut? '-' rest <;> rfl

theorem rangeBetween_withReturns (low high : List Char) :
    (rangeBetween (withReturns low) (withReturns high)).mapError NumberProblem.bare =
      (rangeBetween low high).mapError NumberProblem.bare := by
  simp only [rangeBetween, Text.integer?_withReturns]
  cases Text.integer? low with
  | none => rfl
  | some min => cases Text.integer? high <;> rfl

theorem numberRange_withReturns (body : List Char) :
    (numberRange (withReturns body)).mapError NumberProblem.bare =
      (numberRange body).mapError NumberProblem.bare := by
  have hyphen : Text.WithinLine '-' := by decide
  cases body with
  | nil => rfl
  | cons c rest =>
    by_cases newline : c = '\n'
    · subst newline
      rw [Text.withReturns_newline, numberRange_cons, numberRange_cons, Text.cut?,
        if_neg hyphen.2.symm, Text.cut?_withReturns hyphen]
      cases Text.cut? '-' rest with
      | none => rfl
      | some parts =>
        obtain ⟨low, high⟩ := parts
        have trimmed := rangeBetween_withReturns (Text.trim ('\n' :: low)) (Text.trim high)
        rw [← Text.trim_withReturns, ← Text.trim_withReturns] at trimmed
        exact trimmed
    · rw [Text.withReturns_cons newline, numberRange_cons, numberRange_cons,
        Text.cut?_withReturns hyphen]
      cases Text.cut? '-' rest with
      | none => rfl
      | some parts =>
        obtain ⟨low, high⟩ := parts
        have trimmed := rangeBetween_withReturns (Text.trim (c :: low)) (Text.trim high)
        rw [← Text.trim_withReturns, ← Text.trim_withReturns, Text.withReturns_cons newline]
          at trimmed
        exact trimmed

theorem flagFunction?_of_scope {c : Char} (unknown : FlagScope.ofChar? c = none)
    (letters : List Char) : flagFunction? (c :: letters) = none := by
  unfold flagFunction?
  split
  · rename_i same
    cases same
    rw [unknown]
    rfl
  · rfl

theorem flagFunction?_of_action {d : Char} (unknown : FlagAction.ofChar? d = none) (c : Char) :
    flagFunction? [c, d] = none := by
  simp only [flagFunction?, unknown]
  cases FlagScope.ofChar? c <;> rfl

theorem flagFunction?_withReturns (text : List Char) :
    flagFunction? ((withReturns text).take 2) = flagFunction? (text.take 2) := by
  cases text with
  | nil => rfl
  | cons c rest =>
    by_cases newline : c = '\n'
    · subst newline
      exact (flagFunction?_of_scope rfl _).trans (flagFunction?_of_scope rfl _).symm
    · rw [Text.withReturns_cons newline]
      cases rest with
      | nil => rfl
      | cons d rest =>
        by_cases newline' : d = '\n'
        · subst newline'
          exact (flagFunction?_of_action rfl c).trans (flagFunction?_of_action rfl c).symm
        · rw [Text.withReturns_cons newline']
          rfl

theorem plain_of_flagFunction? {letters : List Char} {function : FlagScope × FlagAction}
    (h : flagFunction? letters = some function) :
    ∃ c d, letters = [c, d] ∧ c ≠ '\n' ∧ d ≠ '\n' := by
  unfold flagFunction? at h
  split at h
  · rename_i c d
    refine ⟨c, d, rfl, ?_, ?_⟩
    · rintro rfl
      contradiction
    · rintro rfl
      rw [← flagFunction?, flagFunction?_of_action rfl] at h
      contradiction
  · contradiction

/-- The letters of a flag function stand as they are. -/
theorem letters_withReturns {text : List Char} {function : FlagScope × FlagAction}
    (h : flagFunction? (text.take 2) = some function) :
    (withReturns text).take 2 = text.take 2 := by
  obtain ⟨c, d, letters, first, second⟩ := plain_of_flagFunction? h
  rw [← List.take_append_drop 2 text, letters, Text.withReturns_append,
    Text.withReturns_cons first, Text.withReturns_cons second]
  rfl

end Phrasebook
