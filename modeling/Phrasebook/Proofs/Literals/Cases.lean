import Mathlib.Data.List.Chain
import Phrasebook.Letter.Casing
import Phrasebook.Reader

/-! Letter case, character by character and for whole words.
Plain text is raised one character at a time, by what stands before it; the word of a call is raised
as a whole. Nothing but a letter or a digit has another upper-case form, so the two agree wherever
they find the same beginnings of words: plain text finds one behind every mark, a whole word only
behind white space. -/
namespace Phrasebook.Letter

/-- The first range that ends at the one code point or later reaches over it to the other. -/
def spansRange (low high : Nat) : Bool :=
  (alphanumericRanges.find? (low ≤ ·.2)).any fun range => range.1 ≤ low && high ≤ range.2

variable {c : Char} {low high : Nat}

/-- The ranges before the one that spans both code points end below all that lies between. -/
theorem isAlphanumeric_of_spansRange (spans : spansRange low high = true) (beyond : 128 ≤ low)
    (least : low ≤ c.toNat) (most : c.toNat ≤ high) : isAlphanumeric c = true := by
  obtain ⟨range, found, bounds⟩ := (Option.any_eq_true _ _).mp spans
  obtain ⟨begins, before, after, split, passed⟩ := List.find?_eq_some_iff_append.mp found
  simp only [Bool.and_eq_true, decide_eq_true_eq] at bounds
  have found' : alphanumericRanges.find? (c.toNat ≤ ·.2) = some range := by
    rw [List.find?_eq_some_iff_append]
    refine ⟨by simp; omega, before, after, split, fun earlier member => ?_⟩
    have ended := passed earlier member
    simp only [Bool.not_eq_true', decide_eq_false_iff_not] at ended ⊢
    omega
  rw [isAlphanumeric, if_neg (by omega), found']
  simp only [Option.any_some, decide_eq_true_eq]
  omega

theorem isAlphanumeric_of_covers {run : CaseRun} (member : run ∈ uppercaseRuns)
    (covered : run.covers c.toNat = true) : isAlphanumeric c = true := by
  have all : uppercaseRuns.all
      (fun run => 128 ≤ run.low && spansRange run.low run.high) = true := by
    decide +kernel
  have spans := List.all_eq_true.mp all run member
  simp only [CaseRun.covers, Bool.and_eq_true, decide_eq_true_eq] at spans covered
  exact isAlphanumeric_of_spansRange spans.2 spans.1 covered.1.1 covered.1.2

theorem isAlphanumeric_of_unfolds {unfolded : List Nat}
    (found : uppercaseUnfoldings.lookup c.toNat = some unfolded) : isAlphanumeric c = true := by
  have all : uppercaseUnfoldings.all (fun u => 128 ≤ u.1 && spansRange u.1 u.1) = true := by
    decide +kernel
  obtain ⟨before, after, split, -⟩ := List.lookup_eq_some_iff.mp found
  have spans := List.all_eq_true.mp all (c.toNat, unfolded) (by simp [split])
  simp only [Bool.and_eq_true, decide_eq_true_eq] at spans
  exact isAlphanumeric_of_spansRange spans.2 spans.1 (Nat.le_refl _) (Nat.le_refl _)

/-- What is neither a letter nor a digit has no other upper-case form. -/
theorem uppercase_of_not_alphanumeric (other : isAlphanumeric c = false) : uppercase c = [c] := by
  rw [uppercase]
  split
  · rename_i small
    rw [isAlphanumeric, if_pos small] at other
    delta Char.isAlphanum Char.isAlpha Char.isLower at other
    simp only [Bool.or_eq_false_iff, Bool.and_eq_false_iff, decide_eq_false_iff_not] at other
    have same : c.toUpper = c :=
      dif_neg fun between => other.1.2.elim (· between.1) (· between.2)
    rw [same]
  · split
    · rename_i run found
      have covered : run.covers c.toNat = true := by simpa using List.find?_some found
      have letter := isAlphanumeric_of_covers (List.mem_of_find?_eq_some found) covered
      rw [other] at letter
      contradiction
    · split
      · rename_i unfolded found
        have letter := isAlphanumeric_of_unfolds found
        rw [other] at letter
        contradiction
      · rfl

theorem capital_of_not_alphanumeric (other : isAlphanumeric c = false) : capital c = c := by
  rw [capital, uppercase_of_not_alphanumeric other, List.headD_cons]

theorem uppercase_of_single (single : (uppercase c).length = 1) : uppercase c = [capital c] := by
  obtain ⟨d, same⟩ := List.length_eq_one_iff.mp single
  rw [capital, same, List.headD_cons]

namespace Casing

/-- How plain text is cased: whether a letter or digit is raised behind the last character. -/
def raises (casing : Casing) (last : Char) : Bool :=
  match casing with
  | plain => false
  | first => true
  | proper => !isAlphanumeric last && last != '\''
  | upper => true

/-- The casing behind a character: the first letter or digit ends the casing of a first letter. -/
def behind (casing : Casing) (c : Char) : Casing :=
  if casing = first ∧ isAlphanumeric c = true then plain else casing

/-- Plain text in this casing, behind the given character. -/
def spread (casing : Casing) (last : Char) : List Char → List Char
  | [] => []
  | c :: rest =>
    (if isAlphanumeric c && casing.raises last then capital c else c) ::
      spread (casing.behind c) c rest

/-- A mark ends a word of plain text, but not the word of a call. -/
def isMark (c : Char) : Bool := !isAlphanumeric c && !isBlank c && c != '\''

/-- The first letter or digit of the text is its first character, and in a text of several words no
mark stands before a letter, as far as the letters have capitals. -/
def Suits (casing : Casing) (text : List Char) : Prop :=
  match casing with
  | plain => True
  | first => ∀ c, text.find? isAlphanumeric = some c → text.head? = some c ∨ capital c = c
  | proper => text.IsChain fun d c => isMark d = true → isAlphanumeric c = true → capital c = c
  | upper => True

theorem raises_proper (last : Char) : proper.raises last = (isBlank last || isMark last) := by
  cases alphanumeric : isAlphanumeric last with
  | true => simp [raises, isMark, alphanumeric, isBlank_of_isAlphanumeric alphanumeric]
  | false =>
    cases blank : isBlank last with
    | false => simp [raises, isMark, alphanumeric, blank]
    | true =>
      have other : last ≠ '\'' := by
        rintro rfl
        contradiction
      simp [raises, alphanumeric, other]

theorem spread_plain (last : Char) (text : List Char) : plain.spread last text = text := by
  induction text generalizing last with
  | nil => rfl
  | cons c rest ih => simp [spread, raises, behind, ih]

/-- Where a first letter is pending, plain text stays as it is if its first letter or digit has no
other capital. -/
theorem spread_first_eq_self_iff (last : Char) (text : List Char) : first.spread last text = text ↔
    ∀ c, text.find? isAlphanumeric = some c → capital c = c := by
  induction text generalizing last with
  | nil => simp [spread]
  | cons c rest ih =>
    cases alphanumeric : isAlphanumeric c with
    | true => simp [spread, raises, behind, alphanumeric, spread_plain]
    | false => simpa [spread, behind, alphanumeric] using ih c

section single

variable {text : List Char} (single : ∀ c ∈ text, (uppercase c).length = 1)
include single

theorem spread_upper (last : Char) : upper.spread last text = uppercaseText text := by
  induction text generalizing last with
  | nil => rfl
  | cons c rest ih =>
    have later := ih (List.forall_mem_cons.mp single).2 c
    have alone := uppercase_of_single (single c List.mem_cons_self)
    have head : (if isAlphanumeric c && upper.raises last then capital c else c) = capital c := by
      cases alphanumeric : isAlphanumeric c with
      | true => rfl
      | false => exact (capital_of_not_alphanumeric alphanumeric).symm
    rw [spread, head]
    change capital c :: upper.spread c rest = uppercase c ++ uppercaseText rest
    rw [later, alone]
    rfl

theorem spread_proper_iff (last : Char) :
    proper.spread last text = capitalizeWords (isBlank last) text ↔
      (last :: text).IsChain fun d c =>
        isMark d = true → isAlphanumeric c = true → capital c = c := by
  induction text generalizing last with
  | nil => simp [spread, capitalizeWords]
  | cons c rest ih =>
    have later := ih (List.forall_mem_cons.mp single).2 c
    have alone := uppercase_of_single (single c List.mem_cons_self)
    have word : capitalizeWords (isBlank last) (c :: rest) =
        (if isAlphanumeric c && isBlank last then capital c else c) ::
          capitalizeWords (isBlank c) rest := by
      rw [capitalizeWords, alone, Bool.and_comm]
      split <;> rfl
    rw [word, spread, List.cons.injEq, List.isChain_cons_cons, ← later]
    refine and_congr ?_ Iff.rfl
    rw [raises_proper]
    cases blank : isBlank last with
    | true => simp [isMark, blank]
    | false => cases isAlphanumeric c <;> cases isMark last <;> simp

theorem spread_first_iff (last : Char) :
    first.spread last text = first.applyList text ↔ first.Suits text := by
  cases text with
  | nil => simp [spread, applyList, Suits]
  | cons c rest =>
    have alone := uppercase_of_single (single c List.mem_cons_self)
    rw [applyList, alone, Suits]
    cases alphanumeric : isAlphanumeric c with
    | true => simp [spread, raises, behind, alphanumeric, spread_plain]
    | false =>
      have later := spread_first_eq_self_iff c rest
      have other : ∀ d, rest.find? isAlphanumeric = some d → c ≠ d := by
        rintro d found rfl
        have letter := List.find?_some found
        rw [alphanumeric] at letter
        contradiction
      have still : capital c = c := capital_of_not_alphanumeric alphanumeric
      simp only [spread, behind, alphanumeric, Bool.false_and, Bool.false_eq_true, and_false,
        if_false, still, List.singleton_append, List.cons.injEq, true_and, later,
        List.find?_cons, List.head?_cons, Option.some.injEq]
      exact forall₂_congr fun d found => (or_iff_right (other d found)).symm

/-- Plain text and the word of a call come out the same exactly where the casing suits the text. -/
theorem spread_eq_applyList_iff (casing : Casing) :
    casing.spread Reader.endMark text = casing.applyList text ↔ casing.Suits text := by
  cases casing with
  | plain => simp [spread_plain, applyList, Suits]
  | first => exact spread_first_iff single _
  | proper =>
    have start : proper.spread Reader.endMark text = proper.spread ' ' text := by
      cases text <;> rfl
    have chain : (' ' :: text).IsChain (fun d c => isMark d = true → isAlphanumeric c = true →
        capital c = c) ↔ proper.Suits text := by
      have none : isMark ' ' = false := by decide
      cases text <;> simp [Suits, List.isChain_cons_cons, none]
    rw [start, ← chain]
    exact spread_proper_iff single ' '
  | upper => simp [spread_upper single, applyList, Suits]

end single

end Casing

end Phrasebook.Letter
