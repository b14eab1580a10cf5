import Phrasebook.Proofs.Faults
import Phrasebook.Proofs.Safety.Parsing
import Phrasebook.Proofs.Selectors.Options
import Phrasebook.Proofs.Structure.Copying

/-! What the constructs do in a text without opening brackets.
The text ends where its option ends, or where the whole text does. Either way a construct that wants
a bracket does not find it: digits are plain, a call is a lone symbol or none, and every other such
construct stops. -/
namespace Phrasebook

/-- What is still to be read. -/
def Reader.left (r : Reader) : List Char := r.text.toList.drop r.position

namespace Structure

open Letter (isAlphanumeric)

/-- The first character, if there is one, ends an option. -/
def Fenced (tail : List Char) : Prop := ∀ d ∈ tail.head?, d = '/' ∨ d = '}'

def openings : List Char := ['[', '{', '<']

def Unopened (text : List Char) : Prop := ∀ c ∈ text, c ∉ openings

variable {fence c : Char} {text rest tail : List Char} {r : Reader} {u : State} {i p : Nat}

theorem Fenced.nil : Fenced [] := by
  intro d member
  contradiction

theorem Fenced.cons {after : List Char} (ends : fence = '/' ∨ fence = '}') :
    Fenced (fence :: after) := by
  intro d member
  cases member
  exact ends

theorem openings_landmarks : openings.all (landmarks.contains ·) = true := by decide

theorem Apart.unopened (apart : Apart fence text) : Unopened text := by
  induction apart with
  | nil => exact fun c member => absurd member List.not_mem_nil
  | call symbol _ ih =>
    refine List.forall_mem_cons.mpr ⟨by decide, List.forall_mem_cons.mpr ⟨?_, ih⟩⟩
    intro opening
    have none : openings.all (!Call.isSymbol ·) = true := by decide
    simpa [symbol] using List.all_eq_true.mp none _ opening
  | char plain _ _ ih =>
    refine List.forall_mem_cons.mpr ⟨fun opening => plain ?_, ih⟩
    exact List.contains_iff_mem.mp (List.all_eq_true.mp openings_landmarks _ opening)

theorem head?_unopened (unopened : Unopened text) (fenced : Fenced tail) :
    ∀ d ∈ (text ++ tail).head?, d ∉ openings := by
  intro d first
  cases text with
  | nil => rcases fenced d first with rfl | rfl <;> decide
  | cons c text =>
    cases first
    exact unopened _ List.mem_cons_self

theorem charAt_fenced (here : r.text.toList.drop i = tail) (fenced : Fenced tail) :
    r.charAt i = '/' ∨ r.charAt i = '}' ∨ r.charAt i = Reader.endMark := by
  cases tail with
  | nil =>
    rw [List.drop_eq_nil_iff, Array.length_toList] at here
    rw [Reader.charAt, Array.getElem?_eq_none here]
    exact .inr (.inr rfl)
  | cons d after =>
    rw [Reader.charAt_of_drop here]
    exact (fenced d rfl).imp_right .inl

theorem charAt_unopened (here : r.text.toList.drop i = text ++ tail) (unopened : Unopened text)
    (fenced : Fenced tail) : r.charAt i ∉ openings := by
  cases text with
  | nil => rcases charAt_fenced here fenced with same | same | same <;> rw [same] <;> decide
  | cons c text =>
    rw [Reader.charAt_of_drop here]
    exact unopened c List.mem_cons_self

theorem Unopened.behind (unopened : Unopened (c :: text)) : Unopened text :=
  (List.forall_mem_cons.mp unopened).2

theorem beginsFrequency_unopened (unopened : Unopened text) (fenced : Fenced tail) :
    beginsFrequency (text ++ tail) = false := by
  induction text with
  | nil =>
    cases tail with
    | nil => rfl
    | cons d after => rcases fenced d rfl with rfl | rfl <;> rfl
  | cons c text ih =>
    have bracket : ((text ++ tail).head? == some '[') = false := by
      rw [beq_eq_false_iff_ne]
      intro first
      exact head?_unopened unopened.behind fenced '[' first (by decide)
    rw [List.cons_append, beginsFrequency, ih unopened.behind, bracket, Bool.and_false, ite_self]

theorem charAt_digitsEnd_unopened (here : r.text.toList.drop i = text ++ tail)
    (unopened : Unopened text) (fenced : Fenced tail) : r.charAt (r.digitsEnd i) ∉ openings := by
  induction text generalizing i with
  | nil =>
    have stops : (r.charAt i).isDigit = false := by
      rcases charAt_fenced here fenced with same | same | same <;> rw [same] <;> rfl
    rw [Reader.digitsEnd, if_neg (by simp [stops])]
    exact charAt_unopened here unopened fenced
  | cons d text ih =>
    rw [Reader.digitsEnd]
    split
    · exact ih (drop_char here) unopened.behind
    · exact charAt_unopened here unopened fenced

theorem blockEnd_unopened (here : r.text.toList.drop i = text ++ tail) (unopened : Unopened text)
    (fenced : Fenced tail) (construct : Construct) :
    r.blockEnd i construct = .error (.fault (.unterminated construct) i) := by
  rw [Reader.blockEnd, if_neg]
  intro opened
  exact charAt_unopened here unopened fenced (by rw [opened]; decide)

theorem digit_lone (here : u.reader.text.toList.drop p = text ++ tail) (unopened : Unopened text)
    (fenced : Fenced tail) (c : Char) : u.digit c p = .ok (u.emitLiteral c) := by
  refine if_neg ?_
  rw [Reader.frequency_iff, here, beginsFrequency_unopened unopened fenced]
  exact Bool.false_ne_true

theorem readTag_lone (here : u.reader.text.toList.drop (p + 1) = text ++ tail)
    (unopened : Unopened text) (fenced : Fenced tail) :
    u.readTag p = .error (.fault .malformedUniform p) := by
  have stops := charAt_digitsEnd_unopened here unopened fenced
  simp only [State.readTag]
  split
  · rename_i opened
    rw [opened] at stops
    exact absurd (by decide) stops
  · rfl

theorem openRepetition_lone (here : u.reader.text.toList.drop (p + 1) = text ++ tail)
    (unopened : Unopened text) (fenced : Fenced tail) :
    u.openRepetition p = .error (.fault (.unterminated .repeaterCount) (p + 1)) := by
  rw [State.openRepetition, blockEnd_unopened here unopened fenced]
  rfl

theorem randomNumber_lone (here : u.reader.text.toList.drop (p + 1) = text ++ tail)
    (unopened : Unopened text) (fenced : Fenced tail) :
    u.randomNumber p = .error (.fault (.unterminated .randomNumber) (p + 1)) := by
  rw [State.randomNumber, blockEnd_unopened here unopened fenced]
  rfl

/-- A fence is no letter of a flag function. -/
theorem flagFunction?_fenced (fenced : Fenced tail) :
    flagFunction? ((text ++ tail).take 2) = flagFunction? (text.take 2) := by
  match text with
  | a :: b :: text => rfl
  | [a] =>
    cases tail with
    | nil => rfl
    | cons d after =>
      have letter : FlagAction.ofChar? d = none := by
        rcases fenced d rfl with rfl | rfl <;> rfl
      cases scope : FlagScope.ofChar? a <;> simp [flagFunction?, scope, letter]
  | [] =>
    cases tail with
    | nil => rfl
    | cons d after =>
      have letter : FlagScope.ofChar? d = none := by
        rcases fenced d rfl with rfl | rfl <;> rfl
      cases after <;> simp [flagFunction?, letter]

theorem flag_lone (here : u.reader.text.toList.drop (p + 1) = text ++ tail)
    (unopened : Unopened text) (fenced : Fenced tail) :
    u.flag p = match flagFunction? (text.take 2) with
      | none => .error (.fault (.unknownFlagFunction (String.ofList ((text ++ tail).take 2))) p)
      | some _ => .error (.fault (.unterminated .flagName) (p + 3)) := by
  have letters : u.reader.slice (p + 1) (p + 3) = (text ++ tail).take 2 := by
    simp [Reader.slice, here]
  simp only [State.flag, letters, flagFunction?_fenced fenced]
  rcases text with _ | ⟨a, _ | ⟨b, text⟩⟩
  · rfl
  · rfl
  · have behind : u.reader.text.toList.drop (p + 3) = text ++ tail := drop_char (drop_char here)
    cases flagFunction? ((a :: b :: text).take 2) with
    | none => rfl
    | some function =>
      simp only [blockEnd_unopened behind unopened.behind.behind fenced]
      rfl

theorem peek_alphanumeric (here : r.left = text ++ tail) (fenced : Fenced tail) :
    isAlphanumeric r.peek = text.head?.any isAlphanumeric := by
  cases text with
  | nil => rcases charAt_fenced here fenced with same | same | same <;> rw [Reader.peek, same] <;> rfl
  | cons c text =>
    rw [Reader.peek, Reader.charAt_of_drop here]
    rfl

theorem peek_tilde (here : r.left = text ++ tail) (fenced : Fenced tail) :
    r.peek = '~' ↔ text.head? = some '~' := by
  cases text with
  | nil =>
    rcases charAt_fenced here fenced with same | same | same <;> rw [Reader.peek, same] <;> decide
  | cons c text =>
    rw [Reader.peek, Reader.charAt_of_drop here]
    simp

theorem squareBlock?_unopened {allowed : Char → Bool} (head : ∀ d ∈ text.head?, d ∉ openings) :
    Call.squareBlock? allowed text = some ([], 0, text) := by
  cases text with
  | nil => rfl
  | cons d text =>
    refine Call.squareBlock?_of_ne ?_ text
    rintro rfl
    exact head '[' rfl (by decide)

theorem carrierBlock?_unopened (head : ∀ d ∈ text.head?, d ∉ openings) :
    Call.carrierBlock? text = none := by
  cases text with
  | nil => rfl
  | cons d text =>
    refine Call.carrierBlock?_of_ne ?_ text
    rintro rfl
    exact head '<' rfl (by decide)

theorem modern?_unopened (head : ∀ d ∈ text.head?, d ∉ openings) (c : Char) :
    Call.modern? (c :: text) = none := by
  cases text with
  | nil => rfl
  | cons d text =>
    refine Call.modern?_of_ne ?_ text
    rintro ⟨rfl, _⟩
    exact head '[' rfl (by decide)

theorem parse?_symbol (symbol : Call.isSymbol c = true) (unopened : Unopened text)
    (fenced : Fenced tail) :
    Call.parse? ('+' :: c :: (text ++ tail)) = some ⟨c, "", "", none, 2⟩ := by
  have head := head?_unopened unopened fenced
  have bracket : c ≠ '[' := by
    rintro rfl
    contradiction
  rw [Call.parse?, modern?_unopened head, Option.none_or, Call.legacy?,
    Call.squareBlock?_of_ne bracket]
  simp only [bind, Option.bind_some, if_pos symbol, squareBlock?_unopened head,
    carrierBlock?_unopened head]
  rfl

theorem parse?_of_not_symbol (head : ∀ d ∈ text.head?, d ∉ openings)
    (lone : ∀ d ∈ text.head?, Call.isSymbol d = false) : Call.parse? ('+' :: text) = none := by
  have modern : Call.modern? text = none := by
    match text with
    | [] => rfl
    | [d] => rfl
    | d :: e :: text =>
      refine Call.modern?_of_ne (fun both => ?_) text
      rw [lone d rfl] at both
      exact absurd both.2 Bool.false_ne_true
  rw [Call.parse?, modern, Option.none_or, Call.legacy?, squareBlock?_unopened head]
  cases text with
  | nil => rfl
  | cons d text => simp [lone d rfl]

end Structure

end Phrasebook
