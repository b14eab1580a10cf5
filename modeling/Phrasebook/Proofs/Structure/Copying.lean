import Phrasebook.Proofs.Streams.Lookup
import Phrasebook.Proofs.Structure.Constructs
import Phrasebook.Substitution

/-! Text that stands for itself.
Escaped text is written as it was before it was escaped, wherever it stands, unless digits at its
end are followed by what makes them the number of a frequency. -/
namespace Phrasebook

/-- Digits at the front of the text, if any, are the number of a frequency. -/
def beginsFrequency : List Char → Bool
  | [] => false
  | c :: rest => if c.isDigit then beginsFrequency rest else c == '%' && rest.head? == some '['

theorem escapeLiteral_cons (c : Char) (text : List Char) :
    escapeLiteral (c :: text) =
      (if structuralChars.contains c then ['\\', c] else [c]) ++ escapeLiteral text := rfl

theorem escapeLiteral_structural {c : Char} (structural : c ∈ structuralChars)
    (text : List Char) : escapeLiteral (c :: text) = '\\' :: c :: escapeLiteral text := by
  simp [escapeLiteral_cons, structural]

theorem escapeLiteral_other {c : Char} (other : c ∉ structuralChars) (text : List Char) :
    escapeLiteral (c :: text) = c :: escapeLiteral text := by
  simp [escapeLiteral_cons, other]

theorem digit_not_structural {c : Char} (digit : c.isDigit = true) : c ∉ structuralChars := by
  have plain : structuralChars.all (fun d => !d.isDigit) = true := by decide
  intro structural
  have other := List.all_eq_true.mp plain c structural
  rw [digit] at other
  contradiction

theorem beginsFrequency_escapeLiteral (value rest : List Char) :
    beginsFrequency (escapeLiteral value ++ rest) =
      (value.all Char.isDigit && beginsFrequency rest) := by
  induction value with
  | nil => rfl
  | cons c value ih =>
    by_cases digit : c.isDigit = true
    · rw [escapeLiteral_other (digit_not_structural digit), List.cons_append, beginsFrequency,
        if_pos digit, ih, List.all_cons, digit, Bool.true_and]
    · have stops : beginsFrequency (escapeLiteral (c :: value) ++ rest) = false := by
        by_cases structural : c ∈ structuralChars
        · rw [escapeLiteral_structural structural]
          simp [beginsFrequency]
        · have plain : c ≠ '%' := by
            rintro rfl
            exact structural (by decide)
          rw [escapeLiteral_other structural]
          simp [beginsFrequency, plain, digit]
      rw [stops, List.all_cons, Bool.eq_false_iff.mpr digit, Bool.false_and, Bool.false_and]

/-- Digits at the end of the value, with what follows it, are the number of a frequency. -/
def joinsFrequency (value rest : List Char) : Bool :=
  value.getLast?.any Char.isDigit && beginsFrequency rest

theorem joinsFrequency_of_digits {value : List Char} (digits : ∀ c ∈ value, c.isDigit = true)
    (present : value ≠ []) (rest : List Char) :
    joinsFrequency value rest = beginsFrequency rest := by
  have last := digits _ (List.getLast_mem present)
  rw [joinsFrequency, List.getLast?_eq_some_getLast present, Option.any_some, last, Bool.true_and]

theorem joinsFrequency_tail {c : Char} {value rest : List Char}
    (apart : joinsFrequency (c :: value) rest = false) : joinsFrequency value rest = false := by
  cases value with
  | nil => rfl
  | cons d value => rwa [joinsFrequency, List.getLast?_cons_cons] at apart

theorem apart_of_digit {c : Char} {value rest : List Char}
    (apart : joinsFrequency (c :: value) rest = false) (digit : c.isDigit = true) :
    beginsFrequency (escapeLiteral value ++ rest) = false := by
  rw [beginsFrequency_escapeLiteral]
  cases all : value.all Char.isDigit with
  | false => exact Bool.false_and _
  | true =>
    have digits : ∀ d ∈ c :: value, d.isDigit = true :=
      List.forall_mem_cons.mpr ⟨digit, List.all_eq_true.mp all⟩
    rw [Bool.true_and, ← joinsFrequency_of_digits digits nofun, apart]

namespace Reader

theorem charAt_eq_iff {r : Reader} {i : Nat} {c : Char} (present : c ≠ endMark) :
    r.charAt i = c ↔ (r.text.toList.drop i).head? = some c := by
  rw [List.head?_drop, Array.getElem?_toList, charAt]
  cases r.text[i]? with
  | none => simpa using present.symm
  | some d => simp

theorem frequency_iff (r : Reader) (i : Nat) :
    (r.charAt (r.digitsEnd i) = '%' ∧ r.charAt (r.digitsEnd i + 1) = '[') ↔
      beginsFrequency (r.text.toList.drop i) = true := by
  fun_induction digitsEnd r i with
  | case1 i digit ih =>
    have inside : i < r.text.toList.length := by simpa using r.lt_size_of_isDigit digit
    have here := List.drop_eq_getElem_cons inside
    rw [here, beginsFrequency, ← charAt_of_drop here, if_pos digit, ih]
  | case2 i other =>
    rw [charAt_eq_iff (by decide), charAt_eq_iff (by decide)]
    cases here : r.text.toList.drop i with
    | nil => simp [beginsFrequency]
    | cons c rest =>
      rw [charAt_of_drop here] at other
      simp [beginsFrequency, other, drop_char here]

end Reader

namespace Structure

open State (Reaches)

variable {setting : Setting} {salt : UInt64} {site : Site} {position : Nat} {sc : Scene}
  {u : State}

theorem Scene.write_append (sc : Scene) (text more : String) :
    sc.write (text ++ more) = (sc.write text).write more := by
  simp only [Scene.write, Streams.write_append]

theorem markup_structural : ∀ c ∈ markup, c ∈ structuralChars := by
  simp [markup, structuralChars]

theorem structural_present : ∀ c ∈ structuralChars, c ≠ Reader.endMark := by
  simp [structuralChars, Reader.endMark]

theorem Shows.copiesDigit {c : Char} {rest : List Char} (digit : c.isDigit = true)
    (apart : beginsFrequency rest = false) (shown : Shows salt site position sc u)
    (here : site.text.drop position = c :: rest) :
    ∃ v, Reaches setting u v ∧
      Shows salt site (position + 1) (sc.write (String.singleton c)) v := by
  have next := shown.next here
  have plain : ¬ ((u.moveTo (position + 1)).reader.charAt
      ((u.moveTo (position + 1)).reader.digitsEnd position) = '%' ∧
      (u.moveTo (position + 1)).reader.charAt
        ((u.moveTo (position + 1)).reader.digitsEnd position + 1) = '[') := by
    rw [Reader.frequency_iff, next.text, here, beginsFrequency, if_pos digit, apart]
    decide
  have performed : (u.moveTo (position + 1)).perform setting c position =
      .ok ((u.moveTo (position + 1)).emitLiteral c) := by
    rw [State.perform, sign_of_digit digit]
    exact if_neg plain
  exact ⟨_, shown.step here performed, next.emitLiteral c⟩

theorem Shows.copiesChar {c : Char} {rest : List Char}
    (apart : c.isDigit = true → beginsFrequency rest = false)
    (free : site.Free position (escapeLiteral [c]).length)
    (shown : Shows salt site position sc u)
    (here : site.text.drop position = escapeLiteral [c] ++ rest) :
    ∃ v, Reaches setting u v ∧
      Shows salt site (position + (escapeLiteral [c]).length)
        (sc.write (String.singleton c)) v := by
  by_cases structural : c ∈ structuralChars
  · have escaped : escapeLiteral [c] = ['\\', c] := escapeLiteral_structural structural []
    rw [escaped] at free here ⊢
    exact simulates_escaped ⟨c, structural_present c structural⟩ site position sc rest u shown
      here free
  · have unescaped : escapeLiteral [c] = [c] := escapeLiteral_other structural []
    rw [unescaped] at free here ⊢
    by_cases digit : c.isDigit = true
    · exact shown.copiesDigit digit (apart digit) here
    · have plain : c ∉ markup ∧ c.isDigit = false :=
        ⟨fun marked => structural (markup_structural c marked), by simpa using digit⟩
      exact simulates_plain ⟨c, plain⟩ site position sc rest u shown here free

/-- A run goes over an escaped text and writes the text, whatever characters that has, unless its
last digits join with what follows. -/
theorem Shows.copies {value rest : List Char} (apart : joinsFrequency value rest = false)
    (free : site.Free position (escapeLiteral value).length)
    (shown : Shows salt site position sc u)
    (here : site.text.drop position = escapeLiteral value ++ rest) :
    ∃ v, Reaches setting u v ∧
      Shows salt site (position + (escapeLiteral value).length)
        (sc.write (String.ofList value)) v := by
  induction value generalizing position sc u with
  | nil => exact ⟨u, .refl u, shown⟩
  | cons c value ih =>
    have split : escapeLiteral (c :: value) = escapeLiteral [c] ++ escapeLiteral value := by
      simp [escapeLiteral]
    rw [split, List.length_append] at free ⊢
    rw [split, List.append_assoc] at here
    obtain ⟨v, first, between⟩ := shown.copiesChar (apart_of_digit apart)
      (free.part (Nat.le_refl _) (by omega)) here
    obtain ⟨w, others, after⟩ := ih (joinsFrequency_tail apart)
      (free.part (Nat.le_add_right _ _) (by omega)) between (drop_part here)
    refine ⟨w, first.trans others, ?_⟩
    have whole : String.singleton c ++ String.ofList value = String.ofList (c :: value) := by
      simp
    rw [← whole, Scene.write_append, ← Nat.add_assoc]
    exact after

theorem shows_start (text : List Char) (flags : Flags) (g : Generator) :
    Shows g.peek.toUInt64 ⟨text, [], []⟩ 0 ⟨Streams.empty, ∅, flags, g⟩
      (State.start text flags g) := by
  constructor <;> rfl

/-- A run that shows a scene where the text has ended leaves what the scene has. -/
theorem evaluate_of_shows {text : List Char} {flags : Flags} {g : Generator}
    (run : ∃ s, Reaches setting (State.start text flags g) s ∧
      Shows salt ⟨text, [], []⟩ text.length sc s) :
    evaluate setting text flags g =
      { result := .ok sc.streams.finish
        flags := sc.globalFlags
        warnings := []
        generator := sc.generator } := by
  obtain ⟨s, reached, shown⟩ := run
  have ended : s.reader.atEnd = true := by
    rw [Reader.atEnd_iff, shown.position, ← Array.length_toList, shown.text]
  rw [State.evaluate_of_reaches reached ended, shown.streams, shown.globalFlags, shown.warnings,
    shown.generator, List.reverse_nil]

/-- An escaped value at the beginning of a text is written before the rest of the text is read. -/
theorem exists_shows_copied (setting : Setting) (value rest : List Char) (flags : Flags)
    (g : Generator) (apart : joinsFrequency value rest = false) :
    ∃ s, Reaches setting (State.start (escapeLiteral value ++ rest) flags g) s ∧
      Shows g.peek.toUInt64 ⟨escapeLiteral value ++ rest, [], []⟩ (escapeLiteral value).length
        ⟨Streams.empty.write (String.ofList value), ∅, flags, g⟩ s := by
  have free : (Site.mk (escapeLiteral value ++ rest) [] []).Free 0
      (escapeLiteral value).length := nofun
  obtain ⟨s, reached, shown⟩ :=
    (shows_start (escapeLiteral value ++ rest) flags g).copies apart free rfl
  rw [Nat.zero_add] at shown
  exact ⟨s, reached, shown⟩

theorem evaluate_escapeLiteral (setting : Setting) (value : List Char) (flags : Flags)
    (g : Generator) :
    evaluate setting (escapeLiteral value) flags g =
      { result := .ok (Streams.empty.write (String.ofList value)).finish
        flags := flags
        warnings := []
        generator := g } := by
  have run := exists_shows_copied setting value [] flags g (Bool.and_false _)
  rw [List.append_nil] at run
  exact evaluate_of_shows run

end Structure

end Phrasebook
