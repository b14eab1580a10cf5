import Phrasebook.Evaluation.Effect
import Phrasebook.Proofs.Steps
import Phrasebook.Proofs.Structure.Meaning
import Phrasebook.Proofs.Structure.Reading

/-! Runs that carry out what a stretch of text means.
A run is compared with a scene at the beginning and at the end of a stretch. In between it may jump;
the stacks of selectors and repetitions are the same at both ends. -/
namespace Phrasebook.Structure

open State (Reaches)

/-- The text of a run, and the selectors and repetitions that are open around a stretch of it. -/
structure Site where
  text : List Char
  selectors : List Nat
  repetitions : List Repetition

/-- The run is at a position of the site, with the flags and streams of the scene. -/
structure Shows (salt : UInt64) (site : Site) (position : Nat) (sc : Scene) (s : State) : Prop where
  text : s.reader.text.toList = site.text
  position : s.reader.position = position
  selectors : s.selectors = site.selectors
  repetitions : s.repetitions = site.repetitions
  streams : s.streams = sc.streams
  localFlags : s.localFlags = sc.localFlags
  globalFlags : s.globalFlags = sc.globalFlags
  generator : s.generator = sc.generator
  salt : s.salt = salt
  tag : s.tag = none
  warnings : s.warnings = []
  upper : s.upper = false
  proper : s.proper = false
  firstPending : s.firstPending = false

def awaited (r : Repetition) : Nat := if r.onSeparator then r.separatorEnd else r.contentEnd

/-- The innermost repetition does not wait for a bracket of the stretch. -/
def Site.Free (site : Site) (start length : Nat) : Prop :=
  ∀ r, site.repetitions.head? = some r → awaited r < start ∨ start + length ≤ awaited r

/-- Wherever the text stands, a run goes over it and shows what `run` makes of the scene. -/
def Simulates (setting : Setting) (salt : UInt64) (text : List Char)
    (run : Nat → Scene → Scene) : Prop :=
  ∀ site position sc rest s, Shows salt site position sc s →
    site.text.drop position = text ++ rest → site.Free position text.length →
      ∃ t, Reaches setting s t ∧
        Shows salt site (position + text.length) (run site.repetitions.length sc) t

theorem Site.Free.part {site : Site} {start length start' length' : Nat}
    (h : site.Free start length) (low : start ≤ start')
    (high : start' + length' ≤ start + length) : site.Free start' length' := by
  intro r innermost
  have := h r innermost
  omega

theorem fits {text part rest : List Char} {i : Nat} (inside : i ≤ text.length)
    (h : text.drop i = part ++ rest) : i + part.length ≤ text.length := by
  have size := congrArg List.length h
  rw [List.length_drop, List.length_append] at size
  omega

theorem reaches_of_drop {setting : Setting} {s t : State} {position : Nat} {c : Char}
    {rest : List Char} (place : s.reader.position = position)
    (h : s.reader.text.toList.drop position = c :: rest)
    (performed : (s.moveTo (position + 1)).perform setting c position = .ok t) :
    Reaches setting s t := by
  have inside := Reader.lt_size_of_drop h
  have more : s.reader.atEnd = false := by
    rw [Bool.eq_false_iff, ne_eq, Reader.atEnd_iff, place]
    omega
  apply Reaches.one more
  rw [State.step, Reader.read, Reader.peek, place, Reader.charAt_of_drop h]
  exact performed

namespace Shows

variable {setting : Setting} {salt : UInt64} {site : Site} {position : Nat} {sc : Scene}
  {s t : State} {c : Char} {text rest : List Char}

theorem le_length (shown : Shows salt site position sc s) : position ≤ site.text.length := by
  rw [← shown.position, ← shown.text, Array.length_toList]
  exact s.reader.inside

theorem drop (shown : Shows salt site position sc s) {i : Nat} (h : site.text.drop i = text) :
    s.reader.text.toList.drop i = text := by
  rw [shown.text, h]

theorem moveTo (shown : Shows salt site position sc s) {i : Nat} (inside : i ≤ site.text.length) :
    Shows salt site i sc (s.moveTo i) := by
  have size : i ≤ s.reader.text.size := by rwa [← shown.text, Array.length_toList] at inside
  exact { shown with position := Nat.min_eq_left size }

theorem drawn (shown : Shows salt site position sc s) :
    Shows salt site position sc.draw.2 { s with generator := s.generator.advance } :=
  { shown with generator := congrArg Generator.advance shown.generator }

theorem next (shown : Shows salt site position sc s) (h : site.text.drop position = c :: rest) :
    Shows salt site (position + 1) sc (s.moveTo (position + 1)) := by
  apply shown.moveTo
  exact fits shown.le_length (show _ = [c] ++ rest from h)

theorem step (shown : Shows salt site position sc s) (h : site.text.drop position = c :: rest)
    (performed : (s.moveTo (position + 1)).perform setting c position = .ok t) :
    Reaches setting s t :=
  reaches_of_drop shown.position (shown.drop h) performed

end Shows

namespace Simulates

variable {setting : Setting} {salt : UInt64} {s t : List Char} {f g : Nat → Scene → Scene}

theorem nil : Simulates setting salt [] fun _ sc => sc := by
  intro site position sc rest u shown here free
  exact ⟨u, .refl u, shown⟩

theorem append (hs : Simulates setting salt s f) (ht : Simulates setting salt t g) :
    Simulates setting salt (s ++ t) fun depth sc => g depth (f depth sc) := by
  intro site position sc rest u shown here free
  rw [List.append_assoc] at here
  rw [List.length_append] at free ⊢
  obtain ⟨v, first, between⟩ := hs site position sc _ u shown here
    (free.part (Nat.le_refl _) (by omega))
  obtain ⟨w, second, after⟩ := ht site _ _ rest v between (drop_part here)
    (free.part (Nat.le_add_right _ _) (by omega))
  refine ⟨w, first.trans second, ?_⟩
  rwa [Nat.add_assoc] at after

theorem char {c : Char}
    (performed : ∀ site position sc u, Shows salt site (position + 1) sc u →
      site.Free position 1 → ∃ v, u.perform setting c position = .ok v ∧
        Shows salt site (position + 1) (f site.repetitions.length sc) v) :
    Simulates setting salt [c] f := by
  intro site position sc rest u shown here free
  obtain ⟨v, done, after⟩ := performed site position sc _ (shown.next here) free
  exact ⟨v, shown.step here done, after⟩

end Simulates

theorem ofClose_inside {index : Nat} {repetitions : List Repetition}
    (inside : ∀ r, repetitions.head? = some r → awaited r ≠ index) :
    Boundary.ofClose index repetitions = (.inside, repetitions) := by
  cases repetitions with
  | nil => rfl
  | cons r outer =>
    have other := inside r rfl
    unfold awaited at other
    rw [Boundary.ofClose]
    cases on : r.onSeparator with
    | true =>
      rw [if_pos on] at other
      rw [if_neg (by simp), if_neg (by simpa using Ne.symm other)]
    | false =>
      rw [if_neg (by simp [on])] at other
      rw [if_neg (by simpa using Ne.symm other), if_neg (by simp)]

theorem closeBlock_inside {s : State} {index : Nat}
    (inside : ∀ r, s.repetitions.head? = some r → awaited r ≠ index) :
    s.closeBlock index = s := by
  rw [State.closeBlock, ofClose_inside inside]

section characters

variable {setting : Setting} {salt : UInt64}

theorem simulates_opening : Simulates setting salt ['['] fun _ sc => sc := by
  refine .char fun site position sc u shown free => ?_
  exact ⟨u, rfl, shown⟩

theorem simulates_closing : Simulates setting salt [']'] fun _ sc => sc := by
  refine .char fun site position sc u shown free => ?_
  refine ⟨u, congrArg Except.ok (closeBlock_inside fun r innermost => ?_), shown⟩
  rw [shown.repetitions] at innermost
  have := free r innermost
  omega

theorem simulates_lineBreak :
    Simulates setting salt ['|'] fun _ sc => sc.write setting.lineBreak := by
  refine .char fun site position sc u shown free => ?_
  refine ⟨u.emitLineBreak setting.lineBreak, rfl, { shown with streams := ?_ }⟩
  rw [State.emitLineBreak, shown.streams]
  rfl

theorem sign_of_plain (c : PlainChar) : Sign.ofChar c.val = .literal := by
  obtain ⟨c, plain, notDigit⟩ := c
  simp only [markup, List.mem_cons, List.not_mem_nil, or_false, not_or] at plain
  unfold Sign.ofChar
  split <;> simp_all

theorem Shows.emitLiteral {site : Site} {position : Nat} {sc : Scene} {u : State}
    (shown : Shows salt site position sc u) (c : Char) :
    Shows salt site position (sc.write (String.singleton c)) (u.emitLiteral c) := by
  have written : u.streams.writeChar c = (sc.write (String.singleton c)).streams := by
    rw [shown.streams]
    rfl
  have asIs : (u.upper || u.firstPending || (u.proper && u.atWordStart)) = false := by
    simp [shown.upper, shown.proper, shown.firstPending]
  unfold State.emitLiteral
  split
  · refine { shown with streams := ?_, firstPending := rfl }
    rw [asIs]
    exact written
  · exact { shown with streams := written }

theorem simulates_plain (c : PlainChar) :
    Simulates setting salt [c.val] fun _ sc => sc.write (String.singleton c.val) := by
  refine .char fun site position sc u shown free => ⟨_, ?_, shown.emitLiteral c.val⟩
  rw [State.perform, sign_of_plain]

theorem escape_eq {s : State} {c : Char} (read : s.reader.peek = c) (present : c ≠ Reader.endMark) :
    s.escape = (s.moveTo (s.reader.position + 1)).emitRaw c := by
  subst read
  exact if_neg present

theorem simulates_escaped (c : EscapedChar) :
    Simulates setting salt ['\\', c.val] fun _ sc => sc.write (String.singleton c.val) := by
  intro site position sc rest u shown here free
  have second : site.text.drop (position + 1) = c.val :: rest := drop_char here
  have between := shown.next here
  have read : (u.moveTo (position + 1)).reader.peek = c.val := by
    rw [Reader.peek, between.position]
    exact Reader.charAt_of_drop (between.drop second)
  have after := between.next second
  have performed : (u.moveTo (position + 1)).escape =
      ((u.moveTo (position + 1)).moveTo (position + 1 + 1)).emitRaw c.val := by
    rw [escape_eq read c.property, between.position]
  refine ⟨_, shown.step here (congrArg Except.ok performed), { after with streams := ?_ }⟩
  exact congrArg (Streams.writeChar · c.val) shown.streams

end characters

end Phrasebook.Structure
