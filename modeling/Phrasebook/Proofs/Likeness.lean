import Phrasebook.Evaluation.Effect
import Phrasebook.Proofs.Steps

/-! Runs that are alike although their texts are laid out differently.
What a run writes, draws, keeps and doubts does not depend on the places of its text, so two states
are compared apart from their readers and the stacks of places; warnings are compared by their
causes. A stop is compared by its fault, apart from its index. -/
namespace Phrasebook

/-- Stops of one kind. The name of an unknown flag function is not compared, since it may reach
beyond the text that two runs have in common. -/
inductive Stop.Kin : Stop → Stop → Prop where
  | fault (cause : Fault) (i j : Nat) : Kin (.fault cause i) (.fault cause j)
  | flagFunction (name name' : String) (i j : Nat) :
    Kin (.fault (.unknownFlagFunction name) i) (.fault (.unknownFlagFunction name') j)
  | draw (cause : RangeError) : Kin (.draw cause) (.draw cause)

theorem Stop.Kin.refl (stop : Stop) : Kin stop stop := by
  cases stop with
  | fault cause index => exact .fault cause index index
  | draw cause => exact .draw cause

/-- Both results are stops of one kind, or both are values in a relation. -/
inductive Agree {α β : Type} (R : α → β → Prop) : Except Stop α → Except Stop β → Prop where
  | stop {stop stop' : Stop} (kin : stop.Kin stop') : Agree R (.error stop) (.error stop')
  | value {a : α} {b : β} (related : R a b) : Agree R (.ok a) (.ok b)

theorem Agree.bind {α β γ δ : Type} {R : α → β → Prop} {Q : γ → δ → Prop} {x : Except Stop α}
    {y : Except Stop β} {f : α → Except Stop γ} {f' : β → Except Stop δ} (h : Agree R x y)
    (rest : ∀ a b, R a b → Agree Q (f a) (f' b)) : Agree Q (x >>= f) (y >>= f') := by
  cases h with
  | stop kin => exact .stop kin
  | value related => exact rest _ _ related

theorem Agree.of_ok {α β : Type} {R : α → β → Prop} {a : α} {b : β}
    (h : Agree R (.ok a) (.ok b)) : R a b := by
  cases h with
  | value related => exact related

theorem Agree.mono {α β : Type} {R Q : α → β → Prop} {x : Except Stop α} {y : Except Stop β}
    (h : Agree R x y) (more : ∀ a b, x = .ok a → y = .ok b → R a b → Q a b) : Agree Q x y := by
  cases h with
  | stop kin => exact .stop kin
  | value related => exact .value (more _ _ rfl rfl related)

theorem Agree.refl {α : Type} (x : Except Stop α) : Agree (· = ·) x x := by
  cases x with
  | error stop => exact .stop (.refl stop)
  | ok a => exact .value rfl

def causes (warnings : List Warning) : List Doubt := warnings.map Warning.cause

namespace State

open Letter (isAlphanumeric)

/-- States that have written, drawn, kept and doubted the same. -/
structure Alike (s t : State) : Prop where
  streams : s.streams = t.streams
  carriers : s.carriers = t.carriers
  localFlags : s.localFlags = t.localFlags
  globalFlags : s.globalFlags = t.globalFlags
  doubts : causes s.warnings = causes t.warnings
  generator : s.generator = t.generator
  tag : s.tag = t.tag
  article : s.article = t.article
  upper : s.upper = t.upper
  proper : s.proper = t.proper
  firstPending : s.firstPending = t.firstPending
  lastChar : s.lastChar = t.lastChar

variable {s t : State}

theorem Alike.frame (h : Alike s t) :
    ∃ reader selectors repetitions salt warnings, causes s.warnings = causes warnings ∧
      t = { s with reader, selectors, repetitions, salt, warnings } := by
  obtain ⟨rs, ss, ps, _, _, _, _, ws, _, as, _, _, _, _, _, _⟩ := s
  obtain ⟨rt, st, pt, _, _, _, _, wt, _, a, _, _, _, _, _, _⟩ := t
  obtain ⟨rfl, rfl, rfl, rfl, doubts, rfl, rfl, rfl, rfl, rfl, rfl, rfl⟩ := h
  exact ⟨rt, st, pt, a, wt, doubts, rfl⟩

theorem Alike.refl (s : State) : Alike s s :=
  ⟨rfl, rfl, rfl, rfl, rfl, rfl, rfl, rfl, rfl, rfl, rfl, rfl⟩

theorem Alike.moveTo (h : Alike s t) (i j : Nat) : Alike (s.moveTo i) (t.moveTo j) :=
  { h with }

theorem Alike.warn (h : Alike s t) (cause : Doubt) (i j : Nat) :
    Alike (s.warn cause i) (t.warn cause j) :=
  { h with doubts := congrArg (cause :: ·) h.doubts }

theorem Alike.emitCased (h : Alike s t) (word : String) :
    Alike (s.emitCased word) (t.emitCased word) := by
  obtain ⟨_, _, _, _, _, doubts, rfl⟩ := h.frame
  exact { Alike.refl (s.emitCased word) with doubts }

theorem Alike.emitLineBreak (h : Alike s t) (lineBreak : String) :
    Alike (s.emitLineBreak lineBreak) (t.emitLineBreak lineBreak) := by
  obtain ⟨_, _, _, _, _, doubts, rfl⟩ := h.frame
  exact { Alike.refl (s.emitLineBreak lineBreak) with doubts }

/-- Of the text after a character only counts whether the character stands alone. -/
theorem Alike.emitLiteral (h : Alike s t) (c : Char)
    (next : isAlphanumeric s.reader.peek = isAlphanumeric t.reader.peek) :
    Alike (s.emitLiteral c) (t.emitLiteral c) := by
  obtain ⟨_, _, _, _, _, doubts, rfl⟩ := h.frame
  simp only [State.emitLiteral, next]
  split
  · exact { Alike.refl _ with doubts }
  · exact { Alike.refl _ with doubts }

theorem Alike.correctArticle (h : Alike s t) (article : Option PendingArticle) (word : String) :
    Alike (s.correctArticle article word) (t.correctArticle article word) := by
  unfold State.correctArticle
  split
  · split
    · exact { h with streams := by simp only [h.streams] }
    · exact h
  · exact h

theorem pickFresh_agree (lexicon : Lexicon) (call : Call) (length i j : Nat) (g : Generator) :
    Agree (· = ·) (pickFresh lexicon call i g) (pickFresh lexicon { call with length } j g) := by
  have classes : Call.classList? { call with length } = call.classList? := rfl
  simp only [pickFresh, classes]
  split
  · split
    · exact .stop (.fault _ i j)
    · exact .refl _
    · exact .refl _
  · exact .refl _

theorem Alike.pickWord (h : Alike s t) (lexicon : Lexicon) (call : Call) (length i j : Nat) :
    Agree (fun a b => a.1 = b.1 ∧ Alike a.2 b.2) (s.pickWord lexicon call i)
      (t.pickWord lexicon { call with length } j) := by
  have key : carrierKey? { call with length } = carrierKey? call := rfl
  simp only [State.pickWord, key, ← h.carriers, ← h.generator]
  split
  · exact .value ⟨rfl, h⟩
  · refine (pickFresh_agree lexicon call length i j s.generator).bind ?_
    rintro ⟨picked, generator⟩ _ rfl
    cases picked with
    | doubt cause =>
      have drawn : Alike { s with generator } { t with generator, carriers := s.carriers } :=
        { h with generator := rfl, carriers := rfl }
      exact .value ⟨rfl, drawn.warn cause i j⟩
    | word n => exact .value ⟨rfl, { h with generator := rfl, carriers := rfl }⟩

theorem Alike.writeWord (h : Alike s t) (lexicon : Lexicon) (call : Call) (length i j n : Nat)
    (article : Option PendingArticle) :
    Agree Alike (s.writeWord lexicon call i n article)
      (t.writeWord lexicon { call with length } j n article) := by
  have casing : t.casing = s.casing := by simp only [State.casing, h.upper, h.proper, h.firstPending]
  simp only [State.writeWord, casing]
  split
  · exact .value ((h.correctArticle article _).emitCased _)
  · exact .value (((h.warn _ i j).correctArticle article _).emitCased _)
  · exact .stop (.fault _ i j)

/-- A call is carried out alike wherever it stands and however long its spelling is. -/
theorem Alike.wordCall (h : Alike s t) (setting : Setting) {call : Call} {length i j : Nat}
    (here : Call.parse? (s.reader.tail i) = some call)
    (there : Call.parse? (t.reader.tail j) = some { call with length }) :
    Agree Alike (s.wordCall setting i) (t.wordCall setting j) := by
  have plain : Alike { s with article := none } { t with article := none } :=
    { h with article := rfl }
  have moved := plain.moveTo (i + call.length) (j + length)
  simp only [State.wordCall, here, there, ← h.article]
  cases setting.lexicons[call.symbol]? with
  | none => exact .value (moved.warn _ i j)
  | some lexicon =>
    refine (moved.pickWord lexicon call length i j).bind ?_
    rintro ⟨picked?, s'⟩ ⟨_, t'⟩ ⟨rfl, later⟩
    cases picked? with
    | none => exact .value later
    | some n => exact later.writeWord lexicon call length i j n s.article

end State

/-- Outcomes that differ only in the places of the stop and of the warnings. -/
structure Outcome.Alike (o p : Outcome) : Prop where
  result : Agree (· = ·) o.result p.result
  flags : o.flags = p.flags
  generator : o.generator = p.generator
  doubts : causes o.warnings = causes p.warnings

/-- Runs end alike if both get to the end of their texts, or if both stop in one kind of fault, in
states that are alike. -/
structure EndsAlike (run run' : State × Option Stop) : Prop where
  state : run.1.Alike run'.1
  stop : Option.Rel Stop.Kin run.2 run'.2

theorem evaluate_alike {setting : Setting} {text text' : List Char} {flags flags' : Flags}
    {g g' : Generator}
    (ends : EndsAlike ((State.start text flags g).finish setting)
      ((State.start text' flags' g').finish setting)) :
    (evaluate setting text flags g).Alike (evaluate setting text' flags' g') := by
  unfold evaluate
  generalize (State.start text flags g).finish setting = run at ends
  generalize (State.start text' flags' g').finish setting = run' at ends
  obtain ⟨s, stop?⟩ := run
  obtain ⟨t, stop'?⟩ := run'
  obtain ⟨alike, stops⟩ := ends
  have doubts : causes s.warnings.reverse = causes t.warnings.reverse := by
    rw [causes, causes, List.map_reverse, List.map_reverse]
    exact congrArg List.reverse alike.doubts
  refine ⟨?_, alike.globalFlags, alike.generator, doubts⟩
  cases stops with
  | some kin => exact .stop kin
  | none => exact .value (congrArg Streams.finish alike.streams)

end Phrasebook
