import Mathlib
import Phrasebook.Book
import Phrasebook.Proofs.Sessions.Counting

/-! Requests to a phrasebook, and the passes that answer them.
A pass is one run of a text with the phrasebook and the generator that are there when it begins.
Evaluating all globals makes many of them. The list of the passes accounts for what a request
leaves behind: its notices, its draws and the values of globals. -/
namespace Phrasebook

inductive Request where
  | expand (text : String)
  | interpret (text : String)
  | pattern (symbol : Char) (title : String)
  | random (symbol : Char)
  | globals
deriving Repr, DecidableEq

inductive Answer where
  | text (expanded : String)
  | output (output : Output)
  | done

def Reply.map {α β : Type} (f : α → β) (r : Reply α) : Reply β :=
  { r with result := r.result.map f }

structure Pass where
  book : Book
  generator : Generator
  text : List Char

namespace Pass

def reply (p : Pass) : Reply Output := p.book.run p.generator p.text

def outcome (p : Pass) (expanded : List Char) : Outcome :=
  evaluate p.book.setting expanded p.book.flags p.generator

/-- What the run of the pass warns of. A text that does not expand is not run. -/
def warnings (p : Pass) : List Notice :=
  match p.book.definitions.expand p.text with
  | .error _ => []
  | .ok expanded => (p.outcome expanded).warnings.map fun w =>
      Notice.about .warning .evaluation w.cause.message expanded w.index

def draws (p : Pass) : Nat :=
  match p.book.definitions.expand p.text with
  | .error _ => 0
  | .ok expanded => (State.start expanded p.book.flags p.generator).drawn p.book.setting

end Pass

/-- The notice of an error that a pass reports. -/
def BookError.notice? : BookError → Option Notice
  | substitution notice => some notice
  | evaluation notice => some notice
  | unknownAnthology _ => none
  | patternNotFound _ _ => none
  | draw _ => none

def reported {α : Type} : Except BookError α → List Notice
  | .ok _ => []
  | .error e => e.notice?.toList

/-- A pattern is picked by one draw, unless there is none to pick or the draw is refused. -/
def Anthology.draws (a : Anthology) : Nat := if 2 ^ 32 ∣ a.patterns.length then 0 else 1

theorem Anthology.random_cases (a : Anthology) (g : Generator) :
    (a.random g = .ok (none, g) ∧ a.draws = 0) ∨
      (a.random g = .error .zeroBound ∧ a.draws = 0) ∨
      ∃ pattern, a.random g = .ok (some pattern, g.skip 1) ∧ a.draws = 1 := by
  obtain ⟨symbol, title, patterns⟩ := a
  cases patterns with
  | nil => exact .inl ⟨rfl, if_pos (Nat.dvd_zero _)⟩
  | cons first rest =>
    refine .inr ?_
    unfold random
    by_cases whole : 2 ^ 32 ∣ (first :: rest).length
    · rw [Generator.oneOf_of_dvd g whole]
      exact .inl ⟨rfl, if_pos whole⟩
    · have left : 0 < (first :: rest).length % 2 ^ 32 :=
        Nat.pos_of_ne_zero fun zero => whole (Nat.dvd_of_mod_eq_zero zero)
      rw [Generator.oneOf_of_pos g left]
      exact .inr ⟨_, rfl, if_neg whole⟩

namespace Book

def answer (b : Book) (g : Generator) : Request → Reply Answer
  | .expand text => ⟨(b.expand text).1.map .text, (b.expand text).2, g⟩
  | .interpret text => (b.interpret g text).map .output
  | .pattern symbol title => (b.interpretPattern g symbol title).map .output
  | .random symbol => (b.interpretRandom g symbol).map .output
  | .globals => (b.assignGlobals g).map fun _ => .done

/-- `assign`, with the passes that it makes and the names of the globals that they are for. -/
def assignNoted (unstarted names : List String) (b : Book) (g : Generator) :
    Reply Unit × List (String × Pass) :=
  match names with
  | [] => (⟨.ok (), b, g⟩, [])
  | name :: names =>
    if b.values.contains name then assignNoted unstarted names b g
    else if _ : name ∈ unstarted then
      match b.glossary.body? .global name with
      | none => assignNoted unstarted names b g
      | some body =>
        let needed := b.definitions.globalReferences body.toList
        match assignNoted (unstarted.erase name) needed b g with
        | (⟨.error e, b, g⟩, early) => (⟨.error e, b, g⟩, early)
        | (⟨.ok _, b, g⟩, early) =>
          let noted := early ++ [(name, ⟨b, g, body.toList⟩)]
          match b.run g body.toList with
          | ⟨.error e, b, g⟩ => (⟨.error e, b, g⟩, noted)
          | ⟨.ok output, b, g⟩ =>
            let (reply, late) := assignNoted unstarted names (b.keep name output.main) g
            (reply, noted ++ late)
    else assignNoted unstarted names b g
termination_by (unstarted.length, names.length)
decreasing_by
  · exact Prod.Lex.right _ (Nat.lt_succ_self _)
  · exact Prod.Lex.right _ (Nat.lt_succ_self _)
  · have fewer := List.length_erase_of_mem ‹name ∈ unstarted›
    have := List.length_pos_of_mem ‹name ∈ unstarted›
    exact Prod.Lex.left _ _ (by omega)
  · exact Prod.Lex.right _ (Nat.lt_succ_self _)
  · exact Prod.Lex.right _ (Nat.lt_succ_self _)

theorem assignNoted_fst (unstarted names : List String) (b : Book) (g : Generator) :
    (assignNoted unstarted names b g).1 = assign unstarted names b g := by
  fun_induction assignNoted unstarted names b g with
  | case1 unstarted b g => rw [assign]
  | case2 unstarted b g name names known ih => rw [assign, if_pos known, ih]
  | case3 unstarted b g name names unset fresh undefined ih =>
    rw [assign, if_neg unset, dif_pos fresh, undefined]
    exact ih
  | case4 unstarted b g name names unset fresh body defined needed e b₁ g₁ early inner ih =>
    rw [inner] at ih
    rw [assign, if_neg unset, dif_pos fresh, defined]
    simp only [← ih, needed]
  | case5 unstarted b g name names unset fresh body defined needed _ b₁ g₁ early inner noted e b₂
      g₂ failed ih =>
    rw [inner] at ih
    rw [assign, if_neg unset, dif_pos fresh, defined]
    simp only [← ih, needed, failed]
  | case6 unstarted b g name names unset fresh body defined needed _ b₁ g₁ early inner noted output
      b₂ g₂ ran reply late rest ihInner ihOuter =>
    rw [inner] at ihInner
    rw [rest] at ihOuter
    rw [assign, if_neg unset, dif_pos fresh, defined]
    simp only [← ihInner, needed, ran, ← ihOuter]
  | case7 unstarted b g name names unset started ih =>
    rw [assign, if_neg unset, dif_neg started, ih]

/-- The passes of an evaluation of all globals, each with its global. -/
def globalPasses (b : Book) (g : Generator) : List (String × Pass) :=
  let names := b.glossary.globalNames
  (assignNoted names names { b with notices := [], values := ∅ } g).2

def passes (b : Book) (g : Generator) : Request → List Pass
  | .expand _ => []
  | .interpret text => [⟨b.clearNotices, g, text.toList⟩]
  | .pattern symbol title =>
    match b.anthologies[symbol]?.bind (·.find? title) with
    | none => []
    | some pattern => [⟨b.clearNotices, g, pattern.text.toList⟩]
  | .random symbol =>
    match b.anthologies[symbol]?.bind fun a => (a.random g).toOption with
    | some (some pattern, g) => [⟨b.clearNotices, g, pattern.text.toList⟩]
    | _ => []
  | .globals => (b.globalPasses g).map Prod.snd

/-- The draws that find the text of a request: a pattern is picked by one. -/
def pickingDraws (b : Book) : Request → Nat
  | .random symbol => b.anthologies[symbol]?.elim 0 Anthology.draws
  | _ => 0

def draws (b : Book) (g : Generator) (request : Request) : Nat :=
  b.pickingDraws request + ((b.passes g request).map Pass.draws).sum

variable {b b' b'' : Book} {g g' g'' : Generator} {early late : List (String × Pass)}
  {name : String} {text : List Char} {e : BookError} {output : Output} {r : Reply Unit}

/-- A pass changes flags and draws, adds its notices, and leaves everything else alone. -/
theorem run_frame (p : Pass) :
    p.reply.book = { p.book with
      flags := p.reply.book.flags
      notices := p.book.notices ++ p.warnings ++ reported p.reply.result } ∧
    p.reply.generator = p.generator.skip p.draws ∧
    ∀ n ∈ reported p.reply.result, n.severity = .error := by
  rw [Pass.reply, Pass.warnings, Pass.draws, run, substitute]
  cases expansion : p.book.definitions.expand p.text with
  | error stop =>
    refine ⟨?_, p.generator.skip_zero.symm, ?_⟩
    · simp [note, reported, BookError.notice?]
    · simp [reported, BookError.notice?, Notice.about]
  | ok expanded =>
    have moved := generator_evaluate p.book.setting expanded p.book.flags p.generator
    dsimp only
    rw [Pass.outcome]
    split
    · refine ⟨?_, moved, nofun⟩
      simp [note, reported]
    · refine ⟨?_, moved, ?_⟩
      · simp [note, reported, BookError.notice?]
      · simp [reported, BookError.notice?, Notice.about]
    · refine ⟨?_, moved, nofun⟩
      simp [note, reported, BookError.notice?]

/-- One of the passes has evaluated the defined body of a global to this value. -/
def Evaluated (glossary : Glossary) (log : List (String × Pass)) (name value : String) : Prop :=
  ∃ p body output, (name, p) ∈ log ∧ glossary.body? .global name = some body ∧
    p.text = body.toList ∧ p.reply.result = .ok output ∧ output.main = value

/-- The passes tell what a call adds to the phrasebook and how far it moves the generator. -/
structure Accounts (b : Book) (g : Generator) (log : List (String × Pass)) (r : Reply Unit) :
    Prop where
  glossary : r.book.glossary = b.glossary
  notices : r.book.notices = b.notices ++ log.flatMap (·.2.warnings) ++ reported r.result
  severe : ∀ n ∈ reported r.result, n.severity = .error
  generator : r.generator = g.skip (log.map (·.2.draws)).sum
  values : ∀ (name value : String), r.book.values[name]? = some value →
    b.values[name]? = some value ∨ Evaluated b.glossary log name value

namespace Accounts

theorem nil (b : Book) (g : Generator) : Accounts b g [] ⟨.ok (), b, g⟩ where
  glossary := rfl
  notices := by simp [reported]
  severe := nofun
  generator := g.skip_zero.symm
  values := fun _ _ known => .inl known

theorem append (first : Accounts b g early ⟨.ok (), b', g'⟩) (second : Accounts b' g' late r) :
    Accounts b g (early ++ late) r where
  glossary := second.glossary.trans first.glossary
  notices := by
    rw [second.notices, first.notices]
    simp [reported]
  severe := second.severe
  generator := by
    have start : g' = g.skip (early.map (·.2.draws)).sum := first.generator
    rw [second.generator, start]
    simp
  values := by
    intro name value known
    rcases second.values name value known with before | ⟨p, body, output, member, rest⟩
    · rcases first.values name value before with old | ⟨p, body, output, member, rest⟩
      · exact .inl old
      · exact .inr ⟨p, body, output, List.mem_append_left late member, rest⟩
    · rw [first.glossary] at rest
      exact .inr ⟨p, body, output, List.mem_append_right early member, rest⟩

theorem of_error (name : String) (failed : b.run g text = ⟨.error e, b', g'⟩) :
    Accounts b g [(name, ⟨b, g, text⟩)] ⟨.error e, b', g'⟩ := by
  obtain ⟨book, generator, severe⟩ := run_frame ⟨b, g, text⟩
  rw [Pass.reply, failed] at book generator severe
  dsimp only at book generator
  constructor
  · rw [book]
  · rw [book]
    simp
    rfl
  · exact severe
  · rw [generator]
    simp
  · rw [book]
    exact fun _ _ known => .inl known

theorem of_ok {body : String} (defined : b.glossary.body? .global name = some body)
    (ran : b.run g body.toList = ⟨.ok output, b', g'⟩) :
    Accounts b g [(name, ⟨b, g, body.toList⟩)] ⟨.ok (), b'.keep name output.main, g'⟩ := by
  obtain ⟨book, generator, _⟩ := run_frame ⟨b, g, body.toList⟩
  rw [Pass.reply, ran] at book generator
  dsimp only at book generator
  constructor
  · rw [book]
    rfl
  · rw [book]
    simp [keep, reported]
  · exact nofun
  · rw [generator]
    simp
  · intro other value known
    rw [book] at known
    dsimp only [keep] at known
    rw [Std.ExtTreeMap.getElem?_insert] at known
    split at known
    · rename_i same
      rw [Std.LawfulEqCmp.compare_eq_iff_eq] at same
      cases same
      cases known
      refine .inr ⟨_, body, output, List.mem_singleton.mpr rfl, defined, rfl, ?_, rfl⟩
      rw [Pass.reply, ran]
    · exact .inl known

end Accounts

theorem accounts_assignNoted (unstarted names : List String) (b : Book) (g : Generator) :
    Accounts b g (assignNoted unstarted names b g).2 (assignNoted unstarted names b g).1 := by
  fun_induction assignNoted unstarted names b g with
  | case1 unstarted b g => exact .nil b g
  | case2 unstarted b g name names known ih => exact ih
  | case3 unstarted b g name names unset fresh undefined ih => exact ih
  | case4 unstarted b g name names unset fresh body defined needed e b₁ g₁ early inner ih =>
    rw [inner] at ih
    exact ih
  | case5 unstarted b g name names unset fresh body defined needed _ b₁ g₁ early inner noted e b₂
      g₂ failed ih =>
    rw [inner] at ih
    exact ih.append (.of_error name failed)
  | case6 unstarted b g name names unset fresh body defined needed _ b₁ g₁ early inner noted output
      b₂ g₂ ran reply late rest ihInner ihOuter =>
    rw [inner] at ihInner
    rw [rest] at ihOuter
    have same := ihInner.glossary
    dsimp only at same
    rw [← same] at defined
    exact (ihInner.append (.of_ok defined ran)).append ihOuter
  | case7 unstarted b g name names unset started ih => exact ih

/-- Evaluating all globals forgets all values first. -/
theorem accounts_assignGlobals (b : Book) (g : Generator) :
    Accounts { b with notices := [], values := ∅ } g (b.globalPasses g) (b.assignGlobals g) := by
  rw [assignGlobals, ← assignNoted_fst]
  exact accounts_assignNoted _ _ _ g

/-- How a request is answered: by putting references in, by one pass, by none, or by the passes of
all globals. -/
inductive Answered (b : Book) (g : Generator) (request : Request) : Prop where
  | expansion (text : String) (asked : request = .expand text)
  | pass (p : Pass) (single : b.passes g request = [p]) (book : p.book = b.clearNotices)
      (generator : p.generator = g.skip (b.pickingDraws request))
      (same : b.answer g request = p.reply.map .output)
  | refusal (e : BookError) (none_ : b.passes g request = []) (silent : e.notice? = none)
      (same : b.answer g request =
        ⟨.error e, b.clearNotices, g.skip (b.pickingDraws request)⟩)
  | globals (asked : request = .globals)

theorem answered_pattern (b : Book) (g : Generator) (symbol : Char) (title : String) :
    Answered b g (.pattern symbol title) := by
  cases known : b.anthologies[symbol]? with
  | none =>
    apply Answered.refusal (.unknownAnthology symbol)
    · simp [passes, known]
    · rfl
    · simp [answer, interpretPattern, clearNotices, known, Reply.map, Except.map, pickingDraws]
  | some anthology =>
    cases found : anthology.find? title with
    | none =>
      apply Answered.refusal (.patternNotFound symbol title)
      · simp [passes, known, found]
      · rfl
      · simp [answer, interpretPattern, clearNotices, known, found, Reply.map, Except.map,
          pickingDraws]
    | some pattern =>
      apply Answered.pass ⟨b.clearNotices, g, pattern.text.toList⟩
      · simp [passes, known, found]
      · rfl
      · exact g.skip_zero.symm
      · simp [answer, interpretPattern, clearNotices, known, found, Pass.reply]

theorem answered_random (b : Book) (g : Generator) (symbol : Char) :
    Answered b g (.random symbol) := by
  cases known : b.anthologies[symbol]? with
  | none =>
    apply Answered.refusal (.unknownAnthology symbol)
    · simp [passes, known]
    · rfl
    · simp [answer, interpretRandom, clearNotices, known, Reply.map, Except.map, pickingDraws]
  | some anthology =>
    rcases anthology.random_cases g with
      ⟨drawn, draws⟩ | ⟨refused, draws⟩ | ⟨pattern, drawn, draws⟩
    · apply Answered.refusal (.patternNotFound symbol "")
      · simp [passes, known, drawn, Except.toOption]
      · rfl
      · simp [answer, interpretRandom, clearNotices, known, drawn, Reply.map, Except.map,
          pickingDraws, draws]
    · apply Answered.refusal (.draw .zeroBound)
      · simp [passes, known, refused, Except.toOption]
      · rfl
      · simp [answer, interpretRandom, clearNotices, known, refused, Reply.map, Except.map,
          pickingDraws, draws]
    · apply Answered.pass ⟨b.clearNotices, g.skip 1, pattern.text.toList⟩
      · simp [passes, known, drawn, Except.toOption]
      · rfl
      · simp [pickingDraws, known, draws]
      · simp [answer, interpretRandom, clearNotices, known, drawn, Pass.reply]

theorem answered (b : Book) (g : Generator) (request : Request) : Answered b g request := by
  cases request with
  | expand text => exact .expansion text rfl
  | interpret text => exact .pass ⟨b.clearNotices, g, text.toList⟩ rfl rfl g.skip_zero.symm rfl
  | pattern symbol title => exact answered_pattern b g symbol title
  | random symbol => exact answered_random b g symbol
  | globals => exact .globals rfl

end Book

end Phrasebook
