import Phrasebook.Proofs.Articles.History
import Phrasebook.Proofs.Steps

/-! The correction of articles.
A call that asks for `an` puts an `n` in where a pending `a` was written. The streams are then what
they would be if the `n` had been written directly after that `a`, under the groups that were open
there, with all other operations as they were. -/
namespace Phrasebook.State

open Streams (Operation)

variable {setting : Setting} {s t u : State} {history : List Operation}

/-- A state of the run from `s`, with the operations on streams that led to it. -/
inductive Records (setting : Setting) (s : State) : List Operation → State → Prop where
  | refl : Records setting s [] s
  | step {history : List Operation} {t u : State} (before : Records setting s history t)
      (more : t.reader.atEnd = false) (stepped : t.step setting = .ok u) :
      Records setting s (history ++ t.operations setting) u

theorem Records.trans {later : List Operation} (h : Records setting s history t)
    (h' : Records setting t later u) : Records setting s (history ++ later) u := by
  induction h' with
  | refl => simpa using h
  | step _ more stepped ih =>
    rw [← List.append_assoc]
    exact ih.step more stepped

theorem exists_records (h : Reaches setting s t) : ∃ history, Records setting s history t := by
  obtain ⟨n, hn⟩ := h
  induction hn with
  | refl => exact ⟨[], .refl⟩
  | step more stepped _ ih =>
    obtain ⟨later, records⟩ := ih
    exact ⟨_, (Records.refl.step more stepped).trans records⟩

theorem Records.streams (h : Records setting s history t) :
    t.streams = s.streams.performAll history := by
  induction h with
  | refl => rfl
  | step _ _ stepped ih =>
    rw [(performs_step stepped).streams, ih, Streams.performAll_append]

/-- One step that writes an `a` which may still turn into `an`. -/
structure WritesArticle (setting : Setting) (r : State) (letter : String) (r' : State)
    (a : PendingArticle) : Prop where
  more : r.reader.atEnd = false
  stepped : r.step setting = .ok r'
  performed : r.operations setting = [.write letter]
  letter_eq : letter = "a" ∨ letter = "A"
  pending : r'.article = some a
  marks : a.marks = r'.streams.marks

namespace WritesArticle

variable {r r' : State} {letter : String} {a : PendingArticle}

theorem streams (h : WritesArticle setting r letter r' a) :
    r'.streams = r.streams.write letter := by
  rw [(performs_step h.stepped).streams, h.performed]
  rfl

theorem grown (h : WritesArticle setting r letter r' a) : r'.streams.Grown r'.streams := by
  rw [h.streams]
  apply Streams.grown_write
  rcases h.letter_eq with rfl | rfl
  · decide
  · decide

end WritesArticle

/-- A pending article was written by some step, and nothing has been put in anywhere since. -/
theorem Records.pending {a : PendingArticle} (h : Records setting s history t)
    (none : s.article = none) (pending : t.article = some a) :
    ∃ before letter r r' after, Records setting s before r ∧
      WritesArticle setting r letter r' a ∧ Records setting r' after t ∧
      history = before ++ .write letter :: after ∧ ∀ op ∈ after, op.Plain := by
  induction h with
  | refl =>
    rw [none] at pending
    contradiction
  | @step history t u run more stepped ih =>
    rcases (performs_step stepped).article a pending with
      ⟨before, plain⟩ | ⟨letter, performed, letter_eq, marks⟩
    · obtain ⟨before, letter, r, r', after, reached, wrote, since, rfl, others⟩ := ih before
      refine ⟨before, letter, r, r', after ++ t.operations setting, reached, wrote,
        since.step more stepped, by simp, ?_⟩
      intro op member
      rcases List.mem_append.mp member with earlier | last
      · exact others op earlier
      · exact plain op last
    · refine ⟨history, letter, t, u, [], run, ?_, .refl, by rw [performed], nofun⟩
      exact ⟨more, stepped, performed, letter_eq, pending, marks⟩

/-- What a correction amounts to. The step from `t` puts the letter in; the streams are then what
they would be if the letter had been written directly after the article, and it stands there in
each stream that received the article and in no other. -/
structure Corrects (setting : Setting) (s t u : State) (marks : List Mark) (letter : String)
    (before after : List Operation) (r r' : State) (article : PendingArticle)
    (written word : String) : Prop where
  reached : Records setting s before r
  wrote : WritesArticle setting r written r' article
  since : Records setting r' after t
  pending : t.article = some article
  marks_eq : marks = article.marks
  letter_eq : letter = if article.upper then "N" else "n"
  performed : t.operations setting = [.insert marks letter, .write word]
  streams : t.streams = s.streams.performAll (before ++ .write written :: after)
  inserted : t.streams.insertAt marks letter =
    s.streams.performAll (before ++ .write written :: .write letter :: after)
  stepped : u.streams = (t.streams.insertAt marks letter).write word
  placed : ∀ name ∈ r.streams.targets, ∃ rest,
    t.streams.text? name = some ((r.streams.stream name).text ++ written ++ rest) ∧
      (t.streams.insertAt marks letter).text? name =
        some ((r.streams.stream name).text ++ written ++ letter ++ rest)
  elsewhere : ∀ name ∉ r.streams.targets,
    (t.streams.insertAt marks letter).text? name = t.streams.text? name

theorem exists_corrects {text : List Char} {flags : Flags} {generator : Generator}
    {marks : List Mark} {letter : String}
    (reached : Reaches setting (start text flags generator) t) (stepped : t.step setting = .ok u)
    (inserts : .insert marks letter ∈ t.operations setting) :
    ∃ before after r r' article written word,
      Corrects setting (start text flags generator) t u marks letter before after r r' article
        written word := by
  obtain ⟨history, run⟩ := exists_records reached
  obtain ⟨article, word, pending, marks_eq, letter_eq, performed⟩ := insert_mem_operations inserts
  obtain ⟨before, written, r, r', after, early, wrote, since, rfl, plain⟩ :=
    run.pending rfl pending
  have grown : r'.streams.Grown t.streams := by
    rw [since.streams]
    exact wrote.grown.performAll plain
  have targets : r'.streams.targets = r.streams.targets := by
    rw [wrote.streams, Streams.targets_write]
  have same : marks = r'.streams.marks := marks_eq.trans wrote.marks
  refine ⟨before, after, r, r', article, written, word, early, wrote, since, pending, marks_eq,
    letter_eq, performed, run.streams, ?_, ?_, ?_, ?_⟩
  · rw [same, since.streams, Streams.performAll_insertAt_marks plain wrote.grown, wrote.streams,
      early.streams, Streams.performAll_append]
    rfl
  · rw [(performs_step stepped).streams, performed]
    rfl
  · intro name target
    have front : (r'.streams.stream name).text = (r.streams.stream name).text ++ written := by
      rw [wrote.streams, Streams.stream_write target, Stream.text_write]
    rw [← targets] at target
    rw [same, ← front]
    exact Streams.text?_insertAt grown target letter
  · intro name other
    rw [← targets] at other
    rw [same]
    exact Streams.text?_insertAt_other other letter

def apple : Word := Word.make ["apple"] 1 []

def fruit : Setting where
  lexicons := (∅ : Std.ExtTreeMap Char Lexicon).insert 'N'
    ⟨'N', "fruit", "", ["base"], [apple], ∅⟩
  lineBreak := "\n"

/-- The group of the article is closed, and another one opened and written to, before the call. -/
def aside : State := start "<x:a><.y:-> +N".toList ∅ (Generator.ofSeed 7 0)

def asideMarks : List Mark := [⟨"x", 1⟩, ⟨"main", 1⟩]

theorem exists_corrects_aside :
    ∃ t u, Reaches fruit aside t ∧ t.step fruit = .ok u ∧
      .insert asideMarks "n" ∈ t.operations fruit ∧
      ∃ before after r r' article written word,
        Corrects fruit aside t u asideMarks "n" before after r r' article written word := by
  have run : (advance? fruit 7 aside).map (fun t => (t.operations fruit, (t.step fruit).toBool)) =
      some ([.insert asideMarks "n", .write "apple"], true) := by decide +kernel
  obtain ⟨t, advanced, facts⟩ := Option.map_eq_some_iff.mp run
  obtain ⟨performed, more⟩ := Prod.mk.inj facts
  have reached := reaches_of_advance? advanced
  have inserts : .insert asideMarks "n" ∈ t.operations fruit := by simp [performed]
  cases stepped : t.step fruit with
  | error stop => simp [stepped, Except.toBool] at more
  | ok u => exact ⟨t, u, reached, stepped, inserts, exists_corrects reached stepped inserts⟩

end Phrasebook.State
