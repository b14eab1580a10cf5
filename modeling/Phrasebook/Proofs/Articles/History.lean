import Phrasebook.Evaluation.Effect
import Phrasebook.Proofs.Streams.Insertion

/-! What a run does to its streams, as a list of operations.
Each step has the operations that its construct performs; replayed from empty streams, those of all
steps give the streams of the run. A pending article stays pending only as long as nothing is put
in at remembered places. -/
namespace Phrasebook

open Letter (isAlphanumeric)
open Streams (Operation)

namespace State

/-- What plain text writes for a character. -/
def literalChar (s : State) (c : Char) : Char :=
  if isAlphanumeric c && (s.upper || s.firstPending || (s.proper && s.atWordStart)) then
    Letter.capital c
  else c

def literal (s : State) (c : Char) : List Operation := [.write (String.singleton (s.literalChar c))]

def escaped (s : State) : List Operation :=
  if s.reader.peek = Reader.endMark then [] else [.write (String.singleton s.reader.peek)]

def opened (s : State) (index : Nat) : List Operation :=
  match s.reader.findChar? ':' (index + 1) with
  | some colon => [.push (s.reader.slice (index + 1) colon)]
  | none => []

/-- Digits are written, unless they are the number of a frequency. -/
def digits (s : State) (c : Char) (index : Nat) : List Operation :=
  let stop := s.reader.digitsEnd index
  if s.reader.charAt stop = '%' ∧ s.reader.charAt (stop + 1) = '[' then [] else s.literal c

def drawnNumber? (s : State) (index : Nat) : Option String := do
  let close ← (s.reader.blockEnd (index + 1) .randomNumber).toOption
  let (min, max) ← (numberRange (s.reader.slice (index + 2) close)).toOption
  some (s.casing.apply (toString (min + s.generator.peek % (max - min))))

/-- The word that a call writes: the form it names, or a token for a form that is missing. -/
def form? (lexicon : Lexicon) (i : Nat) (subtype : String) (casing : Letter.Casing) :
    Option String :=
  match lexicon.resolve i subtype casing with
  | .ok word => some word
  | .error (.subtypeNotFound symbol subtype) => some (Lexicon.missingSubtypeToken symbol subtype)
  | .error _ => none

def calledWord? (setting : Setting) (s : State) (index : Nat) : Option String := do
  let call ← Call.parse? (s.reader.tail index)
  let lexicon ← setting.lexicons[call.symbol]?
  let aside := { s with article := none }.moveTo (index + call.length)
  let (picked?, _) ← (aside.pickWord lexicon call index).toOption
  form? lexicon (← picked?) call.subtype s.casing

def correction (article : Option PendingArticle) (word : String) : List Operation :=
  match article with
  | some a =>
    if Article.startsWithVowelSound word.toList then
      [.insert a.marks (if a.upper then "N" else "n")]
    else []
  | none => []

/-- What the construct that begins with a character does to the streams. -/
def effects (setting : Setting) (s : State) (c : Char) (index : Nat) : List Operation :=
  match Sign.ofChar c with
  | .escape => s.escaped
  | .openGroup => s.opened index
  | .closeGroup => [.pop]
  | .digit => s.digits c index
  | .slash => if s.selectors.isEmpty then s.literal c else []
  | .lineBreak => [.write setting.lineBreak]
  | .number => (s.drawnNumber? index).toList.map .write
  | .call =>
    match s.calledWord? setting index with
    | some word => correction s.article word ++ [.write word]
    | none => []
  | .literal => s.literal c
  | .openSelector | .closeSelector | .tag | .repetition | .openBlock | .closeBlock | .flag
  | .carriageReturn | .casing | .upper => []

def operations (setting : Setting) (s : State) : List Operation :=
  { s with reader := s.reader.read.2 }.effects setting s.reader.peek s.reader.position

/-- What operations did, and what became of a pending article: it is none, or it was pending before
and nothing was put in, or its letter has just been written where its marks say. -/
structure Performs (s : State) (operations : List Operation) (t : State) : Prop where
  streams : t.streams = s.streams.performAll operations
  article : ∀ a, t.article = some a →
    (s.article = some a ∧ ∀ op ∈ operations, op.Plain) ∨
      ∃ letter, operations = [.write letter] ∧ (letter = "a" ∨ letter = "A") ∧
        a.marks = t.streams.marks

section performs

variable {setting : Setting} {s t : State} {c : Char} {index : Nat} {operations : List Operation}

theorem Performs.kept (streams : t.streams = s.streams.performAll operations)
    (article : t.article = s.article) (plain : ∀ op ∈ operations, op.Plain) :
    Performs s operations t where
  streams := streams
  article := by
    intro a pending
    rw [article] at pending
    exact .inl ⟨pending, plain⟩

theorem Performs.quiet (streams : t.streams = s.streams) (article : t.article = s.article) :
    Performs s [] t :=
  .kept streams article nofun

theorem Performs.forgotten (streams : t.streams = s.streams.performAll operations)
    (article : t.article = none) : Performs s operations t where
  streams := streams
  article := by
    intro a pending
    rw [article] at pending
    contradiction

theorem Performs.of_eq {r : State} (h : Performs r operations t) (streams : r.streams = s.streams)
    (article : r.article = s.article) : Performs s operations t where
  streams := streams ▸ h.streams
  article := article ▸ h.article

theorem plain_write (text : String) : (Operation.write text).Plain := nofun

theorem literalChar_a (alone : (c == 'a' || c == 'A') = true) :
    s.literalChar c = 'a' ∨ s.literalChar c = 'A' := by
  have lower : Letter.capital 'a' = 'A' := by decide
  have upper : Letter.capital 'A' = 'A' := by decide
  simp only [Bool.or_eq_true, beq_iff_eq] at alone
  rcases alone with rfl | rfl
  · unfold literalChar
    split
    · exact .inr lower
    · exact .inl rfl
  · unfold literalChar
    split
    · exact .inr upper
    · exact .inr rfl

theorem performs_emitLiteral (s : State) (c : Char) :
    Performs s (s.literal c) (s.emitLiteral c) := by
  have written : (s.emitLiteral c).streams = s.streams.writeChar (s.literalChar c) := by
    unfold emitLiteral literalChar
    split <;> simp_all
  refine ⟨written, ?_⟩
  intro a pending
  by_cases letter : isAlphanumeric c = true
  · simp only [emitLiteral, letter, if_true] at pending
    split at pending
    · rename_i alone
      cases pending
      simp only [Bool.and_eq_true] at alone
      refine .inr ⟨_, rfl, ?_, ?_⟩
      · rcases literalChar_a (s := s) alone.1.1 with a | a
        · exact .inl (congrArg String.singleton a)
        · exact .inr (congrArg String.singleton a)
      · simp [written, literalChar, letter]
    · contradiction
  · simp only [emitLiteral, letter] at pending
    exact .inl ⟨pending, by simp [literal, plain_write]⟩

theorem performs_emitRaw (s : State) (c : Char) :
    Performs s [.write (String.singleton c)] (s.emitRaw c) := by
  by_cases letter : isAlphanumeric c = true
  · exact .forgotten rfl (by simp [emitRaw, letter])
  · exact .kept rfl (by simp [emitRaw, letter]) (by simp [plain_write])

theorem performs_escape (s : State) : Performs s s.escaped s.escape := by
  by_cases ended : s.reader.peek = Reader.endMark
  · simp only [escape, escaped, Reader.read, ended, if_true]
    exact .quiet rfl rfl
  · simp only [escape, escaped, Reader.read, ended, if_false]
    exact (performs_emitRaw { s with reader := s.reader.read.2 } s.reader.peek).of_eq rfl rfl

theorem performs_openGroup (h : s.openGroup index = .ok t) : Performs s (s.opened index) t := by
  obtain ⟨close, colon, -, found, -, rfl⟩ := openGroup_ok h
  simp only [opened, found]
  exact .kept rfl rfl (by simp [Operation.Plain])

theorem performs_closeGroup (h : s.closeGroup index = .ok t) : Performs s [.pop] t := by
  obtain ⟨group, streams, popped, rfl⟩ := closeGroup_ok h
  apply Performs.kept
  · simp [Streams.performAll, Streams.perform, popped]
  · rfl
  · simp [Operation.Plain]

theorem performs_digit (h : s.digit c index = .ok t) : Performs s (s.digits c index) t := by
  simp only [digit, digits] at h ⊢
  split
  · rename_i frequency
    rw [if_pos frequency] at h
    split at h
    · contradiction
    · obtain ⟨close, -, h⟩ := bind_eq_ok.mp h
      obtain ⟨⟨drawn, generator⟩, -, h⟩ := bind_eq_ok.mp h
      cases h
      exact .quiet rfl rfl
  · rename_i plain
    rw [if_neg plain] at h
    cases h
    exact performs_emitLiteral s c

theorem performs_slash (s : State) (c : Char) :
    Performs s (if s.selectors.isEmpty then s.literal c else []) (s.slash c) := by
  unfold slash
  cases s.selectors with
  | nil => exact performs_emitLiteral s c
  | cons close selectors => exact .quiet rfl rfl

theorem performs_randomNumber (h : s.randomNumber index = .ok t) :
    Performs s ((s.drawnNumber? index).toList.map .write) t := by
  obtain ⟨close, min, max, closed, read, order, rfl⟩ := randomNumber_ok h
  have drawn : s.drawnNumber? index =
      some (s.casing.apply (toString (min + s.generator.peek % (max - min)))) := by
    simp [drawnNumber?, closed, read, Except.toOption]
  rw [drawn]
  exact .forgotten rfl rfl

theorem streams_correctArticle (s : State) (article : Option PendingArticle) (word : String) :
    (s.correctArticle article word).streams = s.streams.performAll (correction article word) := by
  unfold correctArticle correction
  split
  · split <;> rfl
  · rfl

theorem article_correctArticle (s : State) (article : Option PendingArticle) (word : String) :
    (s.correctArticle article word).article = s.article := by
  unfold correctArticle
  split
  · split <;> rfl
  · rfl

theorem writeWord_form {lexicon : Lexicon} {call : Call} {i : Nat}
    {article : Option PendingArticle} (h : s.writeWord lexicon call index i article = .ok t) :
    ∃ word, form? lexicon i call.subtype s.casing = some word ∧ t.article = s.article ∧
      t.streams = s.streams.performAll (correction article word ++ [.write word]) := by
  simp only [writeWord] at h
  split at h
  · rename_i word resolved
    cases h
    refine ⟨word, by simp [form?, resolved], article_correctArticle s article word, ?_⟩
    rw [Streams.performAll_append, ← streams_correctArticle]
    rfl
  · rename_i symbol subtype resolved
    cases h
    refine ⟨Lexicon.missingSubtypeToken symbol subtype, by simp only [form?, resolved],
      article_correctArticle _ article _, ?_⟩
    rw [Streams.performAll_append]
    have inserted := streams_correctArticle (s.warn (.subtypeNotFound symbol subtype) index) article
      (Lexicon.missingSubtypeToken symbol subtype)
    exact congrArg (Streams.write · (Lexicon.missingSubtypeToken symbol subtype)) inserted
  · contradiction

theorem pickWord_keeps {lexicon : Lexicon} {call : Call} {picked? : Option Nat}
    (h : s.pickWord lexicon call index = .ok (picked?, t)) :
    t.streams = s.streams ∧ t.article = s.article ∧ t.casing = s.casing := by
  rcases pickWord_ok h with ⟨_, _, _, _, _, rfl⟩ | ⟨_, ⟨_, _, _, rfl⟩ | ⟨_, _, _, rfl⟩⟩
  all_goals exact ⟨rfl, rfl, rfl⟩

theorem performs_wordCall (h : s.wordCall setting index = .ok t) :
    Performs s (match s.calledWord? setting index with
      | some word => correction s.article word ++ [.write word]
      | none => []) t := by
  rcases wordCall_ok h with ⟨unread, rfl⟩ | ⟨call, aside, read, rfl, effect⟩
  · have none : s.calledWord? setting index = none := by simp [calledWord?, unread]
    rw [none]
    exact .quiet rfl rfl
  · rcases effect with ⟨unknown, rfl⟩ | ⟨lexicon, picked?, u, known, picked, effect⟩
    · have none : s.calledWord? setting index = none := by simp [calledWord?, read, unknown]
      rw [none]
      exact .forgotten rfl rfl
    · have keeps := pickWord_keeps picked
      rcases effect with ⟨rfl, rfl⟩ | ⟨i, rfl, written⟩
      · have none : s.calledWord? setting index = none := by
          simp [calledWord?, read, known, picked, Except.toOption]
        rw [none]
        exact .forgotten keeps.1 keeps.2.1
      · obtain ⟨word, form, article, streams⟩ := writeWord_form written
        rw [keeps.2.2] at form
        have called : s.calledWord? setting index = some word := by
          simp [calledWord?, read, known, picked, Except.toOption]
          exact form
        rw [called]
        rw [keeps.1] at streams
        exact .forgotten streams (article.trans keeps.2.1)

theorem performs_closeBlock (s : State) (index : Nat) : Performs s [] (s.closeBlock index) := by
  obtain ⟨_, _, _, same⟩ := closeBlock_frame s index
  rw [same]
  exact .quiet rfl rfl

theorem performs_flag (h : s.flag index = .ok t) : Performs s [] t := by
  obtain ⟨_, _, _, rfl⟩ := flag_frame h
  exact .quiet rfl rfl

theorem performs_toggleCasing (s : State) : Performs s [] s.toggleCasing := by
  obtain ⟨_, _, _, same⟩ := toggleCasing_frame s
  rw [same]
  exact .quiet rfl rfl

theorem performs_perform (h : s.perform setting c index = .ok t) :
    Performs s (s.effects setting c index) t := by
  unfold perform at h
  unfold effects
  generalize Sign.ofChar c = sign at h ⊢
  cases sign with
  | escape =>
    cases h
    exact performs_escape s
  | openGroup => exact performs_openGroup h
  | closeGroup => exact performs_closeGroup h
  | digit => exact performs_digit h
  | openSelector =>
    obtain ⟨_, _, _, _, _, _, _, _, rfl⟩ := openSelector_ok h
    exact .quiet rfl rfl
  | slash =>
    cases h
    exact performs_slash s c
  | closeSelector =>
    obtain ⟨_, _, _, rfl⟩ := closeSelector_ok h
    exact .quiet rfl rfl
  | tag =>
    obtain ⟨_, _, _, _, _, rfl⟩ := readTag_ok h
    exact .quiet rfl rfl
  | repetition =>
    obtain ⟨_, _, _, _, _, _, _, _, _, _, _, rfl⟩ := openRepetition_ok h
    exact .quiet rfl rfl
  | openBlock | carriageReturn | upper =>
    cases h
    exact .quiet rfl rfl
  | closeBlock =>
    cases h
    exact performs_closeBlock s index
  | flag => exact performs_flag h
  | call => exact performs_wordCall h
  | lineBreak =>
    cases h
    exact .kept rfl rfl (by simp [plain_write])
  | casing =>
    cases h
    exact performs_toggleCasing s
  | number => exact performs_randomNumber h
  | literal =>
    cases h
    exact performs_emitLiteral s c

theorem performs_step (h : s.step setting = .ok t) : Performs s (s.operations setting) t :=
  (performs_perform h).of_eq rfl rfl

end performs

section insertions

variable {setting : Setting} {s : State} {c : Char} {index : Nat} {marks : List Mark}
  {letter : String}

theorem insert_mem_correction {article : Option PendingArticle} {word : String}
    (h : .insert marks letter ∈ correction article word) :
    ∃ a, article = some a ∧ marks = a.marks ∧ letter = (if a.upper then "N" else "n") ∧
      correction article word = [.insert marks letter] := by
  unfold correction at h ⊢
  split at h
  · rename_i a
    split at h
    · simp_all
    · simp at h
  · simp at h

/-- Nothing but a call puts anything in, and it does so for the pending article. -/
theorem insert_mem_effects (h : .insert marks letter ∈ s.effects setting c index) :
    ∃ a word, s.article = some a ∧ marks = a.marks ∧
      letter = (if a.upper then "N" else "n") ∧
      s.effects setting c index = [.insert marks letter, .write word] := by
  unfold effects at h ⊢
  generalize Sign.ofChar c = sign at h ⊢
  cases sign with
  | call =>
    dsimp only at h ⊢
    split at h
    · rename_i word called
      simp only [List.mem_append, List.mem_singleton, reduceCtorEq, or_false] at h
      obtain ⟨a, pending, marks_eq, letter_eq, only⟩ := insert_mem_correction h
      rw [only]
      exact ⟨a, word, pending, marks_eq, letter_eq, rfl⟩
    · contradiction
  | escape =>
    simp only [escaped] at h
    split at h <;> simp at h
  | openGroup =>
    simp only [opened] at h
    split at h <;> simp at h
  | digit =>
    simp only [digits, literal] at h
    split at h <;> simp at h
  | slash =>
    simp only [literal] at h
    split at h <;> simp at h
  | number => simp at h
  | literal => simp [literal] at h
  | closeGroup | lineBreak => simp at h
  | openSelector | closeSelector | tag | repetition | openBlock | closeBlock | flag
  | carriageReturn | casing | upper => simp at h

theorem insert_mem_operations (h : .insert marks letter ∈ s.operations setting) :
    ∃ a word, s.article = some a ∧ marks = a.marks ∧
      letter = (if a.upper then "N" else "n") ∧
      s.operations setting = [.insert marks letter, .write word] :=
  insert_mem_effects h

end insertions

end State

end Phrasebook
