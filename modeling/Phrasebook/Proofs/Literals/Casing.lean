import Phrasebook.Proofs.Banks.Weights
import Phrasebook.Proofs.Calls.Execution
import Phrasebook.Proofs.Globals.Verbatim
import Phrasebook.Proofs.Literals.Cases
import Phrasebook.Proofs.Selectors.Lockstep
import Phrasebook.Proofs.Sessions.Counting

/-! Runs in a casing.
Behind its sign a casing lasts to the end of the text, except that of a first letter. A text is
written in it character by character, and the word of a call as a whole. -/
namespace Phrasebook

open Letter (Casing isAlphanumeric capital)
open State (Reaches)

/-- What turns a casing on at the beginning of a text. -/
def Letter.Casing.sign : Casing → List Char
  | plain => []
  | first => ['~']
  | proper => ['~', '~']
  | upper => ['@']

/-- The first state behind the sign of a casing. -/
def State.behindSign (casing : Casing) (text : List Char) (flags : Flags) (g : Generator) : State :=
  { (State.start (casing.sign ++ text) flags g).moveTo casing.sign.length with
    upper := casing == .upper
    proper := casing == .proper
    firstPending := casing == .first }

variable {setting : Setting} {casing : Casing} {text : List Char} {flags : Flags} {g : Generator}

theorem Reader.peek_eq_head (r : Reader) : r.peek = r.left.head?.getD endMark := by
  rw [peek, charAt, left, List.head?_drop, Array.getElem?_toList]

theorem reaches_behindSign (other : text.head? ≠ some '~') :
    Reaches setting (.start (casing.sign ++ text) flags g) (.behindSign casing text flags g) := by
  cases casing with
  | plain =>
    have same : State.behindSign .plain text flags g = .start text flags g := rfl
    rw [same]
    exact .refl _
  | first =>
    have behind : ((State.start ('~' :: text) flags g).moveTo 1).reader.left = text :=
      Reader.left_moveTo _ 1
    have single : ((State.start ('~' :: text) flags g).moveTo 1).reader.peek ≠ '~' := by
      rw [Reader.peek_eq_head, behind]
      intro same
      cases text with
      | nil => contradiction
      | cons c text => exact other (congrArg some same)
    apply Structure.reaches_of_drop (c := '~') (show _ = 0 from rfl) rfl
    exact congrArg Except.ok (if_neg single)
  | proper => exact Structure.reaches_of_drop (c := '~') (show _ = 0 from rfl) rfl rfl
  | upper => exact Structure.reaches_of_drop (c := '@') (show _ = 0 from rfl) rfl rfl

/-- A state in this casing that has written this text so far, and nothing else, and goes on with the
rest. -/
structure State.Cased (flags : Flags) (g : Generator) (casing : Casing) (last : Char)
    (written rest : List Char) (s : State) : Prop where
  left : s.reader.left = rest
  streams : s.streams = Streams.empty.write (String.ofList written)
  upper : s.upper = (casing == .upper)
  proper : s.proper = (casing == .proper)
  firstPending : s.firstPending = (casing == .first)
  lastChar : s.lastChar = last
  globalFlags : s.globalFlags = flags
  warnings : s.warnings = []
  generator : s.generator = g

namespace State.Cased

variable {s : State} {last c : Char} {written rest : List Char}

theorem behindSign (casing : Casing) (text : List Char) (flags : Flags) (g : Generator) :
    Cased flags g casing Reader.endMark [] text (.behindSign casing text flags g) where
  left := (Reader.left_moveTo _ _).trans List.drop_left
  streams := rfl
  upper := rfl
  proper := rfl
  firstPending := rfl
  lastChar := rfl
  globalFlags := rfl
  warnings := rfl
  generator := rfl

theorem next (cased : Cased flags g casing last written (c :: rest) s) :
    Cased flags g casing last written rest (s.moveTo (s.reader.position + 1)) :=
  { cased with left := Reader.left_skip (show _ = [c] ++ _ from cased.left) }

/-- The modes and the last character decide alike whether a letter or digit is raised. -/
theorem raises (cased : Cased flags g casing last written rest s) :
    (s.upper || s.firstPending || (s.proper && s.atWordStart)) = casing.raises last := by
  rw [atWordStart, cased.upper, cased.firstPending, cased.proper, cased.lastChar]
  cases casing <;> rfl

theorem emitLiteral (cased : Cased flags g casing last written rest s) (c : Char) :
    Cased flags g (casing.behind c) c
      (written ++ [if isAlphanumeric c && casing.raises last then capital c else c]) rest
      (s.emitLiteral c) := by
  have write (d : Char) : s.streams.writeChar d =
      Streams.empty.write (String.ofList (written ++ [d])) := by
    rw [cased.streams, String.ofList_append, Streams.write_append]
    rfl
  by_cases letter : isAlphanumeric c = true
  · have raised : (if isAlphanumeric c && casing.raises last then capital c else c) =
        if casing.raises last then capital c else c := by rw [letter, Bool.true_and]
    rw [raised, State.emitLiteral, if_pos letter, cased.raises]
    exact { cased with
      streams := write _
      lastChar := rfl
      upper := cased.upper.trans (by cases casing <;> simp [Casing.behind, letter])
      proper := cased.proper.trans (by cases casing <;> simp [Casing.behind, letter])
      firstPending := by cases casing <;> simp [Casing.behind, letter] }
  · have still : (if isAlphanumeric c && casing.raises last then capital c else c) = c := by
      simp [letter]
    have same : casing.behind c = casing := if_neg fun first => letter first.2
    rw [still, same, State.emitLiteral, if_neg letter]
    exact { cased with streams := write c, lastChar := rfl }

/-- Plain text is written up to its end, each character in the casing that it finds. -/
theorem exists_read (setting : Setting) (cased : Cased flags g casing last written text s)
    (literal : ∀ c ∈ text, Sign.ofChar c = .literal) :
    ∃ casing' last' t, Reaches setting s t ∧
      Cased flags g casing' last' (written ++ casing.spread last text) [] t := by
  induction text generalizing s casing last written with
  | nil =>
    rw [Casing.spread, List.append_nil]
    exact ⟨casing, last, s, .refl s, cased⟩
  | cons c text ih =>
    have stepped : s.step setting = .ok ((s.moveTo (s.reader.position + 1)).emitLiteral c) := by
      rw [Structure.step_of_left cased.left, State.perform, literal c List.mem_cons_self]
    obtain ⟨casing', last', t, reached, ended⟩ :=
      ih (cased.next.emitLiteral c) (List.forall_mem_cons.mp literal).2
    refine ⟨casing', last', t, .head (Reader.more_of_left cased.left) stepped reached, ?_⟩
    rw [List.append_assoc] at ended
    exact ended

theorem casing_eq (cased : Cased flags g casing last written rest s) : s.casing = casing := by
  rw [State.casing, cased.upper, cased.proper, cased.firstPending]
  cases casing <;> rfl

end State.Cased

theorem evaluate_literals (setting : Setting) (casing : Casing) (flags : Flags) (g : Generator)
    (literal : ∀ c ∈ text, Sign.ofChar c = .literal) :
    evaluate setting (casing.sign ++ text) flags g =
      { result := .ok ⟨(∅ : Std.ExtTreeMap String String).insert "main"
          (String.ofList (casing.spread Reader.endMark text))⟩
        flags := flags
        warnings := []
        generator := g } := by
  have other : text.head? ≠ some '~' := by
    intro tilde
    exact absurd (literal '~' (List.mem_of_head? tilde)) (by decide)
  obtain ⟨_, _, t, reached, ended⟩ :=
    (State.Cased.behindSign casing text flags g).exists_read setting literal
  rw [State.evaluate_of_reaches ((reaches_behindSign other).trans reached)
      (Reader.atEnd_of_left ended.left), ended.streams, Streams.finish_write_empty,
    ended.globalFlags, ended.warnings, ended.generator]
  rfl

/-- A call with nothing but its symbol. -/
def callText (symbol : Char) : List Char := ['+', symbol, '[', ']']

section call

variable {symbol : Char} {lexicon : Lexicon} {word : Word} {form : String} {i : Nat}

theorem parse?_callText (named : Call.isSymbol symbol = true) :
    Call.parse? (callText symbol) = some ⟨symbol, "", "", none, 4⟩ := by
  have modern : Call.modern? [symbol, '[', ']'] = some ⟨symbol, "", "", none, 4⟩ := by
    rw [Call.modern?, if_pos named]
    rfl
  rw [callText, Call.parse?, modern]
  rfl

theorem weightedPickAmong_singleton (lexicon : Lexicon) (i : Nat) (g : Generator) :
    lexicon.weightedPickAmong [i] g = .ok (some i, g.advance) := by
  cases drawn : lexicon.weightedPickAmong [i] g with
  | error cause =>
    obtain ⟨_, _, whole, _⟩ := Lexicon.weightedPickAmong_error drawn
    exact absurd (Nat.le_of_dvd Nat.one_pos whole) (by decide)
  | ok picked =>
    obtain ⟨picked?, g'⟩ := picked
    obtain rfl : g' = g.advance := Lexicon.generator_weightedPickAmong drawn
    rcases Lexicon.weightedPickAmong_ok drawn with ⟨empty, -⟩ | ⟨j, member, rfl, -⟩
    · contradiction
    · obtain rfl := List.mem_singleton.mp member
      rfl

theorem pickFresh_lone (words : lexicon.words = [word]) (index : Nat) (g : Generator) :
    State.pickFresh lexicon ⟨symbol, "", "", none, 4⟩ index g = .ok (.word 0, g.advance) := by
  have picked : lexicon.weightedPick "" g = .ok (some 0, g.advance) := by
    have candidates : lexicon.candidates? "" = some [0] := by
      rw [Lexicon.candidates?, words]
      rfl
    rw [Lexicon.weightedPick, candidates]
    exact weightedPickAmong_singleton lexicon 0 g
  have unclassed : Call.classList? ⟨symbol, "", "", none, 4⟩ = none := rfl
  rw [State.pickFresh, unclassed]
  simp only [picked]
  rfl

theorem resolve_lone (words : lexicon.words = [word]) (forms : word.forms = [form])
    (casing : Casing) : lexicon.resolve 0 "" casing = .ok (casing.apply form) := by
  rw [Lexicon.resolve, words]
  simp [Lexicon.subtypeIndex?, forms]

theorem evaluate_callText (setting : Setting) (casing : Casing) (flags : Flags) (g : Generator)
    (named : Call.isSymbol symbol = true) (known : setting.lexicons[symbol]? = some lexicon)
    (words : lexicon.words = [word]) (forms : word.forms = [form]) :
    evaluate setting (casing.sign ++ callText symbol) flags g =
      { result := .ok ⟨(∅ : Std.ExtTreeMap String String).insert "main" (casing.apply form)⟩
        flags := flags
        warnings := []
        generator := g.advance } := by
  let call : Call := ⟨symbol, "", "", none, 4⟩
  let s := State.behindSign casing (callText symbol) flags g
  have cased := State.Cased.behindSign casing (callText symbol) flags g
  have executes : State.Executes setting s call lexicon :=
    ⟨(congrArg Call.parse? ((Reader.tail_eq _ _).trans cased.left)).trans (parse?_callText named),
      known⟩
  have picked : s.pick lexicon call =
      .ok (some 0, { s.calling call with generator := g.advance }) := by
    have fresh : State.pickFresh lexicon call s.reader.position (s.calling call).generator =
        .ok (.word 0, g.advance) := pickFresh_lone words s.reader.position g
    have unkept : State.carrierKey? call = none := rfl
    rw [State.pick, State.pickWord, unkept]
    simp only [Option.bind_none, fresh]
    rfl
  let t := { s.calling call with generator := g.advance }.emitCased (casing.apply form)
  have written : { s.calling call with generator := g.advance }.writeWord lexicon call
      s.reader.position 0 s.article = .ok t := by
    have own : { s.calling call with generator := g.advance }.casing = casing := cased.casing_eq
    rw [State.writeWord, own, resolve_lone words forms]
    rfl
  have stepped : s.step setting = .ok t := by
    rw [executes.step_eq, picked]
    exact written
  have reached : Reaches setting s t := .one (Reader.more_of_left cased.left) stepped
  have left : t.reader.left = [] := Reader.left_skip
    (show s.reader.left = callText symbol ++ [] from
      cased.left.trans (List.append_nil _).symm)
  have streams : t.streams = Streams.empty.write (casing.apply form) := rfl
  rw [State.evaluate_of_reaches ((reaches_behindSign (by simp [callText])).trans reached)
    (Reader.atEnd_of_left left), streams, Streams.finish_write_empty]
  rfl

end call

theorem main_insert (text : String) :
    Output.main ⟨(∅ : Std.ExtTreeMap String String).insert "main" text⟩ = text := by
  simp [Output.main, Output.text?]

/-- A text and a call of a bank with this text as its only word come out the same, in any casing,
exactly where the casing suits the text. -/
theorem evaluate_casing (setting : Setting) (casing : Casing) (flags : Flags) (g : Generator)
    {symbol : Char} {lexicon : Lexicon} {word : Word}
    (plain : ∀ c ∈ text, c ∉ Structure.markup ∧ c.isDigit = false)
    (single : ∀ c ∈ text, (Letter.uppercase c).length = 1)
    (named : Call.isSymbol symbol = true) (known : setting.lexicons[symbol]? = some lexicon)
    (words : lexicon.words = [word]) (forms : word.forms = [String.ofList text]) :
    ∃ output output',
      (evaluate setting (casing.sign ++ text) flags g).result = .ok output ∧
      (evaluate setting (casing.sign ++ callText symbol) flags g).result = .ok output' ∧
      output.main = String.ofList (casing.spread Reader.endMark text) ∧
      output'.main = casing.apply (String.ofList text) ∧
      (output.main = output'.main ↔ casing.Suits text) := by
  have literal : ∀ c ∈ text, Sign.ofChar c = .literal :=
    fun c member => Structure.sign_of_plain ⟨c, plain c member⟩
  refine ⟨_, _, congrArg Outcome.result (evaluate_literals setting casing flags g literal),
    congrArg Outcome.result (evaluate_callText setting casing flags g named known words forms),
    main_insert _, main_insert _, ?_⟩
  rw [main_insert, main_insert, Casing.apply, String.toList_ofList, String.ofList_inj]
  exact Casing.spread_eq_applyList_iff single casing

/-- A bank with one word. -/
def loneLexicon (word : String) : Lexicon where
  symbol := 'n'
  title := ""
  description := ""
  subtypes := ["one"]
  words := [Word.make [word] 1 []]
  classIndex := ∅

def loneSetting (word : String) : Setting :=
  ⟨(∅ : Std.ExtTreeMap Char Lexicon).insert 'n' (loneLexicon word), "\n"⟩

theorem known_loneSetting (word : String) :
    (loneSetting word).lexicons['n']? = some (loneLexicon word) := by
  simp [loneSetting]

theorem evaluate_casing_well_met : ∃ output output',
    (evaluate (loneSetting "well met") "~~well met".toList ∅ (.ofSeed 0 0)).result =
      .ok output ∧
    (evaluate (loneSetting "well met") "~~+n[]".toList ∅ (.ofSeed 0 0)).result = .ok output' ∧
    output.main = "Well Met" ∧ output'.main = "Well Met" := by
  have plain : ∀ c ∈ "well met".toList, c ∉ Structure.markup ∧ c.isDigit = false := by
    have all : "well met".toList.all fun c => !Structure.markup.contains c && !c.isDigit := by
      decide
    simpa using all
  have single : ∀ c ∈ "well met".toList, (Letter.uppercase c).length = 1 := by
    have all : "well met".toList.all fun c => (Letter.uppercase c).length == 1 := by
      decide +kernel
    simpa using all
  obtain ⟨output, output', ran, ran', main, main', -⟩ := evaluate_casing (loneSetting "well met")
    .proper ∅ (.ofSeed 0 0) plain single (show Call.isSymbol 'n' = true by decide)
    (known_loneSetting _) rfl rfl
  refine ⟨output, output', ran, ran', main.trans ?_, main'.trans ?_⟩
  · decide +kernel
  · decide +kernel

/-- The bracket before the first letter takes the beginning of the word in a call, but not in a
text. -/
theorem not_cased_alike :
    (∀ c ∈ "(big) ape".toList, c ∉ Structure.markup ∧ c.isDigit = false ∧
      (Letter.uppercase c).length = 1) ∧
    ∃ output output',
      (evaluate (loneSetting "(big) ape") "~~(big) ape".toList ∅ (.ofSeed 0 0)).result =
        .ok output ∧
      (evaluate (loneSetting "(big) ape") "~~+n[]".toList ∅ (.ofSeed 0 0)).result =
        .ok output' ∧
      output.main = "(Big) Ape" ∧ output'.main = "(big) Ape" := by
  have all : "(big) ape".toList.all (fun c => !Structure.markup.contains c && !c.isDigit &&
      (Letter.uppercase c).length == 1) = true := by
    decide +kernel
  have literal : ∀ c ∈ "(big) ape".toList, Sign.ofChar c = .literal := by
    have signs : "(big) ape".toList.all (fun c => Sign.ofChar c == .literal) = true := by
      decide +kernel
    simpa using signs
  have text := evaluate_literals (loneSetting "(big) ape") .proper ∅ (.ofSeed 0 0) literal
  have call := evaluate_callText (loneSetting "(big) ape") .proper ∅ (.ofSeed 0 0)
    (show Call.isSymbol 'n' = true by decide) (known_loneSetting "(big) ape") rfl rfl
  refine ⟨by simpa [and_assoc] using all, _, _, congrArg Outcome.result text,
    congrArg Outcome.result call, (main_insert _).trans ?_, (main_insert _).trans ?_⟩
  · decide +kernel
  · decide +kernel

end Phrasebook
