import Phrasebook.Anthology
import Phrasebook.Evaluation.Run
import Phrasebook.Lexicon
import Phrasebook.Notice
import Phrasebook.Substitution

/-! The phrasebook: banks, definitions, and what stays from one generation call to the next.
A generation call replaces references, runs the text, and leaves notices of that call alone. Flags
and the values of globals last until they are changed. -/
namespace Phrasebook

inductive BookError where
  | substitution (notice : Notice)
  | evaluation (notice : Notice)
  | unknownAnthology (symbol : Char)
  | patternNotFound (symbol : Char) (title : String)
  | draw (cause : RangeError)
deriving Repr, DecidableEq

def BookError.message : BookError → String
  | substitution notice => notice.render
  | evaluation notice => notice.render
  | unknownAnthology symbol => s!"no pattern bank registered for symbol '{symbol}'"
  | patternNotFound symbol title => s!"pattern '{title}' not found in bank '{symbol}'"
  | draw cause => cause.message

structure Book where
  lexicons : Std.ExtTreeMap Char Lexicon
  anthologies : Std.ExtTreeMap Char Anthology
  glossary : Glossary
  values : Std.ExtTreeMap String String
  flags : Flags
  notices : List Notice
  lineBreak : String
  depthLimit : Nat

structure Reply (α : Type) where
  result : Except BookError α
  book : Book
  generator : Generator

namespace Book

def defaultLineBreak : String := "\r\n"

def defaultDepthLimit : Nat := 64

def setting (b : Book) : Setting := ⟨b.lexicons, b.lineBreak⟩

def definitions (b : Book) : Definitions := ⟨b.glossary, b.values, b.depthLimit⟩

def note (b : Book) (notices : List Notice) : Book := { b with notices := b.notices ++ notices }

def clearNotices (b : Book) : Book := { b with notices := [] }

def substitute (b : Book) (text : List Char) : Except BookError (List Char) × Book :=
  match b.definitions.expand text with
  | .ok expanded => (.ok expanded, b)
  | .error (cause, index) =>
    let notice := Notice.about .error .substitution cause.message text index
    (.error (.substitution notice), b.note [notice])

def run (b : Book) (g : Generator) (text : List Char) : Reply Output :=
  match b.substitute text with
  | (.error e, b) => ⟨.error e, b, g⟩
  | (.ok expanded, b) =>
    let outcome := evaluate b.setting expanded b.flags g
    let warnings := outcome.warnings.map fun w =>
      Notice.about .warning .evaluation w.cause.message expanded w.index
    let b := { b with flags := outcome.flags }.note warnings
    match outcome.result with
    | .ok output => ⟨.ok output, b, outcome.generator⟩
    | .error (.fault cause index) =>
      let notice := Notice.about .error .evaluation cause.message expanded index
      ⟨.error (.evaluation notice), b.note [notice], outcome.generator⟩
    | .error (.draw cause) => ⟨.error (.draw cause), b, outcome.generator⟩

def expand (b : Book) (text : String) : Except BookError String × Book :=
  match b.clearNotices.substitute text.toList with
  | (.ok expanded, b) => (.ok (String.ofList expanded), b)
  | (.error e, b) => (.error e, b)

def interpret (b : Book) (g : Generator) (text : String) : Reply Output :=
  b.clearNotices.run g text.toList

def interpretPattern (b : Book) (g : Generator) (symbol : Char) (title : String) :
    Reply Output :=
  let b := b.clearNotices
  match b.anthologies[symbol]? with
  | none => ⟨.error (.unknownAnthology symbol), b, g⟩
  | some anthology =>
    match anthology.find? title with
    | none => ⟨.error (.patternNotFound symbol title), b, g⟩
    | some pattern => b.run g pattern.text.toList

def interpretRandom (b : Book) (g : Generator) (symbol : Char) : Reply Output :=
  let b := b.clearNotices
  match b.anthologies[symbol]? with
  | none => ⟨.error (.unknownAnthology symbol), b, g⟩
  | some anthology =>
    match anthology.random g with
    | .error cause => ⟨.error (.draw cause), b, g⟩
    | .ok (none, g) => ⟨.error (.patternNotFound symbol ""), b, g⟩
    | .ok (some pattern, g) => b.run g pattern.text.toList

def keep (b : Book) (name value : String) : Book := { b with values := b.values.insert name value }

/-- Evaluates the named globals that have no value, each after the globals that its body needs.
Names that are not in `unstarted` are passed over: they are unknown, or their evaluation waits for
this one, which leaves the circle for the substitution to report. -/
def assign (unstarted names : List String) (b : Book) (g : Generator) : Reply Unit :=
  match names with
  | [] => ⟨.ok (), b, g⟩
  | name :: names =>
    if b.values.contains name then assign unstarted names b g
    else if _ : name ∈ unstarted then
      match b.glossary.body? .global name with
      | none => assign unstarted names b g
      | some body =>
        let needed := b.definitions.globalReferences body.toList
        match assign (unstarted.erase name) needed b g with
        | ⟨.error e, b, g⟩ => ⟨.error e, b, g⟩
        | ⟨.ok _, b, g⟩ =>
          match b.run g body.toList with
          | ⟨.error e, b, g⟩ => ⟨.error e, b, g⟩
          | ⟨.ok output, b, g⟩ => assign unstarted names (b.keep name output.main) g
    else assign unstarted names b g
termination_by (unstarted.length, names.length)
decreasing_by
  · exact Prod.Lex.right _ (Nat.lt_succ_self _)
  · exact Prod.Lex.right _ (Nat.lt_succ_self _)
  · have fewer := List.length_erase_of_mem ‹name ∈ unstarted›
    have := List.length_pos_of_mem ‹name ∈ unstarted›
    exact Prod.Lex.left _ _ (by omega)
  · exact Prod.Lex.right _ (Nat.lt_succ_self _)
  · exact Prod.Lex.right _ (Nat.lt_succ_self _)

/-- Evaluates every global afresh, in the order of their names. -/
def assignGlobals (b : Book) (g : Generator) : Reply Unit :=
  let names := b.glossary.globalNames
  assign names names { b with notices := [], values := ∅ } g

def defineInline (b : Book) (name body : String) : Book :=
  { b with glossary := b.glossary.insert ⟨.inline, name, body⟩ }

def defineGlobal (b : Book) (name body : String) : Book :=
  { b with
    glossary := b.glossary.insert ⟨.global, name, body⟩
    values := b.values.erase name }

def globalValue? (b : Book) (name : String) : Option String := b.values[name]?

def setFlag (b : Book) (name : String) : Book := { b with flags := b.flags.insert name }

def unsetFlag (b : Book) (name : String) : Book := { b with flags := b.flags.erase name }

def flagIsSet (b : Book) (name : String) : Bool := b.flags.contains name

def clearFlags (b : Book) : Book := { b with flags := ∅ }

def lexicon? (b : Book) (symbol : Char) : Option Lexicon := b.lexicons[symbol]?

def anthology? (b : Book) (symbol : Char) : Option Anthology := b.anthologies[symbol]?

def addLexicon (b : Book) (lexicon : Lexicon) : Book :=
  { b with lexicons := b.lexicons.insert lexicon.symbol lexicon }

def addAnthology (b : Book) (anthology : Anthology) : Book :=
  { b with anthologies := b.anthologies.insert anthology.symbol anthology }

def reshuffleAll (factor : UInt32) :
    List (Char × Lexicon) → Generator → Except RangeError (List (Char × Lexicon) × Generator)
  | [], g => .ok ([], g)
  | (symbol, lexicon) :: rest, g => do
    let (lexicon, g) ← lexicon.reshuffle factor g
    let (rest, g) ← reshuffleAll factor rest g
    return ((symbol, lexicon) :: rest, g)

def reshuffle (b : Book) (factor : UInt32) (g : Generator) : Reply Unit :=
  match reshuffleAll factor b.lexicons.toList g with
  | .error cause => ⟨.error (.draw cause), b, g⟩
  | .ok (lexicons, g) => ⟨.ok (), { b with lexicons := Std.ExtTreeMap.ofList lexicons }, g⟩

end Book

end Phrasebook
