import Phrasebook.Book
import Phrasebook.Data.Bank

/-! Phrasebooks put together from files and from banks given directly.
Bank files are read in the order of their names, whatever order a folder lists them in. A later
bank replaces an earlier one with its symbol, and what is given directly comes last. -/
namespace Phrasebook

/-- Why no phrasebook is built: a file is not a bank, or there is no folder to list. -/
inductive BuildFailure (ι ε : Type) where
  | lexicon (cause : LoadError ι ε)
  | anthology (cause : LoadError ι ε)
  | glossary (cause : LoadError ι ε)
  | folder (cause : ι)
deriving Repr, DecidableEq

inductive FileError where
  | unreadable
  | bank (cause : Data.BankError)
deriving Repr, DecidableEq

def FileError.ofLoad : LoadError Unit Unit → FileError
  | .unread _ => .unreadable
  | .unparsed cause => .bank (.ofParse cause)

/-- The failures with a decoder and a disk that do not say why they fail. -/
inductive BuildError where
  | lexicon (cause : FileError)
  | anthology (cause : FileError)
  | glossary (cause : FileError)
  | folder
deriving Repr, DecidableEq

def BuildError.ofFailure : BuildFailure Unit Unit → BuildError
  | .lexicon cause => .lexicon (.ofLoad cause)
  | .anthology cause => .anthology (.ofLoad cause)
  | .glossary cause => .glossary (.ofLoad cause)
  | .folder _ => .folder

/-- The text of an error that is not about the form of a file. -/
def BuildError.message? : BuildError → Option String
  | lexicon (.bank (.invalid cause)) => some s!"word bank error: {cause.message}"
  | _ => none

/-- Where the parts of a phrasebook come from. A place where nothing is adds nothing. -/
structure Library where
  lexiconFolder : Option Node
  anthologyFolder : Option Node
  glossaryFile : Option Node
  lexicons : List Lexicon
  anthologies : List Anthology
  glossary : Glossary
  lineBreak : String
  depthLimit : Nat

namespace Library

def isBankFile (name : String) : Bool :=
  ".ron".toList.isSuffixOf name.toList && name.toList != ".ron".toList

def bankFiles (entries : List (String × Node)) : List (String × Node) :=
  (entries.filter fun entry => isBankFile entry.1).mergeSort fun a b => a.1 ≤ b.1

variable {ι ε α : Type}

def readFolder (disk : Disk ι) (parse : String → Except (ParseError ε) α)
    (wrap : LoadError ι ε → BuildFailure ι ε) : Option Node → Except (BuildFailure ι ε) (List α)
  | none => .ok []
  | some (.file text) => .error (.folder (disk.listFile text))
  | some (.folder entries) =>
    (bankFiles entries).mapM fun entry => (disk.load parse entry.2).mapError wrap

def readDefinitions (disk : Disk ι) (decoder : Decoder ε) :
    Option Node → Except (LoadError ι ε) (List Definition)
  | none => .ok []
  | some node => disk.load decoder.parseDefinitions node

/-- Reads word banks, pattern banks and definitions, and puts what is given directly on top. -/
def buildWith (disk : Disk ι) (decoder : Decoder ε) (l : Library) :
    Except (BuildFailure ι ε) Book := do
  let lexicons ← readFolder disk decoder.parseLexicon .lexicon l.lexiconFolder
  let anthologies ← readFolder disk decoder.parseAnthology .anthology l.anthologyFolder
  let definitions ← (readDefinitions disk decoder l.glossaryFile).mapError .glossary
  let empty : Book := {
    lexicons := ∅
    anthologies := ∅
    glossary := (Glossary.ofList definitions).merge l.glossary
    values := ∅
    flags := ∅
    notices := []
    lineBreak := l.lineBreak
    depthLimit := l.depthLimit }
  let stocked := (lexicons ++ l.lexicons).foldl Book.addLexicon empty
  return (anthologies ++ l.anthologies).foldl Book.addAnthology stocked

def build (l : Library) : Except BuildError Book :=
  (l.buildWith Data.disk Data.decoder).mapError .ofFailure

end Library

end Phrasebook
