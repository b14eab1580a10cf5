import Phrasebook.Anthology
import Phrasebook.Glossary
import Phrasebook.Lexicon

/-! Loading of bank files.
A decoder takes the text of a file apart, and the parts of a word bank are then checked like those
of any other. What decodes a text, why it fails, and why there is no text are left open. -/
namespace Phrasebook

/-- A file with its text, or a folder with its entries by name. -/
inductive Node where
  | file (text : String)
  | folder (entries : List (String × Node))

structure WordSource where
  forms : List String
  weight : UInt32
  classes : List String
deriving Repr, DecidableEq

/-- The parts of a word bank, before they are checked. -/
structure LexiconSource where
  symbol : Char
  title : String
  description : String
  subtypes : List String
  words : List WordSource
deriving Repr, DecidableEq

def WordSource.word (s : WordSource) : Word := Word.make s.forms s.weight s.classes

def LexiconSource.make (s : LexiconSource) : Except LexiconError Lexicon :=
  Lexicon.make s.symbol s.title s.description s.subtypes (s.words.map WordSource.word)

structure Decoder (ε : Type) where
  lexicon : String → Except ε LexiconSource
  anthology : String → Except ε Anthology
  definitions : String → Except ε (List Definition)

/-- Why there is nothing to read where a file is listed as a folder, or a folder read as a file. -/
structure Disk (ι : Type) where
  listFile : String → ι
  readFolder : List (String × Node) → ι

/-- Why a text is not a bank. -/
inductive ParseError (ε : Type) where
  | undecoded (cause : ε)
  | invalid (cause : LexiconError)
deriving Repr, DecidableEq

/-- Why a file is not a bank. -/
inductive LoadError (ι ε : Type) where
  | unread (cause : ι)
  | unparsed (cause : ParseError ε)
deriving Repr, DecidableEq

variable {ι ε α : Type}

namespace Decoder

def parseLexicon (d : Decoder ε) (text : String) : Except (ParseError ε) Lexicon := do
  let source ← (d.lexicon text).mapError .undecoded
  source.make.mapError .invalid

def parseAnthology (d : Decoder ε) (text : String) : Except (ParseError ε) Anthology :=
  (d.anthology text).mapError .undecoded

def parseDefinitions (d : Decoder ε) (text : String) : Except (ParseError ε) (List Definition) :=
  (d.definitions text).mapError .undecoded

end Decoder

def Disk.load (disk : Disk ι) (parse : String → Except (ParseError ε) α) :
    Node → Except (LoadError ι ε) α
  | .folder entries => .error (.unread (disk.readFolder entries))
  | .file text => (parse text).mapError .unparsed

end Phrasebook
