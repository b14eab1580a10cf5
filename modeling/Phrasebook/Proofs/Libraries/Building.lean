import Phrasebook.Proofs.Libraries.Folders

/-! What a library builds.
The files are read in the order of their names, word banks before pattern banks before definitions,
and the first that cannot be read ends the reading. What is read is put down in this order, then
what is given directly, and of several things in one place the last one stays. -/
namespace Phrasebook

variable {ι ε α : Type} (disk : Disk ι) (decoder : Decoder ε)

section reading

variable (parse : String → Except (ParseError ε) α)

/-- Each of the files loads as the bank at its place. -/
def Reads (files : List (String × Node)) (banks : List α) : Prop :=
  files.map (fun file => disk.load parse file.2) = banks.map .ok

/-- This is why the first of the files that cannot be loaded cannot be loaded. -/
def FailsFirst (files : List (String × Node)) (cause : LoadError ι ε) : Prop :=
  ∃ before file after banks, files = before ++ file :: after ∧ Reads disk parse before banks ∧
    disk.load parse file.2 = .error cause

end reading

section lookup

namespace Glossary

end Glossary

end lookup

namespace Book

end Book

namespace Library

/-- A new phrasebook in which later banks have replaced earlier ones with their symbols, and later
definitions earlier ones of their kinds and names. -/
structure Holds (l : Library) (lexicons : List Lexicon) (anthologies : List Anthology)
    (definitions : List Definition) (book : Book) : Prop where
  lexicon : ∀ symbol, book.lexicon? symbol =
    ((lexicons ++ l.lexicons).filter (·.symbol == symbol)).getLast?
  anthology : ∀ symbol, book.anthology? symbol =
    ((anthologies ++ l.anthologies).filter (·.symbol == symbol)).getLast?
  body : ∀ kind name, book.glossary.body? kind name = (l.glossary.body? kind name).or
    ((definitions.filter fun d => d.kind == kind && d.name == name).getLast?.map (·.body))
  values : book.values = ∅
  flags : book.flags = ∅
  notices : book.notices = []
  lineBreak : book.lineBreak = l.lineBreak
  depthLimit : book.depthLimit = l.depthLimit

/-- The error that ends the reading, from the first stage in which a file cannot be loaded. -/
inductive Fails (disk : Disk ι) (decoder : Decoder ε) (l : Library)
    (words patterns : List (String × Node)) : BuildFailure ι ε → Prop where
  | words {cause : LoadError ι ε} (first : FailsFirst disk decoder.parseLexicon words cause) :
      Fails disk decoder l words patterns (.lexicon cause)
  | patterns {lexicons : List Lexicon} {cause : LoadError ι ε}
      (read : Reads disk decoder.parseLexicon words lexicons)
      (first : FailsFirst disk decoder.parseAnthology patterns cause) :
      Fails disk decoder l words patterns (.anthology cause)
  | definitions {lexicons : List Lexicon} {anthologies : List Anthology} {cause : LoadError ι ε}
      (read : Reads disk decoder.parseLexicon words lexicons)
      (read' : Reads disk decoder.parseAnthology patterns anthologies)
      (failed : readDefinitions disk decoder l.glossaryFile = .error cause) :
      Fails disk decoder l words patterns (.glossary cause)

variable {l : Library} {lexicons : List Lexicon} {anthologies : List Anthology}
  {definitions : List Definition} {book book' : Book}

theorem Holds.unique (held : l.Holds lexicons anthologies definitions book)
    (held' : l.Holds lexicons anthologies definitions book') : book = book' := by
  have sameLexicons : book.lexicons = book'.lexicons :=
    Std.ExtTreeMap.ext_getElem? fun symbol =>
      (held.lexicon symbol).trans (held'.lexicon symbol).symm
  have sameAnthologies : book.anthologies = book'.anthologies :=
    Std.ExtTreeMap.ext_getElem? fun symbol =>
      (held.anthology symbol).trans (held'.anthology symbol).symm
  have bodies : ∀ kind name, book.glossary.body? kind name = book'.glossary.body? kind name :=
    fun kind name => (held.body kind name).trans (held'.body kind name).symm
  have sameInlines : book.glossary.inlines = book'.glossary.inlines :=
    Std.ExtTreeMap.ext_getElem? (bodies .inline)
  have sameGlobals : book.glossary.globals = book'.glossary.globals :=
    Std.ExtTreeMap.ext_getElem? (bodies .global)
  obtain ⟨_, _, ⟨_, _⟩, _, _, _, _, _⟩ := book
  obtain ⟨_, _, ⟨_, _⟩, _, _, _, _, _⟩ := book'
  obtain ⟨-, -, -, rfl, rfl, rfl, rfl, rfl⟩ := held
  obtain ⟨-, -, -, rfl, rfl, rfl, rfl, rfl⟩ := held'
  simp_all

section stages

variable {words patterns : Option Folder} {wordFiles patternFiles : List (String × Node)}
  {disk : Disk ι} {decoder : Decoder ε}

end stages

end Library

end Phrasebook
