import Phrasebook.Call
import Phrasebook.Proofs.Spellings.Words

/-! Modern calls in every layout.
The parts of a call are words with white space between them, but the classes may stand closer: a
comma joins the words that it touches. So the class part of a call is a list of words that depends
on the layout, and all that the parser needs of it is that its words join, that none of them is
`for`, and that without the blanks they are the classes with single commas. -/
namespace Phrasebook.Call

open Letter (isBlank isBlank_of_isAlphanumeric)

/-- White space, or nothing. -/
structure Blanks where
  chars : List Char
  blank : ∀ c ∈ chars, isBlank c = true

namespace Blanks

def none : Blanks := ⟨[], nofun⟩

def space : Blanks := ⟨[' '], List.all_eq_true.mp rfl⟩

end Blanks

structure Gap extends Blanks where
  present : chars ≠ []

structure Name where
  chars : List Char
  present : chars ≠ []
  named : ∀ c ∈ chars, isNameChar c = true

/-- What a modern call can say. A word `of` or `for` in the place of the subtype begins the classes
or the carrier, and `for` ends the classes wherever it stands among them. -/
structure Modern where
  symbol : Char
  /-- Empty if left out. -/
  subtype : List Char
  classes : List Name
  carrier : Option Name
  symbolic : isSymbol symbol = true
  named : ∀ c ∈ subtype, isNameChar c = true
  subtype_ne_of : subtype ≠ ofWord
  subtype_ne_for : subtype ≠ forWord
  class_ne_for : ∀ name ∈ classes, name.chars ≠ forWord

/-- The white space of a call: at both ends of its brackets, in each gap between two parts, and on
both sides of each comma. -/
structure Layout where
  lead : Blanks
  trail : Blanks
  gap : Nat → Gap
  before : Nat → Blanks
  after : Nat → Blanks

def commaed (before after : Nat → Blanks) : List Name → List Char
  | [] => []
  | [name] => name.chars
  | name :: next :: names =>
    name.chars ++ ((before 0).chars ++ ',' :: ((after 0).chars ++
      commaed (before ∘ (· + 1)) (after ∘ (· + 1)) (next :: names)))

def spaced (gap : Nat → Gap) : List (List Char) → List Char
  | [] => []
  | [part] => part
  | part :: next :: parts =>
    part ++ ((gap 0).chars ++ spaced (gap ∘ (· + 1)) (next :: parts))

/-- A part that is left out if it has no content, with the word that introduces it. -/
def introduced (word : List Char) : Option (List Char) → List (List Char)
  | none => []
  | some part => [word, part]

namespace Modern

def subtypePart (call : Modern) : List (List Char) :=
  if call.subtype = [] then [] else [call.subtype]

def classText (call : Modern) (layout : Layout) : Option (List Char) :=
  if call.classes.isEmpty then none
  else some (commaed layout.before layout.after call.classes)

def carrierText (call : Modern) : Option (List Char) := call.carrier.map Name.chars

def body (call : Modern) (layout : Layout) : List Char :=
  layout.lead.chars ++ (spaced layout.gap (call.subtypePart ++
    (introduced ofWord (call.classText layout) ++ introduced forWord call.carrierText)) ++
    layout.trail.chars)

def print (call : Modern) (layout : Layout) : List Char :=
  '+' :: call.symbol :: '[' :: (call.body layout ++ [']'])

def classNames (call : Modern) : List (List Char) := call.classes.map Name.chars

def meaning (call : Modern) (length : Nat) : Call where
  symbol := call.symbol
  subtype := String.ofList call.subtype
  className := String.ofList ([','].intercalate call.classNames)
  carrier := call.carrierText.map String.ofList
  length

end Modern

variable {c : Char} {word first text rest : List Char} {others : List (List Char)}

theorem isBlank_of_isNameChar (h : isNameChar c = true) : isBlank c = false := by
  rcases (Bool.or_eq_true _ _).mp h with letter | mark
  · exact isBlank_of_isAlphanumeric letter
  · have four : ['_', '-', '\'', '.'].all (isBlank · == false) = true := by decide
    exact eq_of_beq (List.all_eq_true.mp four c (List.contains_iff_mem.mp mark))

theorem comma_not_name : isNameChar ',' = false := by decide +kernel

namespace Name

variable (name : Name)

theorem solid : ∀ c ∈ name.chars, isBlank c = false :=
  fun c member => isBlank_of_isNameChar (name.named c member)

theorem comma_not_mem : ',' ∉ name.chars := by
  intro member
  have := name.named ',' member
  rw [comma_not_name] at this
  contradiction

end Name

/-- Words of a class list that say the text, whatever blanks they were written with. -/
structure Joins (tokens : List (List Char)) (text : List Char) : Prop where
  joined : joined tokens = true
  kept : ∀ token ∈ tokens, token ≠ forWord
  flat : tokens.flatten = text

namespace Joins

theorem comma (joins : Joins (first :: others) text) (present : first ≠ []) :
    Joins ((',' :: first) :: others) (',' :: text) where
  joined := by
    cases others with
    | nil => rfl
    | cons next others =>
      simpa [Call.joined, List.getLast?_cons_of_ne_nil present] using joins.joined
  kept := by
    refine List.forall_mem_cons.mpr ⟨?_, (List.forall_mem_cons.mp joins.kept).2⟩
    simp [forWord]
  flat := congrArg (',' :: ·) joins.flat

theorem comma_apart (joins : Joins (first :: others) text) :
    Joins ([','] :: first :: others) (',' :: text) where
  joined := by simpa [Call.joined] using joins.joined
  kept := List.forall_mem_cons.mpr ⟨by simp [forWord], joins.kept⟩
  flat := congrArg (',' :: ·) joins.flat

theorem name (joins : Joins ((',' :: first) :: others) text) :
    Joins ((word ++ ',' :: first) :: others) (word ++ text) where
  joined := by
    cases others with
    | nil => rfl
    | cons next others => simpa [Call.joined] using joins.joined
  kept := by
    refine List.forall_mem_cons.mpr ⟨?_, (List.forall_mem_cons.mp joins.kept).2⟩
    intro same
    have member : ',' ∈ word ++ ',' :: first := by simp
    rw [same] at member
    contradiction
  flat := by rw [← joins.flat]; simp

theorem name_apart (joins : Joins ((',' :: first) :: others) text) (other : word ≠ forWord) :
    Joins (word :: (',' :: first) :: others) (word ++ text) where
  joined := by simpa [Call.joined] using joins.joined
  kept := List.forall_mem_cons.mpr ⟨other, joins.kept⟩
  flat := by rw [← joins.flat]; rfl

end Joins

/-- The words of a comma, the blanks after it and the classes that follow. -/
theorem words_comma (after : Blanks) (solid : isBlank c = false)
    (joins : Joins (Text.words (c :: rest)) text) :
    ∃ first others, Text.words (',' :: (after.chars ++ c :: rest)) = (',' :: first) :: others ∧
      Joins ((',' :: first) :: others) (',' :: text) := by
  obtain ⟨word, others, found⟩ := Text.words_solid solid rest
  rw [found] at joins
  by_cases laid : after.chars = []
  · rw [laid]
    refine ⟨c :: word, others, Text.words_next (by decide) solid found, ?_⟩
    exact joins.comma (List.cons_ne_nil c word)
  · have apart := Text.words_apart laid after.blank [','] (c :: rest)
    rw [found] at apart
    exact ⟨[], (c :: word) :: others, apart, joins.comma_apart⟩

/-- The words of a class, the blanks after it, and what begins with a comma. -/
theorem words_class (name : Name) (other : name.chars ≠ forWord) (before : Blanks)
    (found : Text.words (',' :: rest) = (',' :: first) :: others)
    (joins : Joins ((',' :: first) :: others) text) :
    Joins (Text.words (name.chars ++ (before.chars ++ ',' :: rest))) (name.chars ++ text) := by
  by_cases laid : before.chars = []
  · have next : isBlank ',' = false := by decide
    rw [laid, List.nil_append, Text.words_append_solid name.present name.solid next found]
    exact joins.name
  · rw [Text.words_apart laid before.blank, found,
      Text.words_of_solid name.present name.solid]
    exact joins.name_apart other

theorem commaed_solid (before after : Nat → Blanks) (name : Name) (names : List Name) :
    ∃ c rest, commaed before after (name :: names) = c :: rest ∧ isBlank c = false := by
  obtain ⟨c, word, first⟩ := List.exists_cons_of_ne_nil name.present
  have solid : isBlank c = false := name.solid c (by simp [first])
  cases names with
  | nil => exact ⟨c, word, first, solid⟩
  | cons next names =>
    rw [commaed, first]
    exact ⟨c, _, List.cons_append, solid⟩

/-- However the classes are laid out, their words join, and say them with single commas. -/
theorem words_commaed (before after : Nat → Blanks) (name : Name) (names : List Name)
    (kept : ∀ other ∈ name :: names, other.chars ≠ forWord) :
    Joins (Text.words (commaed before after (name :: names)))
      ([','].intercalate ((name :: names).map Name.chars)) := by
  induction names generalizing name before after with
  | nil =>
    have alone : Text.words (commaed before after [name]) = [name.chars] :=
      Text.words_of_solid name.present name.solid
    rw [alone]
    exact ⟨rfl, by simpa using kept, by simp⟩
  | cons next names ih =>
    obtain ⟨other, later⟩ := List.forall_mem_cons.mp kept
    have joins := ih (before ∘ (· + 1)) (after ∘ (· + 1)) next later
    obtain ⟨c, rest, starts, solid⟩ :=
      commaed_solid (before ∘ (· + 1)) (after ∘ (· + 1)) next names
    rw [starts] at joins
    obtain ⟨first, others, found, behind⟩ := words_comma (after 0) solid joins
    rw [commaed, starts, List.map_cons, List.map_cons, List.intercalate_cons_cons]
    simpa using words_class name other (before 0) found behind

theorem words_spaced (gap : Nat → Gap) (parts : List (List Char)) :
    Text.words (spaced gap parts) = parts.flatMap Text.words := by
  induction parts generalizing gap with
  | nil => rfl
  | cons part parts ih =>
    cases parts with
    | nil => simp [spaced]
    | cons next parts =>
      rw [spaced, Text.words_apart (gap 0).present (gap 0).blank, ih, ← List.flatMap_cons]

theorem words_between (lead trail : Blanks) (text : List Char) :
    Text.words (lead.chars ++ (text ++ trail.chars)) = Text.words text := by
  rw [Text.words_blanks lead.blank]
  by_cases laid : trail.chars = []
  · rw [laid, List.append_nil]
  · rw [← List.append_nil trail.chars, Text.words_apart laid trail.blank]
    exact List.append_nil _

theorem isBodyChar_of_isNameChar (h : isNameChar c = true) : isBodyChar c = true := by
  simp [isBodyChar, h]

theorem isBodyChar_of_isBlank (h : isBlank c = true) : isBodyChar c = true := by
  simp [isBodyChar, h]

theorem forall_mem_commaed (before after : Nat → Blanks) (names : List Name) :
    ∀ c ∈ commaed before after names, isBodyChar c = true := by
  induction names generalizing before after with
  | nil => exact fun c member => absurd member List.not_mem_nil
  | cons name names ih =>
    have named : ∀ c ∈ name.chars, isBodyChar c = true :=
      fun c member => isBodyChar_of_isNameChar (name.named c member)
    cases names with
    | nil => exact named
    | cons next names =>
      have comma : isBodyChar ',' = true := by simp [isBodyChar]
      have earlier := fun c member => isBodyChar_of_isBlank ((before 0).blank c member)
      have later := fun c member => isBodyChar_of_isBlank ((after 0).blank c member)
      rw [commaed]
      simp only [List.forall_mem_append, List.forall_mem_cons]
      exact ⟨named, earlier, comma, later, ih _ _⟩

theorem forall_mem_spaced (gap : Nat → Gap) (parts : List (List Char))
    (body : ∀ part ∈ parts, ∀ c ∈ part, isBodyChar c = true) :
    ∀ c ∈ spaced gap parts, isBodyChar c = true := by
  induction parts generalizing gap with
  | nil => exact fun c member => absurd member List.not_mem_nil
  | cons part parts ih =>
    obtain ⟨here, rest⟩ := List.forall_mem_cons.mp body
    cases parts with
    | nil => exact here
    | cons next parts =>
      have between := fun c member => isBodyChar_of_isBlank ((gap 0).blank c member)
      rw [spaced]
      simp only [List.forall_mem_append]
      exact ⟨here, between, ih _ rest⟩

end Phrasebook.Call
