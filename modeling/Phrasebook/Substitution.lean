import Phrasebook.Glossary
import Phrasebook.Text

/-! References to definitions and their replacement by bodies.
`=[a+b]` stands for the bodies of inline definitions and `&[g]` for a global: for its value as plain
text if it has one, else for its body. A reference names its definition up to the first closing
bracket; a backslash and the character after it are left alone. -/
namespace Phrasebook

/-- Characters with a meaning in patterns. -/
def structuralChars : List Char :=
  ['\\', '{', '}', '[', ']', '<', '>', '/', '|', '+', '^', '$', '#', '*', '~', '@', '=', '&', '%',
   '\r', '\n']

/-- Pattern text that stands for exactly these characters. -/
def escapeLiteral (text : List Char) : List Char :=
  text.flatMap fun c => if structuralChars.contains c then ['\\', c] else [c]

inductive SubstitutionError where
  | unknown (kind : Kind) (name : String)
  | selfReference (kind : Kind) (name : String)
  | unterminated (kind : Kind)
  | emptyName (kind : Kind)
  | tooDeep (limit : Nat)
deriving Repr, DecidableEq

def SubstitutionError.message : SubstitutionError → String
  | unknown kind name => s!"unknown {kind.label} '{name}'"
  | selfReference kind name => s!"{kind.label} '{name}' references itself"
  | unterminated kind => s!"malformed reference: unterminated {kind.label} reference"
  | emptyName kind => s!"malformed reference: empty {kind.label} name"
  | tooDeep limit => s!"definitions nested deeper than {limit} levels"

inductive Piece where
  | char (c : Char)
  | escape (rest : List Char)
  | reference (kind : Kind) (index : Nat) (name : List Char)
  | unterminated (kind : Kind) (index : Nat)
deriving Repr, DecidableEq

namespace Piece

def bracketed? : List Char → Option (List Char)
  | '[' :: body => some body
  | _ => none

theorem length_bracketed_lt {text body : List Char} (h : bracketed? text = some body) :
    body.length < text.length := by
  unfold bracketed? at h
  split at h
  · simp_all
  · simp at h

theorem length_after_lt {text name after : List Char} {separator : Char}
    (h : Text.cut? separator text = some (name, after)) : after.length < text.length := by
  have := congrArg List.length (Text.cut?_eq_some h)
  simp only [List.length_append, List.length_cons] at this
  omega

/-- The pieces of a text that begins at an index. An unterminated reference ends the list. -/
def scan (index : Nat) : List Char → List Piece
  | [] => []
  | c :: rest =>
    if c = '\\' then escape (rest.take 1) :: scan (index + 2) (rest.drop 1)
    else match Kind.ofSigil? c, h : bracketed? rest with
      | some kind, some body =>
        match h' : Text.cut? ']' body with
        | some (name, after) => reference kind index name :: scan (index + name.length + 3) after
        | none => [unterminated kind index]
      | _, _ => char c :: scan (index + 1) rest
termination_by text => text.length
decreasing_by
  · simp only [List.length_drop, List.length_cons]
    omega
  · have := length_after_lt h'
    have := length_bracketed_lt h
    simp only [List.length_cons]
    omega
  · simp

def names (kind : Kind) (text : List Char) : List String :=
  let parts := match kind with
    | .inline => Text.pieces '+' text
    | .global => [text]
  parts.map fun part => String.ofList (Text.trim part)

end Piece

structure Definitions where
  glossary : Glossary
  values : Std.ExtTreeMap String String
  /-- How many bodies may nest. -/
  depthLimit : Nat

namespace Definitions

/-- The replacement of one name: the value of a global as plain text, or what `enter` makes of the
body. -/
def resolve (d : Definitions)
    (enter : Kind → String → List Char → Except (SubstitutionError × Nat) (List Char))
    (kind : Kind) (name : String) : Except SubstitutionError (List Char) :=
  match kind, d.values[name]? with
  | .global, some value => .ok (escapeLiteral value.toList)
  | _, _ =>
    match d.glossary.body? kind name with
    | none => .error (.unknown kind name)
    | some body => (enter kind name body.toList).mapError Prod.fst

def expandName (d : Definitions)
    (enter : Kind → String → List Char → Except (SubstitutionError × Nat) (List Char))
    (parent : Option (Kind × String)) (kind : Kind) (name : String) :
    Except SubstitutionError (List Char) :=
  if name.isEmpty then .error (.emptyName kind)
  else if parent = some (kind, name) then .error (.selfReference kind name)
  else d.resolve enter kind name

def expandPiece (d : Definitions)
    (enter : Kind → String → List Char → Except (SubstitutionError × Nat) (List Char))
    (parent : Option (Kind × String)) : Piece → Except (SubstitutionError × Nat) (List Char)
  | .char c => .ok [c]
  | .escape rest => .ok ('\\' :: rest)
  | .unterminated kind index => .error (.unterminated kind, index)
  | .reference kind index text =>
    match (Piece.names kind text).mapM (d.expandName enter parent kind) with
    | .ok parts => .ok parts.flatten
    | .error e => .error (e, index)

/-- The expansion of a text with so many levels left, its own included. -/
def expandWithin (d : Definitions) :
    Nat → Option (Kind × String) → List Char → Except (SubstitutionError × Nat) (List Char)
  | 0, _, _ => .error (.tooDeep d.depthLimit, 0)
  | levels + 1, parent, text =>
    let enter := fun kind name body => d.expandWithin levels (some (kind, name)) body
    match (Piece.scan 0 text).mapM (d.expandPiece enter parent) with
    | .ok parts => .ok parts.flatten
    | .error e => .error e

/-- The text with every reference replaced, or an error and the index of the reference at fault.
A text without sigils is left as it is. -/
def expand (d : Definitions) (text : List Char) : Except (SubstitutionError × Nat) (List Char) :=
  if text.any fun c => (Kind.ofSigil? c).isSome then d.expandWithin (d.depthLimit + 1) none text
  else .ok text

/-- Enters the bodies of inline names one after the other; the flag turns false, and stays so, once
the levels run out. -/
def collectNames (d : Definitions)
    (enter : String → List Char → List String → List String × Bool) (parent : Option String) :
    List String → List String → List String × Bool
  | [], found => (found, true)
  | name :: names, found =>
    if parent = some name then d.collectNames enter parent names found
    else match d.glossary.body? .inline name with
      | none => d.collectNames enter parent names found
      | some body =>
        match enter name body.toList found with
        | (found, true) => d.collectNames enter parent names found
        | (found, false) => (found, false)

def collectPieces (d : Definitions)
    (enter : String → List Char → List String → List String × Bool) (parent : Option String) :
    List Piece → List String → List String × Bool
  | [], found => (found, true)
  | .reference .global _ text :: pieces, found =>
    let name := String.ofList (Text.trim text)
    let isNew := !name.isEmpty && !d.values.contains name && !found.contains name
    d.collectPieces enter parent pieces (if isNew then found ++ [name] else found)
  | .reference .inline _ text :: pieces, found =>
    match d.collectNames enter parent (Piece.names .inline text) found with
    | (found, true) => d.collectPieces enter parent pieces found
    | (found, false) => (found, false)
  | _ :: pieces, found => d.collectPieces enter parent pieces found

/-- Adds the globals without a value that a text names, in it or in the inline bodies it reaches. -/
def collectWithin (d : Definitions) :
    Nat → Option String → List Char → List String → List String × Bool
  | 0, _, _, found => (found, false)
  | levels + 1, parent, text, found =>
    d.collectPieces (fun name body => d.collectWithin levels (some name) body) parent
      (Piece.scan 0 text) found

/-- The globals without a value that a text needs, in order of first use. Bodies of globals are not
entered, and references that cannot be resolved are passed over. -/
def globalReferences (d : Definitions) (text : List Char) : List String :=
  (d.collectWithin (d.depthLimit + 1) none text []).1

end Definitions

end Phrasebook
