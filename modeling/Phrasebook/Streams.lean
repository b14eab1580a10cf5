import Std.Data.ExtTreeMap
import Phrasebook.Stream

/-! Named streams of text and the groups that route writing into them.
The group `main` lies under all others and is never closed. The topmost group decides which open
groups receive what is written; several groups may share one stream, which then receives it once. -/
namespace Phrasebook

/-- How far writing reaches from the topmost group: all open groups, the run of internal groups at
the top, or that group alone. -/
inductive Visibility where
  | shared
  | internal
  | exclusive
deriving Repr, DecidableEq

structure Group where
  name : String
  visibility : Visibility
deriving Repr, DecidableEq

/-- A leading dot makes a group exclusive and a leading underscore internal. -/
def Group.ofRaw : List Char → Group
  | '.' :: name => ⟨String.ofList name, .exclusive⟩
  | '_' :: name => ⟨String.ofList name, .internal⟩
  | name => ⟨String.ofList name, .shared⟩

/-- A place in a stream, counted in bytes of its UTF-8 form. -/
structure Mark where
  stream : String
  offset : Nat
deriving Repr, DecidableEq

structure Output where
  texts : Std.ExtTreeMap String String
deriving BEq

namespace Output

def text? (o : Output) (name : String) : Option String := o.texts[name]?

def main (o : Output) : String := (o.text? "main").getD ""

def names (o : Output) : List String := o.texts.keys

end Output

/-- The streams by name, and the open groups above `main`, innermost first. -/
structure Streams where
  byName : Std.ExtTreeMap String Stream
  inner : List Group

namespace Streams

def mainGroup : Group := ⟨"main", .shared⟩

def empty : Streams := ⟨(∅ : Std.ExtTreeMap String Stream).insert "main" Stream.empty, []⟩

def groups (s : Streams) : List Group := s.inner ++ [mainGroup]

def top (s : Streams) : Group := s.inner.headD mainGroup

def depth (s : Streams) : Nat := s.groups.length

def text? (s : Streams) (name : String) : Option String := s.byName[name]?.map Stream.text

def push (s : Streams) (raw : List Char) : Streams :=
  let group := Group.ofRaw raw
  { byName := s.byName.insertIfNew group.name Stream.empty, inner := group :: s.inner }

def pop (s : Streams) : Option (Group × Streams) :=
  match s.inner with
  | [] => none
  | group :: inner => some (group, { s with inner })

/-- The groups that receive what is written, innermost first. -/
def receivers (s : Streams) : List Group :=
  match s.top.visibility with
  | .shared => s.groups
  | .internal => s.groups.takeWhile (·.visibility == .internal)
  | .exclusive => [s.top]

/-- The streams that receive what is written, each once. -/
def targets (s : Streams) : List String := (s.receivers.map Group.name).eraseDups

/-- Appends to one stream, which starts empty. -/
def append (text : String) (byName : Std.ExtTreeMap String Stream) (name : String) :
    Std.ExtTreeMap String Stream :=
  byName.alter name fun old => some ((old.getD Stream.empty).write text)

def write (s : Streams) (text : String) : Streams :=
  if text.isEmpty then s else { s with byName := s.targets.foldl (append text) s.byName }

def writeChar (s : Streams) (c : Char) : Streams := s.write (String.singleton c)

def marks (s : Streams) : List Mark :=
  s.targets.map fun name => ⟨name, (s.byName[name]?.getD Stream.empty).size⟩

def insertAt (s : Streams) (marks : List Mark) (insertion : String) : Streams :=
  { s with
    byName := marks.foldl
      (fun byName mark => byName.modify mark.stream (·.splice mark.offset insertion)) s.byName }

def finish (s : Streams) : Output := ⟨s.byName.map fun _ stream => stream.text⟩

end Streams

end Phrasebook
