import Phrasebook.Book
import Phrasebook.Proofs.Structure.Copying
import Phrasebook.Proofs.Substitution.Unlimited

/-! Values of globals in generated text.
A reference to a global that has a value comes out as that value, character for character, and
leaves nothing else behind. -/
namespace Phrasebook

theorem Streams.finish_write_empty (text : String) :
    (empty.write text).finish = ⟨(∅ : Std.ExtTreeMap String String).insert "main" text⟩ := by
  have targets : empty.targets = ["main"] := rfl
  have fresh : Stream.empty.text = "" := rfl
  have main : (empty.write text).byName["main"]? = some (Stream.empty.write text) := by
    by_cases none : text = ""
    · rw [none]
      rfl
    · rw [getElem?_write, if_pos ⟨none, by simp [targets]⟩]
      rfl
  have others : ∀ name ≠ "main", (empty.write text).byName[name]? = none := by
    intro name other
    rw [getElem?_write, targets, if_neg (by simp [other])]
    simp [empty, other.symm]
  simp only [finish]
  congr 1
  apply Std.ExtTreeMap.ext_getElem?
  intro name
  rw [Std.ExtTreeMap.getElem?_map]
  by_cases same : name = "main"
  · subst same
    simp [main, Stream.text_write, fresh]
  · simp [others name same, Ne.symm same]

theorem Definitions.expand_value {d : Definitions} {name value : String}
    (known : d.values[name]? = some value) (named : name ≠ "")
    (trimmed : Text.trim name.toList = name.toList) (closed : ']' ∉ name.toList) :
    d.expand ("&[" ++ name ++ "]").toList = .ok (escapeLiteral value.toList) := by
  have same : String.ofList (Text.trim name.toList) = name := by
    rw [trimmed, String.ofList_toList]
  have text : ("&[" ++ name ++ "]").toList =
      Kind.global.sigil :: '[' :: (name.toList ++ [']']) := by
    rw [String.toList_append, String.toList_append]
    rfl
  rw [text, expand_eq_ok, expands_reference .global closed]
  refine ⟨[escapeLiteral value.toList], [], ?_, expands_nil.mpr rfl, by simp⟩
  simp only [Piece.names, List.map_cons, List.map_nil, same]
  exact mapM_cons_ok.mpr ⟨_, [], expandName_value named (Option.some_ne_none _).symm known, rfl, rfl⟩

namespace Book

/-- The reference gives the value in the main stream and nothing in any other. Of the book only the
notices of earlier calls go; flags, values and the generator stay as they are. -/
theorem interpret_value (b : Book) {name value : String} (g : Generator)
    (known : b.globalValue? name = some value) (named : name ≠ "")
    (trimmed : Text.trim name.toList = name.toList) (closed : ']' ∉ name.toList) :
    ∃ output, b.interpret g ("&[" ++ name ++ "]") = ⟨.ok output, b.clearNotices, g⟩ ∧
      output.main = value ∧ output.names = ["main"] := by
  have expanded := Definitions.expand_value (d := b.clearNotices.definitions) known named trimmed
    closed
  refine ⟨(Streams.empty.write value).finish, ?_, ?_, ?_⟩
  · simp only [interpret, run, substitute, expanded, Structure.evaluate_escapeLiteral,
      String.ofList_toList]
    rfl
  · rw [Streams.finish_write_empty]
    simp [Output.main, Output.text?]
  · rw [Streams.finish_write_empty]
    rfl

/-- Signs of every kind, digits that could be the number of a frequency, an escape, both characters
of a line end and U+0000. -/
def awkward : String :=
  "\x7b@~50%[a/b]\x7d \\ <x:+n[]> *7 ^[2][][$ls[f]] #[1-2] =[i] &[g] | \r\n\x00 5"

def awkwardBook : Book where
  lexicons := ∅
  anthologies := ∅
  glossary := .empty
  values := (∅ : Std.ExtTreeMap String String).insert "g" awkward
  flags := ∅
  notices := []
  lineBreak := defaultLineBreak
  depthLimit := 0

theorem interpret_value_awkward :
    awkwardBook.globalValue? "g" = some awkward ∧
      ∃ output, awkwardBook.interpret (Generator.ofSeed 7 0) "&[g]" =
          ⟨.ok output, awkwardBook.clearNotices, Generator.ofSeed 7 0⟩ ∧
        output.main = awkward ∧ output.names = ["main"] := by
  have known : awkwardBook.globalValue? "g" = some awkward := by
    simp [globalValue?, awkwardBook]
  exact ⟨known, interpret_value awkwardBook (Generator.ofSeed 7 0) known (by decide) (by decide)
    (by decide)⟩

end Book

end Phrasebook
