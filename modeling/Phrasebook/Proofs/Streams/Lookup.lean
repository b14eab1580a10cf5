import Mathlib.Data.List.Nodup
import Phrasebook.Streams

/-! The streams by name, before and after an operation.
Streams are equal where every name has the same text and the same groups are open. -/
namespace Phrasebook

namespace Stream

variable {s u : Stream}

theorem eq_of_reversed (h : s.reversed = u.reversed) : s = u := by
  have size : s.size = u.size := by rw [s.size_eq, u.size_eq, h]
  cases s
  cases u
  cases h
  cases size
  rfl

theorem reversed_write (s : Stream) (text : String) :
    (s.write text).reversed = text.toList.reverse ++ s.reversed :=
  reversed_foldl_put s text.toList

theorem write_append (s : Stream) (text more : String) :
    s.write (text ++ more) = (s.write text).write more := by
  apply eq_of_reversed
  simp [reversed_write]

end Stream

namespace Streams

open Std (ExtTreeMap)

/-- What may be done with the streams of a run. -/
inductive Operation where
  | push (raw : List Char)
  | pop
  | write (text : String)
  | writeChar (c : Char)
  | insert (marks : List Mark) (text : String)
deriving Repr, DecidableEq

/-- Anything but an insertion. -/
def Operation.Plain (op : Operation) : Prop := ∀ marks text, op ≠ insert marks text

def perform (s : Streams) : Operation → Streams
  | .push raw => s.push raw
  | .pop => (s.pop.map Prod.snd).getD s
  | .write text => s.write text
  | .writeChar c => s.writeChar c
  | .insert marks text => s.insertAt marks text

def performAll (s : Streams) (history : List Operation) : Streams := history.foldl perform s

variable {s u : Streams} {name : String}

theorem eq_of_getElem? (streams : ∀ name : String, s.byName[name]? = u.byName[name]?)
    (inner : s.inner = u.inner) : s = u := by
  cases s
  cases u
  cases inner
  congr
  exact ExtTreeMap.ext_getElem? streams

theorem nodup_eraseDups (names : List String) : names.eraseDups.Nodup := by
  induction size : names.length using Nat.strongRecOn generalizing names with
  | ind n ih =>
    cases names with
    | nil => simp
    | cons name names =>
      have shorter : (names.filter fun other => !other == name).length < n := by
        have := List.length_filter_le (fun other => !other == name) names
        rw [← size, List.length_cons]
        omega
      rw [List.eraseDups_cons, List.nodup_cons]
      constructor
      · simp [List.mem_eraseDups]
      · exact ih _ shorter _ rfl

theorem nodup_targets (s : Streams) : s.targets.Nodup := nodup_eraseDups _

/-- Changes at distinct names, one name after the other, leave each of them changed once. -/
theorem getElem?_foldl {change : ExtTreeMap String Stream → String → ExtTreeMap String Stream}
    {f : String → Option Stream → Option Stream}
    (one : ∀ byName other (name : String), (change byName other)[name]? =
      if other = name then f name byName[name]? else byName[name]?)
    {names : List String} (distinct : names.Nodup) (byName : ExtTreeMap String Stream)
    (name : String) :
    (names.foldl change byName)[name]? =
      if name ∈ names then f name byName[name]? else byName[name]? := by
  induction names generalizing byName with
  | nil => simp
  | cons first names ih =>
    rw [List.nodup_cons] at distinct
    rw [List.foldl_cons, ih distinct.2, one]
    by_cases same : first = name
    · subst same
      simp [distinct.1]
    · simp [same, Ne.symm same]

/-- What a stream has, or nothing if there is no such stream. -/
def stream (s : Streams) (name : String) : Stream := s.byName[name]?.getD Stream.empty

theorem stream_eq {now : Stream} (present : s.byName[name]? = some now) : s.stream name = now := by
  rw [stream, present, Option.getD_some]

@[simp] theorem write_empty (s : Streams) : s.write "" = s := rfl

@[simp] theorem inner_write (s : Streams) (text : String) : (s.write text).inner = s.inner := by
  unfold write
  split <;> rfl

@[simp] theorem targets_write (s : Streams) (text : String) :
    (s.write text).targets = s.targets := by
  unfold write
  split <;> rfl

theorem getElem?_write (s : Streams) (text name : String) :
    (s.write text).byName[name]? =
      if text ≠ "" ∧ name ∈ s.targets then some ((s.stream name).write text)
      else s.byName[name]? := by
  by_cases none : text = ""
  · simp [none]
  · have full : text.isEmpty = false := by simpa [Bool.eq_false_iff, String.isEmpty_iff] using none
    have one : ∀ byName other (name : String), (append text byName other)[name]? =
        if other = name then some ((byName[name]?.getD Stream.empty).write text)
        else byName[name]? := by
      intro byName other name
      rw [append, ExtTreeMap.getElem?_alter]
      by_cases same : other = name <;> simp [same]
    have each := getElem?_foldl (f := fun _ old => some ((old.getD Stream.empty).write text)) one
      s.nodup_targets s.byName name
    simp [write, full, none, each, stream]

theorem stream_write (target : name ∈ s.targets) (text : String) :
    (s.write text).stream name = (s.stream name).write text := by
  by_cases none : text = ""
  · rw [none]
    rfl
  · apply stream_eq
    rw [getElem?_write, if_pos ⟨none, target⟩]

theorem write_append (s : Streams) (text more : String) :
    s.write (text ++ more) = (s.write text).write more := by
  by_cases first : text = ""
  · simp [first]
  by_cases second : more = ""
  · simp [second]
  apply eq_of_getElem?
  · intro name
    by_cases target : name ∈ s.targets
    · simp [getElem?_write, first, second, target, stream_write target, Stream.write_append]
    · simp [getElem?_write, target]
  · simp

theorem getElem?_push (s : Streams) (raw : List Char) (name : String) :
    (s.push raw).byName[name]? =
      if (Group.ofRaw raw).name = name ∧ name ∉ s.byName then some Stream.empty
      else s.byName[name]? := by
  simp only [push, ExtTreeMap.getElem?_insertIfNew, Std.LawfulEqCmp.compare_eq_iff_eq]
  by_cases same : (Group.ofRaw raw).name = name
  · simp [same]
  · simp [same]

theorem perform_pop (s : Streams) : s.perform .pop = { s with inner := s.inner.tail } := by
  obtain ⟨byName, inner⟩ := s
  cases inner <;> rfl

theorem performAll_cons (s : Streams) (op : Operation) (later : List Operation) :
    s.performAll (op :: later) = (s.perform op).performAll later := rfl

theorem performAll_append (s : Streams) (history later : List Operation) :
    s.performAll (history ++ later) = (s.performAll history).performAll later :=
  List.foldl_append

end Streams

end Phrasebook
