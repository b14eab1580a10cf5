import Mathlib.Data.List.Infix
import Phrasebook.Proofs.Streams.Lookup

/-! Insertion at remembered places.
What is put in where a stream ended at some time stands as if it had been written at that time,
whatever groups were opened and closed and whatever was written since. -/
namespace Phrasebook

namespace Stream

variable {s u : Stream}

theorem unwind_append (after later front : List Char) :
    unwind after (byteCount later) (later ++ front) = some (front, later.reverse ++ after) := by
  induction later generalizing after with
  | nil => simp [byteCount, unwind]
  | cons c later ih =>
    have wide : 0 < c.utf8Size := c.utf8Size_pos
    have size : byteCount (c :: later) = (c.utf8Size - 1 + byteCount later) + 1 := by
      simp only [byteCount]
      omega
    have left : c.utf8Size - 1 + byteCount later + 1 - c.utf8Size = byteCount later := by omega
    rw [size, List.cons_append, unwind, if_pos (by omega), left, ih]
    simp

/-- Where a stream still begins with what it was once, that is where an insertion finds its end. -/
theorem reversed_splice {later : List Char} (grown : s.reversed = later ++ u.reversed)
    (insertion : String) :
    (s.splice u.size insertion).reversed = later ++ insertion.toList.reverse ++ u.reversed := by
  have size : s.size = byteCount later + u.size := by
    rw [s.size_eq, u.size_eq, grown, byteCount_append]
  have behind : s.size - u.size = byteCount later := by omega
  have found : unwind [] (s.size - u.size) s.reversed = some (u.reversed, later.reverse) := by
    rw [behind, grown, unwind_append, List.append_nil]
  rw [splice, dif_pos (by omega)]
  split
  · rename_i unwound
    rw [found] at unwound
    cases unwound
    rw [reversed_foldl_put, reversed_write, List.reverse_reverse, List.append_assoc]
  · rename_i unwound
    rw [found] at unwound
    contradiction

theorem splice_size (s : Stream) (insertion : String) :
    s.splice s.size insertion = s.write insertion := by
  apply eq_of_reversed
  have none : s.reversed = [] ++ s.reversed := rfl
  simp [reversed_splice none, reversed_write]

theorem splice_write (grown : u.reversed <:+ s.reversed) (text insertion : String) :
    (s.write text).splice u.size insertion = (s.splice u.size insertion).write text := by
  obtain ⟨later, same⟩ := grown
  have further : (s.write text).reversed = (text.toList.reverse ++ later) ++ u.reversed := by
    rw [reversed_write, ← same, List.append_assoc]
  apply eq_of_reversed
  simp [reversed_splice further, reversed_splice same.symm, reversed_write]

end Stream

namespace Streams

open Std (ExtTreeMap)

variable {s u : Streams} {name : String}

theorem getElem?_insertAt (s u : Streams) (insertion name : String) :
    (s.insertAt u.marks insertion).byName[name]? =
      if name ∈ u.targets then s.byName[name]?.map (·.splice (u.stream name).size insertion)
      else s.byName[name]? := by
  have one : ∀ (byName : ExtTreeMap String Stream) other (name : String),
      (byName.modify other (·.splice (u.stream other).size insertion))[name]? =
        if other = name then
          byName[name]?.map fun (now : Stream) => now.splice (u.stream name).size insertion
        else byName[name]? := by
    intro byName other name
    rw [ExtTreeMap.getElem?_modify]
    by_cases same : other = name <;> simp [same]
  simp only [insertAt, marks, List.foldl_map]
  exact getElem?_foldl (f := fun name => Option.map (·.splice (u.stream name).size insertion)) one
    u.nodup_targets s.byName name

@[simp] theorem targets_insertAt (s : Streams) (marks : List Mark) (insertion : String) :
    (s.insertAt marks insertion).targets = s.targets := rfl

@[simp] theorem inner_insertAt (s : Streams) (marks : List Mark) (insertion : String) :
    (s.insertAt marks insertion).inner = s.inner := rfl

/-- Every stream that received at `u` is there, and it now begins with what it was at `u`. -/
def Grown (u s : Streams) : Prop :=
  ∀ name ∈ u.targets, ∃ before now, u.byName[name]? = some before ∧
    s.byName[name]? = some now ∧ before.reversed <:+ now.reversed

theorem Grown.stream {now : Stream} (h : Grown u s) (target : name ∈ u.targets)
    (present : s.byName[name]? = some now) : (u.stream name).reversed <:+ now.reversed := by
  obtain ⟨before, now', known, present', longer⟩ := h name target
  rw [present] at present'
  cases present'
  rwa [stream_eq known]

theorem grown_write {text : String} (full : text ≠ "") :
    Grown (s.write text) (s.write text) := by
  intro name target
  rw [targets_write] at target
  have present := getElem?_write s text name
  rw [if_pos ⟨full, target⟩] at present
  exact ⟨_, _, present, present, List.suffix_rfl⟩

theorem Grown.push (h : Grown u s) (raw : List Char) : Grown u (s.push raw) := by
  intro name target
  obtain ⟨before, now, known, present, longer⟩ := h name target
  have there : name ∈ s.byName := by simp [ExtTreeMap.mem_iff_isSome_getElem?, present]
  refine ⟨before, now, known, ?_, longer⟩
  rw [getElem?_push, if_neg (by simp [there]), present]

theorem Grown.write (h : Grown u s) (text : String) : Grown u (s.write text) := by
  intro name target
  obtain ⟨before, now, known, present, longer⟩ := h name target
  by_cases written : text ≠ "" ∧ name ∈ s.targets
  · refine ⟨before, now.write text, known, ?_, ?_⟩
    · rw [getElem?_write, if_pos written, stream_eq present]
    · rw [Stream.reversed_write]
      exact longer.trans (List.suffix_append _ _)
  · refine ⟨before, now, known, ?_, longer⟩
    rw [getElem?_write, if_neg written, present]

theorem Grown.perform {op : Operation} (plain : op.Plain) (h : Grown u s) :
    Grown u (s.perform op) := by
  cases op with
  | push raw => exact h.push raw
  | pop =>
    rw [perform_pop]
    exact h
  | write text => exact h.write text
  | writeChar c => exact h.write (String.singleton c)
  | insert marks text => exact absurd rfl (plain marks text)

theorem mem_insertAt (s u : Streams) (insertion name : String) :
    name ∈ (s.insertAt u.marks insertion).byName ↔ name ∈ s.byName := by
  simp only [ExtTreeMap.mem_iff_isSome_getElem?, getElem?_insertAt]
  split <;> simp

theorem push_insertAt (h : Grown u s) (raw : List Char) (insertion : String) :
    (s.insertAt u.marks insertion).push raw = (s.push raw).insertAt u.marks insertion := by
  apply eq_of_getElem?
  · intro name
    by_cases target : name ∈ u.targets
    · obtain ⟨before, now, -, present, -⟩ := h name target
      have there : name ∈ s.byName := by simp [ExtTreeMap.mem_iff_isSome_getElem?, present]
      simp only [getElem?_push, getElem?_insertAt, mem_insertAt, there, not_true_eq_false,
        and_false, if_false]
    · simp [getElem?_push, getElem?_insertAt, mem_insertAt, target]
  · rfl

theorem write_insertAt (h : Grown u s) (text insertion : String) :
    (s.insertAt u.marks insertion).write text = (s.write text).insertAt u.marks insertion := by
  apply eq_of_getElem?
  · intro name
    by_cases written : text ≠ "" ∧ name ∈ s.targets
    · by_cases target : name ∈ u.targets
      · obtain ⟨before, now, -, present, -⟩ := h name target
        have inserted : (s.insertAt u.marks insertion).byName[name]? =
            some (now.splice (u.stream name).size insertion) := by
          rw [getElem?_insertAt, if_pos target, present, Option.map_some]
        have swap := Stream.splice_write (h.stream target present) text insertion
        simp [getElem?_write, getElem?_insertAt, written, target, stream_eq inserted,
          stream_eq present, swap]
      · simp [getElem?_write, getElem?_insertAt, written, target, Streams.stream]
    · simp only [getElem?_write, getElem?_insertAt, targets_insertAt, if_neg written]
  · simp

/-- An operation does the same to the streams before an earlier insertion and after it. -/
theorem perform_insertAt {op : Operation} (plain : op.Plain) (h : Grown u s)
    (insertion : String) :
    (s.insertAt u.marks insertion).perform op = (s.perform op).insertAt u.marks insertion := by
  cases op with
  | push raw => exact push_insertAt h raw insertion
  | pop =>
    rw [perform_pop, perform_pop]
    rfl
  | write text => exact write_insertAt h text insertion
  | writeChar c => exact write_insertAt h (String.singleton c) insertion
  | insert marks text => exact absurd rfl (plain marks text)

section performAll

variable {history : List Operation}

theorem Grown.performAll (plain : ∀ op ∈ history, op.Plain) (h : Grown u s) :
    Grown u (s.performAll history) := by
  induction history generalizing s with
  | nil => exact h
  | cons op later ih =>
    rw [List.forall_mem_cons] at plain
    exact ih plain.2 (h.perform plain.1)

theorem performAll_insertAt (plain : ∀ op ∈ history, op.Plain) (h : Grown u s)
    (insertion : String) :
    (s.insertAt u.marks insertion).performAll history =
      (s.performAll history).insertAt u.marks insertion := by
  induction history generalizing s with
  | nil => rfl
  | cons op later ih =>
    rw [List.forall_mem_cons] at plain
    rw [performAll_cons, performAll_cons, perform_insertAt plain.1 h]
    exact ih plain.2 (h.perform plain.1)

end performAll

/-- What is put in where the streams end now is written to them. -/
theorem insertAt_marks (h : Grown s s) (insertion : String) :
    s.insertAt s.marks insertion = s.write insertion := by
  apply eq_of_getElem?
  · intro name
    rw [getElem?_insertAt, getElem?_write]
    by_cases target : name ∈ s.targets
    · obtain ⟨-, now, -, present, -⟩ := h name target
      rw [if_pos target, present, Option.map_some, stream_eq present, Stream.splice_size]
      by_cases none : insertion = ""
      · rw [if_neg (by simp [none]), none]
        rfl
      · rw [if_pos ⟨none, target⟩]
    · rw [if_neg target, if_neg (by simp [target])]
  · simp

/-- What is put in at places that were remembered might as well have been written at that time. -/
theorem performAll_insertAt_marks {history : List Operation} (plain : ∀ op ∈ history, op.Plain)
    (h : Grown u u) (insertion : String) :
    (u.performAll history).insertAt u.marks insertion = (u.write insertion).performAll history := by
  rw [← performAll_insertAt plain h, insertAt_marks h]

/-- The place of an insertion: behind what the stream was at `u`, before all that came later. -/
theorem text?_insertAt (h : Grown u s) (target : name ∈ u.targets) (insertion : String) :
    ∃ rest, s.text? name = some ((u.stream name).text ++ rest) ∧
      (s.insertAt u.marks insertion).text? name =
        some ((u.stream name).text ++ insertion ++ rest) := by
  obtain ⟨before, now, known, present, later, same⟩ := h name target
  refine ⟨String.ofList later.reverse, ?_, ?_⟩
  · rw [text?, present, stream_eq known, Option.map_some, Stream.text, Stream.text, ← same]
    simp
  · rw [text?, getElem?_insertAt, if_pos target, present, stream_eq known]
    simp [Stream.text, Stream.reversed_splice same.symm, String.append_assoc]

theorem text?_insertAt_other (other : name ∉ u.targets) (insertion : String) :
    (s.insertAt u.marks insertion).text? name = s.text? name := by
  rw [text?, getElem?_insertAt, if_neg other, text?]

end Streams

end Phrasebook
