import Phrasebook.Proofs.Safety.Soundness
import Phrasebook.Proofs.Streams.Lookup

/-! Where writing goes.
The streams there are, and what each of them has, follow from the groups that were opened and
closed and from what was written in between. Nothing is lost, and nothing is written twice, also
where several open groups share a stream. -/
namespace Phrasebook.Streams

namespace Operation

/-- The groups above `main` that are open after an operation, innermost first. -/
def regroup (inner : List Group) : Operation → List Group
  | push raw => Group.ofRaw raw :: inner
  | pop => inner.tail
  | write _ | writeChar _ | insert .. => inner

def written? : Operation → Option String
  | write text => some text
  | writeChar c => some (String.singleton c)
  | push _ | pop | insert .. => none

/-- The stream of the group that an operation opens. -/
def opened? : Operation → Option String
  | push raw => some (Group.ofRaw raw).name
  | pop | write _ | writeChar _ | insert .. => none

end Operation

/-- A stream receives while these groups are open above `main`: it belongs to one of the groups, and
writing at the topmost group comes down to that one. -/
def Hears (inner : List Group) (name : String) : Prop :=
  ∃ above group below, inner ++ [mainGroup] = above ++ group :: below ∧ group.name = name ∧
    match (inner.headD mainGroup).visibility with
    | .shared => True
    | .internal => ∀ g ∈ above ++ [group], g.visibility = .internal
    | .exclusive => above = []

theorem mem_takeWhile_iff {p : Group → Bool} {groups : List Group} {group : Group} :
    group ∈ groups.takeWhile p ↔
      ∃ above below, groups = above ++ group :: below ∧ ∀ g ∈ above ++ [group], p g = true := by
  induction groups with
  | nil => simp
  | cons first groups ih =>
    constructor
    · intro member
      by_cases passes : p first = true
      · rw [List.takeWhile_cons_of_pos passes] at member
        rcases List.mem_cons.mp member with rfl | later
        · exact ⟨[], groups, rfl, by simpa using passes⟩
        · obtain ⟨above, below, rfl, run⟩ := ih.mp later
          exact ⟨first :: above, below, rfl, List.forall_mem_cons.mpr ⟨passes, run⟩⟩
      · rw [List.takeWhile_cons_of_neg passes] at member
        contradiction
    · rintro ⟨above, below, split, run⟩
      cases above with
      | nil =>
        cases split
        rw [List.takeWhile_cons_of_pos (run group (by simp))]
        exact List.mem_cons_self
      | cons head above =>
        cases split
        obtain ⟨passes, run⟩ := List.forall_mem_cons.mp run
        rw [List.takeWhile_cons_of_pos passes]
        exact List.mem_cons_of_mem _ (ih.mpr ⟨above, below, rfl, run⟩)

theorem groups_eq_cons (s : Streams) : ∃ below, s.groups = s.top :: below := by
  unfold groups top
  cases s.inner with
  | nil => exact ⟨[], rfl⟩
  | cons group inner => exact ⟨inner ++ [mainGroup], rfl⟩

theorem mem_receivers_iff (s : Streams) (group : Group) :
    group ∈ s.receivers ↔ ∃ above below, s.groups = above ++ group :: below ∧
      match s.top.visibility with
      | .shared => True
      | .internal => ∀ g ∈ above ++ [group], g.visibility = .internal
      | .exclusive => above = [] := by
  unfold receivers
  cases s.top.visibility with
  | shared => simp [List.mem_iff_append]
  | internal => simp only [mem_takeWhile_iff, beq_iff_eq]
  | exclusive =>
    obtain ⟨below, whole⟩ := s.groups_eq_cons
    constructor
    · intro member
      rw [List.mem_singleton.mp member]
      exact ⟨[], below, whole, rfl⟩
    · rintro ⟨_, below', split, rfl⟩
      rw [whole, List.nil_append] at split
      cases split
      exact List.mem_singleton_self _

/-- The streams that the groups select are those that hear. -/
theorem mem_targets_iff (s : Streams) (name : String) :
    name ∈ s.targets ↔ Hears s.inner name := by
  simp only [targets, List.mem_eraseDups, List.mem_map, mem_receivers_iff]
  constructor
  · rintro ⟨group, ⟨above, below, split, reached⟩, named⟩
    exact ⟨above, group, below, split, named, reached⟩
  · rintro ⟨above, group, below, split, named, reached⟩
    exact ⟨group, ⟨above, below, split, reached⟩, named⟩

instance (inner : List Group) (name : String) : Decidable (Hears inner name) :=
  decidable_of_iff _ (mem_targets_iff ⟨∅, inner⟩ name)

/-- The texts that a stream received, one for each time something was written while it heard. -/
def heard (name : String) : List Group → List Operation → List String
  | _, [] => []
  | inner, op :: later =>
    (if Hears inner name then op.written?.toList else []) ++ heard name (op.regroup inner) later

section perform

variable {s : Streams} {op : Operation} {history : List Operation} {name : String}

theorem inner_perform (s : Streams) (op : Operation) :
    (s.perform op).inner = op.regroup s.inner := by
  cases op with
  | push raw => rfl
  | pop => rw [perform_pop, Operation.regroup]
  | write text => exact inner_write s text
  | writeChar c => exact inner_write s (String.singleton c)
  | insert marks text => rfl

theorem inner_performAll (s : Streams) (history : List Operation) :
    (s.performAll history).inner = history.foldl Operation.regroup s.inner := by
  induction history generalizing s with
  | nil => rfl
  | cons op history ih => exact (ih (s.perform op)).trans (by rw [inner_perform, List.foldl_cons])

theorem Grounded.perform (plain : op.Plain) (h : s.Grounded) : (s.perform op).Grounded := by
  cases op with
  | push raw => exact h.push raw
  | pop =>
    unfold Streams.perform
    cases popped : s.pop with
    | none => exact h
    | some below => exact h.pop popped
  | write text => exact h.write text
  | writeChar c => exact h.write (String.singleton c)
  | insert marks text => exact absurd rfl (plain marks text)

theorem Grounded.mem_of_targets (h : s.Grounded) (target : name ∈ s.targets) :
    name ∈ s.byName := by
  obtain ⟨above, group, below, split, rfl, -⟩ := (mem_targets_iff s name).mp target
  exact h group (by rw [groups, split]; simp)

theorem stream_push (s : Streams) (raw : List Char) (name : String) :
    (s.push raw).stream name = s.stream name := by
  unfold stream
  rw [getElem?_push]
  split
  · rename_i fresh
    rw [Std.ExtTreeMap.getElem?_eq_none fresh.2]
    rfl
  · rfl

theorem text_stream_write (s : Streams) (text name : String) :
    ((s.write text).stream name).text =
      (s.stream name).text ++ String.join (if Hears s.inner name then [text] else []) := by
  simp only [← mem_targets_iff]
  by_cases target : name ∈ s.targets
  · simp [target, stream_write target, Stream.text_write]
  · have same : (s.write text).stream name = s.stream name := by
      unfold stream
      rw [getElem?_write, if_neg (by simp [target])]
    simp [target, same]

/-- An operation adds what it writes to the streams that hear, and nothing to any other. -/
theorem text_stream_perform (s : Streams) (plain : op.Plain) (name : String) :
    ((s.perform op).stream name).text =
      (s.stream name).text ++ String.join (heard name s.inner [op]) := by
  cases op with
  | push raw => simp [perform, stream_push, heard, Operation.written?]
  | pop =>
    have same : (s.perform .pop).stream name = s.stream name := by
      rw [perform_pop]
      rfl
    simp [same, heard, Operation.written?]
  | write text =>
    simp only [heard, List.append_nil]
    exact text_stream_write s text name
  | writeChar c =>
    simp only [heard, List.append_nil]
    exact text_stream_write s (String.singleton c) name
  | insert marks text => exact absurd rfl (plain marks text)

theorem mem_write (h : s.Grounded) (text name : String) :
    name ∈ (s.write text).byName ↔ name ∈ s.byName := by
  rw [Std.ExtTreeMap.mem_iff_isSome_getElem?, getElem?_write]
  split
  · rename_i written
    simp [h.mem_of_targets written.2]
  · rw [Std.ExtTreeMap.mem_iff_isSome_getElem?]

/-- An operation adds a stream where it opens a group that has none. -/
theorem mem_perform (plain : op.Plain) (h : s.Grounded) (name : String) :
    name ∈ (s.perform op).byName ↔ name ∈ s.byName ∨ op.opened? = some name := by
  cases op with
  | push raw => simp [perform, push, Operation.opened?, or_comm]
  | pop =>
    have same : (s.perform .pop).byName = s.byName := by rw [perform_pop]
    simp [same, Operation.opened?]
  | write text =>
    simp only [Operation.opened?, reduceCtorEq, or_false]
    exact mem_write h text name
  | writeChar c =>
    simp only [Operation.opened?, reduceCtorEq, or_false]
    exact mem_write h (String.singleton c) name
  | insert marks text => exact absurd rfl (plain marks text)

theorem text_stream_performAll (s : Streams) (plain : ∀ op ∈ history, op.Plain) (name : String) :
    ((s.performAll history).stream name).text =
      (s.stream name).text ++ String.join (heard name s.inner history) := by
  induction history generalizing s with
  | nil => simp [performAll, heard]
  | cons op history ih =>
    rw [List.forall_mem_cons] at plain
    have first := text_stream_perform s plain.1 name
    have later := ih (s.perform op) plain.2
    rw [inner_perform] at later
    simp only [heard, List.append_nil, String.join_append] at first ⊢
    rw [← String.append_assoc, ← first]
    exact later

theorem mem_performAll (plain : ∀ op ∈ history, op.Plain) (h : s.Grounded) (name : String) :
    name ∈ (s.performAll history).byName ↔
      name ∈ s.byName ∨ ∃ op ∈ history, op.opened? = some name := by
  induction history generalizing s with
  | nil => simp [performAll]
  | cons op history ih =>
    rw [List.forall_mem_cons] at plain
    have later := ih plain.2 (h.perform plain.1)
    rw [mem_perform plain.1 h] at later
    simpa [performAll, or_assoc] using later

theorem mem_empty (name : String) : name ∈ empty.byName ↔ name = "main" := by
  simp only [empty, Std.ExtTreeMap.mem_insert, Std.LawfulEqCmp.compare_eq_iff_eq,
    Std.ExtTreeMap.not_mem_empty, or_false]
  exact eq_comm

theorem text_stream_empty (name : String) : (empty.stream name).text = "" := by
  have none : empty.stream name = Stream.empty := by
    simp only [stream, empty, Std.ExtTreeMap.getElem?_insert]
    split <;> simp
  rw [none]
  rfl

theorem text?_eq_some_iff (s : Streams) (name text : String) :
    s.text? name = some text ↔ name ∈ s.byName ∧ text = (s.stream name).text := by
  rw [Std.ExtTreeMap.mem_iff_isSome_getElem?, text?, stream]
  cases s.byName[name]? with
  | none => simp
  | some found => simp [eq_comm]

end perform

/-- The streams after any operations without insertions are `main` and those that were opened. Each
has the texts that were written while it heard, in order and once each, and `main` still lies under
all groups. -/
theorem performAll_routed (history : List Operation) (plain : ∀ op ∈ history, op.Plain) :
    (∀ name text, (empty.performAll history).text? name = some text ↔
      (name = "main" ∨ ∃ op ∈ history, op.opened? = some name) ∧
        text = String.join (heard name [] history)) ∧
    (empty.performAll history).groups = history.foldl Operation.regroup [] ++ [mainGroup] ∧
    (empty.performAll history).targets.Nodup ∧
    ∀ name, name ∈ (empty.performAll history).targets ↔
      Hears (history.foldl Operation.regroup []) name := by
  have opened : (empty.performAll history).inner = history.foldl Operation.regroup [] :=
    inner_performAll empty history
  refine ⟨?_, ?_, nodup_targets _, ?_⟩
  · intro name text
    rw [text?_eq_some_iff, mem_performAll plain grounded_empty,
      text_stream_performAll empty plain, mem_empty, text_stream_empty, String.empty_append]
    rfl
  · rw [groups, opened]
  · intro name
    rw [mem_targets_iff, opened]

/-- Groups that hide the outer ones or are themselves named `main`, and one pop too many. -/
def overlapping : List Operation :=
  [.write "a", .push "_x".toList, .write "b", .push "main".toList, .writeChar 'c', .pop, .pop, .pop,
    .write "d"]

theorem performAll_routed_overlapping :
    (∀ op ∈ overlapping, op.Plain) ∧ (empty.performAll overlapping).text? "main" = some "acd" ∧
      (empty.performAll overlapping).text? "x" = some "bc" := by
  have plain : ∀ op ∈ overlapping, op.Plain := by simp [overlapping, Operation.Plain]
  have texts := (performAll_routed overlapping plain).1
  refine ⟨plain, (texts "main" "acd").mpr ⟨.inl rfl, ?_⟩, (texts "x" "bc").mpr ⟨.inr ?_, ?_⟩⟩
  · decide +kernel
  · exact ⟨.push "_x".toList, by decide, by decide⟩
  · decide +kernel

end Phrasebook.Streams
