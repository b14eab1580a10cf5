import Phrasebook.Proofs.Selectors.Lockstep

/-! A selector runs one option.
The option is drawn where the selector opens, and everything after that is what the option does by
itself. A plus sign at the end of an option is the exception: it takes the slash for its symbol, and
the option after it is run as well. -/
namespace Phrasebook.Structure

open State (Alike)

variable {setting : Setting} {flags : Flags} {g : Generator} {first : List Char}
  {others : List (List Char)}

/-- The first step draws an option and goes to its start, where the run stands beside a run of what
is read on from there. -/
theorem exists_beside (setting : Setting) (flags : Flags) (g : Generator)
    (plain : ∀ option ∈ first :: others, ∀ c ∈ option, c ∉ landmarks) (several : others ≠ [])
    (numbered : 0 < (first :: others).length % 2 ^ 32) :
    ∃ s option later fence after,
      (State.start (selectorText first others) flags g).step setting = .ok s ∧
      (first :: others).drop (g.peek % ((first :: others).length % 2 ^ 32)) = option :: later ∧
      (fence = '/' ∨ fence = '}' ∧ after = []) ∧ Apart fence (readOn option later) ∧
      Beside fence after (readOn option later) s
        (State.start (readOn option later) flags g.advance) := by
  let s := (State.start (selectorText first others) flags g).moveTo 1
  let starts := 1 :: laterStarts (1 + first.length) others
  have count : starts.length = (first :: others).length := by
    rw [List.length_cons, length_laterStarts, List.length_cons]
  rw [← count] at numbered
  have inside : g.peek % (starts.length % 2 ^ 32) < starts.length :=
    Nat.lt_of_lt_of_le (Nat.mod_lt _ numbered) (Nat.mod_le _ _)
  have chosen : s.choose starts.length = .ok (⟨_, inside⟩, g.advance) :=
    Generator.oneOf_of_pos g numbered
  have tidy := fun option member => Tidy.chars (plain option member)
  have whole : s.reader.text.toList.drop 0 = selectorText first others ++ [] :=
    (List.append_nil _).symm
  have opened := openSelector_of_drop whole (tidy first List.mem_cons_self)
    (fun option member => tidy option (List.mem_cons_of_mem first member)) several starts rfl chosen
  have body : (selectorText first others).drop 1 = first ++ (slashed others ++ ['}']) :=
    List.append_assoc first (slashed others) ['}']
  have entered := List.getElem?_eq_getElem inside
  obtain ⟨option, later, drawn, left⟩ := drop_start body entered
  have plain_rest : ∀ part ∈ option :: later, ∀ c ∈ part, c ∉ landmarks := by
    intro part member
    rw [← drawn] at member
    exact plain part (List.mem_of_mem_drop member)
  obtain ⟨fence, after, split, ends, apart⟩ := exists_fence plain_rest
  rw [count] at drawn
  have last : 0 + 1 + (first ++ slashed others).length + 1 =
      (selectorText first others).toArray.size := by
    simp only [selectorText, List.size_toArray, List.length_append, List.length_cons,
      List.length_nil]
    omega
  refine ⟨_, option, later, fence, after, opened, drawn, ends, apart, ?_, rfl, ⟨_, rfl, last⟩, ?_⟩
  · exact (Reader.left_moveTo s.reader _).trans (left.trans split)
  · exact ⟨rfl, rfl, rfl, rfl, rfl, rfl, rfl, rfl, rfl, rfl, rfl, rfl⟩

/-- A selector with plain options does what the drawn option does by itself after the draw. If a
plus sign ends that option and another one follows, the run reads on as `readOn` says. Only the low
32 bits of the number of options count for the draw, and where they are zero it is refused. -/
theorem evaluate_selector (setting : Setting) (flags : Flags) (g : Generator)
    (plain : ∀ option ∈ first :: others, ∀ c ∈ option, c ∉ landmarks) (several : others ≠ []) :
    (2 ^ 32 ∣ (first :: others).length ∧
      (evaluate setting (selectorText first others) flags g).result =
        .error (.draw .zeroBound)) ∨
    ∃ option later,
      (first :: others).drop (g.peek % ((first :: others).length % 2 ^ 32)) = option :: later ∧
      (evaluate setting (selectorText first others) flags g).Alike
        (evaluate setting (readOn option later) flags g.advance) ∧
      (later = [] ∨ awaitsSymbol option = false → readOn option later = option) := by
  rcases Nat.eq_zero_or_pos ((first :: others).length % 2 ^ 32) with none_ | numbered
  · have whole := Nat.dvd_of_mod_eq_zero none_
    have tidy := fun option member => Tidy.chars (plain option member)
    exact .inl ⟨whole, evaluate_of_dvd setting (tidy first List.mem_cons_self)
      (fun option member => tidy option (List.mem_cons_of_mem first member)) whole flags g⟩
  obtain ⟨s, option, later, fence, after, stepped, drawn, ends, apart, beside⟩ :=
    exists_beside setting flags g plain several numbered
  refine .inr ⟨option, later, drawn, ?_, ?_⟩
  · apply evaluate_alike
    have more : (State.start (selectorText first others) flags g).reader.atEnd = false :=
      Reader.more_of_left (c := '{') rfl
    rw [State.finish_of_step more stepped]
    exact beside.endsAlike apart ends
  · rintro (rfl | complete)
    · rfl
    · cases later with
      | nil => rfl
      | cons next later => rw [readOn, complete, if_neg Bool.false_ne_true]

theorem evaluate_selector_hop :
    (evaluate ⟨∅, "\n"⟩ "{hop+n/skip}".toList ∅ (.ofSeed 0 0)).Alike
      (evaluate ⟨∅, "\n"⟩ "hop+n".toList ∅ (Generator.ofSeed 0 0).advance) := by
  have plain : ∀ option ∈ ["hop+n".toList, "skip".toList], ∀ c ∈ option, c ∉ landmarks := by
    have all : ["hop+n".toList, "skip".toList].all (·.all (!landmarks.contains ·)) = true := by
      decide
    simpa using all
  have runs := evaluate_selector ⟨∅, "\n"⟩ ∅ (.ofSeed 0 0) plain (List.cons_ne_nil _ _)
  obtain ⟨option, later, drawn, alike, complete⟩ := runs.resolve_left fun refused =>
    absurd refused.1 (by decide)
  have zero : (Generator.ofSeed 0 0).peek % 2 = 0 := by decide +kernel
  obtain ⟨rfl, rfl⟩ : "hop+n".toList = option ∧ ["skip".toList] = later := by
    simpa [zero] using drawn
  rw [complete (.inr (by decide))] at alike
  exact alike

theorem evaluate_of_ended {text : List Char} {n : Nat} {s : State}
    (run : State.advance? setting n (State.start text flags g) = some s)
    (ended : s.reader.atEnd = true) :
    evaluate setting text flags g =
      ⟨.ok s.streams.finish, s.globalFlags, s.warnings.reverse, s.generator⟩ :=
  State.evaluate_of_reaches (State.reaches_of_advance? run) ended

/-- The option `a+` is drawn, but the run also writes the option after it. -/
theorem selector_reads_on :
    ["a+".toList, "b".toList].drop ((Generator.ofSeed 0 0).peek % 2) = ["a+".toList, "b".toList] ∧
    ¬ (evaluate ⟨∅, "\n"⟩ "{a+/b}".toList ∅ (.ofSeed 0 0)).Alike
        (evaluate ⟨∅, "\n"⟩ "a+".toList ∅ (Generator.ofSeed 0 0).advance) := by
  have run : (State.advance? ⟨∅, "\n"⟩ 5 (.start "{a+/b}".toList ∅ (.ofSeed 0 0))).map
      (fun s => (s.reader.atEnd, s.streams.finish.main)) = some (true, "ab") := by
    decide +kernel
  have alone : (State.advance? ⟨∅, "\n"⟩ 2
      (.start "a+".toList ∅ (Generator.ofSeed 0 0).advance)).map
      (fun s => (s.reader.atEnd, s.streams.finish.main)) = some (true, "a") := by
    decide +kernel
  refine ⟨by decide +kernel, ?_⟩
  obtain ⟨s, ran, ends⟩ := Option.map_eq_some_iff.mp run
  obtain ⟨t, ran', ends'⟩ := Option.map_eq_some_iff.mp alone
  obtain ⟨ended, written⟩ := Prod.mk.inj ends
  obtain ⟨ended', written'⟩ := Prod.mk.inj ends'
  rw [evaluate_of_ended ran ended, evaluate_of_ended ran' ended']
  intro alike
  have same : s.streams.finish = t.streams.finish := alike.result.of_ok
  have mains : "ab" = "a" := written.symm.trans ((congrArg Output.main same).trans written')
  exact absurd mains (by decide)

end Phrasebook.Structure
