import Phrasebook.Proofs.Structure.Repeating

/-! Runs of printed terms agree with the meaning of the terms.
The induction is over the term; each construct brings its own simulation, and a whole run is the
simulation of the whole text from the start state. -/
namespace Phrasebook.Structure

theorem Item.print_ne_nil (item : Item) : item.print ≠ [] := by
  cases item <;> simp [Item.print, bracketed, selectorText]

theorem runTerm_of_print_nil {term : List Item} (h : printTerm term = []) (given : Given)
    (depth : Nat) (sc : Scene) : runTerm given depth term sc = sc := by
  cases term with
  | nil => rfl
  | cons item term =>
    rw [printTerm, List.append_eq_nil_iff] at h
    exact absurd h.1 item.print_ne_nil

theorem length_printOptions (options : List (List Item)) :
    (printOptions options).length = options.length := by
  induction options with
  | nil => rfl
  | cons option options ih => rw [printOptions, List.length_cons, List.length_cons, ih]

/-- The option of a number, where the first two stand apart. -/
def runNumbered (given : Given) (first second : List Item) (others : List (List Item)) :
    Nat → Nat → Scene → Scene
  | 0, depth => runTerm given depth first
  | 1, depth => runTerm given depth second
  | i + 2, depth => runOption given depth others i

variable {setting : Setting} {salt : UInt64}

theorem runNumbered_choice {given : Given} {first second : List Item}
    {others : List (List Item)} {tag : Option Tag} {depth : Nat} {sc : Scene} :
    runNumbered given first second others
        (choice given (others.length + 2) tag sc).1 depth
        (choice given (others.length + 2) tag sc).2 =
      (Item.selector tag first second others).run given depth sc := by
  rw [Item.run]
  split <;> rename_i chosen <;> rw [chosen] <;> rfl

mutual

theorem Item.simulates : (item : Item) → item.Narrow →
    Simulates setting salt item.print fun depth => item.run ⟨setting.lineBreak, salt⟩ depth
  | .plain c, _ => by
    simp only [Item.print, Item.run]
    exact simulates_plain c
  | .escaped c, _ => by
    simp only [Item.print, Item.run]
    exact simulates_escaped c
  | .lineBreak, _ => by
    simp only [Item.print, Item.run]
    exact simulates_lineBreak
  | .block body, narrow => by
    simp only [Item.print, Item.run]
    exact (simulates_printTerm body narrow).block
  | .selector tag first second others, ⟨few, narrow, narrow', narrows⟩ => by
    have tidy : ∀ option ∈ printTerm first :: printTerm second :: printOptions others,
        Tidy option := tidy_printOptions (first :: second :: others)
    have options : ∀ k
        (inList : k < (printTerm first :: printTerm second :: printOptions others).length),
        Simulates setting salt
          (printTerm first :: printTerm second :: printOptions others)[k]
          (runNumbered ⟨setting.lineBreak, salt⟩ first second others k) := by
      intro k inList
      match k with
      | 0 => exact simulates_printTerm first narrow
      | 1 => exact simulates_printTerm second narrow'
      | i + 2 => exact simulates_printOptions others narrows i (by simpa using inList)
    have simulated := Simulates.selector tag tidy (List.cons_ne_nil _ _)
      (by simpa [length_printOptions] using few) options
    simp only [List.length_cons, length_printOptions, runNumbered_choice] at simulated
    rw [Item.print]
    exact simulated
  | .frequency percent body, narrow => by
    simp only [Item.print, Item.run]
    exact (simulates_printTerm body narrow).frequency percent (tidy_printTerm body)
  | .repetition times separator content, ⟨narrow, narrow'⟩ => by
    simp only [Item.print, Item.run]
    exact (simulates_printTerm separator narrow).repetition times (tidy_printTerm separator)
      (tidy_printTerm content) (fun h _ _ => runTerm_of_print_nil h _ _ _)
      (simulates_printTerm content narrow')
  | .assign scope present flag, _ => by
    simp only [Item.print, Item.run]
    exact simulates_assign scope present flag
  | .test scope present flag body, narrow => by
    simp only [Item.print, Item.run]
    exact (simulates_printTerm body narrow).test scope present flag (tidy_printTerm body)
  | .group visibility name body, narrow => by
    simp only [Item.print, Item.run]
    exact (simulates_printTerm body narrow).group visibility name (tidy_printTerm body)
      (inner_runTerm _ body)

theorem simulates_printTerm : (term : List Item) → NarrowTerm term →
    Simulates setting salt (printTerm term)
      fun depth => runTerm ⟨setting.lineBreak, salt⟩ depth term
  | [], _ => by
    simp only [printTerm, runTerm]
    exact .nil
  | item :: term, ⟨narrow, later⟩ => by
    simp only [printTerm, runTerm]
    exact (item.simulates narrow).append (simulates_printTerm term later)

theorem simulates_printOptions : (options : List (List Item)) → NarrowOptions options →
    (i : Nat) → (inList : i < (printOptions options).length) →
    Simulates setting salt (printOptions options)[i]
      fun depth => runOption ⟨setting.lineBreak, salt⟩ depth options i
  | [], _, _, inList => absurd inList (Nat.not_lt_zero _)
  | option :: _, ⟨narrow, _⟩, 0, _ => simulates_printTerm option narrow
  | _ :: options, ⟨_, narrows⟩, i + 1, inList =>
    simulates_printOptions options narrows i (Nat.lt_of_succ_lt_succ inList)

end

def plainItem (c : Char) (plain : c ∉ markup ∧ c.isDigit = false) : List Item := [.plain ⟨c, plain⟩]

def three : Times := ⟨⟨['3'], by decide, List.all_eq_true.mp rfl⟩, by decide⟩

def seven : Tag := ⟨⟨['7'], by decide, List.all_eq_true.mp rfl⟩, by decide⟩

/-- Three times one of two options, the second of which has a tagged selector in it. -/
def nested : List Item :=
  [.repetition three (plainItem ',' (by decide))
    [.selector none (plainItem 'a' (by decide))
      [.plain ⟨'-', by decide⟩, .selector (some seven) (plainItem 'b' (by decide))
        (plainItem 'c' (by decide)) []] []]]

/-- Terms must be narrow: of a multiple of 2 ^ 32 options none is chosen. -/
theorem evaluate_print_of_dvd (setting : Setting) (first second : List Item)
    (others : List (List Item)) (whole : 2 ^ 32 ∣ others.length + 2) (flags : Flags)
    (g : Generator) :
    (evaluate setting (Item.selector none first second others).print flags g).result =
      .error (.draw .zeroBound) := by
  rw [← length_printOptions] at whole
  exact evaluate_of_dvd setting (tidy_printTerm first) (tidy_printOptions (second :: others)) whole
    flags g

end Phrasebook.Structure
