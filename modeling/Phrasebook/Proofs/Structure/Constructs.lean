import Phrasebook.Proofs.Structure.Opening
import Phrasebook.Proofs.Structure.Simulation

/-! One simulation for each construct.
Its parts are any texts that a run simulates: what a construct does depends on their meaning and on
how searches pass over them, not on the terms that they come from. -/
namespace Phrasebook.Structure

open State (Reaches)

theorem sign_of_digit {c : Char} (h : c.isDigit = true) : Sign.ofChar c = .digit := by
  unfold Sign.ofChar
  split <;> first | contradiction | simp [h]

variable {setting : Setting} {salt : UInt64} {site : Site} {position : Nat} {sc : Scene}
  {u v : State} {t rest : List Char} {f : Nat → Scene → Scene}

theorem Simulates.block (body : Simulates setting salt t f) :
    Simulates setting salt (bracketed [] t) f :=
  simulates_opening.append (body.append simulates_closing)

/-- A step that depends on a condition enters the body of a block or jumps behind its bracket. -/
theorem Simulates.enteredOrSkipped {runs : Prop} [Decidable runs]
    (body : Simulates setting salt t f) (shown : Shows salt site position sc v) {start : Nat}
    (here : site.text.drop start = t ++ ']' :: rest)
    (inside : start + t.length + 1 ≤ site.text.length) (free : site.Free start (t.length + 1))
    (stepped : Reaches setting u (v.moveTo (if runs then start else start + t.length + 1))) :
    ∃ w, Reaches setting u w ∧ Shows salt site (start + t.length + 1)
      (if runs then f site.repetitions.length sc else sc) w := by
  by_cases entered : runs
  · simp only [if_pos entered] at stepped ⊢
    have split : site.text.drop start = (t ++ [']']) ++ rest := by
      rw [here, List.append_assoc]
      rfl
    have size : (t ++ [']']).length = t.length + 1 := List.length_append
    obtain ⟨w, across, after⟩ := (body.append simulates_closing) site start sc rest _
      (shown.moveTo (by omega)) split (by rwa [size])
    refine ⟨w, stepped.trans across, ?_⟩
    rwa [size, ← Nat.add_assoc] at after
  · simp only [if_neg entered] at stepped ⊢
    exact ⟨_, stepped, shown.moveTo inside⟩

theorem Simulates.frequency (percent : Percent) (tidy : Tidy t)
    (body : Simulates setting salt t f) :
    Simulates setting salt (bracketed (percent.val.digits ++ ['%']) t) fun depth sc =>
      if sc.draw.1 % 101 ≤ min percent.val.value 100 then f depth sc.draw.2 else sc.draw.2 := by
  intro site position sc rest u shown here free
  have ahead : site.text.drop position =
      percent.val.digits ++ '%' :: ('[' :: t ++ ']' :: rest) := by
    simpa [bracketed] using here
  have size : (bracketed (percent.val.digits ++ ['%']) t).length =
      percent.val.digits.length + 2 + (t.length + 1) := by
    simp [bracketed]
    omega
  have inside := fits shown.le_length here
  obtain ⟨c, digits, number⟩ := List.exists_cons_of_ne_nil percent.val.nonempty
  have first : site.text.drop position = c :: (digits ++ '%' :: ('[' :: t ++ ']' :: rest)) := by
    rw [ahead, number]
    rfl
  have sign := sign_of_digit (percent.val.decimal c (by simp [number]))
  have next := shown.next first
  have performed : (u.moveTo (position + 1)).perform setting c position =
      (u.moveTo (position + 1)).digit c position := by
    rw [State.perform, sign]
  have opened := digit_of_drop (c := c) percent (next.drop ahead) tidy.square
  have stepped := shown.step first (performed.trans opened)
  have peeked : (u.moveTo (position + 1)).generator.peek = sc.draw.1 :=
    congrArg Generator.peek shown.generator
  rw [peeked] at stepped
  rw [size] at inside free ⊢
  have block : site.text.drop (position + percent.val.digits.length + 2) = t ++ ']' :: rest :=
    drop_char (drop_char (drop_part ahead))
  obtain ⟨w, across, after⟩ := body.enteredOrSkipped next.drawn block (by omega)
    (free.part (by omega) (by omega)) stepped
  refine ⟨w, across, ?_⟩
  rwa [show position + (percent.val.digits.length + 2 + (t.length + 1)) =
    position + percent.val.digits.length + 2 + t.length + 1 by omega]

namespace Shows

theorem flags (shown : Shows salt site position sc u) (scope : FlagScope) :
    u.flags scope = sc.flags scope := by
  cases scope with
  | run => exact shown.localFlags
  | lasting => exact shown.globalFlags

theorem setFlags (shown : Shows salt site position sc u) (scope : FlagScope) (flags : Flags) :
    Shows salt site position (sc.setFlags scope flags) (u.setFlags scope flags) := by
  cases scope with
  | run => exact { shown with localFlags := rfl }
  | lasting => exact { shown with globalFlags := rfl }

end Shows

theorem flagFunction?_assign (scope : FlagScope) (present : Bool) :
    flagFunction? [scopeLetter scope, assignLetter present] =
      some (scope, if present then .set else .unset) := by
  cases scope <;> cases present <;> rfl

theorem flagFunction?_test (scope : FlagScope) (present : Bool) :
    flagFunction? [scopeLetter scope, testLetter present] =
      some (scope, if present then .whenSet else .whenUnset) := by
  cases scope <;> cases present <;> rfl

theorem simulates_assign (scope : FlagScope) (present : Bool) (flag : Name) :
    Simulates setting salt
      (bracketed ['$', scopeLetter scope, assignLetter present] flag.chars) fun _ sc =>
      sc.setFlags scope
        (if present then (sc.flags scope).insert flag.text
          else (sc.flags scope).erase flag.text) := by
  intro site position sc rest u shown here free
  have ahead : site.text.drop position =
      '$' :: scopeLetter scope :: assignLetter present :: ('[' :: flag.chars ++ ']' :: rest) := by
    simpa [bracketed] using here
  have size : (bracketed ['$', scopeLetter scope, assignLetter present] flag.chars).length =
      4 + flag.chars.length + 1 := by
    simp [bracketed]
    omega
  have inside := fits shown.le_length here
  have next := shown.next ahead
  have opened := flag_of_drop flag (next.drop ahead) (flagFunction?_assign scope present)
  rw [next.flags scope] at opened
  rw [size] at inside ⊢
  rw [← Nat.add_assoc, ← Nat.add_assoc] at inside ⊢
  cases present with
  | true => exact ⟨_, shown.step ahead opened, (next.setFlags scope _).moveTo inside⟩
  | false => exact ⟨_, shown.step ahead opened, (next.setFlags scope _).moveTo inside⟩

theorem Simulates.test (scope : FlagScope) (present : Bool) (flag : Name) (tidy : Tidy t)
    (body : Simulates setting salt t f) :
    Simulates setting salt
      (bracketed (bracketed ['$', scopeLetter scope, testLetter present] flag.chars) t)
      fun depth sc =>
        if (sc.flags scope).contains flag.text = present then f depth sc else sc := by
  intro site position sc rest u shown here free
  have ahead : site.text.drop position = '$' :: scopeLetter scope :: testLetter present ::
      ('[' :: flag.chars ++ ']' :: ('[' :: t ++ ']' :: rest)) := by
    simpa [bracketed] using here
  have size : (bracketed (bracketed ['$', scopeLetter scope, testLetter present] flag.chars)
      t).length = 4 + flag.chars.length + 2 + (t.length + 1) := by
    simp [bracketed]
    omega
  have inside := fits shown.le_length here
  have next := shown.next ahead
  have opened := flag_of_drop flag (next.drop ahead) (flagFunction?_test scope present)
  have block : site.text.drop (position + 4 + flag.chars.length + 1) = '[' :: t ++ ']' :: rest :=
    drop_char (drop_part (drop_char (drop_char (drop_char (drop_char ahead)))))
  have closed := Reader.blockEnd_of_drop .flagBody (next.drop block) tidy.square
  have performed : (u.moveTo (position + 1)).flag position =
      .ok ((u.moveTo (position + 1)).moveTo
        (if (sc.flags scope).contains flag.text = present then
            position + 4 + flag.chars.length + 2
          else position + 4 + flag.chars.length + 2 + t.length + 1)) := by
    rw [opened, next.flags scope]
    cases present <;> cases (sc.flags scope).contains flag.text <;>
      simp only [closed, bind, Except.bind] <;> rfl
  have stepped : Reaches setting u _ := shown.step ahead performed
  rw [size] at inside free ⊢
  obtain ⟨w, across, after⟩ := body.enteredOrSkipped next (drop_char block) (by omega)
    (free.part (by omega) (by omega)) stepped
  refine ⟨w, across, ?_⟩
  rwa [show position + (4 + flag.chars.length + 2 + (t.length + 1)) =
    position + 4 + flag.chars.length + 2 + t.length + 1 by omega]

theorem Simulates.group (visibility : Visibility) (name : Name) (tidy : Tidy t)
    (kept : ∀ depth sc, (f depth sc).streams.inner = sc.streams.inner)
    (body : Simulates setting salt t f) :
    Simulates setting salt ('<' :: (visibilityMark visibility ++ name.chars ++ ':' :: t) ++ ['>'])
      fun depth sc => (f depth (sc.enter ⟨name.text, visibility⟩)).leave sc := by
  intro site position sc rest u shown here free
  let header := visibilityMark visibility ++ name.chars
  have ahead : site.text.drop position = '<' :: (header ++ ':' :: t) ++ '>' :: rest := by
    simpa [header] using here
  have size : ('<' :: (header ++ ':' :: t) ++ ['>']).length =
      1 + header.length + 1 + t.length + 1 := by
    simp
    omega
  have inside := fits shown.le_length here
  rw [size] at inside free ⊢
  have next := shown.next ahead
  have opened := openGroup_of_drop name (next.drop ahead) tidy
  have stepped : Reaches setting u _ := shown.step ahead opened
  have behind : site.text.drop (position + 1 + header.length + 1) = t ++ '>' :: rest := by
    have named : site.text.drop (position + 1) = header ++ ':' :: (t ++ '>' :: rest) := by
      rw [drop_char ahead]
      simp
    exact drop_char (drop_part named)
  have entered : Shows salt site (position + 1 + header.length + 1)
      (sc.enter ⟨name.text, visibility⟩)
      ({ u.moveTo (position + 1) with
        streams := (u.moveTo (position + 1)).streams.push header }.moveTo
          (position + 1 + header.length + 1)) := by
    refine { next.moveTo (by omega) with streams := ?_ }
    have pushed : (u.moveTo (position + 1)).streams.push header = sc.streams.push header :=
      congrArg (Streams.push · header) shown.streams
    apply pushed.trans
    rw [Streams.push, ofRaw_name]
    rfl
  obtain ⟨v, across, after⟩ := body site _ _ _ _ entered behind (free.part (by omega) (by omega))
  have closer := drop_part behind
  have past := after.next closer
  have open' : (v.moveTo (position + 1 + header.length + 1 + t.length + 1)).streams.inner =
      ⟨name.text, visibility⟩ :: sc.streams.inner :=
    (congrArg Streams.inner after.streams).trans (kept _ _)
  have popped : (v.moveTo (position + 1 + header.length + 1 + t.length + 1)).closeGroup
      (position + 1 + header.length + 1 + t.length) =
      .ok { v.moveTo (position + 1 + header.length + 1 + t.length + 1) with
        streams := { v.streams with inner := sc.streams.inner } } := by
    unfold State.closeGroup Streams.pop
    rw [open']
    rfl
  refine ⟨_, (stepped.trans across).trans (after.step closer popped), ?_⟩
  rw [show position + (1 + header.length + 1 + t.length + 1) =
    position + 1 + header.length + 1 + t.length + 1 by omega]
  refine { past with streams := ?_ }
  rw [after.streams]
  rfl

section selector

variable {first : List Char} {others : List (List Char)} {run : Nat → Nat → Scene → Scene}

theorem Shows.leaveOption {close : Nat} {c : Char}
    (shown : Shows salt { site with selectors := close :: site.selectors } position sc v)
    (here : site.text.drop position = c :: rest) (inside : close + 1 ≤ site.text.length)
    (ending : c = '/' ∨ c = '}' ∧ position = close) :
    ∃ w, Reaches setting v w ∧ Shows salt site (close + 1) sc w := by
  have next := shown.next here
  have opened : (v.moveTo (position + 1)).selectors = close :: site.selectors := shown.selectors
  rcases ending with rfl | ⟨rfl, rfl⟩
  · have performed : (v.moveTo (position + 1)).slash '/' =
        { v.moveTo (position + 1) with selectors := site.selectors }.moveTo (close + 1) := by
      rw [State.slash, opened]
    refine ⟨_, shown.step here (congrArg Except.ok performed), ?_⟩
    exact { next.moveTo inside with selectors := rfl }
  · have performed : (v.moveTo (position + 1)).closeSelector position =
        .ok { v.moveTo (position + 1) with selectors := site.selectors } := by
      rw [State.closeSelector, opened]
    exact ⟨_, shown.step here performed, { next with selectors := rfl }⟩

theorem Shows.throughOption {start : Nat}
    (here : site.text.drop position = first ++ (slashed others ++ '}' :: rest))
    (inside : position + (first ++ slashed others).length + 1 ≤ site.text.length)
    (free : site.Free position (first ++ slashed others).length)
    (k : Nat) (inList : k < (first :: others).length)
    (option : Simulates setting salt (first :: others)[k] (run k))
    (starts : (position :: laterStarts (position + first.length) others)[k]? = some start)
    (shown : Shows salt { site with
      selectors := (position + (first ++ slashed others).length) :: site.selectors } start sc v) :
    ∃ w, Reaches setting v w ∧
      Shows salt site (position + (first ++ slashed others).length + 1)
        (run k site.repetitions.length sc) w := by
  obtain ⟨low, high, c, after, found, ending⟩ := drop_option here k inList start starts
  obtain ⟨w, across, behind⟩ := option _ start sc _ v shown found
    (free.part low high : site.Free start ((first :: others)[k]).length)
  obtain ⟨x, out, left⟩ := behind.leaveOption (drop_part found) inside ending
  exact ⟨x, across.trans out, left⟩

theorem Shows.enterOption (shown : Shows salt site position sc { u with tag := none })
    (g : Generator) (close : Nat) {start : Nat} (inside : start ≤ site.text.length) :
    Shows salt { site with selectors := close :: site.selectors } start
      { sc with generator := g }
      ({ u with generator := g, tag := none, selectors := close :: u.selectors }.moveTo start) := by
  have moved := shown.moveTo inside
  exact { moved with generator := rfl, selectors := congrArg (close :: ·) shown.selectors }

/-- A selector runs the option that `choose` answers with; the tag read before it is used up. -/
theorem Shows.selector (tidy : ∀ option ∈ first :: others, Tidy option) (several : others ≠ [])
    (options : ∀ k (inList : k < (first :: others).length),
      Simulates setting salt (first :: others)[k] (run k))
    (shown : Shows salt site position sc { u with tag := none })
    (here : site.text.drop position = selectorText first others ++ rest)
    (free : site.Free position (selectorText first others).length)
    {number : Nat} {g : Generator}
    (chosen : ∀ n, n = others.length + 1 →
      ∃ below : number < n, u.choose n = .ok (⟨number, below⟩, g)) :
    ∃ w, Reaches setting u w ∧
      Shows salt site (position + (selectorText first others).length)
        (run number site.repetitions.length { sc with generator := g }) w := by
  have size : (selectorText first others).length = 1 + (first ++ slashed others).length + 1 := by
    simp [selectorText]
    omega
  have inside := fits shown.le_length here
  rw [size] at inside free ⊢
  have ahead : site.text.drop position = '{' :: (first ++ (slashed others ++ '}' :: rest)) := by
    simpa [selectorText] using here
  let starts := (position + 1) :: laterStarts (position + 1 + first.length) others
  have count : starts.length = others.length + 1 := by
    rw [List.length_cons, length_laterStarts]
  obtain ⟨below, choice⟩ := chosen starts.length count
  have inList : number < (first :: others).length := by
    rw [List.length_cons]
    omega
  have found : starts[number]? = some (starts.get ⟨number, below⟩) :=
    List.getElem?_eq_getElem below
  have body : site.text.drop (position + 1) = first ++ (slashed others ++ '}' :: rest) :=
    drop_char ahead
  obtain ⟨_, high, _⟩ := drop_option body number inList _ found
  have opened := openSelector_of_drop (s := u.moveTo (position + 1)) (shown.drop here)
    (tidy first List.mem_cons_self)
    (fun option member => tidy option (List.mem_cons_of_mem _ member)) several starts rfl choice
  have stepped : Reaches setting u _ :=
    reaches_of_drop shown.position (shown.drop ahead) opened
  have start : starts.get ⟨number, below⟩ ≤ site.text.length := by omega
  have entered := shown.enterOption g (position + 1 + (first ++ slashed others).length) start
  obtain ⟨w, across, after⟩ := entered.throughOption body (by omega)
    (free.part (by omega) (by omega)) number inList (options number inList) found
  refine ⟨w, stepped.trans across, ?_⟩
  rwa [show position + (1 + (first ++ slashed others).length + 1) =
    position + 1 + (first ++ slashed others).length + 1 by omega]

theorem choose_tagged {s : State} {id : UInt64} {n : Nat} (tagged : s.tag = some id)
    (positive : 0 < n) :
    s.choose n =
      .ok (⟨Frame.value ⟨s.salt, id.toInt64⟩ % n, Nat.mod_lt _ positive⟩, s.generator) := by
  rw [State.choose, tagged]
  exact dif_pos positive

theorem Simulates.selector (tag : Option Tag) (tidy : ∀ option ∈ first :: others, Tidy option)
    (several : others ≠ []) (narrow : tag = none → others.length + 1 < 2 ^ 32)
    (options : ∀ k (inList : k < (first :: others).length),
      Simulates setting salt (first :: others)[k] (run k)) :
    Simulates setting salt (tagText tag ++ selectorText first others) fun depth sc =>
      run (choice ⟨setting.lineBreak, salt⟩ (others.length + 1) tag sc).1 depth
        (choice ⟨setting.lineBreak, salt⟩ (others.length + 1) tag sc).2 := by
  intro site position sc rest u shown here free
  cases tag with
  | none =>
    have untagged : Shows salt site position sc { u with tag := none } := { shown with tag := rfl }
    apply untagged.selector tidy several options here free
    rintro n rfl
    refine ⟨Nat.mod_lt _ (Nat.succ_pos _), ?_⟩
    rw [State.choose, shown.tag, shown.generator]
    exact Generator.oneOf_of_lt _ (Nat.succ_pos _) (narrow rfl)
  | some id =>
    have split : site.text.drop position =
        '*' :: (id.val.digits ++ (selectorText first others ++ rest)) := by
      simpa [tagText] using here
    have brace : selectorText first others ++ rest =
        '{' :: ((first ++ slashed others) ++ '}' :: rest) := by
      simp [selectorText]
    have size : (tagText (some id) ++ selectorText first others).length =
        1 + id.val.digits.length + (selectorText first others).length := by
      simp [tagText]
      omega
    rw [size] at free ⊢
    have next := shown.next split
    have behind : site.text.drop (position + 1 + id.val.digits.length) =
        selectorText first others ++ rest := drop_part (drop_char split)
    have inside := fits next.le_length (drop_char split)
    have opened := readTag_of_drop id (next.drop (split.trans (by rw [brace])))
    have stepped : Reaches setting u _ := shown.step split opened
    let v := { u.moveTo (position + 1) with tag := some id.val.value.toUInt64 }.moveTo
      (position + 1 + id.val.digits.length)
    have tagged : Shows salt site (position + 1 + id.val.digits.length) sc { v with tag := none } :=
      { next.moveTo inside with tag := rfl }
    have chosen : ∀ n, n = others.length + 1 →
        ∃ below : Frame.value ⟨salt, Int64.ofNat id.val.value⟩ % (others.length + 1) < n,
          v.choose n = .ok (⟨_, below⟩, sc.generator) := by
      rintro n rfl
      have seed : v.salt = salt := shown.salt
      have source : v.generator = sc.generator := shown.generator
      refine ⟨Nat.mod_lt _ (Nat.succ_pos _), ?_⟩
      rw [← source]
      subst seed
      exact choose_tagged rfl (Nat.succ_pos _)
    obtain ⟨w, across, after⟩ := tagged.selector tidy several options behind
      (free.part (by omega) (by omega)) chosen
    refine ⟨w, stepped.trans across, ?_⟩
    rwa [← Nat.add_assoc, ← Nat.add_assoc]

end selector

end Phrasebook.Structure
