import Phrasebook.Machine.Reading

/-! Calls and random numbers are parsed alike on a machine.
What the specification takes off the front of a text, the machine finds between two places of it. -/
namespace Phrasebook

theorem Call.block?_eq_some {closing : Char} {allowed : Char → Bool} {text body after : List Char}
    (h : block? closing allowed text = some (body, after)) : text = body ++ closing :: after := by
  induction text generalizing body with
  | nil => contradiction
  | cons c rest ih =>
    rw [block?] at h
    split at h
    · rename_i closed
      cases h
      rw [closed, List.nil_append]
    · split at h
      · obtain ⟨⟨b, a⟩, found, same⟩ := Option.map_eq_some_iff.mp h
        cases same
        rw [ih found, List.cons_append]
      · contradiction

theorem Call.length_of_block? {closing : Char} {allowed : Char → Bool} {text body after : List Char}
    (h : block? closing allowed text = some (body, after)) : body.length + 1 ≤ text.length := by
  rw [block?_eq_some h, List.length_append, List.length_cons]
  omega

theorem Call.squareBlock?_of_ne {allowed : Char → Bool} {c : Char} (h : c ≠ '[')
    (rest : List Char) : squareBlock? allowed (c :: rest) = some ([], 0, c :: rest) := by
  unfold squareBlock?
  split
  · rename_i same
    exact absurd (List.cons.inj same).1 h
  · rfl

theorem Call.carrierBlock?_of_ne {c : Char} (h : c ≠ '<') (rest : List Char) :
    carrierBlock? (c :: rest) = none := by
  unfold carrierBlock?
  split
  · rename_i same
    exact absurd (List.cons.inj same).1 h
  · rfl

theorem Call.modern?_of_ne {symbol c : Char} (h : ¬ (c = '[' ∧ isSymbol symbol = true))
    (rest : List Char) : modern? (symbol :: c :: rest) = none := by
  unfold modern?
  split
  · rename_i same
    cases same
    exact if_neg fun named => h ⟨rfl, named⟩
  · rfl

theorem Call.squareBlock?_eq_some {allowed : Char → Bool} {text body after : List Char}
    {length : Nat} (h : squareBlock? allowed text = some (body, length, after)) :
    ∃ block, text = block ++ after ∧ block.length = length := by
  unfold squareBlock? at h
  split at h
  · obtain ⟨⟨b, a⟩, found, same⟩ := Option.map_eq_some_iff.mp h
    cases same
    refine ⟨'[' :: (body ++ [']']), ?_, ?_⟩
    · rw [Call.block?_eq_some found]
      simp
    · simp
  · cases h
    exact ⟨[], rfl, rfl⟩

theorem Call.carrierBlock?_eq_some {text name : List Char} (h : carrierBlock? text = some name) :
    ∃ after, text = '<' :: (name ++ '>' :: after) ∧ name ≠ [] := by
  unfold carrierBlock? at h
  split at h
  · split at h
    · rename_i found
      cases h
      exact ⟨_, congrArg (List.cons '<') (Call.block?_eq_some found), List.cons_ne_nil _ _⟩
    · contradiction
  · contradiction

namespace Machine

variable {closing : Char} {allowed : Char → Bool} {before rest : List Char}

theorem scanBlock_eq {i : Nat} {text : List Char} (small : i + text.length < 2 ^ 64) :
    scanBlock closing allowed i text =
      .ok ((Call.block? closing allowed text).map fun found => i + found.1.length) := by
  induction text generalizing i with
  | nil => rfl
  | cons c text ih =>
    rw [List.length_cons] at small
    rw [scanBlock, Call.block?]
    split
    · rw [word_eq (by omega)]
      rfl
    · split
      · rw [ih (by omega), Option.map_map]
        refine congrArg (fun f => Except.ok (Option.map f _)) (funext fun found => ?_)
        simp only [Function.comp_apply, List.length_cons]
        omega
      · rfl

theorem blockStop_eq (small : (before ++ rest).length < 2 ^ 64) :
    blockStop (before ++ rest) before.length closing allowed =
      .ok ((Call.block? closing allowed rest).map fun found => before.length + found.1.length) := by
  rw [List.length_append] at small
  rw [blockStop, if_pos (by rw [List.length_append]; omega), List.drop_left, scanBlock_eq small]

theorem getElem?_behind (before rest : List Char) :
    (before ++ rest)[before.length]? = rest.head? := by
  rw [List.getElem?_append_right (Nat.le_refl _), Nat.sub_self, List.head?_eq_getElem?]

section block

variable {c : Char} {body after : List Char}

theorem blockStop_behind (small : (before ++ c :: rest).length < 2 ^ 63) :
    blockStop (before ++ c :: rest) (before.length + 1) closing allowed =
      .ok ((Call.block? closing allowed rest).map fun found =>
        before.length + 1 + found.1.length) := by
  have split : before ++ c :: rest = (before ++ [c]) ++ rest := by simp
  have place : (before ++ [c]).length = before.length + 1 := by simp
  rw [split] at small ⊢
  rw [← place]
  exact blockStop_eq (by omega)

theorem stretch_behind (found : Call.block? closing allowed rest = some (body, after)) :
    stretch (before ++ c :: rest) (before.length + 1) (before.length + 1 + body.length) =
      .ok body := by
  have split : before ++ c :: (body ++ closing :: after) =
      (before ++ [c]) ++ body ++ closing :: after := by simp
  have place : before.length + 1 = (before ++ [c]).length := by simp
  rw [Call.block?_eq_some found, split]
  exact stretch_eq place (by rw [place])

end block

theorem squareBlock_eq (small : (before ++ rest).length < 2 ^ 63) :
    squareBlock (before ++ rest) before.length allowed =
      .ok ((Call.squareBlock? allowed rest).map fun found =>
        (found.1, before.length + found.2.1)) := by
  rw [squareBlock, getElem?_behind]
  cases rest with
  | nil => rfl
  | cons c rest =>
    by_cases opened : c = '['
    · subst opened
      have fits := small
      rw [List.length_append, List.length_cons] at fits
      rw [List.head?_cons, if_pos rfl, word_eq (by omega), bind_ok, blockStop_behind small, bind_ok,
        Call.squareBlock?]
      cases found : Call.block? ']' allowed rest with
      | none => rfl
      | some found' =>
        obtain ⟨body, after⟩ := found'
        have bound := Call.length_of_block? found
        simp only [Option.map_some]
        rw [stretch_behind found, bind_ok, word_eq (by omega), bind_ok]
        refine congrArg (fun next => Except.ok (some (body, next))) ?_
        omega
    · rw [List.head?_cons, if_neg (by simpa using opened), Call.squareBlock?_of_ne opened]
      rfl

theorem carrierBlock_eq (small : (before ++ rest).length < 2 ^ 63) :
    carrierBlock (before ++ rest) before.length =
      .ok (Call.carrierBlock? rest,
        before.length + (Call.carrierBlock? rest).elim 0 (·.length + 2)) := by
  rw [carrierBlock, getElem?_behind]
  cases rest with
  | nil => rfl
  | cons c rest =>
    by_cases opened : c = '<'
    · subst opened
      have fits := small
      rw [List.length_append, List.length_cons] at fits
      rw [List.head?_cons, if_pos rfl, word_eq (by omega), bind_ok, blockStop_behind small, bind_ok,
        Call.carrierBlock?]
      cases found : Call.block? '>' Call.isNameChar rest with
      | none => rfl
      | some found' =>
        obtain ⟨name, after⟩ := found'
        have bound := Call.length_of_block? found
        simp only [Option.map_some]
        cases name with
        | nil =>
          rw [if_neg (by simp)]
          rfl
        | cons d name =>
          rw [if_pos (by simp), stretch_behind found, bind_ok, word_eq (by omega), bind_ok]
          refine congrArg (fun next => Except.ok (some (d :: name), next)) ?_
          simp only [Option.elim_some, List.length_cons]
          omega
    · rw [List.head?_cons, if_neg (by simpa using opened), Call.carrierBlock?_of_ne opened]
      rfl

theorem parseModern_eq {text : List Char} (small : text.length < 2 ^ 62) :
    parseModern ('+' :: text) = .ok (Call.modern? text) := by
  match text with
  | [] => rfl
  | [symbol] =>
    unfold parseModern Call.modern?
    simp
    rfl
  | symbol :: second :: rest =>
    have third : ('+' :: symbol :: second :: rest)[2]? = some second := rfl
    rw [parseModern, List.getElem?_cons_succ, List.getElem?_cons_zero]
    simp only [third]
    by_cases known : second = '[' ∧ Call.isSymbol symbol = true
    · obtain ⟨rfl, named⟩ := known
      rw [List.length_cons, List.length_cons] at small
      have total : (['+', symbol] ++ '[' :: rest).length < 2 ^ 63 := by
        simp only [List.length_append, List.length_cons, List.length_nil]
        omega
      have stop : blockStop ('+' :: symbol :: '[' :: rest) 3 ']' Call.isBodyChar = _ :=
        blockStop_behind total
      have test : (!Call.isSymbol symbol || some '[' != some '[') = false := by simp [named]
      simp only [test, Bool.false_eq_true, if_false]
      rw [stop, bind_ok, Call.modern?, if_pos named]
      cases found : Call.block? ']' Call.isBodyChar rest with
      | none => rfl
      | some found' =>
        obtain ⟨body, after⟩ := found'
        have bound := Call.length_of_block? found
        have behind : stretch (['+', symbol] ++ '[' :: rest) (['+', symbol].length + 1)
            (['+', symbol].length + 1 + body.length) = .ok body := stretch_behind found
        have cut : stretch ('+' :: symbol :: '[' :: rest) 3 (3 + body.length) = .ok body := behind
        simp only [Option.map_some, Option.bind_eq_bind, Option.bind_some]
        rw [show ['+', symbol].length + 1 = 3 from rfl, cut, bind_ok, word_eq (by omega)]
        cases Call.Parts.ofWords? (Text.words body) with
        | none => rfl
        | some parts =>
          simp only [Option.bind_some, bind_ok]
          rw [Nat.add_comm 3]
          rfl
    · have unnamed : (!Call.isSymbol symbol || some second != some '[') = true := by
        rw [Bool.or_eq_true]
        by_cases named : Call.isSymbol symbol = true
        · exact .inr (by simpa using fun bracket => known ⟨bracket, named⟩)
        · exact .inl (by simpa using named)
      simp only [unnamed, if_true, Call.modern?_of_ne known]
      rfl

theorem parseLegacy_eq {text : List Char} (small : text.length < 2 ^ 62) :
    parseLegacy ('+' :: text) = .ok (Call.legacy? text) := by
  have bound : (['+'] ++ text).length < 2 ^ 63 := by
    simp only [List.length_append, List.length_cons, List.length_nil]
    omega
  have classes : squareBlock ('+' :: text) 1 Call.isClassChar = _ := squareBlock_eq bound
  rw [parseLegacy, classes, bind_ok, Call.legacy?]
  cases found : Call.squareBlock? Call.isClassChar text with
  | none => rfl
  | some found' =>
    obtain ⟨className, classLength, rest⟩ := found'
    obtain ⟨block, rfl, rfl⟩ := Call.squareBlock?_eq_some found
    simp only [Option.map_some, Option.bind_eq_bind, Option.bind_some]
    have place : ['+'].length + block.length = ('+' :: block).length := by
      rw [List.length_cons, List.length_cons, List.length_nil]
      omega
    rw [place, show '+' :: (block ++ rest) = ('+' :: block) ++ rest from rfl,
      List.getElem?_append_right (Nat.le_refl _), Nat.sub_self]
    cases rest with
    | nil => rfl
    | cons symbol rest =>
      rw [List.getElem?_cons_zero]
      by_cases named : Call.isSymbol symbol = true
      · have split : ('+' :: block) ++ symbol :: rest = ('+' :: (block ++ [symbol])) ++ rest := by
          simp
        have next : ('+' :: block).length + 1 = ('+' :: (block ++ [symbol])).length := by simp
        have total : (('+' :: (block ++ [symbol])) ++ rest).length < 2 ^ 63 := by
          rw [← split, List.cons_append, List.length_cons]
          omega
        simp only [if_pos named]
        rw [next, word_eq (by rw [List.length_append] at total; omega), bind_ok, split,
          squareBlock_eq total, bind_ok]
        cases found : Call.squareBlock? Call.isNameChar rest with
        | none => rfl
        | some found' =>
          obtain ⟨subtype, subtypeLength, after⟩ := found'
          obtain ⟨middle, rfl, rfl⟩ := Call.squareBlock?_eq_some found
          simp only [Option.map_some, Option.bind_some]
          have front : ('+' :: (block ++ [symbol])) ++ (middle ++ after) =
              ('+' :: (block ++ [symbol]) ++ middle) ++ after := by simp
          have behind : ('+' :: (block ++ [symbol])).length + middle.length =
              ('+' :: (block ++ [symbol]) ++ middle).length := by
            rw [List.length_append]
          have length : ('+' :: (block ++ [symbol]) ++ middle).length =
              2 + block.length + middle.length := by
            simp only [List.length_append, List.length_cons, List.length_nil]
            omega
          rw [front] at total
          rw [front, behind, carrierBlock_eq total, bind_ok, length]
          rfl
      · simp only [if_neg named]
        rfl

theorem parseCall_eq {text : List Char} (small : text.length < 2 ^ 62) :
    parseCall text = .ok (Call.parse? text) := by
  cases text with
  | nil => rfl
  | cons c text =>
    rw [List.length_cons] at small
    by_cases plus : c = '+'
    · subst plus
      rw [parseCall, List.head?_cons, if_pos rfl, parseModern_eq (by omega), bind_ok, Call.parse?]
      cases Call.modern? text with
      | none => exact parseLegacy_eq (by omega)
      | some call => rfl
    · have nothing : Call.parse? (c :: text) = none := by
        unfold Call.parse?
        split
        · rename_i same
          exact absurd (List.cons.inj same).1 plus
        · rfl
      rw [parseCall, List.head?_cons, if_neg (by simpa using plus), nothing]
      rfl

theorem hyphenByte_eq (i : Nat) (text : List Char) :
    hyphenByte i text = (Text.cut? '-' text).map fun parts => i + byteCount parts.1 := by
  induction text generalizing i with
  | nil => rfl
  | cons c rest ih =>
    rw [hyphenByte, Text.cut?]
    split
    · rfl
    · rw [ih, Option.map_map]
      refine congrArg (Option.map · _) (funext fun parts => ?_)
      simp only [Function.comp_apply, byteCount]
      omega

theorem cutBytes_eq (before after : List Char) :
    cutBytes (byteCount before) (before ++ after) = .ok (before, after) := by
  induction before with
  | nil => cases after <;> rfl
  | cons c before ih =>
    have positive : 0 < c.utf8Size := c.utf8Size_pos
    obtain ⟨n, size⟩ : ∃ n, byteCount (c :: before) = n + 1 :=
      ⟨c.utf8Size + byteCount before - 1, by
        simp only [byteCount] at ih ⊢
        omega⟩
    have rest : n + 1 - c.utf8Size = byteCount before := by
      rw [← size, byteCount, Nat.add_sub_cancel_left]
    have fits : c.utf8Size ≤ n + 1 := by
      rw [← size, byteCount]
      omega
    rw [size, List.cons_append, cutBytes, if_pos fits, rest, ih]
    rfl

theorem numberRange_eq {body : List Char} (small : byteCount body < 2 ^ 63) :
    numberRange body = .ok (Phrasebook.numberRange body) := by
  cases body with
  | nil => rfl
  | cons c rest =>
    simp only [numberRange, Phrasebook.numberRange, hyphenByte_eq]
    cases cut : Text.cut? '-' rest with
    | none => rfl
    | some parts =>
      obtain ⟨low, high⟩ := parts
      have whole := Text.cut?_eq_some cut
      subst whole
      have hyphen : c.utf8Size + byteCount low = byteCount (c :: low) := rfl
      have behind : byteCount (c :: low) + 1 = byteCount (c :: low ++ ['-']) := by
        rw [byteCount_append]
        rfl
      have split : c :: low ++ '-' :: high = (c :: low ++ ['-']) ++ high := by simp
      have bound : byteCount (c :: low) + 1 ≤ byteCount (c :: (low ++ '-' :: high)) := by
        rw [behind, ← List.cons_append, split, byteCount_append _ high]
        exact Nat.le_add_right _ _
      have first := cutBytes_eq (c :: low) ('-' :: high)
      have second : cutBytes (byteCount (c :: low) + 1) (c :: low ++ '-' :: high) =
          .ok (c :: low ++ ['-'], high) := by
        rw [behind, split]
        exact cutBytes_eq _ _
      simp only [Option.map_some]
      rw [hyphen, ← List.cons_append, first, bind_ok, word_eq (by omega), bind_ok, second, bind_ok]
      cases Text.integer? (Text.trim (c :: low)) with
      | none => rfl
      | some min => cases Text.integer? (Text.trim high) <;> rfl

end Machine

theorem Call.length_of_modern? {text : List Char} {call : Call} (h : modern? text = some call) :
    call.length ≤ text.length + 1 := by
  unfold modern? at h
  split at h
  · split at h
    · simp only [bind, Option.bind_eq_some_iff, pure, Option.some.injEq] at h
      obtain ⟨⟨body, after⟩, found, _, _, rfl⟩ := h
      have whole := block?_eq_some found
      simp only [List.length_cons, whole, List.length_append]
      omega
    · contradiction
  · contradiction

theorem Call.length_of_legacy? {text : List Char} {call : Call} (h : legacy? text = some call) :
    call.length ≤ text.length + 1 := by
  obtain ⟨⟨className, classLength, rest⟩, first, h⟩ := Option.bind_eq_some_iff.mp h
  obtain ⟨block, rfl, rfl⟩ := squareBlock?_eq_some first
  cases rest with
  | nil => contradiction
  | cons symbol rest =>
    simp only at h
    split at h
    · obtain ⟨⟨subtype, subtypeLength, rest⟩, second, h⟩ := Option.bind_eq_some_iff.mp h
      obtain ⟨middle, rfl, rfl⟩ := squareBlock?_eq_some second
      have carrier : (carrierBlock? rest).elim 0 (·.length + 2) ≤ rest.length := by
        cases named : carrierBlock? rest with
        | none => exact Nat.zero_le _
        | some name =>
          obtain ⟨after, rfl, _⟩ := carrierBlock?_eq_some named
          simp only [Option.elim_some, List.length_cons, List.length_append]
          omega
      cases h
      simp only [List.length_append, List.length_cons]
      omega
    · contradiction

theorem Call.length_of_parse? {text : List Char} {call : Call} (h : parse? text = some call) :
    call.length ≤ text.length := by
  unfold parse? at h
  split at h
  · rcases Option.or_eq_some_iff.mp h with modern | ⟨_, legacy⟩
    · exact length_of_modern? modern
    · exact length_of_legacy? legacy
  · contradiction

end Phrasebook
