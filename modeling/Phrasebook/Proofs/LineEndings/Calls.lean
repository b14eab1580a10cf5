import Phrasebook.Proofs.LineEndings.Texts
import Phrasebook.Proofs.Safety.Parsing
import Phrasebook.Proofs.Spellings.Legacy

/-! How a call reads in a text with carriage returns.
In the modern spelling a line ending is a blank between words; in the legacy one none fits into the
call, and neither ending is a symbol. So the same call is read, and its length counts the carriage
returns. -/
namespace Phrasebook.Call

open Text (WithinLine withReturns shift)

variable {closing c symbol : Char} {allowed : Char → Bool} {text body after rest name : List Char}

theorem block?_withReturns (closes : WithinLine closing)
    (same : allowed '\r' = allowed '\n') (text : List Char) :
    block? closing allowed (withReturns text) = (block? closing allowed text).map
      fun (body, after) => (withReturns body, withReturns after) := by
  induction text with
  | nil => rfl
  | cons c rest ih =>
    by_cases newline : c = '\n'
    · subst newline
      rw [Text.withReturns_newline, block?, if_neg closes.1.symm, block?, if_neg closes.2.symm,
        same, ih, block?, if_neg closes.2.symm]
      cases allowed '\n' with
      | false => rfl
      | true => cases block? closing allowed rest <;> rfl
    · rw [Text.withReturns_cons newline, block?, block?, ih]
      by_cases closed : c = closing
      · rw [if_pos closed, if_pos closed]
        rfl
      · rw [if_neg closed, if_neg closed]
        cases allowed c with
        | false => rfl
        | true =>
          cases block? closing allowed rest with
          | none => rfl
          | some parts =>
            obtain ⟨body, after⟩ := parts
            simp only [if_true, Option.map_some, Text.withReturns_cons newline]

/-- Where no line feed is allowed, the block lies on one line. -/
theorem newline_not_mem_of_block? (solid : allowed '\n' = false)
    (h : block? closing allowed text = some (body, after)) : '\n' ∉ body := by
  intro member
  have taken := allowed_of_block? h '\n' member
  rw [solid] at taken
  contradiction

/-- The length of a modern call, read off its body. -/
theorem shift_modern (other : symbol ≠ '\n') (body after : List Char) :
    shift ('+' :: symbol :: '[' :: (body ++ ']' :: after)) (body.length + 4) =
      (withReturns body).length + 4 := by
  have front := Text.shift_front ('+' :: symbol :: '[' :: (body ++ [']'])) after
  rw [Text.withReturns_cons (by decide), Text.withReturns_cons other,
    Text.withReturns_cons (by decide), Text.withReturns_append,
    Text.withReturns_cons (by decide)] at front
  simpa using front

theorem modern?_symbol_withReturns (symbolic : isSymbol symbol = true) (rest : List Char) :
    modern? (withReturns (symbol :: '[' :: rest)) = (modern? (symbol :: '[' :: rest)).map
      fun call => { call with length := shift ('+' :: symbol :: '[' :: rest) call.length } := by
  have other : symbol ≠ '\n' := by
    rintro rfl
    contradiction
  rw [Text.withReturns_cons other, Text.withReturns_cons (by decide), modern?, modern?,
    if_pos symbolic, if_pos symbolic, block?_withReturns (by decide) (by decide)]
  cases found : block? ']' isBodyChar rest with
  | none => rfl
  | some parts =>
    obtain ⟨body, after⟩ := parts
    have length := shift_modern other body after
    rw [← block?_eq_some found] at length
    simp only [Option.map_some, Option.bind_eq_bind, Option.bind_some, Text.words_withReturns]
    cases Parts.ofWords? (Text.words body) with
    | none => rfl
    | some parts => simp only [Option.bind_some, Option.pure_def, Option.map_some, length]

theorem modern?_withReturns (text : List Char) : modern? (withReturns text) =
    (modern? text).map fun call => { call with length := shift ('+' :: text) call.length } := by
  match text with
  | [] => rfl
  | [c] =>
    by_cases newline : c = '\n'
    · subst newline
      rfl
    · rw [Text.withReturns_cons newline]
      rfl
  | symbol :: c :: rest =>
    by_cases called : c = '[' ∧ isSymbol symbol = true
    · obtain ⟨rfl, symbolic⟩ := called
      exact modern?_symbol_withReturns symbolic rest
    · rw [modern?_of_ne called]
      by_cases newline : symbol = '\n'
      · subst newline
        rfl
      · rw [Text.withReturns_cons newline]
        by_cases newline' : c = '\n'
        · subst newline'
          rfl
        · rw [Text.withReturns_cons newline', modern?_of_ne called]
          rfl

theorem squareBlock?_withReturns (solid : allowed '\r' = false ∧ allowed '\n' = false)
    (text : List Char) : squareBlock? allowed (withReturns text) = (squareBlock? allowed text).map
      fun (body, length, after) => (body, length, withReturns after) := by
  cases text with
  | nil => rfl
  | cons c rest =>
    by_cases opened : c = '['
    · subst opened
      rw [Text.withReturns_cons (by decide), squareBlock?, squareBlock?,
        block?_withReturns (by decide) (solid.1.trans solid.2.symm)]
      cases found : block? ']' allowed rest with
      | none => rfl
      | some parts =>
        obtain ⟨body, after⟩ := parts
        have line := newline_not_mem_of_block? solid.2 found
        simp only [Option.map_some, Text.withReturns_eq_self line]
    · rw [squareBlock?_of_ne opened]
      by_cases newline : c = '\n'
      · subst newline
        exact squareBlock?_of_ne (by decide) _
      · rw [Text.withReturns_cons newline, squareBlock?_of_ne opened, Option.map_some]
        simp only [Text.withReturns_cons newline]

/-- A block of a legacy call lies on one line. -/
theorem squareBlock?_line {length : Nat} (solid : allowed '\n' = false)
    (h : squareBlock? allowed text = some (body, length, after)) :
    ∃ block, text = block ++ after ∧ block.length = length ∧ '\n' ∉ block := by
  unfold squareBlock? at h
  split at h
  · obtain ⟨⟨b, a⟩, found, same⟩ := Option.map_eq_some_iff.mp h
    cases same
    have line := newline_not_mem_of_block? solid found
    refine ⟨'[' :: (body ++ [']']), ?_, ?_, ?_⟩
    · rw [block?_eq_some found]
      simp
    · simp
    · simp [line]
  · cases h
    exact ⟨[], rfl, rfl, List.not_mem_nil⟩

theorem carrierBlock?_withReturns (text : List Char) :
    carrierBlock? (withReturns text) = carrierBlock? text := by
  cases text with
  | nil => rfl
  | cons c rest =>
    by_cases opened : c = '<'
    · subst opened
      rw [Text.withReturns_cons (by decide), carrierBlock?, carrierBlock?,
        block?_withReturns (by decide) (by decide)]
      cases found : block? '>' isNameChar rest with
      | none => rfl
      | some parts =>
        obtain ⟨body, after⟩ := parts
        have line := newline_not_mem_of_block? (by decide) found
        simp only [Option.map_some, Text.withReturns_eq_self line]
        cases body <;> rfl
    · rw [carrierBlock?_of_ne opened]
      by_cases newline : c = '\n'
      · subst newline
        exact carrierBlock?_of_ne (by decide) _
      · rw [Text.withReturns_cons newline, carrierBlock?_of_ne opened]

/-- A call that lies on one line is as long as before. -/
theorem shift_line {front : List Char} (line : '\n' ∉ front) (back : List Char) :
    shift (front ++ back) front.length = front.length := by
  rw [Text.shift_front, Text.withReturns_eq_self line]

theorem carrierBlock?_line (text : List Char) :
    ∃ block rest, text = block ++ rest ∧
      block.length = (carrierBlock? text).elim 0 (·.length + 2) ∧ '\n' ∉ block := by
  cases named : carrierBlock? text with
  | none => exact ⟨[], text, rfl, rfl, List.not_mem_nil⟩
  | some name =>
    obtain ⟨after, rfl, -⟩ := carrierBlock?_eq_some named
    have line : '\n' ∉ name := by
      intro member
      have taken := (named_of_carrierBlock? named).2 '\n' member
      exact absurd taken (by decide)
    exact ⟨'<' :: (name ++ ['>']), after, by simp, by simp, by simp [line]⟩

theorem legacy?_withReturns (text : List Char) : legacy? (withReturns text) =
    (legacy? text).map fun call => { call with length := shift ('+' :: text) call.length } := by
  rw [legacy?, legacy?, squareBlock?_withReturns (by decide)]
  cases first : squareBlock? isClassChar text with
  | none => rfl
  | some parts =>
    obtain ⟨className, classLength, rest⟩ := parts
    obtain ⟨front, rfl, rfl, frontLine⟩ := squareBlock?_line (by decide) first
    cases rest with
    | nil => rfl
    | cons symbol rest =>
      by_cases newline : symbol = '\n'
      · subst newline
        rfl
      · simp only [Option.map_some, Option.bind_eq_bind, Option.bind_some,
          Text.withReturns_cons newline]
        cases isSymbol symbol with
        | false => rfl
        | true =>
          rw [squareBlock?_withReturns (by decide)]
          cases second : squareBlock? isNameChar rest with
          | none => rfl
          | some parts =>
            obtain ⟨subtype, subtypeLength, rest⟩ := parts
            obtain ⟨middle, rfl, rfl, middleLine⟩ := squareBlock?_line (by decide) second
            obtain ⟨back, rest, rfl, length, backLine⟩ := carrierBlock?_line rest
            have whole : '+' :: (front ++ symbol :: (middle ++ (back ++ rest))) =
                ('+' :: (front ++ symbol :: (middle ++ back))) ++ rest := by simp
            have line : '\n' ∉ '+' :: (front ++ symbol :: (middle ++ back)) := by
              simp [frontLine, middleLine, backLine, Ne.symm newline]
            have size : ('+' :: (front ++ symbol :: (middle ++ back))).length =
                2 + front.length + middle.length + back.length := by
              simp only [List.length_cons, List.length_append]
              omega
            have same := shift_line line rest
            rw [← whole, size] at same
            simp only [if_true, Option.map_some, Option.bind_some, Option.pure_def,
              carrierBlock?_withReturns, ← length, same]

theorem parse?_of_ne (other : c ≠ '+') (rest : List Char) : parse? (c :: rest) = none := by
  unfold parse?
  split
  · rename_i same
    exact absurd (List.cons.inj same).1 other
  · rfl

/-- The same call is read, and its length goes up by the carriage returns in it. -/
theorem parse?_withReturns (text : List Char) : parse? (withReturns text) =
    (parse? text).map fun call => { call with length := shift text call.length } := by
  cases text with
  | nil => rfl
  | cons c rest =>
    by_cases plus : c = '+'
    · subst plus
      rw [Text.withReturns_cons (by decide), parse?, parse?, modern?_withReturns,
        legacy?_withReturns, Option.map_or]
    · rw [parse?_of_ne plus]
      by_cases newline : c = '\n'
      · subst newline
        exact parse?_of_ne (by decide) _
      · rw [Text.withReturns_cons newline, parse?_of_ne plus]
        rfl

end Phrasebook.Call
