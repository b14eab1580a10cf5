import Phrasebook.Proofs.Likeness
import Phrasebook.Proofs.Selectors.Lone

/-! An option runs in its selector as it runs by itself.
One run stands in a selector and the other in a text that is only what it reads on. They take the
same steps, in states that are alike, until what is read on ends: there the one leaves the selector,
which ends its text, and the text of the other has ended. -/
namespace Phrasebook

namespace Reader

variable {r : Reader} {c : Char} {before rest : List Char}

theorem peek_of_left (h : r.left = c :: rest) : r.peek = c := charAt_of_drop h

theorem atEnd_of_left (h : r.left = []) : r.atEnd = true := by
  rw [left, List.drop_eq_nil_iff, Array.length_toList] at h
  have inside := r.inside
  rw [atEnd_iff]
  omega

theorem more_of_left (h : r.left = c :: rest) : r.atEnd = false := by
  have inside := lt_size_of_drop h
  rw [Bool.eq_false_iff, ne_eq, atEnd_iff]
  omega

theorem left_moveTo (r : Reader) (i : Nat) : (r.moveTo i).left = r.text.toList.drop i := by
  rw [left, text_moveTo, position_moveTo]
  rcases Nat.le_total i r.text.size with inside | beyond
  · rw [Nat.min_eq_left inside]
  · rw [Nat.min_eq_right beyond, List.drop_eq_nil_of_le (by simp),
      List.drop_eq_nil_of_le (by simpa using beyond)]

theorem left_skip (h : r.left = before ++ rest) :
    (r.moveTo (r.position + before.length)).left = rest := by
  rw [left_moveTo]
  exact drop_part h

end Reader

namespace Structure

open State (Alike)

/-- One run reads the text in a selector, before a fence, and the other by itself. -/
structure Beside (fence : Char) (after text : List Char) (s t : State) : Prop where
  within : s.reader.left = text ++ fence :: after
  alone : t.reader.left = text
  selectors : ∃ close, s.selectors = [close] ∧ close + 1 = s.reader.text.size
  alike : s.Alike t

/-- The runs stand beside each other again, with less to read. -/
def Goes (fence : Char) (after text : List Char) (s t : State) : Prop :=
  ∃ rest, rest.length < text.length ∧ Apart fence rest ∧ Beside fence after rest s t

variable {fence c : Char} {after text rest : List Char} {setting : Setting} {s t s' t' : State}

theorem step_of_left (h : s.reader.left = c :: rest) :
    s.step setting =
      (s.moveTo (s.reader.position + 1)).perform setting c s.reader.position := by
  rw [State.step, Reader.peek_of_left h]
  rfl

namespace Beside

theorem next (beside : Beside fence after (c :: rest) s t) :
    Beside fence after rest (s.moveTo (s.reader.position + 1))
      (t.moveTo (t.reader.position + 1)) where
  within := Reader.left_skip (show _ = [c] ++ _ from beside.within)
  alone := Reader.left_skip (show _ = [c] ++ _ from beside.alone)
  selectors := beside.selectors
  alike := beside.alike.moveTo _ _

theorem kept (beside : Beside fence after text s t) (alike : s'.Alike t')
    (reader : s'.reader = s.reader) (reader' : t'.reader = t.reader)
    (selectors : s'.selectors = s.selectors) : Beside fence after text s' t' := by
  refine ⟨?_, ?_, ?_, alike⟩
  · rw [reader]
    exact beside.within
  · rw [reader']
    exact beside.alone
  · rw [reader, selectors]
    exact beside.selectors

theorem emitLiteral (beside : Beside fence after text s t) (ends : fence = '/' ∨ fence = '}')
    (c : Char) : Beside fence after text (s.emitLiteral c) (t.emitLiteral c) := by
  have next : Letter.isAlphanumeric s.reader.peek = Letter.isAlphanumeric t.reader.peek := by
    have alone := beside.alone.trans (List.append_nil text).symm
    rw [peek_alphanumeric beside.within (.cons ends), peek_alphanumeric alone .nil]
  have alike := beside.alike.emitLiteral c next
  obtain ⟨_, _, _, _, same⟩ := State.emitLiteral_frame s c
  obtain ⟨_, _, _, _, same'⟩ := State.emitLiteral_frame t c
  exact beside.kept alike (by rw [same]) (by rw [same']) (by rw [same])

theorem toggleUpper (beside : Beside fence after text s t) :
    Beside fence after text { s with upper := !s.upper } { t with upper := !t.upper } :=
  beside.kept { beside.alike with upper := congrArg not beside.alike.upper } rfl rfl rfl

/-- A second tilde belongs to the text, since a fence is no tilde. -/
theorem toggleCasing (beside : Beside fence after text s t) (apart : Apart fence text)
    (ends : fence = '/' ∨ fence = '}') :
    ∃ rest, rest.length ≤ text.length ∧ Apart fence rest ∧
      Beside fence after rest s.toggleCasing t.toggleCasing := by
  have alone := beside.alone.trans (List.append_nil text).symm
  by_cases double : text.head? = some '~'
  · have first : s.reader.peek = '~' := (peek_tilde beside.within (.cons ends)).mpr double
    have second : t.reader.peek = '~' := (peek_tilde alone .nil).mpr double
    obtain ⟨rest, rfl⟩ := List.head?_eq_some_iff.mp double
    have further := beside.next
    have later : Apart fence rest := by
      cases apart with
      | char _ _ later => exact later
    refine ⟨rest, by simp, later, ?_⟩
    rw [State.toggleCasing, State.toggleCasing, if_pos first, if_pos second]
    refine further.kept ?_ rfl rfl rfl
    exact { further.alike with proper := congrArg not further.alike.proper }
  · have first : s.reader.peek ≠ '~' := mt (peek_tilde beside.within (.cons ends)).mp double
    have second : t.reader.peek ≠ '~' := mt (peek_tilde alone .nil).mp double
    refine ⟨text, Nat.le_refl _, apart, ?_⟩
    rw [State.toggleCasing, State.toggleCasing, if_neg first, if_neg second]
    refine beside.kept ?_ rfl rfl rfl
    exact { beside.alike with firstPending := congrArg not beside.alike.firstPending }

end Beside

theorem wordCall_unread {index : Nat} (unread : Call.parse? (s.reader.tail index) = none) :
    s.wordCall setting index = .ok (s.warn .unrecognizedWordCall index) := by
  simp only [State.wordCall, unread]

theorem Beside.goes (beside : Beside fence after rest s t) (apart : Apart fence rest) (c : Char) :
    Goes fence after (c :: rest) s t :=
  ⟨rest, Nat.lt_succ_self _, apart, beside⟩

theorem Beside.step_char (beside : Beside fence after (c :: rest) s t) (plain : c ∉ landmarks)
    (lone : c = '+' → Call.isSymbol (rest.head?.getD fence) = false) (later : Apart fence rest)
    (ends : fence = '/' ∨ fence = '}') :
    Agree (Goes fence after (c :: rest)) (s.step setting) (t.step setting) := by
  have next := beside.next
  have unopened := later.unopened
  have fenced : Fenced (fence :: after) := .cons ends
  have alone := beside.alone.trans (List.append_nil (c :: rest)).symm
  have here : (s.moveTo (s.reader.position + 1)).reader.text.toList.drop (s.reader.position + 1) =
      rest ++ fence :: after := drop_char beside.within
  have there : (t.moveTo (t.reader.position + 1)).reader.text.toList.drop (t.reader.position + 1) =
      rest ++ [] := drop_char alone
  have no_landmark : ∀ d ∈ landmarks, (Sign.ofChar c).char? ≠ some d :=
    fun d member same => plain (Sign.char?_ofChar same ▸ member)
  rw [step_of_left beside.within, step_of_left beside.alone]
  simp only [State.perform]
  generalize read : Sign.ofChar c = sign at no_landmark
  cases sign with
  | escape => exact absurd rfl (no_landmark '\\' (by decide))
  | openGroup => exact absurd rfl (no_landmark '<' (by decide))
  | closeGroup => exact absurd rfl (no_landmark '>' (by decide))
  | openSelector => exact absurd rfl (no_landmark '{' (by decide))
  | slash => exact absurd rfl (no_landmark '/' (by decide))
  | closeSelector => exact absurd rfl (no_landmark '}' (by decide))
  | openBlock => exact absurd rfl (no_landmark '[' (by decide))
  | closeBlock => exact absurd rfl (no_landmark ']' (by decide))
  | literal => exact .value ((next.emitLiteral ends c).goes later c)
  | digit =>
    have whole : Unopened (c :: rest) := (Apart.char plain lone later).unopened
    have digits : (s.moveTo (s.reader.position + 1)).reader.text.toList.drop s.reader.position =
        (c :: rest) ++ fence :: after := beside.within
    have digits' : (t.moveTo (t.reader.position + 1)).reader.text.toList.drop t.reader.position =
        (c :: rest) ++ [] := alone
    simp only [digit_lone digits whole fenced, digit_lone digits' whole .nil]
    exact .value ((next.emitLiteral ends c).goes later c)
  | tag =>
    simp only [readTag_lone here unopened fenced, readTag_lone there unopened .nil]
    exact .stop (.fault _ _ _)
  | repetition =>
    simp only [openRepetition_lone here unopened fenced, openRepetition_lone there unopened .nil]
    exact .stop (.fault _ _ _)
  | number =>
    simp only [randomNumber_lone here unopened fenced, randomNumber_lone there unopened .nil]
    exact .stop (.fault _ _ _)
  | flag =>
    simp only [flag_lone here unopened fenced, flag_lone there unopened .nil]
    cases flagFunction? (rest.take 2) with
    | none => exact .stop (.flagFunction _ _ _ _)
    | some function => exact .stop (.fault _ _ _)
  | call =>
    obtain rfl : c = '+' := Sign.char?_ofChar (by rw [read]; rfl)
    have unread : Call.parse? ((s.moveTo (s.reader.position + 1)).reader.tail
        s.reader.position) = none := by
      rw [Reader.tail_eq]
      refine (congrArg Call.parse? beside.within).trans
        (parse?_of_not_symbol (head?_unopened unopened fenced) ?_)
      intro d first
      cases rest <;> cases first <;> exact lone rfl
    have unread' : Call.parse? ((t.moveTo (t.reader.position + 1)).reader.tail
        t.reader.position) = none := by
      rw [Reader.tail_eq]
      refine (congrArg Call.parse? beside.alone).trans
        (parse?_of_not_symbol (fun d first => ?_) (fun d first => ?_))
      · exact unopened d (List.mem_of_mem_head? first)
      · obtain ⟨others, rfl⟩ := List.head?_eq_some_iff.mp first
        exact lone rfl
    simp only [wordCall_unread unread, wordCall_unread unread']
    exact .value (Beside.goes (next.kept (next.alike.warn _ _ _) rfl rfl rfl) later '+')
  | lineBreak =>
    exact .value ((next.kept (next.alike.emitLineBreak _) rfl rfl rfl).goes later c)
  | carriageReturn => exact .value (next.goes later c)
  | casing =>
    obtain ⟨rest', short, apart, after⟩ := next.toggleCasing later ends
    exact .value ⟨rest', Nat.lt_succ_of_le short, apart, after⟩
  | upper => exact .value (next.toggleUpper.goes later c)

theorem Beside.step_call (beside : Beside fence after ('+' :: c :: rest) s t)
    (symbol : Call.isSymbol c = true) (later : Apart fence rest)
    (ends : fence = '/' ∨ fence = '}') :
    Agree (Goes fence after ('+' :: c :: rest)) (s.step setting) (t.step setting) := by
  have read : Call.parse? ((s.moveTo (s.reader.position + 1)).reader.tail s.reader.position) =
      some ⟨c, "", "", none, 2⟩ := by
    rw [Reader.tail_eq]
    exact (congrArg Call.parse? beside.within).trans
      (parse?_symbol symbol later.unopened (.cons ends))
  have read' : Call.parse? ((t.moveTo (t.reader.position + 1)).reader.tail t.reader.position) =
      some ⟨c, "", "", none, 2⟩ := by
    rw [Reader.tail_eq]
    have alone := beside.alone.trans (List.append_nil ('+' :: c :: rest)).symm
    exact (congrArg Call.parse? alone).trans (parse?_symbol symbol later.unopened .nil)
  rw [step_of_left beside.within, step_of_left beside.alone]
  refine (beside.next.alike.wordCall setting read read').mono ?_
  intro s' t' done done' alike
  obtain ⟨_, _, _, _, _, _, _, _, rfl, place⟩ := State.wordCall_frame done
  obtain ⟨_, _, _, _, _, _, _, _, rfl, place'⟩ := State.wordCall_frame done'
  rw [read] at place
  rw [read'] at place'
  subst place place'
  refine ⟨rest, Nat.lt_succ_of_lt (Nat.lt_succ_self _), later, ?_, ?_, beside.selectors, alike⟩
  · exact Reader.left_skip (show _ = ['+', c] ++ _ from beside.within)
  · exact Reader.left_skip (show _ = ['+', c] ++ _ from beside.alone)

theorem Beside.step (setting : Setting) (beside : Beside fence after (c :: rest) s t)
    (apart : Apart fence (c :: rest)) (ends : fence = '/' ∨ fence = '}') :
    Agree (Goes fence after (c :: rest)) (s.step setting) (t.step setting) := by
  cases apart with
  | call symbol later => exact beside.step_call symbol later ends
  | char plain lone later => exact beside.step_char plain lone later ends

/-- The run within leaves the selector, and with it its text. -/
theorem Beside.leave (setting : Setting) (beside : Beside fence after [] s t)
    (ends : fence = '/' ∨ fence = '}' ∧ after = []) :
    ∃ u, s.finish setting = (u, none) ∧ u.Alike t := by
  obtain ⟨close, opened, last⟩ := beside.selectors
  have opened' : (s.moveTo (s.reader.position + 1)).selectors = [close] := opened
  have alike (i : Nat) : ({ s with selectors := [] }.moveTo i).Alike t :=
    { beside.alike with }
  have ended {i : Nat} (left : ({ s with selectors := [] }.moveTo i).reader.left = [])
      (stepped : s.step setting = .ok ({ s with selectors := [] }.moveTo i)) :
      ∃ u, s.finish setting = (u, none) ∧ u.Alike t := by
    refine ⟨_, ?_, alike i⟩
    rw [State.finish_of_step (Reader.more_of_left beside.within) stepped,
      State.finish_of_atEnd (Reader.atEnd_of_left left)]
  rcases ends with rfl | ⟨rfl, rfl⟩
  · refine ended (i := close + 1) ?_ ?_
    · have size : s.reader.text.toList.length = close + 1 := Array.length_toList.trans last.symm
      exact (Reader.left_moveTo s.reader _).trans (List.drop_eq_nil_of_le (Nat.le_of_eq size))
    · have read : Sign.ofChar '/' = .slash := rfl
      rw [step_of_left beside.within, State.perform, read]
      simp only [State.slash, opened']
      rfl
  · refine ended (i := s.reader.position + 1)
      (Reader.left_skip (show _ = ['}'] ++ [] from beside.within)) ?_
    have read : Sign.ofChar '}' = .closeSelector := rfl
    rw [step_of_left beside.within, State.perform, read]
    simp only [State.closeSelector, opened']
    rfl

/-- Runs beside each other end alike, by what is left to read. -/
theorem Beside.endsAlike (beside : Beside fence after text s t) (apart : Apart fence text)
    (ends : fence = '/' ∨ fence = '}' ∧ after = []) :
    EndsAlike (s.finish setting) (t.finish setting) := by
  induction size : text.length using Nat.strongRecOn generalizing text s t with
  | ind n ih =>
    cases text with
    | nil =>
      obtain ⟨u, finished, alike⟩ := beside.leave setting ends
      rw [finished, State.finish_of_atEnd (Reader.atEnd_of_left beside.alone)]
      exact ⟨alike, .none⟩
    | cons c rest =>
      have more := Reader.more_of_left beside.within
      have more' := Reader.more_of_left beside.alone
      have stepped := beside.step setting apart (ends.imp_right And.left)
      generalize first : s.step setting = x at stepped
      generalize second : t.step setting = y at stepped
      cases stepped with
      | stop kin =>
        rw [State.finish_of_stop more first, State.finish_of_stop more' second]
        exact ⟨beside.alike, .some kin⟩
      | value related =>
        obtain ⟨rest', shorter, apart', beside'⟩ := related
        rw [State.finish_of_step more first, State.finish_of_step more' second]
        exact ih rest'.length (size ▸ shorter) beside' apart' rfl

end Structure

end Phrasebook
