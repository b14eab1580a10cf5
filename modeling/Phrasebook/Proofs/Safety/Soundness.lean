import Phrasebook.Evaluation.Potential
import Phrasebook.Proofs.Draws
import Phrasebook.Proofs.Steps

/-! What holds of every state that a run reaches.
The stacks point into the text, at the brackets that they were made for, and every open group has a
stream. -/
namespace Phrasebook

/-- The blocks of a repetition lie one behind the other and end at their brackets, and an iteration
is left. -/
structure Placed (text : Array Char) (r : Repetition) : Prop where
  separator : r.separatorStart ≤ r.separatorEnd
  between : r.separatorEnd < r.contentStart
  content : r.contentStart ≤ r.contentEnd
  separatorBracket : text[r.separatorEnd]? = some ']'
  contentBracket : text[r.contentEnd]? = some ']'
  unfinished : r.done < r.limit.toNat

def Streams.Grounded (streams : Streams) : Prop :=
  ∀ group ∈ streams.groups, streams.byName.contains group.name = true

/-- The invariant of a run over a text. -/
structure Sound (text : List Char) (s : State) : Prop where
  unchanged : s.reader.text = text.toArray
  cursor : s.reader.position ≤ text.length
  selectors : ∀ close ∈ s.selectors, text[close]? = some '}'
  repetitions : ∀ r ∈ s.repetitions, Placed text.toArray r
  main : s.streams.groups.getLast? = some ⟨"main", .shared⟩
  grounded : s.streams.Grounded

namespace Streams

theorem getLast?_groups (streams : Streams) :
    streams.groups.getLast? = some ⟨"main", .shared⟩ := by
  rw [groups, List.getLast?_append, List.getLast?_singleton]
  rfl

theorem grounded_empty : Streams.empty.Grounded := by
  intro group member
  have main : group = mainGroup := by simpa [groups, Streams.empty] using member
  subst main
  simp [Streams.empty, mainGroup]

theorem Grounded.push {streams : Streams} (h : streams.Grounded) (raw : List Char) :
    (streams.push raw).Grounded := by
  intro group member
  have cases : group = Group.ofRaw raw ∨ group ∈ streams.groups := by
    simpa [Streams.push, groups] using member
  rcases cases with rfl | below
  · simp [Streams.push]
  · simp [Streams.push, h group below]

theorem Grounded.pop {streams streams' : Streams} {group : Group} (h : streams.Grounded)
    (popped : streams.pop = some (group, streams')) : streams'.Grounded := by
  unfold Streams.pop at popped
  split at popped
  · contradiction
  · rename_i inner opened
    cases popped
    intro other member
    apply h other
    rw [groups, opened, List.cons_append]
    exact List.mem_cons_of_mem _ member

theorem contains_foldl_append (text name : String) (names : List String)
    (byName : Std.ExtTreeMap String Stream) (h : byName.contains name = true) :
    (names.foldl (append text) byName).contains name = true := by
  induction names generalizing byName with
  | nil => exact h
  | cons first names ih =>
    apply ih _
    simp [append, Std.ExtTreeMap.contains_alter, h]

theorem Grounded.write {streams : Streams} (h : streams.Grounded) (text : String) :
    (streams.write text).Grounded := by
  unfold Streams.write
  split
  · exact h
  · intro group member
    exact contains_foldl_append text group.name _ _ (h group member)

theorem contains_foldl_splice (insertion name : String) (marks : List Mark)
    (byName : Std.ExtTreeMap String Stream) (h : byName.contains name = true) :
    (marks.foldl (fun byName mark => byName.modify mark.stream (·.splice mark.offset insertion))
      byName).contains name = true := by
  induction marks generalizing byName with
  | nil => exact h
  | cons mark marks ih =>
    apply ih _
    simpa [Std.ExtTreeMap.mem_modify] using h

theorem Grounded.insertAt {streams : Streams} (h : streams.Grounded) (marks : List Mark)
    (insertion : String) : (streams.insertAt marks insertion).Grounded := by
  intro group member
  exact contains_foldl_splice insertion group.name marks _ (h group member)

end Streams

namespace Reader

theorem getElem?_of_balance {opening closing : Char} {depth i j : Nat} {text : List Char}
    (h : balance opening closing depth i text = some j) : text[j - i]? = some closing := by
  have passed {k n : Nat} {rest : List Char} (low : k + n ≤ j) (skipped : List Char)
      (size : skipped.length = n) (found : rest[j - (k + n)]? = some closing) :
      (skipped ++ rest)[j - k]? = some closing := by
    rw [List.getElem?_append_right (by omega), size]
    rwa [show j - k - n = j - (k + n) by omega]
  fun_induction balance opening closing depth i text with
  | case1 | case2 => simp at h
  | case5 => simp_all
  | case3 _ _ c rest ih => exact passed (le_of_balance h) ['\\', c] rfl (ih h)
  | case4 _ _ _ _ ih => exact passed (le_of_balance h) [_] rfl (ih h)
  | case6 _ _ _ _ _ ih => exact passed (le_of_balance h) [_] rfl (ih h)
  | case7 _ _ _ _ _ _ _ ih => exact passed (le_of_balance h) [_] rfl (ih h)

theorem getElem?_of_closing? {r : Reader} {opening closing : Char} {start j : Nat}
    (h : r.closing? opening closing start = some j) : r.text[j]? = some closing := by
  have low := le_of_closing? h
  have found := getElem?_of_balance h
  rw [tail_eq, List.getElem?_drop, Array.getElem?_toList] at found
  rwa [show start + (j - start) = j by omega] at found

theorem getElem?_of_blockEnd {r : Reader} {start close : Nat} {construct : Construct}
    (h : r.blockEnd start construct = .ok close) : r.text[close]? = some ']' :=
  getElem?_of_closing? (blockEnd_ok h).2

end Reader

theorem placed_ofClose {text : Array Char} {repetitions : List Repetition} (index : Nat)
    (h : ∀ r ∈ repetitions, Placed text r) :
    ∀ r ∈ (Boundary.ofClose index repetitions).2, Placed text r := by
  cases repetitions with
  | nil => exact h
  | cons r outer =>
    have first := h r List.mem_cons_self
    have others : ∀ q ∈ outer, Placed text q := fun q member => h q (List.mem_cons_of_mem _ member)
    have changed (r' : Repetition) (placed : Placed text r') :
        ∀ q ∈ r' :: outer, Placed text q := by
      intro q member
      rcases List.mem_cons.mp member with rfl | later
      · exact placed
      · exact others q later
    rw [Boundary.ofClose]
    split
    · split
      · exact others
      · rename_i more
        split
        · exact changed _ { first with unfinished := Nat.lt_of_not_le more }
        · exact changed _ { first with unfinished := Nat.lt_of_not_le more }
    · split
      · exact changed _ { first with }
      · exact h

namespace State

variable {s s' : State} {index : Nat}

theorem grounded_emitLiteral (c : Char) (h : s.streams.Grounded) :
    (s.emitLiteral c).streams.Grounded := by
  unfold emitLiteral
  split
  · exact h.write _
  · exact h.write _

theorem grounded_escape (h : s.streams.Grounded) : s.escape.streams.Grounded := by
  simp only [escape]
  split
  · exact h
  · exact h.write _

theorem grounded_correctArticle (article : Option PendingArticle) (word : String)
    (h : s.streams.Grounded) : (s.correctArticle article word).streams.Grounded := by
  unfold correctArticle
  split
  · split
    · exact h.insertAt _ _
    · exact h
  · exact h

theorem grounded_openGroup (h : s.streams.Grounded) (done : s.openGroup index = .ok s') :
    s'.streams.Grounded := by
  obtain ⟨close, colon, -, -, -, rfl⟩ := openGroup_ok done
  exact h.push _

theorem grounded_closeGroup (h : s.streams.Grounded) (done : s.closeGroup index = .ok s') :
    s'.streams.Grounded := by
  obtain ⟨group, streams, popped, rfl⟩ := closeGroup_ok done
  exact h.pop popped

theorem grounded_digit {c : Char} (h : s.streams.Grounded) (done : s.digit c index = .ok s') :
    s'.streams.Grounded := by
  obtain rfl | ⟨percent, close, -, -, same⟩ := digit_ok done
  · exact grounded_emitLiteral c h
  · rw [same, streams_moveTo]
    exact h

theorem grounded_readTag (h : s.streams.Grounded) (done : s.readTag index = .ok s') :
    s'.streams.Grounded := by
  obtain ⟨stop, id, _, _, _, same⟩ := readTag_ok done
  rw [same, streams_moveTo]
  exact h

theorem grounded_toggleCasing (h : s.streams.Grounded) : s.toggleCasing.streams.Grounded := by
  obtain ⟨_, _, _, same⟩ := toggleCasing_frame s
  rw [same]
  exact h

theorem grounded_randomNumber (h : s.streams.Grounded) (done : s.randomNumber index = .ok s') :
    s'.streams.Grounded := by
  obtain ⟨close, min, max, -, -, -, rfl⟩ := randomNumber_ok done
  exact h.write _

theorem grounded_flag (h : s.streams.Grounded) (done : s.flag index = .ok s') :
    s'.streams.Grounded := by
  obtain ⟨_, _, _, rfl⟩ := flag_frame done
  exact h

theorem grounded_wordCall {setting : Setting} (h : s.streams.Grounded)
    (done : s.wordCall setting index = .ok s') : s'.streams.Grounded := by
  obtain ⟨-, rfl⟩ | ⟨call, t, -, rfl, rest⟩ := wordCall_ok done
  · exact h
  · obtain ⟨-, rfl⟩ | ⟨lexicon, picked?, u, -, picked, rest⟩ := rest
    · exact h
    · have kept : u.streams.Grounded := by
        obtain ⟨_, _, _, same⟩ := pickWord_frame picked
        rw [same]
        exact h
      obtain ⟨_, same⟩ | ⟨i, _, written⟩ := rest
      · rw [same]
        exact kept
      · obtain ⟨v, word, same, rfl⟩ := writeWord_ok written
        have warned : v.streams.Grounded := by
          obtain rfl | ⟨cause, rfl⟩ := same
          · exact kept
          · exact kept
        exact (grounded_correctArticle _ word warned).write word

end State

namespace Sound

variable {text : List Char} {s s' : State} {index : Nat}

theorem start (text : List Char) (flags : Flags) (g : Generator) :
    Sound text (State.start text flags g) where
  unchanged := rfl
  cursor := Nat.zero_le _
  selectors := fun _ member => absurd member List.not_mem_nil
  repetitions := fun _ member => absurd member List.not_mem_nil
  main := Streams.getLast?_groups _
  grounded := Streams.grounded_empty

theorem inside (s : State) (h : s.reader.text = text.toArray) :
    s.reader.position ≤ text.length := by
  have bound := s.reader.inside
  rwa [h, List.size_toArray] at bound

theorem ahead (sound : Sound text s) (further : State.Ahead s s')
    (grounded : s'.streams.Grounded) : Sound text s' := by
  have unchanged := further.text.trans sound.unchanged
  exact ⟨unchanged, inside s' unchanged, by rw [further.selectors]; exact sound.selectors,
    by rw [further.repetitions]; exact sound.repetitions, Streams.getLast?_groups _, grounded⟩

theorem openSelector (sound : Sound text s) (h : s.openSelector index = .ok s') :
    Sound text s' := by
  obtain ⟨close, starts, closed, -, -, choice, generator, -, rfl⟩ := State.openSelector_ok h
  have brace : text[close]? = some '}' := by
    have found := Reader.getElem?_of_closing? closed
    rwa [sound.unchanged, List.getElem?_toArray] at found
  refine { sound with cursor := inside _ sound.unchanged, selectors := ?_ }
  intro other member
  rcases List.mem_cons.mp member with rfl | outer
  · exact brace
  · exact sound.selectors other outer

theorem slash (sound : Sound text s) (c : Char) : Sound text (s.slash c) := by
  unfold State.slash
  split
  · rename_i close selectors opened
    refine { sound with cursor := inside _ sound.unchanged, selectors := ?_ }
    intro other member
    exact sound.selectors other (by rw [opened]; exact List.mem_cons_of_mem _ member)
  · exact sound.ahead (State.ahead_emitLiteral s c) (State.grounded_emitLiteral c sound.grounded)

theorem closeSelector (sound : Sound text s) (h : s.closeSelector index = .ok s') :
    Sound text s' := by
  obtain ⟨close, selectors, opened, rfl⟩ := State.closeSelector_ok h
  refine { sound with selectors := ?_ }
  intro other member
  exact sound.selectors other (by rw [opened]; exact List.mem_cons_of_mem _ member)

theorem openRepetition (sound : Sound text s) (h : s.openRepetition index = .ok s') :
    Sound text s' := by
  obtain ⟨countEnd, separatorEnd, contentEnd, count, limit, generator, counted, separated,
    contained, parsed, drawn, rfl⟩ := State.openRepetition_ok h
  have separator := Reader.getElem?_of_blockEnd separated
  have content := Reader.getElem?_of_blockEnd contained
  rw [sound.unchanged] at separator content
  have afterCount := Reader.le_of_blockEnd separated
  have afterSeparator := Reader.le_of_blockEnd contained
  refine { sound with cursor := inside _ sound.unchanged, repetitions := ?_ }
  intro r member
  rcases List.mem_cons.mp member with rfl | outer
  · exact ⟨afterCount, Nat.lt_succ_of_lt (Nat.lt_succ_self _), afterSeparator, separator, content,
      Count.draw_pos parsed drawn⟩
  · exact sound.repetitions r outer

theorem closeBlock (sound : Sound text s) (index : Nat) : Sound text (s.closeBlock index) := by
  have placed := placed_ofClose index sound.repetitions
  unfold State.closeBlock
  generalize Boundary.ofClose index s.repetitions = closed at placed
  obtain ⟨boundary, repetitions⟩ := closed
  have kept : Sound text { s with repetitions } := { sound with repetitions := placed }
  cases boundary <;> cases repetitions <;>
    first
      | exact kept
      | exact { kept with cursor := inside _ sound.unchanged }

theorem perform {setting : Setting} {c : Char} (sound : Sound text s)
    (start : s.reader.position = index + 1) (h : s.perform setting c index = .ok s') :
    Sound text s' := by
  have grounded := sound.grounded
  unfold State.perform at h
  generalize Sign.ofChar c = sign at h
  cases sign with
  | escape =>
    cases h
    exact sound.ahead (State.ahead_escape s) (State.grounded_escape grounded)
  | openGroup =>
    exact sound.ahead (State.ahead_openGroup start h) (State.grounded_openGroup grounded h)
  | closeGroup =>
    exact sound.ahead (State.ahead_closeGroup h) (State.grounded_closeGroup grounded h)
  | digit => exact sound.ahead (State.ahead_digit start h) (State.grounded_digit grounded h)
  | openSelector => exact sound.openSelector h
  | slash =>
    cases h
    exact sound.slash c
  | closeSelector => exact sound.closeSelector h
  | tag => exact sound.ahead (State.ahead_readTag start h) (State.grounded_readTag grounded h)
  | repetition => exact sound.openRepetition h
  | closeBlock =>
    cases h
    exact sound.closeBlock index
  | flag => exact sound.ahead (State.ahead_flag start h) (State.grounded_flag grounded h)
  | call => exact sound.ahead (State.ahead_wordCall start h) (State.grounded_wordCall grounded h)
  | lineBreak =>
    cases h
    exact sound.ahead (.stay rfl rfl rfl) (grounded.write _)
  | casing =>
    cases h
    exact sound.ahead (State.ahead_toggleCasing s) (State.grounded_toggleCasing grounded)
  | upper =>
    cases h
    exact sound.ahead (.stay rfl rfl rfl) grounded
  | number =>
    exact sound.ahead (State.ahead_randomNumber start h) (State.grounded_randomNumber grounded h)
  | literal =>
    cases h
    exact sound.ahead (State.ahead_emitLiteral s c) (State.grounded_emitLiteral c grounded)
  | openBlock | carriageReturn =>
    cases h
    exact sound

theorem step {setting : Setting} (sound : Sound text s) (more : s.reader.atEnd = false)
    (h : s.step setting = .ok s') : Sound text s' := by
  have start := Reader.position_read more
  have read : Sound text { s with reader := s.reader.read.2 } :=
    { sound with cursor := inside { s with reader := s.reader.read.2 } sound.unchanged }
  exact read.perform start h

theorem reaches {setting : Setting} {t : State} (sound : Sound text s)
    (h : State.Reaches setting s t) : Sound text t :=
  h.preserves (fun _ _ sound more stepped => sound.step more stepped) sound

end Sound

end Phrasebook
