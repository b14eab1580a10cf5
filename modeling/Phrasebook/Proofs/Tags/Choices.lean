import Phrasebook.Proofs.Tags.Places

/-! The options that tagged selectors run.
A tag is set where its star is read and used up by the selector right behind it, so that it is never
pending anywhere else. A tagged selector takes the option that its number and the start of the run
fix; every other selector draws. -/
namespace Phrasebook

/-- A star and the digits of a number stand right before an opening bracket. -/
structure Labels (text : List Char) (star place id : Nat) : Prop where
  sign : text[star]? = some '*'
  number : Text.decimal? ((text.take place).drop (star + 1)) = some id
  bracket : text[place]? = some '{'

theorem digits_of_decimal? {text : List Char} {n : Nat} (h : Text.decimal? text = some n) :
    text ≠ [] ∧ ∀ c ∈ text, c.isDigit = true := by
  unfold Text.decimal? at h
  split at h
  · rename_i number
    exact ⟨number.1, List.all_eq_true.mp number.2⟩
  · contradiction

theorem decimal?_of_natural? {limit n : Nat} {text : List Char}
    (decimal : ∀ c ∈ text, c.isDigit = true) (h : Text.natural? limit text = some n) :
    Text.decimal? text = some n := by
  unfold Text.natural? at h
  have kept := (Option.filter_eq_some_iff.mp h).1
  cases text with
  | nil => exact kept
  | cons c rest =>
    have digit := decimal c List.mem_cons_self
    split at kept
    · rename_i signed
      cases signed
      contradiction
    · exact kept

namespace Labels

variable {text : List Char} {star star' place id id' : Nat}

theorem digit (h : Labels text star place id) {i : Nat} (after : star < i) (before : i < place) :
    ∃ d, text[i]? = some d ∧ d.isDigit = true := by
  have inside : i < text.length := by
    obtain ⟨within, _⟩ := List.getElem?_eq_some_iff.mp h.bracket
    omega
  have found : text[i]? = some text[i] := List.getElem?_eq_getElem inside
  refine ⟨text[i], found, (digits_of_decimal? h.number).2 _ ?_⟩
  apply List.mem_of_getElem? (i := i - (star + 1))
  rw [List.getElem?_drop, List.getElem?_take, if_pos (by omega)]
  rwa [show star + 1 + (i - (star + 1)) = i by omega]

theorem succ_star_lt (h : Labels text star place id) : star + 1 < place := by
  apply Nat.lt_of_not_le
  intro beyond
  apply (digits_of_decimal? h.number).1
  apply List.drop_eq_nil_of_le
  have short := List.length_take_le place text
  omega

theorem star_lt (h : Labels text star place id) : star < place :=
  Nat.lt_of_succ_lt h.succ_star_lt

theorem star_le (h : Labels text star place id) (h' : Labels text star' place id') :
    star ≤ star' := by
  apply Nat.le_of_not_lt
  intro later
  obtain ⟨d, found, digit⟩ := h'.digit later h.star_lt
  rw [h.sign] at found
  cases found
  contradiction

theorem star_eq (h : Labels text star place id) (h' : Labels text star' place id') :
    star = star' :=
  Nat.le_antisymm (h.star_le h') (h'.star_le h)

theorem id_eq (h : Labels text star place id) (h' : Labels text star place id') : id = id' :=
  Option.some.inj (h.number.symm.trans h'.number)

end Labels

namespace State

variable {setting : Setting} {text : List Char} {s₀ s t : State} {c : Char} {index : Nat}

/-- The run has come to the state from the star of a label, which it has read as a tag. -/
def Tagged (setting : Setting) (text : List Char) (s₀ s : State) (id : Nat) : Prop :=
  ∃ star r, Labels text star s.reader.position id ∧ Reaches setting s₀ r ∧
    r.reader.position = star ∧ r.step setting = .ok s

/-- From the one state to the other the run reads single characters. -/
inductive ReadsOn (setting : Setting) (s : State) : State → Prop where
  | refl : ReadsOn setting s s
  | step {t u : State} (before : ReadsOn setting s t) (more : t.reader.atEnd = false)
      (stepped : t.step setting = .ok u) (next : u.reader.position = t.reader.position + 1) :
      ReadsOn setting s u

theorem ReadsOn.reaches (h : ReadsOn setting s t) : Reaches setting s t := by
  induction h with
  | refl => exact .refl _
  | step _ more stepped _ ih => exact ih.trans (.one more stepped)

/-- The run has read over the star on its way to the state: an escape or a call begins before the
star and ends behind it, and from there single characters are read. -/
def ReadOver (setting : Setting) (s₀ s : State) (star : Nat) : Prop :=
  ∃ u v, Reaches setting s₀ u ∧ u.reader.atEnd = false ∧ u.step setting = .ok v ∧
    (u.reader.peek = '\\' ∨ u.reader.peek = '+') ∧ u.reader.position < star ∧
    star < v.reader.position ∧ ReadsOn setting v s

/-- A star with nothing but digits between it and the state has been read over. -/
def Clear (setting : Setting) (text : List Char) (s₀ s : State) : Prop :=
  ∀ star, star < s.reader.position → text[star]? = some '*' →
    (∀ i, star < i → i < s.reader.position → ∃ d, text[i]? = some d ∧ d.isDigit = true) →
      ReadOver setting s₀ s star

/-- From the one state to the other a selector of so many options goes to one of them. -/
def Selects (s t : State) (options choice : Nat) : Prop :=
  ∃ close starts start, s.reader.curlyClose? (s.reader.position + 1) = some close ∧
    starts = (s.reader.position + 1) :: optionStarts 0 (s.reader.position + 1)
      (s.reader.slice (s.reader.position + 1) close) ∧
    starts.length = options ∧ starts[choice]? = some start ∧ t.reader = s.reader.moveTo start

theorem clear_of_seam (seam : Seam text.toArray s.reader.position) :
    Clear setting text s₀ s := by
  obtain ⟨i, c, place, here, other, plain⟩ := seam
  rw [List.getElem?_toArray] at here
  intro star before found between
  rw [place] at before between
  rcases Nat.lt_succ_iff_lt_or_eq.mp before with earlier | rfl
  · obtain ⟨d, there, digit⟩ := between i earlier (Nat.lt_succ_self i)
    rw [here] at there
    cases there
    rw [plain] at digit
    contradiction
  · rw [here] at found
    exact absurd (Option.some.inj found) other

theorem ReadOver.next {star : Nat} (h : ReadOver setting s₀ s star)
    (more : s.reader.atEnd = false) (stepped : s.step setting = .ok t)
    (next : t.reader.position = s.reader.position + 1) : ReadOver setting s₀ t star := by
  obtain ⟨u, v, reached, inside, read, sign, before, behind, onward⟩ := h
  exact ⟨u, v, reached, inside, read, sign, before, behind, onward.step more stepped next⟩

theorem Lands.clear (unchanged : s.reader.text = text.toArray)
    (here : text[s.reader.position]? = some s.reader.peek) (reached : Reaches setting s₀ s)
    (more : s.reader.atEnd = false) (stepped : s.step setting = .ok t)
    (before : Clear setting text s₀ s)
    (lands : Lands s.reader.peek s.reader.position (s.moveTo (s.reader.position + 1)) t) :
    Clear setting text s₀ t := by
  cases lands with
  | next other place =>
    have start : t.reader.position = s.reader.position + 1 :=
      place.trans (Reader.position_read more)
    intro star behind found between
    rw [start] at behind between
    rcases Nat.lt_succ_iff_lt_or_eq.mp behind with earlier | rfl
    · have passed := before star earlier found fun i after until_ =>
        between i after (Nat.lt_succ_of_lt until_)
      exact passed.next more stepped start
    · rw [here] at found
      exact absurd (Option.some.inj found) other
  | seam place =>
    have place : Seam s.reader.text t.reader.position := place
    rw [unchanged] at place
    exact clear_of_seam place
  | past sign further =>
    have plain : s.reader.peek ≠ '*' ∧ s.reader.peek.isDigit = false := by
      rcases sign with escape | call
      · rw [escape]
        decide
      · rw [call]
        decide
    intro star behind found between
    rcases Nat.lt_trichotomy star s.reader.position with earlier | rfl | later
    · obtain ⟨d, there, digit⟩ := between _ earlier further
      rw [here] at there
      cases there
      rw [plain.2] at digit
      contradiction
    · rw [here] at found
      exact absurd (Option.some.inj found) plain.1
    · exact ⟨s, t, reached, more, stepped, sign, later, behind, .refl⟩

theorem choose_ok {options : Nat} {choice : Fin options} {g : Generator}
    (h : s.choose options = .ok (choice, g)) :
    (∃ tag, s.tag = some tag ∧ choice.val = Frame.value ⟨s.salt, tag.toInt64⟩ % options ∧
        g = s.generator) ∨
      (s.tag = none ∧ choice.val = s.generator.peek % (options % 2 ^ 32) ∧
        g = s.generator.advance) := by
  unfold choose at h
  split at h
  · rename_i untagged
    exact .inr ⟨untagged, (Generator.oneOf_ok h).2⟩
  · rename_i tag tagged
    split at h
    · cases h
      exact .inl ⟨tag, tagged, rfl, rfl⟩
    · contradiction

theorem selects_of_step (opens : s.reader.peek = '{')
    (stepped : s.step setting = .ok t) :
    ∃ options choice, Selects s t options choice ∧ t.salt = s.salt ∧ t.tag = none ∧
      ((∃ tag, s.tag = some tag ∧ choice = Frame.value ⟨s.salt, tag.toInt64⟩ % options ∧
          t.generator = s.generator) ∨
        (s.tag = none ∧ choice = s.generator.peek % (options % 2 ^ 32) ∧
          t.generator = s.generator.advance)) := by
  rw [State.step, opens] at stepped
  obtain ⟨close, starts, closed, rfl, _, choice, generator, chosen, rfl⟩ :=
    openSelector_ok stepped
  refine ⟨_, choice.val, ⟨close, _, _, closed, rfl, rfl, List.getElem?_eq_getElem choice.isLt, rfl⟩,
    rfl, rfl, ?_⟩
  rcases choose_ok chosen with ⟨tag, pending, picked, rfl⟩ | ⟨none_, picked, rfl⟩
  · exact .inl ⟨tag, pending, picked, rfl⟩
  · exact .inr ⟨none_, picked, rfl⟩

/-- Reading a tag leaves its number pending, and the run at the bracket. -/
theorem labels_of_readTag (start : s.reader.position = index + 1)
    (unchanged : s.reader.text = text.toArray) (sign : text[index]? = some '*')
    (read : s.readTag index = .ok t) :
    ∃ id, Labels text index t.reader.position id ∧ t.tag = some id.toUInt64 := by
  obtain ⟨stop, id, rfl, number, opened, rfl⟩ := readTag_ok read
  have inside : index + 1 ≤ s.reader.text.size := start ▸ s.reader.inside
  obtain ⟨decimal, within⟩ := Reader.slice_digitsEnd inside
  have place : (s.reader.moveTo (s.reader.digitsEnd (index + 1))).position =
      s.reader.digitsEnd (index + 1) := Nat.min_eq_left within
  have part : s.reader.slice (index + 1) (s.reader.digitsEnd (index + 1)) =
      (text.take (s.reader.digitsEnd (index + 1))).drop (index + 1) := by
    rw [Reader.slice, Array.toList_extract, unchanged, List.extract_eq_take_drop, List.drop_take]
  have bracket := Reader.getElem?_of_charAt opened (by decide)
  rw [unchanged, List.getElem?_toArray] at bracket
  have value := decimal?_of_natural? decimal number
  rw [part] at value
  refine ⟨id, ?_, rfl⟩
  change Labels text index (s.reader.moveTo _).position id
  rw [place]
  exact ⟨sign, value, bracket⟩

/-- How a step treats tags: it reads one, or it opens a selector and uses up what is pending, or it
does neither. -/
inductive Turns (setting : Setting) (text : List Char) (s₀ s t : State) : Prop where
  | tag (id : Nat) (labels : Labels text s.reader.position t.reader.position id)
      (pending : t.tag = some id.toUInt64)
  | selector (used : t.tag = none) (clear : Clear setting text s₀ t)
  | neither (other : s.reader.peek ≠ '{') (kept : t.tag = s.tag)
      (clear : Clear setting text s₀ s → Clear setting text s₀ t)

/-- No tag reaches up to the option that a selector goes to. -/
theorem turns_of_selector (unchanged : s.reader.text = text.toArray) (opens : s.reader.peek = '{')
    (stepped : s.step setting = .ok t) :
    t.reader.text = s.reader.text ∧ t.salt = s.salt ∧ Turns setting text s₀ s t := by
  obtain ⟨_, choice, ⟨close, _, start, _, rfl, _, found, same⟩, salt, used, _⟩ :=
    selects_of_step opens stepped
  have here := Reader.getElem?_of_charAt opens (by decide)
  have seam : Seam s.reader.text start := by
    cases choice with
    | zero =>
      cases found
      exact .behind here (by decide)
    | succ choice =>
      rw [List.getElem?_cons_succ] at found
      obtain ⟨j, rfl, slash⟩ := getElem?_optionStarts (List.mem_of_getElem? found)
      have there := Reader.getElem?_of_slice slash
      exact .behind there (by decide)
  have landed := seam.moveTo
  rw [← same, unchanged] at landed
  exact ⟨by rw [same]; rfl, salt, .selector used (clear_of_seam landed)⟩

theorem turns_of_step (unchanged : s.reader.text = text.toArray) (sewn : s.Sewn text.toArray)
    (reached : Reaches setting s₀ s) (more : s.reader.atEnd = false)
    (stepped : s.step setting = .ok t) :
    t.reader.text = s.reader.text ∧ t.salt = s.salt ∧ Turns setting text s₀ s t := by
  have inside := Reader.position_lt more
  have here : text[s.reader.position]? = some s.reader.peek := by
    rw [← List.getElem?_toArray, ← unchanged, Reader.peek, Reader.charAt,
      Array.getElem?_eq_getElem inside]
    rfl
  have start := Reader.position_read more
  by_cases opens : s.reader.peek = '{'
  · exact turns_of_selector unchanged opens stepped
  · by_cases star : s.reader.peek = '*'
    · rw [star] at here
      rw [State.step, star] at stepped
      obtain ⟨id, labels, pending⟩ := labels_of_readTag (s := s.moveTo (s.reader.position + 1))
        start unchanged here stepped
      obtain ⟨_, _, _, _, _, same⟩ := readTag_ok stepped
      exact ⟨by rw [same]; rfl, by rw [same]; rfl, .tag id labels pending⟩
    · obtain ⟨bare, lands⟩ := lands_perform (s := s.moveTo (s.reader.position + 1)) start
        (by rw [← unchanged] at sewn; exact { sewn with }) star opens stepped
      refine ⟨bare.text, bare.salt, .neither opens bare.tag fun before => ?_⟩
      exact lands.clear unchanged here reached more stepped before

/-- What holds of every state of a run: a pending tag has just been read, and where none is pending
no tag reaches up to the place. -/
structure Marked (setting : Setting) (text : List Char) (s₀ s : State) : Prop where
  unchanged : s.reader.text = text.toArray
  salt : s.salt = s₀.salt
  sewn : s.Sewn text.toArray
  tagged : ∀ tag, s.tag = some tag →
    ∃ id, Tagged setting text s₀ s id ∧ tag = id.toUInt64
  clear : s.tag = none → Clear setting text s₀ s

theorem Marked.start (setting : Setting) (text : List Char) (flags : Flags) (g : Generator) :
    Marked setting text (State.start text flags g) (State.start text flags g) where
  unchanged := rfl
  salt := rfl
  sewn := ⟨nofun, nofun⟩
  tagged := nofun
  clear := by
    intro _ star before
    contradiction

/-- A tag is pending only where the step before has read it. -/
theorem Marked.labels (h : Marked setting text s₀ s) (reached : Reaches setting s₀ s)
    (more : s.reader.atEnd = false) (stepped : s.step setting = .ok t) {tag : UInt64}
    (pending : t.tag = some tag) :
    ∃ id, Labels text s.reader.position t.reader.position id ∧ tag = id.toUInt64 := by
  obtain ⟨_, _, turns⟩ := turns_of_step h.unchanged h.sewn reached more stepped
  cases turns with
  | tag id labels read =>
    rw [read] at pending
    cases pending
    exact ⟨id, labels, rfl⟩
  | selector used _ =>
    rw [used] at pending
    contradiction
  | neither other kept _ =>
    rw [kept] at pending
    obtain ⟨_, ⟨_, _, labels, _⟩, _⟩ := h.tagged tag pending
    have bracket := labels.bracket
    rw [← List.getElem?_toArray, ← h.unchanged] at bracket
    exact absurd (Reader.charAt_of_getElem? bracket) other

theorem Marked.step (h : Marked setting text s₀ s) (reached : Reaches setting s₀ s)
    (more : s.reader.atEnd = false) (stepped : s.step setting = .ok t) :
    Marked setting text s₀ t := by
  obtain ⟨same, salt, turns⟩ := turns_of_step h.unchanged h.sewn reached more stepped
  have sewn : t.Sewn text.toArray := by
    apply Sewn.moves (s := s.moveTo (s.reader.position + 1))
    · exact { h.sewn with }
    · exact h.unchanged
    · exact moves_perform (Reader.position_read more) stepped
  refine ⟨same.trans h.unchanged, salt.trans h.salt, sewn, ?_, ?_⟩
  · intro tag pending
    obtain ⟨id, labels, rfl⟩ := h.labels reached more stepped pending
    exact ⟨id, ⟨_, s, labels, reached, rfl, stepped⟩, rfl⟩
  · intro bare
    cases turns with
    | tag id _ read =>
      rw [read] at bare
      contradiction
    | selector _ clear => exact clear
    | neither _ kept clear =>
      rw [kept] at bare
      exact clear (h.clear bare)

theorem marked_of_reaches {flags : Flags} {g : Generator}
    (reached : Reaches setting (start text flags g) s) :
    Marked setting text (start text flags g) s := by
  have invariant : Reaches setting (start text flags g) s ∧
      Marked setting text (start text flags g) s := by
    apply reached.preserves (P := fun u => Reaches setting (start text flags g) u ∧
      Marked setting text (start text flags g) u)
    · intro u v ⟨before, marked⟩ more stepped
      exact ⟨before.trans (.one more stepped), marked.step before more stepped⟩
    · exact ⟨.refl _, .start setting text flags g⟩
  exact invariant.2

theorem Tagged.tag {flags : Flags} {g : Generator} {id : Nat}
    (h : Tagged setting text (start text flags g) s id) : s.tag = some id.toUInt64 := by
  obtain ⟨star, r, labels, before, rfl, read⟩ := h
  have unchanged := (marked_of_reaches before).unchanged
  have here : r.reader.text[r.reader.position]? = some '*' := by
    rw [unchanged, List.getElem?_toArray]
    exact labels.sign
  have start := Reader.position_moveTo_succ here
  rw [State.step, Reader.peek, Reader.charAt_of_getElem? here] at read
  obtain ⟨id', labels', pending⟩ := labels_of_readTag (s := r.moveTo (r.reader.position + 1))
    start unchanged labels.sign read
  rw [labels.id_eq labels']
  exact pending

/-- The step that has read a tag began at its star, and went further than to the next character. -/
theorem Tagged.not_readOver {flags : Flags} {g : Generator} {id star : Nat}
    (h : Tagged setting text (start text flags g) s id) :
    ¬ ReadOver setting (start text flags g) s star := by
  rintro ⟨u, v, reached, more, read, sign, _, _, onward⟩
  cases onward with
  | refl =>
    have marked := marked_of_reaches reached
    obtain ⟨_, labels, _⟩ := marked.labels reached more read h.tag
    have here := labels.sign
    rw [← List.getElem?_toArray, ← marked.unchanged] at here
    have peeked : u.reader.peek = '*' := Reader.charAt_of_getElem? here
    rw [peeked] at sign
    revert sign
    decide
  | step onward more' stepped next =>
    have later := (reached.trans (.one more read)).trans onward.reaches
    obtain ⟨_, labels, _⟩ := (marked_of_reaches later).labels later more' stepped h.tag
    have further := labels.succ_star_lt
    omega

/-- Every selector of a run. If the run comes to it from a tag, its option is fixed by the number
of the tag, the start of the run and the number of options, and nothing is drawn; if not, its option
is drawn. A label right before it is its tag unless the run has read over the star. -/
theorem tags_agree (text : List Char) (flags : Flags) (g : Generator)
    (reached : Reaches setting (start text flags g) s) (opens : s.reader.peek = '{')
    (stepped : s.step setting = .ok t) :
    ∃ options choice, Selects s t options choice ∧
      (∀ id, Tagged setting text (start text flags g) s id →
        choice = Frame.value ⟨g.peek.toUInt64, id.toUInt64.toInt64⟩ % options ∧
          t.generator = s.generator) ∧
      ((∀ id, ¬ Tagged setting text (start text flags g) s id) →
        choice = s.generator.peek % (options % 2 ^ 32) ∧ t.generator = s.generator.advance) ∧
      ∀ star id, Labels text star s.reader.position id →
        (Tagged setting text (start text flags g) s id ↔
          ¬ ReadOver setting (start text flags g) s star) := by
  have marked := marked_of_reaches reached
  have salt : s.salt = g.peek.toUInt64 := marked.salt
  obtain ⟨options, choice, selects, _, _, chosen⟩ := selects_of_step opens stepped
  refine ⟨options, choice, selects, ?_, ?_, ?_⟩
  · intro id tagged
    rcases chosen with ⟨tag, pending, fixed, kept⟩ | ⟨bare, _⟩
    · rw [tagged.tag] at pending
      cases pending
      rw [salt] at fixed
      exact ⟨fixed, kept⟩
    · rw [tagged.tag] at bare
      contradiction
  · intro untagged
    rcases chosen with ⟨tag, pending, _, _⟩ | ⟨_, drawn⟩
    · obtain ⟨id, tagged, _⟩ := marked.tagged tag pending
      exact absurd tagged (untagged id)
    · exact drawn
  · intro star id labels
    refine ⟨fun tagged => tagged.not_readOver, fun kept => ?_⟩
    cases pending : s.tag with
    | none =>
      refine absurd (marked.clear pending star labels.star_lt labels.sign ?_) kept
      intro i after before
      exact labels.digit after before
    | some tag =>
      obtain ⟨id', ⟨star', r, labels', came⟩, _⟩ := marked.tagged tag pending
      cases labels.star_eq labels'
      cases labels.id_eq labels'
      exact ⟨star, r, labels, came⟩

/-- Two selectors with one number, spelled in two ways, and one that draws between them. -/
def twiceTagged : List Char := "*7{a/b/c}{d/e}*007{x/y/z}".toList

theorem tags_agree_twice :
    ∃ s t options choice,
      Reaches ⟨∅, "\n"⟩ (start twiceTagged ∅ (Generator.ofSeed 7 0)) s ∧
        Tagged ⟨∅, "\n"⟩ twiceTagged (start twiceTagged ∅ (Generator.ofSeed 7 0)) s 7 ∧
        s.generator.generation = 1 ∧ Selects s t options choice ∧
        choice = Frame.value ⟨(Generator.ofSeed 7 0).peek.toUInt64, 7⟩ % options ∧
        t.generator = s.generator := by
  have run : ((advance? ⟨∅, "\n"⟩ 7 (start twiceTagged ∅ (Generator.ofSeed 7 0))).bind fun r =>
      (r.step ⟨∅, "\n"⟩).toOption.bind fun s => (s.step ⟨∅, "\n"⟩).toOption.map fun _ =>
        (r.reader.position, r.reader.atEnd, s.reader.position, s.reader.peek,
          s.generator.generation)) =
      some (14, false, 18, '{', 1) := by
    decide +kernel
  obtain ⟨r, before, run⟩ := Option.bind_eq_some_iff.mp run
  obtain ⟨s, read, run⟩ := Option.bind_eq_some_iff.mp run
  obtain ⟨t, stepped, places⟩ := Option.map_eq_some_iff.mp run
  obtain ⟨star, more, place, opens, drawn⟩ : r.reader.position = 14 ∧ r.reader.atEnd = false ∧
      s.reader.position = 18 ∧ s.reader.peek = '{' ∧ s.generator.generation = 1 := by
    simpa only [Prod.mk.injEq] using places
  have read := toOption_eq_some.mp read
  have came := reaches_of_advance? before
  have reached := came.trans (.one more read)
  have labels : Labels twiceTagged 14 s.reader.position 7 := by
    rw [place]
    exact ⟨by decide, by decide, by decide⟩
  have tagged : Tagged ⟨∅, "\n"⟩ twiceTagged _ s 7 := ⟨14, r, labels, came, star, read⟩
  obtain ⟨options, choice, selects, fixed, _⟩ :=
    tags_agree twiceTagged ∅ (Generator.ofSeed 7 0) reached opens (toOption_eq_some.mp stepped)
  obtain ⟨chosen, kept⟩ := fixed 7 tagged
  exact ⟨s, t, options, choice, reached, tagged, drawn, selects, chosen, kept⟩

end State

end Phrasebook
