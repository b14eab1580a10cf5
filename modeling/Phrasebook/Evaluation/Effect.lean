import Phrasebook.Evaluation.Step

/-! What a construct has done where it succeeded.
Runs are examined through these statements, so that the text of a step is opened only here. -/
namespace Phrasebook

theorem bind_eq_ok {ε α β : Type} {x : Except ε α} {f : α → Except ε β} {b : β} :
    (x >>= f) = .ok b ↔ ∃ a, x = .ok a ∧ f a = .ok b := by
  cases x <;> simp [bind, Except.bind]

theorem toOption_eq_some {ε α : Type} {x : Except ε α} {a : α} :
    x.toOption = some a ↔ x = .ok a := by
  cases x <;> simp [Except.toOption]

theorem mapError_eq_ok {ε ε' α : Type} {f : ε → ε'} {x : Except ε α} {a : α} :
    x.mapError f = .ok a ↔ x = .ok a := by
  cases x with
  | ok b =>
    have same : (Except.ok b : Except ε α).mapError f = .ok b := rfl
    simp [same]
  | error e =>
    have failed : (Except.error e : Except ε α).mapError f = .error (f e) := rfl
    simp [failed]

theorem orStop_eq_ok {α : Type} {drawn : Except RangeError α} {a : α} :
    orStop drawn = .ok a ↔ drawn = .ok a :=
  mapError_eq_ok

namespace Reader

theorem le_digitsEnd (r : Reader) (i : Nat) : i ≤ r.digitsEnd i := by
  fun_induction digitsEnd r i with
  | case1 i _ ih => omega
  | case2 i _ => exact Nat.le_refl i

theorem blockEnd_ok {r : Reader} {start close : Nat} {construct : Construct}
    (h : r.blockEnd start construct = .ok close) :
    r.charAt start = '[' ∧ r.squareClose? (start + 1) = some close := by
  unfold blockEnd at h
  split at h
  · rename_i opened
    split at h
    · rename_i found
      cases h
      exact ⟨opened, found⟩
    · contradiction
  · contradiction

theorem le_of_blockEnd {r : Reader} {start close : Nat} {construct : Construct}
    (h : r.blockEnd start construct = .ok close) : start + 1 ≤ close :=
  le_of_closing? (blockEnd_ok h).2

end Reader

theorem lt_of_mem_optionStarts {depth i start : Nat} {body : List Char}
    (h : start ∈ optionStarts depth i body) : i < start := by
  fun_induction optionStarts depth i body with
  | case1 | case2 => simp at h
  | case3 _ _ _ _ ih => have := ih h; omega
  | case4 _ _ _ _ ih => have := ih h; omega
  | case5 _ _ _ _ _ ih => have := ih h; omega
  | case6 depth i c rest _ _ _ _ ih =>
    rcases List.mem_cons.mp h with rfl | later
    · omega
    · have := ih later
      omega
  | case7 _ _ _ _ _ _ _ _ ih => have := ih h; omega

theorem le_start {i start : Nat} {body : List Char}
    (h : start ∈ i :: optionStarts 0 i body) : i ≤ start := by
  rcases List.mem_cons.mp h with rfl | later
  · exact Nat.le_refl start
  · exact Nat.le_of_lt (lt_of_mem_optionStarts later)

theorem Count.draw_ok {count : Count} {g g' : Generator} {limit : UInt32}
    (h : count.draw g = .ok (limit, g')) :
    (∃ n, count = .exactly n ∧ limit = n.toUInt32 ∧ g' = g) ∨
      ∃ min max, count = .between min max ∧
        limit = UInt32.ofInt (min + g.peek % ((max : Int) + 1 - min)) ∧ g' = g.advance := by
  cases count with
  | exactly n =>
    cases h
    exact .inl ⟨n, rfl, rfl, rfl⟩
  | between min max =>
    simp only [draw, bind, Except.bind, pure, Except.pure, Generator.range] at h
    split at h
    · contradiction
    · rename_i drawn
      split at drawn
      · cases drawn
        cases h
        exact .inr ⟨min, max, rfl, rfl, rfl⟩
      · contradiction

theorem Boundary.ofClose_cases (index : Nat) (r : Repetition) (outer : List Repetition) :
    ofClose index (r :: outer) = (.inside, r :: outer) ∨
      ofClose index (r :: outer) = (.finished (outer.length + 1), outer) ∨
      ∃ r' position, ofClose index (r :: outer) = (.separator position, r' :: outer) ∨
        ofClose index (r :: outer) = (.content position, r' :: outer) := by
  rw [ofClose]
  split
  · split
    · exact .inr (.inl rfl)
    · split
      · exact .inr (.inr ⟨_, _, .inl rfl⟩)
      · exact .inr (.inr ⟨_, _, .inr rfl⟩)
  · split
    · exact .inr (.inr ⟨_, _, .inr rfl⟩)
    · exact .inl rfl

namespace State

theorem emitLiteral_frame (s : State) (c : Char) :
    ∃ streams article firstPending lastChar,
      s.emitLiteral c = { s with streams, article, firstPending, lastChar } := by
  unfold emitLiteral
  split <;> exact ⟨_, _, _, _, rfl⟩

theorem correctArticle_frame (s : State) (article : Option PendingArticle) (word : String) :
    ∃ streams, s.correctArticle article word = { s with streams } := by
  unfold correctArticle
  split
  · split <;> exact ⟨_, rfl⟩
  · exact ⟨_, rfl⟩

theorem setFlags_frame (s : State) (scope : FlagScope) (flags : Flags) :
    ∃ localFlags globalFlags, s.setFlags scope flags = { s with localFlags, globalFlags } := by
  cases scope <;> exact ⟨_, _, rfl⟩

theorem escape_frame (s : State) :
    ∃ streams article lastChar,
      s.escape = { s with reader := s.reader.read.2, streams, article, lastChar } := by
  simp only [escape]
  split <;> exact ⟨_, _, _, rfl⟩

theorem toggleCasing_frame (s : State) :
    ∃ reader proper firstPending, s.toggleCasing = { s with reader, proper, firstPending } := by
  unfold toggleCasing
  split <;> exact ⟨_, _, _, rfl⟩

/-- A closing bracket ends no block, or it ends the innermost repetition, or it moves that on. -/
theorem closeBlock_cases (s : State) (index : Nat) :
    s.closeBlock index = s ∨ ∃ r outer, s.repetitions = r :: outer ∧
      (s.closeBlock index =
          { s with repetitions := outer }.unmarkIteration (outer.length + 1) ∨
        ∃ r' position, s.closeBlock index =
          ({ s with repetitions := r' :: outer }.markIteration (outer.length + 1) r').moveTo
            position) := by
  have left (same : Boundary.ofClose index s.repetitions = (.inside, s.repetitions)) :
      s.closeBlock index = s := by
    rw [closeBlock, same]
  cases opened : s.repetitions with
  | nil => exact .inl (left (by rw [opened]; rfl))
  | cons r outer =>
    rcases Boundary.ofClose_cases index r outer with inside | finished | ⟨r', position, moved⟩
    · exact .inl (left (by rw [opened]; exact inside))
    · refine .inr ⟨r, outer, rfl, .inl ?_⟩
      rw [closeBlock, opened, finished]
    · refine .inr ⟨r, outer, rfl, .inr ⟨r', position, ?_⟩⟩
      rcases moved with moved | moved <;> rw [closeBlock, opened, moved] <;> rfl

theorem closeBlock_frame (s : State) (index : Nat) :
    ∃ reader repetitions localFlags,
      s.closeBlock index = { s with reader, repetitions, localFlags } := by
  rcases closeBlock_cases s index with same | ⟨_, _, _, same | ⟨_, _, same⟩⟩ <;> rw [same]
  all_goals exact ⟨_, _, _, rfl⟩

theorem openGroup_ok {s s' : State} {index : Nat} (h : s.openGroup index = .ok s') :
    ∃ close colon, s.reader.angleClose? (index + 1) = some close ∧
      s.reader.findChar? ':' (index + 1) = some colon ∧ colon < close ∧
      s' = { s with streams := s.streams.push (s.reader.slice (index + 1) colon) }.moveTo
        (colon + 1) := by
  simp only [openGroup] at h
  split at h
  · contradiction
  · rename_i close closed
    split at h
    · contradiction
    · rename_i colon found
      split at h
      · contradiction
      · rename_i named
        cases h
        exact ⟨close, colon, closed, found, by omega, rfl⟩

theorem closeGroup_ok {s s' : State} {index : Nat} (h : s.closeGroup index = .ok s') :
    ∃ group streams, s.streams.pop = some (group, streams) ∧ s' = { s with streams } := by
  unfold closeGroup at h
  split at h
  · rename_i group streams popped
    cases h
    exact ⟨group, streams, popped, rfl⟩
  · contradiction

theorem digit_ok {s s' : State} {c : Char} {index : Nat} (h : s.digit c index = .ok s') :
    s' = s.emitLiteral c ∨
      ∃ percent close, percent ≠ 0 ∧
        s.reader.blockEnd (s.reader.digitsEnd index + 1) .frequencyBody = .ok close ∧
        s' = { s with generator := s.generator.advance }.moveTo
          (if s.generator.peek % 101 ≤ percent then s.reader.digitsEnd index + 2
            else close + 1) := by
  simp only [digit, Generator.below_of_pos s.generator (show 0 < 101 by decide)] at h
  split at h
  · split at h
    · contradiction
    · rename_i positive
      obtain ⟨close, closed, h⟩ := bind_eq_ok.mp h
      exact .inr ⟨_, close, positive, closed, (Except.ok.inj h).symm⟩
  · exact .inl (Except.ok.inj h).symm

theorem openSelector_ok {s s' : State} {index : Nat} (h : s.openSelector index = .ok s') :
    ∃ close starts, s.reader.curlyClose? (index + 1) = some close ∧
      starts = (index + 1) :: optionStarts 0 (index + 1) (s.reader.slice (index + 1) close) ∧
      2 ≤ starts.length ∧
      ∃ choice generator, s.choose starts.length = .ok (choice, generator) ∧
        s' = { s with generator, tag := none, selectors := close :: s.selectors }.moveTo
          (starts.get choice) := by
  simp only [openSelector] at h
  split at h
  · contradiction
  · rename_i close closed
    split at h
    · contradiction
    · rename_i several
      obtain ⟨⟨choice, generator⟩, chosen, h⟩ := bind_eq_ok.mp h
      exact ⟨close, _, closed, rfl, by omega, choice, generator, orStop_eq_ok.mp chosen,
        (Except.ok.inj h).symm⟩

theorem closeSelector_ok {s s' : State} {index : Nat} (h : s.closeSelector index = .ok s') :
    ∃ close selectors, s.selectors = close :: selectors ∧ s' = { s with selectors } := by
  unfold closeSelector at h
  split at h
  · rename_i close selectors opened
    cases h
    exact ⟨close, selectors, opened, rfl⟩
  · contradiction

theorem readTag_ok {s s' : State} {index : Nat} (h : s.readTag index = .ok s') :
    ∃ stop id, stop = s.reader.digitsEnd (index + 1) ∧
      Text.natural? 0xFFFFFFFFFFFFFFFF (s.reader.slice (index + 1) stop) = some id ∧
      s.reader.charAt stop = '{' ∧ s' = { s with tag := some id.toUInt64 }.moveTo stop := by
  simp only [readTag] at h
  split at h
  · rename_i id read opened
    cases h
    exact ⟨_, id, rfl, read, opened, rfl⟩
  · contradiction

def freshRepetition (countEnd separatorEnd contentEnd : Nat) (limit : UInt32) : Repetition where
  contentStart := separatorEnd + 2
  contentEnd := contentEnd
  separatorStart := countEnd + 2
  separatorEnd := separatorEnd
  limit := limit
  done := 0
  onSeparator := false

theorem openRepetition_ok {s s' : State} {index : Nat} (h : s.openRepetition index = .ok s') :
    ∃ countEnd separatorEnd contentEnd count limit generator,
      s.reader.blockEnd (index + 1) .repeaterCount = .ok countEnd ∧
      s.reader.blockEnd (countEnd + 1) .repeaterSeparator = .ok separatorEnd ∧
      s.reader.blockEnd (separatorEnd + 1) .repeaterContent = .ok contentEnd ∧
      Count.parse? (Text.trim (s.reader.slice (index + 2) countEnd)) = some count ∧
      count.draw s.generator = .ok (limit, generator) ∧
      s' = ({ s with
        generator
        repetitions := freshRepetition countEnd separatorEnd contentEnd limit ::
          s.repetitions }.markIteration (s.repetitions.length + 1)
            (freshRepetition countEnd separatorEnd contentEnd limit)).moveTo
              (separatorEnd + 2) := by
  obtain ⟨countEnd, counted, h⟩ := bind_eq_ok.mp h
  obtain ⟨separatorEnd, separated, h⟩ := bind_eq_ok.mp h
  obtain ⟨contentEnd, contained, h⟩ := bind_eq_ok.mp h
  refine ⟨countEnd, separatorEnd, contentEnd, ?_⟩
  cases parsed : Count.parse? (Text.trim (s.reader.slice (index + 2) countEnd)) with
  | none =>
    simp only [parsed] at h
    contradiction
  | some count =>
    simp only [parsed] at h
    obtain ⟨⟨limit, generator⟩, drawn, h⟩ := bind_eq_ok.mp h
    cases h
    exact ⟨count, limit, generator, counted, separated, contained, rfl,
      orStop_eq_ok.mp drawn, rfl⟩

theorem flag_ok {s s' : State} {index : Nat} (h : s.flag index = .ok s') :
    ∃ scope action nameEnd name,
      flagFunction? (s.reader.slice (index + 1) (index + 3)) = some (scope, action) ∧
      s.reader.blockEnd (index + 3) .flagName = .ok nameEnd ∧
      name = String.ofList (Text.trim (s.reader.slice (index + 4) nameEnd)) ∧
      ((action = .set ∧
          s' = (s.setFlags scope ((s.flags scope).insert name)).moveTo (nameEnd + 1)) ∨
        (action = .unset ∧
          s' = (s.setFlags scope ((s.flags scope).erase name)).moveTo (nameEnd + 1)) ∨
        ∃ bodyEnd, s.reader.blockEnd (nameEnd + 1) .flagBody = .ok bodyEnd ∧
          s' = s.moveTo (if (s.flags scope).contains name == (action == .whenSet)
            then nameEnd + 2 else bodyEnd + 1)) := by
  simp only [flag] at h
  split at h
  · contradiction
  · rename_i scope action known
    obtain ⟨nameEnd, named, h⟩ := bind_eq_ok.mp h
    refine ⟨scope, action, nameEnd, _, known, named, rfl, ?_⟩
    split at h
    · contradiction
    · cases action with
      | set => exact .inl ⟨rfl, (Except.ok.inj h).symm⟩
      | unset => exact .inr (.inl ⟨rfl, (Except.ok.inj h).symm⟩)
      | whenSet | whenUnset =>
        obtain ⟨bodyEnd, closed, h⟩ := bind_eq_ok.mp h
        exact .inr (.inr ⟨bodyEnd, closed, (Except.ok.inj h).symm⟩)

theorem flag_frame {s s' : State} {index : Nat} (h : s.flag index = .ok s') :
    ∃ reader localFlags globalFlags, s' = { s with reader, localFlags, globalFlags } := by
  obtain ⟨scope, _, _, _, _, _, _, effect⟩ := flag_ok h
  have assigned (flags : Flags) (i : Nat) : ∃ reader localFlags globalFlags,
      (s.setFlags scope flags).moveTo i = { s with reader, localFlags, globalFlags } := by
    obtain ⟨_, _, same⟩ := setFlags_frame s scope flags
    rw [same]
    exact ⟨_, _, _, rfl⟩
  rcases effect with ⟨_, rfl⟩ | ⟨_, rfl⟩ | ⟨_, _, rfl⟩
  · exact assigned _ _
  · exact assigned _ _
  · exact ⟨_, _, _, rfl⟩

theorem randomNumber_ok {s s' : State} {index : Nat} (h : s.randomNumber index = .ok s') :
    ∃ close min max, s.reader.blockEnd (index + 1) .randomNumber = .ok close ∧
      numberRange (s.reader.slice (index + 2) close) = .ok (min, max) ∧ min < max ∧
      s' = ({ s with generator := s.generator.advance, article := none }.moveTo
        (close + 1)).emitWord (toString (min + s.generator.peek % (max - min))) := by
  obtain ⟨close, closed, h⟩ := bind_eq_ok.mp h
  split at h
  · contradiction
  · rename_i min max read
    obtain ⟨⟨value, generator⟩, drawn, h⟩ := bind_eq_ok.mp h
    have drawn := orStop_eq_ok.mp drawn
    by_cases order : min < max
    · rw [Generator.range_of_lt _ order] at drawn
      cases drawn
      exact ⟨close, min, max, closed, read, order, (Except.ok.inj h).symm⟩
    · simp only [Generator.range, if_neg order] at drawn
      contradiction

theorem pickWord_ok {s s' : State} {lexicon : Lexicon} {call : Call} {index : Nat}
    {picked? : Option Nat} (h : s.pickWord lexicon call index = .ok (picked?, s')) :
    (∃ i key, carrierKey? call = some key ∧ s.carriers.lookup key = some i ∧
        picked? = some i ∧ s' = s) ∨
      ∃ generator, (∃ cause, pickFresh lexicon call index s.generator =
          .ok (.doubt cause, generator) ∧ picked? = none ∧
          s' = { s with generator }.warn cause index) ∨
        ∃ i, pickFresh lexicon call index s.generator = .ok (.word i, generator) ∧
          picked? = some i ∧
          s' = { s with
            generator
            carriers := match carrierKey? call with
              | some key => (key, i) :: s.carriers
              | none => s.carriers } := by
  simp only [pickWord] at h
  split at h
  · rename_i i kept
    cases h
    obtain ⟨key, named, found⟩ := Option.bind_eq_some_iff.mp kept
    exact .inl ⟨i, key, named, found, rfl, rfl⟩
  · obtain ⟨⟨picked, generator⟩, drawn, h⟩ := bind_eq_ok.mp h
    cases picked with
    | doubt cause =>
      cases h
      exact .inr ⟨generator, .inl ⟨cause, drawn, rfl, rfl⟩⟩
    | word i =>
      cases h
      exact .inr ⟨generator, .inr ⟨i, drawn, rfl, rfl⟩⟩

theorem pickWord_frame {s s' : State} {lexicon : Lexicon} {call : Call} {index : Nat}
    {picked? : Option Nat} (h : s.pickWord lexicon call index = .ok (picked?, s')) :
    ∃ generator carriers warnings, s' = { s with generator, carriers, warnings } := by
  rcases pickWord_ok h with ⟨_, _, _, _, _, rfl⟩ | ⟨_, ⟨_, _, _, rfl⟩ | ⟨_, _, _, rfl⟩⟩
  all_goals exact ⟨_, _, _, rfl⟩

theorem writeWord_ok {s s' : State} {lexicon : Lexicon} {call : Call} {index i : Nat}
    {article : Option PendingArticle}
    (h : s.writeWord lexicon call index i article = .ok s') :
    ∃ t word, (t = s ∨ ∃ cause, t = s.warn cause index) ∧
      s' = (t.correctArticle article word).emitCased word := by
  simp only [writeWord] at h
  split at h
  · cases h
    exact ⟨s, _, .inl rfl, rfl⟩
  · cases h
    exact ⟨_, _, .inr ⟨_, rfl⟩, rfl⟩
  · contradiction

theorem writeWord_frame {s s' : State} {lexicon : Lexicon} {call : Call} {index i : Nat}
    {article : Option PendingArticle}
    (h : s.writeWord lexicon call index i article = .ok s') :
    ∃ streams warnings firstPending lastChar,
      s' = { s with streams, warnings, firstPending, lastChar } := by
  obtain ⟨t, word, told, rfl⟩ := writeWord_ok h
  obtain ⟨_, corrected⟩ := correctArticle_frame t article word
  rw [corrected]
  rcases told with rfl | ⟨_, rfl⟩ <;> exact ⟨_, _, _, _, rfl⟩

theorem wordCall_ok {setting : Setting} {s s' : State} {index : Nat}
    (h : s.wordCall setting index = .ok s') :
    (Call.parse? (s.reader.tail index) = none ∧ s' = s.warn .unrecognizedWordCall index) ∨
      ∃ call t, Call.parse? (s.reader.tail index) = some call ∧
        t = { s with article := none }.moveTo (index + call.length) ∧
        ((setting.lexicons[call.symbol]? = none ∧
            s' = t.warn (.unknownSymbol call.symbol) index) ∨
          ∃ lexicon picked? u, setting.lexicons[call.symbol]? = some lexicon ∧
            t.pickWord lexicon call index = .ok (picked?, u) ∧
            ((picked? = none ∧ s' = u) ∨
              ∃ i, picked? = some i ∧ u.writeWord lexicon call index i s.article = .ok s')) := by
  simp only [wordCall] at h
  split at h
  · rename_i unread
    exact .inl ⟨unread, (Except.ok.inj h).symm⟩
  · rename_i call read
    refine .inr ⟨call, _, read, rfl, ?_⟩
    split at h
    · rename_i unknown
      exact .inl ⟨unknown, (Except.ok.inj h).symm⟩
    · rename_i lexicon known
      obtain ⟨⟨picked?, u⟩, picked, h⟩ := bind_eq_ok.mp h
      refine .inr ⟨lexicon, picked?, u, known, picked, ?_⟩
      cases picked? with
      | none => exact .inl ⟨rfl, (Except.ok.inj h).symm⟩
      | some i => exact .inr ⟨i, rfl, h⟩

/-- A run goes on behind a call that it has read, and behind the plus sign of any other text. -/
theorem wordCall_frame {setting : Setting} {s s' : State} {index : Nat}
    (h : s.wordCall setting index = .ok s') :
    ∃ reader streams carriers warnings generator article firstPending lastChar,
      s' = { s with
        reader, streams, carriers, warnings, generator, article, firstPending, lastChar } ∧
      reader = (Call.parse? (s.reader.tail index)).elim s.reader
        fun call => s.reader.moveTo (index + call.length) := by
  rcases wordCall_ok h with ⟨unread, rfl⟩ | ⟨call, t, read, rfl, effect⟩
  · rw [unread]
    exact ⟨_, _, _, _, _, _, _, _, rfl, rfl⟩
  · rw [read]
    rcases effect with ⟨_, rfl⟩ | ⟨_, _, u, _, picked, ⟨_, rfl⟩ | ⟨_, _, written⟩⟩
    · exact ⟨_, _, _, _, _, _, _, _, rfl, rfl⟩
    · obtain ⟨_, _, _, rfl⟩ := pickWord_frame picked
      exact ⟨_, _, _, _, _, _, _, _, rfl, rfl⟩
    · obtain ⟨_, _, _, rfl⟩ := pickWord_frame picked
      obtain ⟨_, _, _, _, rfl⟩ := writeWord_frame written
      exact ⟨_, _, _, _, _, _, _, _, rfl, rfl⟩

/-- What a step leaves as it is. Only a call keeps words and warns, and only repetitions and the
ends of their blocks change what is open; these alone and flag functions set flags of the run. -/
structure Spares (sign : Sign) (s t : State) : Prop where
  carriers : sign ≠ .call → t.carriers = s.carriers
  warnings : sign ≠ .call → t.warnings = s.warnings
  repetitions : sign ≠ .repetition → sign ≠ .closeBlock → t.repetitions = s.repetitions
  localFlags : sign ≠ .repetition → sign ≠ .closeBlock → sign ≠ .flag →
    t.localFlags = s.localFlags
  generator : sign ∉ [.digit, .openSelector, .repetition, .call, .number] →
    t.generator = s.generator

theorem Spares.same {sign : Sign} {s t : State} (carriers : t.carriers = s.carriers)
    (warnings : t.warnings = s.warnings) (repetitions : t.repetitions = s.repetitions)
    (localFlags : t.localFlags = s.localFlags) (generator : t.generator = s.generator) :
    Spares sign s t :=
  ⟨fun _ => carriers, fun _ => warnings, fun _ _ => repetitions, fun _ _ _ => localFlags,
    fun _ => generator⟩

theorem Spares.moveTo {sign : Sign} {s t : State} (h : Spares sign s t) (i : Nat) :
    Spares sign s (t.moveTo i) :=
  ⟨h.carriers, h.warnings, h.repetitions, h.localFlags, h.generator⟩

theorem spares_emitLiteral {sign : Sign} (s : State) (c : Char) :
    Spares sign s (s.emitLiteral c) := by
  obtain ⟨_, _, _, _, same⟩ := emitLiteral_frame s c
  rw [same]
  exact .same rfl rfl rfl rfl rfl

theorem spares_perform {setting : Setting} {s t : State} {c : Char} {index : Nat}
    (h : s.perform setting c index = .ok t) : Spares (Sign.ofChar c) s t := by
  unfold perform at h
  generalize Sign.ofChar c = sign at h ⊢
  cases sign with
  | escape =>
    cases h
    obtain ⟨_, _, _, same⟩ := escape_frame s
    rw [same]
    exact .same rfl rfl rfl rfl rfl
  | openGroup =>
    obtain ⟨_, _, _, _, _, rfl⟩ := openGroup_ok h
    exact .same rfl rfl rfl rfl rfl
  | closeGroup =>
    obtain ⟨_, _, _, rfl⟩ := closeGroup_ok h
    exact .same rfl rfl rfl rfl rfl
  | digit =>
    rcases digit_ok h with rfl | ⟨_, _, _, _, rfl⟩
    · exact spares_emitLiteral s c
    · apply Spares.moveTo
      exact ⟨fun _ => rfl, fun _ => rfl, fun _ _ => rfl, fun _ _ _ => rfl,
        fun quiet => absurd (by decide) quiet⟩
  | openSelector =>
    obtain ⟨_, _, _, _, _, _, _, _, rfl⟩ := openSelector_ok h
    exact ⟨fun _ => rfl, fun _ => rfl, fun _ _ => rfl, fun _ _ _ => rfl,
      fun quiet => absurd (by decide) quiet⟩
  | slash =>
    cases h
    unfold slash
    split
    · exact .same rfl rfl rfl rfl rfl
    · exact spares_emitLiteral s c
  | closeSelector =>
    obtain ⟨_, _, _, rfl⟩ := closeSelector_ok h
    exact .same rfl rfl rfl rfl rfl
  | tag =>
    obtain ⟨_, _, _, _, _, rfl⟩ := readTag_ok h
    exact .same rfl rfl rfl rfl rfl
  | repetition =>
    obtain ⟨_, _, _, _, _, _, _, _, _, _, _, rfl⟩ := openRepetition_ok h
    exact ⟨fun _ => rfl, fun _ => rfl, fun other => absurd rfl other, fun other => absurd rfl other,
      fun quiet => absurd (by decide) quiet⟩
  | closeBlock =>
    cases h
    obtain ⟨_, _, _, same⟩ := closeBlock_frame s index
    rw [same]
    exact ⟨fun _ => rfl, fun _ => rfl, fun _ other => absurd rfl other,
      fun _ other => absurd rfl other, fun _ => rfl⟩
  | flag =>
    obtain ⟨_, _, _, rfl⟩ := flag_frame h
    exact ⟨fun _ => rfl, fun _ => rfl, fun _ _ => rfl, fun _ _ other => absurd rfl other,
      fun _ => rfl⟩
  | call =>
    obtain ⟨_, _, _, _, _, _, _, _, rfl, _⟩ := wordCall_frame h
    exact ⟨fun other => absurd rfl other, fun other => absurd rfl other, fun _ _ => rfl,
      fun _ _ _ => rfl, fun quiet => absurd (by decide) quiet⟩
  | casing =>
    cases h
    obtain ⟨_, _, _, same⟩ := toggleCasing_frame s
    rw [same]
    exact .same rfl rfl rfl rfl rfl
  | number =>
    obtain ⟨_, _, _, _, _, _, rfl⟩ := randomNumber_ok h
    exact ⟨fun _ => rfl, fun _ => rfl, fun _ _ => rfl, fun _ _ _ => rfl,
      fun quiet => absurd (by decide) quiet⟩
  | literal =>
    cases h
    exact spares_emitLiteral s c
  | openBlock | lineBreak | carriageReturn | upper =>
    cases h
    exact .same rfl rfl rfl rfl rfl

end State

end Phrasebook
