import Phrasebook.Proofs.Substitution.Escapes
import Phrasebook.Proofs.Substitution.Unlimited

/-! Texts that expansion leaves alone.
Where the text and the bodies end outside an escape and use a sigil only to begin a reference, the
expansion has no sigil left that a backslash does not take, and expanding it again changes
nothing. -/
namespace Phrasebook

/-- Each sigil that no backslash takes begins a reference, and the text does not end inside an
escape. -/
structure Clean (text : List Char) : Prop where
  references : ∀ (kind : Kind) place, text[place]? = some kind.sigil → Unescaped text place →
    ∃ name rest, text.drop (place + 1) = '[' :: (name ++ ']' :: rest)
  ends : Complete text

/-- A text without references: escapes, and characters that are no sigils. -/
inductive Inert : List Char → Prop where
  | nil : Inert []
  | escape (c : Char) {rest : List Char} (later : Inert rest) : Inert ('\\' :: c :: rest)
  | plain {c : Char} {rest : List Char} (own : c ≠ '\\') (unmarked : Kind.ofSigil? c = none)
      (later : Inert rest) : Inert (c :: rest)

variable {text front back name after rest out : List Char} {c : Char} {kind : Kind} {place : Nat}

theorem clean_iff : Clean text ↔ Complete text ∧
    ∀ place < text.length, ∀ kind ∈ [Kind.inline, Kind.global], text[place]? = some kind.sigil →
      Unescaped text place → text[place + 1]? = some '[' ∧ ']' ∈ text.drop (place + 2) := by
  constructor
  · rintro ⟨references, ends⟩
    refine ⟨ends, ?_⟩
    intro place _ kind _ sigil unescaped
    obtain ⟨name, rest, follows⟩ := references kind place sigil unescaped
    have body : text.drop (place + 2) = name ++ ']' :: rest := by
      rw [← List.tail_drop, follows, List.tail_cons]
    rw [← List.head?_drop, follows, body]
    exact ⟨rfl, List.mem_append_cons_self⟩
  · rintro ⟨ends, each⟩
    refine ⟨?_, ends⟩
    intro kind place sigil unescaped
    obtain ⟨inside, -⟩ := List.getElem?_eq_some_iff.mp sigil
    have listed : kind ∈ [Kind.inline, Kind.global] := by cases kind <;> decide
    obtain ⟨bracket, closing⟩ := each place inside kind listed sigil unescaped
    obtain ⟨name, rest, parts⟩ := List.append_of_mem closing
    obtain ⟨inside', same⟩ := List.getElem?_eq_some_iff.mp bracket
    refine ⟨name, rest, ?_⟩
    rw [List.drop_eq_getElem_cons inside', same, parts]

instance {text : List Char} : Decidable (Clean text) := decidable_of_iff _ clean_iff.symm

namespace Clean

/-- What follows a complete front of a clean text is clean. -/
theorem behind (front : List Char) (clean : Clean (front ++ back)) (complete : Complete front) :
    Clean back := by
  constructor
  · intro kind place sigil unescaped
    have there : (front ++ back)[front.length + place]? = some kind.sigil := by
      rw [List.getElem?_append_right (Nat.le_add_right ..), Nat.add_sub_cancel_left]
      exact sigil
    obtain ⟨name, rest, follows⟩ :=
      clean.references kind (front.length + place) there (complete.unescaped_iff.mpr unescaped)
    rw [Nat.add_assoc, List.drop_length_add_append] at follows
    exact ⟨name, rest, follows⟩
  · exact complete.append_iff.mp clean.ends

theorem escaped (clean : Clean ('\\' :: c :: rest)) : Clean rest :=
  clean.behind ['\\', c] (complete_escape c)

theorem tail (clean : Clean (c :: rest)) (own : c ≠ '\\') : Clean rest :=
  clean.behind [c] (complete_snoc [] own)

theorem afterReference (kind : Kind)
    (clean : Clean (kind.sigil :: '[' :: (name ++ ']' :: after))) :
    Clean after := by
  have parts : kind.sigil :: '[' :: (name ++ ']' :: after) =
      (kind.sigil :: '[' :: (name ++ [']'])) ++ after := by simp
  rw [parts] at clean
  exact clean.behind _ (complete_reference kind name)

theorem not_lone : ¬ Clean ['\\'] := by
  intro clean
  exact absurd clean.ends (by decide)

/-- A plain character of a clean text is no sigil. -/
theorem unmarked (clean : Clean (c :: rest)) (plain : Piece.Plain c rest) :
    Kind.ofSigil? c = none := by
  rcases plain.2 with none | unbracketed
  · exact none
  · refine Option.eq_none_iff_forall_ne_some.mpr ?_
    intro kind sigil
    have same : (c :: rest)[0]? = some kind.sigil := by
      rw [Kind.sigil_of_ofSigil? sigil]
      rfl
    obtain ⟨name, after, follows⟩ := clean.references kind 0 same complete_nil
    rw [List.drop_one, List.tail_cons] at follows
    rw [follows] at unbracketed
    exact unbracketed rfl

end Clean

namespace Inert

theorem append (inert : Inert front) (inert' : Inert back) : Inert (front ++ back) := by
  induction inert with
  | nil => exact inert'
  | escape c _ ih => exact .escape c ih
  | plain own unmarked _ ih => exact .plain own unmarked ih

theorem flatMap {α : Type} {f : α → List Char} {as : List α} (each : ∀ a ∈ as, Inert (f a)) :
    Inert (as.flatMap f) := by
  induction as with
  | nil => exact .nil
  | cons a as ih =>
    simp only [List.forall_mem_cons] at each
    rw [List.flatMap_cons]
    exact each.1.append (ih each.2)

theorem escapeLiteral (text : List Char) : Inert (escapeLiteral text) := by
  refine flatMap fun c _ => ?_
  split
  · exact .escape c .nil
  · rename_i bare
    have own : c ≠ '\\' := by
      rintro rfl
      exact bare (by decide)
    have unmarked : Kind.ofSigil? c = none := by
      refine Option.eq_none_iff_forall_ne_some.mpr ?_
      intro kind sigil
      rw [Kind.sigil_of_ofSigil? sigil] at bare
      cases kind <;> exact bare (by decide)
    exact .plain own unmarked .nil

/-- Each sigil that is left stands behind a backslash that takes it. -/
theorem not_unescaped (inert : Inert text) (sigil : text[place]? = some kind.sigil) :
    ¬ Unescaped text place := by
  induction inert generalizing place with
  | nil => contradiction
  | @escape c rest _ ih =>
    match place with
    | 0 => exact absurd (Option.some.inj sigil).symm kind.sigil_ne_escape
    | 1 => exact (by decide : ¬ Complete ['\\'])
    | place + 2 =>
      intro unescaped
      rw [Nat.add_comm] at unescaped
      exact ih sigil ((complete_escape c).unescaped_iff.mp unescaped)
  | @plain c rest own unmarked _ ih =>
    match place with
    | 0 =>
      rw [Option.some.inj sigil, kind.ofSigil?_sigil] at unmarked
      contradiction
    | place + 1 =>
      intro unescaped
      rw [Nat.add_comm] at unescaped
      have complete : Complete [c] := complete_snoc [] own
      exact ih sigil (complete.unescaped_iff.mp unescaped)

end Inert

/-- What a clean text stands for is inert, where the bodies are clean too: values are, since
their sigils are escaped. -/
theorem Becomes.inert {glossary : Glossary} {values : Std.ExtTreeMap String String}
    {parent : Option (Kind × String)} {height : Nat}
    (bodies : ∀ kind name body, glossary.body? kind name = some body → Clean body.toList)
    (becomes : Becomes glossary values parent text out height) (clean : Clean text) :
    Inert out := by
  induction becomes with
  | nil => exact .nil
  | lone => exact absurd clean Clean.not_lone
  | escape later ih => exact .escape _ (ih clean.escaped)
  | plain h later ih => exact .plain h.1 (clean.unmarked h) (ih (clean.tail h.1))
  | value closed named foreign known later ih =>
    exact (Inert.escapeLiteral _).append (ih (Clean.afterReference .global clean))
  | global closed admitted unset inner later body ih =>
    have clean' := Clean.afterReference .global clean
    exact (body (bodies _ _ _ admitted.defined)).append (ih clean')
  | @inline parent entries after out height several closed separate admitted inner later body ih =>
    have clean' := Clean.afterReference .inline clean
    have each : ∀ e ∈ entries, Inert e.out := by
      intro e member
      exact body e member (bodies _ _ _ (admitted e member).defined)
    exact (Inert.flatMap each).append (ih clean')

namespace Definitions

theorem Expands.of_inert {d : Definitions} {levels index : Nat} {parent : Option (Kind × String)}
    (inert : Inert text) : d.Expands levels parent index text text := by
  induction inert generalizing index with
  | nil => exact expands_nil.mpr rfl
  | escape c _ ih => exact expands_escape.mpr ⟨_, ih, rfl⟩
  | plain own unmarked _ ih => exact (expands_plain ⟨own, .inl unmarked⟩).mpr ⟨_, ih, rfl⟩

/-- Where bodies and text are clean, the expansion has no sigil that is not escaped, and expanding
it again leaves it as it is, whatever the definitions, the values and the limit are then. -/
theorem expand_settles (d : Definitions) (text out : List Char)
    (bodies : ∀ kind name body, d.glossary.body? kind name = some body → Clean body.toList)
    (clean : Clean text) (expanded : d.expand text = .ok out) :
    (∀ (kind : Kind) place, out[place]? = some kind.sigil → ¬ Unescaped out place) ∧
      ∀ d' : Definitions, d'.expand out = .ok out := by
  obtain ⟨height, -, becomes⟩ := (d.expand_iff text out).mp expanded
  have inert : Inert out := becomes.inert bodies clean
  constructor
  · intro kind place sigil
    exact inert.not_unescaped sigil
  · intro d'
    exact expand_eq_ok.mpr (.of_inert inert)

/-- Two inline bodies and a global with a value that looks like a reference. -/
def seamed : Definitions :=
  ⟨.ofList [⟨.inline, "a", "=[b]\\=&[g]"⟩, ⟨.inline, "b", "y\\\\"⟩], .ofList [("g", "=[a]")], 4⟩

theorem seamed_clean (kind : Kind) (name body : String)
    (defined : seamed.glossary.body? kind name = some body) : Clean body.toList := by
  cases kind with
  | inline =>
    simp only [seamed, Glossary.body?, Glossary.ofList, Glossary.insert, Glossary.empty,
      List.foldl_cons, List.foldl_nil, Std.ExtTreeMap.getElem?_insert] at defined
    split at defined
    · cases defined
      decide
    · split at defined
      · cases defined
        decide
      · simp at defined
  | global =>
    simp [seamed, Glossary.body?, Glossary.ofList, Glossary.insert, Glossary.empty] at defined

theorem expand_settles_seamed :
    seamed.expand "\\&=[a+b][x]".toList = .ok "\\&y\\\\\\=\\=\\[a\\]y\\\\[x]".toList ∧
      ∀ d' : Definitions, d'.expand "\\&y\\\\\\=\\=\\[a\\]y\\\\[x]".toList =
        .ok "\\&y\\\\\\=\\=\\[a\\]y\\\\[x]".toList := by
  have expanded : seamed.expand "\\&=[a+b][x]".toList =
      .ok "\\&y\\\\\\=\\=\\[a\\]y\\\\[x]".toList := by cbv
  have clean : Clean "\\&=[a+b][x]".toList := by decide
  exact ⟨expanded, (expand_settles seamed _ _ seamed_clean clean expanded).2⟩

end Definitions

end Phrasebook
