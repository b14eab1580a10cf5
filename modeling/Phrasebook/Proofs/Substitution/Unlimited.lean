import Mathlib
import Phrasebook.Proofs.Substitution.Expansion

/-! Substitution without a limit, and what the depth limit makes of it.
A text stands for what its references stand for, bodies within bodies; how far they nest is a number
of the text. The expansion succeeds exactly where that number keeps within the limit. -/
namespace Phrasebook

/-- A definition that a reference names: how the name is written there, the body found for it, what
that body stands for, and how far bodies nest in it. -/
structure Entry where
  written : List Char
  body : String
  out : List Char
  height : Nat

namespace Entry

def name (e : Entry) : String := String.ofList (Text.trim e.written)

/-- Names are not empty, and the body of a definition does not name that definition. -/
structure Admitted (glossary : Glossary) (parent : Option (Kind × String)) (kind : Kind)
    (e : Entry) : Prop where
  named : e.name ≠ ""
  foreign : parent ≠ some (kind, e.name)
  defined : glossary.body? kind e.name = some e.body

def joined (entries : List Entry) : List Char := ['+'].intercalate (entries.map written)

/-- How far bodies nest in a text that enters these, and where they nest so far in its rest. -/
def above (height : Nat) (entries : List Entry) : Nat :=
  entries.foldr (fun e h => max (e.height + 1) h) height

theorem above_le {height bound : Nat} {entries : List Entry} :
    above height entries ≤ bound ↔ height ≤ bound ∧ ∀ e ∈ entries, e.height < bound := by
  induction entries with
  | nil => simp [above]
  | cons e entries ih =>
    have unfolded : above height (e :: entries) = max (e.height + 1) (above height entries) := rfl
    rw [unfolded, Nat.max_le, ih, List.forall_mem_cons]
    exact and_left_comm

end Entry

/-- What a text stands for, as the body of its parent or by itself, and how far bodies nest. -/
inductive Becomes (glossary : Glossary) (values : Std.ExtTreeMap String String) :
    Option (Kind × String) → List Char → List Char → Nat → Prop where
  | nil {parent : Option (Kind × String)} : Becomes glossary values parent [] [] 0
  | lone {parent : Option (Kind × String)} : Becomes glossary values parent ['\\'] ['\\'] 0
  | escape {parent : Option (Kind × String)} {c : Char} {rest out : List Char} {height : Nat}
      (later : Becomes glossary values parent rest out height) :
      Becomes glossary values parent ('\\' :: c :: rest) ('\\' :: c :: out) height
  | plain {parent : Option (Kind × String)} {c : Char} {rest out : List Char} {height : Nat}
      (h : Piece.Plain c rest) (later : Becomes glossary values parent rest out height) :
      Becomes glossary values parent (c :: rest) (c :: out) height
  | value {parent : Option (Kind × String)} {name after out : List Char} {height : Nat}
      {value : String} (closed : ']' ∉ name) (named : String.ofList (Text.trim name) ≠ "")
      (foreign : parent ≠ some (.global, String.ofList (Text.trim name)))
      (known : values[String.ofList (Text.trim name)]? = some value)
      (later : Becomes glossary values parent after out height) :
      Becomes glossary values parent ('&' :: '[' :: (name ++ ']' :: after))
        (escapeLiteral value.toList ++ out) height
  | global {parent : Option (Kind × String)} {e : Entry} {after out : List Char} {height : Nat}
      (closed : ']' ∉ e.written) (admitted : e.Admitted glossary parent .global)
      (unset : e.name ∉ values)
      (inner : Becomes glossary values (some (.global, e.name)) e.body.toList e.out e.height)
      (later : Becomes glossary values parent after out height) :
      Becomes glossary values parent ('&' :: '[' :: (e.written ++ ']' :: after)) (e.out ++ out)
        (Entry.above height [e])
  | inline {parent : Option (Kind × String)} {entries : List Entry} {after out : List Char}
      {height : Nat} (several : entries ≠ []) (closed : ']' ∉ Entry.joined entries)
      (separate : ∀ e ∈ entries, '+' ∉ e.written)
      (admitted : ∀ e ∈ entries, e.Admitted glossary parent .inline)
      (inner : ∀ e ∈ entries,
        Becomes glossary values (some (.inline, e.name)) e.body.toList e.out e.height)
      (later : Becomes glossary values parent after out height) :
      Becomes glossary values parent ('=' :: '[' :: (Entry.joined entries ++ ']' :: after))
        (entries.flatMap Entry.out ++ out) (Entry.above height entries)

/-- The text names the definition in one of its own references. -/
inductive Mentions : List Char → Kind × String → Prop where
  | here (kind : Kind) {written after : List Char} {name : String} (closed : ']' ∉ written)
      (listed : name ∈ Piece.names kind written) :
      Mentions (kind.sigil :: '[' :: (written ++ ']' :: after)) (kind, name)
  | behind (kind : Kind) {written after : List Char} {named : Kind × String}
      (closed : ']' ∉ written) (later : Mentions after named) :
      Mentions (kind.sigil :: '[' :: (written ++ ']' :: after)) named
  | escape {c : Char} {rest : List Char} {named : Kind × String} (later : Mentions rest named) :
      Mentions ('\\' :: c :: rest) named
  | plain {c : Char} {rest : List Char} {named : Kind × String} (h : Piece.Plain c rest)
      (later : Mentions rest named) : Mentions (c :: rest) named

namespace Definitions

variable {d : Definitions} {levels index height : Nat} {parent : Option (Kind × String)}
  {kind : Kind} {text written out part : List Char} {e : Entry} {entries : List Entry}
  {name value : String} {p q : Kind × String}

def Unset (d : Definitions) (p : Kind × String) : Prop := p.1 = .global → p.2 ∉ d.values

/-- The body of the first definition names the second, which has no value. -/
def Leads (d : Definitions) (p q : Kind × String) : Prop :=
  ∃ body, d.glossary.body? p.1 p.2 = some body ∧ Mentions body.toList q ∧ d.Unset q

/-- From the text a chain of definitions without values leads into a circle. -/
def Circular (d : Definitions) (text : List Char) : Prop :=
  ∃ p q, Mentions text p ∧ d.Unset p ∧ Relation.ReflTransGen d.Leads p q ∧
    Relation.TransGen d.Leads q q

section names

theorem expandName_value (named : name ≠ "") (foreign : parent ≠ some (.global, name))
    (known : d.values[name]? = some value) :
    d.expandName (d.enter levels) parent .global name = .ok (escapeLiteral value.toList) := by
  simp [expandName, resolve, String.isEmpty_iff, named, foreign, known]

theorem expandName_body (admitted : e.Admitted d.glossary parent kind)
    (unset : d.Unset (kind, e.name))
    (entered : d.expandWithin levels (some (kind, e.name)) e.body.toList = .ok out) :
    d.expandName (d.enter levels) parent kind e.name = .ok out := by
  simp only [expandName, resolve, String.isEmpty_iff, admitted.named, admitted.foreign,
    if_false, admitted.defined]
  split
  · rename_i value _ known
    exact absurd (Std.ExtTreeMap.mem_iff_isSome_getElem?.mpr (by simp [known])) (unset rfl)
  · exact mapError_eq_ok.mpr entered

theorem mapM_names (each : ∀ e ∈ entries,
      d.expandName (d.enter levels) parent kind e.name = .ok e.out) :
    (entries.map Entry.name).mapM (d.expandName (d.enter levels) parent kind) =
      .ok (entries.map Entry.out) := by
  induction entries with
  | nil => rfl
  | cons e entries ih =>
    simp only [List.forall_mem_cons] at each
    exact mapM_cons_ok.mpr ⟨e.out, _, each.1, ih each.2, rfl⟩

end names

section expansion

/-- The entry's body has been put in, with so many levels left. -/
structure Entered (d : Definitions) (levels : Nat) (parent : Option (Kind × String)) (kind : Kind)
    (e : Entry) : Prop where
  admitted : e.Admitted d.glossary parent kind
  unset : d.Unset (kind, e.name)
  within : e.height < levels
  inner : Becomes d.glossary d.values (some (kind, e.name)) e.body.toList e.out e.height

/-- What expands with fewer levels stands for its expansion. -/
def Faithful (d : Definitions) (levels : Nat) : Prop :=
  ∀ less < levels, ∀ parent text out, d.Expands less parent 0 text out →
    ∃ height ≤ less, Becomes d.glossary d.values parent text out height

theorem Faithful.ofName (faithful : d.Faithful levels)
    (h : d.expandName (d.enter levels) parent kind (String.ofList (Text.trim written)) = .ok out) :
    (kind = .global ∧ ∃ value, d.values[String.ofList (Text.trim written)]? = some value ∧
        out = escapeLiteral value.toList) ∨
      ∃ e, e.written = written ∧ e.out = out ∧ d.Entered levels parent kind e := by
  obtain ⟨nonempty, foreign, resolved⟩ := expandName_ok h
  rcases resolve_ok resolved with known | ⟨unset, body, defined, entered⟩
  · exact .inl known
  · obtain ⟨less, rfl, expands⟩ := expandWithin_ok entered
    obtain ⟨height, low, becomes⟩ := faithful less (Nat.lt_succ_self less) _ _ _ expands
    have named : String.ofList (Text.trim written) ≠ "" := by
      simpa [String.isEmpty_iff] using nonempty
    have uncached : d.Unset (kind, String.ofList (Text.trim written)) := by
      intro global known
      have present := Std.ExtTreeMap.mem_iff_isSome_getElem?.mp known
      simp [unset global] at present
    exact .inr ⟨⟨written, body, out, height⟩, rfl, rfl, ⟨named, foreign, defined⟩, uncached,
      Nat.lt_succ_of_le low, becomes⟩

theorem Faithful.ofNames (faithful : d.Faithful levels) {pieces parts : List (List Char)}
    (h : (pieces.map fun piece => String.ofList (Text.trim piece)).mapM
      (d.expandName (d.enter levels) parent .inline) = .ok parts) :
    ∃ entries : List Entry, entries.map Entry.written = pieces ∧ entries.map Entry.out = parts ∧
      ∀ e ∈ entries, d.Entered levels parent .inline e := by
  induction pieces generalizing parts with
  | nil =>
    cases h
    exact ⟨[], rfl, rfl, by simp⟩
  | cons piece pieces ih =>
    obtain ⟨part, others, head, tail, rfl⟩ := mapM_cons_ok.mp h
    obtain ⟨entries, rfl, rfl, later⟩ := ih tail
    rcases faithful.ofName head with ⟨other, -⟩ | ⟨e, rfl, rfl, first⟩
    · contradiction
    · exact ⟨e :: entries, rfl, rfl, List.forall_mem_cons.mpr ⟨first, later⟩⟩

theorem Faithful.becomes (faithful : d.Faithful levels)
    (expands : d.Expands levels parent index text out) :
    ∃ height ≤ levels, Becomes d.glossary d.values parent text out height := by
  induction text using Piece.induction generalizing index out with
  | nil =>
    rw [expands_nil.mp expands]
    exact ⟨0, Nat.zero_le levels, .nil⟩
  | lone =>
    rw [expands_lone.mp expands]
    exact ⟨0, Nat.zero_le levels, .lone⟩
  | escape c rest ih =>
    obtain ⟨out', tail, rfl⟩ := expands_escape.mp expands
    obtain ⟨height, low, later⟩ := ih tail
    exact ⟨height, low, .escape later⟩
  | plain c rest unmarked ih =>
    obtain ⟨out', tail, rfl⟩ := (expands_plain unmarked).mp expands
    obtain ⟨height, low, later⟩ := ih tail
    exact ⟨height, low, .plain unmarked later⟩
  | unterminated kind text unclosed => exact absurd expands (not_expands_unterminated unclosed)
  | reference kind written after closed ih =>
    obtain ⟨parts, out', resolved, tail, rfl⟩ := (expands_reference kind closed).mp expands
    obtain ⟨height, low, later⟩ := ih tail
    cases kind with
    | global =>
      obtain ⟨part, others, head, none, rfl⟩ := mapM_cons_ok.mp resolved
      cases none
      rcases faithful.ofName head with ⟨-, value, known, rfl⟩ | ⟨e, rfl, rfl, entered⟩
      · obtain ⟨nonempty, foreign, -⟩ := expandName_ok head
        have named : String.ofList (Text.trim written) ≠ "" := by
          simpa [String.isEmpty_iff] using nonempty
        refine ⟨height, low, ?_⟩
        simpa [Kind.sigil] using Becomes.value closed named foreign known later
      · refine ⟨Entry.above height [e], Entry.above_le.mpr ⟨low, by simpa using entered.within⟩, ?_⟩
        simpa [Kind.sigil] using
          Becomes.global closed entered.admitted (entered.unset rfl) entered.inner later
    | inline =>
      obtain ⟨entries, cut, rfl, entered⟩ := faithful.ofNames resolved
      have cut : entries.map Entry.written = Text.pieces '+' written := cut
      have rejoined : Entry.joined entries = written := by
        rw [Entry.joined, cut, Text.intercalate_pieces]
      have several : entries ≠ [] := by
        rintro rfl
        exact Text.pieces_ne_nil '+' written cut.symm
      have separate : ∀ e ∈ entries, '+' ∉ e.written := by
        intro e member
        have piece : e.written ∈ Text.pieces '+' written := by
          rw [← cut]
          exact List.mem_map_of_mem member
        exact Text.separator_not_mem_of_mem_pieces piece
      have within : ∀ e ∈ entries, e.height < levels := fun e member => (entered e member).within
      refine ⟨Entry.above height entries, Entry.above_le.mpr ⟨low, within⟩, ?_⟩
      rw [← rejoined] at closed ⊢
      rw [← List.flatMap_def]
      exact .inline several closed separate (fun e member => (entered e member).admitted)
        (fun e member => (entered e member).inner) later

theorem becomes_of_expands (expands : d.Expands levels parent index text out) :
    ∃ height ≤ levels, Becomes d.glossary d.values parent text out height := by
  induction levels using Nat.strongRecOn generalizing parent index text out with
  | ind levels ih =>
    have faithful : d.Faithful levels := fun less lower _ _ _ => ih less lower
    exact faithful.becomes expands

theorem expandWithin_of_lt (within : height < levels)
    (each : ∀ less, height ≤ less → d.Expands less parent 0 text out) :
    d.expandWithin levels parent text = .ok out := by
  cases levels with
  | zero => contradiction
  | succ less => exact expandWithin_succ.mpr (each less (Nat.le_of_lt_succ within))

theorem expands_of_becomes (becomes : Becomes d.glossary d.values parent text out height)
    (low : height ≤ levels) : d.Expands levels parent index text out := by
  induction becomes generalizing levels index with
  | nil => exact expands_nil.mpr rfl
  | lone => exact expands_lone.mpr rfl
  | escape _ ih => exact expands_escape.mpr ⟨_, ih low, rfl⟩
  | plain unmarked _ ih => exact (expands_plain unmarked).mpr ⟨_, ih low, rfl⟩
  | @value parent name after out height value closed named foreign known _ ih =>
    have head : d.expandName (d.enter levels) parent .global (String.ofList (Text.trim name)) =
        .ok (escapeLiteral value.toList) := expandName_value named foreign known
    refine (expands_reference .global closed).mpr
      ⟨[escapeLiteral value.toList], out, ?_, ih low, by simp⟩
    exact mapM_cons_ok.mpr ⟨_, [], head, rfl, rfl⟩
  | @global parent e after out height closed admitted unset _ _ inner ih =>
    obtain ⟨lowLater, within⟩ := Entry.above_le.mp low
    have entered := expandWithin_of_lt (within e List.mem_cons_self) fun less => inner
    have head := expandName_body admitted (fun _ => unset) entered
    refine (expands_reference .global closed).mpr ⟨[e.out], out, ?_, ih lowLater, by simp⟩
    exact mapM_cons_ok.mpr ⟨e.out, [], head, rfl, rfl⟩
  | @inline parent entries after out height several closed separate admitted _ _ inner ih =>
    obtain ⟨lowLater, within⟩ := Entry.above_le.mp low
    have each : ∀ e ∈ entries,
        d.expandName (d.enter levels) parent .inline e.name = .ok e.out := by
      intro e member
      have entered := expandWithin_of_lt (within e member) fun less => inner e member
      exact expandName_body (admitted e member) nofun entered
    have names : Piece.names .inline (Entry.joined entries) = entries.map Entry.name := by
      have cut : Text.pieces '+' (Entry.joined entries) = entries.map Entry.written :=
        Text.pieces_intercalate (by simpa using several) (by simpa using separate)
      simp [Piece.names, cut, Entry.name]
    refine (expands_reference .inline closed).mpr ⟨entries.map Entry.out, out, ?_, ih lowLater, ?_⟩
    · rw [names]
      exact mapM_names each
    · rw [List.flatMap_def]

end expansion

section circles

theorem expands_mentioned (mentioned : Mentions text q) (unset : d.Unset q)
    (expands : d.Expands levels parent index text out) :
    ∃ body less out', d.glossary.body? q.1 q.2 = some body ∧ less < levels ∧
      d.Expands less (some q) 0 body.toList out' := by
  induction mentioned generalizing index out with
  | here kind closed listed =>
    obtain ⟨parts, -, resolved, -, -⟩ := (expands_reference kind closed).mp expands
    obtain ⟨part, expanded⟩ := ok_of_mem_mapM resolved listed
    obtain ⟨-, -, resolved⟩ := expandName_ok expanded
    rcases resolve_ok resolved with ⟨global, value, known, -⟩ | ⟨-, body, defined, entered⟩
    · exact absurd (Std.ExtTreeMap.mem_iff_isSome_getElem?.mpr (by simp [known])) (unset global)
    · obtain ⟨less, rfl, deeper⟩ := expandWithin_ok entered
      exact ⟨body, less, part, defined, Nat.lt_succ_self less, deeper⟩
  | behind kind closed _ ih =>
    obtain ⟨-, out', -, later, -⟩ := (expands_reference kind closed).mp expands
    exact ih unset later
  | escape _ ih =>
    obtain ⟨out', later, -⟩ := expands_escape.mp expands
    exact ih unset later
  | plain h _ ih =>
    obtain ⟨out', later, -⟩ := (expands_plain h).mp expands
    exact ih unset later

def Unfolds (d : Definitions) (levels : Nat) (p : Kind × String) : Prop :=
  ∃ body out, d.glossary.body? p.1 p.2 = some body ∧ d.Expands levels (some p) 0 body.toList out

theorem unfolds_mentioned (mentioned : Mentions text q) (unset : d.Unset q)
    (expands : d.Expands levels parent index text out) : ∃ less < levels, d.Unfolds less q := by
  obtain ⟨body, less, out', defined, lower, deeper⟩ := expands_mentioned mentioned unset expands
  exact ⟨less, lower, body, out', defined, deeper⟩

theorem Unfolds.next (h : d.Unfolds levels p) (leads : d.Leads p q) :
    ∃ less < levels, d.Unfolds less q := by
  obtain ⟨body, out, defined, expands⟩ := h
  obtain ⟨body', defined', mentioned, unset⟩ := leads
  rw [defined] at defined'
  cases defined'
  exact unfolds_mentioned mentioned unset expands

theorem Unfolds.descends (h : d.Unfolds levels p) (path : Relation.TransGen d.Leads p q) :
    ∃ less < levels, d.Unfolds less q := by
  induction path with
  | single leads => exact h.next leads
  | tail _ leads ih =>
    obtain ⟨less, lower, unfolds⟩ := ih
    obtain ⟨lesser, lowest, last⟩ := unfolds.next leads
    exact ⟨lesser, Nat.lt_trans lowest lower, last⟩

theorem not_unfolds_of_circle (circle : Relation.TransGen d.Leads q q) :
    ¬ d.Unfolds levels q := by
  induction levels using Nat.strongRecOn with
  | ind levels ih =>
    intro unfolds
    obtain ⟨less, lower, again⟩ := unfolds.descends circle
    exact ih less lower again

theorem not_expands_of_circular (circular : d.Circular text) :
    ¬ d.Expands levels parent index text out := by
  intro expands
  obtain ⟨p, q, mentioned, unset, path, circle⟩ := circular
  obtain ⟨less, -, unfolds⟩ := unfolds_mentioned mentioned unset expands
  rcases Relation.reflTransGen_iff_eq_or_transGen.mp path with rfl | path
  · exact not_unfolds_of_circle circle unfolds
  · obtain ⟨lesser, -, last⟩ := unfolds.descends path
    exact not_unfolds_of_circle circle last

end circles

def limitedTo (d : Definitions) (limit : Nat) : Definitions := { d with depthLimit := limit }

theorem expand_iff (d : Definitions) (text out : List Char) : d.expand text = .ok out ↔
    ∃ height ≤ d.depthLimit, Becomes d.glossary d.values none text out height := by
  rw [expand_eq_ok]
  constructor
  · exact becomes_of_expands
  · rintro ⟨height, low, becomes⟩
    exact expands_of_becomes becomes low

/-- The expansion of a text is what the text stands for, if bodies nest no deeper there than the
limit. A text that leads into a circle stands for nothing, so no limit lets it expand, and a higher
limit changes no expansion. -/
theorem expand_iff_becomes (d : Definitions) (text : List Char) :
    (∀ out, d.expand text = .ok out ↔
      ∃ height ≤ d.depthLimit, Becomes d.glossary d.values none text out height) ∧
    (d.Circular text → ∀ limit out, (d.limitedTo limit).expand text ≠ .ok out) ∧
    ∀ limit out, d.depthLimit ≤ limit → d.expand text = .ok out →
      (d.limitedTo limit).expand text = .ok out := by
  refine ⟨d.expand_iff text, ?_, ?_⟩
  · intro circular limit out expanded
    have circular' : (d.limitedTo limit).Circular text := circular
    exact not_expands_of_circular circular' (expand_eq_ok.mp expanded)
  · intro limit out higher expanded
    obtain ⟨height, low, becomes⟩ := (d.expand_iff text out).mp expanded
    exact ((d.limitedTo limit).expand_iff text out).mpr ⟨height, Nat.le_trans low higher, becomes⟩

/-- Two inline bodies that name each other, and one that leads nowhere. -/
def entwined : Definitions :=
  ⟨.ofList [⟨.inline, "a", "=[b]"⟩, ⟨.inline, "b", "=[a]"⟩, ⟨.inline, "c", "leaf"⟩], ∅, 1⟩

theorem entwined_circular : entwined.Circular "=[a]".toList := by
  have toA : Mentions "=[a]".toList (.inline, "a") := by
    have closed : ']' ∉ ['a'] := by decide
    have listed : "a" ∈ Piece.names .inline ['a'] := by decide
    exact .here .inline closed listed
  have toB : Mentions "=[b]".toList (.inline, "b") := by
    have closed : ']' ∉ ['b'] := by decide
    have listed : "b" ∈ Piece.names .inline ['b'] := by decide
    exact .here .inline closed listed
  have there : entwined.Leads (.inline, "a") (.inline, "b") := ⟨"=[b]", by cbv, toB, by rintro ⟨⟩⟩
  have back : entwined.Leads (.inline, "b") (.inline, "a") := ⟨"=[a]", by cbv, toA, by rintro ⟨⟩⟩
  exact ⟨_, _, toA, by rintro ⟨⟩, .refl, .tail (.single there) back⟩

theorem expand_iff_becomes_entwined :
    (∀ limit out, (entwined.limitedTo limit).expand "=[a]".toList ≠ .ok out) ∧
      (entwined.limitedTo 5).expand "=[c]".toList = .ok "leaf".toList := by
  have leaf : entwined.expand "=[c]".toList = .ok "leaf".toList := by cbv
  exact ⟨(expand_iff_becomes entwined "=[a]".toList).2.1 entwined_circular,
    (expand_iff_becomes entwined "=[c]".toList).2.2 5 _ (by decide) leaf⟩

end Definitions

end Phrasebook
