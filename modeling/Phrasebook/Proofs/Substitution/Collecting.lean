import Phrasebook.Proofs.Substitution.Reference

/-! The scan for globals that a text needs.
What it finds is referred to; of a text that expands it finds everything that has no value, because
it goes through the same inline bodies as the expansion and with the same levels. -/
namespace Phrasebook.Definitions

variable {d e : Definitions} {levels index : Nat} {parent : Option String} {c : Char}
  {text name rest after out : List Char} {found found' names : List String} {global : String}

/-- The scan of a text that begins at an index, with so many levels left for bodies. -/
def gather (d : Definitions) (levels : Nat) (parent : Option String) (index : Nat)
    (text : List Char) (found : List String) : List String × Bool :=
  d.collectPieces (fun name body => d.collectWithin levels (some name) body) parent
    (Piece.scan index text) found

def noted (d : Definitions) (name : String) (found : List String) : List String :=
  if !name.isEmpty && !d.values.contains name && !found.contains name then found ++ [name]
  else found

theorem collectWithin_succ :
    d.collectWithin (levels + 1) parent text found = d.gather levels parent 0 text found := rfl

theorem gather_nil : d.gather levels parent index [] found = (found, true) := by
  rw [gather, Piece.scan]
  rfl

theorem gather_lone : d.gather levels parent index ['\\'] found = (found, true) := by
  rw [gather, Piece.scan_lone]
  rfl

theorem gather_escape : d.gather levels parent index ('\\' :: c :: rest) found =
    d.gather levels parent (index + 2) rest found := by
  rw [gather, Piece.scan_escape]
  rfl

theorem gather_plain (h : Piece.Plain c rest) : d.gather levels parent index (c :: rest) found =
    d.gather levels parent (index + 1) rest found := by
  rw [gather, Piece.scan_plain h]
  rfl

theorem gather_unterminated (kind : Kind) (unclosed : ']' ∉ text) :
    d.gather levels parent index (kind.sigil :: '[' :: text) found = (found, true) := by
  rw [gather, Piece.scan_unterminated unclosed]
  rfl

theorem gather_global (closed : ']' ∉ name) :
    d.gather levels parent index (Kind.global.sigil :: '[' :: (name ++ ']' :: after)) found =
      d.gather levels parent (index + name.length + 3) after
        (d.noted (String.ofList (Text.trim name)) found) := by
  rw [gather, Piece.scan_reference closed]
  rfl

theorem gather_inline (closed : ']' ∉ name) :
    d.gather levels parent index (Kind.inline.sigil :: '[' :: (name ++ ']' :: after)) found =
      match d.collectNames (fun name body => d.collectWithin levels (some name) body) parent
        (Piece.names .inline name) found with
      | (found, true) => d.gather levels parent (index + name.length + 3) after found
      | (found, false) => (found, false) := by
  rw [gather, Piece.scan_reference closed]
  rfl

theorem mem_noted {other : String} (h : global ∈ d.noted other found) :
    global ∈ found ∨ global = other := by
  unfold noted at h
  split at h
  · simpa using h
  · exact .inl h

theorem mem_noted_of_mem {other : String} (h : global ∈ found) : global ∈ d.noted other found := by
  unfold noted
  split
  · exact List.mem_append_left _ h
  · exact h

theorem mem_noted_self (nonempty : global.isEmpty = false) :
    global ∈ d.noted global found ∨ global ∈ d.values := by
  unfold noted
  split
  · exact .inl (List.mem_append_right _ List.mem_cons_self)
  · rename_i old
    rw [nonempty] at old
    cases known : d.values.contains global with
    | true => exact .inr (Std.ExtTreeMap.mem_iff_contains.mpr known)
    | false =>
      rw [known] at old
      exact .inl (by simpa using old)

section soundness

theorem mem_collectNames {enter : String → List Char → List String → List String × Bool}
    {complete : Bool}
    (sound : ∀ name body found, global ∈ (enter name body found).1 →
      global ∈ found ∨ References d.glossary body global)
    (result : d.collectNames enter parent names found = (found', complete))
    (h : global ∈ found') :
    global ∈ found ∨ ∃ name ∈ names, ∃ body, d.glossary.body? .inline name = some body ∧
      References d.glossary body.toList global := by
  induction names generalizing found with
  | nil =>
    cases result
    exact .inl h
  | cons name names ih =>
    have later {found : List String}
        (result : d.collectNames enter parent names found = (found', complete)) :
        global ∈ found ∨ ∃ other ∈ name :: names, ∃ body,
          d.glossary.body? .inline other = some body ∧
            References d.glossary body.toList global := by
      obtain old | ⟨other, member, body, defined, refers⟩ := ih result
      · exact .inl old
      · exact .inr ⟨other, List.mem_cons_of_mem name member, body, defined, refers⟩
    unfold collectNames at result
    split at result
    · exact later result
    · split at result
      · exact later result
      · rename_i body defined
        have entered (inner : global ∈ (enter name body.toList found).1) :
            global ∈ found ∨ ∃ other ∈ name :: names, ∃ body,
              d.glossary.body? .inline other = some body ∧
                References d.glossary body.toList global := by
          obtain old | refers := sound name body.toList found inner
          · exact .inl old
          · exact .inr ⟨name, List.mem_cons_self, body, defined, refers⟩
        split at result
        · rename_i found' within
          obtain inner | other := later result
          · exact entered (by rw [within]; exact inner)
          · exact .inr other
        · rename_i found' within
          cases result
          exact entered (by rw [within]; exact h)

theorem mem_gather
    (sound : ∀ name body found, global ∈ (d.collectWithin levels (some name) body found).1 →
      global ∈ found ∨ References d.glossary body global)
    (h : global ∈ (d.gather levels parent index text found).1) :
    global ∈ found ∨ References d.glossary text global := by
  induction text using Piece.induction generalizing index found with
  | nil =>
    rw [gather_nil] at h
    exact .inl h
  | lone =>
    rw [gather_lone] at h
    exact .inl h
  | escape c rest ih =>
    rw [gather_escape] at h
    exact (ih h).imp_right .escape
  | reference kind name after closed ih =>
    cases kind with
    | global =>
      rw [gather_global closed] at h
      obtain noted | later := ih h
      · obtain old | rfl := mem_noted noted
        · exact .inl old
        · exact .inr (.direct closed)
      · exact .inr (.behind .global closed later)
    | inline =>
      rw [gather_inline closed] at h
      split at h
      · rename_i found' result
        obtain inner | later := ih h
        · obtain old | ⟨name, listed, body, defined, refers⟩ :=
            mem_collectNames sound result inner
          · exact .inl old
          · exact .inr (.through closed listed defined refers)
        · exact .inr (.behind .inline closed later)
      · rename_i found' result
        obtain old | ⟨name, listed, body, defined, refers⟩ := mem_collectNames sound result h
        · exact .inl old
        · exact .inr (.through closed listed defined refers)
  | unterminated kind text unclosed =>
    rw [gather_unterminated kind unclosed] at h
    exact .inl h
  | plain c rest unmarked ih =>
    rw [gather_plain unmarked] at h
    exact (ih h).imp_right (.plain unmarked)

theorem mem_collectWithin (h : global ∈ (d.collectWithin levels parent text found).1) :
    global ∈ found ∨ References d.glossary text global := by
  induction levels generalizing parent text found with
  | zero => exact .inl h
  | succ levels ih =>
    rw [collectWithin_succ] at h
    exact mem_gather (fun name body found => ih) h

theorem references_of_mem (h : global ∈ d.globalReferences text) :
    References d.glossary text global := by
  obtain none | refers := mem_collectWithin h
  · contradiction
  · exact refers

end soundness

section completeness

/-- The bodies of these names are gone through to their ends, and nothing found is lost there. -/
def Thorough (e : Definitions) (enter : String → List Char → List String → List String × Bool)
    (names : List String) : Prop :=
  ∀ name ∈ names, ∀ body, e.glossary.body? .inline name = some body → ∀ found,
    ∃ found', enter name body.toList found = (found', true) ∧ found ⊆ found'

variable {enter : String → List Char → List String → List String × Bool}

theorem Thorough.tail {name : String} (h : Thorough e enter (name :: names)) :
    Thorough e enter names :=
  fun other member => h other (List.mem_cons_of_mem name member)

theorem Thorough.collectNames_ok (h : Thorough e enter names) (parent : Option String)
    (found : List String) :
    ∃ found', e.collectNames enter parent names found = (found', true) ∧ found ⊆ found' := by
  induction names generalizing found with
  | nil => exact ⟨found, rfl, List.Subset.refl found⟩
  | cons name names ih =>
    unfold collectNames
    split
    · exact ih h.tail found
    · split
      · exact ih h.tail found
      · rename_i body defined
        obtain ⟨between, entered, kept⟩ := h name List.mem_cons_self body defined found
        obtain ⟨found', rest, more⟩ := ih h.tail between
        rw [entered]
        exact ⟨found', rest, List.Subset.trans kept more⟩

theorem Thorough.mem_collectNames {name body : String} {P : Prop} (h : Thorough e enter names)
    (listed : name ∈ names) (foreign : parent ≠ some name)
    (defined : e.glossary.body? .inline name = some body)
    (covers : ∀ found found', enter name body.toList found = (found', true) → global ∈ found' ∨ P)
    (result : e.collectNames enter parent names found = (found', true)) :
    global ∈ found' ∨ P := by
  induction names generalizing found with
  | nil => contradiction
  | cons first names ih =>
    rcases List.mem_cons.mp listed with rfl | member
    · obtain ⟨between, entered, -⟩ := h name List.mem_cons_self body defined found
      obtain ⟨last, rest, more⟩ := h.tail.collectNames_ok parent between
      simp only [collectNames, if_neg foreign, defined, entered, rest] at result
      cases result
      exact (covers found between entered).imp_left fun inner => more inner
    · unfold collectNames at result
      split at result
      · exact ih h.tail member result
      · split at result
        · exact ih h.tail member result
        · split at result
          · exact ih h.tail member result
          · cases result

/-- A scan of inline bodies with so many levels ends where their expansions do. -/
def Follows (e d : Definitions) (levels : Nat) : Prop :=
  ∀ name body out found, d.expandWithin levels (some (.inline, name)) body = .ok out →
    ∃ found', e.collectWithin levels (some name) body found = (found', true) ∧ found ⊆ found'

theorem Follows.thorough {levels : Nat} {parent : Option (Kind × String)}
    {parts : List (List Char)} (h : Follows e d levels) (same : e.glossary = d.glossary)
    (resolved : names.mapM (d.expandName (d.enter levels) parent .inline) = .ok parts) :
    Thorough e (fun name body => e.collectWithin levels (some name) body) names := by
  intro name listed body defined found
  obtain ⟨body', part, -, defined', expanded⟩ := inline_ok resolved listed
  rw [same, defined'] at defined
  cases defined
  exact h name _ part found expanded

theorem Follows.gather_ok (h : Follows e d levels) (same : e.glossary = d.glossary)
    (found : List String)
    (expands : d.Expands levels (parent.map (Kind.inline, ·)) index text out) :
    ∃ found', e.gather levels parent index text found = (found', true) ∧ found ⊆ found' := by
  induction text using Piece.induction generalizing index found out with
  | nil => exact ⟨found, gather_nil, List.Subset.refl found⟩
  | lone => exact ⟨found, gather_lone, List.Subset.refl found⟩
  | escape c rest ih =>
    obtain ⟨out', later, -⟩ := expands_escape.mp expands
    rw [gather_escape]
    exact ih found later
  | reference kind name after closed ih =>
    obtain ⟨parts, out', resolved, later, -⟩ := (expands_reference kind closed).mp expands
    cases kind with
    | global =>
      obtain ⟨found', rest, more⟩ := ih (e.noted (String.ofList (Text.trim name)) found) later
      rw [gather_global closed]
      exact ⟨found', rest, fun _ old => more (mem_noted_of_mem old)⟩
    | inline =>
      have thorough := h.thorough same resolved
      obtain ⟨between, result, kept⟩ := thorough.collectNames_ok parent found
      obtain ⟨found', rest, more⟩ := ih between later
      rw [gather_inline closed, result]
      exact ⟨found', rest, List.Subset.trans kept more⟩
  | unterminated kind text unclosed => exact absurd expands (not_expands_unterminated unclosed)
  | plain c rest unmarked ih =>
    obtain ⟨out', later, -⟩ := (expands_plain unmarked).mp expands
    rw [gather_plain unmarked]
    exact ih found later

theorem follows (same : e.glossary = d.glossary) (levels : Nat) : Follows e d levels := by
  induction levels with
  | zero =>
    intro name body out found expands
    contradiction
  | succ levels ih =>
    intro name body out found expands
    exact ih.gather_ok same found (expandWithin_succ.mp expands)

theorem mem_gather_of_references (same : e.glossary = d.glossary)
    (refers : References d.glossary text global)
    (expands : d.Expands levels (parent.map (Kind.inline, ·)) index text out)
    (result : e.gather levels parent index text found = (found', true)) :
    global ∈ found' ∨ global ∈ e.values := by
  induction refers generalizing levels parent index out found found' with
  | @direct name after closed =>
    obtain ⟨parts, out', resolved, later, -⟩ := (expands_reference .global closed).mp expands
    obtain ⟨part, expanded⟩ := ok_of_mem_mapM resolved List.mem_cons_self
    obtain ⟨nonempty, -, -⟩ := expandName_ok expanded
    obtain ⟨last, rest, more⟩ := (follows same levels).gather_ok same
      (e.noted (String.ofList (Text.trim name)) found) later
    have entry : e.gather levels parent index
        (Kind.global.sigil :: '[' :: (name ++ ']' :: after)) found = (found', true) := result
    rw [gather_global closed, rest] at entry
    cases entry
    exact (mem_noted_self nonempty).imp_left fun new => more new
  | @through names after name body global closed listed defined inner ih =>
    obtain ⟨parts, out', resolved, later, -⟩ := (expands_reference .inline closed).mp expands
    obtain ⟨body', part, foreign, defined', expanded⟩ := inline_ok resolved listed
    rw [defined] at defined'
    cases defined'
    have follows := follows same levels
    have thorough := follows.thorough same resolved
    obtain ⟨between, gone, -⟩ := thorough.collectNames_ok parent found
    obtain ⟨last, rest, more⟩ := follows.gather_ok same between later
    have entry : e.gather levels parent index
        (Kind.inline.sigil :: '[' :: (names ++ ']' :: after)) found = (found', true) := result
    rw [gather_inline closed, gone] at entry
    simp only [rest] at entry
    cases entry
    have own : parent ≠ some name := by
      rintro rfl
      exact foreign rfl
    rw [← same] at defined
    have covered : global ∈ between ∨ global ∈ e.values := by
      refine thorough.mem_collectNames listed own defined ?_ gone
      intro found found' result
      obtain ⟨less, rfl, deeper⟩ := expandWithin_ok expanded
      exact ih deeper result
    exact covered.imp_left fun old => more old
  | behind kind closed _ ih =>
    obtain ⟨parts, out', resolved, later, -⟩ := (expands_reference kind closed).mp expands
    cases kind with
    | global =>
      rw [gather_global closed] at result
      exact ih later result
    | inline =>
      have thorough := (follows same levels).thorough same resolved
      obtain ⟨between, gone, -⟩ := thorough.collectNames_ok parent found
      rw [gather_inline closed, gone] at result
      exact ih later result
  | escape _ ih =>
    obtain ⟨out', later, -⟩ := expands_escape.mp expands
    rw [gather_escape] at result
    exact ih later result
  | plain h _ ih =>
    obtain ⟨out', later, -⟩ := (expands_plain h).mp expands
    rw [gather_plain h] at result
    exact ih later result

/-- The scan of a text that expands finds all that it refers to, unless there is a value. -/
theorem mem_globalReferences (same : e.glossary = d.glossary) (limit : e.depthLimit = d.depthLimit)
    (refers : References d.glossary text global) (expanded : d.expand text = .ok out) :
    global ∈ e.globalReferences text ∨ global ∈ e.values := by
  have expands :
      d.Expands e.depthLimit ((none : Option String).map (Kind.inline, ·)) 0 text out := by
    rw [limit]
    exact expand_eq_ok.mp expanded
  obtain ⟨found, scanned, -⟩ := (follows same e.depthLimit).gather_ok same [] expands
  have listed : e.globalReferences text = found := by
    rw [globalReferences, collectWithin_succ, scanned]
  rw [listed]
  exact mem_gather_of_references same refers expands scanned

end completeness

end Phrasebook.Definitions
