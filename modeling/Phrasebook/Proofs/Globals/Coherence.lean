import Mathlib
import Phrasebook.Proofs.Globals.Schedule
import Phrasebook.Proofs.Substitution.Collecting

/-! The values of globals are coherent.
The globals whose evaluation waits form a chain in which each depends on the one inside it. If a
global referred back into that chain there would be a circle without values, and a body on such a
circle never expands; so what is evaluated successfully has values for all that it refers to. -/
namespace Phrasebook.Book

variable {b b' : Book} {g g' : Generator} {order waiting unstarted names : List String}
  {name body : String}

/-- What holds while globals wait, the innermost first, for the evaluation of the names. -/
structure Waits (b : Book) (waiting unstarted names : List String) : Prop where
  unset : ∀ name ∈ waiting, name ∉ b.values
  started : ∀ name ∈ waiting, name ∉ unstarted
  linked : ∀ name ∈ waiting.tail, ∃ other ∈ waiting, DependsOn b.glossary name other
  wanted : ∀ name ∈ waiting.head?, ∀ other ∈ names, DependsOn b.glossary name other
  accounted : ∀ name body, b.glossary.body? .global name = some body →
    name ∈ unstarted ∨ name ∈ b.values ∨ name ∈ waiting
  distinct : unstarted.Nodup

def Served (b : Book) (waiting names : List String) : Prop :=
  ∀ name ∈ names, ∀ body, b.glossary.body? .global name = some body →
    name ∈ b.values ∨ name ∈ waiting

theorem Served.cons (h : Served b waiting names)
    (first : ∀ body, b.glossary.body? .global name = some body →
      name ∈ b.values ∨ name ∈ waiting) : Served b waiting (name :: names) := by
  intro other member body defined
  rcases List.mem_cons.mp member with rfl | later
  · exact first body defined
  · exact h other later body defined

namespace Waits

theorem skip (h : Waits b waiting unstarted (name :: names)) : Waits b waiting unstarted names :=
  { h with wanted := fun inner first other member =>
      h.wanted inner first other (List.mem_cons_of_mem name member) }

theorem enter (h : Waits b waiting unstarted (name :: names)) (unset : name ∉ b.values)
    (fresh : name ∈ unstarted) (defined : b.glossary.body? .global name = some body) :
    Waits b (name :: waiting) (unstarted.erase name)
      (b.definitions.globalReferences body.toList) where
  unset := by
    intro other member
    rcases List.mem_cons.mp member with rfl | outer
    · exact unset
    · exact h.unset other outer
  started := by
    intro other member among
    rcases List.mem_cons.mp member with rfl | outer
    · exact h.distinct.not_mem_erase among
    · exact h.started other outer (List.mem_of_mem_erase among)
  linked := by
    intro other member
    cases waiting with
    | nil => contradiction
    | cons inner outer =>
      rcases List.mem_cons.mp member with rfl | deeper
      · exact ⟨name, List.mem_cons_self, h.wanted other rfl name List.mem_cons_self⟩
      · obtain ⟨next, among, depends⟩ := h.linked other deeper
        exact ⟨next, List.mem_cons_of_mem name among, depends⟩
  wanted := by
    intro inner first other member
    cases first
    exact ⟨body, defined, Definitions.references_of_mem member⟩
  accounted := by
    intro other text known
    by_cases same : other = name
    · subst same
      exact .inr (.inr List.mem_cons_self)
    · rcases h.accounted other text known with later | value | outer
      · exact .inl ((List.mem_erase_of_ne same).mpr later)
      · exact .inr (.inl value)
      · exact .inr (.inr (List.mem_cons_of_mem name outer))
  distinct := h.distinct.erase name

/-- Evaluations of globals that had not been started leave those that wait as they are. -/
theorem advance (h : Waits b waiting unstarted names) (assigned : Assigned b g order b' g')
    (new : order ⊆ unstarted) : Waits b' waiting unstarted names where
  unset := by
    intro other member known
    rcases (assigned.added other).mp known with old | evaluated
    · exact h.unset other member old
    · exact h.started other member (new evaluated)
  started := h.started
  linked := by
    rw [assigned.glossary]
    exact h.linked
  wanted := by
    rw [assigned.glossary]
    exact h.wanted
  accounted := by
    intro other text known
    rw [assigned.glossary] at known
    rcases h.accounted other text known with later | value | outer
    · exact .inl later
    · exact .inr (.inl ((assigned.added other).mpr (.inl value)))
    · exact .inr (.inr outer)
  distinct := h.distinct

/-- Once all that it refers to is served, a body that expands has values for it: otherwise it would
refer back to a global that waits. -/
theorem settled {inner : List String} {expanded : List Char}
    (h : Waits b' (name :: waiting) unstarted inner) (assigned : Assigned b g order b' g')
    (defined : b'.glossary.body? .global name = some body)
    (served : Served b' (name :: waiting) (b.definitions.globalReferences body.toList))
    (expansion : b'.definitions.expand body.toList = .ok expanded) :
    b'.definitions.Settled body.toList := by
  intro global refers
  have same : b.definitions.glossary = b'.definitions.glossary := assigned.glossary.symm
  have expands := Definitions.expand_eq_ok.mp expansion
  rcases Definitions.mem_globalReferences same assigned.limit.symm refers expansion with
    found | known
  · by_cases value : global ∈ b'.values
    · exact value
    · obtain ⟨text, -, -, present, -, -⟩ := Definitions.expands_body refers value expands
      rcases served global found text present with known | back
      · exact known
      · have closed : ∀ other ∈ name :: waiting, ∃ next ∈ name :: waiting,
            DependsOn b'.glossary other next := by
          intro other member
          rcases List.mem_cons.mp member with rfl | outer
          · exact ⟨global, back, body, defined, refers⟩
          · exact h.linked other outer
        exact absurd expands
          (Definitions.not_expands_of_circle h.unset closed List.mem_cons_self defined)
  · exact (assigned.added global).mpr (.inl known)

end Waits

/-- What a successful pass over names has evaluated, while others wait. -/
theorem assign_ok (waits : Waits b waiting unstarted names)
    (h : assign unstarted names b g = ⟨.ok (), b', g'⟩) :
    ∃ order, Assigned b g order b' g' ∧ order ⊆ unstarted ∧ Served b' waiting names := by
  fun_induction assign unstarted names b g generalizing waiting b' g' with
  | case1 unstarted b g =>
    cases h
    exact ⟨[], .nil b g, List.nil_subset _, nofun⟩
  | case2 unstarted b g name names known ih =>
    obtain ⟨order, assigned, new, served⟩ := ih waits.skip h
    have value : name ∈ b'.values :=
      (assigned.added name).mpr (.inl (Std.ExtTreeMap.mem_iff_contains.mpr known))
    exact ⟨order, assigned, new, served.cons fun _ _ => .inl value⟩
  | case3 unstarted b g name names _ _ undefined ih =>
    obtain ⟨order, assigned, new, served⟩ := ih waits.skip h
    refine ⟨order, assigned, new, served.cons fun body defined => ?_⟩
    rw [assigned.glossary, undefined] at defined
    contradiction
  | case4 => cases h
  | case5 => cases h
  | case6 unstarted b g name names unset fresh body defined _ _ b₁ g₁ inner output b₂ g₂ ran
      ihInner =>
    rename_i ihOuter
    have unset : name ∉ b.values := fun known => unset (Std.ExtTreeMap.mem_iff_contains.mp known)
    have entered := waits.enter unset fresh defined
    obtain ⟨early, assigned, new, served⟩ := ihInner entered inner
    have within : early ⊆ unstarted := fun _ member => List.mem_of_mem_erase (new member)
    have waiting₁ := entered.advance assigned new
    obtain ⟨expanded, -, expansion, -⟩ := run_ok ran
    have defined₁ : b₁.glossary.body? .global name = some body := by
      rw [assigned.glossary]
      exact defined
    have settled := waiting₁.settled assigned defined₁ served expansion
    have own := Assigned.single (waiting₁.unset name List.mem_cons_self) defined₁ settled ran
    have soFar := assigned.append own
    have allNew : early ++ [name] ⊆ unstarted := by
      intro other member
      rcases List.mem_append.mp member with before | last
      · exact within before
      · rw [List.mem_singleton.mp last]
        exact fresh
    obtain ⟨late, rest, newLate, servedLate⟩ := ihOuter (waits.skip.advance soFar allNew) h
    have value : name ∈ b'.values := by
      refine (rest.added name).mpr (.inl ((soFar.added name).mpr (.inr ?_)))
      exact List.mem_append_right early List.mem_cons_self
    exact ⟨_, soFar.append rest, List.append_subset.mpr ⟨allNew, newLate⟩,
      servedLate.cons fun _ _ => .inl value⟩
  | case7 unstarted b g name names unset started ih =>
    obtain ⟨order, assigned, new, served⟩ := ih waits.skip h
    refine ⟨order, assigned, new, served.cons fun body defined => ?_⟩
    rw [assigned.glossary] at defined
    rcases waits.accounted name body defined with later | known | outer
    · exact absurd later started
    · exact absurd (Std.ExtTreeMap.mem_iff_contains.mp known) unset
    · exact .inr outer

theorem mem_globalNames {glossary : Glossary} :
    name ∈ glossary.globalNames ↔ ∃ body, glossary.body? .global name = some body := by
  rw [Glossary.globalNames, Std.ExtTreeMap.mem_keys, Std.ExtTreeMap.mem_iff_isSome_getElem?,
    Option.isSome_iff_exists]
  rfl

theorem waits_start (b : Book) :
    Waits { b with notices := [], values := ∅ } [] b.glossary.globalNames
      b.glossary.globalNames where
  unset := nofun
  started := nofun
  linked := nofun
  wanted := nofun
  accounted := fun _ body defined => .inl (mem_globalNames.mpr ⟨body, defined⟩)
  distinct := Std.ExtTreeMap.nodup_keys

/-- What a successful evaluation of all globals leaves: values for exactly the defined ones, each of
which comes from its body with the final values put in, in an order that respects dependencies. -/
structure Coherent (b : Book) (g : Generator) (order : List String) (reply : Reply Unit) :
    Prop where
  schedule : Schedule b.glossary order
  valued : ∀ name, name ∈ reply.book.values ↔ name ∈ order
  evaluated : Evaluates b.setting b.glossary reply.book.values order b.flags g reply.book.flags
    reply.generator

theorem coherent_of_ok {b : Book} {g : Generator} (h : (b.assignGlobals g).result = .ok ()) :
    ∃ order, Coherent b g order (b.assignGlobals g) := by
  generalize reply : b.assignGlobals g = r at h ⊢
  obtain ⟨result, b', g'⟩ := r
  cases h
  obtain ⟨order, assigned, new, served⟩ := assign_ok (waits_start b) reply
  have valued (name : String) : name ∈ b'.values ↔ name ∈ order := by
    rw [assigned.added]
    exact or_iff_right Std.ExtTreeMap.not_mem_empty
  refine ⟨order, ⟨assigned.distinct, ?_, ?_⟩, valued, ?_⟩
  · intro name
    constructor
    · intro member
      exact mem_globalNames.mp (new member)
    · rintro ⟨body, defined⟩
      have known := mem_globalNames.mpr ⟨body, defined⟩
      rw [← show b'.glossary = b.glossary from assigned.glossary] at defined
      rcases served name known body defined with value | none
      · exact (valued name).mp value
      · contradiction
  · intro before name after split other depends
    rcases assigned.ranked before name after split other depends with old | among
    · exact absurd old Std.ExtTreeMap.not_mem_empty
    · exact among
  · exact assigned.evaluated b'.values fun _ _ known => known

/-- Evaluating all globals is coherent if it succeeds, and where they depend on each other in a
circle it fails. -/
theorem assignGlobals_coherent (b : Book) (g : Generator) :
    ((b.assignGlobals g).result = .ok () → ∃ order, Coherent b g order (b.assignGlobals g)) ∧
      ((∃ name, Relation.TransGen (DependsOn b.glossary) name name) →
        ∃ e, (b.assignGlobals g).result = .error e) := by
  refine ⟨coherent_of_ok, ?_⟩
  rintro ⟨name, circle⟩
  cases result : (b.assignGlobals g).result with
  | error e => exact ⟨e, rfl⟩
  | ok _ =>
    obtain ⟨order, coherent⟩ := coherent_of_ok result
    exact absurd circle coherent.schedule.acyclic

def ofGlossary (glossary : Glossary) : Book where
  lexicons := ∅
  anthologies := ∅
  glossary := glossary
  values := ∅
  flags := ∅
  notices := []
  lineBreak := defaultLineBreak
  depthLimit := defaultDepthLimit

def pair : Book := ofGlossary (.ofList [⟨.global, "a", "x"⟩, ⟨.global, "b", "&[a]"⟩])

def circle : Book :=
  ofGlossary (.ofList [⟨.global, "a", "=[m]"⟩, ⟨.inline, "m", "&[b]"⟩, ⟨.global, "b", "&[a]"⟩])

theorem circle_depends : Relation.TransGen (DependsOn circle.glossary) "a" "a" := by
  have toA : References circle.glossary "&[a]".toList "a" := by
    have closed : ']' ∉ ['a'] := by decide
    exact .direct closed
  have toB : References circle.glossary "&[b]".toList "b" := by
    have closed : ']' ∉ ['b'] := by decide
    exact .direct closed
  have through : References circle.glossary "=[m]".toList "b" := by
    have closed : ']' ∉ ['m'] := by decide
    have listed : "m" ∈ Piece.names .inline ['m'] := by decide
    have defined : circle.glossary.body? .inline "m" = some "&[b]" := by cbv
    exact .through closed listed defined toB
  exact .tail (.single ⟨"=[m]", by cbv, through⟩) ⟨"&[a]", by cbv, toA⟩

theorem assignGlobals_coherent_pair :
    (∃ order, Coherent pair (Generator.ofSeed 7 0) order
        (pair.assignGlobals (Generator.ofSeed 7 0))) ∧
      ∃ e, (circle.assignGlobals (Generator.ofSeed 7 0)).result = .error e := by
  have succeeds : (pair.assignGlobals (Generator.ofSeed 7 0)).result.isOk = true := by cbv
  have result : (pair.assignGlobals (Generator.ofSeed 7 0)).result = .ok () := by
    cases ended : (pair.assignGlobals (Generator.ofSeed 7 0)).result with
    | error e =>
      rw [ended] at succeeds
      contradiction
    | ok _ => rfl
  exact ⟨(assignGlobals_coherent pair (Generator.ofSeed 7 0)).1 result,
    (assignGlobals_coherent circle (Generator.ofSeed 7 0)).2 ⟨"a", circle_depends⟩⟩

end Phrasebook.Book
