import Phrasebook.Book
import Phrasebook.Proofs.Substitution.Resolution

/-! Globals evaluated one after the other.
Each evaluation runs the resolved body of a global with the flags and the generator that the one
before has left. -/
namespace Phrasebook

inductive Evaluates (setting : Setting) (glossary : Glossary)
    (values : Std.ExtTreeMap String String) :
    List String → Flags → Generator → Flags → Generator → Prop where
  | nil (flags : Flags) (g : Generator) : Evaluates setting glossary values [] flags g flags g
  | cons {name body : String} {order : List String} {text : List Char} {output : Output}
      {flags flags' : Flags} {g g' : Generator}
      (defined : glossary.body? .global name = some body)
      (resolved : Resolved glossary values body.toList text)
      (ran : (evaluate setting text flags g).result = .ok output)
      (kept : values[name]? = some output.main)
      (later : Evaluates setting glossary values order (evaluate setting text flags g).flags
        (evaluate setting text flags g).generator flags' g') :
      Evaluates setting glossary values (name :: order) flags g flags' g'

theorem Evaluates.append {setting : Setting} {glossary : Glossary}
    {values : Std.ExtTreeMap String String} {order later : List String}
    {flags flags' flags'' : Flags} {g g' g'' : Generator}
    (h : Evaluates setting glossary values order flags g flags' g')
    (h' : Evaluates setting glossary values later flags' g' flags'' g'') :
    Evaluates setting glossary values (order ++ later) flags g flags'' g'' := by
  induction h with
  | nil => exact h'
  | cons defined resolved ran kept _ ih => exact .cons defined resolved ran kept (ih h')

/-- An order of all globals in which each comes after those that it depends on. -/
structure Schedule (glossary : Glossary) (order : List String) : Prop where
  distinct : order.Nodup
  complete : ∀ name, name ∈ order ↔ ∃ body, glossary.body? .global name = some body
  ranked : ∀ before name after, order = before ++ name :: after →
    ∀ other, DependsOn glossary name other → other ∈ before

namespace Schedule

variable {glossary : Glossary} {order : List String} {name other : String}

theorem earlier (h : Schedule glossary order) (depends : DependsOn glossary name other) :
    order.idxOf other < order.idxOf name := by
  have ⟨body, defined, _⟩ := depends
  have member : name ∈ order := (h.complete name).mpr ⟨body, defined⟩
  obtain ⟨before, after, split, absent⟩ := List.eq_append_cons_of_mem member
  have among := h.ranked before name after split other depends
  rw [split, List.idxOf_append, List.idxOf_append, if_pos among, if_neg absent,
    List.idxOf_cons_self, Nat.zero_add]
  exact List.idxOf_lt_length_of_mem among

theorem acyclic (h : Schedule glossary order) :
    ¬ Relation.TransGen (DependsOn glossary) name name := by
  have descends {first last : String} (path : Relation.TransGen (DependsOn glossary) first last) :
      order.idxOf last < order.idxOf first := by
    induction path with
    | single depends => exact h.earlier depends
    | tail _ depends ih => exact Nat.lt_trans (h.earlier depends) ih
  intro circle
  exact Nat.lt_irrefl _ (descends circle)

end Schedule

namespace Book

variable {b b' b'' : Book} {g g' g'' : Generator} {order order' : List String}

theorem run_ok {text : List Char} {output : Output} (h : b.run g text = ⟨.ok output, b', g'⟩) :
    ∃ expanded notices, b.definitions.expand text = .ok expanded ∧
      (evaluate b.setting expanded b.flags g).result = .ok output ∧
      b' = { b with flags := (evaluate b.setting expanded b.flags g).flags, notices } ∧
      g' = (evaluate b.setting expanded b.flags g).generator := by
  unfold run substitute at h
  cases result : b.definitions.expand text with
  | error e =>
    simp only [result] at h
    cases h
  | ok expanded =>
    simp only [result] at h
    split at h
    · rename_i output' succeeded
      cases h
      exact ⟨expanded, _, rfl, succeeded, rfl, rfl⟩
    · cases h
    · cases h

/-- From one book to another, exactly the globals of the list have been evaluated, each after those
that its body refers to. -/
structure Assigned (b : Book) (g : Generator) (order : List String) (b' : Book) (g' : Generator) :
    Prop where
  glossary : b'.glossary = b.glossary
  setting : b'.setting = b.setting
  limit : b'.depthLimit = b.depthLimit
  kept : Extends b.values b'.values
  added : ∀ name, name ∈ b'.values ↔ name ∈ b.values ∨ name ∈ order
  fresh : ∀ name ∈ order, name ∉ b.values
  distinct : order.Nodup
  ranked : ∀ before name after, order = before ++ name :: after →
    ∀ other, DependsOn b.glossary name other → other ∈ b.values ∨ other ∈ before
  evaluated : ∀ values, Extends b'.values values →
    Evaluates b.setting b.glossary values order b.flags g b'.flags g'

theorem Assigned.nil (b : Book) (g : Generator) : Assigned b g [] b g where
  glossary := rfl
  setting := rfl
  limit := rfl
  kept := fun _ _ known => known
  added := by simp
  fresh := nofun
  distinct := List.nodup_nil
  ranked := by simp
  evaluated := fun _ _ => .nil _ _

theorem Assigned.append (first : Assigned b g order b' g')
    (second : Assigned b' g' order' b'' g'') :
    Assigned b g (order ++ order') b'' g'' where
  glossary := second.glossary.trans first.glossary
  setting := second.setting.trans first.setting
  limit := second.limit.trans first.limit
  kept := fun name value known => second.kept name value (first.kept name value known)
  added := by
    intro name
    rw [second.added, first.added, List.mem_append, or_assoc]
  fresh := by
    intro name member known
    rcases List.mem_append.mp member with early | late
    · exact first.fresh name early known
    · exact second.fresh name late ((first.added name).mpr (.inl known))
  distinct := by
    refine List.nodup_append.mpr ⟨first.distinct, second.distinct, ?_⟩
    rintro name early _ late rfl
    exact second.fresh name late ((first.added name).mpr (.inr early))
  ranked := by
    intro before name after split other depends
    rcases List.append_eq_append_iff.mp split with ⟨between, rfl, rest⟩ | ⟨between, rest, tail⟩
    · rw [← first.glossary] at depends
      rcases second.ranked between name after rest other depends with known | among
      · rcases (first.added other).mp known with old | early
        · exact .inl old
        · exact .inr (List.mem_append_left _ early)
      · exact .inr (List.mem_append_right _ among)
    · cases between with
      | nil =>
        rw [List.append_nil] at rest
        rw [← first.glossary] at depends
        rcases second.ranked [] name after tail.symm other depends with known | none
        · rw [← rest]
          exact (first.added other).mp known
        · contradiction
      | cons head between =>
        obtain ⟨rfl, -⟩ := List.cons.inj tail
        exact first.ranked before name between rest other depends
  evaluated := by
    intro values later
    have early : Extends b'.values values :=
      fun name value known => later name value (second.kept name value known)
    have last := second.evaluated values later
    rw [first.setting, first.glossary] at last
    exact (first.evaluated values early).append last

theorem Assigned.single {name body : String} {output : Output} (unset : name ∉ b.values)
    (defined : b.glossary.body? .global name = some body)
    (settled : b.definitions.Settled body.toList)
    (ran : b.run g body.toList = ⟨.ok output, b', g'⟩) :
    Assigned b g [name] (b'.keep name output.main) g' := by
  obtain ⟨expanded, notices, expansion, succeeded, rfl, rfl⟩ := run_ok ran
  have kept : Extends b.values (b.values.insert name output.main) := by
    intro other value known
    have different : name ≠ other := by
      rintro rfl
      rw [Std.ExtTreeMap.getElem?_eq_none unset] at known
      contradiction
    rw [Std.ExtTreeMap.getElem?_insert, if_neg (by simpa using different)]
    exact known
  exact {
    glossary := rfl
    setting := rfl
    limit := rfl
    kept := kept
    added := by
      intro other
      simp only [keep, Std.ExtTreeMap.mem_insert, Std.LawfulEqCmp.compare_eq_iff_eq,
        List.mem_singleton]
      exact ⟨fun h => h.symm.imp_right Eq.symm, fun h => (h.imp_right Eq.symm).symm⟩
    fresh := by
      intro other member
      rw [List.mem_singleton.mp member]
      exact unset
    distinct := by simp
    ranked := by
      intro before other after split third depends
      have member : other ∈ [name] := by
        rw [split]
        exact List.mem_append_right _ List.mem_cons_self
      rw [List.mem_singleton.mp member] at depends
      obtain ⟨body', defined', refers⟩ := depends
      rw [defined] at defined'
      cases defined'
      exact .inl (settled third refers)
    evaluated := by
      intro values later
      have value : values[name]? = some output.main :=
        later name output.main Std.ExtTreeMap.getElem?_insert_self
      have earlier : Extends b.values values :=
        fun other value known => later other value (kept other value known)
      have resolved := Definitions.resolved_of_expands earlier settled
        (Definitions.expand_eq_ok.mp expansion)
      exact .cons defined resolved succeeded value (.nil _ _) }

end Book

end Phrasebook
