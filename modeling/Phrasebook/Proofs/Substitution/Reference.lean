import Phrasebook.Proofs.Substitution.Expansion

/-! What a text refers to.
References are read from the characters of a text, past escapes; an inline reference leads on into
the bodies that it names, a global one leads nowhere. -/
namespace Phrasebook

/-- The text refers to the global, directly or through any chain of inline bodies. -/
inductive References (glossary : Glossary) : List Char → String → Prop where
  | direct {name after : List Char} (closed : ']' ∉ name) :
      References glossary ('&' :: '[' :: (name ++ ']' :: after)) (String.ofList (Text.trim name))
  | through {names after : List Char} {name body global : String} (closed : ']' ∉ names)
      (listed : name ∈ Piece.names .inline names)
      (defined : glossary.body? .inline name = some body)
      (inner : References glossary body.toList global) :
      References glossary ('=' :: '[' :: (names ++ ']' :: after)) global
  | behind (kind : Kind) {name after : List Char} {global : String} (closed : ']' ∉ name)
      (later : References glossary after global) :
      References glossary (kind.sigil :: '[' :: (name ++ ']' :: after)) global
  | escape {c : Char} {rest : List Char} {global : String}
      (later : References glossary rest global) : References glossary ('\\' :: c :: rest) global
  | plain {c : Char} {rest : List Char} {global : String} (h : Piece.Plain c rest)
      (later : References glossary rest global) : References glossary (c :: rest) global

def DependsOn (glossary : Glossary) (name other : String) : Prop :=
  ∃ body, glossary.body? .global name = some body ∧ References glossary body.toList other

namespace Definitions

variable {d : Definitions} {levels index : Nat} {parent : Option (Kind × String)}
  {text out : List Char} {global : String}

/-- A text that expands enters the body of every global that it refers to and that has no value. -/
theorem expands_body (refers : References d.glossary text global)
    (unset : global ∉ d.values) (expands : d.Expands levels parent index text out) :
    ∃ body less out', d.glossary.body? .global global = some body ∧ less < levels ∧
      d.Expands less (some (.global, global)) 0 body.toList out' := by
  induction refers generalizing levels parent index out with
  | @direct name after closed =>
    obtain ⟨parts, -, resolved, -, -⟩ := (expands_reference .global closed).mp expands
    obtain ⟨part, expanded⟩ := ok_of_mem_mapM resolved List.mem_cons_self
    obtain ⟨-, -, resolved⟩ := expandName_ok expanded
    rcases resolve_ok resolved with ⟨-, value, cached, -⟩ | ⟨-, body, defined, entered⟩
    · rw [Std.ExtTreeMap.getElem?_eq_none unset] at cached
      contradiction
    · obtain ⟨less, rfl, deeper⟩ := expandWithin_ok entered
      exact ⟨body, less, part, defined, Nat.lt_succ_self less, deeper⟩
  | @through names after name body global closed listed defined inner ih =>
    obtain ⟨parts, -, resolved, -, -⟩ := (expands_reference .inline closed).mp expands
    obtain ⟨body', part, -, defined', entered⟩ := inline_ok resolved listed
    rw [defined] at defined'
    cases defined'
    obtain ⟨less, rfl, deeper⟩ := expandWithin_ok entered
    obtain ⟨body, lesser, out', found, lower, expands⟩ := ih unset deeper
    exact ⟨body, lesser, out', found, Nat.lt_succ_of_lt lower, expands⟩
  | behind kind closed _ ih =>
    obtain ⟨-, out', -, later, -⟩ := (expands_reference kind closed).mp expands
    exact ih unset later
  | escape _ ih =>
    obtain ⟨out', later, -⟩ := expands_escape.mp expands
    exact ih unset later
  | plain h _ ih =>
    obtain ⟨out', later, -⟩ := (expands_plain h).mp expands
    exact ih unset later

/-- Where every global of a set depends on one of them and none has a value, no body of theirs
expands, whatever the depth limit. -/
theorem not_expands_of_circle {circle : List String}
    (unset : ∀ name ∈ circle, name ∉ d.values)
    (closed : ∀ name ∈ circle, ∃ other ∈ circle, DependsOn d.glossary name other)
    {name body : String} (member : name ∈ circle)
    (defined : d.glossary.body? .global name = some body) :
    ¬ d.Expands levels parent index body.toList out := by
  induction levels using Nat.strongRecOn generalizing name body parent index out with
  | ind levels ih =>
    intro expands
    obtain ⟨other, among, body', defined', refers⟩ := closed name member
    rw [defined] at defined'
    cases defined'
    obtain ⟨inner, less, out', found, lower, deeper⟩ :=
      expands_body refers (unset other among) expands
    exact ih less lower among found deeper

end Definitions

end Phrasebook
