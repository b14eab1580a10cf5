import Phrasebook.Proofs.Substitution.Reference

/-! Texts whose globals all have values.
In such a text each inline name stands for its resolved body and each global for its value as plain
text; the body of a global does not occur. -/
namespace Phrasebook

mutual

/-- A text with its inline bodies put in, and with values, not bodies, for its globals. -/
inductive Resolved (glossary : Glossary) (values : Std.ExtTreeMap String String) :
    List Char → List Char → Prop where
  | nil : Resolved glossary values [] []
  | lone : Resolved glossary values ['\\'] ['\\']
  | escape {c : Char} {rest out : List Char} (later : Resolved glossary values rest out) :
      Resolved glossary values ('\\' :: c :: rest) ('\\' :: c :: out)
  | plain {c : Char} {rest out : List Char} (h : Piece.Plain c rest)
      (later : Resolved glossary values rest out) : Resolved glossary values (c :: rest) (c :: out)
  | global {name after out : List Char} {value : String} (closed : ']' ∉ name)
      (known : values[String.ofList (Text.trim name)]? = some value)
      (later : Resolved glossary values after out) :
      Resolved glossary values ('&' :: '[' :: (name ++ ']' :: after))
        (escapeLiteral value.toList ++ out)
  | inline {names after part out : List Char} (closed : ']' ∉ names)
      (bodies : ResolvedAll glossary values (Piece.names .inline names) part)
      (later : Resolved glossary values after out) :
      Resolved glossary values ('=' :: '[' :: (names ++ ']' :: after)) (part ++ out)

inductive ResolvedAll (glossary : Glossary) (values : Std.ExtTreeMap String String) :
    List String → List Char → Prop where
  | nil : ResolvedAll glossary values [] []
  | cons {name body : String} {names : List String} {part out : List Char}
      (defined : glossary.body? .inline name = some body)
      (inner : Resolved glossary values body.toList part)
      (others : ResolvedAll glossary values names out) :
      ResolvedAll glossary values (name :: names) (part ++ out)

end

def Extends (values later : Std.ExtTreeMap String String) : Prop :=
  ∀ (name value : String), values[name]? = some value → later[name]? = some value

namespace Definitions

variable {d : Definitions} {values : Std.ExtTreeMap String String} {levels index : Nat}
  {parent : Option (Kind × String)} {text out : List Char}

def Settled (d : Definitions) (text : List Char) : Prop :=
  ∀ global, References d.glossary text global → global ∈ d.values

theorem resolvedAll_of_ok {names : List String} {parts : List (List Char)}
    (resolved : names.mapM (d.expandName (d.enter levels) parent .inline) = .ok parts)
    (inner : ∀ name ∈ names, ∀ body part, d.glossary.body? .inline name = some body →
      d.expandWithin levels (some (.inline, name)) body.toList = .ok part →
      Resolved d.glossary values body.toList part) :
    ResolvedAll d.glossary values names parts.flatten := by
  induction names generalizing parts with
  | nil =>
    cases resolved
    exact .nil
  | cons name names ih =>
    obtain ⟨part, others, head, tail, rfl⟩ := mapM_cons_ok.mp resolved
    obtain ⟨-, -, head⟩ := expandName_ok head
    rcases resolve_ok head with ⟨other, -⟩ | ⟨-, body, defined, entered⟩
    · contradiction
    · have first := inner name List.mem_cons_self body part defined entered
      exact .cons defined first (ih tail fun other member =>
        inner other (List.mem_cons_of_mem name member))

/-- A settled text expands to what it resolves to under any later values. -/
theorem resolved_of_expands (later : Extends d.values values) (settled : d.Settled text)
    (expands : d.Expands levels parent index text out) : Resolved d.glossary values text out := by
  induction levels using Nat.strongRecOn generalizing parent index text out with
  | ind levels deeper =>
    induction text using Piece.induction generalizing index out with
    | nil =>
      rw [expands_nil.mp expands]
      exact .nil
    | lone =>
      rw [expands_lone.mp expands]
      exact .lone
    | escape c rest ih =>
      obtain ⟨out', tail, rfl⟩ := expands_escape.mp expands
      exact .escape (ih (fun global refers => settled global (.escape refers)) tail)
    | reference kind name after closed ih =>
      obtain ⟨parts, out', resolved, tail, rfl⟩ := (expands_reference kind closed).mp expands
      have behind := ih (fun global refers => settled global (.behind kind closed refers)) tail
      cases kind with
      | global =>
        obtain ⟨part, others, head, none, rfl⟩ := mapM_cons_ok.mp resolved
        have only : others = [] := (Except.ok.inj none).symm
        subst only
        obtain ⟨-, -, head⟩ := expandName_ok head
        rcases resolve_ok head with ⟨-, value, known, rfl⟩ | ⟨unset, -⟩
        · rw [List.flatten_cons, List.flatten_nil, List.append_nil]
          exact .global closed (later _ value known) behind
        · have known := Std.ExtTreeMap.mem_iff_isSome_getElem?.mp (settled _ (.direct closed))
          rw [unset rfl] at known
          contradiction
      | inline =>
        refine .inline closed (resolvedAll_of_ok resolved ?_) behind
        intro other listed body part defined entered
        obtain ⟨less, rfl, inner⟩ := expandWithin_ok entered
        refine deeper less (Nat.lt_succ_self less) ?_ inner
        intro global refers
        exact settled global (.through closed listed defined refers)
    | unterminated kind text unclosed => exact absurd expands (not_expands_unterminated unclosed)
    | plain c rest h ih =>
      obtain ⟨out', tail, rfl⟩ := (expands_plain h).mp expands
      exact .plain h (ih (fun global refers => settled global (.plain h refers)) tail)

end Definitions

end Phrasebook
