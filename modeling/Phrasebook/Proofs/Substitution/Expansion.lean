import Phrasebook.Proofs.Results
import Phrasebook.Proofs.Substitution.Pieces

/-! When a text expands, and into what.
The expansion of a text is followed piece by piece; what it says of a reference is said of each of
its names. A text without sigils is not taken apart, and would come out the same if it were. -/
namespace Phrasebook

namespace Definitions

variable {d : Definitions} {levels index index' : Nat} {parent : Option (Kind × String)}
  {kind : Kind} {c : Char} {text name rest after out : List Char}

def enter (d : Definitions) (levels : Nat) (kind : Kind) (name : String) (body : List Char) :
    Except (SubstitutionError × Nat) (List Char) :=
  d.expandWithin levels (some (kind, name)) body

/-- A text that begins at an index expands, with so many levels left for bodies. -/
def Expands (d : Definitions) (levels : Nat) (parent : Option (Kind × String)) (index : Nat)
    (text out : List Char) : Prop :=
  ∃ parts, (Piece.scan index text).mapM (d.expandPiece (d.enter levels) parent) = .ok parts ∧
    parts.flatten = out

theorem expandWithin_succ :
    d.expandWithin (levels + 1) parent text = .ok out ↔ d.Expands levels parent 0 text out := by
  rw [expandWithin]
  constructor
  · intro h
    split at h
    · rename_i parts mapped
      cases h
      exact ⟨parts, mapped, rfl⟩
    · contradiction
  · rintro ⟨parts, mapped, rfl⟩
    have mapped : (Piece.scan 0 text).mapM (d.expandPiece
      (fun kind name body => d.expandWithin levels (some (kind, name)) body) parent) =
        .ok parts := mapped
    simp only [mapped]

/-- A body that expands was entered with a level left. -/
theorem expandWithin_ok (h : d.expandWithin levels parent text = .ok out) :
    ∃ less, levels = less + 1 ∧ d.Expands less parent 0 text out := by
  cases levels with
  | zero => contradiction
  | succ less => exact ⟨less, rfl, expandWithin_succ.mp h⟩

theorem expands_of_scan_nil (h : Piece.scan index text = []) :
    d.Expands levels parent index text out ↔ out = [] := by
  rw [Expands, h]
  constructor
  · rintro ⟨parts, mapped, rfl⟩
    cases mapped
    rfl
  · rintro rfl
    exact ⟨[], rfl, rfl⟩

theorem expands_of_scan_cons {piece : Piece}
    (h : Piece.scan index text = piece :: Piece.scan index' rest) :
    d.Expands levels parent index text out ↔
      ∃ part out', d.expandPiece (d.enter levels) parent piece = .ok part ∧
        d.Expands levels parent index' rest out' ∧ out = part ++ out' := by
  rw [Expands, h]
  constructor
  · rintro ⟨parts, mapped, rfl⟩
    obtain ⟨part, others, head, tail, rfl⟩ := mapM_cons_ok.mp mapped
    exact ⟨part, others.flatten, head, ⟨others, tail, rfl⟩, rfl⟩
  · rintro ⟨part, out', head, ⟨others, tail, rfl⟩, rfl⟩
    exact ⟨part :: others, mapM_cons_ok.mpr ⟨part, others, head, tail, rfl⟩, rfl⟩

theorem expands_nil : d.Expands levels parent index [] out ↔ out = [] :=
  expands_of_scan_nil (by rw [Piece.scan])

theorem expands_lone : d.Expands levels parent index ['\\'] out ↔ out = ['\\'] := by
  have scanned : Piece.scan index ['\\'] = .escape [] :: Piece.scan index [] := by
    rw [Piece.scan_lone, Piece.scan]
  rw [expands_of_scan_cons scanned]
  constructor
  · rintro ⟨part, out', head, tail, rfl⟩
    rw [expands_nil.mp tail, ← Except.ok.inj head]
    rfl
  · rintro rfl
    exact ⟨_, [], rfl, expands_nil.mpr rfl, rfl⟩

theorem expands_escape :
    d.Expands levels parent index ('\\' :: c :: rest) out ↔
      ∃ out', d.Expands levels parent (index + 2) rest out' ∧ out = '\\' :: c :: out' := by
  rw [expands_of_scan_cons (Piece.scan_escape c rest)]
  constructor
  · rintro ⟨part, out', head, tail, rfl⟩
    cases head
    exact ⟨out', tail, rfl⟩
  · rintro ⟨out', tail, rfl⟩
    exact ⟨_, out', rfl, tail, rfl⟩

theorem expands_plain (h : Piece.Plain c rest) :
    d.Expands levels parent index (c :: rest) out ↔
      ∃ out', d.Expands levels parent (index + 1) rest out' ∧ out = c :: out' := by
  rw [expands_of_scan_cons (Piece.scan_plain h)]
  constructor
  · rintro ⟨part, out', head, tail, rfl⟩
    cases head
    exact ⟨out', tail, rfl⟩
  · rintro ⟨out', tail, rfl⟩
    exact ⟨_, out', rfl, tail, rfl⟩

theorem not_expands_unterminated (unclosed : ']' ∉ text) :
    ¬ d.Expands levels parent index (kind.sigil :: '[' :: text) out := by
  rintro ⟨parts, mapped, -⟩
  rw [Piece.scan_unterminated unclosed] at mapped
  obtain ⟨part, -, failed, -, -⟩ := mapM_cons_ok.mp mapped
  contradiction

theorem expands_reference (kind : Kind) (closed : ']' ∉ name) :
    d.Expands levels parent index (kind.sigil :: '[' :: (name ++ ']' :: after)) out ↔
      ∃ parts out',
        (Piece.names kind name).mapM (d.expandName (d.enter levels) parent kind) = .ok parts ∧
        d.Expands levels parent (index + name.length + 3) after out' ∧
        out = parts.flatten ++ out' := by
  rw [expands_of_scan_cons (Piece.scan_reference closed)]
  constructor
  · rintro ⟨part, out', head, tail, rfl⟩
    simp only [expandPiece] at head
    split at head
    · rename_i parts resolved
      cases head
      exact ⟨parts, out', resolved, tail, rfl⟩
    · contradiction
  · rintro ⟨parts, out', resolved, tail, rfl⟩
    refine ⟨parts.flatten, out', ?_, tail, rfl⟩
    simp only [expandPiece, resolved]

theorem resolve_ok {name : String} (h : d.resolve (d.enter levels) kind name = .ok out) :
    (kind = .global ∧ ∃ value, d.values[name]? = some value ∧ out = escapeLiteral value.toList) ∨
      ((kind = .global → d.values[name]? = none) ∧ ∃ body, d.glossary.body? kind name = some body ∧
        d.expandWithin levels (some (kind, name)) body.toList = .ok out) := by
  unfold resolve at h
  split at h
  · rename_i value cached
    cases h
    exact .inl ⟨rfl, value, cached, rfl⟩
  · rename_i kind _ _ uncached
    have unset : kind = .global → d.values[name]? = none := by
      intro same
      exact Option.eq_none_iff_forall_ne_some.mpr fun value => uncached value same
    split at h
    · contradiction
    · rename_i body defined
      have entered : d.expandWithin levels (some (kind, name)) body.toList = .ok out :=
        mapError_eq_ok.mp h
      exact .inr ⟨unset, body, defined, entered⟩

theorem expandName_ok {name : String}
    (h : d.expandName (d.enter levels) parent kind name = .ok out) :
    name.isEmpty = false ∧ parent ≠ some (kind, name) ∧
      d.resolve (d.enter levels) kind name = .ok out := by
  unfold expandName at h
  split at h
  · contradiction
  · rename_i nonempty
    split at h
    · contradiction
    · rename_i foreign
      exact ⟨Bool.eq_false_iff.mpr nonempty, foreign, h⟩

theorem inline_ok {names : List String} {name : String} {parts : List (List Char)}
    (h : names.mapM (d.expandName (d.enter levels) parent .inline) = .ok parts)
    (listed : name ∈ names) :
    ∃ body part, parent ≠ some (.inline, name) ∧ d.glossary.body? .inline name = some body ∧
      d.expandWithin levels (some (.inline, name)) body.toList = .ok part := by
  obtain ⟨part, expanded⟩ := ok_of_mem_mapM h listed
  obtain ⟨-, foreign, resolved⟩ := expandName_ok expanded
  rcases resolve_ok resolved with ⟨other, -⟩ | ⟨-, body, defined, entered⟩
  · contradiction
  · exact ⟨body, part, foreign, defined, entered⟩

theorem expands_self (absent : ∀ kind : Kind, kind.sigil ∉ text) :
    d.Expands levels parent index text text := by
  induction text using Piece.induction generalizing index with
  | nil => exact expands_nil.mpr rfl
  | lone => exact expands_lone.mpr rfl
  | escape c rest ih =>
    have later : ∀ kind : Kind, kind.sigil ∉ rest := by
      intro kind member
      exact absent kind (List.mem_cons_of_mem _ (List.mem_cons_of_mem _ member))
    exact expands_escape.mpr ⟨rest, ih later, rfl⟩
  | reference kind name after closed ih => exact absurd List.mem_cons_self (absent kind)
  | unterminated kind text unclosed => exact absurd List.mem_cons_self (absent kind)
  | plain c rest h ih =>
    have later : ∀ kind : Kind, kind.sigil ∉ rest := by
      intro kind member
      exact absent kind (List.mem_cons_of_mem _ member)
    exact (expands_plain h).mpr ⟨rest, ih later, rfl⟩

/-- A text without sigils is what the pieces make of it too. -/
theorem expand_eq_expandWithin (d : Definitions) (text : List Char) :
    d.expand text = d.expandWithin (d.depthLimit + 1) none text := by
  unfold expand
  split
  · rfl
  · rename_i unmarked
    have absent := Kind.any_ofSigil?_eq_false.mp (Bool.eq_false_iff.mpr unmarked)
    exact (expandWithin_succ.mpr (expands_self absent)).symm

theorem expand_eq_ok : d.expand text = .ok out ↔ d.Expands d.depthLimit none 0 text out := by
  rw [expand_eq_expandWithin, expandWithin_succ]

/-- Where there is no sigil, going through the pieces gives the text back, inside of any definition
and at any depth that the limit allows, so that leaving it out changes no expansion. -/
theorem expand_shortcut (d : Definitions) :
    (∀ text : List Char, (∀ kind : Kind, kind.sigil ∉ text) → ∀ parent depth,
      d.expandWithin (d.depthLimit + 1 - depth) parent text = .ok text ↔ depth ≤ d.depthLimit) ∧
    ∀ text, d.expand text = d.expandWithin (d.depthLimit + 1) none text := by
  refine ⟨?_, d.expand_eq_expandWithin⟩
  intro text absent parent depth
  constructor
  · intro expanded
    obtain ⟨less, left, -⟩ := expandWithin_ok expanded
    omega
  · intro within
    rw [Nat.sub_add_comm within]
    exact expandWithin_succ.mpr (expands_self absent)

/-- An inline body and the value of a global that both name the body again. -/
def looping : Definitions :=
  ⟨.ofList [⟨.inline, "a", "=[a]"⟩], .ofList [("g", "=[a]")], 2⟩

theorem expand_shortcut_trailing :
    (∀ kind : Kind, kind.sigil ∉ "[a]\\]\\".toList) ∧
    looping.expandWithin (looping.depthLimit + 1 - 2) (some (.inline, "a")) "[a]\\]\\".toList =
      .ok "[a]\\]\\".toList ∧
    looping.expand "=[a]".toList =
      looping.expandWithin (looping.depthLimit + 1) none "=[a]".toList := by
  have absent : ∀ kind : Kind, kind.sigil ∉ "[a]\\]\\".toList := by
    intro kind
    cases kind <;> decide
  obtain ⟨unmarked, same⟩ := expand_shortcut looping
  exact ⟨absent, (unmarked _ absent _ 2).mpr (by decide), same _⟩

end Definitions

end Phrasebook
