import Mathlib
import Phrasebook.Proofs.Substitution.Escapes
import Phrasebook.Proofs.Substitution.Expansion

/-! Where the expansion of a text fails.
It fails at the first reference that cannot be replaced: what stands before it expands, and what
begins with it fails in the same way, however deep in the bodies that it enters the failure lies. -/
namespace Phrasebook

theorem Piece.Plain.left {c : Char} {front back : List Char} (h : Plain c (front ++ back)) :
    Plain c front := by
  refine ⟨h.1, h.2.imp id ?_⟩
  intro unbracketed bracketed
  cases front with
  | nil => contradiction
  | cons first front => exact unbracketed bracketed

namespace Definitions

variable {d : Definitions} {levels index index' i : Nat} {parent : Option (Kind × String)}
  {c : Char} {text name rest after : List Char} {e : SubstitutionError}

/-- A text that begins at an index fails to expand, and the error names a place. -/
def Fails (d : Definitions) (levels : Nat) (parent : Option (Kind × String)) (index : Nat)
    (text : List Char) (e : SubstitutionError) (i : Nat) : Prop :=
  (Piece.scan index text).mapM (d.expandPiece (d.enter levels) parent) = .error (e, i)

theorem expandWithin_error : d.expandWithin (levels + 1) parent text = .error (e, i) ↔
    d.Fails levels parent 0 text e i := by
  rw [expandWithin]
  constructor
  · intro h
    split at h
    · contradiction
    · rename_i failed
      cases h
      exact failed
  · intro failed
    have failed : (Piece.scan 0 text).mapM (d.expandPiece
      (fun kind name body => d.expandWithin levels (some (kind, name)) body) parent) =
        .error (e, i) := failed
    simp only [failed]

theorem not_fails_nil : ¬ d.Fails levels parent index [] e i := by
  intro failed
  rw [Fails, Piece.scan] at failed
  cases failed

theorem fails_of_scan_cons {piece : Piece}
    (h : Piece.scan index text = piece :: Piece.scan index' rest) :
    d.Fails levels parent index text e i ↔
      d.expandPiece (d.enter levels) parent piece = .error (e, i) ∨
        ∃ part, d.expandPiece (d.enter levels) parent piece = .ok part ∧
          d.Fails levels parent index' rest e i := by
  rw [Fails, h, mapM_cons_error]
  rfl

theorem not_fails_lone : ¬ d.Fails levels parent index ['\\'] e i := by
  intro failed
  rw [Fails, Piece.scan_lone] at failed
  cases failed

theorem fails_escape : d.Fails levels parent index ('\\' :: c :: rest) e i ↔
    d.Fails levels parent (index + 2) rest e i := by
  rw [fails_of_scan_cons (Piece.scan_escape c rest)]
  simp [expandPiece]

theorem fails_plain (h : Piece.Plain c rest) : d.Fails levels parent index (c :: rest) e i ↔
    d.Fails levels parent (index + 1) rest e i := by
  rw [fails_of_scan_cons (Piece.scan_plain h)]
  simp [expandPiece]

theorem fails_unterminated (kind : Kind) (unclosed : ']' ∉ text) :
    d.Fails levels parent index (kind.sigil :: '[' :: text) e i ↔
      e = .unterminated kind ∧ i = index := by
  rw [Fails, Piece.scan_unterminated unclosed, mapM_cons_error]
  simp [expandPiece, eq_comm]

theorem fails_reference (kind : Kind) (closed : ']' ∉ name) :
    d.Fails levels parent index (kind.sigil :: '[' :: (name ++ ']' :: after)) e i ↔
      ((Piece.names kind name).mapM (d.expandName (d.enter levels) parent kind) = .error e ∧
          i = index) ∨
        ∃ parts,
          (Piece.names kind name).mapM (d.expandName (d.enter levels) parent kind) = .ok parts ∧
          d.Fails levels parent (index + name.length + 3) after e i := by
  rw [fails_of_scan_cons (Piece.scan_reference closed)]
  simp only [expandPiece]
  cases (Piece.names kind name).mapM (d.expandName (d.enter levels) parent kind) with
  | ok parts => simp
  | error e' => simp [eq_comm]

/-- The text falls into a front that expands and a reference that fails. -/
structure Breaks (d : Definitions) (levels : Nat) (parent : Option (Kind × String))
    (text : List Char) (e : SubstitutionError) (front : List Char) (kind : Kind)
    (back : List Char) : Prop where
  parts : text = front ++ kind.sigil :: '[' :: back
  complete : Complete front
  expands : ∀ index, ∃ out, d.Expands levels parent index front out
  fails : ∀ index, d.Fails levels parent index (kind.sigil :: '[' :: back) e index

theorem Breaks.here {kind : Kind} {back : List Char}
    (fails : ∀ index, d.Fails levels parent index (kind.sigil :: '[' :: back) e index) :
    d.Breaks levels parent (kind.sigil :: '[' :: back) e [] kind back :=
  ⟨rfl, complete_nil, fun _ => ⟨[], expands_nil.mpr rfl⟩, fails⟩

/-- A complete part that the front still expands behind can stand before it. -/
theorem Breaks.behind {part front back : List Char} {kind : Kind}
    (breaks : d.Breaks levels parent text e front kind back) (complete : Complete part)
    (expands : ∀ index, ∃ out, d.Expands levels parent index (part ++ front) out) :
    d.Breaks levels parent (part ++ text) e (part ++ front) kind back where
  parts := by rw [breaks.parts, List.append_assoc]
  complete := complete.append_iff.mpr breaks.complete
  expands := expands
  fails := breaks.fails

theorem exists_breaks (h : d.Fails levels parent index text e i) :
    ∃ front kind back, i = index + front.length ∧
      d.Breaks levels parent text e front kind back := by
  induction text using Piece.induction generalizing index with
  | nil => exact absurd h not_fails_nil
  | lone => exact absurd h not_fails_lone
  | escape c rest ih =>
    obtain ⟨front, kind, back, rfl, breaks⟩ := ih (fails_escape.mp h)
    have expands : ∀ index, ∃ out, d.Expands levels parent index ('\\' :: c :: front) out := by
      intro index
      obtain ⟨out, tail⟩ := breaks.expands (index + 2)
      exact ⟨_, expands_escape.mpr ⟨out, tail, rfl⟩⟩
    refine ⟨_, kind, back, ?_, breaks.behind (complete_escape c) expands⟩
    rw [List.length_append, ← Nat.add_assoc]
    rfl
  | plain c rest plain ih =>
    obtain ⟨front, kind, back, rfl, breaks⟩ := ih ((fails_plain plain).mp h)
    have plain' : Piece.Plain c front := by
      rw [breaks.parts] at plain
      exact plain.left
    have expands : ∀ index, ∃ out, d.Expands levels parent index (c :: front) out := by
      intro index
      obtain ⟨out, tail⟩ := breaks.expands (index + 1)
      exact ⟨_, (expands_plain plain').mpr ⟨out, tail, rfl⟩⟩
    refine ⟨_, kind, back, ?_, breaks.behind (complete_snoc [] plain.1) expands⟩
    rw [List.length_append, ← Nat.add_assoc]
    rfl
  | unterminated kind text unclosed =>
    obtain ⟨rfl, rfl⟩ := (fails_unterminated kind unclosed).mp h
    have fails : ∀ index, d.Fails levels parent index (kind.sigil :: '[' :: text)
        (.unterminated kind) index :=
      fun _ => (fails_unterminated kind unclosed).mpr ⟨rfl, rfl⟩
    exact ⟨[], kind, text, rfl, .here fails⟩
  | reference kind name after closed ih =>
    rcases (fails_reference kind closed).mp h with ⟨unresolved, rfl⟩ | ⟨parts, resolved, later⟩
    · have fails : ∀ index, d.Fails levels parent index
          (kind.sigil :: '[' :: (name ++ ']' :: after)) e index :=
        fun _ => (fails_reference kind closed).mpr (.inl ⟨unresolved, rfl⟩)
      exact ⟨[], kind, _, rfl, .here fails⟩
    · obtain ⟨front, kind', back, rfl, breaks⟩ := ih later
      have split (rest : List Char) : kind.sigil :: '[' :: (name ++ ']' :: rest) =
          (kind.sigil :: '[' :: (name ++ [']'])) ++ rest := by simp
      have expands : ∀ index, ∃ out, d.Expands levels parent index
          ((kind.sigil :: '[' :: (name ++ [']'])) ++ front) out := by
        intro index
        obtain ⟨out, tail⟩ := breaks.expands (index + name.length + 3)
        rw [← split]
        exact ⟨_, (expands_reference kind closed).mpr ⟨parts, out, resolved, tail, rfl⟩⟩
      rw [split]
      refine ⟨_, kind', back, ?_, breaks.behind (complete_reference kind name) expands⟩
      simp only [List.length_cons, List.length_append, List.length_nil]
      omega

theorem expand_eq_error : d.expand text = .error (e, i) ↔ d.Fails d.depthLimit none 0 text e i := by
  rw [expand_eq_expandWithin, expandWithin_error]

/-- The index of an error is the place of a reference in the text itself. What stands before it
expands, and what begins with it fails with the same error at its front. -/
theorem expand_error (d : Definitions) (text : List Char) (e : SubstitutionError) (i : Nat)
    (failed : d.expand text = .error (e, i)) :
    (∃ kind : Kind, ∃ back, text.drop i = kind.sigil :: '[' :: back) ∧ Unescaped text i ∧
      (∃ out, d.expand (text.take i) = .ok out) ∧
      d.expand (text.drop i) = .error (e, 0) := by
  obtain ⟨front, kind, back, place, breaks⟩ := exists_breaks (expand_eq_error.mp failed)
  obtain ⟨out, expands⟩ := breaks.expands 0
  have before : text.take i = front := by
    rw [breaks.parts, place, Nat.zero_add, List.take_left]
  have from' : text.drop i = kind.sigil :: '[' :: back := by
    rw [breaks.parts, place, Nat.zero_add, List.drop_left]
  refine ⟨⟨kind, back, from'⟩, ?_, ⟨out, ?_⟩, ?_⟩
  · rw [Unescaped, before]
    exact breaks.complete
  · rw [before]
    exact expand_eq_ok.mpr expands
  · rw [from']
    exact expand_eq_error.mpr (breaks.fails 0)

/-- An inline body that leads through another one to a name without a definition. -/
def dangling : Definitions :=
  ⟨.ofList [⟨.inline, "a", "x =[b]"⟩, ⟨.inline, "b", "&[c] =[nope]"⟩, ⟨.global, "c", "leaf"⟩], ∅, 4⟩

theorem expand_error_dangling :
    dangling.expand "\\=[a] &[c]-=[a]!".toList = .error (.unknown .inline "nope", 11) ∧
    dangling.expand "\\=[a] &[c]-".toList = .ok "\\=[a] leaf-".toList ∧
      dangling.expand "=[a]!".toList = .error (.unknown .inline "nope", 0) := by
  have failed : dangling.expand "\\=[a] &[c]-=[a]!".toList =
      .error (.unknown .inline "nope", 11) := by cbv
  obtain ⟨-, -, -, same⟩ := expand_error dangling _ _ _ failed
  exact ⟨failed, by cbv, same⟩

end Definitions

end Phrasebook
