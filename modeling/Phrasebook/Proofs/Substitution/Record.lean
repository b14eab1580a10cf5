import Phrasebook.Proofs.Substitution.Expansion

/-! An expansion with a record of the names that it resolves.
It goes through a text as the expansion does and gives the same result; beside it, it lists each
name in the order in which its turn comes, with the definitions whose bodies enclose the place. -/
namespace Phrasebook

/-- A name that is resolved, and the definitions in whose bodies that happens, innermost first. -/
structure Visit where
  kind : Kind
  name : String
  inside : List (Kind × String)
deriving Repr, DecidableEq

abbrev Recorded := List Char × List Visit

def Recorded.join (parts : List Recorded) : Recorded :=
  (parts.flatMap Prod.fst, parts.flatMap Prod.snd)

namespace Definitions

def recordResolve (d : Definitions)
    (enter : Kind → String → List Char → Except (SubstitutionError × Nat) Recorded)
    (visit : Visit) : Except SubstitutionError Recorded :=
  match visit.kind, d.values[visit.name]? with
  | .global, some value => .ok (escapeLiteral value.toList, [visit])
  | _, _ =>
    match d.glossary.body? visit.kind visit.name with
    | none => .error (.unknown visit.kind visit.name)
    | some body =>
      ((enter visit.kind visit.name body.toList).mapError Prod.fst).map fun (out, visits) =>
        (out, visit :: visits)

def recordName (d : Definitions)
    (enter : Kind → String → List Char → Except (SubstitutionError × Nat) Recorded)
    (inside : List (Kind × String)) (kind : Kind) (name : String) :
    Except SubstitutionError Recorded :=
  if name.isEmpty then .error (.emptyName kind)
  else if inside.head? = some (kind, name) then .error (.selfReference kind name)
  else d.recordResolve enter ⟨kind, name, inside⟩

def recordPiece (d : Definitions)
    (enter : Kind → String → List Char → Except (SubstitutionError × Nat) Recorded)
    (inside : List (Kind × String)) : Piece → Except (SubstitutionError × Nat) Recorded
  | .char c => .ok ([c], [])
  | .escape rest => .ok ('\\' :: rest, [])
  | .unterminated kind index => .error (.unterminated kind, index)
  | .reference kind index text =>
    match (Piece.names kind text).mapM (d.recordName enter inside kind) with
    | .ok parts => .ok (Recorded.join parts)
    | .error e => .error (e, index)

/-- The expansion of a text inside of some definitions, with so many levels left, and its record. -/
def recordWithin (d : Definitions) :
    Nat → List (Kind × String) → List Char → Except (SubstitutionError × Nat) Recorded
  | 0, _, _ => .error (.tooDeep d.depthLimit, 0)
  | levels + 1, inside, text =>
    let enter := fun kind name body => d.recordWithin levels ((kind, name) :: inside) body
    match (Piece.scan 0 text).mapM (d.recordPiece enter inside) with
    | .ok parts => .ok (Recorded.join parts)
    | .error e => .error e

def record (d : Definitions) (text : List Char) : Except (SubstitutionError × Nat) Recorded :=
  d.recordWithin (d.depthLimit + 1) [] text

section erasure

variable {d : Definitions} {inside : List (Kind × String)} {kind : Kind} {name : String}
  {text out : List Char}

theorem map_mapM {ε α β γ : Type} {f : α → Except ε (β × γ)} {g : α → Except ε β}
    (same : ∀ a, (f a).map Prod.fst = g a) (as : List α) :
    (as.mapM f).map (List.map Prod.fst) = as.mapM g := by
  induction as with
  | nil => rfl
  | cons a as ih =>
    rw [List.mapM_cons, List.mapM_cons, ← same, ← ih]
    cases f a with
    | error e => rfl
    | ok part => cases as.mapM f <;> rfl

variable {enter : Kind → String → List Char → Except (SubstitutionError × Nat) Recorded}
  {enter' : Kind → String → List Char → Except (SubstitutionError × Nat) (List Char)}

theorem map_mapError {ε ε' β γ : Type} (r : Except ε (β × γ)) (f : ε → ε') (g : γ → γ) :
    ((r.mapError f).map fun (out, visits) => (out, g visits)).map Prod.fst =
      (r.map Prod.fst).mapError f := by
  cases r <;> rfl

theorem map_recordResolve (same : ∀ kind name body, (enter kind name body).map Prod.fst =
      enter' kind name body) :
    (d.recordResolve enter ⟨kind, name, inside⟩).map Prod.fst = d.resolve enter' kind name := by
  unfold recordResolve resolve
  cases defined : d.glossary.body? kind name with
  | none => cases kind <;> cases d.values[name]? <;> simp [Except.map]
  | some body =>
    have entered := map_mapError (enter kind name body.toList) Prod.fst (⟨kind, name, inside⟩ :: ·)
    rw [same] at entered
    cases kind with
    | inline => exact entered
    | global =>
      cases d.values[name]? with
      | none => exact entered
      | some value => rfl

theorem map_recordName (d : Definitions) (inside : List (Kind × String))
    (same : ∀ kind name body, (enter kind name body).map Prod.fst = enter' kind name body)
    (kind : Kind) (name : String) :
    (d.recordName enter inside kind name).map Prod.fst =
      d.expandName enter' inside.head? kind name := by
  unfold recordName expandName
  split
  · rfl
  · split
    · rfl
    · exact map_recordResolve same

theorem map_recordPiece (d : Definitions) (inside : List (Kind × String))
    (same : ∀ kind name body, (enter kind name body).map Prod.fst = enter' kind name body)
    (piece : Piece) :
    (d.recordPiece enter inside piece).map Prod.fst = d.expandPiece enter' inside.head? piece := by
  cases piece with
  | char c => rfl
  | escape rest => rfl
  | unterminated kind index => rfl
  | reference kind index written =>
    have names := map_mapM (d.map_recordName inside same kind) (Piece.names kind written)
    simp only [recordPiece, expandPiece, ← names]
    cases (Piece.names kind written).mapM (d.recordName enter inside kind) with
    | error e => rfl
    | ok parts => simp [Except.map, Recorded.join, List.flatMap_def]

/-- The record changes nothing of the expansion. -/
theorem map_recordWithin (d : Definitions) (levels : Nat) (inside : List (Kind × String))
    (text : List Char) : (d.recordWithin levels inside text).map Prod.fst =
      d.expandWithin levels inside.head? text := by
  induction levels generalizing inside text with
  | zero => rfl
  | succ levels ih =>
    have same : ∀ kind name body,
        (d.recordWithin levels ((kind, name) :: inside) body).map Prod.fst =
          d.expandWithin levels (some (kind, name)) body := fun kind name body => ih _ body
    have pieces := map_mapM (d.map_recordPiece inside same) (Piece.scan 0 text)
    simp only [recordWithin, expandWithin, ← pieces]
    cases (Piece.scan 0 text).mapM (d.recordPiece (fun kind name body =>
        d.recordWithin levels ((kind, name) :: inside) body) inside) with
    | error e => rfl
    | ok parts => simp [Except.map, Recorded.join, List.flatMap_def]

theorem map_record (d : Definitions) (text : List Char) :
    (d.record text).map Prod.fst = d.expand text := by
  rw [record, map_recordWithin, expand_eq_expandWithin]
  rfl

end erasure

end Definitions

end Phrasebook
