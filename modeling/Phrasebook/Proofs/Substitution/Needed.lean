import Mathlib
import Phrasebook.Proofs.Substitution.Collecting
import Phrasebook.Proofs.Substitution.Record

/-! The scan for globals against the expansion itself.
Where a text expands, the scan lists exactly the globals without a value that the expansion resolves
outside of bodies of globals, each at its first turn. Give those values, and the expansion enters no
body of a global. -/
namespace Phrasebook.Definitions

variable {d e : Definitions} {levels : Nat} {inside : List (Kind × String)} {kind : Kind}
  {name : String} {names : List String} {text : List Char} {r : Recorded}
  {parts : List Recorded} {visits : List Visit}

/-- A global without a value, named by the text itself or by an inline body that inline names alone
lead to. -/
def isNeeded (d : Definitions) (visit : Visit) : Bool :=
  visit.kind == .global && !d.values.contains visit.name && visit.inside.all (·.1 == .inline)

def needed (d : Definitions) (visits : List Visit) : List String :=
  (visits.filter d.isNeeded).map Visit.name

def withValues (d : Definitions) (values : Std.ExtTreeMap String String) : Definitions :=
  { d with values }

def Inline (inside : List (Kind × String)) : Prop := ∀ p ∈ inside, p.1 = .inline

theorem inline_nil : Inline [] := by simp [Inline]

@[simp] theorem needed_nil : d.needed [] = [] := rfl

@[simp] theorem needed_append (visits others : List Visit) :
    d.needed (visits ++ others) = d.needed visits ++ d.needed others := by
  simp [needed]

@[simp] theorem needed_inline : d.needed (⟨.inline, name, inside⟩ :: visits) = d.needed visits := by
  simp [needed, isNeeded]

theorem needed_global (inline : Inline inside) :
    d.needed [⟨.global, name, inside⟩] = if d.values.contains name then [] else [name] := by
  have all : inside.all (·.1 == .inline) = true := by simpa [Inline] using inline
  cases known : d.values.contains name <;> simp [needed, isNeeded, all, known]

section records

variable {enter : Kind → String → List Char → Except (SubstitutionError × Nat) Recorded}

theorem recordResolve_ok (h : d.recordResolve enter ⟨kind, name, inside⟩ = .ok r) :
    (kind = .global ∧ name ∈ d.values ∧ r.2 = [⟨kind, name, inside⟩]) ∨
      (kind = .global → name ∉ d.values) ∧ ∃ body out visits,
        d.glossary.body? kind name = some body ∧ enter kind name body.toList = .ok (out, visits) ∧
          r.2 = ⟨kind, name, inside⟩ :: visits := by
  unfold recordResolve at h
  split at h
  · rename_i value global known
    cases h
    have global : kind = .global := global
    exact .inl ⟨global, Std.ExtTreeMap.mem_iff_isSome_getElem?.mpr (by simp [known]), rfl⟩
  · rename_i uncached
    split at h
    · contradiction
    · rename_i body defined
      cases entered : enter kind name body.toList with
      | error e => simp [entered, Except.map, Except.mapError] at h
      | ok result =>
        obtain ⟨out, visits⟩ := result
        simp only [entered, Except.map, Except.mapError, Except.ok.injEq] at h
        subst h
        refine .inr ⟨?_, body, out, visits, defined, entered, rfl⟩
        intro global known
        obtain ⟨value, found⟩ := Option.isSome_iff_exists.mp
          (Std.ExtTreeMap.mem_iff_isSome_getElem?.mp known)
        exact uncached value global found

theorem recordName_ok (h : d.recordName enter inside kind name = .ok r) :
    name.isEmpty = false ∧ inside.head? ≠ some (kind, name) ∧
      d.recordResolve enter ⟨kind, name, inside⟩ = .ok r := by
  unfold recordName at h
  split at h
  · contradiction
  · rename_i nonempty
    split at h
    · contradiction
    · rename_i foreign
      exact ⟨Bool.eq_false_iff.mpr nonempty, foreign, h⟩

theorem recordPiece_reference_ok {index : Nat} {written : List Char}
    (h : d.recordPiece enter inside (.reference kind index written) = .ok r) :
    ∃ parts, (Piece.names kind written).mapM (d.recordName enter inside kind) = .ok parts ∧
      r = Recorded.join parts := by
  simp only [recordPiece] at h
  split at h
  · rename_i parts recorded
    cases h
    exact ⟨parts, recorded, rfl⟩
  · contradiction

theorem recordWithin_ok (h : d.recordWithin levels inside text = .ok r) :
    ∃ less parts, levels = less + 1 ∧ (Piece.scan 0 text).mapM (d.recordPiece
      (fun kind name body => d.recordWithin less ((kind, name) :: inside) body) inside) =
        .ok parts ∧ r = Recorded.join parts := by
  cases levels with
  | zero => contradiction
  | succ less =>
    simp only [recordWithin] at h
    split at h
    · rename_i parts recorded
      cases h
      exact ⟨less, parts, rfl, recorded, rfl⟩
    · contradiction

/-- What holds of the visits of each member holds of all visits. -/
theorem forall_visits {α ε : Type} {f : α → Except ε Recorded} {as : List α} {P : Visit → Prop}
    (each : ∀ a r, f a = .ok r → ∀ v ∈ r.2, P v) (h : as.mapM f = .ok parts) :
    ∀ v ∈ (Recorded.join parts).2, P v := by
  induction as generalizing parts with
  | nil =>
    cases h
    simp [Recorded.join]
  | cons a as ih =>
    obtain ⟨r, others, head, tail, rfl⟩ := mapM_cons_ok.mp h
    intro v member
    have member : v ∈ r.2 ++ (Recorded.join others).2 := member
    rcases List.mem_append.mp member with own | later
    · exact each a r head v own
    · exact ih tail v later

/-- The visits of an expansion inside of some definitions are inside of these. -/
theorem suffix_of_recordWithin (h : d.recordWithin levels inside text = .ok r) :
    ∀ v ∈ r.2, inside <:+ v.inside := by
  induction levels generalizing inside text r with
  | zero => contradiction
  | succ levels ih =>
    obtain ⟨less, parts, same, recorded, rfl⟩ := recordWithin_ok h
    cases same
    refine forall_visits ?_ recorded
    intro piece r recorded
    cases piece with
    | char c =>
      cases recorded
      simp
    | escape rest =>
      cases recorded
      simp
    | unterminated kind index => contradiction
    | reference kind index written =>
      obtain ⟨parts, names, rfl⟩ := recordPiece_reference_ok recorded
      refine forall_visits ?_ names
      intro name r named v member
      obtain ⟨-, -, resolved⟩ := recordName_ok named
      rcases recordResolve_ok resolved with
        ⟨-, -, visits⟩ | ⟨-, body, out, visits', -, entered, visits⟩
      · rw [visits, List.mem_singleton] at member
        simp [member]
      · rw [visits, List.mem_cons] at member
        rcases member with rfl | inner
        · exact List.suffix_refl inside
        · exact (List.suffix_cons (kind, name) inside).trans (ih entered v inner)

theorem needed_of_global {less : Nat} {name : String}
    (h : d.recordWithin less ((.global, name) :: inside) text = .ok r) : d.needed r.2 = [] := by
  have none : r.2.filter d.isNeeded = [] := by
    refine List.filter_eq_nil_iff.mpr fun v member => ?_
    have enclosed : (Kind.global, name) ∈ v.inside :=
      (suffix_of_recordWithin h v member).subset List.mem_cons_self
    simp only [isNeeded, Bool.and_eq_true, List.all_eq_true, not_and]
    intro _ inline
    simpa using inline _ enclosed
  simp [needed, none]

end records

section scan

theorem noted_eraseDups (seen : List String) (nonempty : name.isEmpty = false)
    (inline : Inline inside) :
    d.noted name seen.eraseDups =
      (seen ++ d.needed [⟨.global, name, inside⟩]).eraseDups := by
  rw [needed_global inline, noted, nonempty]
  cases known : d.values.contains name with
  | true => simp
  | false =>
    by_cases old : name ∈ seen
    · have again : [name].removeAll seen = [] := by simp [List.removeAll, old]
      simp [old, List.eraseDups_append, again]
    · have fresh : [name].removeAll seen = [name] := by simp [List.removeAll, old]
      simp [old, List.eraseDups_append, List.eraseDups_cons, fresh]

/-- The scan of a body goes to its end and finds what the expansion of the body needs. -/
def Agrees (d : Definitions)
    (enter : Kind → String → List Char → Except (SubstitutionError × Nat) Recorded)
    (scan : String → List Char → List String → List String × Bool) : Prop :=
  ∀ name body r seen, enter .inline name body = .ok r →
    scan name body seen.eraseDups = ((seen ++ d.needed r.2).eraseDups, true)

variable {enter : Kind → String → List Char → Except (SubstitutionError × Nat) Recorded}
  {scan : String → List Char → List String → List String × Bool}

theorem foreign_of_inline (inline : Inline inside) (foreign : inside.head? ≠ some (.inline, name)) :
    inside.head?.map Prod.snd ≠ some name := by
  cases inside with
  | nil => simp
  | cons p inside =>
    obtain ⟨kind, other⟩ := p
    have same : kind = .inline := inline _ List.mem_cons_self
    simpa [same] using foreign

theorem collectNames_eq (seen : List String) (agrees : d.Agrees enter scan)
    (inline : Inline inside)
    (h : names.mapM (d.recordName enter inside .inline) = .ok parts) :
    d.collectNames scan (inside.head?.map Prod.snd) names seen.eraseDups =
      ((seen ++ d.needed (Recorded.join parts).2).eraseDups, true) := by
  induction names generalizing seen parts with
  | nil =>
    cases h
    simp [collectNames, Recorded.join]
  | cons name names ih =>
    obtain ⟨r, others, head, tail, rfl⟩ := mapM_cons_ok.mp h
    obtain ⟨-, foreign, resolved⟩ := recordName_ok head
    rcases recordResolve_ok resolved with ⟨other, -⟩ | ⟨-, body, out, visits, defined, entered, own⟩
    · contradiction
    · have first := agrees name body.toList _ seen entered
      have later := ih (seen ++ d.needed visits) tail
      have all : (Recorded.join (r :: others)).2 = r.2 ++ (Recorded.join others).2 := rfl
      simp only [collectNames, if_neg (foreign_of_inline inline foreign), defined, first, later]
      rw [all, own]
      simp

theorem collectPieces_eq (seen : List String) (agrees : d.Agrees enter scan)
    (closed : ∀ name body r, enter .global name body = .ok r → d.needed r.2 = [])
    (inline : Inline inside) {pieces : List Piece}
    (h : pieces.mapM (d.recordPiece enter inside) = .ok parts) :
    d.collectPieces scan (inside.head?.map Prod.snd) pieces seen.eraseDups =
      ((seen ++ d.needed (Recorded.join parts).2).eraseDups, true) := by
  induction pieces generalizing seen parts with
  | nil =>
    cases h
    simp [collectPieces, Recorded.join]
  | cons piece pieces ih =>
    obtain ⟨r, others, head, tail, rfl⟩ := mapM_cons_ok.mp h
    have all : (Recorded.join (r :: others)).2 = r.2 ++ (Recorded.join others).2 := rfl
    cases piece with
    | char c =>
      cases head
      simpa [collectPieces, all] using ih _ tail
    | escape rest =>
      cases head
      simpa [collectPieces, all] using ih _ tail
    | unterminated kind index => contradiction
    | reference kind index written =>
      obtain ⟨parts, resolved, rfl⟩ := recordPiece_reference_ok head
      cases kind with
      | inline =>
        have first := collectNames_eq seen agrees inline resolved
        simp only [collectPieces, first, ih _ tail, all, needed_append, List.append_assoc]
      | global =>
        obtain ⟨r, none, named, empty, rfl⟩ := mapM_cons_ok.mp resolved
        cases empty
        obtain ⟨nonempty, -, resolved⟩ := recordName_ok named
        have first := noted_eraseDups (d := d) seen nonempty inline
        have own : d.needed r.2 =
            d.needed [⟨.global, String.ofList (Text.trim written), inside⟩] := by
          rcases recordResolve_ok resolved with
            ⟨-, -, visits⟩ | ⟨-, body, out, visits, -, entered, own⟩
          · rw [visits]
          · rw [own, ← List.singleton_append, needed_append, closed _ _ _ entered, List.append_nil]
        have step : d.collectPieces scan (inside.head?.map Prod.snd)
            (.reference .global index written :: pieces) seen.eraseDups =
              d.collectPieces scan (inside.head?.map Prod.snd) pieces
                (d.noted (String.ofList (Text.trim written)) seen.eraseDups) := rfl
        rw [step, first, ih _ tail, all]
        simp [Recorded.join, own]

theorem collectWithin_eq (seen : List String) (inline : Inline inside)
    (h : d.recordWithin levels inside text = .ok r) :
    d.collectWithin levels (inside.head?.map Prod.snd) text seen.eraseDups =
      ((seen ++ d.needed r.2).eraseDups, true) := by
  induction levels generalizing inside text seen r with
  | zero => contradiction
  | succ levels ih =>
    obtain ⟨less, parts, same, recorded, rfl⟩ := recordWithin_ok h
    cases same
    refine collectPieces_eq seen ?_ ?_ inline recorded
    · intro name body r seen entered
      have inner : Inline ((.inline, name) :: inside) := by
        simpa [Inline] using inline
      exact ih seen inner entered
    · intro name body r entered
      exact needed_of_global entered

end scan

section values

/-- Every global that was visited had a value, so its body was not entered. -/
def Cached (values : Std.ExtTreeMap String String) (visits : List Visit) : Prop :=
  ∀ visit ∈ visits, visit.kind = .global → visit.name ∈ values

variable {values : Std.ExtTreeMap String String}
  {enter enter' : Kind → String → List Char → Except (SubstitutionError × Nat) Recorded}

theorem exists_mapM {α ε : Type} {f g : α → Except ε Recorded} {as : List α}
    (each : ∀ a r, f a = .ok r → d.needed r.2 ⊆ values.keys →
      ∃ r', g a = .ok r' ∧ Cached values r'.2)
    (h : as.mapM f = .ok parts) (covered : d.needed (Recorded.join parts).2 ⊆ values.keys) :
    ∃ parts', as.mapM g = .ok parts' ∧ Cached values (Recorded.join parts').2 := by
  induction as generalizing parts with
  | nil => exact ⟨[], rfl, by simp [Cached, Recorded.join]⟩
  | cons a as ih =>
    obtain ⟨r, others, head, tail, rfl⟩ := mapM_cons_ok.mp h
    have all : (Recorded.join (r :: others)).2 = r.2 ++ (Recorded.join others).2 := rfl
    rw [all, needed_append, List.append_subset] at covered
    obtain ⟨r', head', first⟩ := each a r head covered.1
    obtain ⟨others', tail', later⟩ := ih tail covered.2
    refine ⟨r' :: others', mapM_cons_ok.mpr ⟨r', others', head', tail', rfl⟩, ?_⟩
    intro visit member
    rcases List.mem_append.mp (show visit ∈ r'.2 ++ (Recorded.join others').2 from member) with
      own | behind
    · exact first visit own
    · exact later visit behind

theorem recordName_value (nonempty : name.isEmpty = false)
    (foreign : inside.head? ≠ some (.global, name)) (known : name ∈ d.values) :
    ∃ out, d.recordName enter inside .global name = .ok (out, [⟨.global, name, inside⟩]) := by
  obtain ⟨value, found⟩ := Option.isSome_iff_exists.mp
    (Std.ExtTreeMap.mem_iff_isSome_getElem?.mp known)
  exact ⟨escapeLiteral value.toList, by simp [recordName, recordResolve, nonempty, foreign, found]⟩

theorem recordName_inline {body : String} {out : List Char} (nonempty : name.isEmpty = false)
    (foreign : inside.head? ≠ some (.inline, name))
    (defined : d.glossary.body? .inline name = some body)
    (entered : enter .inline name body.toList = .ok (out, visits)) :
    d.recordName enter inside .inline name = .ok (out, ⟨.inline, name, inside⟩ :: visits) := by
  simp [recordName, recordResolve, nonempty, foreign, defined, entered, Except.map, Except.mapError]

theorem exists_recordName (kept : ∀ name ∈ d.values, name ∈ values) (inline : Inline inside)
    (deeper : ∀ name body r, enter .inline name body = .ok r → d.needed r.2 ⊆ values.keys →
      ∃ r', enter' .inline name body = .ok r' ∧ Cached values r'.2)
    (h : d.recordName enter inside kind name = .ok r) (covered : d.needed r.2 ⊆ values.keys) :
    ∃ r', (d.withValues values).recordName enter' inside kind name = .ok r' ∧
      Cached values r'.2 := by
  obtain ⟨nonempty, foreign, resolved⟩ := recordName_ok h
  cases kind with
  | global =>
    have known : name ∈ values := by
      rcases recordResolve_ok resolved with ⟨-, old, -⟩ | ⟨unset, body, out, visits, -, -, own⟩
      · exact kept name old
      · have absent : d.values.contains name = false :=
          Bool.eq_false_iff.mpr fun known =>
            unset rfl (Std.ExtTreeMap.mem_iff_contains.mpr known)
        rw [own, ← List.singleton_append, needed_append, needed_global inline, absent] at covered
        exact Std.ExtTreeMap.mem_keys.mp (covered (by simp))
    obtain ⟨out, recorded⟩ : ∃ out, (d.withValues values).recordName enter' inside .global name =
        .ok (out, [⟨.global, name, inside⟩]) := recordName_value nonempty foreign known
    exact ⟨_, recorded, by simpa [Cached] using known⟩
  | inline =>
    rcases recordResolve_ok resolved with ⟨other, -⟩ | ⟨-, body, out, visits, defined, entered, own⟩
    · contradiction
    · rw [own, needed_inline] at covered
      obtain ⟨⟨out', visits'⟩, entered', cached⟩ := deeper name body.toList _ entered covered
      refine ⟨_, recordName_inline (d := d.withValues values) nonempty foreign defined entered', ?_⟩
      simpa [Cached] using cached

theorem exists_recordPiece (kept : ∀ name ∈ d.values, name ∈ values) (inline : Inline inside)
    (deeper : ∀ name body r, enter .inline name body = .ok r → d.needed r.2 ⊆ values.keys →
      ∃ r', enter' .inline name body = .ok r' ∧ Cached values r'.2)
    {piece : Piece} (h : d.recordPiece enter inside piece = .ok r)
    (covered : d.needed r.2 ⊆ values.keys) :
    ∃ r', (d.withValues values).recordPiece enter' inside piece = .ok r' ∧
      Cached values r'.2 := by
  cases piece with
  | char c => exact ⟨_, rfl, by simp [Cached]⟩
  | escape rest => exact ⟨_, rfl, by simp [Cached]⟩
  | unterminated kind index => contradiction
  | reference kind index written =>
    obtain ⟨parts, recorded, rfl⟩ := recordPiece_reference_ok h
    obtain ⟨parts', recorded', cached⟩ := exists_mapM
      (fun name r => exists_recordName kept inline deeper) recorded covered
    exact ⟨Recorded.join parts', by simp only [recordPiece, recorded'], cached⟩

theorem exists_recordWithin (kept : ∀ name ∈ d.values, name ∈ values) (inline : Inline inside)
    (h : d.recordWithin levels inside text = .ok r) (covered : d.needed r.2 ⊆ values.keys) :
    ∃ r', (d.withValues values).recordWithin levels inside text = .ok r' ∧ Cached values r'.2 := by
  induction levels generalizing inside text r with
  | zero => contradiction
  | succ levels ih =>
    obtain ⟨less, parts, same, recorded, rfl⟩ := recordWithin_ok h
    cases same
    have deeper (name : String) (body : List Char) (r : Recorded)
        (entered : d.recordWithin levels ((.inline, name) :: inside) body = .ok r)
        (covered : d.needed r.2 ⊆ values.keys) :
        ∃ r', (d.withValues values).recordWithin levels ((.inline, name) :: inside) body = .ok r' ∧
          Cached values r'.2 := by
      have inner : Inline ((.inline, name) :: inside) := by
        simpa [Inline] using inline
      exact ih inner entered covered
    have pieces := exists_mapM (g := (d.withValues values).recordPiece (fun kind name body =>
      (d.withValues values).recordWithin levels ((kind, name) :: inside) body) inside) ?_ recorded
        covered
    · obtain ⟨parts', recorded', cached⟩ := pieces
      refine ⟨Recorded.join parts', ?_, cached⟩
      simp only [recordWithin, recorded']
    · exact fun piece r => exists_recordPiece kept inline deeper

end values

/-- Where a text expands, the scan lists the globals without a value that the expansion resolves
outside of bodies of globals, each once and in the order of their first turns. With values for all
of them the text still expands, and every global in it is then replaced by its value. -/
theorem globalReferences_eq {d : Definitions} {text out : List Char}
    (expanded : d.expand text = .ok out) :
    ∃ visits, d.record text = .ok (out, visits) ∧
      d.globalReferences text = (d.needed visits).eraseDups ∧
      ∀ values : Std.ExtTreeMap String String, (∀ name ∈ d.values, name ∈ values) →
        (∀ name ∈ d.globalReferences text, name ∈ values) →
        ∃ out' visits', (d.withValues values).expand text = .ok out' ∧
          (d.withValues values).record text = .ok (out', visits') ∧ Cached values visits' := by
  rw [← map_record] at expanded
  cases recorded : d.record text with
  | error e => simp [recorded, Except.map] at expanded
  | ok r =>
    obtain ⟨out', visits⟩ := r
    simp only [recorded, Except.map, Except.ok.injEq] at expanded
    subst expanded
    have listed : d.globalReferences text = (d.needed visits).eraseDups := by
      have scanned := collectWithin_eq [] inline_nil recorded
      simpa [globalReferences] using congrArg Prod.fst scanned
    refine ⟨visits, rfl, listed, ?_⟩
    intro values kept given
    have covered : d.needed visits ⊆ values.keys := by
      intro name member
      have scanned : name ∈ d.globalReferences text := by simpa [listed] using member
      exact Std.ExtTreeMap.mem_keys.mpr (given name scanned)
    obtain ⟨⟨out', visits'⟩, again, cached⟩ := exists_recordWithin kept inline_nil recorded covered
    have again : (d.withValues values).record text = .ok (out', visits') := again
    refine ⟨out', visits', ?_, again, cached⟩
    rw [← map_record, again]
    rfl

/-- Globals named twice, through an inline body, behind an escape and from the body of a global. -/
def nested : Definitions :=
  ⟨.ofList [⟨.inline, "via", "&[b]&[a]"⟩, ⟨.global, "a", "&[c]"⟩, ⟨.global, "b", "x"⟩,
    ⟨.global, "c", "y"⟩], ∅, 3⟩

theorem globalReferences_eq_nested :
    nested.globalReferences "=[via]\\&[c]&[a]".toList = ["b", "a"] ∧
      ∃ out' visits', (nested.withValues (.ofList [("a", "\x7b"), ("b", "")])).expand
          "=[via]\\&[c]&[a]".toList = .ok out' ∧
        (nested.withValues (.ofList [("a", "\x7b"), ("b", "")])).record
          "=[via]\\&[c]&[a]".toList = .ok (out', visits') ∧
        Cached (.ofList [("a", "\x7b"), ("b", "")]) visits' := by
  have expanded : nested.expand "=[via]\\&[c]&[a]".toList = .ok "xy\\&[c]y".toList := by cbv
  obtain ⟨visits, recorded, listed, cached⟩ := globalReferences_eq expanded
  have scanned : nested.globalReferences "=[via]\\&[c]&[a]".toList = ["b", "a"] := by cbv
  refine ⟨scanned, cached _ ?_ ?_⟩
  · simp [nested]
  · rw [scanned]
    simp

end Phrasebook.Definitions
