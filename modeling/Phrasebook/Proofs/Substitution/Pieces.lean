import Phrasebook.Substitution

/-! How a text falls into pieces, read from its front.
A text is empty, or it begins with an escape, a reference, an opening without a closing bracket, or
a character that stands for itself. -/
namespace Phrasebook

theorem Kind.ofSigil?_sigil (kind : Kind) : ofSigil? kind.sigil = some kind := by
  cases kind <;> decide

theorem Kind.sigil_of_ofSigil? {c : Char} {kind : Kind} (h : ofSigil? c = some kind) :
    c = kind.sigil := by
  unfold ofSigil? at h
  split at h
  · cases h
    assumption
  · split at h
    · cases h
      assumption
    · contradiction

theorem Kind.sigil_ne_escape (kind : Kind) : kind.sigil ≠ '\\' := by
  cases kind <;> decide

theorem Kind.any_ofSigil?_eq_false {text : List Char} :
    text.any (fun c => (ofSigil? c).isSome) = false ↔ ∀ kind : Kind, kind.sigil ∉ text := by
  rw [List.any_eq_false]
  constructor
  · intro none kind member
    exact none kind.sigil member (by rw [kind.ofSigil?_sigil]; rfl)
  · intro absent c member marked
    obtain ⟨kind, sigil⟩ := Option.isSome_iff_exists.mp marked
    rw [sigil_of_ofSigil? sigil] at member
    exact absent kind member

namespace Piece

/-- A character that begins no reference, given what follows it. -/
def Plain (c : Char) (rest : List Char) : Prop :=
  c ≠ '\\' ∧ (Kind.ofSigil? c = none ∨ rest.head? ≠ some '[')

variable {c : Char} {kind : Kind} {index : Nat} {text name after rest : List Char}

theorem bracketed?_of_plain (h : rest.head? ≠ some '[') : bracketed? rest = none := by
  cases rest with
  | nil => rfl
  | cons c rest =>
    unfold bracketed?
    split
    · rename_i same
      cases same
      exact absurd rfl h
    · rfl

theorem scan_escape (c : Char) (rest : List Char) :
    scan index ('\\' :: c :: rest) = .escape [c] :: scan (index + 2) rest := by
  rw [scan, if_pos rfl]
  rfl

theorem scan_lone : scan index ['\\'] = [.escape []] := by
  rw [scan, if_pos rfl, List.drop_nil, scan]
  rfl

theorem scan_plain (h : Plain c rest) :
    scan index (c :: rest) = .char c :: scan (index + 1) rest := by
  rw [scan, if_neg h.1]
  split
  · rename_i kind body sigil bracket
    rcases h.2 with none | unbracketed
    · rw [none] at sigil
      contradiction
    · rw [bracketed?_of_plain unbracketed] at bracket
      contradiction
  · rfl

theorem scan_reference (closed : ']' ∉ name) :
    scan index (kind.sigil :: '[' :: (name ++ ']' :: after)) =
      .reference kind index name :: scan (index + name.length + 3) after := by
  rw [scan, if_neg kind.sigil_ne_escape]
  split
  · rename_i kind' body sigil bracket
    rw [kind.ofSigil?_sigil] at sigil
    cases sigil
    cases bracket
    split
    · rename_i cut
      rw [Text.cut?_append closed] at cut
      cases cut
      rfl
    · rename_i cut
      rw [Text.cut?_append closed] at cut
      contradiction
  · rename_i other
    exact absurd rfl (other kind _ kind.ofSigil?_sigil)

theorem scan_unterminated (unclosed : ']' ∉ text) :
    scan index (kind.sigil :: '[' :: text) = [.unterminated kind index] := by
  rw [scan, if_neg kind.sigil_ne_escape]
  split
  · rename_i kind' body sigil bracket
    rw [kind.ofSigil?_sigil] at sigil
    cases sigil
    cases bracket
    split
    · rename_i cut
      rw [Text.cut?_of_absent unclosed] at cut
      contradiction
    · rfl
  · rename_i other
    exact absurd rfl (other kind _ kind.ofSigil?_sigil)

@[elab_as_elim]
theorem induction {motive : List Char → Prop} (nil : motive []) (lone : motive ['\\'])
    (escape : ∀ c rest, motive rest → motive ('\\' :: c :: rest))
    (reference : ∀ (kind : Kind) (name after : List Char), ']' ∉ name → motive after →
      motive (kind.sigil :: '[' :: (name ++ ']' :: after)))
    (unterminated : ∀ (kind : Kind) (text : List Char), ']' ∉ text →
      motive (kind.sigil :: '[' :: text))
    (plain : ∀ c rest, Plain c rest → motive rest → motive (c :: rest)) (text : List Char) :
    motive text := by
  induction size : text.length using Nat.strongRecOn generalizing text with
  | ind n ih =>
    subst size
    match text with
    | [] => exact nil
    | c :: rest =>
      by_cases escaped : c = '\\'
      · subst escaped
        match rest with
        | [] => exact lone
        | c :: rest => exact escape c rest (ih _ (by simp only [List.length_cons]; omega) rest rfl)
      · have one : motive rest := ih _ (by simp) rest rfl
        cases sigil : Kind.ofSigil? c with
        | none => exact plain c rest ⟨escaped, .inl sigil⟩ one
        | some kind =>
          match rest with
          | [] => exact plain c [] ⟨escaped, .inr nofun⟩ one
          | d :: body =>
            by_cases bracket : d = '['
            · subst bracket
              rw [Kind.sigil_of_ofSigil? sigil]
              by_cases bracketed : ']' ∈ body
              · obtain ⟨name, after, rfl, closed⟩ := List.eq_append_cons_of_mem bracketed
                have shorter : after.length < (c :: '[' :: (name ++ ']' :: after)).length := by
                  simp only [List.length_cons, List.length_append]
                  omega
                exact reference kind name after closed (ih _ shorter after rfl)
              · exact unterminated kind body bracketed
            · refine plain c (d :: body) ⟨escaped, .inr ?_⟩ one
              intro same
              cases same
              exact bracket rfl

end Piece

end Phrasebook
