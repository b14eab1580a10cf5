import Phrasebook.Evaluation.Effect

/-! Computations that may fail, one after the other. -/
namespace Phrasebook

variable {ε α β : Type} {f : α → Except ε β} {a : α} {as : List α} {bs : List β} {e : ε}

theorem bind_eq_error {x : Except ε α} : (x >>= f) = .error e ↔
    x = .error e ∨ ∃ a, x = .ok a ∧ f a = .error e := by
  cases x <;> simp [bind, Except.bind]

theorem mapM_cons_ok : (a :: as).mapM f = .ok bs ↔
    ∃ b rest, f a = .ok b ∧ as.mapM f = .ok rest ∧ bs = b :: rest := by
  rw [List.mapM_cons]
  constructor
  · intro h
    obtain ⟨b, head, h⟩ := bind_eq_ok.mp h
    obtain ⟨rest, tail, h⟩ := bind_eq_ok.mp h
    cases h
    exact ⟨b, rest, head, tail, rfl⟩
  · rintro ⟨b, rest, head, tail, rfl⟩
    rw [head, tail]
    rfl

theorem ok_of_mem_mapM (h : as.mapM f = .ok bs) (member : a ∈ as) : ∃ b, f a = .ok b := by
  induction as generalizing bs with
  | nil => contradiction
  | cons first as ih =>
    obtain ⟨b, rest, head, tail, rfl⟩ := mapM_cons_ok.mp h
    rcases List.mem_cons.mp member with rfl | later
    · exact ⟨b, head⟩
    · exact ih tail later

theorem mapM_cons_error : (a :: as).mapM f = .error e ↔
    f a = .error e ∨ ∃ b, f a = .ok b ∧ as.mapM f = .error e := by
  rw [List.mapM_cons, bind_eq_error]
  constructor
  · rintro (head | ⟨b, head, later⟩)
    · exact .inl head
    · rcases bind_eq_error.mp later with tail | ⟨bs, -, done⟩
      · exact .inr ⟨b, head, tail⟩
      · contradiction
  · rintro (head | ⟨b, head, tail⟩)
    · exact .inl head
    · exact .inr ⟨b, head, bind_eq_error.mpr (.inl tail)⟩

end Phrasebook
