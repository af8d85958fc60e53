import Mathlib.Data.List.Basic

/-! # Computations that may fail

A chain of computations succeeds if each of them does.
-/

namespace Gozarbin.Fallible

variable {ε α β : Type}

theorem bind_eq_ok {x : Except ε α} {f : α → Except ε β} {b : β} :
    (x >>= f) = .ok b ↔ ∃ a, x = .ok a ∧ f a = .ok b := by
  cases x with
  | error e => simp [bind, Except.bind]
  | ok a => simp [bind, Except.bind]

theorem mapM_eq_ok {ρ : Type} {read : α → Except ε β} {spell : ρ → α} {meaning : ρ → β}
    {Good : ρ → Prop} (reads : ∀ {a b}, read a = .ok b ↔ ∃ r, Good r ∧ a = spell r ∧ b = meaning r)
    {list : List α} {results : List β} :
    list.mapM read = .ok results ↔
      ∃ rs : List ρ, (∀ r ∈ rs, Good r) ∧ list = rs.map spell ∧ results = rs.map meaning := by
  induction list generalizing results with
  | nil =>
    constructor
    · intro ends
      cases ends
      exact ⟨[], by simp⟩
    · intro ⟨rs, _, same, given⟩
      obtain rfl := List.map_eq_nil_iff.mp same.symm
      rw [given]
      rfl
  | cons a list ih =>
    rw [List.mapM_cons, bind_eq_ok]
    constructor
    · intro ⟨b, here, later⟩
      obtain ⟨bs, rest, same⟩ := bind_eq_ok.mp later
      obtain ⟨r, good, rfl, rfl⟩ := reads.mp here
      obtain ⟨rs, goods, rfl, rfl⟩ := ih.mp rest
      cases same
      exact ⟨r :: rs, List.forall_mem_cons.mpr ⟨good, goods⟩, rfl, rfl⟩
    · intro ⟨rs, goods, same, given⟩
      cases rs with
      | nil => cases same
      | cons r rs =>
        obtain ⟨good, goods⟩ := List.forall_mem_cons.mp goods
        obtain ⟨rfl, rfl⟩ := List.cons.inj same
        subst given
        refine ⟨meaning r, reads.mpr ⟨r, good, rfl, rfl⟩, ?_⟩
        exact bind_eq_ok.mpr ⟨rs.map meaning, ih.mpr ⟨rs, goods, rfl, rfl⟩, rfl⟩

end Gozarbin.Fallible
