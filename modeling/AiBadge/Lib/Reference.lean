import AiBadge.Lib.Table

/-! # References between tables

A reference is sound if the row that it names is there. References stay sound as long as the named
rows live on, and every new reference names a row.
-/

namespace AiBadge.Lib

variable {α κ ρ : Type} {key : ρ → κ}

/-- What a row names is the key of a row of the table. -/
def Refers (fk : α → Option κ) (rows : α → Prop) (t : Table key) : Prop :=
  ∀ r, rows r → ∀ k, fk r = some k → ∃ x ∈ t, key x = k

variable {fk : α → Option κ} {P P' : α → Prop} {t t' : Table key}

/-- The step rule: rows come from rows that name the same, or name a row of the new table; and what
they name lives on. -/
theorem Refers.step (h : Refers fk P t)
    (hrows : ∀ r', P' r' → (∃ r, P r ∧ fk r' = fk r) ∨
      ∀ k, fk r' = some k → ∃ x ∈ t', key x = k)
    (hkept : ∀ r', P' r' → ∀ x ∈ t, fk r' = some (key x) → ∃ x' ∈ t', key x' = key x) :
    Refers fk P' t' := by
  intro r' hr' k hk
  rcases hrows r' hr' with ⟨r, hr, he⟩ | hnew
  · obtain ⟨x, hx, rfl⟩ := h r hr k (he ▸ hk)
    exact hkept r' hr' x hx hk
  · exact hnew k hk

/-- Where every named row lives on, only new rows need a look. -/
theorem Refers.grow (h : Refers fk P t)
    (hrows : ∀ r', P' r' → (∃ r, P r ∧ fk r' = fk r) ∨
      ∀ k, fk r' = some k → ∃ x ∈ t, key x = k)
    (hkept : ∀ x ∈ t, ∃ x' ∈ t', key x' = key x) : Refers fk P' t' := by
  apply h.step
  · intro r' hr'
    refine (hrows r' hr').imp id fun hnew k hk => ?_
    obtain ⟨x, hx, rfl⟩ := hnew k hk
    exact hkept x hx
  · exact fun _ _ x hx _ => hkept x hx

end AiBadge.Lib
