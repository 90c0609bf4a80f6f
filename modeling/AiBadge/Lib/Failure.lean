import AiBadge.Lib.Transaction

/-! # Failures of a kind

Whether a program raises an exception of some kind, command by command. Where a program raises
no other exceptions, it fails exactly when it does not return.
-/

namespace AiBadge.Lib.Prog

variable {σ φ ε α β : Type} {P : ε → Bool} {t : Tx σ φ}

/-- The program, run from `t`, raises an exception of the kind `P`. -/
def Fails (P : ε → Bool) (t : Tx σ φ) (p : Prog σ φ ε α) : Prop :=
  ∃ e t', p.Raises t e t' ∧ P e = true

@[simp] theorem not_fails_pure {a : α} : ¬ Fails P t (pure a : Prog σ φ ε α) := by
  simp [Fails]

@[simp] theorem not_fails_read {f : σ → α} : ¬ Fails P t (read f : Prog σ φ ε α) := by
  simp [Fails]

@[simp] theorem not_fails_write {w : σ → σ} : ¬ Fails P t (write w : Prog σ φ ε Unit) := by
  simp [Fails]

@[simp] theorem not_fails_writeOutside {f : φ → φ} :
    ¬ Fails P t (writeOutside f : Prog σ φ ε Unit) := by
  simp [Fails]

@[simp] theorem fails_ensure {c : Bool} {x : ε} :
    Fails P t (ensure c x : Prog σ φ ε Unit) ↔ c = false ∧ P x = true := by
  simp [Fails, and_assoc]

@[simp] theorem fails_require {o : Option α} {x : ε} :
    Fails P t (require o x : Prog σ φ ε α) ↔ o = none ∧ P x = true := by
  simp [Fails, and_assoc]

@[simp] theorem fails_answer {x : Except ε α} :
    Fails P t (answer x : Prog σ φ ε α) ↔ ∃ e, x = .error e ∧ P e = true := by
  simp [Fails]

@[simp] theorem fails_when {c : Bool} {p : Prog σ φ ε Unit} :
    Fails P t (when c p) ↔ c = true ∧ Fails P t p := by
  simp [Fails, and_assoc]

theorem fails_bind {p : Prog σ φ ε α} {f : α → Prog σ φ ε β} : Fails P t (p >>= f) ↔
    Fails P t p ∨ ∃ a t₁, p.Returns t a t₁ ∧ Fails P t₁ (f a) := by
  simp only [Fails, raises_bind]
  constructor
  · rintro ⟨e, t', hr | ⟨a, t₁, hp, hr⟩, he⟩
    · exact .inl ⟨e, t', hr, he⟩
    · exact .inr ⟨a, t₁, hp, e, t', hr, he⟩
  · rintro (⟨e, t', hr, he⟩ | ⟨a, t₁, hp, e, t', hr, he⟩)
    · exact ⟨e, t', .inl hr, he⟩
    · exact ⟨e, t', .inr ⟨a, t₁, hp, hr⟩, he⟩

/-- The rest of a program fails if the first part returns. -/
theorem fails_bind_of_returns {p : Prog σ φ ε α} {f : α → Prog σ φ ε β} {a : α} {t₁ : Tx σ φ}
    (h : p.Returns t a t₁) : Fails P t (p >>= f) ↔ Fails P t₁ (f a) := by
  simp only [Fails, Raises, bind_of_returns h]

/-- A first part that does not fail has to return. -/
theorem fails_bind_of_not_fails {p : Prog σ φ ε α} {f : α → Prog σ φ ε β} (h : ¬ Fails P t p) :
    Fails P t (p >>= f) ↔ ∃ a t₁, p.Returns t a t₁ ∧ Fails P t₁ (f a) := by
  rw [fails_bind, or_iff_right h]

/-- A result that is only wrapped up changes nothing. -/
theorem fails_bind_pure {p : Prog σ φ ε α} {f : α → β} :
    Fails P t (p >>= fun a => pure (f a)) ↔ Fails P t p := by
  rw [fails_bind]
  constructor
  · rintro (h | ⟨_, _, -, h⟩)
    · exact h
    · exact absurd h not_fails_pure
  · exact .inl

/-- A program that raises nothing else from `t` fails when it does not return. -/
theorem fails_iff_not_returns {p : Prog σ φ ε α} (h : ∀ e t', p.Raises t e t' → P e = true) :
    Fails P t p ↔ ¬ ∃ a t', p.Returns t a t' := by
  constructor
  · rintro ⟨e, t', hr, -⟩ ⟨a, t'', hret⟩
    exact hret.not_raises e t' hr
  · intro hn
    obtain ⟨e, t', hr⟩ := (returns_or_raises p t).resolve_left hn
    exact ⟨e, t', hr, h e t' hr⟩

theorem raisesOnly_when {E : ε → Prop} {c : Bool} {p : Prog σ φ ε Unit} (hp : RaisesOnly E p) :
    RaisesOnly E (when c p) := by
  intro t e t' h
  exact hp t e t' (raises_when.mp h).2

end AiBadge.Lib.Prog
