import AiBadge.Lib.Transaction

/-! # Programs that agree

Relational rules for a program run from two related sessions: it ends alike, with the
same value or the same exception, and leaves sessions that are related again.
-/

namespace AiBadge.Lib

namespace Prog

variable {σ φ ε α β : Type}

/-- From sessions related by `R`, both programs end alike, in sessions related by `S`. -/
def Agree (R S : Tx σ φ → Tx σ φ → Prop) (p q : Prog σ φ ε α) : Prop :=
  ∀ t u, R t u → (p t).1 = (q u).1 ∧ S (p t).2 (q u).2

section Rules

variable {R S T : Tx σ φ → Tx σ φ → Prop} {p q : Prog σ φ ε α} {f g : α → Prog σ φ ε β}

theorem Agree.mono {R' S' : Tx σ φ → Tx σ φ → Prop} (h : Agree R S p q)
    (hR : ∀ t u, R' t u → R t u) (hS : ∀ t u, S t u → S' t u) : Agree R' S' p q := by
  intro t u ht
  obtain ⟨he, hs⟩ := h t u (hR t u ht)
  exact ⟨he, hS _ _ hs⟩

/-- Sequencing. An exception of the first part ends both programs, so `S` must imply `T`. -/
theorem Agree.bind (hp : Agree R S p q)
    (hf : ∀ a, (∃ t u t', R t u ∧ p.Returns t a t') → Agree S T (f a) (g a))
    (hS : ∀ t u, S t u → T t u) : Agree R T (p >>= f) (q >>= g) := by
  intro t u ht
  obtain ⟨he, hs⟩ := hp t u ht
  simp only [Bind.bind]
  rcases hpt : p t with ⟨x, t₁⟩
  rcases hqu : q u with ⟨y, u₁⟩
  rw [hpt, hqu] at he hs
  obtain rfl : x = y := he
  cases x with
  | error e => exact ⟨rfl, hS _ _ hs⟩
  | ok a => exact hf a ⟨t, u, t₁, ht, hpt⟩ t₁ u₁ hs

/-- Sequencing after programs that leave their sessions alone: the rest may use the value. -/
theorem Agree.kept (hp : Keeps id p) (hq : Keeps id q) (hpq : ∀ t u, R t u → (p t).1 = (q u).1)
    (hR : ∀ t u, R t u → T t u)
    (hf : ∀ a, Agree (fun t u => R t u ∧ p.Returns t a t) T (f a) (g a)) :
    Agree R T (p >>= f) (q >>= g) := by
  intro t u h
  have he := hpq t u h
  have ht : (p t).2 = t := hp t
  have hu : (q u).2 = u := hq u
  simp only [Bind.bind]
  rcases hpt : p t with ⟨x, t₁⟩
  rcases hqu : q u with ⟨y, u₁⟩
  rw [hpt, hqu] at he
  rw [hpt] at ht
  rw [hqu] at hu
  obtain rfl : x = y := he
  obtain rfl : t₁ = t := ht
  obtain rfl : u₁ = u := hu
  cases x with
  | error e => exact ⟨rfl, hR _ _ h⟩
  | ok a => exact hf a t₁ u₁ ⟨h, hpt⟩

/-- The sequencing rule for a relation that both parts keep. -/
theorem Agree.seq (hp : Agree R R p q) (hf : ∀ a, Agree R R (f a) (g a)) :
    Agree R R (p >>= f) (q >>= g) :=
  hp.bind (fun a _ => hf a) fun _ _ h => h

theorem agree_pure {a : α} : Agree R R (pure a : Prog σ φ ε α) (pure a) := fun _ _ h => ⟨rfl, h⟩

theorem agree_throw {e : ε} : Agree R R (throw e : Prog σ φ ε α) (throw e) := fun _ _ h => ⟨rfl, h⟩

theorem agree_read {f : σ → α} (hf : ∀ t u, R t u → f t.view = f u.view) :
    Agree R R (read f : Prog σ φ ε α) (read f) := by
  intro t u h
  exact ⟨congrArg Except.ok (hf t u h), h⟩

theorem agree_write {w v : σ → σ} (hw : ∀ t u, R t u → S (t.flush w) (u.flush v)) :
    Agree R S (write w : Prog σ φ ε Unit) (write v) := fun t u h => ⟨rfl, hw t u h⟩

theorem agree_commit (hc : ∀ t u, R t u → S t.commit u.commit) :
    Agree R S (commit : Prog σ φ ε Unit) commit := fun t u h => ⟨rfl, hc t u h⟩

theorem agree_ensure {c : Bool} {e : ε} : Agree R R (ensure c e : Prog σ φ ε Unit) (ensure c e) := by
  cases c
  · exact agree_throw
  · exact agree_pure

theorem agree_require {o : Option α} {e : ε} :
    Agree R R (require o e : Prog σ φ ε α) (require o e) := by
  cases o
  · exact agree_throw
  · exact agree_pure

theorem agree_forSome {o : Option α} {f g : α → Prog σ φ ε Unit}
    (hf : ∀ a, o = some a → Agree R R (f a) (g a)) : Agree R R (forSome o f) (forSome o g) := by
  cases o with
  | none => exact agree_pure
  | some a => exact hf a rfl

theorem agree_answer {x : Except ε α} : Agree R R (answer x : Prog σ φ ε α) (answer x) :=
  fun _ _ h => ⟨rfl, h⟩

end Rules

end Prog

end AiBadge.Lib
