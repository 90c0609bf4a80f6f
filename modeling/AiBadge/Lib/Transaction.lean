import Mathlib.Logic.Basic

/-! # Programs in a database transaction

A session holds the committed store and the flushed writes that are not yet
committed. A program reads the store through its own writes. An exception keeps
the flushed writes in the session; only a commit or a rollback disposes of them.
Effects outside the store are never undone.
-/

namespace AiBadge.Lib

/-- A database session over a store `σ`, beside an unprotected resource `φ`. It counts its
commits. -/
structure Tx (σ φ : Type) where
  committed : σ
  pending : List (σ → σ)
  outside : φ
  commits : Nat := 0

namespace Tx

variable {σ φ : Type}

/-- A new session with nothing flushed. -/
def start (s : σ) (o : φ) : Tx σ φ := { committed := s, pending := [], outside := o }

/-- A session with nothing flushed, after `n` commits. -/
def clean (n : Nat) (s : σ) (o : φ) : Tx σ φ :=
  { committed := s, pending := [], outside := o, commits := n }

/-- The store as the session itself sees it. -/
def view (t : Tx σ φ) : σ := t.pending.foldl (fun s w => w s) t.committed

def flush (t : Tx σ φ) (w : σ → σ) : Tx σ φ := { t with pending := t.pending ++ [w] }

def commit (t : Tx σ φ) : Tx σ φ :=
  { t with committed := t.view, pending := [], commits := t.commits + 1 }

def rollback (t : Tx σ φ) : Tx σ φ := { t with pending := [] }

/-- Another connection commits `w` while this session is open. -/
def elsewhere (t : Tx σ φ) (w : σ → σ) : Tx σ φ := { t with committed := w t.committed }

def setOutside (t : Tx σ φ) (f : φ → φ) : Tx σ φ := { t with outside := f t.outside }

variable (t : Tx σ φ) (s : σ) (o : φ) (w : σ → σ) (f : φ → φ)

@[simp] theorem view_start : (start s o).view = s := rfl

@[simp] theorem outside_start : (start s o).outside = o := rfl

@[simp] theorem view_clean {n : Nat} : (clean n s o).view = s := rfl

@[simp] theorem view_flush : (t.flush w).view = w t.view := by
  simp [flush, view]

@[simp] theorem pending_flush : (t.flush w).pending = t.pending ++ [w] := rfl

@[simp] theorem outside_flush : (t.flush w).outside = t.outside := rfl

@[simp] theorem committed_commit : t.commit.committed = t.view := rfl

@[simp] theorem outside_commit : t.commit.outside = t.outside := rfl

@[simp] theorem view_setOutside : (t.setOutside f).view = t.view := rfl

@[simp] theorem outside_setOutside : (t.setOutside f).outside = f t.outside := rfl

end Tx

/-- A program that runs in a session and returns a value or raises. -/
def Prog (σ φ ε α : Type) : Type := Tx σ φ → Except ε α × Tx σ φ

namespace Prog

variable {σ φ ε α β : Type}

instance : Monad (Prog σ φ ε) where
  pure a := fun t => (.ok a, t)
  bind p f := fun t =>
    match p t with
    | (.ok a, t') => f a t'
    | (.error e, t') => (.error e, t')

instance : MonadExceptOf ε (Prog σ φ ε) where
  throw e := fun t => (.error e, t)
  tryCatch p h := fun t =>
    match p t with
    | (.ok a, t') => (.ok a, t')
    | (.error e, t') => h e t'

/-- Query the store as the session sees it. -/
def read (f : σ → α) : Prog σ φ ε α := fun t => (.ok (f t.view), t)

def write (w : σ → σ) : Prog σ φ ε Unit := fun t => (.ok (), t.flush w)

def commit : Prog σ φ ε Unit := fun t => (.ok (), t.commit)

/-- Write and commit through a session of its own. -/
def elsewhere (w : σ → σ) : Prog σ φ ε Unit := fun t => (.ok (), t.elsewhere w)

def readOutside (f : φ → α) : Prog σ φ ε α := fun t => (.ok (f t.outside), t)

def writeOutside (f : φ → φ) : Prog σ φ ε Unit := fun t => (.ok (), t.setOutside f)

/-- Raise `e` unless the condition holds. -/
def ensure (c : Bool) (e : ε) : Prog σ φ ε Unit := if c then pure () else throw e

/-- The value of an option; raise `e` when there is none. -/
def require (o : Option α) (e : ε) : Prog σ φ ε α :=
  match o with
  | some a => pure a
  | none => throw e

def when (c : Bool) (p : Prog σ φ ε Unit) : Prog σ φ ε Unit := if c then p else pure ()

/-- Run `p` on the value of an option, if there is one. -/
def forSome (o : Option α) (p : α → Prog σ φ ε Unit) : Prog σ φ ε Unit :=
  match o with
  | some a => p a
  | none => pure ()

/-- The answer of an outside call, or the exception it ends in. -/
def answer (x : Except ε α) : Prog σ φ ε α := fun t => (x, t)

/-- `p` run from `t` returns `a` and leaves the session `t'`. -/
def Returns (p : Prog σ φ ε α) (t : Tx σ φ) (a : α) (t' : Tx σ φ) : Prop := p t = (.ok a, t')

/-- `p` run from `t` raises `e` and leaves the session `t'`. -/
def Raises (p : Prog σ φ ε α) (t : Tx σ φ) (e : ε) (t' : Tx σ φ) : Prop := p t = (.error e, t')

section Rules

variable {t t' : Tx σ φ} {a : α} {b : β} {e : ε}

@[simp] theorem returns_pure {c : α} : (pure c : Prog σ φ ε α).Returns t a t' ↔ a = c ∧ t' = t := by
  simp [Returns, pure, eq_comm]

@[simp] theorem raises_pure {c : α} : ¬ (pure c : Prog σ φ ε α).Raises t e t' := by
  simp [Raises, pure]

@[simp] theorem returns_throw {x : ε} : ¬ (throw x : Prog σ φ ε α).Returns t a t' := by
  simp [Returns, throw, throwThe, MonadExceptOf.throw]

@[simp] theorem raises_throw {x : ε} :
    (throw x : Prog σ φ ε α).Raises t e t' ↔ e = x ∧ t' = t := by
  simp [Raises, throw, throwThe, MonadExceptOf.throw, eq_comm]

@[simp] theorem returns_bind {p : Prog σ φ ε α} {f : α → Prog σ φ ε β} :
    (p >>= f).Returns t b t' ↔ ∃ a t₁, p.Returns t a t₁ ∧ (f a).Returns t₁ b t' := by
  simp only [Returns, bind]
  rcases h : p t with ⟨_ | a, t₁⟩ <;> simp [and_assoc]

@[simp] theorem raises_bind {p : Prog σ φ ε α} {f : α → Prog σ φ ε β} :
    (p >>= f).Raises t e t' ↔
      p.Raises t e t' ∨ ∃ a t₁, p.Returns t a t₁ ∧ (f a).Raises t₁ e t' := by
  simp only [Returns, Raises, bind]
  rcases h : p t with ⟨_ | a, t₁⟩ <;> simp [and_assoc]

@[simp] theorem returns_tryCatch {p : Prog σ φ ε α} {h : ε → Prog σ φ ε α} :
    (tryCatchThe ε p h).Returns t a t' ↔
      p.Returns t a t' ∨ ∃ e t₁, p.Raises t e t₁ ∧ (h e).Returns t₁ a t' := by
  simp only [Returns, Raises, tryCatchThe, MonadExceptOf.tryCatch]
  rcases hp : p t with ⟨_ | a, t₁⟩ <;> simp [and_assoc]

@[simp] theorem raises_tryCatch {p : Prog σ φ ε α} {h : ε → Prog σ φ ε α} :
    (tryCatchThe ε p h).Raises t e t' ↔ ∃ x t₁, p.Raises t x t₁ ∧ (h x).Raises t₁ e t' := by
  simp only [Raises, tryCatchThe, MonadExceptOf.tryCatch]
  rcases hp : p t with ⟨_ | a, t₁⟩ <;> simp [and_assoc]

@[simp] theorem returns_read {f : σ → α} :
    (read f : Prog σ φ ε α).Returns t a t' ↔ a = f t.view ∧ t' = t := by
  simp [Returns, read, eq_comm]

@[simp] theorem raises_read {f : σ → α} : ¬ (read f : Prog σ φ ε α).Raises t e t' := by
  simp [Raises, read]

@[simp] theorem returns_write {w : σ → σ} {u : Unit} :
    (write w : Prog σ φ ε Unit).Returns t u t' ↔ t' = t.flush w := by
  simp [Returns, write, eq_comm]

@[simp] theorem raises_write {w : σ → σ} : ¬ (write w : Prog σ φ ε Unit).Raises t e t' := by
  simp [Raises, write]

@[simp] theorem returns_commit {u : Unit} :
    (commit : Prog σ φ ε Unit).Returns t u t' ↔ t' = t.commit := by
  simp [Returns, commit, eq_comm]

@[simp] theorem raises_commit : ¬ (commit : Prog σ φ ε Unit).Raises t e t' := by
  simp [Raises, commit]

@[simp] theorem returns_elsewhere {w : σ → σ} {u : Unit} :
    (elsewhere w : Prog σ φ ε Unit).Returns t u t' ↔ t' = t.elsewhere w := by
  simp [Returns, elsewhere, eq_comm]

@[simp] theorem returns_readOutside {f : φ → α} :
    (readOutside f : Prog σ φ ε α).Returns t a t' ↔ a = f t.outside ∧ t' = t := by
  simp [Returns, readOutside, eq_comm]

@[simp] theorem raises_readOutside {f : φ → α} :
    ¬ (readOutside f : Prog σ φ ε α).Raises t e t' := by
  simp [Raises, readOutside]

@[simp] theorem returns_writeOutside {f : φ → φ} {u : Unit} :
    (writeOutside f : Prog σ φ ε Unit).Returns t u t' ↔ t' = t.setOutside f := by
  simp [Returns, writeOutside, eq_comm]

@[simp] theorem raises_writeOutside {f : φ → φ} :
    ¬ (writeOutside f : Prog σ φ ε Unit).Raises t e t' := by
  simp [Raises, writeOutside]

@[simp] theorem returns_ensure {c : Bool} {x : ε} {u : Unit} :
    (ensure c x : Prog σ φ ε Unit).Returns t u t' ↔ c = true ∧ t' = t := by
  cases c <;> simp [ensure]

@[simp] theorem raises_ensure {c : Bool} {x : ε} :
    (ensure c x : Prog σ φ ε Unit).Raises t e t' ↔ c = false ∧ e = x ∧ t' = t := by
  cases c <;> simp [ensure]

@[simp] theorem returns_require {o : Option α} {x : ε} :
    (require o x : Prog σ φ ε α).Returns t a t' ↔ o = some a ∧ t' = t := by
  cases o <;> simp [require, eq_comm]

@[simp] theorem raises_require {o : Option α} {x : ε} :
    (require o x : Prog σ φ ε α).Raises t e t' ↔ o = none ∧ e = x ∧ t' = t := by
  cases o <;> simp [require]

@[simp] theorem returns_when {c : Bool} {p : Prog σ φ ε Unit} {u : Unit} :
    (when c p).Returns t u t' ↔ c = true ∧ p.Returns t () t' ∨ c = false ∧ t' = t := by
  cases c <;> simp [when]

@[simp] theorem raises_when {c : Bool} {p : Prog σ φ ε Unit} :
    (when c p).Raises t e t' ↔ c = true ∧ p.Raises t e t' := by
  cases c <;> simp [when]

@[simp] theorem returns_forSome {o : Option α} {p : α → Prog σ φ ε Unit} {u : Unit} :
    (forSome o p).Returns t u t' ↔
      (∃ a, o = some a ∧ (p a).Returns t () t') ∨ o = none ∧ t' = t := by
  cases o <;> simp [forSome]

@[simp] theorem raises_forSome {o : Option α} {p : α → Prog σ φ ε Unit} :
    (forSome o p).Raises t e t' ↔ ∃ a, o = some a ∧ (p a).Raises t e t' := by
  cases o <;> simp [forSome]

@[simp] theorem returns_answer {x : Except ε α} :
    (answer x : Prog σ φ ε α).Returns t a t' ↔ x = .ok a ∧ t' = t := by
  simp [Returns, answer, eq_comm]

@[simp] theorem raises_answer {x : Except ε α} :
    (answer x : Prog σ φ ε α).Raises t e t' ↔ x = .error e ∧ t' = t := by
  simp [Raises, answer, eq_comm]

theorem returns_or_raises (p : Prog σ φ ε α) (t : Tx σ φ) :
    (∃ a t', p.Returns t a t') ∨ ∃ e t', p.Raises t e t' := by
  rcases h : p t with ⟨_ | a, t'⟩
  · exact .inr ⟨_, t', h⟩
  · exact .inl ⟨a, t', h⟩

theorem Returns.not_raises {p : Prog σ φ ε α} (h : p.Returns t a t') (e : ε) (t'' : Tx σ φ) :
    ¬ p.Raises t e t'' := by
  intro hr
  cases h.symm.trans hr

theorem Returns.unique {p : Prog σ φ ε α} {b : α} {t'' : Tx σ φ} (h : p.Returns t a t')
    (h' : p.Returns t b t'') : a = b := by
  cases h.symm.trans h'
  rfl

end Rules

/-- Every exception that `p` raises satisfies `E`. -/
def RaisesOnly (E : ε → Prop) (p : Prog σ φ ε α) : Prop := ∀ t e t', p.Raises t e t' → E e

section RaisesOnly

variable {E : ε → Prop}

theorem RaisesOnly.bind {p : Prog σ φ ε α} {f : α → Prog σ φ ε β} (hp : RaisesOnly E p)
    (hf : ∀ a, RaisesOnly E (f a)) : RaisesOnly E (p >>= f) := by
  intro t e t' h
  rcases raises_bind.mp h with h | ⟨a, t₁, -, h⟩
  · exact hp t e t' h
  · exact hf a t₁ e t' h

@[simp] theorem raisesOnly_pure {c : α} : RaisesOnly E (pure c : Prog σ φ ε α) :=
  fun _ _ _ h => absurd h raises_pure

@[simp] theorem raisesOnly_read {f : σ → α} : RaisesOnly E (read f : Prog σ φ ε α) :=
  fun _ _ _ h => absurd h raises_read

@[simp] theorem raisesOnly_write {w : σ → σ} : RaisesOnly E (write w : Prog σ φ ε Unit) :=
  fun _ _ _ h => absurd h raises_write

@[simp] theorem raisesOnly_commit : RaisesOnly E (commit : Prog σ φ ε Unit) :=
  fun _ _ _ h => absurd h raises_commit

theorem raisesOnly_throw {x : ε} (hx : E x) : RaisesOnly E (throw x : Prog σ φ ε α) := by
  intro t e t' h
  rwa [(raises_throw.mp h).1]

theorem raisesOnly_ensure {c : Bool} {x : ε} (hx : E x) :
    RaisesOnly E (ensure c x : Prog σ φ ε Unit) := by
  intro t e t' h
  rwa [(raises_ensure.mp h).2.1]

theorem raisesOnly_require {o : Option α} {x : ε} (hx : E x) :
    RaisesOnly E (require o x : Prog σ φ ε α) := by
  intro t e t' h
  rwa [(raises_require.mp h).2.1]

theorem raisesOnly_answer {x : Except ε α} (hx : ∀ e, x = .error e → E e) :
    RaisesOnly E (answer x : Prog σ φ ε α) :=
  fun _ e _ h => hx e (raises_answer.mp h).1

theorem raisesOnly_forSome {o : Option α} {p : α → Prog σ φ ε Unit}
    (hp : ∀ a, RaisesOnly E (p a)) : RaisesOnly E (forSome o p) := by
  intro t e t' h
  obtain ⟨a, -, h⟩ := raises_forSome.mp h
  exact hp a t e t' h

end RaisesOnly

/-- However `p` ends, it leaves the observation `f` of the session as it was. -/
def Keeps {ω : Type} (f : Tx σ φ → ω) (p : Prog σ φ ε α) : Prop := ∀ t, f (p t).2 = f t

section Keeps

variable {ω : Type} {f : Tx σ φ → ω}

@[simp] theorem keeps_pure {c : α} : Keeps f (pure c : Prog σ φ ε α) := fun _ => rfl

@[simp] theorem keeps_throw {x : ε} : Keeps f (throw x : Prog σ φ ε α) := fun _ => rfl

@[simp] theorem keeps_read {g : σ → α} : Keeps f (read g : Prog σ φ ε α) := fun _ => rfl

@[simp] theorem keeps_readOutside {g : φ → α} : Keeps f (readOutside g : Prog σ φ ε α) :=
  fun _ => rfl

@[simp] theorem keeps_answer {x : Except ε α} : Keeps f (answer x : Prog σ φ ε α) := fun _ => rfl

theorem Keeps.bind {p : Prog σ φ ε α} {q : α → Prog σ φ ε β} (hp : Keeps f p)
    (hq : ∀ a, Keeps f (q a)) : Keeps f (p >>= q) := by
  intro t
  have h := hp t
  simp only [Bind.bind]
  rcases hr : p t with ⟨_ | a, t₁⟩ <;> rw [hr] at h
  · exact h
  · exact (hq a t₁).trans h

/-- What follows a program that does not return is never run. -/
theorem Keeps.bind_of_not_returns {p : Prog σ φ ε α} {q : α → Prog σ φ ε β} (hp : Keeps f p)
    {t : Tx σ φ} (hn : ∀ a t', ¬ p.Returns t a t') : f ((p >>= q) t).2 = f t := by
  have h := hp t
  simp only [Bind.bind]
  rcases hr : p t with ⟨_ | a, t₁⟩ <;> rw [hr] at h
  · exact h
  · exact absurd hr (hn a t₁)

theorem bind_of_returns {p : Prog σ φ ε α} {q : α → Prog σ φ ε β} {t t' : Tx σ φ} {a : α}
    (h : p.Returns t a t') : (p >>= q) t = q a t' := by
  simp only [Bind.bind]
  rw [show p t = _ from h]

theorem bind_of_raises {p : Prog σ φ ε α} {q : α → Prog σ φ ε β} {t t' : Tx σ φ} {e : ε}
    (h : p.Raises t e t') : (p >>= q) t = (.error e, t') := by
  simp only [Bind.bind]
  rw [show p t = _ from h]

theorem tryCatch_of_returns {p : Prog σ φ ε α} {h : ε → Prog σ φ ε α} {t t' : Tx σ φ} {a : α}
    (hp : p.Returns t a t') : tryCatchThe ε p h t = (.ok a, t') := by
  simp only [tryCatchThe, MonadExceptOf.tryCatch]
  rw [show p t = _ from hp]

theorem tryCatch_of_raises {p : Prog σ φ ε α} {h : ε → Prog σ φ ε α} {t t' : Tx σ φ} {e : ε}
    (hp : p.Raises t e t') : tryCatchThe ε p h t = h e t' := by
  simp only [tryCatchThe, MonadExceptOf.tryCatch]
  rw [show p t = _ from hp]

@[simp] theorem keeps_ensure {c : Bool} {x : ε} : Keeps f (ensure c x : Prog σ φ ε Unit) := by
  cases c <;> simp [ensure]

@[simp] theorem keeps_require {o : Option α} {x : ε} :
    Keeps f (require o x : Prog σ φ ε α) := by
  cases o <;> simp [require]

theorem Keeps.when {c : Bool} {p : Prog σ φ ε Unit} (hp : Keeps f p) : Keeps f (when c p) := by
  cases c
  · exact keeps_pure
  · exact hp

/-- A program that leaves the whole session alone: the rest runs on its value, or it raises. -/
theorem bind_of_readOnly {p : Prog σ φ ε α} {q : α → Prog σ φ ε β} {t : Tx σ φ}
    {E : Except ε β × Tx σ φ → Prop} (hp : Keeps id p) (he : ∀ e, p.Raises t e t → E (.error e, t))
    (hq : ∀ a, p.Returns t a t → E (q a t)) : E ((p >>= q) t) := by
  have h : (p t).2 = t := hp t
  simp only [Bind.bind]
  rcases hr : p t with ⟨e | a, t₁⟩ <;> rw [hr] at h <;> obtain rfl : t₁ = t := h
  · exact he e hr
  · exact hq a hr

/-- Whenever `p` raises, it leaves the observation `f` of the session as it was. -/
def KeepsOnRaise (f : Tx σ φ → ω) (p : Prog σ φ ε α) : Prop :=
  ∀ t e t', p.Raises t e t' → f t' = f t

theorem Keeps.bind_onRaise {p : Prog σ φ ε α} {q : α → Prog σ φ ε β} (hp : Keeps f p)
    (hq : ∀ a, KeepsOnRaise f (q a)) : KeepsOnRaise f (p >>= q) := by
  intro t e t' h
  have ht := hp t
  rcases raises_bind.mp h with h | ⟨a, t₁, hr, h⟩
  · rwa [show p t = _ from h] at ht
  · rw [show p t = _ from hr] at ht
    exact (hq a t₁ e t' h).trans ht

theorem keepsOnRaise_commit : KeepsOnRaise f (commit : Prog σ φ ε Unit) :=
  fun _ _ _ h => absurd h raises_commit

@[simp] theorem keeps_write_outside {w : σ → σ} :
    Keeps Tx.outside (write w : Prog σ φ ε Unit) := fun _ => rfl

@[simp] theorem keeps_write_committed {w : σ → σ} :
    Keeps Tx.committed (write w : Prog σ φ ε Unit) := fun _ => rfl

@[simp] theorem keeps_writeOutside_committed {w : φ → φ} :
    Keeps Tx.committed (writeOutside w : Prog σ φ ε Unit) := fun _ => rfl

end Keeps

end Prog

end AiBadge.Lib
