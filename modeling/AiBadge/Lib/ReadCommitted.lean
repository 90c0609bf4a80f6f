import AiBadge.Lib.Run
import AiBadge.Lib.Transaction
import Mathlib.Data.Fintype.Basic
import Mathlib.Logic.Function.Basic
import Mathlib.Logic.Relation

/-! # Concurrent transactions under READ COMMITTED

A transaction is a script of statements. Each of them sees what is committed when it
runs, below the writes that its own transaction has flushed. A flush waits for the
locks of other transactions on its rows.
-/

namespace AiBadge.Lib

/-- A transaction, cut at its statements. A flush names the rows it locks, and fails where its
check finds a violated constraint. -/
inductive Script (σ κ ε : Type) where
  | done
  | raise (e : ε)
  | query (next : σ → Script σ κ ε)
  | flush (rows : List κ) (check : σ → Option ε) (w : σ → σ) (next : Script σ κ ε)

namespace Script

variable {σ κ ε α : Type}

def require (o : Option α) (e : ε) (next : α → Script σ κ ε) : Script σ κ ε :=
  match o with
  | some a => next a
  | none => raise e

def ensure (c : Bool) (e : ε) (next : Script σ κ ε) : Script σ κ ε := if c then next else raise e

def when (c : Bool) (p : Script σ κ ε → Script σ κ ε) (next : Script σ κ ε) : Script σ κ ε :=
  if c then p next else next

/-- A query whose result must be there. -/
def fetch (f : σ → Option α) (e : ε) (next : α → Script σ κ ε) : Script σ κ ε :=
  query fun s => require (f s) e next

/-- A flush that violates no constraint. -/
def update (rows : List κ) (w : σ → σ) (next : Script σ κ ε) : Script σ κ ε :=
  flush rows (fun _ => none) w next

/-- A flush that fails unless the new rows are free. -/
def insert (rows : List κ) (free : σ → Bool) (e : ε) (w : σ → σ) (next : Script σ κ ε) :
    Script σ κ ε :=
  flush rows (fun s => if free s then none else some e) w next

end Script

/-- A store below flushed writes. -/
def overlay {σ : Type} (ws : List (σ → σ)) (s : σ) : σ := ws.foldl (fun s w => w s) s

section Overlay

variable {σ : Type} {ws : List (σ → σ)} {w : σ → σ} {s : σ}

@[simp] theorem overlay_nil : overlay [] s = s := rfl

@[simp] theorem overlay_snoc : overlay (ws ++ [w]) s = w (overlay ws s) := by
  rw [overlay, List.foldl_append]
  rfl

end Overlay

/-- A place in a running transaction: the statements to come, the flushed writes, and the rows
that they lock. -/
structure Cursor (σ κ ε : Type) where
  script : Script σ κ ε
  writes : List (σ → σ) := []
  locks : List κ := []

inductive Party (σ κ ε : Type) where
  | active (c : Cursor σ κ ε)
  | committed
  | aborted

/-- A store with the transactions that run on it. -/
structure Shared (K σ κ ε : Type) where
  store : σ
  parties : K → Party σ κ ε

variable {K σ κ ε : Type}

namespace Cursor

variable {s s' : σ} {c c' : Cursor σ κ ε}

def view (s : σ) (c : Cursor σ κ ε) : σ := overlay c.writes s

/-- The rows that the next statement locks. -/
def wants (c : Cursor σ κ ε) : List κ :=
  match c.script with
  | .flush rows _ _ _ => rows
  | _ => []

/-- Run the next statement over the store `s`. -/
def advance (s : σ) (c : Cursor σ κ ε) : Option (Cursor σ κ ε) :=
  match c.script with
  | .done => none
  | .raise _ => none
  | .query next => some { c with script := next (c.view s) }
  | .flush rows check w next =>
    match check (c.view s) with
    | some e => some { c with script := .raise e }
    | none => some { script := next, writes := c.writes ++ [w], locks := c.locks ++ rows }

end Cursor

/-- The rows that a transaction holds locked. -/
def Party.locks : Party σ κ ε → List κ
  | active c => c.locks
  | _ => []

def Party.isCommitted : Party σ κ ε → Bool
  | committed => true
  | _ => false

@[simp] theorem Party.isCommitted_active {c : Cursor σ κ ε} :
    (active c).isCommitted = false := rfl

@[simp] theorem Party.isCommitted_committed :
    (committed : Party σ κ ε).isCommitted = true := rfl

@[simp] theorem Party.isCommitted_aborted : (aborted : Party σ κ ε).isCommitted = false := rfl

theorem Party.isCommitted_iff {p : Party σ κ ε} : p.isCommitted = true ↔ p = .committed := by
  cases p <;> simp [isCommitted]

def Party.Finished : Party σ κ ε → Prop
  | active _ => False
  | _ => True

/-- Transactions that have not run a statement yet. -/
def Shared.start (s : σ) (p : K → Script σ κ ε) : Shared K σ κ ε where
  store := s
  parties k := .active ⟨p k, [], []⟩

namespace Shared

variable [DecidableEq K]

def setParty (s : Shared K σ κ ε) (k : K) (p : Party σ κ ε) : Shared K σ κ ε :=
  { s with parties := Function.update s.parties k p }

/-- No other transaction holds a row that `c` wants. -/
def Unlocked (s : Shared K σ κ ε) (k : K) (c : Cursor σ κ ε) : Prop :=
  ∀ j, j ≠ k → ∀ r ∈ c.wants, r ∉ (s.parties j).locks

instance [Fintype K] [DecidableEq κ] (s : Shared K σ κ ε) (k : K) (c : Cursor σ κ ε) :
    Decidable (s.Unlocked k c) :=
  inferInstanceAs (Decidable (∀ j, j ≠ k → ∀ r ∈ c.wants, r ∉ (s.parties j).locks))

/-- One statement of the transaction `k`, or its commit or rollback. -/
def step [Fintype K] [DecidableEq κ] (s : Shared K σ κ ε) (k : K) : Option (Shared K σ κ ε) :=
  match s.parties k with
  | .active c =>
    match c.script with
    | .done => some { s.setParty k .committed with store := c.view s.store }
    | .raise _ => some (s.setParty k .aborted)
    | _ =>
      if s.Unlocked k c then (c.advance s.store).map fun c' => s.setParty k (.active c') else none
  | _ => none

/-- What one step of the transaction `k` does. -/
inductive Moved (s : Shared K σ κ ε) (k : K) : Shared K σ κ ε → Prop where
  | advanced {c c' : Cursor σ κ ε} : s.parties k = .active c → s.Unlocked k c →
      c.advance s.store = some c' → Moved s k (s.setParty k (.active c'))
  | committed {c : Cursor σ κ ε} : s.parties k = .active c → c.script = .done →
      Moved s k { s.setParty k .committed with store := c.view s.store }
  | aborted {c : Cursor σ κ ε} {e : ε} : s.parties k = .active c → c.script = .raise e →
      Moved s k (s.setParty k .aborted)

theorem moved_of_step [Fintype K] [DecidableEq κ] {s s' : Shared K σ κ ε} {k : K}
    (h : s.step k = some s') : s.Moved k s' := by
  unfold step at h
  split at h
  next c hc =>
    split at h
    next hd =>
      cases h
      exact .committed hc hd
    next e he =>
      cases h
      exact .aborted hc he
    next =>
      split at h
      next hu =>
        obtain ⟨c', hadv, rfl⟩ := Option.map_eq_some_iff.mp h
        exact .advanced hc hu hadv
      next => cases h
  next => cases h

theorem step_of_advance [Fintype K] [DecidableEq κ] {s : Shared K σ κ ε} {k : K}
    {c c' : Cursor σ κ ε} (hc : s.parties k = .active c) (hu : s.Unlocked k c)
    (h : c.advance s.store = some c') : s.step k = some (s.setParty k (.active c')) := by
  have hs : s.step k = if s.Unlocked k c then
      (c.advance s.store).map fun c' => s.setParty k (.active c') else none := by
    unfold step
    rw [hc]
    obtain ⟨script, writes, locks⟩ := c
    cases script with
    | done => cases h
    | raise => cases h
    | query => rfl
    | flush => rfl
  rw [hs, if_pos hu, h]
  rfl

theorem step_of_done [Fintype K] [DecidableEq κ] {s : Shared K σ κ ε} {k : K} {c : Cursor σ κ ε}
    (hc : s.parties k = .active c) (hd : c.script = .done) :
    s.step k = some { s.setParty k .committed with store := c.view s.store } := by
  unfold step
  rw [hc]
  simp only [hd]

theorem step_of_raise [Fintype K] [DecidableEq κ] {s : Shared K σ κ ε} {k : K} {c : Cursor σ κ ε}
    {e : ε} (hc : s.parties k = .active c) (he : c.script = .raise e) :
    s.step k = some (s.setParty k .aborted) := by
  unfold step
  rw [hc]
  simp only [he]

end Shared

/-! ## One transaction on its own -/

/-- The script run without interruption, as a program of its own. -/
def Script.run {φ : Type} : Script σ κ ε → Prog σ φ ε Unit
  | done => pure ()
  | raise e => throw e
  | query next => Prog.read id >>= fun s => (next s).run
  | flush _ check w next => Prog.read check >>= fun o =>
    match o with
    | some e => throw e
    | none => Prog.write w >>= fun _ => next.run

/-- What the script commits on top of the writes `ws`, if nothing else commits meanwhile. -/
def Script.finish (s : σ) : Script σ κ ε → List (σ → σ) → Option σ
  | done, ws => some (overlay ws s)
  | raise _, _ => none
  | query next, ws => (next (overlay ws s)).finish s ws
  | flush _ check w next, ws =>
    match check (overlay ws s) with
    | some _ => none
    | none => next.finish s (ws ++ [w])

/-- The store that a transaction leaves, if nothing else commits before its end. -/
def Cursor.result (s : σ) (c : Cursor σ κ ε) : σ := (c.script.finish s c.writes).getD s

/-- `c` runs to `c'` over the store `s`. -/
def Reaches (s : σ) : Cursor σ κ ε → Cursor σ κ ε → Prop :=
  Relation.ReflTransGen fun c c' => c.advance s = some c'

/-- `c` runs to its last place `c'` over the store `s`. -/
def Ends (s : σ) (c c' : Cursor σ κ ε) : Prop := Reaches s c c' ∧ c'.advance s = none

section Alone

variable {s : σ} {c c' : Cursor σ κ ε} {φ : Type}

/-- A program run as a request: committed where it returns, rolled back where it raises. -/
def Prog.serve (p : Prog σ φ ε Unit) (s : σ) (o : φ) : σ :=
  match p (Tx.start s o) with
  | (.ok _, t) => t.commit.committed
  | (.error _, t) => t.rollback.committed

theorem Script.run_cases (p : Script σ κ ε) (t : Tx σ φ) :
    (∃ t', p.run.Returns t () t' ∧ p.finish t.committed t.pending = some t'.view) ∨
      ∃ e t', p.run.Raises t e t' ∧ p.finish t.committed t.pending = none ∧
        t'.committed = t.committed := by
  induction p generalizing t with
  | done => exact .inl ⟨t, rfl, rfl⟩
  | raise e => exact .inr ⟨e, t, rfl, rfl, rfl⟩
  | query next ih => exact ih t.view t
  | flush rows check w next ih =>
    have hrun : (Script.flush rows check w next).run t =
        match check t.view with
        | some e => (.error e, t)
        | none => next.run (t.flush w) := by
      simp only [Script.run, Bind.bind, Prog.read, Prog.write]
      cases check t.view <;> rfl
    have hfin : (Script.flush rows check w next).finish t.committed t.pending =
        match check t.view with
        | some _ => none
        | none => next.finish t.committed (t.pending ++ [w]) := rfl
    unfold Prog.Returns Prog.Raises
    rw [hrun, hfin]
    cases check t.view with
    | some e => exact .inr ⟨e, t, rfl, rfl, rfl⟩
    | none => exact ih (t.flush w)

/-- The script, run without interruption as a request, leaves its result. -/
theorem Script.serve_run (p : Script σ κ ε) (s : σ) (o : φ) :
    p.run.serve s o = Cursor.result s (⟨p, [], []⟩ : Cursor σ κ ε) := by
  unfold Prog.serve Cursor.result
  rcases p.run_cases (Tx.start s o) with ⟨t, hr, hf⟩ | ⟨e, t, hr, hf, hc⟩
  · rw [show p.run _ = _ from hr, show p.finish s [] = _ from hf]
    rfl
  · rw [show p.run _ = _ from hr, show p.finish s [] = _ from hf]
    exact hc

section Rules

open Prog

variable {α : Type}

theorem run_require {o : Option α} {e : ε} {next : α → Script σ κ ε} :
    (Script.require o e next).run (φ := φ) = Prog.require o e >>= fun a => (next a).run := by
  cases o <;> rfl

theorem run_ensure {b : Bool} {e : ε} {next : Script σ κ ε} :
    (Script.ensure b e next).run (φ := φ) = Prog.ensure b e >>= fun _ => next.run := by
  cases b <;> rfl

theorem run_fetch {f : σ → Option α} {e : ε} {next : α → Script σ κ ε} :
    (Script.fetch f e next).run (φ := φ) =
      (Prog.read f >>= fun o => Prog.require o e) >>= fun a => (next a).run := by
  funext t
  simp only [Script.fetch, Script.run, Bind.bind, Prog.read]
  rw [run_require]
  rfl

theorem bind_assoc {β γ : Type} {p : Prog σ φ ε α} {f : α → Prog σ φ ε β} {g : β → Prog σ φ ε γ} :
    (p >>= f) >>= g = p >>= fun a => f a >>= g := by
  funext t
  simp only [Bind.bind]
  rcases p t with ⟨_ | _, _⟩ <;> rfl

theorem bind_done {p : Prog σ φ ε Unit} :
    (p >>= fun _ => (Script.done : Script σ κ ε).run) = p := by
  funext t
  simp only [Bind.bind]
  rcases p t with ⟨_ | _, _⟩ <;> rfl

theorem run_update {rows : List κ} {w : σ → σ} {next : Script σ κ ε} :
    (Script.update rows w next).run (φ := φ) = Prog.write w >>= fun _ => next.run := rfl

theorem run_insert {rows : List κ} {free : σ → Bool} {e : ε} {w : σ → σ} {next : Script σ κ ε} :
    (Script.insert rows free e w next).run (φ := φ) =
      (Prog.read free >>= fun b => Prog.ensure b e >>= fun _ => Prog.write w) >>=
        fun _ => next.run := by
  funext t
  simp only [Script.insert, Script.run, Bind.bind, Prog.read]
  cases free t.view <;> rfl

end Rules

theorem finish_advance (h : c.advance s = some c') :
    c'.script.finish s c'.writes = c.script.finish s c.writes := by
  obtain ⟨script, writes, locks⟩ := c
  cases script with
  | done => cases h
  | raise => cases h
  | query next =>
    cases h
    rfl
  | flush rows check w next =>
    simp only [Cursor.advance, Cursor.view] at h
    simp only [Script.finish]
    cases hc : check (overlay writes s) with
    | some e =>
      rw [hc] at h
      cases h
      rfl
    | none =>
      rw [hc] at h
      cases h
      rfl

theorem Reaches.result (h : Reaches s c c') : c'.result s = c.result s := by
  unfold Cursor.result
  induction h with
  | refl => rfl
  | tail _ hstep ih => rw [finish_advance hstep, ih]

theorem exists_ends (s : σ) (c : Cursor σ κ ε) : ∃ c', Ends s c c' := by
  obtain ⟨script, writes, locks⟩ := c
  induction script generalizing writes locks with
  | done => exact ⟨_, .refl, rfl⟩
  | raise e => exact ⟨_, .refl, rfl⟩
  | query next ih =>
    obtain ⟨c', hr, he⟩ := ih (overlay writes s) writes locks
    exact ⟨c', .head rfl hr, he⟩
  | flush rows check w next ih =>
    cases hc : check (overlay writes s) with
    | some e =>
      refine ⟨_, .single (?_ : Cursor.advance s _ = some ⟨.raise e, writes, locks⟩), rfl⟩
      simp only [Cursor.advance, Cursor.view, hc]
    | none =>
      obtain ⟨c', hr, he⟩ := ih (writes ++ [w]) (locks ++ rows)
      refine ⟨c', .head ?_ hr, he⟩
      simp only [Cursor.advance, Cursor.view, hc]

end Alone

/-! ## Two transactions -/

section Pair

variable {s s' : σ} {p : Bool → Script σ κ ε} {sh sh' : Shared Bool σ κ ε}

/-- The other transaction `c` is interrupted by the commit of `b`, which ends at `e`. -/
structure Interrupted (s : σ) (p : Bool → Script σ κ ε) (b : Bool) (e c : Cursor σ κ ε) : Prop where
  ends : Ends s ⟨p b, [], []⟩ e
  reaches : Reaches s ⟨p !b, [], []⟩ c
  unlocked : ∀ r ∈ c.locks, r ∉ e.locks

/-- Where two transactions can be. -/
inductive PairPhase (s : σ) (p : Bool → Script σ κ ε) (sh : Shared Bool σ κ ε) : Prop where
  | both (c : Bool → Cursor σ κ ε) : sh.store = s → (∀ b, sh.parties b = .active (c b)) →
      (∀ b, Reaches s ⟨p b, [], []⟩ (c b)) → (∀ b, ∀ r ∈ (c b).locks, r ∉ (c !b).locks) →
      PairPhase s p sh
  | one {b : Bool} {e c c' : Cursor σ κ ε} : Interrupted s p b e c → sh.store = e.result s →
      (sh.parties b).Finished → sh.parties (!b) = .active c' → Reaches (e.result s) c c' →
      PairPhase s p sh
  | none {b : Bool} {e c : Cursor σ κ ε} : Interrupted s p b e c →
      sh.store = c.result (e.result s) → (∀ b, (sh.parties b).Finished) → PairPhase s p sh

theorem result_of_done {c : Cursor σ κ ε} (h : c.script = .done) : c.result s = c.view s := by
  rw [Cursor.result, h]
  rfl

theorem result_of_raise {c : Cursor σ κ ε} {e : ε} (h : c.script = .raise e) : c.result s = s := by
  rw [Cursor.result, h]
  rfl

theorem ends_of_done {c c' : Cursor σ κ ε} (hr : Reaches s c c') (h : c'.script = .done) :
    Ends s c c' := ⟨hr, by rw [Cursor.advance, h]⟩

theorem ends_of_raise {c c' : Cursor σ κ ε} {e : ε} (hr : Reaches s c c')
    (h : c'.script = .raise e) : Ends s c c' := ⟨hr, by rw [Cursor.advance, h]⟩

/-- What the locks after one statement hold was held or wanted before it. -/
theorem locks_of_advance {c c' : Cursor σ κ ε} (h : c.advance s = some c') {r : κ}
    (hr : r ∈ c'.locks) : r ∈ c.locks ∨ r ∈ c.wants := by
  obtain ⟨script, writes, locks⟩ := c
  cases script with
  | done => cases h
  | raise => cases h
  | query next =>
    cases h
    exact .inl hr
  | flush rows check w next =>
    simp only [Cursor.advance] at h
    split at h
    · cases h
      exact .inl hr
    · cases h
      exact List.mem_append.mp hr

theorem Shared.Moved.not_finished {b : Bool} (h : sh.Moved b sh') : ¬ (sh.parties b).Finished := by
  intro hf
  cases h with
  | advanced hc =>
    rw [hc] at hf
    exact hf
  | committed hc =>
    rw [hc] at hf
    exact hf
  | aborted hc =>
    rw [hc] at hf
    exact hf

theorem PairPhase.step_both {b : Bool} {c : Bool → Cursor σ κ ε} (hs : sh.store = s)
    (hc : ∀ b, sh.parties b = .active (c b)) (hr : ∀ b, Reaches s ⟨p b, [], []⟩ (c b))
    (hl : ∀ b, ∀ r ∈ (c b).locks, r ∉ (c !b).locks) (h : sh.Moved b sh') : PairPhase s p sh' := by
  have interrupted (he : Ends s (⟨p b, [], []⟩ : Cursor σ κ ε) (c b)) :
      Interrupted s p b (c b) (c !b) := by
    refine ⟨he, hr !b, fun r hr => ?_⟩
    have hn := hl (!b) r hr
    rwa [Bool.not_not] at hn
  cases h with
  | @advanced c₁ c' hcb hu hadv =>
    rw [hc b] at hcb
    cases hcb
    have hne : ∀ r ∈ c'.locks, r ∉ (c !b).locks := by
      intro r hr
      rcases locks_of_advance hadv hr with hr | hr
      · exact hl b r hr
      · have hn := hu (!b) (by simp) r hr
        rwa [hc !b] at hn
    refine .both (Function.update c b c') hs (fun i => ?_) (fun i => ?_) fun i r hri => ?_
    · by_cases hi : i = b
      · subst hi
        simp [Shared.setParty]
      · simp [Shared.setParty, hi, hc]
    · by_cases hi : i = b
      · subst hi
        rw [Function.update_self]
        exact (hr i).tail (hs ▸ hadv)
      · rw [Function.update_of_ne hi]
        exact hr i
    · by_cases hi : i = b
      · subst hi
        rw [Function.update_self] at hri
        rw [Function.update_of_ne (by simp)]
        exact hne r hri
      · obtain rfl : i = !b := Bool.eq_not.mpr hi
        rw [Function.update_of_ne (by simp)] at hri
        rw [Bool.not_not, Function.update_self]
        exact fun hm => hne r hm hri
  | committed hcb hd =>
    rw [hc b] at hcb
    cases hcb
    refine .one (interrupted (ends_of_done (hr b) hd)) ?_ ?_ ?_ .refl
    · rw [result_of_done hd, hs]
    · simp [Shared.setParty, Party.Finished]
    · simp [Shared.setParty, hc]
  | aborted hcb he =>
    rw [hc b] at hcb
    cases hcb
    refine .one (interrupted (ends_of_raise (hr b) he)) ?_ ?_ ?_ .refl
    · rw [result_of_raise he]
      exact hs
    · simp [Shared.setParty, Party.Finished]
    · simp [Shared.setParty, hc]

theorem PairPhase.step_one {b i : Bool} {e c c' : Cursor σ κ ε} (hi : Interrupted s p b e c)
    (hs : sh.store = e.result s) (hf : (sh.parties b).Finished)
    (hc : sh.parties (!b) = .active c') (hr : Reaches (e.result s) c c') (h : sh.Moved i sh') :
    PairPhase s p sh' := by
  have hib : i = !b := by
    by_contra hn
    obtain rfl : i = b := by simpa using hn
    exact h.not_finished hf
  subst hib
  have finished {q : Party σ κ ε} (hq : q.Finished) (j : Bool) :
      ((sh.setParty (!b) q).parties j).Finished := by
    by_cases hj : j = !b
    · subst hj
      simpa [Shared.setParty] using hq
    · obtain rfl : j = b := by simpa using hj
      simpa [Shared.setParty] using hf
  cases h with
  | advanced hcb _ hadv =>
    rw [hc] at hcb
    cases hcb
    refine .one hi hs ?_ ?_ (hr.tail (hs ▸ hadv))
    · simpa [Shared.setParty] using hf
    · simp [Shared.setParty]
  | committed hcb hd =>
    rw [hc] at hcb
    cases hcb
    refine .none hi ?_ (finished trivial)
    rw [← hr.result, result_of_done hd, hs]
  | aborted hcb he =>
    rw [hc] at hcb
    cases hcb
    refine .none hi ?_ (finished trivial)
    rw [← hr.result, result_of_raise he]
    exact hs

theorem PairPhase.step (hp : PairPhase s p sh) {b : Bool} (h : sh.Moved b sh') :
    PairPhase s p sh' := by
  cases hp with
  | both c hs hc hr hl => exact step_both hs hc hr hl h
  | one hi hs hf hc hr => exact step_one hi hs hf hc hr h
  | none _ _ hf => exact absurd (hf b) h.not_finished

/-- The first of two transactions to end runs as if alone; the other one runs up to some point on
the old store, and from there on the new one. -/
theorem interrupted_of_run [DecidableEq κ] {tr : List (Transition (Shared Bool σ κ ε) Bool)}
    (hr : Run Shared.step (Shared.start s p) tr sh) (hf : ∀ b, (sh.parties b).Finished) :
    ∃ b e c, Interrupted s p b e c ∧ sh.store = c.result (e.result s) := by
  have key : PairPhase s p sh := by
    apply hr.invariant
    · exact .both (fun b => ⟨p b, [], []⟩) rfl (fun _ => rfl) (fun _ => .refl)
        fun _ _ hr => absurd hr List.not_mem_nil
    · exact fun _ _ _ hp h => hp.step (Shared.moved_of_step h)
  cases key with
  | both c _ hc =>
    have hn := hf true
    rw [hc true] at hn
    exact hn.elim
  | @one b _ _ _ _ _ _ hc =>
    have hn := hf !b
    rw [hc] at hn
    exact hn.elim
  | none hi hs => exact ⟨_, _, _, hi, hs⟩

/-- While no other transaction holds a lock, one runs as far as it does alone. -/
theorem run_of_reaches [Fintype K] [DecidableEq K] [DecidableEq κ] {sh : Shared K σ κ ε} {k : K}
    {c c' : Cursor σ κ ε} (hc : sh.parties k = .active c) (hr : Reaches sh.store c c')
    (hl : ∀ j, j ≠ k → (sh.parties j).locks = []) :
    ∃ tr, Run Shared.step sh tr (sh.setParty k (.active c')) := by
  induction hr with
  | refl =>
    have he : sh.setParty k (.active c) = sh := by
      unfold Shared.setParty
      rw [← hc, Function.update_eq_self]
    rw [he]
    exact ⟨[], .init⟩
  | @tail d d' _ hadv ih =>
    obtain ⟨tr, hrun⟩ := ih
    have hu : (sh.setParty k (.active d)).Unlocked k d := by
      intro j hj r _
      simp [Shared.setParty, hj, hl j hj]
    have hstep := Shared.step_of_advance (by simp [Shared.setParty]) hu hadv
    have he : (sh.setParty k (.active d)).setParty k (.active d') = sh.setParty k (.active d') := by
      simp [Shared.setParty]
    exact ⟨_, .snoc hrun (he ▸ hstep)⟩

/-- While no other transaction holds a lock, one runs to its end. -/
theorem run_of_ends [Fintype K] [DecidableEq K] [DecidableEq κ] {sh : Shared K σ κ ε} {k : K}
    {c e : Cursor σ κ ε} (hc : sh.parties k = .active c) (he : Ends sh.store c e)
    (hl : ∀ j, j ≠ k → (sh.parties j).locks = []) :
    ∃ tr sh', Run Shared.step sh tr sh' ∧ sh'.store = c.result sh.store ∧
      (sh'.parties k).Finished ∧ (sh'.parties k).locks = [] ∧
      ∀ j, j ≠ k → sh'.parties j = sh.parties j := by
  obtain ⟨hr, hend⟩ := he
  obtain ⟨tr, hrun⟩ := run_of_reaches hc hr hl
  rw [← hr.result]
  have hk : (sh.setParty k (.active e)).parties k = .active e := by simp [Shared.setParty]
  cases hs : e.script with
  | done =>
    refine ⟨_, _, .snoc hrun (Shared.step_of_done hk hs), (result_of_done hs).symm, ?_⟩
    simp +contextual [Shared.setParty, Party.Finished, Party.locks]
  | raise x =>
    refine ⟨_, _, .snoc hrun (Shared.step_of_raise hk hs), (result_of_raise hs).symm, ?_⟩
    simp +contextual [Shared.setParty, Party.Finished, Party.locks]
  | query next =>
    rw [Cursor.advance, hs] at hend
    cases hend
  | flush rows check w next =>
    rw [Cursor.advance, hs] at hend
    simp only at hend
    split at hend <;> cases hend

/-- Every interruption before the first lock takes place in some run. -/
theorem run_of_interrupted [DecidableEq κ] {b : Bool} {c : Cursor σ κ ε}
    (hr : Reaches s ⟨p !b, [], []⟩ c) (hl : c.locks = []) :
    ∃ tr sh, Run Shared.step (Shared.start s p) tr sh ∧ (∀ i, (sh.parties i).Finished) ∧
      sh.store = c.result (Cursor.result s (⟨p b, [], []⟩ : Cursor σ κ ε)) := by
  have ho : (Shared.start s p).parties (!b) = .active ⟨p !b, [], []⟩ := rfl
  obtain ⟨tr₁, hrun₁⟩ := run_of_reaches ho hr fun _ _ => rfl
  obtain ⟨e, he⟩ := exists_ends s (⟨p b, [], []⟩ : Cursor σ κ ε)
  have hb : ((Shared.start s p).setParty (!b) (.active c)).parties b = .active ⟨p b, [], []⟩ := by
    simp [Shared.setParty, Shared.start]
  obtain ⟨tr₂, sh₂, hrun₂, hs₂, hf₂, hl₂, ho₂⟩ := run_of_ends hb he fun j hj => by
    obtain rfl : j = !b := Bool.eq_not.mpr hj
    simpa [Shared.setParty, Party.locks] using hl
  have hc : sh₂.parties (!b) = .active c := by
    rw [ho₂ (!b) (by simp)]
    simp [Shared.setParty]
  obtain ⟨e', he'⟩ := exists_ends sh₂.store c
  obtain ⟨tr₃, sh₃, hrun₃, hs₃, hf₃, -, ho₃⟩ := run_of_ends hc he' fun j hj => by
    obtain rfl : j = b := by simpa using Bool.eq_not.mpr hj
    exact hl₂
  refine ⟨_, sh₃, (hrun₁.append hrun₂).append hrun₃, fun i => ?_, by rw [hs₃, hs₂]; rfl⟩
  by_cases hi : i = !b
  · exact hi ▸ hf₃
  · rw [ho₃ i hi]
    obtain rfl : i = b := by simpa using Bool.eq_not.mpr hi
    exact hf₂

end Pair

/-! ## Any number of transactions -/

/-- Whatever else commits, as long as the store moves along `R`, the script ends with writes that
satisfy `P` over the store at that time, or raises. -/
inductive Commits (R : σ → σ → Prop) (P : σ → List (σ → σ) → Prop) :
    σ → List (σ → σ) → Script σ κ ε → Prop where
  | done {s : σ} {ws : List (σ → σ)} : (∀ s', R s s' → P s' ws) → Commits R P s ws .done
  | raise {s : σ} {ws : List (σ → σ)} {e : ε} : Commits R P s ws (.raise e)
  | query {s : σ} {ws : List (σ → σ)} {next : σ → Script σ κ ε} :
      (∀ s', R s s' → Commits R P s' ws (next (overlay ws s'))) → Commits R P s ws (.query next)
  | flush {s : σ} {ws : List (σ → σ)} {rows : List κ} {check : σ → Option ε} {w : σ → σ}
      {next : Script σ κ ε} :
      (∀ s', R s s' → Commits R P s' (ws ++ [w]) next) → Commits R P s ws (.flush rows check w next)

section Commits

variable {R : σ → σ → Prop} {P : σ → List (σ → σ) → Prop} {s s' : σ} {ws : List (σ → σ)}

theorem Commits.mono {p : Script σ κ ε} (h : Commits R P s ws p) (hR : R s s')
    (trans : ∀ a b c, R a b → R b c → R a c) : Commits R P s' ws p := by
  cases h with
  | done hp => exact .done fun t ht => hp t (trans _ _ _ hR ht)
  | raise => exact .raise
  | query hp => exact .query fun t ht => hp t (trans _ _ _ hR ht)
  | flush hp => exact .flush fun t ht => hp t (trans _ _ _ hR ht)

theorem Commits.advance {c c' : Cursor σ κ ε} (h : Commits R P s c.writes c.script) (hR : R s s)
    (hadv : c.advance s = some c') : Commits R P s c'.writes c'.script := by
  obtain ⟨script, writes, locks⟩ := c
  cases h with
  | done => cases hadv
  | raise => cases hadv
  | query hp =>
    cases hadv
    exact hp s hR
  | flush hp =>
    simp only [Cursor.advance] at hadv
    split at hadv
    · cases hadv
      exact .raise
    · cases hadv
      exact hp s hR

theorem Commits.of_done {c : Cursor σ κ ε} (h : Commits R P s c.writes c.script) (hR : R s s)
    (hd : c.script = .done) : P s c.writes := by
  rw [hd] at h
  cases h with
  | done hp => exact hp s hR

end Commits

end AiBadge.Lib
