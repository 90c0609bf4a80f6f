import Mathlib.Logic.Function.Basic
import AiBadge.Lib.Transaction

/-! # Programs that may be interrupted

A program is cut at its effects, and may stop for good between any two of them. Its
session then rolls back, but what it has done to the unprotected resource stays. A
guarantee that stands up to the other processes is checked once for each program.
-/

namespace AiBadge.Lib

/-- A program in a session, cut at its effects. A touch sees the resource it changes. -/
inductive Cut (σ φ : Type) where
  | done
  | write (w : σ → σ) (next : Cut σ φ)
  | commit (next : Cut σ φ)
  | touch (f : φ → φ) (next : φ → Cut σ φ)

namespace Cut

variable {σ φ ε : Type}

/-- The program when nothing interrupts it. -/
def run : Cut σ φ → Prog σ φ ε Unit
  | done => pure ()
  | write w next => do
    Prog.write w
    next.run
  | commit next => do
    Prog.commit
    next.run
  | touch f next => do
    let o ← Prog.readOutside id
    Prog.writeOutside f
    (next o).run

/-- The next effect. -/
def advance (t : Tx σ φ) : Cut σ φ → Option (Cut σ φ × Tx σ φ)
  | done => none
  | write w next => some (next, t.flush w)
  | commit next => some (next, t.commit)
  | touch f next => some (next t.outside, t.setOutside f)

/-- An effect leaves what the program ends in. -/
theorem run_advance {p p' : Cut σ φ} {t t' : Tx σ φ} (h : p.advance t = some (p', t')) :
    (p'.run t' : Except ε Unit × Tx σ φ) = p.run t := by
  cases p with
  | done => cases h
  | write w next =>
    cases h
    rfl
  | commit next =>
    cases h
    rfl
  | touch f next =>
    cases h
    rfl

/-- Whatever the other processes do to the resource along `R`, the program changes it along `T`, and
at each of its commits the flushed writes and the resource satisfy `G`. -/
def Sound (R T : φ → φ → Prop) (G : List (σ → σ) → φ → Prop) :
    Cut σ φ → List (σ → σ) → φ → Prop
  | done, _, _ => True
  | write w next, ws, o => ∀ o', R o o' → Sound R T G next (ws ++ [w]) o'
  | commit next, ws, o => ∀ o', R o o' → G ws o' ∧ Sound R T G next [] o'
  | touch f next, ws, o => ∀ o', R o o' → T o' (f o') ∧ Sound R T G (next o') ws (f o')

variable {R T : φ → φ → Prop} {G : List (σ → σ) → φ → Prop} {p p' : Cut σ φ}
  {ws : List (σ → σ)} {o o' : φ} {t t' : Tx σ φ}

theorem Sound.mono (h : Sound R T G p ws o) (ht : ∀ a b c, R a b → R b c → R a c) (hr : R o o') :
    Sound R T G p ws o' := by
  cases p with
  | done => trivial
  | write w next => exact fun c hc => h c (ht _ _ _ hr hc)
  | commit next => exact fun c hc => h c (ht _ _ _ hr hc)
  | touch f next => exact fun c hc => h c (ht _ _ _ hr hc)

theorem Sound.imp {G' : List (σ → σ) → φ → Prop} (hg : ∀ ws o, G ws o → G' ws o)
    (h : Sound R T G p ws o) : Sound R T G' p ws o := by
  induction p generalizing ws o with
  | done => trivial
  | write w next ih => exact fun c hc => ih (h c hc)
  | commit next ih => exact fun c hc => ⟨hg _ _ (h c hc).1, ih (h c hc).2⟩
  | touch f next ih => exact fun c hc => ⟨(h c hc).1, ih c (h c hc).2⟩

/-- What one effect does: it commits what `G` allows, touches the resource along `T`, or leaves both
as they are. -/
inductive Progress (T : φ → φ → Prop) (G : List (σ → σ) → φ → Prop) (t : Tx σ φ) :
    σ → φ → Prop where
  | kept : Progress T G t t.committed t.outside
  | committed : G t.pending t.outside → Progress T G t t.view t.outside
  | touched {o : φ} : T t.outside o → Progress T G t t.committed o

theorem Sound.advance (h : Sound R T G p t.pending t.outside) (hr : ∀ a, R a a)
    (ha : p.advance t = some (p', t')) :
    Sound R T G p' t'.pending t'.outside ∧ Progress T G t t'.committed t'.outside := by
  cases p with
  | done => cases ha
  | write w next =>
    cases ha
    exact ⟨h _ (hr _), .kept⟩
  | commit next =>
    cases ha
    obtain ⟨hg, hs⟩ := h _ (hr _)
    exact ⟨hs, .committed hg⟩
  | touch f next =>
    cases ha
    obtain ⟨ht, hs⟩ := h _ (hr _)
    exact ⟨hs, .touched ht⟩

/-- A commit is the last effect. -/
def Single : Cut σ φ → Prop
  | done => True
  | write _ next => Single next
  | commit next => next = done
  | touch _ next => ∀ o, Single (next o)

/-- The next effect of a program that commits once: it is over, or nothing is committed yet. -/
theorem Sound.advance_single (h : Sound R T G p t.pending t.outside) (hs : p.Single)
    (hr : ∀ a, R a a) (ha : p.advance t = some (p', t')) :
    (p' = done ∧ G t.pending t.outside ∧ t'.committed = t.view ∧ t'.outside = t.outside) ∨
      Sound R T G p' t'.pending t'.outside ∧ p'.Single ∧
        t' = { t with pending := t'.pending, outside := t'.outside } ∧
        (t'.outside = t.outside ∨ T t.outside t'.outside) := by
  cases p with
  | done => cases ha
  | write w next =>
    cases ha
    exact .inr ⟨h _ (hr _), hs, rfl, .inl rfl⟩
  | commit next =>
    cases ha
    exact .inl ⟨hs, (h _ (hr _)).1, rfl, rfl⟩
  | touch f next =>
    cases ha
    obtain ⟨ht, hn⟩ := h _ (hr _)
    exact .inr ⟨hn, hs _, rfl, .inr ht⟩

end Cut

/-- A store and a resource, with the programs that processes have in flight on them. -/
structure Site (K σ φ : Type) where
  store : σ
  outside : φ
  flights : K → Option (Cut σ φ × List (σ → σ))

namespace Site

variable {K σ φ : Type} [DecidableEq K] {s s' : Site K σ φ} {k : K}

/-- Process `k` begins a program in a new session. -/
def begin (s : Site K σ φ) (k : K) (p : Cut σ φ) : Site K σ φ :=
  { s with flights := Function.update s.flights k (some (p, [])) }

/-- Process `k` ends, or dies: what it has flushed is rolled back. -/
def drop (s : Site K σ φ) (k : K) : Site K σ φ :=
  { s with flights := Function.update s.flights k none }

@[simp] theorem flights_begin {p : Cut σ φ} :
    (s.begin k p).flights = Function.update s.flights k (some (p, [])) := rfl

@[simp] theorem flights_drop : (s.drop k).flights = Function.update s.flights k none := rfl

/-- The session of a process that has flushed `ws`. -/
def session (s : Site K σ φ) (ws : List (σ → σ)) : Tx σ φ :=
  { committed := s.store, pending := ws, outside := s.outside }

/-- The next effect of process `k`, or its end. -/
def advance (s : Site K σ φ) (k : K) : Option (Site K σ φ) :=
  match s.flights k with
  | none => none
  | some (p, ws) =>
    match p.advance (s.session ws) with
    | none => some (s.drop k)
    | some (p', t) => some
      { store := t.committed, outside := t.outside
        flights := Function.update s.flights k (some (p', t.pending)) }

/-- A step of process `k`: its program ends, or has one more effect. -/
theorem advance_cases (ha : s.advance k = some s') : ∃ p ws, s.flights k = some (p, ws) ∧
    (s' = s.drop k ∨ ∃ p' t, p.advance (s.session ws) = some (p', t) ∧
      s' = { store := t.committed, outside := t.outside
             flights := Function.update s.flights k (some (p', t.pending)) }) := by
  unfold advance at ha
  split at ha
  · cases ha
  next p ws hp =>
    refine ⟨p, ws, hp, ?_⟩
    split at ha
    next => exact .inl (Option.some.inj ha).symm
    next p' t hadv => exact .inr ⟨p', t, hadv, (Option.some.inj ha).symm⟩

/-- Every program in flight is sound. -/
def Sound (R T : φ → φ → Prop) (G : List (σ → σ) → φ → Prop) (s : Site K σ φ) : Prop :=
  ∀ k p ws, s.flights k = some (p, ws) → p.Sound R T G ws s.outside

variable {R T : φ → φ → Prop} {G : List (σ → σ) → φ → Prop}

theorem Sound.begin {p : Cut σ φ} (h : s.Sound R T G) (hp : p.Sound R T G [] s.outside) :
    (s.begin k p).Sound R T G := by
  intro i q ws hi
  by_cases hk : i = k
  · rw [hk, flights_begin, Function.update_self] at hi
    cases hi
    exact hp
  · rw [flights_begin, Function.update_of_ne hk] at hi
    exact h i q ws hi

theorem Sound.drop (h : s.Sound R T G) : (s.drop k).Sound R T G := by
  intro i q ws hi
  by_cases hk : i = k
  · rw [hk, flights_drop, Function.update_self] at hi
    cases hi
  · rw [flights_drop, Function.update_of_ne hk] at hi
    exact h i q ws hi

/-- A step of a sound site: one process makes progress, and the others bear it. -/
theorem Sound.advance (h : s.Sound R T G) (hr : ∀ a, R a a) (ht : ∀ a b c, R a b → R b c → R a c)
    (htr : ∀ k i, i ≠ k → ∀ q, s.flights i = some q → ∀ a b, T a b → R a b)
    (ha : s.advance k = some s') :
    s'.Sound R T G ∧ ∃ ws, Cut.Progress T G (s.session ws) s'.store s'.outside := by
  obtain ⟨p, ws, hp, rfl | ⟨p', t, hadv, rfl⟩⟩ := advance_cases ha
  · exact ⟨h.drop, ws, .kept⟩
  · obtain ⟨hs, hprog⟩ := Cut.Sound.advance (t := s.session ws) (h k p ws hp) hr hadv
    refine ⟨?_, ws, hprog⟩
    intro i q vs hi
    replace hi : Function.update s.flights k (some (p', t.pending)) i = some (q, vs) := hi
    by_cases hk : i = k
    · rw [hk, Function.update_self] at hi
      cases hi
      exact hs
    · rw [Function.update_of_ne hk] at hi
      have hold := h i q vs hi
      generalize t.committed = c, t.outside = o at hprog
      cases hprog with
      | kept => exact hold
      | committed => exact hold
      | touched hT => exact hold.mono ht (htr k i hk _ hi _ _ hT)

end Site

end AiBadge.Lib
