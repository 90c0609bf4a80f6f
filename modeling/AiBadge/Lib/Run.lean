import Mathlib.Data.List.Basic

/-! # Finite runs

Runs of a deterministic step function, with the full history of transitions.
The rules lift what one step preserves to every state of a run, also under a
condition on the steps, and turn a local equivalence into one about runs.
-/

namespace AiBadge.Lib

variable {S A : Type}

structure Transition (S A : Type) where
  pre : S
  act : A
  post : S

/-- `Run step s₀ tr s`: the steps `tr`, in order, lead from `s₀` to `s`. -/
inductive Run (step : S → A → Option S) (s₀ : S) : List (Transition S A) → S → Prop where
  | init : Run step s₀ [] s₀
  | snoc {tr : List (Transition S A)} {s s' : S} {a : A} :
      Run step s₀ tr s → step s a = some s' → Run step s₀ (tr ++ [⟨s, a, s'⟩]) s'

/-- Every step of a run meets a condition on its action and the state before it. -/
def Meets (C : S → A → Prop) (tr : List (Transition S A)) : Prop := ∀ t ∈ tr, C t.pre t.act

@[simp] theorem meets_nil {C : S → A → Prop} : Meets C [] := by simp [Meets]

@[simp] theorem meets_snoc {C : S → A → Prop} {tr : List (Transition S A)}
    {t : Transition S A} : Meets C (tr ++ [t]) ↔ Meets C tr ∧ C t.pre t.act := by
  simp only [Meets, List.mem_append, List.mem_singleton]
  constructor
  · intro h
    exact ⟨fun u hu => h u (.inl hu), h t (.inr rfl)⟩
  · rintro ⟨h, ht⟩ u (hu | rfl)
    · exact h u hu
    · exact ht

/-- `P` holds of every transition of a run, with the transitions before it. -/
def Throughout (P : List (Transition S A) → Transition S A → Prop) (tr : List (Transition S A)) :
    Prop :=
  ∀ i, ∀ hi : i < tr.length, P (tr.take i) tr[i]

instance (P : List (Transition S A) → Transition S A → Prop) [∀ tr t, Decidable (P tr t)]
    (tr : List (Transition S A)) : Decidable (Throughout P tr) :=
  inferInstanceAs (Decidable (∀ i, ∀ hi : i < tr.length, P (tr.take i) tr[i]))

@[simp] theorem throughout_nil {P : List (Transition S A) → Transition S A → Prop} :
    Throughout P [] := fun _ hi => absurd hi (Nat.not_lt_zero _)

@[simp] theorem throughout_snoc {P : List (Transition S A) → Transition S A → Prop}
    {tr : List (Transition S A)} {t : Transition S A} :
    Throughout P (tr ++ [t]) ↔ Throughout P tr ∧ P tr t := by
  constructor
  · intro h
    constructor
    · intro i hi
      have hp := h i (by rw [List.length_append]; omega)
      rwa [List.take_append_of_le_length (Nat.le_of_lt hi), List.getElem_append_left hi] at hp
    · simpa using h tr.length (by simp)
  · rintro ⟨h, ht⟩ i hi
    rw [List.length_append, List.length_singleton] at hi
    rcases Nat.lt_or_eq_of_le (Nat.le_of_lt_succ hi) with hlt | rfl
    · rw [List.take_append_of_le_length (Nat.le_of_lt hlt), List.getElem_append_left hlt]
      exact h i hlt
    · simpa using ht

theorem throughout_const {P : Transition S A → Prop} {tr : List (Transition S A)} :
    Throughout (fun _ t => P t) tr ↔ ∀ t ∈ tr, P t := List.forall_mem_iff_forall_getElem.symm

/-- `P` holds of some transition of a run, with the transitions before it. -/
def Sometime (P : List (Transition S A) → Transition S A → Prop) (tr : List (Transition S A)) :
    Prop :=
  ∃ i, ∃ hi : i < tr.length, P (tr.take i) tr[i]

theorem sometime_iff_not_throughout {P : List (Transition S A) → Transition S A → Prop}
    {tr : List (Transition S A)} : Sometime P tr ↔ ¬ Throughout (fun tr t => ¬ P tr t) tr := by
  simp only [Sometime, Throughout, not_forall, not_not]

@[simp] theorem not_sometime_nil {P : List (Transition S A) → Transition S A → Prop} :
    ¬ Sometime P [] := by
  rintro ⟨i, hi, -⟩
  exact Nat.not_lt_zero _ hi

@[simp] theorem sometime_snoc {P : List (Transition S A) → Transition S A → Prop}
    {tr : List (Transition S A)} {t : Transition S A} :
    Sometime P (tr ++ [t]) ↔ Sometime P tr ∨ P tr t := by
  rw [sometime_iff_not_throughout, sometime_iff_not_throughout, throughout_snoc, not_and_or,
    not_not]

/-- The number of steps with the action `a`. -/
def turns [DecidableEq A] (a : A) (tr : List (Transition S A)) : Nat := (tr.map (·.act)).count a

@[simp] theorem turns_snoc [DecidableEq A] {a : A} {tr : List (Transition S A)}
    {t : Transition S A} : turns a (tr ++ [t]) = turns a tr + if t.act = a then 1 else 0 := by
  rw [turns, List.map_append, List.count_append, turns, List.map_singleton, List.count_singleton]
  simp only [beq_iff_eq]

/-- Some transition satisfies `P`, and none after it satisfies `Q`. -/
def Since (P Q : Transition S A → Prop) (tr : List (Transition S A)) : Prop :=
  ∃ tr₁ t tr₂, tr = tr₁ ++ t :: tr₂ ∧ P t ∧ ∀ u ∈ tr₂, ¬ Q u

@[simp] theorem not_since_nil {P Q : Transition S A → Prop} : ¬ Since P Q [] := by
  rintro ⟨tr₁, t, tr₂, h, -⟩
  exact List.append_ne_nil_of_right_ne_nil tr₁ (List.cons_ne_nil t tr₂) h.symm

@[simp] theorem since_snoc {P Q : Transition S A → Prop} {tr : List (Transition S A)}
    {t : Transition S A} : Since P Q (tr ++ [t]) ↔ P t ∨ Since P Q tr ∧ ¬ Q t := by
  constructor
  · rintro ⟨tr₁, u, tr₂, h, hu, hq⟩
    rcases List.eq_nil_or_concat tr₂ with rfl | ⟨tr₃, v, rfl⟩
    · obtain ⟨-, rfl⟩ := List.append_singleton_inj.mp h
      exact .inl hu
    · rw [List.concat_eq_append] at hq h
      rw [← List.cons_append, ← List.append_assoc] at h
      obtain ⟨rfl, rfl⟩ := List.append_singleton_inj.mp h
      refine .inr ⟨⟨tr₁, u, tr₃, rfl, hu, fun v hv => hq v ?_⟩, hq t ?_⟩
      · exact List.mem_append_left _ hv
      · exact List.mem_append_right _ (List.mem_singleton.mpr rfl)
  · rintro (ht | ⟨⟨tr₁, u, tr₂, rfl, hu, hq⟩, ht⟩)
    · exact ⟨tr, t, [], rfl, ht, fun _ hv => (List.not_mem_nil hv).elim⟩
    · refine ⟨tr₁, u, tr₂ ++ [t], by simp, hu, fun v hv => ?_⟩
      rcases List.mem_append.mp hv with hv | hv
      · exact hq v hv
      · rwa [List.mem_singleton.mp hv]

namespace Run

variable {step : S → A → Option S} {s₀ s : S} {tr : List (Transition S A)}

/-- What holds at the start and is kept by every step holds after every run. -/
theorem invariant {I : S → Prop} (r : Run step s₀ tr s) (h₀ : I s₀)
    (hs : ∀ s a s', I s → step s a = some s' → I s') : I s := by
  induction r with
  | init => exact h₀
  | snoc _ hstep ih => exact hs _ _ _ ih hstep

/-- The invariant rule with the history so far and a condition on the steps. -/
theorem invariant_of_meets {I : List (Transition S A) → S → Prop} {C : S → A → Prop}
    (r : Run step s₀ tr s) (hc : Meets C tr) (h₀ : I [] s₀)
    (hs : ∀ tr s a s', Run step s₀ tr s → I tr s → C s a → step s a = some s' →
      I (tr ++ [⟨s, a, s'⟩]) s') : I tr s := by
  induction r with
  | init => exact h₀
  | snoc hr hstep ih =>
    rw [meets_snoc] at hc
    exact hs _ _ _ _ hr (ih hc.1) hc.2 hstep

/-- Every transition of a run is a step from a state an earlier part of the run reaches. -/
theorem of_mem (r : Run step s₀ tr s) {t : Transition S A} (ht : t ∈ tr) :
    ∃ tr₁ tr₂, tr = tr₁ ++ t :: tr₂ ∧ Run step s₀ tr₁ t.pre ∧ step t.pre t.act = some t.post := by
  induction r with
  | init => cases ht
  | snoc hr hstep ih =>
    rcases List.mem_append.mp ht with ht | ht
    · obtain ⟨tr₁, tr₂, rfl, h⟩ := ih ht
      exact ⟨tr₁, tr₂ ++ [_], List.append_assoc .., h⟩
    · obtain rfl := List.mem_singleton.mp ht
      exact ⟨_, [], rfl, hr, hstep⟩

/-- What every step keeps, and each step from it satisfies, holds of every transition. -/
theorem forall_of_kept {I : S → Prop} {P : Transition S A → Prop} (r : Run step s₀ tr s)
    (h₀ : I s₀) (hs : ∀ s a s', I s → step s a = some s' → I s' ∧ P ⟨s, a, s'⟩) :
    I s ∧ ∀ t ∈ tr, P t := by
  constructor
  · exact r.invariant h₀ fun s a s' hi h => (hs s a s' hi h).1
  · intro t ht
    obtain ⟨tr₁, tr₂, -, r₁, hstep⟩ := r.of_mem ht
    have hi : I t.pre := r₁.invariant h₀ fun s a s' hi h => (hs s a s' hi h).1
    exact (hs _ _ _ hi hstep).2

/-- A transitive relation between the two states of every step relates any two states of a run. -/
theorem pairwise_pre {R : S → S → Prop} (r : Run step s₀ tr s)
    (htrans : ∀ s t u, R s t → R t u → R s u)
    (hs : ∀ tr s a s', Run step s₀ tr s → step s a = some s' → R s s') :
    tr.Pairwise (fun t u => R t.pre u.pre) ∧ ∀ t ∈ tr, R t.pre s := by
  induction r with
  | init => exact ⟨List.Pairwise.nil, nofun⟩
  | @snoc tr s s' a hr hstep ih =>
    obtain ⟨hpair, hlast⟩ := ih
    have hR := hs tr s a s' hr hstep
    constructor
    · apply List.pairwise_append.mpr ⟨hpair, List.pairwise_singleton _ _, ?_⟩
      intro t ht u hu
      obtain rfl := List.mem_singleton.mp hu
      exact hlast t ht
    · intro t ht
      rcases List.mem_append.mp ht with ht | ht
      · exact htrans _ _ _ (hlast t ht) hR
      · obtain rfl := List.mem_singleton.mp ht
        exact hR

theorem append {s' : S} {tr' : List (Transition S A)} (r : Run step s₀ tr s)
    (r' : Run step s tr' s') : Run step s₀ (tr ++ tr') s' := by
  induction r' with
  | init => rwa [List.append_nil]
  | snoc _ hstep ih =>
    rw [← List.append_assoc]
    exact .snoc ih hstep

/-- If each step from a good state satisfies `P` exactly when it meets `C`, and leads to a good
state again when it does, then `P` holds throughout a run exactly when all its steps meet `C`. Here
the steps of the run also meet an assumption `B`, and what is good depends on the history. -/
theorem throughout_iff_meets_of {P : List (Transition S A) → Transition S A → Prop}
    {G : List (Transition S A) → S → Prop} {B C : S → A → Prop} (r : Run step s₀ tr s)
    (hb : Meets B tr) (h₀ : G [] s₀) (hs : ∀ tr s a s', Run step s₀ tr s → G tr s → B s a →
      step s a = some s' → (P tr ⟨s, a, s'⟩ ↔ C s a) ∧
        (P tr ⟨s, a, s'⟩ → G (tr ++ [⟨s, a, s'⟩]) s')) :
    Throughout P tr ↔ Meets C tr := by
  have key : (Throughout P tr ↔ Meets C tr) ∧ (Throughout P tr → G tr s) := by
    induction r with
    | init => simp [h₀]
    | @snoc tr s s' a hr hstep ih =>
      rw [meets_snoc] at hb
      obtain ⟨ih, hG⟩ := ih hb.1
      rw [throughout_snoc, meets_snoc, ← ih]
      constructor
      · exact and_congr_right fun h => (hs tr s a s' hr (hG h) hb.2 hstep).1
      · rintro ⟨h, hP⟩
        exact (hs tr s a s' hr (hG h) hb.2 hstep).2 hP
  exact key.1

theorem forall_post_iff_meets_of {P G : S → Prop} {B C : S → A → Prop} (r : Run step s₀ tr s)
    (hb : Meets B tr) (h₀ : G s₀) (hs : ∀ tr s a s', Run step s₀ tr s → G s → B s a →
      step s a = some s' → (P s' ↔ C s a) ∧ (P s' → G s')) :
    (∀ t ∈ tr, P t.post) ↔ Meets C tr := by
  rw [← throughout_const]
  exact r.throughout_iff_meets_of (G := fun _ => G) hb h₀ hs

theorem forall_post_iff_meets {P G : S → Prop} {C : S → A → Prop} (r : Run step s₀ tr s)
    (h₀ : G s₀) (hs : ∀ tr s a s', Run step s₀ tr s → G s → step s a = some s' →
      (P s' ↔ C s a) ∧ (P s' → G s')) :
    (∀ t ∈ tr, P t.post) ↔ Meets C tr :=
  r.forall_post_iff_meets_of (B := fun _ _ => True) (fun _ _ => trivial) h₀
    fun tr s a s' hr hg _ h => hs tr s a s' hr hg h

/-- What holds at the start and after every step holds before every step. -/
theorem forall_pre_of_post {P : S → Prop} (r : Run step s₀ tr s) (h₀ : P s₀)
    (h : ∀ t ∈ tr, P t.post) : ∀ t ∈ tr, P t.pre := by
  have key : P s ∧ ∀ t ∈ tr, P t.pre := by
    induction r with
    | init => exact ⟨h₀, fun _ ht => (List.not_mem_nil ht).elim⟩
    | snoc _ _ ih =>
      obtain ⟨hs, ih⟩ := ih fun t ht => h t (List.mem_append_left _ ht)
      refine ⟨h _ (List.mem_append_right _ (List.mem_singleton.mpr rfl)), fun t ht => ?_⟩
      rcases List.mem_append.mp ht with ht | ht
      · exact ih t ht
      · obtain rfl := List.mem_singleton.mp ht
        exact hs
  exact key.2

/-- Two properties that agree at each step, as long as the first has held so far, agree on runs. -/
theorem throughout_iff {P C : List (Transition S A) → Transition S A → Prop} (r : Run step s₀ tr s)
    (hs : ∀ tr s a s', Run step s₀ tr s → Throughout P tr → step s a = some s' →
      (P tr ⟨s, a, s'⟩ ↔ C tr ⟨s, a, s'⟩)) : Throughout P tr ↔ Throughout C tr := by
  induction r with
  | init => simp
  | snoc hr hstep ih =>
    rw [throughout_snoc, throughout_snoc, ← ih]
    exact and_congr_right fun h => hs _ _ _ _ hr h hstep

end Run

/-- Run the actions in order and record the transitions. -/
def execute (step : S → A → Option S) : S → List A → Option (List (Transition S A) × S)
  | s, [] => some ([], s)
  | s, a :: as =>
    match step s a with
    | none => none
    | some s' => (execute step s' as).map fun p => (⟨s, a, s'⟩ :: p.1, p.2)

theorem run_of_execute {step : S → A → Option S} {s s' : S} {as : List A}
    {tr : List (Transition S A)} (h : execute step s as = some (tr, s')) : Run step s tr s' := by
  induction as generalizing s tr with
  | nil =>
    obtain ⟨rfl, rfl⟩ : [] = tr ∧ s = s' := by simpa [execute] using h
    exact .init
  | cons a as ih =>
    unfold execute at h
    split at h
    · cases h
    next s₁ hstep =>
      obtain ⟨⟨tr₁, s₂⟩, h₁, he⟩ := Option.map_eq_some_iff.mp h
      obtain ⟨rfl, rfl⟩ := Prod.mk.inj he
      exact (Run.snoc .init hstep : Run step s ([] ++ [_]) s₁).append (ih h₁)

/-- A replay takes no other actions than those it is given. -/
theorem act_mem_of_execute {step : S → A → Option S} {s s' : S} {as : List A}
    {tr : List (Transition S A)} (h : execute step s as = some (tr, s')) :
    ∀ t ∈ tr, t.act ∈ as := by
  induction as generalizing s tr with
  | nil =>
    obtain ⟨rfl, rfl⟩ : [] = tr ∧ s = s' := by simpa [execute] using h
    exact nofun
  | cons a as ih =>
    unfold execute at h
    split at h
    · cases h
    next s₁ hstep =>
      obtain ⟨⟨tr₁, s₂⟩, h₁, he⟩ := Option.map_eq_some_iff.mp h
      obtain ⟨rfl, rfl⟩ := Prod.mk.inj he
      intro t ht
      rcases List.mem_cons.mp ht with rfl | ht
      · exact List.mem_cons_self
      · exact List.mem_cons_of_mem a (ih h₁ t ht)

/-- A replay that ends as `P` says exhibits a run that does. -/
theorem exists_run {step : S → A → Option S} {s : S} {as : List A}
    (P : List (Transition S A) → S → Bool) (h : (execute step s as).any (fun p => P p.1 p.2) = true) :
    ∃ tr s', Run step s tr s' ∧ P tr s' = true := by
  cases he : execute step s as with
  | none =>
    rw [he] at h
    cases h
  | some p =>
    rw [he] at h
    exact ⟨p.1, p.2, run_of_execute he, h⟩

end AiBadge.Lib
