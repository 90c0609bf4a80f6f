import AiBadge.Lib.Run
import AiBadge.Lib.Table
import Mathlib.Algebra.GroupWithZero.Nat
import Mathlib.Algebra.Order.BigOperators.Group.List
import Mathlib.Algebra.Order.Group.Nat

/-! # Charging

How often something happens in a run is bounded by charging every occurrence to an item, and the
occurrences of an item by a load that falls with each of them. The rows of a queue bound so how
often a younger row waits for them.
-/

namespace AiBadge.Lib

section Sum

variable {α β : Type*} {p : α → Bool} {q : β → α → Bool} {l : List α} {items : List β}

/-- Elements that are each charged to an item are at most as many as the items are charged. -/
theorem countP_le_sum (h : ∀ a ∈ l, p a = true → ∃ b ∈ items, q b a = true) :
    l.countP p ≤ (items.map fun b => l.countP (q b)).sum := by
  induction l with
  | nil => simp
  | cons a l ih =>
    have hl := ih fun a ha => h a (List.mem_cons_of_mem _ ha)
    have hsum : (items.map fun b => (a :: l).countP (q b)).sum =
        (items.map fun b => l.countP (q b)).sum +
          (items.map fun b => if q b a = true then 1 else 0).sum := by
      rw [← List.sum_map_add]
      simp only [List.countP_cons]
    rw [hsum, List.countP_cons]
    by_cases hp : p a = true
    · obtain ⟨b, hb, hq⟩ := h a List.mem_cons_self hp
      have hone := List.single_le_sum (l := items.map fun b => if q b a = true then 1 else 0)
        (fun _ _ => Nat.zero_le _) 1 (List.mem_map.mpr ⟨b, hb, if_pos hq⟩)
      rw [if_pos hp]
      omega
    · rw [if_neg hp]
      omega

/-- The bound of each item in place of its count. -/
theorem countP_le_sum_of_le {bound : β → Nat}
    (h : ∀ a ∈ l, p a = true → ∃ b ∈ items, q b a = true)
    (hb : ∀ b ∈ items, l.countP (q b) ≤ bound b) : l.countP p ≤ (items.map bound).sum :=
  (countP_le_sum h).trans (List.sum_le_sum hb)

end Sum

namespace Run

variable {S A : Type} {step : S → A → Option S} {s₀ s : S} {tr : List (Transition S A)}

/-- If a `p` step lowers the load `f`, and only a `q` step raises it, then the steps of the first kind
are no more than the load and the steps of the second kind allow. -/
theorem load_le {f : S → Nat} {p q : Transition S A → Bool} (hr : Run step s₀ tr s)
    (h : ∀ {tr s a s'}, Run step s₀ tr s → step s a = some s' →
      f s' + (if p ⟨s, a, s'⟩ = true then 1 else 0) ≤
        f s + if q ⟨s, a, s'⟩ = true then 1 else 0) :
    f s + tr.countP p ≤ f s₀ + tr.countP q := by
  induction hr with
  | init => simp
  | snoc hr hstep ih =>
    have hs := h hr hstep
    rw [List.countP_append, List.countP_append, List.countP_singleton, List.countP_singleton]
    omega

/-- What a step establishes about itself, and every later step keeps, holds in the end. -/
theorem forall_of_established {P : Transition S A → S → Prop} (hr : Run step s₀ tr s)
    (hnew : ∀ {tr s a s'}, Run step s₀ tr s → step s a = some s' → P ⟨s, a, s'⟩ s')
    (hkept : ∀ {tr s a s' t}, Run step s₀ tr s → step s a = some s' → P t s → P t s') :
    ∀ t ∈ tr, P t s := by
  induction hr with
  | init => exact nofun
  | snoc hr hstep ih =>
    intro t ht
    rcases List.mem_append.mp ht with ht | ht
    · exact hkept hr hstep (ih t ht)
    · obtain rfl := List.mem_singleton.mp ht
      exact hnew hr hstep

end Run

section Queue

variable {S A ρ κ τ : Type} [DecidableEq κ] [LE τ] [DecidableLE τ] {key : ρ → κ} {c : ρ → τ}

/-- A row with the first key is in the table, no younger than one with the second. -/
def Table.Elder (c : ρ → τ) (t : Table key) (k k' : κ) : Prop :=
  ∃ r ∈ t, ∃ r' ∈ t, key r = k ∧ key r' = k' ∧ c r ≤ c r'

/-- If every step keeps the rows and their age, and takes no younger row before the row `j` while
`j` is ready, then `j` is passed over as often as the rows that are no younger have a load. -/
theorem Run.passed_le {step : S → A → Option S} {s₀ s : S} {tr : List (Transition S A)}
    {T : S → Table key} {p : S → A → Bool} {e : A → Option κ} {f : κ → S → Nat}
    {g : κ → Transition S A → Bool} {j : ρ} (hr : Run step s₀ tr s) (hj : j ∈ T s)
    (hkept : ∀ {tr s a s'}, Run step s₀ tr s → step s a = some s' →
      ∀ r ∈ T s, ∃ r' ∈ T s', key r' = key r ∧ c r' = c r)
    (hp : ∀ {tr s a s'}, Run step s₀ tr s → step s a = some s' → p s a = true →
      ∃ k, e a = some k ∧ k ≠ key j ∧ (T s).Elder c k (key j))
    (hload : ∀ {tr s a s'} k, Run step s₀ tr s → step s a = some s' →
      f k s' + (if e a = some k then 1 else 0) ≤
        f k s + if g k ⟨s, a, s'⟩ = true then 1 else 0) :
    tr.countP (fun t => p t.pre t.act) ≤
      (((T s).select fun i => key i ≠ key j && c i ≤ c j).map fun i =>
        f (key i) s₀ + tr.countP (g (key i))).sum := by
  have elder {tr : List (Transition S A)} {s s' : S} {a : A} {k : κ} (hr : Run step s₀ tr s)
      (h : step s a = some s') (he : (T s).Elder c k (key j)) : (T s').Elder c k (key j) := by
    obtain ⟨r, hr₁, r', hr₂, hk, hk', hle⟩ := he
    obtain ⟨q, hq, hqk, hqc⟩ := hkept hr h r hr₁
    obtain ⟨q', hq', hqk', hqc'⟩ := hkept hr h r' hr₂
    refine ⟨q, hq, q', hq', hqk.trans hk, hqk'.trans hk', ?_⟩
    rwa [hqc, hqc']
  have hpassed : ∀ t ∈ tr, p t.pre t.act = true →
      ∃ k, e t.act = some k ∧ k ≠ key j ∧ (T s).Elder c k (key j) := by
    apply hr.forall_of_established (P := fun t s => p t.pre t.act = true →
      ∃ k, e t.act = some k ∧ k ≠ key j ∧ (T s).Elder c k (key j))
    · intro tr s a s' hr h hpass
      obtain ⟨k, hk, hne, he⟩ := hp hr h hpass
      exact ⟨k, hk, hne, elder hr h he⟩
    · intro tr s a s' t hr h ht hpass
      obtain ⟨k, hk, hne, he⟩ := ht hpass
      exact ⟨k, hk, hne, elder hr h he⟩
  apply countP_le_sum_of_le (q := fun i t => e t.act = some (key i))
  · intro t ht hpass
    obtain ⟨k, hk, hne, i, hi, r, hr, rfl, hrk, hle⟩ := hpassed t ht hpass
    obtain rfl := Table.eq_of_key_eq hr hj hrk
    exact ⟨i, Table.mem_select.mpr ⟨hi, by simp [hne, hle]⟩, decide_eq_true hk⟩
  · intro i _
    have hl := hr.load_le (f := f (key i)) (p := fun t => e t.act = some (key i))
      (q := g (key i)) fun hr h => by simpa using hload (key i) hr h
    exact (Nat.le_add_left _ _).trans hl

end Queue

end AiBadge.Lib
