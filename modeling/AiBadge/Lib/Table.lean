import Mathlib.Data.List.Nodup

/-! # Keyed tables

A table is a list of rows with pairwise distinct primary keys, in the order of
their insertion. Updates keep the keys, so every operation stays in the type.
-/

namespace AiBadge.Lib

universe u v

/-- Rows in insertion order, no two with the same key. -/
structure Table {κ : Type u} {ρ : Type v} (key : ρ → κ) where
  rows : List ρ
  nodup : (rows.map key).Nodup

namespace Table

variable {κ : Type u} {ρ : Type v} {key : ρ → κ}

instance : Membership ρ (Table key) := ⟨fun t r => r ∈ t.rows⟩

theorem mem_def {t : Table key} {r : ρ} : r ∈ t ↔ r ∈ t.rows := Iff.rfl

instance (t : Table key) (P : ρ → Prop) [DecidablePred P] : Decidable (∀ r ∈ t, P r) :=
  inferInstanceAs (Decidable (∀ r ∈ t.rows, P r))

instance (t : Table key) (P : ρ → Prop) [DecidablePred P] : Decidable (∃ r ∈ t, P r) :=
  inferInstanceAs (Decidable (∃ r ∈ t.rows, P r))

def empty : Table key := ⟨[], List.nodup_nil⟩

instance : EmptyCollection (Table key) := ⟨empty⟩

@[simp] theorem not_mem_empty (r : ρ) : r ∉ (∅ : Table key) := List.not_mem_nil

/-- The rows a query selects, in insertion order. -/
def select (t : Table key) (p : ρ → Bool) : List ρ := t.rows.filter p

/-- The first row a query selects. -/
def find? (t : Table key) (p : ρ → Bool) : Option ρ := t.rows.find? p

def any (t : Table key) (p : ρ → Bool) : Bool := t.rows.any p

/-- Add a row at the end; a row whose key is taken changes nothing. -/
def insert [DecidableEq κ] (t : Table key) (r : ρ) : Table key :=
  if h : key r ∈ t.rows.map key then t
  else ⟨t.rows ++ [r], by
    rw [List.map_append, List.nodup_append]
    refine ⟨t.nodup, List.nodup_singleton _, ?_⟩
    rintro a ha b hb rfl
    exact h (List.mem_singleton.mp hb ▸ ha)⟩

/-- Rewrite the selected rows, keeping their keys. -/
def update (t : Table key) (p : ρ → Bool) (f : ρ → ρ)
    (hf : ∀ r, key (f r) = key r := by intro r; simp) : Table key :=
  ⟨t.rows.map fun r => if p r then f r else r, by
    have h : key ∘ (fun r => if p r then f r else r) = key := by
      funext r; simp only [Function.comp]; split <;> simp [hf]
    rw [List.map_map, h]; exact t.nodup⟩

def delete (t : Table key) (p : ρ → Bool) : Table key :=
  ⟨t.rows.filter fun r => !p r, (List.filter_sublist.map key).nodup t.nodup⟩

theorem eq_of_key_eq {t : Table key} {r s : ρ} (hr : r ∈ t) (hs : s ∈ t)
    (h : key r = key s) : r = s :=
  List.inj_on_of_nodup_map t.nodup hr hs h

@[simp] theorem mem_select {t : Table key} {p : ρ → Bool} {r : ρ} :
    r ∈ t.select p ↔ r ∈ t ∧ p r = true := List.mem_filter

theorem find?_eq_some {t : Table key} {p : ρ → Bool} {r : ρ} (h : t.find? p = some r) :
    r ∈ t ∧ p r = true :=
  ⟨List.mem_of_find?_eq_some h, List.find?_some h⟩

theorem find?_eq_none {t : Table key} {p : ρ → Bool} :
    t.find? p = none ↔ ∀ r ∈ t, ¬ p r = true := List.find?_eq_none

/-- A query that only rows with the key of `r` satisfy finds `r`. -/
theorem find?_of_mem {t : Table key} {p : ρ → Bool} {r : ρ} (hr : r ∈ t) (hp : p r = true)
    (hk : ∀ s, p s = true → key s = key r) : t.find? p = some r := by
  cases h : t.find? p with
  | none => exact absurd hp (find?_eq_none.mp h r hr)
  | some s =>
    obtain ⟨hs, hps⟩ := find?_eq_some h
    rw [eq_of_key_eq hs hr (hk s hps)]

@[simp] theorem any_eq_true {t : Table key} {p : ρ → Bool} :
    t.any p = true ↔ ∃ r ∈ t, p r = true := List.any_eq_true

@[simp] theorem any_eq_false {t : Table key} {p : ρ → Bool} :
    t.any p = false ↔ ∀ r ∈ t, ¬ p r = true := List.any_eq_false

/-- A query that one row alone satisfies. -/
theorem select_eq_singleton {t : Table key} {p : ρ → Bool} {r : ρ} (hr : r ∈ t) (hp : p r = true)
    (hu : ∀ s ∈ t, p s = true → s = r) : t.select p = [r] := by
  have hn : (t.select p).Nodup := List.filter_sublist.nodup (List.Nodup.of_map key t.nodup)
  have hm : r ∈ t.select p := mem_select.mpr ⟨hr, hp⟩
  have hs : ∀ s ∈ t.select p, s = r := fun s hs => hu s (mem_select.mp hs).1 (mem_select.mp hs).2
  generalize t.select p = l at hn hm hs
  rcases l with _ | ⟨a, _ | ⟨b, l⟩⟩
  · cases hm
  · rw [hs a List.mem_cons_self]
  · obtain rfl := hs a List.mem_cons_self
    obtain rfl := hs b (List.mem_cons_of_mem _ List.mem_cons_self)
    exact absurd List.mem_cons_self (List.nodup_cons.mp hn).1

theorem mem_insert_of_not_mem [DecidableEq κ] {t : Table key} {r s : ρ}
    (h : ∀ x ∈ t, key x ≠ key r) : s ∈ t.insert r ↔ s ∈ t ∨ s = r := by
  have hk : key r ∉ t.rows.map key := by
    rw [List.mem_map]; rintro ⟨x, hx, he⟩; exact h x hx he
  simp [mem_def, insert, hk]

theorem mem_of_mem_insert [DecidableEq κ] {t : Table key} {r s : ρ} (h : s ∈ t.insert r) :
    s ∈ t ∨ s = r := by
  unfold insert at h
  split at h
  · exact .inl h
  · simpa [mem_def] using h

theorem mem_insert_of_mem [DecidableEq κ] {t : Table key} {r s : ρ} (h : s ∈ t) :
    s ∈ t.insert r := by
  unfold insert
  split
  · exact h
  · exact List.mem_append_left _ h

@[simp] theorem mem_update {t : Table key} {p : ρ → Bool} {f : ρ → ρ}
    {hf : ∀ r, key (f r) = key r} {s : ρ} :
    s ∈ t.update p f hf ↔ ∃ r ∈ t, s = if p r then f r else r := by
  simp only [mem_def, update, List.mem_map, eq_comm]

theorem update_update {t : Table key} {p : ρ → Bool} {f g : ρ → ρ}
    {hf : ∀ r, key (f r) = key r} {hg : ∀ r, key (g r) = key r} (hp : ∀ r, p (f r) = p r) :
    (t.update p f hf).update p g hg =
      t.update p (fun r => g (f r)) (fun r => (hg _).trans (hf r)) := by
  simp only [update, mk.injEq, List.map_map]
  refine List.map_congr_left fun r _ => ?_
  by_cases h : p r <;> simp [h, hp]

theorem mem_update_of_mem {t : Table key} {p : ρ → Bool} {f : ρ → ρ}
    (hf : ∀ r, key (f r) = key r) {r : ρ} (h : r ∈ t) :
    (if p r then f r else r) ∈ t.update p f hf :=
  mem_update.mpr ⟨r, h, rfl⟩

/-- The row that an update by key rewrites. -/
theorem eq_of_mem_update [DecidableEq κ] {t : Table key} {f : ρ → ρ} {r s : ρ}
    {hf : ∀ r, key (f r) = key r} (hr : r ∈ t) (hs : s ∈ t.update (fun x => key x = key r) f hf)
    (hk : key s = key r) : s = f r := by
  obtain ⟨x, hx, rfl⟩ := mem_update.mp hs
  obtain rfl : x = r := by
    refine eq_of_key_eq hx hr (Eq.trans ?_ hk)
    split
    · exact (hf x).symm
    · rfl
  exact if_pos (by simp)

theorem select_update {t : Table key} {p q : ρ → Bool} {f : ρ → ρ}
    {hf : ∀ r, key (f r) = key r} (hq : ∀ r, q (f r) = q r) :
    (t.update p f hf).select q = (t.select q).map fun r => if p r then f r else r := by
  rw [select, update, List.filter_map, select]
  refine congrArg _ (List.filter_congr fun r _ => ?_)
  by_cases h : p r <;> simp [h, hq]

theorem find?_update {t : Table key} {p q : ρ → Bool} {f : ρ → ρ}
    {hf : ∀ r, key (f r) = key r} (hq : ∀ r, q (f r) = q r) :
    (t.update p f hf).find? q = (t.find? q).map fun r => if p r then f r else r := by
  rw [find?, update, List.find?_map, find?]
  have he : (q ∘ fun r => if p r then f r else r) = q := by
    funext r
    by_cases h : p r <;> simp [h, hq]
  rw [he]

/-- An update of rows that a query selects neither before nor after. -/
theorem select_update_of_not {t : Table key} {p q : ρ → Bool} {f : ρ → ρ}
    {hf : ∀ r, key (f r) = key r} (h : ∀ r ∈ t, p r = true → q r = false ∧ q (f r) = false) :
    (t.update p f hf).select q = t.select q := by
  have hq : (t.rows.filter fun r => q (if p r then f r else r)) = t.rows.filter q := by
    refine List.filter_congr fun r hr => ?_
    cases hp : p r with
    | false => simp
    | true => simp [h r hr hp]
  have hm : (t.rows.filter q).map (fun r => if p r then f r else r) = t.rows.filter q := by
    refine (List.map_congr_left fun r hr => ?_).trans (List.map_id _)
    obtain ⟨hr, hqr⟩ := List.mem_filter.mp hr
    refine if_neg fun hp => ?_
    simp [h r hr hp] at hqr
  rw [select, update, List.filter_map]
  exact (congrArg _ hq).trans hm

/-- An update leaves what a query selects as it was just if it changes none of these rows. -/
theorem select_update_eq_iff {t : Table key} {p q : ρ → Bool} {f : ρ → ρ}
    {hf : ∀ r, key (f r) = key r} (hq : ∀ r, q (f r) = q r) :
    (t.update p f hf).select q = t.select q ↔
      ∀ r ∈ t, q r = true → p r = true → f r = r := by
  rw [select_update hq]
  conv_lhs => rhs; rw [← List.map_id (t.select q)]
  rw [List.map_inj_left]
  simp only [mem_select, and_imp, id, ite_eq_right_iff]

theorem update_eq_self {t : Table key} {p : ρ → Bool} {f : ρ → ρ}
    {hf : ∀ r, key (f r) = key r} (h : ∀ r ∈ t, p r = true → f r = r) : t.update p f hf = t := by
  obtain ⟨rows, hn⟩ := t
  rw [update, mk.injEq]
  exact (List.map_congr_left fun r hr => ite_eq_right_iff.mpr (h r hr)).trans (List.map_id _)

theorem update_congr {t : Table key} {p : ρ → Bool} {f g : ρ → ρ} {hf : ∀ r, key (f r) = key r}
    {hg : ∀ r, key (g r) = key r} (h : ∀ r ∈ t, p r = true → f r = g r) :
    t.update p f hf = t.update p g hg := by
  rw [update, update, mk.injEq]
  refine List.map_congr_left fun r hr => ?_
  by_cases hp : p r = true
  · rw [if_pos hp, if_pos hp, h r hr hp]
  · rw [if_neg hp, if_neg hp]

/-- An update of rows that are deleted next. -/
theorem delete_update {t : Table key} {p q : ρ → Bool} {f : ρ → ρ}
    {hf : ∀ r, key (f r) = key r} (h : ∀ r ∈ t, q r = true → p r = true ∧ p (f r) = true) :
    (t.update q f hf).delete p = t.delete p := by
  have hs : (t.update q f hf).select (fun r => !p r) = t.select fun r => !p r :=
    select_update_of_not fun r hr hq => (h r hr hq).imp (fun h => by simp [h]) fun h => by simp [h]
  rw [delete, delete, mk.injEq]
  exact hs

theorem select_insert_of_not_mem [DecidableEq κ] {t : Table key} {q : ρ → Bool} {r : ρ}
    (h : ∀ x ∈ t, key x ≠ key r) :
    (t.insert r).select q = t.select q ++ if q r then [r] else [] := by
  have hk : key r ∉ t.rows.map key := by
    rw [List.mem_map]
    rintro ⟨x, hx, he⟩
    exact h x hx he
  simp only [select, insert, hk, dite_false, List.filter_append, List.filter_singleton,
    Bool.cond_eq_ite]

/-- A new row that a query does not select. -/
theorem select_insert_of_not [DecidableEq κ] {t : Table key} {q : ρ → Bool} {r : ρ}
    (hr : q r = false) : (t.insert r).select q = t.select q := by
  unfold insert
  split
  · rfl
  · simp [select, hr]

theorem rows_insert_of_not_mem [DecidableEq κ] {t : Table key} {r : ρ}
    (h : ∀ x ∈ t, key x ≠ key r) : (t.insert r).rows = t.rows ++ [r] := by
  have hk : key r ∉ t.rows.map key := by
    rw [List.mem_map]
    rintro ⟨x, hx, he⟩
    exact h x hx he
  simp only [insert, hk, dite_false]

/-- Columns that an update leaves alone. -/
theorem map_update {α : Type*} {t : Table key} {p : ρ → Bool} {f : ρ → ρ}
    {hf : ∀ r, key (f r) = key r} {g : ρ → α} (hg : ∀ r, g (f r) = g r) :
    (t.update p f hf).rows.map g = t.rows.map g := by
  rw [update, List.map_map]
  apply List.map_congr_left
  intro r _
  by_cases hp : p r <;> simp [hp, hg]

@[simp] theorem mem_delete {t : Table key} {p : ρ → Bool} {s : ρ} :
    s ∈ t.delete p ↔ s ∈ t ∧ p s = false := by
  simp [mem_def, delete]

theorem key_apply {p : ρ → Bool} {f : ρ → ρ} (hf : ∀ r, key (f r) = key r) (r : ρ) :
    key (if p r then f r else r) = key r := by
  split
  · exact hf r
  · rfl

theorem keys_update {t : Table key} {p : ρ → Bool} {f : ρ → ρ} (hf : ∀ r, key (f r) = key r) :
    (t.update p f hf).rows.map key = t.rows.map key := by
  rw [update, List.map_map]
  exact List.map_congr_left fun r _ => key_apply hf r

/-- Every row of `t` lives on in `t'`, changed along `R`, and every other row of `t'` satisfies
`N`. -/
structure Evolves (R : ρ → ρ → Prop) (N : ρ → Prop) (t t' : Table key) : Prop where
  kept : ∀ r ∈ t, ∃ r' ∈ t', key r' = key r ∧ R r r'
  origin : ∀ r' ∈ t', (∃ r ∈ t, key r' = key r ∧ R r r') ∨ N r'

namespace Evolves

variable {R : ρ → ρ → Prop} {N : ρ → Prop} {t t' : Table key}

theorem refl (h : ∀ r ∈ t, R r r) : Evolves R N t t where
  kept r hr := ⟨r, hr, rfl, h r hr⟩
  origin r hr := .inl ⟨r, hr, rfl, h r hr⟩

theorem update {p : ρ → Bool} {f : ρ → ρ} (hf : ∀ r, key (f r) = key r)
    (h : ∀ r ∈ t, R r (if p r then f r else r)) : Evolves R N t (t.update p f hf) where
  kept r hr := ⟨_, mem_update_of_mem hf hr, key_apply hf r, h r hr⟩
  origin r' hr' := by
    obtain ⟨r, hr, rfl⟩ := mem_update.mp hr'
    exact .inl ⟨r, hr, key_apply hf r, h r hr⟩

/-- Two updates in a row. -/
theorem update₂ {p q : ρ → Bool} {f g : ρ → ρ} (hf : ∀ r, key (f r) = key r)
    (hg : ∀ r, key (g r) = key r)
    (h : ∀ r ∈ t, ∀ r₁, r₁ = (if p r then f r else r) → R r (if q r₁ then g r₁ else r₁)) :
    Evolves R N t ((t.update p f hf).update q g hg) where
  kept r hr :=
    ⟨_, mem_update_of_mem hg (mem_update_of_mem hf hr), (key_apply hg _).trans (key_apply hf r),
      h r hr _ rfl⟩
  origin r' hr' := by
    obtain ⟨r₁, hr₁, rfl⟩ := mem_update.mp hr'
    obtain ⟨r, hr, rfl⟩ := mem_update.mp hr₁
    exact .inl ⟨r, hr, (key_apply hg _).trans (key_apply hf r), h r hr _ rfl⟩

theorem insert [DecidableEq κ] {n : ρ} (ht : Evolves R N t t') (hn : N n) :
    Evolves R N t (t'.insert n) where
  kept r hr := by
    obtain ⟨r', hr', h⟩ := ht.kept r hr
    exact ⟨r', mem_insert_of_mem hr', h⟩
  origin r' hr' := by
    rcases mem_of_mem_insert hr' with hr' | rfl
    · exact ht.origin r' hr'
    · exact .inr hn

theorem mono {R' : ρ → ρ → Prop} {N' : ρ → Prop} (h : Evolves R N t t')
    (hR : ∀ r r', R r r' → R' r r') (hN : ∀ r, N r → N' r) : Evolves R' N' t t' where
  kept r hr := by
    obtain ⟨r', hr', hk, hs⟩ := h.kept r hr
    exact ⟨r', hr', hk, hR r r' hs⟩
  origin r' hr' := by
    rcases h.origin r' hr' with ⟨r, hr, hk, hs⟩ | hn
    · exact .inl ⟨r, hr, hk, hR r r' hs⟩
    · exact .inr (hN r' hn)

/-- The row of `t'` that continues a row of `t`. -/
theorem row (h : Evolves R N t t') {r r' : ρ} (hr : r ∈ t) (hr' : r' ∈ t')
    (hk : key r' = key r) : R r r' := by
  obtain ⟨s, hs, hks, hR⟩ := h.kept r hr
  rwa [eq_of_key_eq hr' hs (hk.trans hks.symm)]

end Evolves

end Table

end AiBadge.Lib
