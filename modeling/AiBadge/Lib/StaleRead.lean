import AiBadge.Lib.ReadCommitted

/-! # Transactions that another one overtakes

When a transaction commits, the others go on over the new store with what they have
read from the old one. A steady script is one to which this makes no difference: it
ends as it would if all its statements ran over the new store.
-/

namespace AiBadge.Lib

variable {σ κ ε α : Type}

/-- Between stores related by `R`, the queries of the script find the same, and its flushes fail
alike as long as no row they lock is in `locks`. -/
inductive Steady (R : σ → σ → Prop) (locks : List κ) : Script σ κ ε → Prop where
  | done : Steady R locks .done
  | raise {e : ε} : Steady R locks (.raise e)
  | query {next : σ → Script σ κ ε} : (∀ s s', R s s' → next s = next s') →
      (∀ s, Steady R locks (next s)) → Steady R locks (.query next)
  | flush {rows : List κ} {check : σ → Option ε} {w : σ → σ} {next : Script σ κ ε} :
      (∀ s s', R s s' → check s' = none → check s = none) →
      (∀ s s', R s s' → (∀ r ∈ rows, r ∉ locks) → check s = none → check s' = none) →
      (∀ s s', R s s' → check s = none → check s' = none → R (w s) (w s')) →
      Steady R locks next → Steady R locks (.flush rows check w next)

/-- Every flush of the script keeps a relation between the locks and the stores. -/
inductive Tracked (G : List κ → σ → σ → Prop) : Script σ κ ε → Prop where
  | done : Tracked G .done
  | raise {e : ε} : Tracked G (.raise e)
  | query {next : σ → Script σ κ ε} : (∀ s, Tracked G (next s)) → Tracked G (.query next)
  | flush {rows : List κ} {check : σ → Option ε} {w : σ → σ} {next : Script σ κ ε} :
      (∀ locks s s', G locks s s' → G (locks ++ rows) s (w s')) → Tracked G next →
      Tracked G (.flush rows check w next)

section Reaches

variable {s s' : σ} {c c' : Cursor σ κ ε}

theorem locks_of_reaches (h : Reaches s c c') {r : κ} (hr : r ∈ c.locks) : r ∈ c'.locks := by
  induction h with
  | refl => exact hr
  | @tail d d' _ hadv ih =>
    obtain ⟨script, writes, locks⟩ := d
    cases script with
    | done => cases hadv
    | raise => cases hadv
    | query next =>
      cases hadv
      exact ih
    | flush rows check w next =>
      simp only [Cursor.advance] at hadv
      split at hadv
      · cases hadv
        exact ih
      · cases hadv
        exact List.mem_append_left _ ih

theorem reaches_query {next : σ → Script σ κ ε} {ws : List (σ → σ)} {locks : List κ}
    (h : Reaches s ⟨.query next, ws, locks⟩ c) :
    c = ⟨.query next, ws, locks⟩ ∨ Reaches s ⟨next (overlay ws s), ws, locks⟩ c := by
  rcases Relation.ReflTransGen.cases_head h with rfl | ⟨d, hadv, hr⟩
  · exact .inl rfl
  · cases hadv
    exact .inr hr

theorem reaches_raise {e : ε} {ws : List (σ → σ)} {locks : List κ}
    (h : Reaches s ⟨.raise e, ws, locks⟩ c) : c = ⟨.raise e, ws, locks⟩ := by
  rcases Relation.ReflTransGen.cases_head h with rfl | ⟨d, hadv, -⟩
  · rfl
  · cases hadv

theorem reaches_fetch {g : σ → Option α} {e : ε} {next : α → Script σ κ ε} {ws : List (σ → σ)}
    {locks : List κ} (h : Reaches s ⟨.fetch g e next, ws, locks⟩ c) :
    c = ⟨.fetch g e next, ws, locks⟩ ∨ (g (overlay ws s) = none ∧ c = ⟨.raise e, ws, locks⟩) ∨
      ∃ a, g (overlay ws s) = some a ∧ Reaches s ⟨next a, ws, locks⟩ c := by
  refine (reaches_query h).imp_right fun h => ?_
  cases ha : g (overlay ws s) with
  | none =>
    rw [ha] at h
    exact .inl ⟨rfl, reaches_raise h⟩
  | some a =>
    rw [ha] at h
    exact .inr ⟨a, rfl, h⟩

/-- A steady script ends over the new store as if it had run there from the start. -/
theorem Steady.finish {R : σ → σ → Prop} {locks : List κ} (hs : Steady R locks c.script)
    (hR : R (overlay c.writes s) (overlay c.writes s')) (h : Reaches s c c')
    (hl : ∀ r ∈ c'.locks, r ∉ locks) :
    c'.script.finish s' c'.writes = c.script.finish s' c.writes := by
  induction h using Relation.ReflTransGen.head_induction_on with
  | refl => rfl
  | @head c d hadv hr ih =>
    obtain ⟨script, writes, held⟩ := c
    cases hs with
    | done => cases hadv
    | raise => cases hadv
    | @query next hq hn =>
      cases hadv
      rw [ih (hn _) hR]
      show (next (overlay writes s)).finish s' writes = (next (overlay writes s')).finish s' writes
      rw [hq _ _ hR]
    | @flush rows check w next hfail hpass hw hn =>
      simp only [Cursor.advance, Cursor.view] at hadv
      simp only [Script.finish]
      cases hc : check (overlay writes s) with
      | some e =>
        rw [hc] at hadv
        cases hadv
        rw [reaches_raise hr]
        cases hc' : check (overlay writes s') with
        | some => rfl
        | none => cases (hfail _ _ hR hc').symm.trans hc
      | none =>
        rw [hc] at hadv
        cases hadv
        have hc' := hpass _ _ hR
          (fun r hm => hl r (locks_of_reaches hr (List.mem_append_right _ hm))) hc
        rw [hc']
        exact ih hn (by simpa using hw _ _ hR hc hc')

theorem Tracked.reaches {G : List κ → σ → σ → Prop} (ht : Tracked G c.script)
    (hG : G c.locks s (overlay c.writes s)) (h : Reaches s c c') :
    Tracked G c'.script ∧ G c'.locks s (overlay c'.writes s) := by
  induction h with
  | refl => exact ⟨ht, hG⟩
  | @tail d d' _ hadv ih =>
    obtain ⟨script, writes, locks⟩ := d
    obtain ⟨ht, hG⟩ := ih
    cases ht with
    | done => cases hadv
    | raise => cases hadv
    | query hn =>
      cases hadv
      exact ⟨hn _, hG⟩
    | flush hw hn =>
      simp only [Cursor.advance] at hadv
      split at hadv
      · cases hadv
        exact ⟨.raise, hG⟩
      · cases hadv
        exact ⟨hn, by simpa using hw _ _ _ hG⟩

/-- What a tracked transaction leaves is related to what it found, by the locks that it held. -/
theorem Tracked.ends {G : List κ → σ → σ → Prop} (ht : Tracked G c.script)
    (hG : G c.locks s (overlay c.writes s)) (hrefl : ∀ locks, G locks s s) (h : Ends s c c') :
    G c'.locks s (c.result s) := by
  have hg := (ht.reaches hG h.1).2
  rw [← h.1.result]
  cases hs : c'.script with
  | done =>
    rw [result_of_done hs]
    exact hg
  | raise e =>
    rw [result_of_raise hs]
    exact hrefl _
  | query next =>
    have he := h.2
    rw [Cursor.advance, hs] at he
    cases he
  | flush rows check w next =>
    have he := h.2
    rw [Cursor.advance, hs] at he
    simp only at he
    split at he <;> cases he

end Reaches

section Finish

variable {s f : σ} {ws : List (σ → σ)} {next : Script σ κ ε}

@[simp] theorem finish_done : (Script.done : Script σ κ ε).finish s ws = some f ↔ overlay ws s = f :=
  Option.some_inj

@[simp] theorem finish_ensure {b : Bool} {e : ε} :
    (Script.ensure b e next).finish s ws = some f ↔ b = true ∧ next.finish s ws = some f := by
  cases b <;> simp [Script.ensure, Script.finish]

@[simp] theorem finish_require {o : Option α} {e : ε} {next : α → Script σ κ ε} :
    (Script.require o e next).finish s ws = some f ↔
      ∃ a, o = some a ∧ (next a).finish s ws = some f := by
  cases o <;> simp [Script.require, Script.finish]

@[simp] theorem finish_fetch {g : σ → Option α} {e : ε} {next : α → Script σ κ ε} :
    (Script.fetch g e next).finish s ws = some f ↔
      ∃ a, g (overlay ws s) = some a ∧ (next a).finish s ws = some f := finish_require

@[simp] theorem finish_update {rows : List κ} {w : σ → σ} :
    (Script.update rows w next).finish s ws = some f ↔ next.finish s (ws ++ [w]) = some f := Iff.rfl

@[simp] theorem finish_insert {rows : List κ} {free : σ → Bool} {e : ε} {w : σ → σ} :
    (Script.insert rows free e w next).finish s ws = some f ↔
      free (overlay ws s) = true ∧ next.finish s (ws ++ [w]) = some f := by
  rw [Script.insert, Script.finish]
  cases free (overlay ws s) <;> simp

end Finish

section Rules

variable {R : σ → σ → Prop} {G : List κ → σ → σ → Prop} {locks : List κ} {next : Script σ κ ε}

theorem Steady.ensure {b : Bool} {e : ε} (h : Steady R locks next) :
    Steady R locks (.ensure b e next) := by
  cases b
  · exact .raise
  · exact h

theorem Steady.require {o : Option α} {e : ε} {next : α → Script σ κ ε}
    (h : ∀ a, o = some a → Steady R locks (next a)) : Steady R locks (.require o e next) := by
  cases o with
  | none => exact .raise
  | some a => exact h a rfl

theorem Steady.fetch {g : σ → Option α} {e : ε} {next : α → Script σ κ ε}
    (hg : ∀ s s', R s s' → g s = g s') (h : ∀ a, Steady R locks (next a)) :
    Steady R locks (.fetch g e next) :=
  .query (fun s s' hR => by rw [hg s s' hR]) fun _ => .require fun a _ => h a

theorem Steady.update {rows : List κ} {w : σ → σ} (hw : ∀ s s', R s s' → R (w s) (w s'))
    (h : Steady R locks next) : Steady R locks (.update rows w next) :=
  .flush (fun _ _ _ _ => rfl) (fun _ _ _ _ _ => rfl) (fun s s' hR _ _ => hw s s' hR) h

theorem Steady.insert {rows : List κ} {free : σ → Bool} {e : ε} {w : σ → σ}
    (hfail : ∀ s s', R s s' → free s' = true → free s = true)
    (hpass : ∀ s s', R s s' → (∀ r ∈ rows, r ∉ locks) → free s = true → free s' = true)
    (hw : ∀ s s', R s s' → free s = true → free s' = true → R (w s) (w s'))
    (h : Steady R locks next) : Steady R locks (.insert rows free e w next) := by
  have hfree {s : σ} : (if free s = true then none else some e) = none ↔ free s = true := by
    split <;> simp [*]
  refine .flush (fun s s' hR hc => ?_) (fun s s' hR hl hc => ?_) (fun s s' hR hc hc' => ?_) h
  · exact hfree.mpr (hfail s s' hR (hfree.mp hc))
  · exact hfree.mpr (hpass s s' hR hl (hfree.mp hc))
  · exact hw s s' hR (hfree.mp hc) (hfree.mp hc')

theorem Tracked.ensure {b : Bool} {e : ε} (h : Tracked G next) : Tracked G (.ensure b e next) := by
  cases b
  · exact .raise
  · exact h

theorem Tracked.require {o : Option α} {e : ε} {next : α → Script σ κ ε}
    (h : ∀ a, Tracked G (next a)) : Tracked G (.require o e next) := by
  cases o with
  | none => exact .raise
  | some a => exact h a

theorem Tracked.fetch {g : σ → Option α} {e : ε} {next : α → Script σ κ ε}
    (h : ∀ a, Tracked G (next a)) : Tracked G (.fetch g e next) :=
  .query fun _ => .require h

end Rules

end AiBadge.Lib
