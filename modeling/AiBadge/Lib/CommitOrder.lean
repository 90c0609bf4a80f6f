import AiBadge.Lib.StaleRead
import Mathlib.Data.List.Nodup

/-! # Serial in the order of the commits

Any number of transactions that add to a store. What a query has answered may be old by the
commit. A transaction that would not get as far with the new answers, or would end in the same
way, is as good as one that starts and ends at its commit.
-/

namespace AiBadge.Lib

variable {K σ κ ε : Type}

/-- What transactions make of a store while they hold their locks. -/
structure Growth (G : List κ → σ → σ → Prop) : Prop where
  refl (s : σ) : G [] s s
  trans {L M : List κ} {s t u : σ} : G L s t → G M t u → G (L ++ M) s u

/-- Whatever others add without the rows that the script locks: its flushes stay free of
violations, and an end that it reaches with old answers is the one that it reaches with new ones. -/
inductive Renewable (G : List κ → σ → σ → Prop) :
    List κ → List (σ → σ) → Script σ κ ε → Prop where
  | done {L : List κ} {ws : List (σ → σ)} : Renewable G L ws .done
  | raise {L : List κ} {ws : List (σ → σ)} {e : ε} : Renewable G L ws (.raise e)
  | query {L : List κ} {ws : List (σ → σ)} {next : σ → Script σ κ ε} :
      (∀ M s t f, G M s t → (∀ r ∈ M, r ∉ L) → (next (overlay ws s)).finish t ws = some f →
        (next (overlay ws t)).finish t ws = some f) →
      (∀ s, Renewable G L ws (next s)) → Renewable G L ws (.query next)
  | flush {L rows : List κ} {ws : List (σ → σ)} {check : σ → Option ε} {w : σ → σ}
      {next : Script σ κ ε} :
      (∀ M s t, G M s t → (∀ r ∈ M, r ∉ L ++ rows) → check (overlay ws s) = none →
        check (overlay ws t) = none) →
      Renewable G (L ++ rows) (ws ++ [w]) next → Renewable G L ws (.flush rows check w next)

/-- The transaction `p` has come to `c`. However the store grows without its locks, an end from
there is an end of the whole transaction. -/
structure Underway (G : List κ → σ → σ → Prop) (p : Script σ κ ε) (s : σ) (c : Cursor σ κ ε) :
    Prop where
  restarts : ∀ M t f, G M s t → (∀ r ∈ M, r ∉ c.locks) → c.script.finish t c.writes = some f →
    p.finish t [] = some f
  renewable : Renewable G c.locks c.writes c.script
  tracked : Tracked G c.script
  adds : ∀ s, G c.locks s (overlay c.writes s)

theorem finish_flush {s f : σ} {ws : List (σ → σ)} {rows : List κ} {check : σ → Option ε} {w : σ → σ}
    {next : Script σ κ ε} : (Script.flush rows check w next).finish s ws = some f ↔
      check (overlay ws s) = none ∧ next.finish s (ws ++ [w]) = some f := by
  rw [Script.finish]
  cases check (overlay ws s) <;> simp

section Underway

variable {G : List κ → σ → σ → Prop} {p : Script σ κ ε} {s t : σ} {c c' : Cursor σ κ ε}

theorem Underway.start (hG : Growth G) (hr : Renewable G [] [] p) (ht : Tracked G p) :
    Underway G p s ⟨p, [], []⟩ where
  restarts _ _ _ _ _ h := h
  renewable := hr
  tracked := ht
  adds := hG.refl

/-- Another transaction commits. -/
theorem Underway.grow (h : Underway G p s c) (hG : Growth G) {M : List κ} (hM : G M s t)
    (hl : ∀ r ∈ M, r ∉ c.locks) : Underway G p t c :=
  { h with
    restarts := by
      intro N u f hN hn hf
      apply h.restarts (M ++ N) u f (hG.trans hM hN) _ hf
      intro r hr
      rcases List.mem_append.mp hr with hr | hr
      · exact hl r hr
      · exact hn r hr }

theorem Underway.advance (h : Underway G p s c) (hadv : c.advance s = some c') :
    Underway G p s c' := by
  obtain ⟨script, writes, locks⟩ := c
  obtain ⟨hs, hr, ht, ha⟩ := h
  cases hr with
  | done => cases hadv
  | raise => cases hadv
  | query hq hn =>
    cases ht with
    | query htn =>
      cases hadv
      exact ⟨fun M t f hM hl hf => hs M t f hM hl (hq M s t f hM hl hf), hn _, htn _, ha⟩
  | @flush _ rows _ check w next hc hn =>
    cases ht with
    | flush hw htn =>
      simp only [Cursor.advance, Cursor.view] at hadv
      split at hadv
      · cases hadv
        refine ⟨?_, .raise, .raise, ha⟩
        intro M t f _ _ hf
        cases hf
      next hfree =>
        cases hadv
        refine ⟨fun M t f hM hl hf => ?_, hn, htn, fun s => by simpa using hw _ _ _ (ha s)⟩
        apply hs M t f hM fun r hr hm => hl r hr (List.mem_append_left _ hm)
        exact finish_flush.mpr ⟨hc M s t hM hl hfree, hf⟩

/-- A transaction that is done ends as it would if it started now. -/
theorem Underway.finish (h : Underway G p s c) (hG : Growth G) (hd : c.script = .done) :
    p.finish s [] = some (c.view s) := by
  apply h.restarts [] s _ (hG.refl s) (fun _ hr => absurd hr List.not_mem_nil)
  rw [hd]
  rfl

end Underway

section Rules

variable {G : List κ → σ → σ → Prop} {L : List κ} {ws : List (σ → σ)} {next : Script σ κ ε}

theorem Renewable.ensure {b : Bool} {e : ε} (h : Renewable G L ws next) :
    Renewable G L ws (.ensure b e next) := by
  cases b
  · exact .raise
  · exact h

end Rules

section Run

variable [DecidableEq K] {G : List κ → σ → σ → Prop} {p : K → Script σ κ ε} {s : σ}
  {sh sh' : Shared K σ κ ε} {tr : List (Transition (Shared K σ κ ε) K)}

theorem Shared.setParty_self {k : K} {q : Party σ κ ε} : (sh.setParty k q).parties k = q :=
  Function.update_self ..

theorem Shared.setParty_of_ne {j k : K} {q : Party σ κ ε} (h : j ≠ k) :
    (sh.setParty k q).parties j = sh.parties j :=
  Function.update_of_ne h ..

theorem Shared.active_of_setParty {j k : K} {q : Party σ κ ε} {c : Cursor σ κ ε}
    (h : (sh.setParty k q).parties j = .active c) :
    (j = k ∧ q = .active c) ∨ (j ≠ k ∧ sh.parties j = .active c) := by
  by_cases hj : j = k
  · subst hj
    rw [Shared.setParty_self] at h
    exact .inl ⟨rfl, h⟩
  · rw [Shared.setParty_of_ne hj] at h
    exact .inr ⟨hj, h⟩

/-- No row is locked twice. -/
def Shared.Apart (sh : Shared K σ κ ε) : Prop :=
  ∀ j k, j ≠ k → ∀ r ∈ (sh.parties j).locks, r ∉ (sh.parties k).locks

theorem Shared.Apart.setParty {k : K} {q : Party σ κ ε} (h : sh.Apart)
    (hq : ∀ j, j ≠ k → ∀ r ∈ q.locks, r ∉ (sh.parties j).locks) : (sh.setParty k q).Apart := by
  intro i j hij r hr hn
  by_cases hi : i = k
  · subst hi
    have hj : j ≠ i := Ne.symm hij
    rw [Shared.setParty_self] at hr
    rw [Shared.setParty_of_ne hj] at hn
    exact hq j hj r hr hn
  · by_cases hj : j = k
    · subst hj
      rw [Shared.setParty_of_ne hi] at hr
      rw [Shared.setParty_self] at hn
      exact hq i hi r hn hr
    · rw [Shared.setParty_of_ne hi] at hr
      rw [Shared.setParty_of_ne hj] at hn
      exact h i j hij r hr hn

theorem Shared.Apart.step {k : K} (h : sh.Apart) (hm : sh.Moved k sh') : sh'.Apart := by
  have released {q : Party σ κ ε} (hq : q.locks = []) : (sh.setParty k q).Apart := by
    apply h.setParty
    intro j _ r hr
    rw [hq] at hr
    exact absurd hr List.not_mem_nil
  cases hm with
  | @advanced c c' hc hu hadv =>
    apply h.setParty
    intro j hj r hr
    rcases locks_of_advance hadv hr with hr | hr
    · apply h k j (Ne.symm hj) r
      rw [hc]
      exact hr
    · exact hu j hj r hr
  | committed => exact released rfl
  | aborted => exact released rfl

theorem Shared.apart_of_run [Fintype K] [DecidableEq κ]
    (hr : Run Shared.step (Shared.start s p) tr sh) : sh.Apart := by
  apply hr.invariant
  · exact fun _ _ _ _ hm => absurd hm List.not_mem_nil
  · exact fun _ _ _ h hstep => h.step (Shared.moved_of_step hstep)

/-- The transactions that commit in a run, in the order of their commits. -/
def commits (tr : List (Transition (Shared K σ κ ε) K)) : List K :=
  (tr.filter fun t => (t.post.parties t.act).isCommitted).map Transition.act

omit [DecidableEq K] in
theorem commits_snoc {t : Transition (Shared K σ κ ε) K} : commits (tr ++ [t]) =
    commits tr ++ if (t.post.parties t.act).isCommitted then [t.act] else [] := by
  unfold commits
  rw [List.filter_append, List.map_append]
  congr 1
  cases h : (t.post.parties t.act).isCommitted <;> simp [h]

/-- The transactions in `order` have committed, one after the other, and the rest are under way. -/
structure InOrder (G : List κ → σ → σ → Prop) (s : σ) (p : K → Script σ κ ε) (order : List K)
    (sh : Shared K σ κ ε) : Prop where
  nodup : order.Nodup
  committed : ∀ k, k ∈ order ↔ sh.parties k = .committed
  store : order.foldlM (fun s k => (p k).finish s []) s = some sh.store
  underway : ∀ k c, sh.parties k = .active c → Underway G (p k) sh.store c

section InOrder

variable {order : List K} {k : K} {c : Cursor σ κ ε}

omit [DecidableEq K] in
theorem InOrder.unlisted (h : InOrder G s p order sh) (hc : sh.parties k = .active c) :
    k ∉ order := by
  rw [h.committed, hc]
  exact nofun

/-- A transaction that does not commit leaves the order as it is. -/
theorem InOrder.setParty {q : Party σ κ ε} (h : InOrder G s p order sh)
    (hc : sh.parties k = .active c) (hq : q ≠ .committed)
    (hu : ∀ d, q = .active d → Underway G (p k) sh.store d) :
    InOrder G s p order (sh.setParty k q) := by
  refine ⟨h.nodup, fun j => ?_, h.store, fun j d hd => ?_⟩
  · by_cases hj : j = k
    · subst hj
      rw [Shared.setParty_self]
      exact iff_of_false (h.unlisted hc) hq
    · rw [Shared.setParty_of_ne hj]
      exact h.committed j
  · rcases Shared.active_of_setParty hd with ⟨rfl, hqd⟩ | ⟨-, hold⟩
    · exact hu d hqd
    · exact h.underway j d hold

theorem InOrder.step (h : InOrder G s p order sh) (hG : Growth G) (ha : sh.Apart)
    (hm : sh.Moved k sh') :
    InOrder G s p (order ++ if (sh'.parties k).isCommitted then [k] else []) sh' := by
  cases hm with
  | advanced hc _ hadv =>
    rw [Shared.setParty_self, Party.isCommitted_active, if_neg Bool.false_ne_true, List.append_nil]
    refine h.setParty hc nofun fun d hd => ?_
    cases hd
    exact (h.underway k _ hc).advance hadv
  | @committed c hc hdone =>
    have hk := h.underway k c hc
    rw [Shared.setParty_self, Party.isCommitted_committed, if_pos rfl]
    refine ⟨?_, fun j => ?_, ?_, fun j d hd => ?_⟩
    · rw [List.nodup_append_comm, List.singleton_append, List.nodup_cons]
      exact ⟨h.unlisted hc, h.nodup⟩
    · rw [List.mem_append, List.mem_singleton]
      by_cases hj : j = k
      · subst hj
        exact iff_of_true (.inr rfl) Shared.setParty_self
      · rw [Shared.setParty_of_ne hj, h.committed j]
        simp [hj]
    · rw [List.foldlM_append, h.store]
      simpa using hk.finish hG hdone
    · rcases Shared.active_of_setParty hd with ⟨-, hqd⟩ | ⟨hj, hold⟩
      · cases hqd
      · apply (h.underway j d hold).grow hG (hk.adds sh.store)
        have hdis := ha k j (Ne.symm hj)
        rwa [hc, hold] at hdis
  | aborted hc =>
    rw [Shared.setParty_self, Party.isCommitted_aborted, if_neg Bool.false_ne_true, List.append_nil]
    refine h.setParty hc nofun fun d hd => ?_
    cases hd

end InOrder

/-- However the transactions interleave, those that commit leave what they leave when they run one
after the other in the order of their commits. -/
theorem inOrder_of_run [Fintype K] [DecidableEq κ]
    (hr : Run Shared.step (Shared.start s p) tr sh) (hG : Growth G)
    (hp : ∀ k, Renewable G [] [] (p k)) (ht : ∀ k, Tracked G (p k)) :
    InOrder G s p (commits tr) sh := by
  induction hr with
  | init =>
    refine ⟨.nil, fun k => ?_, rfl, fun k c hc => ?_⟩
    · simp [Shared.start, commits]
    · cases hc
      exact .start hG (hp k) (ht k)
  | snoc hr hstep ih =>
    rw [commits_snoc]
    exact ih.step hG (Shared.apart_of_run hr) (Shared.moved_of_step hstep)

end Run

end AiBadge.Lib
