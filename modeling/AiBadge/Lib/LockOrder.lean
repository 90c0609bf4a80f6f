import AiBadge.Lib.CommitOrder
import Mathlib.Data.Fintype.EquivFin
import Mathlib.Data.Fintype.Lattice

/-! # Locks in a common order

Transactions that lock their rows in a common order never wait for each other in a circle. As
each of them has finitely many statements, all of them come to an end, in every schedule.
-/

namespace AiBadge.Lib

variable {K σ κ ε : Type}

/-- Every flush of the script wants rows that rank above the rows it holds, or holds them already. -/
inductive Ascending (rank : κ → Nat) : List κ → Script σ κ ε → Prop where
  | done {L : List κ} : Ascending rank L .done
  | raise {L : List κ} {e : ε} : Ascending rank L (.raise e)
  | query {L : List κ} {next : σ → Script σ κ ε} : (∀ s, Ascending rank L (next s)) →
      Ascending rank L (.query next)
  | flush {L rows : List κ} {check : σ → Option ε} {w : σ → σ} {next : Script σ κ ε} :
      (∀ r ∈ rows, r ∈ L ∨ ∀ q ∈ L, rank q < rank r) → Ascending rank (L ++ rows) next →
      Ascending rank L (.flush rows check w next)

/-- The script ends after at most `n` steps, its commit or rollback included. -/
inductive Within : Nat → Script σ κ ε → Prop where
  | done {n : Nat} : Within (n + 1) .done
  | raise {n : Nat} {e : ε} : Within (n + 1) (.raise e)
  | query {n : Nat} {next : σ → Script σ κ ε} : (∀ s, Within n (next s)) → Within (n + 1) (.query next)
  | flush {n : Nat} {rows : List κ} {check : σ → Option ε} {w : σ → σ} {next : Script σ κ ε} :
      Within n next → Within (n + 1) (.flush rows check w next)

section Cursor

variable {rank : κ → Nat} {n m : Nat} {s : σ} {p : Script σ κ ε} {c c' : Cursor σ κ ε}

theorem Within.pos (h : Within n p) : 0 < n := by
  cases h <;> exact Nat.succ_pos _

theorem Within.mono (h : Within n p) (hm : n ≤ m) : Within m p := by
  induction h generalizing m with
  | done =>
    obtain ⟨m, rfl⟩ := Nat.exists_eq_add_one.mpr (Nat.lt_of_lt_of_le (Nat.succ_pos _) hm)
    exact .done
  | raise =>
    obtain ⟨m, rfl⟩ := Nat.exists_eq_add_one.mpr (Nat.lt_of_lt_of_le (Nat.succ_pos _) hm)
    exact .raise
  | query _ ih =>
    obtain ⟨m, rfl⟩ := Nat.exists_eq_add_one.mpr (Nat.lt_of_lt_of_le (Nat.succ_pos _) hm)
    exact .query fun s => ih s (Nat.le_of_succ_le_succ hm)
  | flush _ ih =>
    obtain ⟨m, rfl⟩ := Nat.exists_eq_add_one.mpr (Nat.lt_of_lt_of_le (Nat.succ_pos _) hm)
    exact .flush (ih (Nat.le_of_succ_le_succ hm))

theorem Within.advance (h : Within n c.script) (hadv : c.advance s = some c') :
    ∃ m, n = m + 1 ∧ Within m c'.script := by
  obtain ⟨script, writes, locks⟩ := c
  cases h with
  | done => cases hadv
  | raise => cases hadv
  | query hn =>
    cases hadv
    exact ⟨_, rfl, hn _⟩
  | flush hn =>
    simp only [Cursor.advance] at hadv
    split at hadv
    · cases hadv
      exact ⟨_, rfl, (Within.raise (n := 0)).mono hn.pos⟩
    · cases hadv
      exact ⟨_, rfl, hn⟩

theorem Ascending.advance (h : Ascending rank c.locks c.script) (hadv : c.advance s = some c') :
    Ascending rank c'.locks c'.script := by
  obtain ⟨script, writes, locks⟩ := c
  cases h with
  | done => cases hadv
  | raise => cases hadv
  | query hn =>
    cases hadv
    exact hn _
  | flush _ hn =>
    simp only [Cursor.advance] at hadv
    split at hadv
    · cases hadv
      exact .raise
    · cases hadv
      exact hn

theorem Ascending.wants (h : Ascending rank c.locks c.script) :
    ∀ r ∈ c.wants, r ∈ c.locks ∨ ∀ q ∈ c.locks, rank q < rank r := by
  obtain ⟨script, writes, locks⟩ := c
  cases h with
  | done => exact fun _ hr => absurd hr List.not_mem_nil
  | raise => exact fun _ hr => absurd hr List.not_mem_nil
  | query => exact fun _ hr => absurd hr List.not_mem_nil
  | flush hrows => exact hrows

end Cursor

section Rules

variable {α : Type} {rank : κ → Nat} {n : Nat} {L : List κ} {next : Script σ κ ε}

theorem Ascending.ensure {b : Bool} {e : ε} (h : Ascending rank L next) :
    Ascending rank L (.ensure b e next) := by
  cases b
  · exact .raise
  · exact h

theorem Ascending.require {o : Option α} {e : ε} {next : α → Script σ κ ε}
    (h : ∀ a, o = some a → Ascending rank L (next a)) : Ascending rank L (.require o e next) := by
  cases o with
  | none => exact .raise
  | some a => exact h a rfl

theorem Ascending.fetch {g : σ → Option α} {e : ε} {next : α → Script σ κ ε}
    (h : ∀ a, Ascending rank L (next a)) : Ascending rank L (.fetch g e next) :=
  .query fun _ => .require fun a _ => h a

/-- A flush whose rows have the next rank. -/
theorem Ascending.above {rows : List κ} {check : σ → Option ε} {w : σ → σ}
    (hL : ∀ q ∈ L, rank q < n) (hr : ∀ r ∈ rows, rank r = n)
    (h : (∀ q ∈ L ++ rows, rank q < n + 1) → Ascending rank (L ++ rows) next) :
    Ascending rank L (.flush rows check w next) := by
  refine .flush (fun r hm => .inr fun q hq => ?_) (h fun q hq => ?_)
  · rw [hr r hm]
    exact hL q hq
  · rcases List.mem_append.mp hq with hq | hq
    · exact Nat.lt_succ_of_lt (hL q hq)
    · rw [hr q hq]
      exact Nat.lt_succ_self n

/-- A flush that locks nothing. -/
theorem Ascending.update {w : σ → σ} (h : Ascending rank L next) :
    Ascending rank L (.update [] w next) := by
  refine .flush (fun _ hr => absurd hr List.not_mem_nil) ?_
  rwa [List.append_nil]

theorem Within.ensure {b : Bool} {e : ε} (h : Within n next) : Within n (.ensure b e next) := by
  cases b
  · exact (Within.raise (n := 0)).mono h.pos
  · exact h

theorem Within.require {o : Option α} {e : ε} {next : α → Script σ κ ε}
    (h : ∀ a, Within (n + 1) (next a)) : Within (n + 1) (.require o e next) := by
  cases o with
  | none => exact .raise
  | some a => exact h a

theorem Within.fetch {g : σ → Option α} {e : ε} {next : α → Script σ κ ε}
    (h : ∀ a, Within (n + 1) (next a)) : Within (n + 2) (.fetch g e next) :=
  .query fun _ => .require h

end Rules

section Party

variable {q : Party σ κ ε}

theorem Party.exists_active (h : ¬ q.Finished) : ∃ c, q = .active c := by
  cases q with
  | active c => exact ⟨c, rfl⟩
  | committed => exact absurd trivial h
  | aborted => exact absurd trivial h

theorem Party.not_finished_of_lock {r : κ} (h : r ∈ q.locks) : ¬ q.Finished := by
  cases q with
  | active => exact id
  | committed => exact absurd h List.not_mem_nil
  | aborted => exact absurd h List.not_mem_nil

end Party

section Run

variable [Fintype K] [DecidableEq K] [DecidableEq κ] {rank : κ → Nat} {n : K → Nat}
  {p : K → Script σ κ ε} {s : σ} {sh sh' : Shared K σ κ ε} {tr : List (Transition (Shared K σ κ ε) K)}

/-- The only thing that an active transaction waits for is a lock. -/
theorem Shared.step_isSome {k : K} {c : Cursor σ κ ε} (hc : sh.parties k = .active c)
    (hu : sh.Unlocked k c) : (sh.step k).isSome := by
  obtain ⟨script, writes, locks⟩ := c
  cases script with
  | done => rw [Shared.step_of_done hc rfl, Option.isSome_some]
  | raise e => rw [Shared.step_of_raise hc rfl, Option.isSome_some]
  | query next => rw [Shared.step_of_advance hc hu rfl, Option.isSome_some]
  | flush rows check w next =>
    have hadv : ∃ c', Cursor.advance sh.store ⟨.flush rows check w next, writes, locks⟩ = some c' := by
      simp only [Cursor.advance]
      split <;> exact ⟨_, rfl⟩
    obtain ⟨c', hadv⟩ := hadv
    rw [Shared.step_of_advance hc hu hadv, Option.isSome_some]

/-- Every active transaction has a rest that locks in order. -/
theorem ascending_of_run (hr : Run Shared.step (Shared.start s p) tr sh)
    (hp : ∀ k, Ascending rank [] (p k)) :
    ∀ k c, sh.parties k = .active c → Ascending rank c.locks c.script := by
  apply hr.invariant (I := fun sh : Shared K σ κ ε =>
    ∀ k c, sh.parties k = .active c → Ascending rank c.locks c.script)
  · intro k c hc
    cases hc
    exact hp k
  · intro sh i sh' h hstep k c hc
    cases Shared.moved_of_step hstep with
    | advanced hd _ hadv =>
      rcases Shared.active_of_setParty hc with ⟨rfl, hq⟩ | ⟨-, hold⟩
      · cases hq
        exact (h k _ hd).advance hadv
      · exact h k c hold
    | committed =>
      rcases Shared.active_of_setParty hc with ⟨-, hq⟩ | ⟨-, hold⟩
      · cases hq
      · exact h k c hold
    | aborted =>
      rcases Shared.active_of_setParty hc with ⟨-, hq⟩ | ⟨-, hold⟩
      · cases hq
      · exact h k c hold

/-- A transaction that cannot go on wants a row that another one holds. -/
theorem Shared.held_of_stuck {k : K} {c : Cursor σ κ ε} (hc : sh.parties k = .active c)
    (hs : sh.step k = none) : ∃ j, j ≠ k ∧ ∃ r ∈ c.wants, r ∈ (sh.parties j).locks := by
  have hu : ¬ sh.Unlocked k c := by
    intro hu
    have hsome := Shared.step_isSome hc hu
    rw [hs] at hsome
    cases hsome
  unfold Shared.Unlocked at hu
  push Not at hu
  exact hu

/-- If no transaction can go on, all of them have ended. -/
theorem finished_of_stuck (hr : Run Shared.step (Shared.start s p) tr sh)
    (hp : ∀ k, Ascending rank [] (p k)) (hs : ∀ k, sh.step k = none) :
    ∀ k, (sh.parties k).Finished := by
  have ha := Shared.apart_of_run hr
  have hasc := ascending_of_run hr hp
  have blocked (k : K) (hk : ¬ (sh.parties k).Finished) :
      ∃ r j, ¬ (sh.parties j).Finished ∧ r ∈ (sh.parties j).locks ∧
        ∀ q ∈ (sh.parties k).locks, rank q < rank r := by
    obtain ⟨c, hc⟩ := Party.exists_active hk
    obtain ⟨j, hj, r, hw, hl⟩ := Shared.held_of_stuck hc (hs k)
    have hlocks : (sh.parties k).locks = c.locks := by rw [hc, Party.locks]
    refine ⟨r, j, Party.not_finished_of_lock hl, hl, ?_⟩
    rw [hlocks]
    apply ((hasc k c hc).wants r hw).resolve_left
    intro hown
    apply ha j k hj r hl
    rwa [hlocks]
  by_contra hn
  push Not at hn
  choose row holder hact hheld hrank using blocked
  -- the row with the highest rank of those that a transaction waits for
  obtain ⟨k₀, hk₀⟩ := hn
  have : Nonempty {k : K // ¬ (sh.parties k).Finished} := ⟨⟨k₀, hk₀⟩⟩
  obtain ⟨⟨k, hk⟩, hmax⟩ := Finite.exists_max
    fun k : {k : K // ¬ (sh.parties k).Finished} => rank (row k.1 k.2)
  have hlt := hrank (holder k hk) (hact k hk) (row k hk) (hheld k hk)
  have hle := hmax ⟨holder k hk, hact k hk⟩
  exact Nat.not_lt.mpr hle hlt

/-- Every transaction takes at most as many steps as it has. -/
theorem turns_le (hr : Run Shared.step (Shared.start s p) tr sh) (hp : ∀ k, Within (n k) (p k)) (k : K) :
    turns k tr ≤ n k := by
  have key : ∃ m, turns k tr + m = n k ∧ ∀ c, sh.parties k = .active c → Within m c.script := by
    induction hr with
    | init =>
      refine ⟨n k, by simp [turns], fun c hc => ?_⟩
      cases hc
      exact hp k
    | @snoc tr sh sh' i hr hstep ih =>
      obtain ⟨m, hm, hw⟩ := ih
      rw [turns_snoc]
      by_cases hi : i = k
      · subst hi
        rw [if_pos rfl]
        cases Shared.moved_of_step hstep with
        | advanced hc _ hadv =>
          obtain ⟨l, rfl, hl⟩ := (hw _ hc).advance hadv
          refine ⟨l, by omega, fun c hc => ?_⟩
          rw [Shared.setParty_self] at hc
          cases hc
          exact hl
        | committed hc =>
          have hpos := (hw _ hc).pos
          refine ⟨m - 1, by omega, fun c hc => ?_⟩
          simp [Shared.setParty] at hc
        | aborted hc =>
          have hpos := (hw _ hc).pos
          refine ⟨m - 1, by omega, fun c hc => ?_⟩
          simp [Shared.setParty] at hc
      · rw [if_neg hi]
        have hk : sh'.parties k = sh.parties k := by
          cases Shared.moved_of_step hstep <;> simp [Shared.setParty, Ne.symm hi]
        rw [hk]
        exact ⟨m, hm, hw⟩
  obtain ⟨m, hm, -⟩ := key
  omega

end Run

end AiBadge.Lib
