import AiBadge.System.ApiAccount
import Mathlib.Data.List.Sort

/-! # Reading the audit log

The log only grows, and its rows are in the order of their times. So a client that reads it
page by page misses no row, whatever the system writes between two of its calls.
-/

namespace AiBadge

open Lib Prog DbM

deriving instance DecidableEq for AuditLog

/-- A page of the log in a response, with what the request asked for. -/
structure AuditPage where
  session : Option Uuid
  limit : Int
  offset : Int
  rows : List AuditLog
  total : Nat
  deriving DecidableEq

/-- The page that the action of a client is answered with. -/
def World.auditPage? (b : Backend) (w : World) : ApiAction → Option AuditPage
  | .call (.endpoint token (.listAuditLogs driverUuid plan text limit offset)) =>
    match auditFilter driverUuid text,
      (w.answer b (.endpoint token (.listAuditLogs driverUuid plan text limit offset))).1 with
    | some session, .ok (.auditLogs rows total) => some ⟨session, limit, offset, rows, total⟩
    | _, _ => none
  | _ => none

/-- The rows of the log stand in the order of their times, none later than now. -/
structure World.Chronicled (w : World) : Prop where
  ordered : w.db.auditLogs.Pairwise fun l m => l.createdAt ≤ m.createdAt
  past : ∀ l ∈ w.db.auditLogs, l.createdAt ≤ w.now

namespace Replay

/-- Newest first, ties as they stand. -/
def newestFirst : Plan AuditLog.createdAt where
  sort := List.insertionSort fun l m => m.createdAt ≤ l.createdAt
  perm := List.perm_insertionSort _
  sorted l := by
    have : IsTrans AuditLog fun l m => m.createdAt ≤ l.createdAt :=
      ⟨fun _ _ _ h h' => Int.le_trans h' h⟩
    have : Std.Total fun l m : AuditLog => m.createdAt ≤ l.createdAt :=
      ⟨fun l m => Int.le_total m.createdAt l.createdAt⟩
    exact List.pairwise_insertionSort _ l

def setConsent (consent : Bool) : ApiAction := byToken 0 (.updateConsent (uuid 5).str consent)

def readLog (limit offset : Int) : ApiAction :=
  byToken 0 (.listAuditLogs (fun _ => none) newestFirst none limit offset)

/-- A third change is logged while a client reads the log in pages of one row. -/
def audited : List ApiAction :=
  [enrol, byToken 0 (.createSession (uuid 5) none none), setConsent true, .system (.tick 1),
    setConsent false, .system (.tick 1), readLog 1 0, setConsent true, readLog 1 1, readLog 1 2]

/-- The calls of a run that are answered with a page of the log. -/
def logReads (tr : List (Transition World ApiAction)) : List (Transition World ApiAction) :=
  tr.filter fun t => (t.pre.auditPage? backend t.act).isSome

def pageAt (reads : List (Transition World ApiAction)) (k : Nat) : AuditPage :=
  (reads[k]?.bind fun t => t.pre.auditPage? backend t.act).getD ⟨none, 0, 0, [], 0⟩

end Replay

section Log

variable {b : Backend} {w w' : World} {now : Timestamp} {tr : List (Transition World ApiAction)}
  {session : Option Uuid}

/-- A step appends rows with the current time. -/
theorem auditLogs_of_apiStep {a : ApiAction} (hw : w.Settled) (h : w.apiStep b a = some w') :
    ∃ new, w'.db.auditLogs = w.db.auditLogs ++ new ∧ ∀ l ∈ new, l.createdAt = w.now := by
  have hs := apiStep_refines h
  cases ha : a.action? b w with
  | none =>
    rw [ha] at hs
    obtain rfl := hs
    exact ⟨[], (List.append_nil _).symm, nofun⟩
  | some s =>
    rw [ha] at hs
    obtain ⟨new, hl, hnew⟩ := World.auditLogs_of_effect hw (World.effect_of_step hs)
    refine ⟨new, hl, fun l hm => ?_⟩
    cases hnew l hm <;> rfl

theorem chronicled_of_run (hr : ApiRun b now tr w) : w.Chronicled := by
  induction hr with
  | init => exact ⟨List.Pairwise.nil, nofun⟩
  | @snoc tr w w' a hr hstep ih =>
    obtain ⟨new, hl, hnew⟩ := auditLogs_of_apiStep (World.settled_of_apiRun hr) hstep
    have hnow := World.now_of_apiStep hstep
    constructor
    · rw [hl]
      apply List.pairwise_append.mpr ⟨ih.ordered, ?_, ?_⟩
      · apply List.pairwise_of_forall_mem_list
        intro l hl m hm
        rw [hnew l hl, hnew m hm]
      · intro l hl m hm
        rw [hnew m hm]
        exact ih.past l hl
    · intro l hm
      rw [hl] at hm
      rcases List.mem_append.mp hm with hm | hm
      · exact Int.le_trans (ih.past l hm) hnow
      · rw [hnew l hm]
        exact hnow

/-- What a filter selects grows at the end with the log. -/
theorem auditSelection_mono {db db' : Db} (h : db.auditLogs <+: db'.auditLogs) :
    auditSelection session db <+: auditSelection session db' := by
  cases session with
  | none => exact h
  | some sid => exact h.filter _

theorem auditSelection_sublist {db : Db} : (auditSelection session db).Sublist db.auditLogs := by
  cases session with
  | none => exact List.Sublist.refl _
  | some sid => exact List.filter_sublist

/-- Of any two states of a run, the log of the later one continues that of the earlier. -/
theorem auditLogs_of_run (hr : ApiRun b now tr w) :
    tr.Pairwise (fun t u => t.pre.db.auditLogs <+: u.pre.db.auditLogs) ∧
      ∀ t ∈ tr, t.pre.db.auditLogs <+: w.db.auditLogs := by
  apply hr.pairwise_pre (R := fun w w' => w.db.auditLogs <+: w'.db.auditLogs)
  · exact fun _ _ _ h h' => h.trans h'
  · intro tr w a w' hr hstep
    obtain ⟨new, hl, -⟩ := auditLogs_of_apiStep (World.settled_of_apiRun hr) hstep
    exact ⟨new, hl.symm⟩

theorem returns_paged {α : Type} {key : α → Int} {plan : Plan key} {limit offset : Int}
    {rows r : List α} {t t₀ : Tx Db Files} : (paged plan limit offset rows).Returns t₀ r t ↔
      (0 ≤ limit ∧ limit < 2 ^ 63 ∧ 0 ≤ offset ∧ offset < 2 ^ 63) ∧
        r = page limit.toNat offset.toNat (plan.sort rows) ∧ t = t₀ := by
  simp only [paged, returns_bind, returns_ensure, returns_pure, Bool.and_eq_true,
    decide_eq_true_eq, and_assoc]
  constructor
  · rintro ⟨_, _, h₁, h₂, h₃, h₄, rfl, hr⟩
    exact ⟨h₁, h₂, h₃, h₄, hr⟩
  · rintro ⟨h₁, h₂, h₃, h₄, hr⟩
    exact ⟨(), t₀, h₁, h₂, h₃, h₄, rfl, hr⟩

/-- A page holds the rows behind its offset, in some order by time, and the response their number. -/
theorem rows_of_auditPage {a : ApiAction} {p : AuditPage} (h : w.auditPage? b a = some p) :
    ∃ plan : Plan AuditLog.createdAt, p.total = (auditSelection p.session w.db).length ∧
      p.rows = page p.limit.toNat p.offset.toNat (plan.sort (auditSelection p.session w.db)) := by
  unfold World.auditPage? at h
  split at h
  next token driverUuid plan text limit offset =>
    split at h
    next session rows total hfilter hreply =>
      obtain rfl := Option.some.inj h
      obtain ⟨t₂, ht⟩ := World.transact_eq_ok.mp hreply
      obtain ⟨u, t₁, hu, ht⟩ := returns_bind.mp ht
      obtain ⟨-, rfl⟩ := returns_bearer.mp hu
      simp only [Endpoint.run, listAuditLogs, returns_bind, returns_require, returns_read,
        returns_paged, returns_pure, hfilter] at ht
      obtain ⟨_, _, ⟨_, _, ⟨⟨⟩, rfl⟩, _, _, ⟨rfl, rfl⟩, _, _, ⟨-, rfl, rfl⟩, rfl, rfl⟩, hr, -⟩ := ht
      obtain ⟨rfl, rfl⟩ := Reply.auditLogs.inj hr
      exact ⟨plan, rfl, rfl⟩
    next => cases h
  next => cases h

/-- A client that reads page after page until its pages cover the total sees every row that was in
the log at its first call, if the times of the selected rows differ. -/
theorem auditPages_complete (hr : ApiRun b now tr w)
    (hdistinct : (auditSelection session w.db).Pairwise fun l m => l.createdAt ≠ m.createdAt)
    {limit : Nat} {reads : List (Transition World ApiAction)} (hreads : reads.Sublist tr)
    {rows : Nat → List AuditLog} {total : Nat → Nat}
    (hserved : ∀ k, ∀ hk : k < reads.length, reads[k].pre.auditPage? b reads[k].act =
      some ⟨session, limit, (k * limit : Nat), rows k, total k⟩)
    (hne : reads ≠ []) (hend : total (reads.length - 1) ≤ reads.length * limit) :
    ∀ l ∈ auditSelection session (reads.head hne).pre.db, ∃ k < reads.length, l ∈ rows k := by
  intro l hl
  have hchron := chronicled_of_run hr
  obtain ⟨hpair, hlast⟩ := auditLogs_of_run hr
  -- the times of what a state of the run selects increase, so its query has no choice
  have hstrict : ∀ t ∈ tr, (auditSelection session t.pre.db).Pairwise
      fun l m => l.createdAt < m.createdAt := by
    intro t ht
    have hsub : (auditSelection session t.pre.db).Sublist (auditSelection session w.db) :=
      (auditSelection_mono (hlast t ht)).sublist
    have hle := hchron.ordered.sublist (hsub.trans auditSelection_sublist)
    exact hle.imp₂ (fun _ _ hle hne => lt_of_le_of_ne hle hne) (hdistinct.sublist hsub)
  let db (k : Nat) : Db := ((reads[k]?.map (·.pre)).getD w).db
  have hdb (k : Nat) (hk : k < reads.length) : db k = reads[k].pre.db := by
    simp [db, hk]
  have hrows : ∀ k < reads.length, total k = (auditSelection session (db k)).length ∧
      rows k = page limit (k * limit) (auditSelection session (db k)).reverse := by
    intro k hk
    obtain ⟨plan, ht, hp⟩ := rows_of_auditPage (hserved k hk)
    rw [hdb k hk, ← plan.sort_eq_reverse (hstrict _ (hreads.subset (List.getElem_mem hk)))]
    exact ⟨ht, hp⟩
  have hgrow : ∀ k, k + 1 < reads.length → (auditSelection session (db k)).reverse <:+
      (auditSelection session (db (k + 1))).reverse := by
    intro k hk
    rw [hdb k (by omega), hdb (k + 1) hk, List.reverse_suffix]
    exact auditSelection_mono
      (List.pairwise_iff_getElem.mp (hpair.sublist hreads) k (k + 1) (by omega) hk (by omega))
  have hpos : 0 < reads.length := List.length_pos_of_ne_nil hne
  have hcover : ((auditSelection session (db (reads.length - 1))).reverse).length ≤
      reads.length * limit := by
    rw [List.length_reverse, ← (hrows _ (by omega)).1]
    exact hend
  have hfirst : l ∈ (auditSelection session (db 0)).reverse := by
    rw [List.mem_reverse, hdb 0 hpos]
    rwa [List.head_eq_getElem] at hl
  obtain ⟨k, hk, hmem⟩ := exists_page_of_growing hgrow hpos hcover hfirst
  exact ⟨k, hk, (hrows k hk).2 ▸ hmem⟩

theorem auditPages_complete_audited : ∃ tr w, ApiRun Replay.backend 0 tr w ∧
    ∃ reads : List (Transition World ApiAction), reads.Sublist tr ∧ ∃ hne : reads ≠ [],
      ∀ l ∈ auditSelection none (reads.head hne).pre.db, ∃ k < reads.length,
        l ∈ (Replay.pageAt reads k).rows := by
  obtain ⟨tr, w, hr, hp⟩ := exists_run
    (fun (tr : List (Transition World ApiAction)) w => decide (
      ((auditSelection none w.db).Pairwise fun l m : AuditLog => l.createdAt ≠ m.createdAt) ∧
      (Replay.logReads tr).length = 3 ∧ (Replay.pageAt (Replay.logReads tr) 2).total ≤ 3 ∧
      ∀ k, ∀ hk : k < (Replay.logReads tr).length,
        (Replay.logReads tr)[k].pre.auditPage? Replay.backend (Replay.logReads tr)[k].act =
          some ⟨none, (1 : Nat), (k * 1 : Nat), (Replay.pageAt (Replay.logReads tr) k).rows,
            (Replay.pageAt (Replay.logReads tr) k).total⟩))
    (by decide +kernel : (execute (World.apiStep Replay.backend) (World.init 0)
      Replay.audited).any _ = true)
  obtain ⟨hdistinct, hlen, hend, hserved⟩ := of_decide_eq_true hp
  have hsub : (Replay.logReads tr).Sublist tr := List.filter_sublist
  have hne : Replay.logReads tr ≠ [] := List.ne_nil_of_length_pos (by omega)
  refine ⟨tr, w, hr, Replay.logReads tr, hsub, hne, ?_⟩
  apply auditPages_complete hr hdistinct hsub hserved hne
  rw [hlen]
  exact hend

end Log

end AiBadge
