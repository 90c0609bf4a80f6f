import AiBadge.Concurrency.Review
import AiBadge.Lib.LockOrder
import AiBadge.Orchestrator.Identity

/-! # Concurrent requests come to an end

Approvals and requests on sessions, interleaved statement by statement, lock in a common order:
an artifact, a session, and the rows of a pipeline or a saga one by one. So they never wait for
each other in a circle.
-/

namespace AiBadge

open Lib Prog SessionStatus

/-- A request that is cut at its statements. -/
inductive CutRequest where
  | session (r : SessionRequest)
  | approval (r : Approval)

namespace CutRequest

def request : CutRequest → Request
  | session r => r.request
  | approval r => r.request

def script : CutRequest → DbScript
  | session r => r.script
  | approval r => r.script

end CutRequest

/-- No id is drawn twice. -/
structure DrawnOnce {K : Type} (reqs : K → CutRequest) : Prop where
  nodup : ∀ k, (reqs k).request.draws.Nodup
  apart : ∀ j k, j ≠ k → ∀ id ∈ (reqs j).request.draws, id ∉ (reqs k).request.draws

section Rank

variable {K : Type} {reqs : K → CutRequest} {id : Uuid}

open Classical in
/-- The place of an id among those that its request draws. -/
noncomputable def drawPlace (reqs : K → CutRequest) (id : Uuid) : Nat :=
  if h : ∃ k, id ∈ (reqs k).request.draws then (reqs h.choose).request.draws.idxOf id else 0

open Classical in
/-- The place of the stage whose key it is. -/
noncomputable def keyPlace (key : String) : Nat :=
  if ∃ sid, key = stageKey sid .transcribe then 0
  else if ∃ sid, key = stageKey sid .summarize then 1
  else 2

noncomputable def lockRank (reqs : K → CutRequest) : Lock → Nat
  | .artifact _ => 0
  | .session _ => 1
  | .jobId id => 2 + drawPlace reqs id
  | .jobKey key => 2 + keyPlace key
  | .deletionJob id => 2 + drawPlace reqs id

theorem drawPlace_eq (hd : DrawnOnce reqs) {k : K} {i : Nat}
    (h : (reqs k).request.draws[i]? = some id) : drawPlace reqs id = i := by
  obtain ⟨hi, rfl⟩ := List.getElem?_eq_some_iff.mp h
  have hex : ∃ k', (reqs k).request.draws[i] ∈ (reqs k').request.draws := ⟨k, List.getElem_mem hi⟩
  have hk : hex.choose = k := by
    by_contra hne
    exact hd.apart _ _ hne _ hex.choose_spec (List.getElem_mem hi)
  rw [drawPlace, dif_pos hex, hk]
  exact (hd.nodup k).idxOf_getElem i hi

theorem stage_of_stageKey {sid sid' : Uuid} {a b : Stage}
    (h : stageKey sid a.jobType = stageKey sid' b.jobType) : a = b := by
  have hk : (Identity.stage (some sid) a).key = (Identity.stage (some sid') b).key := h
  injection Identity.key_inj hk

theorem keyPlace_transcribe {sid : Uuid} : keyPlace (stageKey sid .transcribe) = 0 :=
  if_pos ⟨sid, rfl⟩

theorem keyPlace_summarize {sid : Uuid} : keyPlace (stageKey sid .summarize) = 1 := by
  rw [keyPlace, if_neg, if_pos ⟨sid, rfl⟩]
  rintro ⟨sid', h⟩
  cases stage_of_stageKey (a := .summarize) (b := .transcribe) h

theorem keyPlace_extractArtifact {sid : Uuid} : keyPlace (stageKey sid .extractArtifact) = 2 := by
  rw [keyPlace, if_neg, if_neg]
  · rintro ⟨sid', h⟩
    cases stage_of_stageKey (a := .extractArtifact) (b := .summarize) h
  · rintro ⟨sid', h⟩
    cases stage_of_stageKey (a := .extractArtifact) (b := .transcribe) h

theorem lockRank_job {key : String} {i : Nat} (hid : drawPlace reqs id = i)
    (hkey : keyPlace key = i) : ∀ r ∈ [Lock.jobId id, .jobKey key], lockRank reqs r = 2 + i := by
  intro r hr
  simp only [List.mem_cons, List.not_mem_nil, or_false] at hr
  rcases hr with rfl | rfl
  · exact congrArg (2 + ·) hid
  · exact congrArg (2 + ·) hkey

theorem lockRank_deletionJob {i : Nat} (hid : drawPlace reqs id = i) :
    ∀ r ∈ [Lock.deletionJob id], lockRank reqs r = 2 + i := by
  intro r hr
  obtain rfl := List.mem_singleton.mp hr
  exact congrArg (2 + ·) hid

end Rank

section Ascending

variable {K : Type} {reqs : K → CutRequest} {L : List Lock} {sid : Uuid} {s loaded row : Session}
  {next : DbScript}

/-- The flush of a session comes before those of new rows. -/
theorem ascending_saveSession
    (h : ∀ L, (∀ q ∈ L, lockRank reqs q < 2) → Ascending (lockRank reqs) L next) :
    Ascending (lockRank reqs) [] (DbScript.saveSession loaded row next) := by
  refine .above (n := 1) (fun _ hq => absurd hq List.not_mem_nil) (fun r hr => ?_) (h _)
  split at hr
  · cases hr
  · obtain rfl := List.mem_singleton.mp hr
    rfl

theorem ascending_createJobs {ids : PipelineIds} {now : Timestamp}
    (hids : ∀ i id, [ids.transcribe, ids.summarize, ids.extractArtifact][i]? = some id →
      drawPlace reqs id = i)
    (hL : ∀ q ∈ L, lockRank reqs q < 2) :
    Ascending (lockRank reqs) L (DbScript.createJobsForSession ids now sid .done) := by
  refine .above hL (lockRank_job (hids 0 _ rfl) keyPlace_transcribe) fun hL => ?_
  refine .above hL (lockRank_job (hids 1 _ rfl) keyPlace_summarize) fun hL => ?_
  refine .above hL (lockRank_job (hids 2 _ rfl) keyPlace_extractArtifact) fun _ => ?_
  exact .update (.update (.update .done))

theorem ascending_plan {r : SessionRequest}
    (hids : ∀ i id, r.request.draws[i]? = some id → drawPlace reqs id = i) :
    Ascending (lockRank reqs) [] (r.plan s) := by
  obtain ⟨user, now, session, call⟩ := r
  cases call with
  | consent grant => exact .ensure (ascending_saveSession fun _ _ => .update .done)
  | status ids text =>
    refine .require fun t _ => .ensure (ascending_saveSession fun L hL => ?_)
    cases decide (t = processing) with
    | true => exact .ensure (ascending_createJobs hids hL)
    | false => exact .done
  | cancel => exact .ensure (ascending_saveSession fun _ _ => .done)
  | retract ids =>
    refine .ensure (.fetch fun _ => .ensure (ascending_saveSession fun L hL => ?_))
    refine .above hL (lockRank_deletionJob (hids 0 _ rfl)) fun hL => ?_
    refine .above hL (lockRank_deletionJob (hids 1 _ rfl)) fun hL => ?_
    exact .above hL (lockRank_deletionJob (hids 2 _ rfl)) fun _ => .update .done

theorem ascending_transitionSession {known : Option Session} {target : SessionStatus}
    {next : Session → DbScript} (hL : .session sid ∈ L ∨ ∀ q ∈ L, lockRank reqs q < 1)
    (h : ∀ s, Ascending (lockRank reqs) (L ++ [.session sid]) (next s)) :
    Ascending (lockRank reqs) L (DbScript.transitionSession sid known target next) := by
  refine .fetch fun s => .ensure (.flush (fun r hr => ?_) (.update (h _)))
  obtain rfl := List.mem_singleton.mp hr
  exact hL

theorem ascending_respondArtifact {aid : Uuid} :
    Ascending (lockRank reqs) L (DbScript.respondArtifact aid) := .fetch fun _ => .ensure .done

theorem ascending_advance {known : Option Session} {aid : Uuid}
    (hL : ∀ q ∈ L, lockRank reqs q < 1) : Ascending (lockRank reqs) L
      (DbScript.advance sid known (DbScript.respondArtifact aid)) := by
  unfold DbScript.advance
  split
  · -- the second move finds the session locked by the first one
    refine ascending_transitionSession (.inr hL) fun _ => ?_
    exact ascending_transitionSession (.inl (by simp)) fun _ => ascending_respondArtifact
  · exact ascending_transitionSession (.inr hL) fun _ => ascending_respondArtifact

theorem ascending_reviewPlan {comment : String} {user : Uuid} {a : Artifact} :
    Ascending (lockRank reqs) [] (DbScript.reviewPlan comment user a) := by
  refine .ensure (.above (n := 0) (fun _ hq => absurd hq List.not_mem_nil) (fun r hr => ?_) fun hL =>
    .update (.query fun db => ?_))
  · obtain rfl := List.mem_singleton.mp hr
    rfl
  · split
    · exact .query fun _ => ascending_advance hL
    · exact ascending_respondArtifact

theorem ascending_script (hd : DrawnOnce reqs) (k : K) :
    Ascending (lockRank reqs) [] (reqs k).script := by
  have hids : ∀ i id, (reqs k).request.draws[i]? = some id → drawPlace reqs id = i :=
    fun _ _ h => drawPlace_eq hd h
  generalize reqs k = r at hids
  cases r with
  | session r => exact .fetch fun _ => .require fun _ _ => .fetch fun _ => ascending_plan hids
  | approval r => exact .fetch fun _ => .require fun _ _ => .fetch fun _ => ascending_reviewPlan

end Ascending

section Within

variable {n : Nat} {sid : Uuid} {known : Option Session} {s : Session}

theorem within_plan {r : SessionRequest} : Within 12 (r.plan s) := by
  obtain ⟨user, now, session, call⟩ := r
  cases call with
  | consent grant => exact .ensure (.flush (.flush .done))
  | status ids text =>
    refine .require fun t => .ensure (.flush ?_)
    cases decide (t = processing) with
    | true => exact .ensure (.flush (.flush (.flush (.flush (.flush (.flush .done))))))
    | false => exact .done
  | cancel => exact .ensure (.flush .done)
  | retract ids => exact .ensure (.fetch fun _ => .ensure (.flush (.flush (.flush (.flush (.flush .done))))))

theorem within_transitionSession {target : SessionStatus} {next : Session → DbScript}
    (h : ∀ s, Within n (next s)) : Within (n + 3) (DbScript.transitionSession sid known target next) :=
  .fetch fun _ => .ensure (.flush (.flush (h _)))

theorem within_respondArtifact {aid : Uuid} : Within (n + 2) (DbScript.respondArtifact aid) :=
  .fetch fun _ => .ensure .done

theorem within_advance {aid : Uuid} :
    Within 8 (DbScript.advance sid known (DbScript.respondArtifact aid)) := by
  unfold DbScript.advance
  split
  · exact within_transitionSession fun _ => within_transitionSession fun _ => within_respondArtifact
  · exact within_transitionSession fun _ => within_respondArtifact

theorem within_script {r : CutRequest} : Within 14 r.script := by
  cases r with
  | session r => exact .fetch fun _ => .require fun _ => .fetch fun _ => within_plan
  | approval r =>
    refine .fetch fun _ => .require fun _ => .fetch fun _ => .ensure (.flush (.flush ?_))
    refine .query fun db => ?_
    split
    · exact .query fun _ => within_advance
    · exact within_respondArtifact

end Within

section Run

variable {K : Type} [Fintype K] [DecidableEq K] {reqs : K → CutRequest} {db : Db}
  {tr : List (Transition (Shared K Db Lock Exn) K)} {sh : Shared K Db Lock Exn}

/-- However any number of approvals and requests on sessions interleave, each takes at most 14
steps, and when none can take one, all have ended. Run alone, the scripts leave what their endpoints
leave (`SessionRequest.result_script`, `Approval.serve_script`); the `db.refresh` at the end of a
request on a session is not one of their steps. -/
theorem requests_end (hr : Run Shared.step (Shared.start db fun k => (reqs k).script) tr sh)
    (hd : DrawnOnce reqs) :
    (∀ k, turns k tr ≤ 14) ∧ ((∀ k, sh.step k = none) → ∀ k, (sh.parties k).Finished) :=
  ⟨turns_le hr fun _ => within_script, finished_of_stuck hr (ascending_script hd)⟩

end Run

/-- Owner 2 approves artifact 32 and withdraws the consent to its session at the same time. -/
def approveAndRevoke (b : Bool) : CutRequest :=
  open Replay in if b then .approval ⟨uuid 2, ⟨uuid 60, uuid 61⟩, some (uuid 32), ""⟩
  else .session ⟨uuid 2, 50, some (uuid 5), .consent false⟩

/-- The approval waits for the session until the other request has committed. -/
theorem requests_end_approveAndRevoke : ∃ tr w, SystemRun 0 tr w ∧ ∃ tr' sh,
    Run Shared.step (Shared.start w.db fun b => (approveAndRevoke b).script) tr' sh ∧
      (∀ b, turns b tr' ≤ 14) ∧ ∀ b, (sh.parties b).Finished := by
  obtain ⟨tr, w, hr, hp⟩ := exists_run
    (fun (_ : List (Transition World Action)) w =>
      (execute Shared.step (Shared.start w.db fun b => (approveAndRevoke b).script)
        (List.replicate 4 false ++ List.replicate 7 true ++ [false] ++ List.replicate 7 true)).any
        fun p => (p.2.step true).isNone && (p.2.step false).isNone)
    (show (execute World.step (World.init 0) Replay.pipeline).any _ = true by decide +kernel)
  obtain ⟨tr', sh, hr', hs⟩ := exists_run
    (fun (_ : List (Transition (Shared Bool Db Lock Exn) Bool)) sh =>
      (sh.step true).isNone && (sh.step false).isNone) hp
  simp only [Bool.and_eq_true, Option.isNone_iff_eq_none] at hs
  have hd : DrawnOnce approveAndRevoke := by
    constructor
    · decide
    · decide
  obtain ⟨hturns, hend⟩ := requests_end hr' hd
  refine ⟨tr, w, hr, tr', sh, hr', hturns, hend fun b => ?_⟩
  cases b with
  | true => exact hs.1
  | false => exact hs.2

end AiBadge
