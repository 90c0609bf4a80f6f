import AiBadge.Lib.Run
import AiBadge.Orchestrator.Worker

/-! # The worker loop

`worker_loop` with the two variables that outlive a cycle. The `try` block alone
assigns them, and the test for idleness comes after its `except` branch.
-/

namespace AiBadge

open Lib Prog DbM

/-- What opening the session and the two calls of a cycle do; a call may not be reached. -/
structure Poll where
  opened : Except Exn Unit
  processOne : Except Exn Bool
  processDeletion : Except Exn Bool

/-- The variables `processed_job` and `processed_del`; `none` is unbound. -/
structure Locals where
  processedJob : Option Bool := none
  processedDel : Option Bool := none
  deriving DecidableEq

structure UnboundLocalError where
  name : String
  deriving DecidableEq

def readLocal (name : String) (x : Option Bool) : Except UnboundLocalError Bool :=
  match x with
  | some b => .ok b
  | none => .error ⟨name⟩

namespace Poll

/-- The variables after the `try` block and its `except` branch. -/
def assign (p : Poll) (l : Locals) : Locals :=
  match p.opened, p.processOne, p.processDeletion with
  | .ok _, .ok j, .ok d => ⟨some j, some d⟩
  | .ok _, .ok j, .error _ => { l with processedJob := some j }
  | _, _, _ => l

/-- `processed_job or processed_del` after the cycle. -/
def test (p : Poll) (l : Locals) : Except UnboundLocalError Bool := do
  if ← readLocal "processed_job" (p.assign l).processedJob then return true
  readLocal "processed_del" (p.assign l).processedDel

end Poll

/-- Where `worker_loop` is: at the head of its loop, behind it, or left with an exception. -/
inductive LoopPoint where
  | head
  | left
  | raised (e : UnboundLocalError)
  deriving DecidableEq

structure LoopState where
  point : LoopPoint := .head
  locals : Locals := {}
  sleeps : List Timestamp := []
  deriving DecidableEq

/-- What one turn of the loop meets: the flag at its head, and the cycle behind it. -/
structure Turn where
  shutdown : Bool
  poll : Poll

/-- One turn of the loop. -/
def LoopState.step (s : LoopState) (t : Turn) : Option LoopState :=
  match s.point, t.shutdown with
  | .head, true => some { s with point := .left }
  | .head, false =>
    let l := t.poll.assign s.locals
    match t.poll.test s.locals with
    | .ok true => some { s with locals := l }
    | .ok false => some { s with locals := l, sleeps := s.sleeps ++ [pollInterval] }
    | .error e => some { s with point := .raised e, locals := l }
  | _, _ => none

/-- The runs of `worker_loop`. -/
abbrev LoopRun (tr : List (Transition LoopState Turn)) (s : LoopState) : Prop :=
  Run LoopState.step {} tr s

/-! ## The outcomes of a cycle -/

/-- `_process_one`. -/
def processOneAnswer (c : Cycle) : DbM Bool := do
  write (releaseTimedOutJobs c.claimedAt)
  let job ← read fun db => limitOne c.tie (claimCandidates c.locked c.claimedAt db)
  forSome job (executeJob c)
  return job.isSome

/-- `_process_deletion`. -/
def processDeletionAnswer (c : Cycle) : DbM Bool := do
  let deletionJob ← read fun db =>
    limitOne c.deletionTie (deletionCandidates c.deletionLocked c.polledAt db)
  forSome deletionJob (processDeletion c.remove)
  return deletionJob.isSome

/-- The cycle that the session `t` sees, once it is open. -/
def Cycle.poll (c : Cycle) (t : Tx Db Files) : Poll where
  opened := .ok ()
  processOne := (processOneAnswer c t).1
  processDeletion := (processDeletionAnswer c (processOneAnswer c t).2).1

end AiBadge
