import Mathlib.Logic.Function.Basic
import Mathlib.Logic.Relation
import AiBadge.Orchestrator.Identity
import AiBadge.System.Invariant

/-! # The ledger of job keys

What matters about the `jobs` table for the identity of jobs: the committed rows, the rows
that open transactions have inserted, and the session of every artifact. A step is one
statement of any transaction, so its runs are all interleavings of concurrent ones; the
unique index lets an insert pass when no other row, committed or not, has its key.
-/

namespace AiBadge

open Lib

structure Ledger where
  jobs : Table Job.id
  /-- The session of every artifact created so far. -/
  owner : Uuid → Option Uuid
  /-- The rows that a transaction has inserted and not yet committed. -/
  queued : Nat → List Job

/-- The four places that create a job, with the values each builds its row from. -/
inductive Creation where
  | stage (id : Uuid) (now : Timestamp) (sessionId : Option Uuid) (stage : Stage)
  | retry (ids : RetryIds) (now : Timestamp) (artifact : Artifact) (comment : String)
  | publish (id : Uuid) (now : Timestamp) (artifact : Artifact)

namespace Creation

def row : Creation → Job
  | stage id now sid st => nextJob id now sid st.jobType
  | retry ids now x comment => retryJob ids now x comment
  | publish id now x => publishJob id now x

def identity : Creation → Identity
  | stage _ _ sid st => .stage sid st
  | retry ids _ x _ => .retry x.sessionId (take ids.suffix.hex 8)
  | publish _ _ x => .publish x.sessionId x.id

/-- The artifact row that the transaction has read. -/
def artifact? : Creation → Option Artifact
  | stage .. => none
  | retry _ _ x _ => some x
  | publish _ _ x => some x

theorem row_means (c : Creation) : c.row.Means c.identity := by
  cases c with
  | stage id now sid st => exact nextJob_means id now sid st
  | retry ids now x comment => exact retryJob_means ids now x comment
  | publish id now x => exact publishJob_means id now x

end Creation

theorem Job.SameOrigin.means {j j' : Job} {i : Identity} (h : j.SameOrigin j') (hm : j.Means i) :
    j'.Means i where
  key := h.idempotencyKey.trans hm.key
  sessionId := h.sessionId.trans hm.sessionId
  jobType := h.jobType.trans hm.jobType
  artifactId := by rw [h.inputPayload, hm.artifactId]

namespace Ledger

def empty : Ledger where
  jobs := ∅
  owner := fun _ => none
  queued := fun _ => []

/-- The unique constraints of the table let the row in. -/
def Free (L : Ledger) (j : Job) : Prop :=
  (∀ r ∈ L.jobs, r.id ≠ j.id ∧ r.idempotencyKey ≠ j.idempotencyKey) ∧
    ∀ k, ∀ r ∈ L.queued k, r.id ≠ j.id ∧ r.idempotencyKey ≠ j.idempotencyKey

/-- Transaction `k` has these rows inserted. -/
def queue (L : Ledger) (k : Nat) (rows : List Job) : Ledger :=
  { L with queued := Function.update L.queued k rows }

inductive Step (L : Ledger) : Ledger → Prop where
  /-- An update commits. No column that identifies the job is ever updated. -/
  | updated {jobs : Table Job.id} :
      Table.Evolves Job.SameOrigin (fun _ => False) L.jobs jobs → Step L { L with jobs }
  /-- An artifact with a fresh id is created. -/
  | extracted {aid sid : Uuid} : L.owner aid = none →
      Step L { L with owner := Function.update L.owner aid (some sid) }
  | inserted {k : Nat} {c : Creation} :
      (∀ x, c.artifact? = some x → L.owner x.id = some x.sessionId) → L.Free c.row →
      Step L (L.queue k (L.queued k ++ [c.row]))
  | committed {k : Nat} :
      Step L { L.queue k [] with jobs := (L.queued k).foldl Table.insert L.jobs }
  | rolledBack {k : Nat} : Step L (L.queue k [])

/-- The states of the ledger in all interleavings of all transactions. -/
def Reachable (L : Ledger) : Prop := Relation.ReflTransGen Step empty L

/-- Every row has an identity, and no two rows have the same key. -/
structure Keyed (L : Ledger) : Prop where
  named : ∀ r, r ∈ L.jobs ∨ (∃ k, r ∈ L.queued k) →
    ∃ i, r.Means i ∧ ∀ aid, i.artifactId = some aid → L.owner aid = i.sessionId
  distinct : ∀ i ∈ L.jobs, ∀ j ∈ L.jobs, i.idempotencyKey = j.idempotencyKey → i = j
  waiting : ∀ i ∈ L.jobs, ∀ k, ∀ j ∈ L.queued k, i.idempotencyKey ≠ j.idempotencyKey
  apart : ∀ k l, ∀ i ∈ L.queued k, ∀ j ∈ L.queued l, i.idempotencyKey = j.idempotencyKey →
    k = l ∧ i = j

theorem keyed_empty : empty.Keyed where
  named r h := by
    rcases h with h | ⟨k, h⟩
    · exact absurd h (Table.not_mem_empty r)
    · exact absurd h List.not_mem_nil
  distinct i hi := absurd hi (Table.not_mem_empty i)
  waiting i hi := absurd hi (Table.not_mem_empty i)
  apart k l i hi := absurd hi List.not_mem_nil

variable {L L' : Ledger}

theorem mem_queue {k l : Nat} {rows : List Job} {r : Job} :
    r ∈ (L.queue k rows).queued l ↔ l = k ∧ r ∈ rows ∨ l ≠ k ∧ r ∈ L.queued l := by
  by_cases h : l = k
  · subst h
    simp [queue]
  · simp [queue, h]

theorem mem_of_mem_foldl_insert {rows : List Job} {t : Table Job.id} {r : Job}
    (h : r ∈ rows.foldl Table.insert t) : r ∈ t ∨ r ∈ rows := by
  induction rows generalizing t with
  | nil => exact .inl h
  | cons a rows ih =>
    rcases ih h with h | h
    · rcases Table.mem_of_mem_insert h with h | rfl
      · exact .inl h
      · exact .inr List.mem_cons_self
    · exact .inr (List.mem_cons_of_mem _ h)

/-- Rows that only vanish or move out of their transaction leave the ledger keyed. -/
theorem Keyed.of_rows (h : L.Keyed) (k : Nat) (ho : L'.owner = L.owner)
    (hj : ∀ r ∈ L'.jobs, r ∈ L.jobs ∨ r ∈ L.queued k)
    (hq : ∀ l, ∀ r ∈ L'.queued l, l ≠ k ∧ r ∈ L.queued l) : L'.Keyed where
  named r hr := by
    rw [ho]
    apply h.named r
    rcases hr with hr | ⟨l, hr⟩
    · exact (hj r hr).imp id fun hr => ⟨k, hr⟩
    · exact .inr ⟨l, (hq l r hr).2⟩
  distinct i hi j hj' he := by
    rcases hj i hi with hi | hi
    · rcases hj j hj' with hj' | hj'
      · exact h.distinct i hi j hj' he
      · exact absurd he (h.waiting i hi k j hj')
    · rcases hj j hj' with hj' | hj'
      · exact absurd he.symm (h.waiting j hj' k i hi)
      · exact (h.apart k k i hi j hj' he).2
  waiting i hi l j hj' he := by
    obtain ⟨hl, hj'⟩ := hq l j hj'
    rcases hj i hi with hi | hi
    · exact h.waiting i hi l j hj' he
    · exact hl (h.apart k l i hi j hj' he).1.symm
  apart l m i hi j hj' he := h.apart l m i (hq l i hi).2 j (hq m j hj').2 he

theorem Keyed.step (h : L.Keyed) (hs : L.Step L') : L'.Keyed := by
  cases hs with
  | @updated jobs he =>
    have origin {r : Job} (hr : r ∈ jobs) : ∃ r₀ ∈ L.jobs, r.id = r₀.id ∧ r₀.SameOrigin r := by
      rcases he.origin r hr with ho | hn
      · exact ho
      · exact hn.elim
    constructor
    · rintro r (hr | hr)
      · obtain ⟨r₀, hr₀, -, ho⟩ := origin hr
        obtain ⟨i, hm, ha⟩ := h.named r₀ (.inl hr₀)
        exact ⟨i, ho.means hm, ha⟩
      · exact h.named r (.inr hr)
    · intro i hi j hj hk
      obtain ⟨i₀, hi₀, hid, hoi⟩ := origin hi
      obtain ⟨j₀, hj₀, hjd, hoj⟩ := origin hj
      have hk₀ : i₀.idempotencyKey = j₀.idempotencyKey := by
        rw [← hoi.idempotencyKey, hk, hoj.idempotencyKey]
      have heq := h.distinct i₀ hi₀ j₀ hj₀ hk₀
      exact Table.eq_of_key_eq hi hj (by rw [hid, hjd, heq])
    · intro i hi k j hj hk
      obtain ⟨i₀, hi₀, -, hoi⟩ := origin hi
      exact h.waiting i₀ hi₀ k j hj (hoi.idempotencyKey.symm.trans hk)
    · exact h.apart
  | @extracted aid sid ha =>
    refine ⟨fun r hr => ?_, h.distinct, h.waiting, h.apart⟩
    obtain ⟨i, hm, hi⟩ := h.named r hr
    refine ⟨i, hm, fun x hx => ?_⟩
    -- an artifact that a row names has been created before
    have hne : x ≠ aid := by
      rintro rfl
      cases i <;> cases hx
      exact absurd ((hi _ rfl).symm.trans ha) (by rintro ⟨⟩)
    rw [← hi x hx]
    exact Function.update_of_ne hne _ _
  | @inserted k c hx hf =>
    have cases_queue {l : Nat} {r : Job} (hr : r ∈ (L.queue k (L.queued k ++ [c.row])).queued l) :
        r ∈ L.queued l ∨ l = k ∧ r = c.row := by
      rcases mem_queue.mp hr with ⟨rfl, hr⟩ | ⟨-, hr⟩
      · rcases List.mem_append.mp hr with hr | hr
        · exact .inl hr
        · exact .inr ⟨rfl, List.mem_singleton.mp hr⟩
      · exact .inl hr
    constructor
    · have hnew : ∃ i, c.row.Means i ∧ ∀ aid, i.artifactId = some aid → L.owner aid = i.sessionId := by
        refine ⟨c.identity, c.row_means, ?_⟩
        cases c with
        | stage => rintro _ ⟨⟩
        | retry => rintro _ ⟨⟩
        | publish id now x =>
          rintro _ ⟨⟩
          exact hx x rfl
      rintro r (hr | ⟨l, hr⟩)
      · exact h.named r (.inl hr)
      · rcases cases_queue hr with hr | ⟨-, rfl⟩
        · exact h.named r (.inr ⟨l, hr⟩)
        · exact hnew
    · exact h.distinct
    · intro i hi l j hj
      rcases cases_queue hj with hj | ⟨-, rfl⟩
      · exact h.waiting i hi l j hj
      · exact (hf.1 i hi).2
    · intro l m i hi j hj he
      rcases cases_queue hi with hi₀ | ⟨hl, hi₀⟩
      · rcases cases_queue hj with hj₀ | ⟨-, hj₀⟩
        · exact h.apart l m i hi₀ j hj₀ he
        · exact absurd (hj₀ ▸ he) (hf.2 l i hi₀).2
      · rcases cases_queue hj with hj₀ | ⟨hm, hj₀⟩
        · exact absurd (hi₀ ▸ he.symm) (hf.2 m j hj₀).2
        · exact ⟨hl.trans hm.symm, hi₀.trans hj₀.symm⟩
  | @committed k =>
    refine h.of_rows k rfl (fun r hr => mem_of_mem_foldl_insert hr) fun l r hr => ?_
    rcases mem_queue.mp hr with ⟨-, hr⟩ | hr
    · exact absurd hr List.not_mem_nil
    · exact hr
  | @rolledBack k =>
    refine h.of_rows k rfl (fun r hr => .inl hr) fun l r hr => ?_
    rcases mem_queue.mp hr with ⟨-, hr⟩ | hr
    · exact absurd hr List.not_mem_nil
    · exact hr

theorem Reachable.keyed (h : L.Reachable) : L.Keyed := by
  induction h with
  | refl => exact keyed_empty
  | tail _ hs ih => exact ih.step hs

end Ledger

end AiBadge
