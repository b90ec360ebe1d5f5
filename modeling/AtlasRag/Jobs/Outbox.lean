/-
The transactional job outbox: the table `job_outbox` with its CHECK constraints, and the statements of
`OutboxRepository`.

A row waits to be published (`Pending`: neither published nor failed), may be leased to a publisher while it is being
dispatched, and ends published or failed. The publisher's statements repeat the attempt number and require a live lease;
`discardPendingForAggregate`, used by the ingestion retry, matches every pending row of the aggregate whether or not a
publisher holds a lease on it, and leaves the lease in place.

Results:
- `discard_ok`: discarding is accepted iff no pending row of the aggregate is leased (given a storable failure code);
- `claimBatch_row`: what a claim does to the rows it takes and to the others;
- `updateOwned_ok`: a statement of a publisher changes only the row it names, under the attempt it carries.
-/
import Mathlib
import AtlasRag.Lib.Table
import AtlasRag.Platform.Postgres

namespace AtlasRag.Jobs

open AtlasRag.Lib.Table AtlasRag.Platform

/-! ## Rows -/

/-- the values of `JobType` -/
def PROCESS_INGESTION_ITEM : String := "ingestion.process"

/-- a payload: argument names and the identifiers whose text they carry -/
abbrev Payload := List (String × Uuid)

structure JobOutbox where
  id : Uuid
  jobType : String
  aggregateId : Uuid
  payload : Payload
  createdAt : Time
  publishedAt : Option Time
  failedAt : Option Time
  failureCode : Option String
  attemptCount : ℕ
  lastError : Option String
  claimedAt : Option Time
  leaseExpiresAt : Option Time
deriving DecidableEq, Repr

namespace JobOutbox

/-- neither published nor failed -/
def Pending (r : JobOutbox) : Prop := r.publishedAt = none ∧ r.failedAt = none

/-- unleased, or the lease has expired at database time `t` -/
def Claimable (t : Time) (r : JobOutbox) : Prop :=
  r.Pending ∧ (r.leaseExpiresAt = none ∨ ∃ l ∈ r.leaseExpiresAt, l ≤ t)

/-- `_owned_by`: pending, under attempt `a`, with a lease that is live at database time `t` -/
def OwnedBy (a : ℕ) (t : Time) (r : JobOutbox) : Prop :=
  r.Pending ∧ r.attemptCount = a ∧ ∃ l ∈ r.leaseExpiresAt, t < l

instance (r : JobOutbox) : Decidable r.Pending := inferInstanceAs (Decidable (_ ∧ _))
instance (t : Time) (r : JobOutbox) : Decidable (r.Claimable t) := inferInstanceAs (Decidable (_ ∧ _))
instance (a : ℕ) (t : Time) (r : JobOutbox) : Decidable (r.OwnedBy a t) := inferInstanceAs (Decidable (_ ∧ _))

/-- the constraints a row violates; `attempt_count` is a natural number, so its CHECK holds by type -/
def defects (r : JobOutbox) : List Violation :=
  checkThat "valid_publish_lease" (∀ l ∈ r.leaseExpiresAt, ∃ c ∈ r.claimedAt, c < l) ++
  checkThat "published_job_has_no_lease" (r.publishedAt = none ∨ r.leaseExpiresAt = none) ++
  checkThat "failed_job_has_no_lease" (r.failedAt = none ∨ r.leaseExpiresAt = none) ++
  checkThat "published_or_failed" (¬ (r.publishedAt ≠ none ∧ r.failedAt ≠ none)) ++
  checkThat "terminal_failure_complete"
    ((r.failedAt = none ∧ r.failureCode = none) ∨ (r.failedAt ≠ none ∧ ∃ c ∈ r.failureCode, NonBlank c)) ++
  textColumn "job_type" (some 100) (some r.jobType) ++ textColumn "failure_code" (some 100) r.failureCode ++
  textColumn "last_error" none r.lastError

/-- a row as `enqueue` inserts it; `created_at` defaults to the database time -/
def new (id : Uuid) (jobType : String) (aggregateId : Uuid) (payload : Payload) (t : Time) : JobOutbox :=
  ⟨id, jobType, aggregateId, payload, t, none, none, none, 0, none, none, none⟩

/-- what the CHECKs say about a row without defects -/
theorem defects_eq_nil {r : JobOutbox} (h : r.defects = []) :
    (r.publishedAt = none ∨ r.leaseExpiresAt = none) ∧ (r.failedAt = none ∨ r.leaseExpiresAt = none) ∧
      (r.publishedAt = none ∨ r.failedAt = none) := by
  simp only [defects, List.append_eq_nil_iff, checkThat_eq_nil] at h
  obtain ⟨⟨⟨⟨⟨⟨⟨-, h1⟩, h2⟩, h3⟩, -⟩, -⟩, -⟩, -⟩ := h
  refine ⟨h1, h2, ?_⟩
  by_cases hp : r.publishedAt = none
  · exact .inl hp
  · right; by_contra hf; exact h3 ⟨hp, hf⟩

end JobOutbox

/-! ## `OutboxRepository` -/

abbrev Outbox := List JobOutbox

abbrev DbError := List Violation

/-- `enqueue`; the primary key refuses an identifier in use -/
def enqueue (jobId : Uuid) (jobType : String) (aggregateId : Uuid) (payload : Payload) (t : Time) (o : Outbox) :
    Except DbError Outbox :=
  if jobId ∈ o.map (·.id) then .error [.unique "pk_job_outbox"]
  else insertRow JobOutbox.defects (.new jobId jobType aggregateId payload t) o

/-- `discard_pending_for_aggregate` -/
def discardPendingForAggregate (jobType : String) (aggregateId : Uuid) (failedAt : Time) (failureCode : String)
    (o : Outbox) : Except DbError (Outbox × ℕ) :=
  updateWhere JobOutbox.defects (fun r => r.jobType = jobType ∧ r.aggregateId = aggregateId ∧ r.Pending)
    (fun r => { r with failedAt := some failedAt, failureCode := some failureCode }) o

/-- `ORDER BY created_at, id` -/
def createdBefore (r r' : JobOutbox) : Prop := r.createdAt < r'.createdAt ∨ (r.createdAt = r'.createdAt ∧ r.id ≤ r'.id)

instance : DecidableRel createdBefore := fun _ _ => inferInstanceAs (Decidable (_ ∨ _))

/-- the common table expression of `claim_unpublished_batch`: the first `limit` claimable rows that no other
transaction has locked (`FOR UPDATE SKIP LOCKED`) -/
def claimCandidates (limit : ℕ) (t : Time) (locked : List Uuid) (o : Outbox) : List Uuid :=
  (((o.filter fun r => r.Claimable t ∧ r.id ∉ locked).insertionSort createdBefore).take limit).map (·.id)

/-- a claimed job, as `RETURNING` yields it -/
structure ClaimedOutboxJob where
  id : Uuid
  jobType : String
  aggregateId : Uuid
  payload : Payload
  attemptNumber : ℕ
  leaseExpiresAt : Time
deriving DecidableEq, Repr

/-- the SET clause of `claim_unpublished_batch` -/
def JobOutbox.claimedUntil (now lease : Time) (r : JobOutbox) : JobOutbox :=
  { r with attemptCount := r.attemptCount + 1, claimedAt := some now, leaseExpiresAt := some lease }

/-- `claim_unpublished_batch` at database time `t` -/
def claimUnpublishedBatch (limit : ℕ) (now lease t : Time) (locked : List Uuid) (o : Outbox) :
    Except DbError (Outbox × List ClaimedOutboxJob) :=
  let candidates := claimCandidates limit t locked o
  match updateWhere JobOutbox.defects (fun r => r.id ∈ candidates) (JobOutbox.claimedUntil now lease) o with
  | .error e => .error e
  | .ok (o', _) => .ok (o', (o.filter fun r => r.id ∈ candidates).map fun r =>
      ⟨r.id, r.jobType, r.aggregateId, r.payload, r.attemptCount + 1, lease⟩)

/-- the conditional UPDATE shared by the three statements of a publisher that holds a claim -/
def updateOwned (jobId : Uuid) (a : ℕ) (t : Time) (f : JobOutbox → JobOutbox) (o : Outbox) :
    Except DbError (Outbox × Bool) :=
  match updateWhere JobOutbox.defects (fun r => r.id = jobId ∧ r.OwnedBy a t) f o with
  | .error e => .error e
  | .ok (o', n) => .ok (o', n == 1)

def markPublished (jobId : Uuid) (a : ℕ) (publishedAt t : Time) : Outbox → Except DbError (Outbox × Bool) :=
  updateOwned jobId a t fun r =>
    { r with publishedAt := some publishedAt, claimedAt := none, leaseExpiresAt := none, lastError := none }

def markFailed (jobId : Uuid) (a : ℕ) (failedAt : Time) (failureCode : String) (t : Time) :
    Outbox → Except DbError (Outbox × Bool) :=
  updateOwned jobId a t fun r =>
    { r with failedAt := some failedAt, failureCode := some failureCode, claimedAt := none, leaseExpiresAt := none,
             lastError := none }

def releasePublishClaim (jobId : Uuid) (a : ℕ) (errorCode : String) (t : Time) :
    Outbox → Except DbError (Outbox × Bool) :=
  updateOwned jobId a t fun r => { r with claimedAt := none, leaseExpiresAt := none, lastError := some errorCode }

/-! ## What the statements do -/

theorem enqueue_ok {jobId agg : Uuid} {ty : String} {pl : Payload} {t : Time} {o o' : Outbox} :
    enqueue jobId ty agg pl t o = .ok o' ↔
      jobId ∉ o.map (·.id) ∧ FitsText (some 100) ty ∧ o' = o ++ [.new jobId ty agg pl t] := by
  unfold enqueue
  split_ifs with h
  · exact iff_of_false (by simp) fun hn => hn.1 h
  · rw [insertRow_ok]
    simp [JobOutbox.defects, JobOutbox.new, h]

/-- discarding a pending row: its lease stays, so a leased row cannot become failed -/
theorem discarded_defects {r : JobOutbox} {f : Time} {code : String} (hr : r.defects = []) (hp : r.Pending)
    (hc : NonBlank code) (hfit : FitsText (some 100) code) :
    ({ r with failedAt := some f, failureCode := some code } : JobOutbox).defects = [] ↔ r.leaseExpiresAt = none := by
  simp only [JobOutbox.defects, List.append_eq_nil_iff, checkThat_eq_nil] at hr ⊢
  obtain ⟨⟨⟨⟨⟨⟨⟨h0, -⟩, -⟩, -⟩, -⟩, h5⟩, -⟩, h7⟩ := hr
  constructor
  · rintro ⟨⟨⟨⟨⟨⟨-, h2⟩, -⟩, -⟩, -⟩, -⟩, -⟩
    simpa using h2
  · intro hl
    exact ⟨⟨⟨⟨⟨⟨⟨h0, .inr hl⟩, .inr hl⟩, fun h => h.1 hp.1⟩, .inr ⟨by simp, code, rfl, hc⟩⟩, h5⟩,
      textColumn_some.2 hfit⟩, h7⟩

/-- Discarding the pending rows of an aggregate is accepted iff none of them is leased. -/
theorem discard_ok {ty : String} {agg : Uuid} {f : Time} {code : String} {o o' : Outbox} {n : ℕ}
    (ho : ∀ r ∈ o, r.defects = []) (hc : NonBlank code) (hfit : FitsText (some 100) code) :
    discardPendingForAggregate ty agg f code o = .ok (o', n) ↔
      (∀ r ∈ o, r.jobType = ty → r.aggregateId = agg → r.Pending → r.leaseExpiresAt = none) ∧
      o' = mapWhere (fun r => r.jobType = ty ∧ r.aggregateId = agg ∧ r.Pending)
        (fun r => { r with failedAt := some f, failureCode := some code }) o ∧
      n = o.countP (fun r => r.jobType = ty ∧ r.aggregateId = agg ∧ r.Pending) := by
  rw [discardPendingForAggregate, updateWhere_ok]
  refine and_congr_left fun _ => forall_congr' fun r => forall_congr' fun hr => ?_
  constructor
  · intro h hty hagg hp
    exact (discarded_defects (ho r hr) hp hc hfit).1 (h ⟨hty, hagg, hp⟩)
  · rintro h ⟨hty, hagg, hp⟩
    exact (discarded_defects (ho r hr) hp hc hfit).2 (h hty hagg hp)

theorem mem_claimCandidates {limit : ℕ} {t : Time} {locked : List Uuid} {o : Outbox} {i : Uuid}
    (h : i ∈ claimCandidates limit t locked o) : ∃ r ∈ o, r.id = i ∧ r.Claimable t ∧ r.id ∉ locked := by
  obtain ⟨r, hr, rfl⟩ := List.mem_map.1 h
  have hr' := (List.mem_insertionSort _).1 (List.mem_of_mem_take hr)
  obtain ⟨hm, hc⟩ := List.mem_filter.1 hr'
  exact ⟨r, hm, rfl, of_decide_eq_true hc⟩

/-- a limit that is not below the number of rows leaves no claimable row out -/
theorem claimCandidates_all {limit : ℕ} {t : Time} {o : Outbox} (hl : o.length ≤ limit) {r : JobOutbox} (hr : r ∈ o)
    (hc : r.Claimable t) : r.id ∈ claimCandidates limit t [] o := by
  unfold claimCandidates
  rw [List.take_of_length_le]
  · exact List.mem_map_of_mem ((List.mem_insertionSort _).2 (List.mem_filter.2 ⟨hr, by simp [hc]⟩))
  · rw [List.length_insertionSort]
    exact (List.length_filter_le _ _).trans hl

/-- **Claiming.** Every row of the new table is an old row, or a claimable old row under its next attempt; the jobs
returned are exactly the claimed rows. -/
theorem claimBatch_row {limit : ℕ} {now lease t : Time} {locked : List Uuid} {o o' : Outbox}
    {jobs : List ClaimedOutboxJob} (hid : (o.map (·.id)).Nodup)
    (h : claimUnpublishedBatch limit now lease t locked o = .ok (o', jobs)) :
    o' = mapWhere (fun r => r.id ∈ claimCandidates limit t locked o) (JobOutbox.claimedUntil now lease) o ∧
    (∀ r ∈ o, r.id ∈ claimCandidates limit t locked o → r.Claimable t) ∧
    (∀ j, j ∈ jobs ↔ ∃ r ∈ o, r.id ∈ claimCandidates limit t locked o ∧
      j = ⟨r.id, r.jobType, r.aggregateId, r.payload, r.attemptCount + 1, lease⟩) := by
  unfold claimUnpublishedBatch at h
  simp only at h
  split at h
  · cases h
  · next heq =>
    cases h
    refine ⟨(updateWhere_ok.1 heq).2.1, fun r hr hc => ?_, fun j => ?_⟩
    · obtain ⟨r', hr', he, hcl, -⟩ := mem_claimCandidates hc
      have : r' = r := List.inj_on_of_nodup_map hid hr' hr he
      exact this ▸ hcl
    · simp only [List.mem_map, List.mem_filter, decide_eq_true_eq]
      constructor
      · rintro ⟨r, ⟨hr, hc⟩, rfl⟩; exact ⟨r, hr, hc, rfl⟩
      · rintro ⟨r, hr, hc, rfl⟩; exact ⟨r, ⟨hr, hc⟩, rfl⟩

theorem claimBatch_defects {limit : ℕ} {now lease t : Time} {locked : List Uuid} {o o' : Outbox}
    {jobs : List ClaimedOutboxJob} (h : claimUnpublishedBatch limit now lease t locked o = .ok (o', jobs))
    (ho : ∀ r ∈ o, r.defects = []) : ∀ r ∈ o', r.defects = [] := by
  unfold claimUnpublishedBatch at h
  simp only at h
  split at h
  · cases h
  · next heq => cases h; exact updateWhere_keeps heq ho

/-- **A statement of a publisher** that reports success changed exactly the row it names, which its attempt owned;
otherwise nothing changed. -/
theorem updateOwned_ok {jobId : Uuid} {a : ℕ} {t : Time} {f : JobOutbox → JobOutbox} {o o' : Outbox} {b : Bool}
    (hid : (o.map (·.id)).Nodup) (h : updateOwned jobId a t f o = .ok (o', b)) :
    o' = mapWhere (fun r => r.id = jobId ∧ r.OwnedBy a t) f o ∧ (b = true ↔ ∃ r ∈ o, r.id = jobId ∧ r.OwnedBy a t) := by
  unfold updateOwned at h
  split at h
  · cases h
  · next heq =>
    cases h
    obtain ⟨-, rfl, rfl⟩ := updateWhere_ok.1 heq
    refine ⟨rfl, ?_⟩
    constructor
    · intro hb
      have h1 := beq_iff_eq.1 hb
      obtain ⟨r, hr, hp⟩ := List.countP_pos_iff.1 (by rw [h1]; exact Nat.one_pos)
      exact ⟨r, hr, by simpa using hp⟩
    · rintro ⟨r, hr, hp⟩
      rw [countP_eq_one hid (fun x _ hx => hx.1) hr hp]
      rfl

end AtlasRag.Jobs
