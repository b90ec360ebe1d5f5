/-
The outbox publisher: any number of interleaved `publish_pending` runs over one outbox table.

A run claims a batch in one transaction, then for each claimed job dispatches its task outside any transaction and
records the outcome in a transaction of its own: published, released after a failed dispatch, or failed when the job type
is unknown. Each of these transactions is one UPDATE, so it is one step here; it reads the database time at which its
transaction began, which is any time. Rows that another transaction has locked are skipped by a claim (`locked`). A run
may crash between any two steps (`crash`), and a transaction that the database refuses ends its run as well.

Results:
- `published_dispatched`: a published row was dispatched, with its own task and payload, under the attempt that marked it;
- `terminal_stable`, `terminal_not_claimed`: a terminal row never changes and is never claimed again;
- `pending_claimable`: a pending row can be claimed as soon as its lease, if it has one, has expired;
- `Inv.counts`: the counters of a run account for every job it has dealt with.
-/
import AtlasRag.Lib.Run
import AtlasRag.Jobs.Outbox

namespace AtlasRag.Jobs.Publisher

open AtlasRag.Lib AtlasRag.Lib.Table AtlasRag.Platform

/-! ## Model -/

def INGESTION_PROCESS_TASK_NAME : String := "atlasrag.ingestion.process"

/-- `TASK_BY_JOB_TYPE` -/
def taskByJobType (jobType : String) : Option String :=
  if jobType = PROCESS_INGESTION_ITEM then some INGESTION_PROCESS_TASK_NAME
  else if jobType = "ingestion.process_item" then some INGESTION_PROCESS_TASK_NAME
  else none

def UNKNOWN_JOB_TYPE_FAILURE_CODE : String := "unknown_job_type"

structure OutboxPublishReport where
  claimed : ℕ
  published : ℕ
  dispatchFailures : ℕ
  unknownJobTypes : ℕ
  unconfirmedPublications : ℕ
  unconfirmedTerminalFailures : ℕ
deriving DecidableEq, Repr

/-- what a run has to do next with the job at the head of its batch -/
inductive Phase where
  | look
  /-- the dispatch completed; `_mark_published` is next -/
  | dispatched
  /-- the dispatch raised an error of this type; `_release_claim` is next -/
  | raised (error : String)
deriving DecidableEq, Repr

/-- a live `publish_pending` call: the jobs left, and the report so far -/
structure PublishRun where
  jobs : List ClaimedOutboxJob
  phase : Phase
  report : OutboxPublishReport
deriving DecidableEq, Repr

def PublishRun.start (jobs : List ClaimedOutboxJob) : PublishRun := ⟨jobs, .look, ⟨jobs.length, 0, 0, 0, 0, 0⟩⟩

/-- the loop goes on with the next job -/
def PublishRun.next (r : PublishRun) (report : OutboxPublishReport) : PublishRun := ⟨r.jobs.tail, .look, report⟩

/-- a dispatch that returned: the job, the attempt it was claimed under, and what was sent -/
structure Dispatch where
  jobId : Uuid
  attempt : ℕ
  taskName : String
  payload : Payload
deriving DecidableEq, Repr

structure St where
  outbox : Outbox
  runs : ℕ → Option PublishRun
  /-- completed dispatches -/
  dispatches : List Dispatch
  /-- the attempts handed out, by job -/
  claims : List (Uuid × ℕ)
  /-- the reports of the runs that returned -/
  reports : List OutboxPublishReport

def init (o : Outbox) : St := ⟨o, fun _ => none, [], [], []⟩

inductive Op where
  | enqueue (jobId : Uuid) (jobType : String) (aggregateId : Uuid) (payload : Payload) (t : Time)
  | claim (i limit : ℕ) (now t : Time) (locked : List Uuid)
  /-- the dispatch of the current job returns (`none`) or raises an error of the given type -/
  | dispatch (i : ℕ) (error : Option String)
  /-- the transaction that records the outcome of the current job -/
  | record (i : ℕ) (now t : Time)
  | finish (i : ℕ)
  | crash (i : ℕ)
deriving Repr

def St.setRun (s : St) (i : ℕ) (r : Option PublishRun) : St := { s with runs := Function.update s.runs i r }

/-- the transaction with which a run leaves its current job `j`, and its report afterwards -/
def PublishRun.record (r : PublishRun) (j : ClaimedOutboxJob) (now t : Time) (o : Outbox) :
    Except DbError (Outbox × OutboxPublishReport) :=
  match r.phase with
  | .dispatched =>
    match markPublished j.id j.attemptNumber now t o with
    | .error e => .error e
    | .ok (o', true) => .ok (o', { r.report with published := r.report.published + 1 })
    | .ok (o', false) =>
      .ok (o', { r.report with unconfirmedPublications := r.report.unconfirmedPublications + 1 })
  | .raised error =>
    match releasePublishClaim j.id j.attemptNumber ("dispatch_failed:" ++ error) t o with
    | .error e => .error e
    | .ok (o', _) => .ok (o', { r.report with dispatchFailures := r.report.dispatchFailures + 1 })
  | .look =>
    match markFailed j.id j.attemptNumber now UNKNOWN_JOB_TYPE_FAILURE_CODE t o with
    | .error e => .error e
    | .ok (o', marked) => .ok (o', { r.report with
        unknownJobTypes := r.report.unknownJobTypes + 1,
        unconfirmedTerminalFailures := r.report.unconfirmedTerminalFailures + if marked then 0 else 1 })

/-- a run looks at a job of known type only to dispatch it -/
def PublishRun.mayRecord (r : PublishRun) (j : ClaimedOutboxJob) : Bool :=
  r.phase != .look || (taskByJobType j.jobType).isNone

/-- `d` is the lease duration -/
def step (d : Time) (s : St) : Op → St
  | .enqueue jobId ty agg pl t =>
    match enqueue jobId ty agg pl t s.outbox with
    | .error _ => s
    | .ok o => { s with outbox := o }
  | .claim i limit now t locked =>
    match s.runs i with
    | some _ => s
    | none =>
      match claimUnpublishedBatch limit now (now + d) t locked s.outbox with
      | .error _ => s
      | .ok (o, jobs) =>
        { s with outbox := o, runs := Function.update s.runs i (some (.start jobs)),
                 claims := s.claims ++ jobs.map fun j => (j.id, j.attemptNumber) }
  | .dispatch i error =>
    match s.runs i with
    | some ⟨j :: js, .look, report⟩ =>
      match taskByJobType j.jobType, error with
      | none, _ => s
      | some task, none =>
        { s with runs := Function.update s.runs i (some ⟨j :: js, .dispatched, report⟩),
                 dispatches := s.dispatches ++ [⟨j.id, j.attemptNumber, task, j.payload⟩] }
      | some _, some e => s.setRun i (some ⟨j :: js, .raised e, report⟩)
    | _ => s
  | .record i now t =>
    match s.runs i with
    | some ⟨j :: js, phase, report⟩ =>
      let r : PublishRun := ⟨j :: js, phase, report⟩
      if r.mayRecord j then
        match r.record j now t s.outbox with
        | .error _ => s.setRun i none
        | .ok (o, report') => { s with outbox := o, runs := Function.update s.runs i (some (r.next report')) }
      else s
    | _ => s
  | .finish i =>
    match s.runs i with
    | some ⟨[], _, report⟩ => { s.setRun i none with reports := s.reports ++ [report] }
    | _ => s
  | .crash i => s.setRun i none

/-! ## What a step can do -/

/-- **One step.** Either the outbox and the claims stay, or a row is added, or a batch is claimed, or one run records the
outcome of its current job. -/
inductive StepCase (d : Time) (s : St) : St → Prop where
  | same {s' : St} (ho : s'.outbox = s.outbox) (hc : s'.claims = s.claims) (hr : s'.reports = s.reports)
      (hd : s'.dispatches = s.dispatches)
      (hrun : ∀ i r, s'.runs i = some r → s.runs i = some r ∨
        ∃ r₀ e, s.runs i = some r₀ ∧ r₀.jobs ≠ [] ∧ r = { r₀ with phase := .raised e }) : StepCase d s s'
  | enqueue {jobId : Uuid} {ty : String} {agg : Uuid} {pl : Payload} {t : Time} {o : Outbox}
      (h : enqueue jobId ty agg pl t s.outbox = .ok o) : StepCase d s { s with outbox := o }
  | claim {i limit : ℕ} {now t : Time} {locked : List Uuid} {o : Outbox} {jobs : List ClaimedOutboxJob}
      (hi : s.runs i = none) (h : claimUnpublishedBatch limit now (now + d) t locked s.outbox = .ok (o, jobs)) :
      StepCase d s { s with outbox := o, runs := Function.update s.runs i (some (.start jobs)),
                            claims := s.claims ++ jobs.map fun j => (j.id, j.attemptNumber) }
  | dispatched {i : ℕ} {j : ClaimedOutboxJob} {js : List ClaimedOutboxJob} {report : OutboxPublishReport} {task : String}
      (hi : s.runs i = some ⟨j :: js, .look, report⟩) (ht : taskByJobType j.jobType = some task) :
      StepCase d s { s with runs := Function.update s.runs i (some ⟨j :: js, .dispatched, report⟩),
                            dispatches := s.dispatches ++ [⟨j.id, j.attemptNumber, task, j.payload⟩] }
  | record {i : ℕ} {j : ClaimedOutboxJob} {js : List ClaimedOutboxJob} {r : PublishRun} {now t : Time} {o : Outbox}
      {report : OutboxPublishReport} (hi : s.runs i = some r) (hj : r.jobs = j :: js)
      (h : r.record j now t s.outbox = .ok (o, report)) :
      StepCase d s { s with outbox := o, runs := Function.update s.runs i (some (r.next report)) }
  | finish {i : ℕ} {r : PublishRun} (hi : s.runs i = some r) (hj : r.jobs = []) :
      StepCase d s { s.setRun i none with reports := s.reports ++ [r.report] }

theorem runs_setRun_none {s : St} {i k : ℕ} {r : PublishRun} (h : (s.setRun i none).runs k = some r) :
    s.runs k = some r := by
  simp only [St.setRun, Function.update_apply] at h
  split_ifs at h
  exact h

theorem StepCase.ended (d : Time) (s : St) (i : ℕ) : StepCase d s (s.setRun i none) :=
  .same rfl rfl rfl rfl fun _ _ h => .inl (runs_setRun_none h)

theorem StepCase.refl (d : Time) (s : St) : StepCase d s s := .same rfl rfl rfl rfl fun _ _ h => .inl h

theorem step_cases (d : Time) (s : St) (o : Op) : StepCase d s (step d s o) := by
  cases o with
  | enqueue jobId ty agg pl t =>
    simp only [step]
    split
    · exact .refl d s
    · next h => exact .enqueue h
  | claim i limit now t locked =>
    simp only [step]
    split
    · exact .refl d s
    · next hi =>
      split
      · exact .refl d s
      · next h => exact .claim hi h
  | dispatch i error =>
    simp only [step]
    split
    · next j js report hi =>
      split
      · exact .refl d s
      · next ht => exact .dispatched hi ht
      · next e _ =>
        refine .same rfl rfl rfl rfl fun k r h => ?_
        simp only [St.setRun, Function.update_apply] at h
        split_ifs at h with hk
        · subst hk; cases h
          exact .inr ⟨_, e, hi, by simp, rfl⟩
        · exact .inl h
    · exact .refl d s
  | record i now t =>
    simp only [step]
    split
    · next j js phase report hi =>
      split_ifs
      · split
        · exact .ended d s i
        · next h => exact .record hi rfl h
      · exact .refl d s
    · exact .refl d s
  | finish i =>
    simp only [step]
    split
    · next hi => exact .finish hi rfl
    · exact .refl d s
  | crash i => exact .ended d s i

/-- **Recording an outcome**: the row of the job, if its attempt still owns it, is published, released or failed; the
other rows stay. -/
theorem record_ok {r : PublishRun} {j : ClaimedOutboxJob} {now t : Time} {o o' : Outbox} {report : OutboxPublishReport}
    (hid : (o.map (·.id)).Nodup) (h : r.record j now t o = .ok (o', report)) :
    (∃ f : JobOutbox → JobOutbox, o' = mapWhere (fun x => x.id = j.id ∧ x.OwnedBy j.attemptNumber t) f o ∧
      (∀ x, (f x).id = x.id ∧ (f x).jobType = x.jobType ∧ (f x).payload = x.payload ∧
        (f x).aggregateId = x.aggregateId ∧ (f x).attemptCount = x.attemptCount) ∧
      (∀ x, (f x).publishedAt ≠ x.publishedAt → r.phase = .dispatched)) ∧
    report.claimed = r.report.claimed ∧
    report.published + report.dispatchFailures + report.unknownJobTypes + report.unconfirmedPublications =
      r.report.published + r.report.dispatchFailures + r.report.unknownJobTypes + r.report.unconfirmedPublications + 1 := by
  unfold PublishRun.record at h
  split at h
  · next hph =>
    split at h
    · cases h
    · next hm =>
      cases h
      refine ⟨⟨_, (updateOwned_ok hid hm).1, fun _ => ⟨rfl, rfl, rfl, rfl, rfl⟩, fun _ _ => hph⟩, rfl, ?_⟩
      simp only; omega
    · next hm =>
      cases h
      refine ⟨⟨_, (updateOwned_ok hid hm).1, fun _ => ⟨rfl, rfl, rfl, rfl, rfl⟩, fun _ _ => hph⟩, rfl, ?_⟩
      simp only; omega
  · split at h
    · cases h
    · next hm =>
      cases h
      refine ⟨⟨_, (updateOwned_ok hid hm).1, fun _ => ⟨rfl, rfl, rfl, rfl, rfl⟩, fun _ hx => absurd rfl hx⟩, rfl, ?_⟩
      simp only; omega
  · split at h
    · cases h
    · next hm =>
      cases h
      refine ⟨⟨_, (updateOwned_ok hid hm).1, fun _ => ⟨rfl, rfl, rfl, rfl, rfl⟩, fun _ hx => absurd rfl hx⟩, rfl, ?_⟩
      simp only; omega

theorem record_defects {r : PublishRun} {j : ClaimedOutboxJob} {now t : Time} {o o' : Outbox}
    {report : OutboxPublishReport} (h : r.record j now t o = .ok (o', report)) (ho : ∀ x ∈ o, x.defects = []) :
    ∀ x ∈ o', x.defects = [] := by
  have key : ∀ f b, updateOwned j.id j.attemptNumber t f o = .ok (o', b) → ∀ x ∈ o', x.defects = [] := by
    intro f b hu
    unfold updateOwned at hu
    split at hu
    · cases hu
    · next heq => cases hu; exact updateWhere_keeps heq ho
  unfold PublishRun.record at h
  split at h
  all_goals
    split at h
    all_goals first
      | (cases h; done)
      | (next hm => cases h; exact key _ _ hm)

/-- the operations of the publisher itself -/
def Op.isEnqueue : Op → Bool
  | .enqueue .. => true
  | _ => false

/-- the columns of a row that no statement of the publisher changes -/
def fixedColumns (x : JobOutbox) : Uuid × String × Uuid × Payload := (x.id, x.jobType, x.aggregateId, x.payload)

/-- **What the publisher does to the table**: every row keeps its fixed columns, and stays admissible. -/
theorem step_rows (d : Time) {s : St} (o : Op) (hen : o.isEnqueue = false) (hid : (s.outbox.map (·.id)).Nodup)
    (hv : ∀ x ∈ s.outbox, x.defects = []) :
    (step d s o).outbox.map fixedColumns = s.outbox.map fixedColumns ∧ ∀ x ∈ (step d s o).outbox, x.defects = [] := by
  cases o with
  | enqueue => cases hen
  | claim i limit now t locked =>
    simp only [step]
    split
    · exact ⟨rfl, hv⟩
    · split
      · exact ⟨rfl, hv⟩
      · next hc =>
        obtain ⟨ho, -, -⟩ := claimBatch_row hid hc
        refine ⟨?_, claimBatch_defects hc hv⟩
        show List.map _ _ = _
        rw [ho]
        exact map_mapWhere _ fun _ => rfl
  | dispatch i error =>
    simp only [step]
    split
    · split <;> exact ⟨rfl, hv⟩
    · exact ⟨rfl, hv⟩
  | record i now t =>
    simp only [step]
    split
    · split_ifs
      · split
        · exact ⟨rfl, hv⟩
        · next hr =>
          obtain ⟨⟨f, ho, hf, -⟩, -, -⟩ := record_ok hid hr
          refine ⟨?_, record_defects hr hv⟩
          show List.map _ _ = _
          rw [ho]
          refine map_mapWhere _ fun x => ?_
          obtain ⟨h1, h2, h3, h4, -⟩ := hf x
          simp only [fixedColumns, h1, h2, h3, h4]
      · exact ⟨rfl, hv⟩
    · exact ⟨rfl, hv⟩
  | finish i =>
    simp only [step]
    split <;> exact ⟨rfl, hv⟩
  | crash i => exact ⟨rfl, hv⟩

/-! ## The invariant -/

/-- the row's own task and payload were dispatched under its current attempt, and the dispatch returned -/
def Sent (s : St) (x : JobOutbox) : Prop :=
  ∃ task, taskByJobType x.jobType = some task ∧ ⟨x.id, x.attemptCount, task, x.payload⟩ ∈ s.dispatches

def OutboxPublishReport.settled (p : OutboxPublishReport) : ℕ :=
  p.published + p.dispatchFailures + p.unknownJobTypes + p.unconfirmedPublications

/-- `o'` still has every row of `o`, under the same job type and payload -/
def Keeps (o o' : Outbox) : Prop :=
  ∀ x ∈ o, ∃ x' ∈ o', x'.id = x.id ∧ x'.jobType = x.jobType ∧ x'.payload = x.payload

structure Inv (o₀ : Outbox) (s : St) : Prop where
  ids : (s.outbox.map (·.id)).Nodup
  valid : ∀ x ∈ s.outbox, x.defects = []
  kept : Keeps o₀ s.outbox
  job : ∀ i r, s.runs i = some r → ∀ j ∈ r.jobs, (j.id, j.attemptNumber) ∈ s.claims ∧
    ∃ x ∈ s.outbox, x.id = j.id ∧ x.jobType = j.jobType ∧ x.payload = j.payload
  sent : ∀ i r, s.runs i = some r → r.phase = .dispatched → ∃ j js task, r.jobs = j :: js ∧
    taskByJobType j.jobType = some task ∧ ⟨j.id, j.attemptNumber, task, j.payload⟩ ∈ s.dispatches
  dispatched : ∀ e ∈ s.dispatches, (e.jobId, e.attempt) ∈ s.claims
  published : ∀ x ∈ s.outbox, x.publishedAt ≠ none →
    (∃ x₀ ∈ o₀, x₀.id = x.id ∧ x₀.publishedAt ≠ none) ∨ Sent s x
  counts : ∀ i r, s.runs i = some r → r.report.claimed = r.report.settled + r.jobs.length
  reports : ∀ p ∈ s.reports, p.claimed = p.settled

theorem Keeps.refl (o : Outbox) : Keeps o o := fun x hx => ⟨x, hx, rfl, rfl, rfl⟩

theorem Keeps.trans {o o' o'' : Outbox} (h : Keeps o o') (h' : Keeps o' o'') : Keeps o o'' := by
  intro x hx
  obtain ⟨y, hy, h1, h2, h3⟩ := h x hx
  obtain ⟨z, hz, k1, k2, k3⟩ := h' y hy
  exact ⟨z, hz, k1.trans h1, k2.trans h2, k3.trans h3⟩

theorem Keeps.mapWhere {p : JobOutbox → Prop} [DecidablePred p] {f : JobOutbox → JobOutbox}
    (hf : ∀ x, (f x).id = x.id ∧ (f x).jobType = x.jobType ∧ (f x).payload = x.payload) (o : Outbox) :
    Keeps o (mapWhere p f o) := by
  intro x hx
  by_cases hp : p x
  · exact ⟨f x, mem_mapWhere.2 (.inl ⟨x, hx, hp, rfl⟩), hf x⟩
  · exact ⟨x, mem_mapWhere.2 (.inr ⟨hx, hp⟩), rfl, rfl, rfl⟩

/-- the jobs of a run keep their rows -/
theorem Keeps.job {o o' : Outbox} (h : Keeps o o') {j : ClaimedOutboxJob}
    (hj : ∃ x ∈ o, x.id = j.id ∧ x.jobType = j.jobType ∧ x.payload = j.payload) :
    ∃ x ∈ o', x.id = j.id ∧ x.jobType = j.jobType ∧ x.payload = j.payload := by
  obtain ⟨x, hx, h1, h2, h3⟩ := hj
  obtain ⟨y, hy, k1, k2, k3⟩ := h x hx
  exact ⟨y, hy, k1.trans h1, k2.trans h2, k3.trans h3⟩

theorem inv_init {o : Outbox} (hid : (o.map (·.id)).Nodup) (ho : ∀ x ∈ o, x.defects = []) : Inv o (init o) where
  ids := hid
  valid := ho
  kept := .refl o
  job _ _ h := by simp [init] at h
  sent _ _ h := by simp [init] at h
  dispatched _ h := by simp [init] at h
  published x hx hp := .inl ⟨x, hx, rfl, hp⟩
  counts _ _ h := by simp [init] at h
  reports _ h := by simp [init] at h

theorem Inv.enqueue {o₀ : Outbox} {s : St} (h : Inv o₀ s) {jobId agg : Uuid} {ty : String} {pl : Payload} {t : Time}
    {o : Outbox} (he : enqueue jobId ty agg pl t s.outbox = .ok o) : Inv o₀ { s with outbox := o } := by
  obtain ⟨hnew, hfit, rfl⟩ := enqueue_ok.1 he
  have hk : Keeps s.outbox (s.outbox ++ [.new jobId ty agg pl t]) :=
    fun x hx => ⟨x, List.mem_append_left _ hx, rfl, rfl, rfl⟩
  refine { h with ids := ?_, valid := ?_, kept := h.kept.trans hk, job := ?_, published := ?_ }
  · rw [List.map_append, List.nodup_append]
    refine ⟨h.ids, by simp, ?_⟩
    intro a ha b hb
    obtain rfl : b = jobId := by simpa [JobOutbox.new] using hb
    exact fun hab => hnew (hab ▸ ha)
  · intro x hx
    rcases List.mem_append.1 hx with hx | hx
    · exact h.valid x hx
    · obtain rfl := List.mem_singleton.1 hx
      simp [JobOutbox.defects, JobOutbox.new, hfit]
  · intro i r hi j hj
    obtain ⟨h1, h2⟩ := h.job i r hi j hj
    exact ⟨h1, hk.job h2⟩
  · intro x hx hp
    rcases List.mem_append.1 hx with hx | hx
    · exact h.published x hx hp
    · obtain rfl := List.mem_singleton.1 hx
      exact absurd rfl hp

theorem Inv.claim {o₀ : Outbox} {s : St} (h : Inv o₀ s) {i limit : ℕ} {now lease t : Time} {locked : List Uuid}
    {o : Outbox} {jobs : List ClaimedOutboxJob}
    (hc : claimUnpublishedBatch limit now lease t locked s.outbox = .ok (o, jobs)) :
    Inv o₀ { s with outbox := o, runs := Function.update s.runs i (some (.start jobs)),
                    claims := s.claims ++ jobs.map fun j => (j.id, j.attemptNumber) } := by
  obtain ⟨ho, hcl, hjobs⟩ := claimBatch_row h.ids hc
  have hk : Keeps s.outbox o := ho ▸ Keeps.mapWhere (f := JobOutbox.claimedUntil now lease) (fun _ => ⟨rfl, rfl, rfl⟩) _
  refine { ids := ?_, valid := ?_, kept := h.kept.trans hk, job := ?_, sent := ?_, dispatched := ?_, published := ?_,
           counts := ?_, reports := h.reports }
  · show (o.map (·.id)).Nodup
    rw [ho, map_mapWhere (f := JobOutbox.claimedUntil now lease) _ fun _ => rfl]
    exact h.ids
  · exact claimBatch_defects hc h.valid
  · intro k r hr j hj
    simp only [Function.update_apply] at hr
    split_ifs at hr with hk'
    · cases hr
      refine ⟨List.mem_append_right _ (List.mem_map_of_mem (f := fun j => (j.id, j.attemptNumber)) hj), ?_⟩
      obtain ⟨x, hx, -, rfl⟩ := (hjobs j).1 hj
      exact hk.job ⟨x, hx, rfl, rfl, rfl⟩
    · obtain ⟨h1, h2⟩ := h.job k r hr j hj
      exact ⟨List.mem_append_left _ h1, hk.job h2⟩
  · intro k r hr hph
    simp only [Function.update_apply] at hr
    split_ifs at hr
    · cases hr; cases hph
    · exact h.sent k r hr hph
  · intro e he; exact List.mem_append_left _ (h.dispatched e he)
  · intro x hx hp
    rw [ho] at hx
    rcases mem_mapWhere.1 hx with ⟨x₁, hx₁, hp₁, rfl⟩ | ⟨hx, -⟩
    · exact absurd (hcl x₁ hx₁ hp₁).1.1 hp
    · exact h.published x hx hp
  · intro k r hr
    simp only [Function.update_apply] at hr
    split_ifs at hr
    · cases hr; simp [PublishRun.start, OutboxPublishReport.settled]
    · exact h.counts k r hr

theorem Inv.dispatch {o₀ : Outbox} {s : St} (h : Inv o₀ s) {i : ℕ} {j : ClaimedOutboxJob} {js : List ClaimedOutboxJob}
    {report : OutboxPublishReport} {task : String} (hi : s.runs i = some ⟨j :: js, .look, report⟩)
    (ht : taskByJobType j.jobType = some task) :
    Inv o₀ { s with runs := Function.update s.runs i (some ⟨j :: js, .dispatched, report⟩),
                    dispatches := s.dispatches ++ [⟨j.id, j.attemptNumber, task, j.payload⟩] } := by
  refine { h with job := ?_, sent := ?_, dispatched := ?_, published := ?_, counts := ?_ }
  · intro k r hr
    simp only [Function.update_apply] at hr
    split_ifs at hr
    · cases hr; exact fun j' hj' => h.job i _ hi j' hj'
    · exact h.job k r hr
  · intro k r hr hph
    simp only [Function.update_apply] at hr
    split_ifs at hr
    · cases hr; exact ⟨j, js, task, rfl, ht, by simp⟩
    · obtain ⟨j', js', task', h1, h2, h3⟩ := h.sent k r hr hph
      exact ⟨j', js', task', h1, h2, List.mem_append_left _ h3⟩
  · intro e he
    rcases List.mem_append.1 he with he | he
    · exact h.dispatched e he
    · obtain rfl := List.mem_singleton.1 he
      exact (h.job i _ hi j (by simp)).1
  · intro x hx hp
    rcases h.published x hx hp with h0 | ⟨task', h1, h2⟩
    · exact .inl h0
    · exact .inr ⟨task', h1, List.mem_append_left _ h2⟩
  · intro k r hr
    simp only [Function.update_apply] at hr
    split_ifs at hr
    · cases hr
      have hc := h.counts i _ hi
      exact hc
    · exact h.counts k r hr

theorem Inv.record {o₀ : Outbox} {s : St} (h : Inv o₀ s) {i : ℕ} {j : ClaimedOutboxJob} {js : List ClaimedOutboxJob}
    {r : PublishRun} {now t : Time} {o : Outbox} {report : OutboxPublishReport} (hi : s.runs i = some r)
    (hj : r.jobs = j :: js) (hr : r.record j now t s.outbox = .ok (o, report)) :
    Inv o₀ { s with outbox := o, runs := Function.update s.runs i (some (r.next report)) } := by
  obtain ⟨⟨f, ho, hf, hpub⟩, hcl, hset⟩ := record_ok h.ids hr
  have hk : Keeps s.outbox o := ho ▸ Keeps.mapWhere (fun x => ⟨(hf x).1, (hf x).2.1, (hf x).2.2.1⟩) _
  have hjs : ∀ x ∈ js, x ∈ r.jobs := fun x hx => hj ▸ List.mem_cons_of_mem j hx
  refine { ids := ?_, valid := record_defects hr h.valid, kept := h.kept.trans hk, job := ?_, sent := ?_,
           dispatched := h.dispatched, published := ?_, counts := ?_, reports := h.reports }
  · rw [ho, map_mapWhere _ fun x => (hf x).1]; exact h.ids
  · intro k r' hr' j' hj'
    simp only [Function.update_apply] at hr'
    split_ifs at hr'
    · cases hr'
      obtain ⟨h1, h2⟩ := h.job i r hi j' (hjs j' (by simpa [PublishRun.next, hj] using hj'))
      exact ⟨h1, hk.job h2⟩
    · obtain ⟨h1, h2⟩ := h.job k r' hr' j' hj'
      exact ⟨h1, hk.job h2⟩
  · intro k r' hr' hph
    simp only [Function.update_apply] at hr'
    split_ifs at hr'
    · cases hr'; cases hph
    · exact h.sent k r' hr' hph
  · intro x hx hp
    rw [ho] at hx
    rcases mem_mapWhere.1 hx with ⟨x₁, hx₁, ⟨hid, hown⟩, rfl⟩ | ⟨hx, -⟩
    · -- the row of the job: it was pending, so this step published it, after a dispatch
      have hph : r.phase = .dispatched := hpub x₁ (by rw [hown.1.1]; exact hp)
      obtain ⟨j', js', task, hj', ht, hd⟩ := h.sent i r hi hph
      obtain rfl : j = j' := by rw [hj] at hj'; exact (List.cons.inj hj').1
      obtain ⟨y, hy, hyid, hyty, hypl⟩ := (h.job i r hi j (by simp [hj])).2
      have hxy : x₁ = y := List.inj_on_of_nodup_map h.ids hx₁ hy (hid.trans hyid.symm)
      subst hxy
      obtain ⟨e1, e2, e3, -, e4⟩ := hf x₁
      refine .inr ⟨task, by rw [e2, hyty]; exact ht, ?_⟩
      rw [e1, e3, e4, hid, hown.2.1, hypl]
      exact hd
    · exact h.published x hx hp
  · intro k r' hr'
    simp only [Function.update_apply] at hr'
    split_ifs at hr'
    · cases hr'
      have hc := h.counts i r hi
      simp only [hj, List.length_cons, OutboxPublishReport.settled] at hc
      simp only [PublishRun.next, hj, List.tail_cons, OutboxPublishReport.settled]
      omega
    · exact h.counts k r' hr'

theorem step_inv (d : Time) {o₀ : Outbox} {s : St} (o : Op) (h : Inv o₀ s) : Inv o₀ (step d s o) := by
  have hc := step_cases d s o
  generalize step d s o = s' at hc ⊢
  cases hc with
  | same ho hc hr hd hrun =>
    refine { ids := ho ▸ h.ids, valid := ho ▸ h.valid, kept := ho ▸ h.kept, job := ?_, sent := ?_,
             dispatched := by rw [hd, hc]; exact h.dispatched, published := ?_, counts := ?_,
             reports := hr ▸ h.reports }
    · intro i r hi
      rw [hc, ho]
      rcases hrun i r hi with h0 | ⟨r₀, e, h0, -, rfl⟩
      · exact h.job i r h0
      · exact h.job i r₀ h0
    · intro i r hi hph
      rw [hd]
      rcases hrun i r hi with h0 | ⟨r₀, e, h0, -, rfl⟩
      · exact h.sent i r h0 hph
      · cases hph
    · intro x hx hp
      rw [ho] at hx
      simpa only [Sent, hd] using h.published x hx hp
    · intro i r hi
      rcases hrun i r hi with h0 | ⟨r₀, e, h0, -, rfl⟩
      · exact h.counts i r h0
      · exact h.counts i r₀ h0
  | enqueue he => exact h.enqueue he
  | claim _ hcl => exact h.claim hcl
  | dispatched hi ht => exact h.dispatch hi ht
  | record hi hj hr => exact h.record hi hj hr
  | finish hi hj =>
    refine { h with job := fun k r hr => h.job k r (runs_setRun_none hr),
                    sent := fun k r hr => h.sent k r (runs_setRun_none hr),
                    counts := fun k r hr => h.counts k r (runs_setRun_none hr), reports := ?_ }
    intro p hp
    rcases List.mem_append.1 hp with hp | hp
    · exact h.reports p hp
    · obtain rfl := List.mem_singleton.1 hp
      simpa [hj] using h.counts _ _ hi

theorem run_inv (d : Time) {o₀ : Outbox} {s : St} (h : Run (step d) always (init o₀) s)
    (hid : (o₀.map (·.id)).Nodup) (ho : ∀ x ∈ o₀, x.defects = []) : Inv o₀ s :=
  h.inv (fun _ o _ hs => step_inv d o hs) (inv_init hid ho)

/-! ## Main results -/

/-- **A published row was dispatched** with its own task and payload, by a dispatch that returned, under the attempt
that marked it (a row that was published before the first run aside). -/
theorem published_dispatched {o₀ : Outbox} {s : St} (h : Inv o₀ s) {x : JobOutbox} (hx : x ∈ s.outbox)
    (hp : x.publishedAt ≠ none) (hnew : ∀ x₀ ∈ o₀, x₀.id = x.id → x₀.publishedAt = none) : Sent s x := by
  rcases h.published x hx hp with ⟨x₀, h0, hid, hp0⟩ | hs
  · exact absurd (hnew x₀ h0 hid) hp0
  · exact hs

/-- a terminal row survives a step unchanged, and the step claims no job of it -/
theorem step_terminal (d : Time) {o₀ : Outbox} {s : St} (o : Op) (h : Inv o₀ s) {x : JobOutbox} (hx : x ∈ s.outbox)
    (ht : ¬ x.Pending) :
    x ∈ (step d s o).outbox ∧ ∀ a, (x.id, a) ∈ (step d s o).claims → (x.id, a) ∈ s.claims := by
  have hc := step_cases d s o
  generalize step d s o = s' at hc ⊢
  cases hc with
  | same ho hc _ _ _ => exact ⟨ho ▸ hx, fun a ha => hc ▸ ha⟩
  | enqueue he =>
    obtain ⟨-, -, rfl⟩ := enqueue_ok.1 he
    exact ⟨List.mem_append_left _ hx, fun a ha => ha⟩
  | claim _ hcl =>
    obtain ⟨rfl, hclm, hjobs⟩ := claimBatch_row h.ids hcl
    refine ⟨mem_mapWhere.2 (.inr ⟨hx, fun hc => ht (hclm x hx hc).1⟩), fun a ha => ?_⟩
    rcases List.mem_append.1 ha with ha | ha
    · exact ha
    · obtain ⟨j, hj, hja⟩ := List.mem_map.1 ha
      obtain ⟨y, hy, hyc, rfl⟩ := (hjobs j).1 hj
      have hyx : y = x := List.inj_on_of_nodup_map h.ids hy hx (congrArg Prod.fst hja)
      exact absurd (hclm x hx (hyx ▸ hyc)).1 ht
  | dispatched => exact ⟨hx, fun a ha => ha⟩
  | record _ _ hr =>
    obtain ⟨⟨f, rfl, -, -⟩, -, -⟩ := record_ok h.ids hr
    exact ⟨mem_mapWhere.2 (.inr ⟨hx, fun hp => ht hp.2.1⟩), fun a ha => ha⟩
  | finish => exact ⟨hx, fun a ha => ha⟩

/-- A terminal row never changes and is never claimed again. -/
theorem terminal_stable (d : Time) {o₀ : Outbox} {s t : St} (h : Inv o₀ s) {x : JobOutbox} (hx : x ∈ s.outbox)
    (ht : ¬ x.Pending) (hr : Run (step d) always s t) :
    x ∈ t.outbox ∧ ∀ a, (x.id, a) ∈ t.claims → (x.id, a) ∈ s.claims := by
  induction hr with
  | refl => exact ⟨hx, fun _ ha => ha⟩
  | tail hr' o _ ih =>
    obtain ⟨h1, h2⟩ := step_terminal d o (hr'.inv (fun _ o _ hs => step_inv d o hs) h) ih.1 ht
    exact ⟨h1, fun a ha => ih.2 a (h2 a ha)⟩

/-- the row a claim writes is admissible when the lease is positive -/
theorem claimedUntil_defects {now lease : Time} {x : JobOutbox} (hx : x.defects = []) (hp : x.Pending)
    (hl : now < lease) : (x.claimedUntil now lease).defects = [] := by
  simp only [JobOutbox.defects, List.append_eq_nil_iff, checkThat_eq_nil] at hx ⊢
  obtain ⟨⟨⟨⟨⟨⟨⟨-, -⟩, -⟩, -⟩, h4⟩, h5⟩, h6⟩, h7⟩ := hx
  refine ⟨⟨⟨⟨⟨⟨⟨?_, .inl hp.1⟩, .inl hp.2⟩, fun h => h.1 hp.1⟩, h4⟩, h5⟩, h6⟩, h7⟩
  intro l hl'
  obtain rfl : lease = l := by simpa [JobOutbox.claimedUntil] using hl'
  exact ⟨now, rfl, hl⟩

/-- **No pending row is lost**: once its lease, if any, has expired, the next claim that can reach it takes it. -/
theorem pending_claimable {o : Outbox} (hid : (o.map (·.id)).Nodup) (ho : ∀ x ∈ o, x.defects = []) {d : Time}
    (hd : 0 < d) {x : JobOutbox} (hx : x ∈ o) (hp : x.Pending) {t : Time} (ht : ∀ l ∈ x.leaseExpiresAt, l ≤ t)
    (now : Time) {limit : ℕ} (hl : o.length ≤ limit) :
    x.Claimable t ∧ ∃ o' jobs, claimUnpublishedBatch limit now (now + d) t [] o = .ok (o', jobs) ∧
      ∃ j ∈ jobs, j.id = x.id ∧ j.attemptNumber = x.attemptCount + 1 := by
  have hc : x.Claimable t := by
    refine ⟨hp, ?_⟩
    cases hlx : x.leaseExpiresAt with
    | none => exact .inl rfl
    | some l => exact .inr ⟨l, rfl, ht l hlx⟩
  refine ⟨hc, ?_⟩
  have hdef : ∀ r ∈ o, r.id ∈ claimCandidates limit t [] o → (r.claimedUntil now (now + d)).defects = [] := by
    intro r hr hcr
    obtain ⟨r', hr', he, hcl, -⟩ := mem_claimCandidates hcr
    have hrr : r' = r := List.inj_on_of_nodup_map hid hr' hr he
    exact claimedUntil_defects (ho r hr) (hrr ▸ hcl).1 (lt_add_of_pos_right now hd)
  refine ⟨_, _, by simp only [claimUnpublishedBatch, updateWhere_ok.2 ⟨hdef, rfl, rfl⟩]; rfl, ?_⟩
  refine ⟨⟨x.id, x.jobType, x.aggregateId, x.payload, x.attemptCount + 1, now + d⟩, ?_, rfl, rfl⟩
  exact List.mem_map.2 ⟨x, List.mem_filter.2 ⟨hx, by simpa using claimCandidates_all hl hx hc⟩, rfl⟩

/-- **Publisher safety and no loss.** In every state reached by any interleaving of `publish_pending` runs, enqueues,
dispatch failures and crashes, over any admissible outbox:
(a) a row published in the run was dispatched with its task and payload under the attempt that marked it;
(b) no row is both published and failed;
(c) a terminal row never changes, is never claimed again, and every dispatch of it is one of an earlier claim;
(d) every row of the past is still there, and a pending one is claimable once its lease, if any, has expired;
(e) the counters of every report add up to the number of claimed jobs. -/
theorem publish_pending_safe (d : Time) (hd : 0 < d) (o₀ : Outbox) (hid : (o₀.map (·.id)).Nodup)
    (ho : ∀ x ∈ o₀, x.defects = []) (s : St) (hs : Run (step d) always (init o₀) s) :
    (∀ x ∈ s.outbox, x.publishedAt ≠ none → (∀ x₀ ∈ o₀, x₀.id = x.id → x₀.publishedAt = none) → Sent s x) ∧
    (∀ x ∈ s.outbox, ¬ (x.publishedAt ≠ none ∧ x.failedAt ≠ none)) ∧
    (∀ x ∈ s.outbox, ¬ x.Pending → ∀ s', Run (step d) always s s' → x ∈ s'.outbox ∧
      (∀ a, (x.id, a) ∈ s'.claims → (x.id, a) ∈ s.claims) ∧
      ∀ e ∈ s'.dispatches, e.jobId = x.id → (x.id, e.attempt) ∈ s.claims) ∧
    ((∀ x ∈ o₀, ∃ x' ∈ s.outbox, x'.id = x.id ∧ x'.jobType = x.jobType ∧ x'.payload = x.payload) ∧
      ∀ x ∈ s.outbox, x.Pending → ∀ t, (∀ l ∈ x.leaseExpiresAt, l ≤ t) → ∀ now limit, s.outbox.length ≤ limit →
        x.Claimable t ∧ ∃ o' jobs, claimUnpublishedBatch limit now (now + d) t [] s.outbox = .ok (o', jobs) ∧
          ∃ j ∈ jobs, j.id = x.id ∧ j.attemptNumber = x.attemptCount + 1) ∧
    (∀ p ∈ s.reports,
      p.claimed = p.published + p.dispatchFailures + p.unknownJobTypes + p.unconfirmedPublications) := by
  have h := run_inv d hs hid ho
  refine ⟨fun x hx hp hnew => published_dispatched h hx hp hnew, fun x hx hboth => ?_, fun x hx ht s' hr => ?_,
    ⟨h.kept, fun x hx hp t ht now limit hl => pending_claimable h.ids h.valid hd hx hp ht now hl⟩, h.reports⟩
  · rcases (JobOutbox.defects_eq_nil (h.valid x hx)).2.2 with hn | hn
    · exact hboth.1 hn
    · exact hboth.2 hn
  · obtain ⟨h1, h2⟩ := terminal_stable d h hx ht hr
    have h' := hr.inv (fun _ o _ hs => step_inv d o hs) h
    exact ⟨h1, h2, fun e he hid' => h2 _ (hid' ▸ h'.dispatched e he)⟩

/-- a row to dispatch, and one of a type that has no task -/
def twoJobs : Outbox := [.new 1 PROCESS_INGESTION_ITEM 7 [("ingestion_item_id", 7)] 0, .new 2 "reindex" 8 [] 0]

/-- a second publisher claims the batch after the lease of the first has expired; then both go on -/
def takeover : List Op :=
  [.claim 0 10 5 5 [], .dispatch 0 none, .claim 1 10 70 70 [], .record 0 71 71, .dispatch 1 none, .record 1 72 72,
    .record 0 73 73, .record 1 74 74, .finish 0, .finish 1]

/-- the row is sent twice and marked by the second publisher; the first confirms nothing -/
theorem publish_pending_safe_takeover :
    let s := run (step 60) (init twoJobs) takeover
    (s.reports = [⟨2, 0, 0, 1, 1, 1⟩, ⟨2, 1, 0, 1, 0, 0⟩] ∧
      s.dispatches.map (fun e => (e.jobId, e.attempt)) = [(1, 1), (1, 2)] ∧
      s.outbox.map (fun x => (x.id, x.publishedAt, x.failedAt)) = [(1, some 72, none), (2, none, some 74)]) ∧
      ∀ x ∈ s.outbox, x.publishedAt ≠ none → Sent s x := by
  intro s
  have hrun : Run (step 60) always (init twoJobs) s := run_always _ _
  refine ⟨by decide, fun x hx hp => ?_⟩
  refine (publish_pending_safe 60 (by decide) twoJobs (by decide) (by decide) s hrun).1 x hx hp ?_
  intro x₀ h₀ _
  simp only [twoJobs, List.mem_cons, List.not_mem_nil, or_false] at h₀
  rcases h₀ with rfl | rfl
  · rfl
  · rfl

end AtlasRag.Jobs.Publisher
