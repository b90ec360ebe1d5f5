/-
Delivery of ingestion items: the outbox, the broker, the workers that run `IngestionJobHandler.handle`, and the beat
schedule, in one system.

A message is in the queue or held by the worker that handles it; it is gone when the handler returns or raises, and back
in the queue when the worker process dies. The handler claims the item, runs the processor next to the heartbeat, and
ends with the call of its branch; each of these is a step of its own, between which anything else may happen. A lifecycle
call may fail without an effect, or after its commit. A dispatch that raises may have reached the broker. Every step
reads application and database times of its own.

The beat schedule recovers embedding runs only; nothing calls `find_expired_items` or `reap_expired_items`. So an item
whose message is gone before the item is completed, failed or re-queued is touched again only if another message or
outbox row of it is left.

Results:
- `attended`: in a run in which no delivery ends without completing, failing or re-queueing its item, unless its item has
  ended or something else is left that will deliver it (`Sound`), no open item is ever left behind;
- `heartbeat_failure_strands`: one failed renewal is enough to leave a running item that nothing will touch again.
Premises of `attended`, both on the steps of the run: each is `legal` (rows enter the outbox, and messages the broker,
through the services and publishers only) and `Sound`. The first state has no item.
Witness `attended_claimed`: an item is added, dispatched, delivered and claimed.
-/
import AtlasRag.Ingestion.Processor
import AtlasRag.Ingestion.Retry
import AtlasRag.Jobs.Undispatched

namespace AtlasRag.Ingestion.Delivery

open AtlasRag.Lib AtlasRag.Lib.LeasedJob AtlasRag.Lib.Table AtlasRag.Platform AtlasRag.Jobs

/-! ## Model -/

def TRANSIENT_INGESTION_ERROR : String := "transient_ingestion_error"

def UNEXPECTED_INGESTION_ERROR : String := "unexpected_ingestion_error"

/-- the periodic tasks, and the `beat_schedule` of `create_celery_app` -/
inductive PeriodicTask where
  | recoverEmbeddings
deriving DecidableEq, Repr

def beatSchedule : List PeriodicTask := [.recoverEmbeddings]

/-- the periodic task acts on ingestion items; the recovery of embedding runs does not -/
def PeriodicTask.actsOnItems : PeriodicTask → Bool
  | .recoverEmbeddings => false

/-- how a lifecycle call fails, apart from what it does itself -/
inductive Fault where
  | none
  /-- it raises without an effect -/
  | lost
  /-- it raises after its commit -/
  | late
deriving DecidableEq, Repr

/-- what the handler does next with the message it holds -/
inductive Phase where
  | claiming
  | running (claim : ClaimedIngestionItem)
  /-- the processor has raised; the call of the handler's branch is next -/
  | ending (itemId : Uuid) (c : Call)

/-- a message a worker holds -/
structure Message where
  itemId : Uuid
  phase : Phase

structure St where
  /-- the database, and the publisher runs -/
  base : Retry.St
  /-- the messages that no worker holds -/
  queue : List Uuid
  workers : ℕ → Option Message

def St.db (s : St) : Db := s.base.db

def St.withDb (s : St) (db : Db) : St := { s with base := s.base.withDb db }

def St.setWorker (s : St) (w : ℕ) (dl : Option Message) : St := { s with workers := Function.update s.workers w dl }

@[simp] theorem St.db_withDb (s : St) (db : Db) : (s.withDb db).db = db := rfl

@[simp] theorem St.workers_withDb (s : St) (db : Db) : (s.withDb db).workers = s.workers := rfl

@[simp] theorem St.workers_setWorker (s : St) (w : ℕ) (m : Option Message) : (s.setWorker w m).workers w = m :=
  Function.update_self _ _ _

theorem St.workers_setWorker_ne {s : St} {v w : ℕ} (h : v ≠ w) (m : Option Message) :
    (s.setWorker w m).workers v = s.workers v := Function.update_of_ne h _ _

def init (runs artifacts : List Uuid) : St := ⟨Retry.init runs artifacts, [], fun _ => none⟩

inductive Op where
  | addItem (itemId jobId ingestionRunId documentArtifactId : Uuid) (t : Time)
  /-- a step of a publisher other than a dispatch -/
  | publisher (o : Publisher.Op)
  /-- a dispatch that returns, or raises an error after or before the broker took the message -/
  | dispatch (i : ℕ) (error : Option String) (accepted : Bool)
  | deliver (w k : ℕ)
  /-- the worker process dies -/
  | crash (w : ℕ)
  | claim (w : ℕ) (now t : Time) (fault : Fault)
  | heartbeat (w : ℕ) (now t : Time) (fault : Fault)
  /-- the processor's completing call; `jobId` is for the retry that follows if it raises -/
  | complete (w : ℕ) (chunks : List ChunkDraft) (observedFileHash : String) (metadata : JsonObject) (ids : ℕ → Uuid)
      (jobId : Uuid) (now t : Time) (fault : Fault)
  /-- the processor raises -/
  | fail (w : ℕ) (e : WorkerError) (jobId : Uuid)
  /-- the call of the branch -/
  | finish (w : ℕ) (now t : Time) (fault : Fault)
  | periodic (task : PeriodicTask)

/-- a lifecycle call under a fault: the database afterwards, and what it returned unless it raised -/
def attempt {α : Type} (fault : Fault) (db : Db) (r : Except IngestionError (Db × α)) : Db × Option α :=
  match r, fault with
  | .error _, _ => (db, none)
  | .ok (db', a), .none => (db', some a)
  | .ok _, .lost => (db, none)
  | .ok (db', _), .late => (db', none)

/-- the branch of `handle` for an exception of the processor; `none`: the handler returns -/
def branch (claim : ClaimedIngestionItem) (jobId : Uuid) : WorkerError → Option Call
  | .leaseLost => none
  | .permanent errorCode message => some (.markFailed claim.attemptNumber errorCode message none)
  | .transient => some (.scheduleRetry claim.attemptNumber TRANSIENT_INGESTION_ERROR none jobId)
  | .unexpected => some (.scheduleRetry claim.attemptNumber UNEXPECTED_INGESTION_ERROR none jobId)

/-- the item that a dispatched job names in its payload -/
def messageOf (j : ClaimedOutboxJob) : Option Uuid := j.payload.lookup "ingestion_item_id"

/-- the claim of a worker; a claim that is refused or raises ends the handler -/
def claimAttempt (cfg : Config) (s : St) (x : Uuid) (now t : Time) (fault : Fault) : Db × Option ClaimedIngestionItem :=
  let (db, r) := attempt fault s.db (Lifecycle.claim cfg x now t s.db)
  (db, r.join)

def heartbeatAttempt (cfg : Config) (s : St) (claim : ClaimedIngestionItem) (now t : Time) (fault : Fault) :
    Db × Option Bool :=
  attempt fault s.db (Lifecycle.heartbeat cfg claim.ingestionItemId claim.attemptNumber now t s.db)

def completeAttempt (s : St) (claim : ClaimedIngestionItem) (chunks : List ChunkDraft) (observedFileHash : String)
    (metadata : JsonObject) (ids : ℕ → Uuid) (now t : Time) (fault : Fault) : Db × Option Bool :=
  attempt fault s.db (Lifecycle.replaceChunksAndMarkCompleted claim.ingestionItemId claim.attemptNumber chunks
    observedFileHash metadata ids now t s.db)

/-- `d` is the lease duration of the publisher -/
def step (cfg : Config) (d : Time) (s : St) : Op → St
  | .addItem itemId jobId run art t => s.withDb ((Ingestion.Op.addItem itemId jobId run art t).run cfg s.db)
  | .publisher o => { s with base := Retry.step cfg d s.base (.publisher o) }
  | .dispatch i error accepted =>
    let sent := if error = none ∨ accepted then (Publisher.headJob s.base.publisher i).bind messageOf else none
    { s with base := Retry.step cfg d s.base (.publisher (.dispatch i error)), queue := s.queue ++ sent.toList }
  | .deliver w k =>
    match s.workers w, s.queue[k]? with
    | none, some x => { s.setWorker w (some ⟨x, .claiming⟩) with queue := s.queue.eraseIdx k }
    | _, _ => s
  | .crash w =>
    match s.workers w with
    | some dl => { s.setWorker w none with queue := s.queue ++ [dl.itemId] }
    | none => s
  | .claim w now t fault =>
    match s.workers w with
    | some ⟨x, .claiming⟩ =>
      let (db, claim) := claimAttempt cfg s x now t fault
      (s.withDb db).setWorker w (claim.map fun c => ⟨x, .running c⟩)
    | _ => s
  | .heartbeat w now t fault =>
    match s.workers w with
    | some ⟨x, .running claim⟩ =>
      let (db, renewed) := heartbeatAttempt cfg s claim now t fault
      -- any other outcome is a lost lease: the handler returns
      (s.withDb db).setWorker w (if renewed = some true then some ⟨x, .running claim⟩ else none)
    | _ => s
  | .complete w chunks hash metadata ids jobId now t fault =>
    match s.workers w with
    | some ⟨x, .running claim⟩ =>
      let (db, completed) := completeAttempt s claim chunks hash metadata ids now t fault
      match completed with
      | some _ => (s.withDb db).setWorker w none
      | none => (s.withDb db).setWorker w
          ((branch claim jobId .unexpected).map fun c => ⟨x, .ending claim.ingestionItemId c⟩)
    | _ => s
  | .fail w e jobId =>
    match s.workers w with
    | some ⟨x, .running claim⟩ => s.setWorker w ((branch claim jobId e).map fun c => ⟨x, .ending claim.ingestionItemId c⟩)
    | _ => s
  | .finish w now t fault =>
    match s.workers w with
    | some ⟨_, .ending itemId c⟩ => (s.withDb (attempt fault s.db (c.exec cfg itemId now t s.db)).1).setWorker w none
    | _ => s
  | .periodic _ => s

/-- rows enter the outbox through the service, and messages the broker through `dispatch` -/
def legal : Op → Prop
  | .publisher o => o.isEnqueue = false ∧ ∀ i error, o ≠ .dispatch i error
  | _ => True

/-! ## What is left of an item -/

/-- a message for the item is unacknowledged: in the queue, or held by a live worker -/
def Unacknowledged (s : St) (x : Uuid) : Prop := x ∈ s.queue ∨ ∃ w dl, s.workers w = some dl ∧ dl.itemId = x

/-- something in the system will touch the open item again -/
def Attended (s : St) (it : IngestionItem) : Prop :=
  (∃ r ∈ s.db.outbox, r.aggregateId = it.id ∧ r.Pending) ∨ Unacknowledged s it.id ∨
    (∃ w claim, s.workers w = some ⟨it.id, .running claim⟩ ∧ claim.attemptNumber = it.attemptCount) ∨
    ∃ task ∈ beatSchedule, task.actsOnItems = true

/-- a pending outbox row of the item that no live publisher run has already dispatched -/
def RowLeft (s : St) (x : Uuid) : Prop :=
  ∃ r ∈ s.db.outbox, r.aggregateId = x ∧ r.Pending ∧ Publisher.Undispatched s.base.publisher r

/-- the item has ended, or another message or a row of it is left besides the delivery of worker `w` -/
def Spare (s : St) (w : ℕ) (x : Uuid) : Prop :=
  (∀ it ∈ s.db.items, it.id = x → it.status.Terminal) ∨ x ∈ s.queue ∨
    (∃ v dl, v ≠ w ∧ s.workers v = some dl ∧ dl.itemId = x) ∨ RowLeft s x

/-- the call finds a row that it may write: its statement matches the item, no constraint refuses the new row, and a retry
finds a free job key and no leased pending job -/
structure Accepts (cfg : Config) (db : Db) (x : Uuid) (c : Call) (now t : Time) : Prop where
  row : ∃ it ∈ db.items, it.id = x ∧ (c.stmt cfg now t).Matches it.toJob ∧ (it.set (c.stmt cfg now t) c.hash?).defects = []
  retry : ∀ a code msg jobId, c = .scheduleRetry a code msg jobId → a < cfg.maxAttempts →
    jobId ∉ db.outbox.map (·.id) ∧ ∀ r ∈ db.outbox, PendingFor x r → r.leaseExpiresAt = none

/-- a delivery ends only by completing, failing or re-queueing its item, or when something else is left: a claim, a
renewal and the call of a branch are accepted and do not fail, and the processor stops only while it owns the item -/
def Sound (cfg : Config) (s : St) : Op → Prop
  | .claim w now t fault => ∀ x, s.workers w = some ⟨x, .claiming⟩ →
      (fault = .none ∧ Accepts cfg s.db x .claim now t) ∨ Spare s w x
  | .heartbeat w now t fault => ∀ x claim, s.workers w = some ⟨x, .running claim⟩ →
      (fault = .none ∧ Accepts cfg s.db x (.heartbeat claim.attemptNumber) now t) ∨ Spare s w x
  | .complete w _ _ _ _ _ _ t fault => ∀ x claim, s.workers w = some ⟨x, .running claim⟩ →
      (fault ≠ .none ∨ ∃ it ∈ s.db.items, it.id = x ∧ it.toJob.OwnedBy claim.attemptNumber t) ∨ Spare s w x
  | .fail w e _ => ∀ x claim, s.workers w = some ⟨x, .running claim⟩ → e ≠ .leaseLost ∨ Spare s w x
  | .finish w now t fault => ∀ x itemId c, s.workers w = some ⟨x, .ending itemId c⟩ →
      (fault ≠ .lost ∧ Accepts cfg s.db x c now t) ∨ Spare s w x
  | _ => True

/-! ## What a lifecycle call leaves -/

/-- what a call on item `x` cannot do: reopen an item, or change an outbox row of another -/
structure Frame (x : Uuid) (db db' : Db) : Prop where
  ok : db'.Ok
  payload : ∀ r ∈ db'.outbox, r.payload = itemPayload r.aggregateId
  items : ∀ it' ∈ db'.items, ¬ it'.status.Terminal → ∃ it ∈ db.items, it.id = it'.id ∧ ¬ it.status.Terminal
  later : Publisher.Extends db.outbox db'.outbox
  rows : ∀ r ∈ db.outbox, r.aggregateId ≠ x → r ∈ db'.outbox

variable {cfg : Config} {d : Time} {x : Uuid} {now t : Time} {db db' : Db}

theorem Frame.refl (h : db.Ok) (hp : ∀ r ∈ db.outbox, r.payload = itemPayload r.aggregateId) : Frame x db db :=
  ⟨h, hp, fun it hit ht => ⟨it, hit, rfl, ht⟩, fun r hr => ⟨r, hr, rfl, rfl, rfl, rfl, le_rfl⟩, fun _ hr _ => hr⟩

theorem superseded_extends (itemId : Uuid) (now : Time) (o : Outbox) :
    Publisher.Extends o (superseded itemId now o) :=
  .mapWhere (p := PendingFor itemId) (f := fun r => { r with failedAt := some now, failureCode := some SUPERSEDED_BY_RETRY })
    (fun _ => ⟨rfl, rfl, rfl, rfl, le_rfl⟩) o

theorem Frame.call (h : db.Ok) (hp : ∀ r ∈ db.outbox, r.payload = itemPayload r.aggregateId) {c : Call}
    (he : c.exec cfg x now t db = .ok (db', true)) : Frame x db db' := by
  have heff := Call.exec_true he
  have hitems : ∀ it' ∈ db'.items, ¬ it'.status.Terminal → ∃ it ∈ db.items, it.id = it'.id ∧ ¬ it.status.Terminal := by
    obtain ⟨n, -, hu⟩ := heff.update
    obtain ⟨-, hi, -⟩ := updateWhere_ok.1 hu
    rw [hi]
    intro it' hit' ht
    rcases mem_mapWhere.1 hit' with ⟨it, hit, hm, rfl⟩ | ⟨hit, -⟩
    · -- a terminal row matches no statement
      refine ⟨it, hit, rfl, fun hterm => ?_⟩
      have hx := exec_terminal (s := c.stmt cfg now t) hterm
      rw [exec_some.2 ⟨hm.2, rfl⟩] at hx
      cases hx
    · exact ⟨it', hit, rfl, ht⟩
  have hok := Op.exec_ok (o := .call x c now t) h he
  rcases heff.outbox with ho | ⟨a, code, msg, jobId, rfl, -, hq⟩
  · refine ⟨hok, ho ▸ hp, hitems, ?_, fun r hr _ => ho ▸ hr⟩
    rw [ho]; exact fun r hr => ⟨r, hr, rfl, rfl, rfl, rfl, le_rfl⟩
  · obtain ⟨-, -, ho⟩ := requeue_row hq fun r hr => (h.outbox r hr).1
    refine ⟨hok, ?_, hitems, ?_, ?_⟩
    · rw [ho]
      intro r hr
      rcases List.mem_append.1 hr with hr | hr
      · rcases mem_mapWhere.1 hr with ⟨r₀, h₀, -, rfl⟩ | ⟨h₀, -⟩
        · exact hp r₀ h₀
        · exact hp r h₀
      · rw [List.mem_singleton.1 hr]; rfl
    · rw [ho]; exact (superseded_extends x now db.outbox).trans (.append _ _)
    · rw [ho]
      intro r hr hne
      exact List.mem_append_left _ (mem_mapWhere.2 (.inr ⟨hr, fun hfor => hne hfor.2.1⟩))

/-- a call that is no retry below the limit leaves the outbox alone -/
theorem outbox_eq {c : Call} (he : c.exec cfg x now t db = .ok (db', true))
    (hc : ∀ a code msg jobId, c ≠ .scheduleRetry a code msg jobId) : db'.outbox = db.outbox := by
  rcases (Call.exec_true he).outbox with ho | ⟨a, code, msg, jobId, rfl, -⟩
  · exact ho
  · exact absurd rfl (hc a code msg jobId)

/-- the calls that end an attempt -/
def EndsAttempt : Call → Prop
  | .claim => False
  | .heartbeat _ => False
  | _ => True

theorem branch_ends {claim : ClaimedIngestionItem} {jobId : Uuid} {e : WorkerError} {c : Call}
    (h : branch claim jobId e = some c) :
    EndsAttempt c ∧ ∀ a drafts hash metadata ids, c ≠ .replaceChunksAndMarkCompleted a drafts hash metadata ids := by
  cases e <;> cases h <;> exact ⟨trivial, fun _ _ _ _ _ he => Call.noConfusion he⟩

/-- **A successful ending call** leaves the item terminal, or a new pending outbox row of it. -/
theorem settled (h : db.Ok) {c : Call} (hc : EndsAttempt c) (he : c.exec cfg x now t db = .ok (db', true)) :
    (∀ it ∈ db'.items, it.id = x → it.status.Terminal) ∨
      ∃ r ∈ db'.outbox, r.aggregateId = x ∧ r.Pending ∧ r.id ∉ db.outbox.map (·.id) := by
  have heff := Call.exec_true he
  obtain ⟨n, hn, hu⟩ := heff.update
  obtain ⟨-, hi, rfl⟩ := updateWhere_ok.1 hu
  obtain ⟨it₀, hit₀, hm₀⟩ := List.countP_pos_iff.1 hn
  have hm₀ : it₀.id = x ∧ (c.stmt cfg now t).Matches it₀.toJob := of_decide_eq_true hm₀
  -- the identifier pins the item, so the row of `x` is the one that was set
  have hset : ∀ it ∈ db'.items, it.id = x → ∃ it₁ ∈ db.items, it = it₁.set (c.stmt cfg now t) c.hash? := by
    rw [hi]
    intro it hit hid
    rcases mem_mapWhere.1 hit with ⟨it₁, hit₁, -, rfl⟩ | ⟨hit₁, hnot⟩
    · exact ⟨it₁, hit₁, rfl⟩
    · obtain rfl : it = it₀ := List.inj_on_of_nodup_map h.itemIds hit₁ hit₀ (hid.trans hm₀.1.symm)
      exact absurd hm₀ hnot
  cases c with
  | claim => exact hc.elim
  | heartbeat => exact hc.elim
  | scheduleRetry a code msg jobId =>
    by_cases ha : cfg.maxAttempts ≤ a
    · left
      intro it hit hid
      obtain ⟨it₁, -, rfl⟩ := hset it hit hid
      rw [stmt_lastAttempt ha]
      exact .inr rfl
    · right
      simp only [Call.exec, Lifecycle.scheduleRetry, if_neg ha] at he
      split at he
      · cases he
      · split_ifs at he
        · split at he
          · cases he
          · next hq =>
            cases he
            obtain ⟨hj, -, ho⟩ := requeue_row hq fun r hr => (h.outbox r hr).1
            refine ⟨itemJob jobId x t, ?_, rfl, ⟨rfl, rfl⟩, hj⟩
            show _ ∈ _
            rw [ho]
            exact List.mem_append_right _ (List.mem_singleton_self _)
        · cases he
  | markFailed =>
    left
    intro it hit hid
    obtain ⟨it₁, -, rfl⟩ := hset it hit hid
    exact .inr rfl
  | markCompleted =>
    left
    intro it hit hid
    obtain ⟨it₁, -, rfl⟩ := hset it hit hid
    exact .inl rfl
  | replaceChunksAndMarkCompleted =>
    left
    intro it hit hid
    obtain ⟨it₁, -, rfl⟩ := hset it hit hid
    exact .inl rfl

/-! ## Calls under faults -/

theorem attempt_some {α : Type} {fault : Fault} {r : Except IngestionError (Db × α)} {a : α}
    (h : (attempt fault db r).2 = some a) : fault = .none ∧ r = .ok ((attempt fault db r).1, a) := by
  cases r with
  | error e => cases h
  | ok p =>
    cases fault with
    | none => exact ⟨rfl, by rw [← Option.some.inj h]; rfl⟩
    | lost => cases h
    | late => cases h

theorem attempt_db {α : Type} (db : Db) (fault : Fault) (r : Except IngestionError (Db × α)) :
    (attempt fault db r).1 = db ∨ ∃ a, r = .ok ((attempt fault db r).1, a) := by
  cases r with
  | error e => exact .inl rfl
  | ok p =>
    cases fault with
    | lost => exact .inl rfl
    | _ => exact .inr ⟨p.2, rfl⟩

/-- an accepted call commits and reports success -/
theorem Accepts.exec (h : db.Ok) {c : Call} (ha : Accepts cfg db x c now t)
    (hc : ∀ a drafts hash metadata ids, c ≠ .replaceChunksAndMarkCompleted a drafts hash metadata ids) :
    ∃ db', c.exec cfg x now t db = .ok (db', true) := by
  obtain ⟨it, hit, hid, hm, hd⟩ := ha.row
  obtain ⟨items, hu⟩ : ∃ items, updateItem x (c.stmt cfg now t) c.hash? db.items = .ok (items, 1) := by
    refine ⟨_, updateWhere_ok.2 ⟨?_, rfl, ?_⟩⟩
    · intro r hr hrm
      obtain rfl : r = it := List.inj_on_of_nodup_map h.itemIds hr hit (hrm.1.trans hid.symm)
      exact hd
    · exact (countP_eq_one h.itemIds (fun _ _ hp => hp.1) hit ⟨hid, hm⟩).symm
  cases c with
  | claim =>
    have hu' : IngestionRepository.claimItem x now (now + cfg.leaseDuration) cfg.maxAttempts t db.items = .ok (items, 1) := hu
    simp only [Call.exec, Lifecycle.claim, hu']
    cases hf : db.items.find? fun it => it.id = x ∧ it.toJob.Claimable cfg.maxAttempts t with
    | some it' => exact ⟨_, rfl⟩
    | none => exact absurd (decide_eq_true (And.intro hid hm)) (List.find?_eq_none.1 hf it hit)
  | scheduleRetry a code msg jobId =>
    by_cases hmax : cfg.maxAttempts ≤ a
    · rw [stmt_lastAttempt hmax] at hu
      have hu' : IngestionRepository.markFailed x a now MAX_ATTEMPTS_EXCEEDED msg none t db.items = .ok (items, 1) := hu
      exact ⟨_, by simp only [Call.exec, Lifecycle.scheduleRetry, if_pos hmax, hu']; rfl⟩
    · rw [stmt_release hmax] at hu
      obtain ⟨hj, hl⟩ := ha.retry a code msg jobId rfl (not_le.1 hmax)
      have hq := (requeue_ok x now t (fun r hr => (h.outbox r hr).1) hj).2 ⟨hl, rfl⟩
      exact ⟨_, scheduleRetry_commits hmax hu hq⟩
  | replaceChunksAndMarkCompleted a drafts hash metadata ids => exact absurd rfl (hc a drafts hash metadata ids)
  | heartbeat a =>
    have hu' : IngestionRepository.heartbeat x a (now + cfg.leaseDuration) t db.items = .ok (items, 1) := hu
    exact ⟨_, by simp only [Call.exec, Lifecycle.heartbeat, hu']; rfl⟩
  | markFailed a code msg metadata =>
    have hu' : IngestionRepository.markFailed x a now code msg metadata t db.items = .ok (items, 1) := hu
    exact ⟨_, by simp only [Call.exec, Lifecycle.markFailed, hu']; rfl⟩
  | markCompleted a hash metadata =>
    have hu' : IngestionRepository.markCompleted x a now hash metadata t db.items = .ok (items, 1) := hu
    exact ⟨_, by simp only [Call.exec, Lifecycle.markCompleted, hu']; rfl⟩

/-- the database after a call: as before, or a committed one -/
theorem attempt_exec (cfg : Config) (db : Db) (x : Uuid) (now t : Time) (fault : Fault) (c : Call) :
    (attempt fault db (c.exec cfg x now t db)).1 = db ∨
      c.exec cfg x now t db = .ok ((attempt fault db (c.exec cfg x now t db)).1, true) := by
  rcases attempt_db db fault (c.exec cfg x now t db) with h | ⟨b, h⟩
  · exact .inl h
  · cases b with
    | true => exact .inr h
    | false => exact .inl (Call.exec_false h)

/-- the database after a claim, and the claim itself -/
theorem claimAttempt_exec (cfg : Config) (s : St) (x : Uuid) (now t : Time) (fault : Fault) :
    ((claimAttempt cfg s x now t fault).1 = s.db ∨
      Call.claim.exec cfg x now t s.db = .ok ((claimAttempt cfg s x now t fault).1, true)) ∧
    ∀ c, (claimAttempt cfg s x now t fault).2 = some c → c.ingestionItemId = x := by
  have hclaim : ∀ db' c, Lifecycle.claim cfg x now t s.db = .ok (db', some c) → c.ingestionItemId = x := by
    intro db' c h
    unfold Lifecycle.claim at h
    split at h
    · cases h
    · split at h
      · cases h
      · next it hf =>
        cases h
        have hp := List.find?_some hf
        simp only [decide_eq_true_eq] at hp
        exact hp.1
  have hnone : ∀ db', Lifecycle.claim cfg x now t s.db = .ok (db', none) → db' = s.db := by
    intro db' h
    have hx : Call.claim.exec cfg x now t s.db = .ok (db', false) := by
      simp only [Call.exec, h]
      rfl
    exact Call.exec_false hx
  unfold claimAttempt
  cases hr : Lifecycle.claim cfg x now t s.db with
  | error e => exact ⟨.inl rfl, fun c hc => by cases hc⟩
  | ok p =>
    obtain ⟨db', claim⟩ := p
    have hexec : ∀ c, claim = some c → Call.claim.exec cfg x now t s.db = .ok (db', true) := by
      rintro c rfl
      simp only [Call.exec, hr]
      rfl
    constructor
    · cases claim with
      | none => cases fault <;> exact .inl (by first | rfl | exact hnone db' hr)
      | some c =>
        cases fault with
        | lost => exact .inl rfl
        | _ => exact .inr (hexec c rfl)
    · intro c hc
      cases fault with
      | none =>
        obtain rfl : claim = some c := hc
        exact hclaim db' c hr
      | lost => cases hc
      | late => cases hc

/-! ## The invariant -/

/-- what the handler works with is the item its message names -/
def Message.Named (m : Message) : Prop :=
  match m.phase with
  | .claiming => True
  | .running claim => claim.ingestionItemId = m.itemId
  | .ending itemId c => itemId = m.itemId ∧ ∃ claim jobId e, branch claim jobId e = some c

/-- a message of the item is unacknowledged, or a row of it is left -/
def Covered (s : St) (x : Uuid) : Prop := Unacknowledged s x ∨ RowLeft s x

structure Inv (s : St) : Prop where
  ok : s.db.Ok
  payload : ∀ r ∈ s.db.outbox, r.payload = itemPayload r.aggregateId
  tracked : Publisher.Tracked s.base.publisher
  named : ∀ w m, s.workers w = some m → m.Named
  covered : ∀ it ∈ s.db.items, ¬ it.status.Terminal → Covered s it.id

variable {s : St} {w : ℕ}

theorem init_inv (runs artifacts : List Uuid) : Inv (init runs artifacts) :=
  ⟨Retry.init_ok runs artifacts, fun _ hr => absurd hr List.not_mem_nil, fun _ _ hi => absurd hi (Option.some_ne_none _).symm,
    fun _ _ hw => absurd hw (Option.some_ne_none _).symm, fun _ hit => absurd hit List.not_mem_nil⟩

/-- a row that has just been inserted is one no run knows -/
theorem Inv.fresh (h : Inv s) {r : JobOutbox} (hr : r.id ∉ s.db.outbox.map (·.id)) :
    Publisher.Undispatched s.base.publisher r := by
  intro i p j js hi _ hj hjr
  obtain ⟨y, hy, hyid, -⟩ := h.tracked i p hi j (hj ▸ List.mem_cons_self)
  exact absurd (hjr ▸ hyid ▸ List.mem_map_of_mem hy) hr

/-- a row of another item stays left -/
theorem RowLeft.frame {y : Uuid} (h : RowLeft s y) (hy : y ≠ x) (hf : Frame x s.db db') : RowLeft (s.withDb db') y := by
  obtain ⟨r, hr, hagg, hp, hu⟩ := h
  exact ⟨r, hf.rows r hr (hagg ▸ hy), hagg, hp, hu⟩

/-- **The step of one worker**: its call on its item, and what it does next. A worker that lets go of the message must
leave the item ended or covered. -/
theorem Inv.work (h : Inv s) {m : Message} (hm : s.workers w = some m) (hx : m.itemId = x)
    (hf : Frame x s.db db') (m' : Option Message) (hnext : ∀ n, m' = some n → n.itemId = x ∧ n.Named)
    (hend : m' = none → (∀ it ∈ db'.items, it.id = x → it.status.Terminal) ∨ Covered ((s.withDb db').setWorker w none) x) :
    Inv ((s.withDb db').setWorker w m') := by
  refine ⟨hf.ok, hf.payload, h.tracked.outbox hf.later, ?_, ?_⟩
  · intro v n hv
    by_cases hvw : v = w
    · subst hvw
      rw [St.workers_setWorker] at hv
      exact (hnext n hv).2
    · rw [St.workers_setWorker_ne hvw] at hv
      exact h.named v n hv
  · intro it' hit' ht'
    by_cases hid : it'.id = x
    · cases hm' : m' with
      | some n => exact .inl (.inr ⟨w, n, St.workers_setWorker _ _ _, (hnext n hm').1.trans hid.symm⟩)
      | none =>
        rcases hend hm' with hterm | hcov
        · exact absurd (hterm it' hit' hid) ht'
        · exact hid ▸ hcov
    · obtain ⟨it, hit, hid', ht⟩ := hf.items it' hit' ht'
      rcases h.covered it hit ht with (hq | ⟨v, n, hv, hn⟩) | hrow
      · exact .inl (.inl (hid' ▸ hq))
      · have hvw : v ≠ w := by
          rintro rfl
          rw [hm] at hv
          cases hv
          exact hid (hid' ▸ hn ▸ hx)
        refine .inl (.inr ⟨v, n, ?_, hid' ▸ hn⟩)
        rw [St.workers_setWorker_ne hvw]
        exact hv
      · rw [hid'] at hrow
        exact .inr (hrow.frame hid hf)

/-- what was left besides the worker is left after a call that keeps the outbox -/
theorem Spare.covered (h : Spare s w x) (hf : Frame x s.db db') (ho : db'.outbox = s.db.outbox) :
    (∀ it ∈ db'.items, it.id = x → it.status.Terminal) ∨ Covered ((s.withDb db').setWorker w none) x := by
  rcases h with hterm | hq | ⟨v, m, hv, hm, hx⟩ | ⟨r, hr, hagg, hp, hu⟩
  · refine .inl fun it' hit' hid => ?_
    by_contra ht'
    obtain ⟨it, hit, hid', ht⟩ := hf.items it' hit' ht'
    exact ht (hterm it hit (hid'.trans hid))
  · exact .inr (.inl (.inl hq))
  · refine .inr (.inl (.inr ⟨v, m, ?_, hx⟩))
    rw [St.workers_setWorker_ne hv]
    exact hm
  · exact .inr (.inr ⟨r, ho ▸ hr, hagg, hp, hu⟩)

/-- a successful ending call leaves the item ended or a row of it -/
theorem Inv.settled (h : Inv s) {c : Call} (hc : EndsAttempt c) (he : c.exec cfg x now t s.db = .ok (db', true)) :
    (∀ it ∈ db'.items, it.id = x → it.status.Terminal) ∨ Covered ((s.withDb db').setWorker w none) x := by
  rcases Delivery.settled h.ok hc he with hterm | ⟨r, hr, hagg, hp, hnew⟩
  · exact .inl hterm
  · exact .inr (.inr ⟨r, hr, hagg, hp, h.fresh hnew⟩)

/-! ## The steps -/

/-- adding an item adds its row and its job, or nothing -/
theorem addItem_cases (cfg : Config) (itemId jobId run art : Uuid) (t : Time) (db : Db) :
    (Ingestion.Op.addItem itemId jobId run art t).run cfg db = db ∨
      (jobId ∉ db.outbox.map (·.id) ∧ ((Ingestion.Op.addItem itemId jobId run art t).run cfg db).items =
        db.items ++ [.new itemId run art t] ∧
        ((Ingestion.Op.addItem itemId jobId run art t).run cfg db).outbox = db.outbox ++ [itemJob jobId itemId t]) := by
  simp only [Ingestion.Op.run, Ingestion.Op.exec, Lifecycle.addItem]
  split
  · exact .inl rfl
  · next he =>
    split at he
    · cases he
    · next hi =>
      split at he
      · cases he
      · next hq =>
        cases he
        unfold IngestionRepository.addItem at hi
        split at hi
        · obtain ⟨-, rfl⟩ := insertRow_ok.1 hi
          obtain ⟨hj, -, rfl⟩ := enqueue_ok.1 hq
          exact .inr ⟨hj, rfl, rfl⟩
        · cases hi

theorem Inv.addItem (h : Inv s) {itemId jobId run art : Uuid} (hok : db'.Ok) (hj : jobId ∉ s.db.outbox.map (·.id))
    (hitems : db'.items = s.db.items ++ [.new itemId run art t])
    (houtbox : db'.outbox = s.db.outbox ++ [itemJob jobId itemId t]) : Inv (s.withDb db') := by
  have hlater : Publisher.Extends s.db.outbox db'.outbox := houtbox ▸ .append _ _
  refine ⟨hok, ?_, h.tracked.outbox hlater, h.named, ?_⟩
  · rw [St.db_withDb, houtbox]
    intro r hr
    rcases List.mem_append.1 hr with hr | hr
    · exact h.payload r hr
    · rw [List.mem_singleton.1 hr]; rfl
  · rw [St.db_withDb, hitems]
    intro it hit ht
    rcases List.mem_append.1 hit with hit | hit
    · rcases h.covered it hit ht with hm | ⟨r, hr, hagg, hp, hu⟩
      · exact .inl hm
      · exact .inr ⟨r, houtbox ▸ List.mem_append_left _ hr, hagg, hp, hu⟩
    · -- the new item is left to its own job
      have hnew : itemJob jobId itemId t ∈ db'.outbox := houtbox ▸ List.mem_append_right _ (List.mem_singleton_self _)
      rw [List.mem_singleton.1 hit]
      exact .inr ⟨_, hnew, rfl, ⟨rfl, rfl⟩, h.fresh hj⟩

/-- **A publisher step** keeps everything covered: a row it dispatches has its message in the broker. -/
theorem Inv.publisher (h : Inv s) (cfg : Config) (d : Time) {o : Publisher.Op} (hen : o.isEnqueue = false) (sent : Option Uuid)
    (hsent : ∀ i, o = .dispatch i none → sent = (Publisher.headJob s.base.publisher i).bind messageOf) :
    Inv { s with base := Retry.step cfg d s.base (.publisher o), queue := s.queue ++ sent.toList } := by
  have hdef : ∀ r ∈ s.db.outbox, r.defects = [] := fun r hr => (h.ok.outbox r hr).1
  obtain ⟨hmap, -⟩ := Publisher.step_rows d o hen h.ok.jobIds hdef
  have hok : (Retry.step cfg d s.base (.publisher o)).db.Ok := Retry.step_ok _ hen h.ok
  refine ⟨hok, ?_,
    Publisher.step_tracked d h.tracked h.ok.jobIds hen, h.named, ?_⟩
  · intro r hr
    have hr' : Publisher.fixedColumns r ∈ s.base.publisher.outbox.map Publisher.fixedColumns := by
      rw [← hmap]; exact List.mem_map_of_mem hr
    obtain ⟨x, hx, he⟩ := List.mem_map.1 hr'
    have hpay : x.payload = r.payload := congrArg (·.2.2.2) he
    have hagg : x.aggregateId = r.aggregateId := congrArg (·.2.2.1) he
    rw [← hpay, ← hagg]
    exact h.payload x hx
  · intro it hit ht
    rcases h.covered it hit ht with (hq | hw) | ⟨r, hr, hagg, hp, hu⟩
    · exact .inl (.inl (List.mem_append_left _ hq))
    · exact .inl (.inr hw)
    · rcases Publisher.step_pending d h.tracked h.ok.jobIds (fun r hr => (h.ok.outbox r hr).2) hen hr hp hu with
        ⟨r', hr', hagg', hp', hu'⟩ | ⟨i, j, rfl, hhead, hj⟩
      · exact .inr ⟨r', hr', hagg'.trans hagg, hp', hu'⟩
      · -- the message that was sent names the item of the row
        refine .inl (.inl (List.mem_append_right _ ?_))
        have hname : messageOf j = some r.aggregateId := by
          obtain ⟨p, hi, hjobs⟩ : ∃ p, s.base.publisher.runs i = some p ∧ j ∈ p.jobs := by
            unfold Publisher.headJob at hhead
            split at hhead
            · next hi =>
              split_ifs at hhead
              cases hhead
              exact ⟨_, hi, List.mem_cons_self⟩
            · cases hhead
          obtain ⟨y, hy, hyid, -, -, hypay, -⟩ := h.tracked i p hi j hjobs
          obtain rfl : y = r := List.inj_on_of_nodup_map h.ok.jobIds hy hr (hyid.trans hj)
          unfold messageOf
          rw [← hypay, h.payload y hy]
          rfl
        rw [hsent i rfl, hhead, Option.bind_some, hname, hagg]
        exact List.mem_singleton_self _

theorem Inv.deliver (h : Inv s) {k : ℕ} (hw : s.workers w = none) (hk : s.queue[k]? = some x) :
    Inv { s.setWorker w (some ⟨x, .claiming⟩) with queue := s.queue.eraseIdx k } := by
  refine ⟨h.ok, h.payload, h.tracked, ?_, fun it hit ht => ?_⟩
  · intro v m hv
    by_cases hvw : v = w
    · subst hvw
      obtain rfl : (⟨x, .claiming⟩ : Message) = m := Option.some.inj ((St.workers_setWorker s v _).symm.trans hv)
      trivial
    · exact h.named v m ((St.workers_setWorker_ne hvw _).symm.trans hv)
  · rcases h.covered it hit ht with (hq | ⟨v, m, hv, hm⟩) | hrow
    · -- the message at `k` is the worker's now, the others are still queued
      obtain ⟨i, hi⟩ := List.getElem?_of_mem hq
      by_cases hik : i = k
      · subst hik
        rw [hk] at hi
        exact .inl (.inr ⟨w, _, St.workers_setWorker _ _ _, Option.some.inj hi⟩)
      · exact .inl (.inl (List.mem_eraseIdx_iff_getElem?.2 ⟨i, hik, hi⟩))
    · have hvw : v ≠ w := by
        rintro rfl
        rw [hw] at hv
        cases hv
      exact .inl (.inr ⟨v, m, (St.workers_setWorker_ne hvw _).trans hv, hm⟩)
    · exact .inr hrow

theorem Inv.crash (h : Inv s) {m : Message} (hw : s.workers w = some m) :
    Inv { s.setWorker w none with queue := s.queue ++ [m.itemId] } := by
  refine ⟨h.ok, h.payload, h.tracked, ?_, fun it hit ht => ?_⟩
  · intro v n hv
    by_cases hvw : v = w
    · subst hvw
      cases (St.workers_setWorker s v none).symm.trans hv
    · exact h.named v n ((St.workers_setWorker_ne hvw _).symm.trans hv)
  · rcases h.covered it hit ht with (hq | ⟨v, n, hv, hn⟩) | hrow
    · exact .inl (.inl (List.mem_append_left _ hq))
    · by_cases hvw : v = w
      · subst hvw
        rw [hw] at hv
        cases hv
        exact .inl (.inl (List.mem_append_right _ (List.mem_singleton.2 hn.symm)))
      · exact .inl (.inr ⟨v, n, (St.workers_setWorker_ne hvw _).trans hv, hn⟩)
    · exact .inr hrow

/-- a completing call that matches no row was made by an attempt that does not own the item -/
theorem notOwned_of_replace {a : ℕ} {drafts : List ChunkDraft} {hash : String} {metadata : JsonObject} {ids : ℕ → Uuid}
    (h : db.Ok) (he : Lifecycle.replaceChunksAndMarkCompleted x a drafts hash metadata ids now t db = .ok (db', false)) :
    ¬ ∃ it ∈ db.items, it.id = x ∧ it.toJob.OwnedBy a t := by
  rintro ⟨it, hit, hid, hown⟩
  unfold Lifecycle.replaceChunksAndMarkCompleted at he
  split at he
  · cases he
  · split at he
    · cases he
    · next items n hu =>
      obtain ⟨-, -, hn⟩ := updateWhere_ok.1 hu
      have hm : (Stmt.complete a now metadata t).Matches it.toJob := hown
      have hone := countP_eq_one (p := fun it => it.id = x ∧ (Stmt.complete a now metadata t).Matches it.toJob)
        h.itemIds (fun _ _ hp => hp.1) hit ⟨hid, hm⟩
      rw [if_pos (hn.trans hone)] at he
      cases he

theorem Inv.frame (h : Inv s) {c : Call} (hc : db' = s.db ∨ c.exec cfg x now t s.db = .ok (db', true)) :
    Frame x s.db db' := by
  rcases hc with rfl | he
  · exact .refl h.ok h.payload
  · exact .call h.ok h.payload he

/-- the outbox after a claim or a renewal -/
theorem outbox_of_exec {c : Call} (hc : db' = db ∨ c.exec cfg x now t db = .ok (db', true))
    (hne : ∀ a code msg jobId, c ≠ .scheduleRetry a code msg jobId) : db'.outbox = db.outbox := by
  rcases hc with rfl | he
  · rfl
  · exact outbox_eq he hne

theorem Inv.claim (h : Inv s) {fault : Fault} (hw : s.workers w = some ⟨x, .claiming⟩)
    (hs : (fault = .none ∧ Accepts cfg s.db x .claim now t) ∨ Spare s w x) :
    Inv ((s.withDb (claimAttempt cfg s x now t fault).1).setWorker w
      ((claimAttempt cfg s x now t fault).2.map fun c => ⟨x, .running c⟩)) := by
  obtain ⟨hdb, hname⟩ := claimAttempt_exec cfg s x now t fault
  have hf := h.frame hdb
  refine h.work hw rfl hf _ ?_ fun hend => ?_
  · intro n hn
    obtain ⟨c, hc, rfl⟩ := Option.map_eq_some_iff.1 hn
    exact ⟨rfl, hname c hc⟩
  · rcases hs with ⟨rfl, ha⟩ | hspare
    · -- an accepted claim is granted
      obtain ⟨db', he⟩ := ha.exec h.ok fun _ _ _ _ _ he => Call.noConfusion he
      simp only [Call.exec] at he
      simp only [claimAttempt] at hend
      cases hr : Lifecycle.claim cfg x now t s.db with
      | error e => rw [hr] at he; cases he
      | ok p =>
        obtain ⟨db₁, r⟩ := p
        rw [hr] at he hend
        cases r with
        | none => cases he
        | some c => cases hend
    · exact hspare.covered hf (outbox_of_exec hdb fun _ _ _ _ he => Call.noConfusion he)

theorem Inv.heartbeat (h : Inv s) {claim : ClaimedIngestionItem} {fault : Fault}
    (hw : s.workers w = some ⟨x, .running claim⟩)
    (hs : (fault = .none ∧ Accepts cfg s.db x (.heartbeat claim.attemptNumber) now t) ∨ Spare s w x) :
    Inv ((s.withDb (heartbeatAttempt cfg s claim now t fault).1).setWorker w
      (if (heartbeatAttempt cfg s claim now t fault).2 = some true then some ⟨x, .running claim⟩ else none)) := by
  have hn : claim.ingestionItemId = x := h.named w _ hw
  have hdb : _ ∨ _ := attempt_exec cfg s.db x now t fault
    (.heartbeat claim.attemptNumber)
  simp only [heartbeatAttempt, hn]
  have hf := h.frame hdb
  refine h.work hw rfl hf _ ?_ fun hend => ?_
  · intro n hn'
    split_ifs at hn'
    cases hn'
    exact ⟨rfl, hn⟩
  · rcases hs with ⟨rfl, ha⟩ | hspare
    · obtain ⟨db', he⟩ := ha.exec h.ok fun _ _ _ _ _ he => Call.noConfusion he
      simp only [Call.exec] at he
      rw [he] at hend
      cases hend
    · exact hspare.covered hf (outbox_of_exec hdb fun _ _ _ _ he => Call.noConfusion he)

theorem Inv.complete (h : Inv s) {claim : ClaimedIngestionItem} {fault : Fault} {chunks : List ChunkDraft} {hash : String}
    {metadata : JsonObject} {ids : ℕ → Uuid} {jobId : Uuid} (hw : s.workers w = some ⟨x, .running claim⟩)
    (hs : (fault ≠ .none ∨ ∃ it ∈ s.db.items, it.id = x ∧ it.toJob.OwnedBy claim.attemptNumber t) ∨ Spare s w x) :
    Inv (match (completeAttempt s claim chunks hash metadata ids now t fault).2 with
      | some _ => (s.withDb (completeAttempt s claim chunks hash metadata ids now t fault).1).setWorker w none
      | none => (s.withDb (completeAttempt s claim chunks hash metadata ids now t fault).1).setWorker w
          ((branch claim jobId .unexpected).map fun c => ⟨x, .ending claim.ingestionItemId c⟩)) := by
  have hn : claim.ingestionItemId = x := h.named w _ hw
  have hdb : _ ∨ _ := attempt_exec ⟨0, 0⟩ s.db x now t fault
    (.replaceChunksAndMarkCompleted claim.attemptNumber chunks hash metadata ids)
  have hf := h.frame hdb
  simp only [completeAttempt, hn]
  cases hr : (attempt fault s.db (Lifecycle.replaceChunksAndMarkCompleted x claim.attemptNumber chunks hash metadata ids
      now t s.db)).2 with
  | none =>
    refine h.work hw rfl hf _ ?_ fun hend => nomatch hend
    intro n hb
    obtain ⟨c, hc, rfl⟩ := Option.map_eq_some_iff.1 hb
    exact ⟨rfl, rfl, claim, jobId, _, hc⟩
  | some b =>
    obtain ⟨rfl, he⟩ := attempt_some hr
    refine h.work hw rfl hf _ (fun n hn' => nomatch hn') fun _ => ?_
    cases b with
    | true =>
      have he' : Call.exec ⟨0, 0⟩ x now t s.db (.replaceChunksAndMarkCompleted claim.attemptNumber chunks hash metadata
          ids) = .ok (_, true) := he
      have hends : EndsAttempt (.replaceChunksAndMarkCompleted claim.attemptNumber chunks hash metadata ids) := trivial
      exact h.settled hends he'
    | false =>
      rcases hs with (hne | hown) | hspare
      · exact absurd rfl hne
      · exact absurd hown (notOwned_of_replace h.ok he)
      · exact hspare.covered hf (outbox_of_exec hdb fun _ _ _ _ he => Call.noConfusion he)

theorem Inv.fail (h : Inv s) {claim : ClaimedIngestionItem} {e : WorkerError} {jobId : Uuid}
    (hw : s.workers w = some ⟨x, .running claim⟩) (hs : e ≠ .leaseLost ∨ Spare s w x) :
    Inv (s.setWorker w ((branch claim jobId e).map fun c => ⟨x, .ending claim.ingestionItemId c⟩)) := by
  have hf : Frame x s.db s.db := .refl h.ok h.payload
  refine h.work hw rfl hf _ ?_ fun hend => ?_
  · intro n hn
    obtain ⟨c, hc, rfl⟩ := Option.map_eq_some_iff.1 hn
    exact ⟨rfl, h.named w _ hw, claim, jobId, e, hc⟩
  · rcases hs with hne | hspare
    · cases e with
      | leaseLost => exact absurd rfl hne
      | _ => cases hend
    · exact hspare.covered hf rfl

theorem Inv.finish (h : Inv s) {itemId : Uuid} {c : Call} {fault : Fault} (hw : s.workers w = some ⟨x, .ending itemId c⟩)
    (hs : (fault ≠ .lost ∧ Accepts cfg s.db x c now t) ∨ Spare s w x) :
    Inv ((s.withDb (attempt fault s.db (c.exec cfg itemId now t s.db)).1).setWorker w none) := by
  obtain ⟨rfl, claim, jobId, e, hb⟩ : itemId = x ∧ _ := h.named w _ hw
  obtain ⟨hends, hplain⟩ := branch_ends hb
  have hdb := attempt_exec cfg s.db itemId now t fault c
  refine h.work hw rfl (h.frame hdb) _ (fun n hn => nomatch hn) fun _ => ?_
  rcases hdb with hsame | he
  · rcases hs with ⟨hne, ha⟩ | hspare
    · -- an accepted call commits, also when it raises afterwards
      obtain ⟨db', he⟩ := ha.exec h.ok hplain
      have hcommit : (attempt fault s.db (c.exec cfg itemId now t s.db)).1 = db' := by
        rw [he]
        cases fault with
        | lost => exact absurd rfl hne
        | _ => rfl
      rw [hcommit]
      exact h.settled hends he
    · rw [hsame]
      exact hspare.covered (.refl h.ok h.payload) rfl
  · exact h.settled hends he

/-- Every sound step keeps every open item covered. -/
theorem step_inv (o : Op) (hl : legal o) (hs : Sound cfg s o) (h : Inv s) : Inv (step cfg d s o) := by
  cases o with
  | addItem itemId jobId run art t =>
    have hok : ((Ingestion.Op.addItem itemId jobId run art t).run cfg s.db).Ok := Op.run_ok h.ok _
    simp only [step]
    rcases addItem_cases cfg itemId jobId run art t s.db with
      he | ⟨hj, hitems, houtbox⟩
    · rw [he]; exact h
    · exact h.addItem hok hj hitems houtbox
  | publisher o =>
    have hi := h.publisher cfg d hl.1 none fun i he => absurd he (hl.2 i none)
    simp only [Option.toList_none, List.append_nil] at hi
    exact hi
  | dispatch i error accepted =>
    refine h.publisher cfg d rfl _ fun j he => ?_
    cases he
    exact if_pos (.inl rfl)
  | deliver w k =>
    simp only [step]
    split
    · next hw hk => exact h.deliver hw hk
    · exact h
  | crash w =>
    simp only [step]
    split
    · next hw => exact h.crash hw
    · exact h
  | claim w now t fault =>
    simp only [step]
    split
    · next x hw => exact h.claim hw (hs x hw)
    · exact h
  | heartbeat w now t fault =>
    simp only [step]
    split
    · next x claim hw => exact h.heartbeat hw (hs x claim hw)
    · exact h
  | complete w chunks hash metadata ids jobId now t fault =>
    simp only [step]
    split
    · next x claim hw => exact h.complete hw (hs x claim hw)
    · exact h
  | fail w e jobId =>
    simp only [step]
    split
    · next x claim hw => exact h.fail hw (hs x claim hw)
    · exact h
  | finish w now t fault =>
    simp only [step]
    split
    · next x itemId c hw => exact h.finish hw (hs x itemId c hw)
    · exact h
  | periodic task => exact h

/-- **No item is left behind** in a run whose every step is sound. -/
theorem attended (cfg : Config) (d : Time) (runs artifacts : List Uuid) (s : St)
    (hs : Run (step cfg d) (fun s o => legal o ∧ Sound cfg s o) (init runs artifacts) s) :
    ∀ it ∈ s.db.items, ¬ it.status.Terminal → Attended s it := by
  have h : Inv s := hs.inv (fun s o ho h => step_inv o ho.1 ho.2 h) (init_inv runs artifacts)
  intro it hit ht
  rcases h.covered it hit ht with hm | ⟨r, hr, hagg, hp, -⟩
  · exact .inr (.inl hm)
  · exact .inl ⟨r, hr, hagg, hp⟩

/-- an item is added, its job dispatched and marked, its message delivered, and the item claimed -/
theorem attended_claimed :
    let s := Lib.run (step ⟨60, 3⟩ 60) (init [5] [6]) [.addItem 1 10 5 6 0, .publisher (.claim 0 10 1 1 []),
      .dispatch 0 none true, .publisher (.record 0 2 2), .deliver 0 0, .claim 0 3 3 .none]
    ∀ it ∈ s.db.items, ¬ it.status.Terminal → Attended s it := by
  have hclaim : ∀ x, (Lib.run (step ⟨60, 3⟩ 60) (init [5] [6]) [.addItem 1 10 5 6 0, .publisher (.claim 0 10 1 1 []),
      .dispatch 0 none true, .publisher (.record 0 2 2), .deliver 0 0]).workers 0 = some ⟨x, .claiming⟩ → x = 1 := by
    intro x hx
    cases hx
    rfl
  refine attended ⟨60, 3⟩ 60 [5] [6] _ (run_of_admissible ⟨⟨trivial, trivial⟩, ⟨⟨rfl, ?_⟩, trivial⟩, ⟨trivial, trivial⟩,
    ⟨⟨rfl, ?_⟩, trivial⟩, ⟨trivial, trivial⟩, ⟨trivial, fun x hx => ?_⟩, trivial⟩)
  · intro i error he; cases he
  · intro i error he; cases he
  · obtain rfl := hclaim x hx
    exact .inl ⟨rfl, by decide, fun _ _ _ _ he => Call.noConfusion he⟩

/-- **A failed renewal strands the item**: the handler returns, its message is gone, the item stays running, and no job,
message, worker or periodic task is left for it. -/
theorem heartbeat_failure_strands :
    let s := Lib.run (step ⟨60, 3⟩ 60) (init [5] [6]) [.addItem 1 10 5 6 0, .publisher (.claim 0 10 1 1 []),
      .dispatch 0 none true, .publisher (.record 0 2 2), .deliver 0 0, .claim 0 3 3 .none, .heartbeat 0 23 23 .lost]
    Run (step ⟨60, 3⟩ 60) (fun _ => legal) (init [5] [6]) s ∧
      ∃ it ∈ s.db.items, ¬ it.status.Terminal ∧ ¬ Attended s it := by
  intro s
  constructor
  · refine run_of_admissible ⟨trivial, ⟨rfl, ?_⟩, trivial, ⟨rfl, ?_⟩, trivial, trivial, trivial, trivial⟩
    · intro i error he; cases he
    · intro i error he; cases he
  · have hidle : ∀ w, s.workers w = none := by
      intro w
      by_cases hw : w = 0
      · subst hw; rfl
      · exact (St.workers_setWorker_ne hw _).trans ((St.workers_setWorker_ne hw _).trans (St.workers_setWorker_ne hw _))
    obtain ⟨it, hit, hopen, hrows⟩ : ∃ it ∈ s.db.items, ¬ it.status.Terminal ∧
        ∀ r ∈ s.db.outbox, ¬ (r.aggregateId = it.id ∧ r.Pending) := by decide
    refine ⟨it, hit, hopen, ?_⟩
    rintro (⟨r, hr, hrp⟩ | (hq | ⟨w, m, hm, -⟩) | ⟨w, claim, hm, -⟩ | ⟨task, ht, hacts⟩)
    · exact hrows r hr hrp
    · exact absurd hq List.not_mem_nil
    · rw [hidle w] at hm; cases hm
    · rw [hidle w] at hm; cases hm
    · cases task; cases hacts

end AtlasRag.Ingestion.Delivery
