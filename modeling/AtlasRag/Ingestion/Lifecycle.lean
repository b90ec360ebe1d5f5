/-
`IngestionLifecycleService`: each call opens a unit of work, runs its statements and commits, as one function on the
database (items, chunks and outbox). A call raises when the database refuses one of its rows or the chunk set is frozen;
then, and when its UPDATE matches no row, nothing is kept.

A call carries the application time `now` and the database time `t` of its transaction. `Call` lists the calls that work
on one item, and `Op.exec` is the service: adding an item, a call, or the reap.

Results:
- `Call.exec_true`, `Call.exec_false`: a call that reports success ran its one UPDATE on the item, any other keeps
  nothing;
- `Call.exec_refused`: which table can refuse which call;
- `requeue_ok`: the outbox accepts a retry iff no pending row of the item is leased;
- `Op.exec_ok`: every operation keeps the database admissible.
-/
import AtlasRag.Ingestion.Chunk
import AtlasRag.Jobs.Outbox

namespace AtlasRag.Ingestion

open AtlasRag.Lib.LeasedJob AtlasRag.Lib.Table AtlasRag.Platform AtlasRag.Jobs

def SUPERSEDED_BY_RETRY : String := "superseded_by_retry"

/-- `lease_duration` and `max_attempts` of the service -/
structure Config where
  leaseDuration : Time
  maxAttempts : ℕ

structure Db where
  items : List IngestionItem
  chunks : List Chunk
  outbox : Outbox
  /-- the keys of `ingestion_runs` and of `document_artifacts` -/
  runs : List Uuid
  artifacts : List Uuid

structure ClaimedIngestionItem where
  ingestionItemId : Uuid
  documentArtifactId : Uuid
  attemptNumber : ℕ
  claimedAt : Time
  leaseExpiresAt : Time
  ingestionRunId : Uuid
deriving DecidableEq, Repr

/-- the payload of an item's outbox rows -/
def itemPayload (itemId : Uuid) : Payload := [("ingestion_item_id", itemId)]

/-- the outbox row with which an item is handed to the workers -/
def itemJob (jobId itemId : Uuid) (t : Time) : JobOutbox :=
  .new jobId PROCESS_INGESTION_ITEM itemId (itemPayload itemId) t

/-! ## `IngestionLifecycleService` -/

namespace Lifecycle

/-- a unit of work whose one statement updates the item: kept iff it matched one row -/
def updating (db : Db) (r : Except (List Violation) (List IngestionItem × ℕ)) : Except IngestionError (Db × Bool) :=
  match r with
  | .error es => .error (.refused "ingestion_items" es)
  | .ok (items, n) => .ok (if n = 1 then ({ db with items }, true) else (db, false))

def addItem (itemId jobId ingestionRunId documentArtifactId : Uuid) (t : Time) (db : Db) :
    Except IngestionError (Db × Bool) :=
  match IngestionRepository.addItem itemId ingestionRunId documentArtifactId db.runs db.artifacts t db.items with
  | .error es => .error (.refused "ingestion_items" es)
  | .ok items =>
    match enqueue jobId PROCESS_INGESTION_ITEM itemId (itemPayload itemId) t db.outbox with
    | .error es => .error (.refused "job_outbox" es)
    | .ok outbox => .ok ({ db with items, outbox }, true)

def claim (cfg : Config) (itemId : Uuid) (now t : Time) (db : Db) :
    Except IngestionError (Db × Option ClaimedIngestionItem) :=
  match IngestionRepository.claimItem itemId now (now + cfg.leaseDuration) cfg.maxAttempts t db.items with
  | .error es => .error (.refused "ingestion_items" es)
  | .ok (items, _) =>
    match db.items.find? fun it => it.id = itemId ∧ it.toJob.Claimable cfg.maxAttempts t with
    | none => .ok (db, none)
    | some it => .ok ({ db with items }, some ⟨it.id, it.documentArtifactId, it.attemptCount + 1, now,
        now + cfg.leaseDuration, it.ingestionRunId⟩)

def heartbeat (cfg : Config) (itemId : Uuid) (a : ℕ) (now t : Time) (db : Db) : Except IngestionError (Db × Bool) :=
  updating db (IngestionRepository.heartbeat itemId a (now + cfg.leaseDuration) t db.items)

/-- the outbox half of `schedule_retry` -/
def requeue (itemId jobId : Uuid) (now t : Time) (outbox : Outbox) : Except DbError Outbox :=
  match discardPendingForAggregate PROCESS_INGESTION_ITEM itemId now SUPERSEDED_BY_RETRY outbox with
  | .error es => .error es
  | .ok (outbox, _) => enqueue jobId PROCESS_INGESTION_ITEM itemId (itemPayload itemId) t outbox

def scheduleRetry (cfg : Config) (itemId : Uuid) (a : ℕ) (errorCode : String) (errorMessage : Option String)
    (jobId : Uuid) (now t : Time) (db : Db) : Except IngestionError (Db × Bool) :=
  if cfg.maxAttempts ≤ a then
    updating db (IngestionRepository.markFailed itemId a now MAX_ATTEMPTS_EXCEEDED errorMessage none t db.items)
  else
    match IngestionRepository.releaseForRetry itemId a (some errorCode) errorMessage t db.items with
    | .error es => .error (.refused "ingestion_items" es)
    | .ok (items, n) =>
      if n = 1 then
        match requeue itemId jobId now t db.outbox with
        | .error es => .error (.refused "job_outbox" es)
        | .ok outbox => .ok ({ db with items, outbox }, true)
      else .ok (db, false)

def markFailed (itemId : Uuid) (a : ℕ) (errorCode : String) (errorMessage : Option String)
    (metadata : Option JsonObject) (now t : Time) (db : Db) : Except IngestionError (Db × Bool) :=
  updating db (IngestionRepository.markFailed itemId a now errorCode errorMessage metadata t db.items)

def markCompleted (itemId : Uuid) (a : ℕ) (observedFileHash : String) (metadata : JsonObject) (now t : Time) (db : Db) :
    Except IngestionError (Db × Bool) :=
  updating db (IngestionRepository.markCompleted itemId a now observedFileHash metadata t db.items)

def replaceChunksAndMarkCompleted (itemId : Uuid) (a : ℕ) (chunks : List ChunkDraft) (observedFileHash : String)
    (metadata : JsonObject) (ids : ℕ → Uuid) (now t : Time) (db : Db) : Except IngestionError (Db × Bool) :=
  match replaceForItem itemId chunks ids t db.items db.chunks with
  | .error e => .error e
  | .ok chunks =>
    match IngestionRepository.markCompleted itemId a now observedFileHash metadata t db.items with
    | .error es => .error (.refused "ingestion_items" es)
    | .ok (items, n) => .ok (if n = 1 then ({ db with items, chunks }, true) else (db, false))

def reapExpiredItems (cfg : Config) (now t : Time) (db : Db) : Except IngestionError (Db × Bool) :=
  match IngestionRepository.failExhaustedExpiredItems now cfg.maxAttempts t db.items with
  | .error es => .error (.refused "ingestion_items" es)
  | .ok (items, count) => .ok (if 0 < count then ({ db with items }, true) else (db, false))

end Lifecycle

/-! ## The calls on one item -/

inductive Call where
  | claim
  | heartbeat (a : ℕ)
  | scheduleRetry (a : ℕ) (errorCode : String) (errorMessage : Option String) (jobId : Uuid)
  | markFailed (a : ℕ) (errorCode : String) (errorMessage : Option String) (metadata : Option JsonObject)
  | markCompleted (a : ℕ) (observedFileHash : String) (metadata : JsonObject)
  | replaceChunksAndMarkCompleted (a : ℕ) (chunks : List ChunkDraft) (observedFileHash : String) (metadata : JsonObject)
      (ids : ℕ → Uuid)

/-- the attempt a call carries -/
def Call.attempt? : Call → Option ℕ
  | .claim => none
  | .heartbeat a => some a
  | .scheduleRetry a _ _ _ => some a
  | .markFailed a _ _ _ => some a
  | .markCompleted a _ _ => some a
  | .replaceChunksAndMarkCompleted a _ _ _ _ => some a

/-- the UPDATE of `ingestion_items` that a call makes -/
def Call.stmt (cfg : Config) (now t : Time) : Call → ItemStmt
  | .claim => .claim now (now + cfg.leaseDuration) cfg.maxAttempts t
  | .heartbeat a => .heartbeat a (now + cfg.leaseDuration) t
  | .scheduleRetry a code msg _ =>
    if cfg.maxAttempts ≤ a then .fail a now MAX_ATTEMPTS_EXCEEDED msg none t else .release a (some code) msg t
  | .markFailed a code msg metadata => .fail a now code msg metadata t
  | .markCompleted a _ metadata => .complete a now metadata t
  | .replaceChunksAndMarkCompleted a _ _ metadata _ => .complete a now metadata t

/-- the file hash that the UPDATE of a call records -/
def Call.hash? : Call → Option String
  | .markCompleted _ h _ => some h
  | .replaceChunksAndMarkCompleted _ _ h _ _ => some h
  | _ => none

/-- an operation of the service, with the times it reads -/
inductive Op where
  | addItem (itemId jobId ingestionRunId documentArtifactId : Uuid) (t : Time)
  | call (itemId : Uuid) (c : Call) (now t : Time)
  | reap (now t : Time)

/-- the service call; the result says whether it reports success (a claim: whether it is granted) -/
def Call.exec (cfg : Config) (itemId : Uuid) (now t : Time) (db : Db) : Call → Except IngestionError (Db × Bool)
  | .claim => (Lifecycle.claim cfg itemId now t db).map fun r => (r.1, r.2.isSome)
  | .heartbeat a => Lifecycle.heartbeat cfg itemId a now t db
  | .scheduleRetry a code msg jobId => Lifecycle.scheduleRetry cfg itemId a code msg jobId now t db
  | .markFailed a code msg metadata => Lifecycle.markFailed itemId a code msg metadata now t db
  | .markCompleted a h metadata => Lifecycle.markCompleted itemId a h metadata now t db
  | .replaceChunksAndMarkCompleted a chunks h metadata ids =>
    Lifecycle.replaceChunksAndMarkCompleted itemId a chunks h metadata ids now t db

def Op.exec (cfg : Config) (db : Db) : Op → Except IngestionError (Db × Bool)
  | .addItem itemId jobId run art t => Lifecycle.addItem itemId jobId run art t db
  | .call itemId c now t => c.exec cfg itemId now t db
  | .reap now t => Lifecycle.reapExpiredItems cfg now t db

/-- the database after the operation: a raised call keeps nothing -/
def Op.run (cfg : Config) (db : Db) (o : Op) : Db :=
  match o.exec cfg db with
  | .error _ => db
  | .ok (db', _) => db'

/-! ## What a call does -/

/-- what a call that reports success did: its one UPDATE matched, and the two other tables changed only as the retry and
the chunk replacement change them -/
structure Call.Effect (cfg : Config) (itemId : Uuid) (now t : Time) (c : Call) (db db' : Db) : Prop where
  update : ∃ n, 0 < n ∧ updateItem itemId (c.stmt cfg now t) c.hash? db.items = .ok (db'.items, n)
  outbox : db'.outbox = db.outbox ∨ ∃ a code msg jobId, c = .scheduleRetry a code msg jobId ∧ a < cfg.maxAttempts ∧
    Lifecycle.requeue itemId jobId now t db.outbox = .ok db'.outbox
  chunks : db'.chunks = db.chunks ∨ ∃ a drafts h metadata ids,
    c = .replaceChunksAndMarkCompleted a drafts h metadata ids ∧
      replaceForItem itemId drafts ids t db.items db.chunks = .ok db'.chunks
  refs : db'.runs = db.runs ∧ db'.artifacts = db.artifacts

variable {cfg : Config} {itemId : Uuid} {now t : Time} {db db' : Db}

theorem stmt_lastAttempt {a : ℕ} {code : String} {msg : Option String} {jobId : Uuid} (ha : cfg.maxAttempts ≤ a) :
    (Call.scheduleRetry a code msg jobId).stmt cfg now t = .fail a now MAX_ATTEMPTS_EXCEEDED msg none t := if_pos ha

theorem stmt_release {a : ℕ} {code : String} {msg : Option String} {jobId : Uuid} (ha : ¬ cfg.maxAttempts ≤ a) :
    (Call.scheduleRetry a code msg jobId).stmt cfg now t = .release a (some code) msg t := if_neg ha

theorem updating_ok {r : Except (List Violation) (List IngestionItem × ℕ)} {b : Bool}
    (h : Lifecycle.updating db r = .ok (db', b)) :
    (b = true ∧ r = .ok (db'.items, 1) ∧ db' = { db with items := db'.items }) ∨ (b = false ∧ db' = db) := by
  unfold Lifecycle.updating at h
  split at h
  · cases h
  · split_ifs at h with hn
    · cases h; exact .inl ⟨rfl, by rw [hn], rfl⟩
    · cases h; exact .inr ⟨rfl, rfl⟩

theorem updating_error {r : Except (List Violation) (List IngestionItem × ℕ)} {e : IngestionError}
    (h : Lifecycle.updating db r = .error e) : ∃ es, e = .refused "ingestion_items" es ∧ r = .error es := by
  unfold Lifecycle.updating at h
  split at h
  · next es => cases h; exact ⟨es, rfl, rfl⟩
  · cases h

/-- a call made of a single UPDATE -/
theorem Call.Effect.ofUpdating {c : Call}
    (h : Lifecycle.updating db (updateItem itemId (c.stmt cfg now t) c.hash? db.items) = .ok (db', true)) :
    c.Effect cfg itemId now t db db' := by
  rcases updating_ok h with ⟨-, hr, hdb⟩ | ⟨hb, -⟩
  · have ho : db'.outbox = db.outbox := by rw [hdb]
    have hc : db'.chunks = db.chunks := by rw [hdb]
    have hf : db'.runs = db.runs ∧ db'.artifacts = db.artifacts := by rw [hdb]; exact ⟨rfl, rfl⟩
    exact ⟨⟨1, Nat.one_pos, hr⟩, .inl ho, .inl hc, hf⟩
  · cases hb

/-- A call that reports success ran its UPDATE on the item. -/
theorem Call.exec_true {c : Call} (h : c.exec cfg itemId now t db = .ok (db', true)) :
    c.Effect cfg itemId now t db db' := by
  cases c with
  | claim =>
    simp only [Call.exec, Lifecycle.claim] at h
    split at h
    · cases h
    · next items n hu =>
      split at h
      · cases h
      · next it hf =>
        cases h
        have hit := List.find?_some hf
        simp only [decide_eq_true_eq] at hit
        have hn : 0 < n := by
          obtain ⟨-, -, rfl⟩ := updateWhere_ok.1 hu
          exact List.countP_pos_iff.2 ⟨it, List.mem_of_find?_eq_some hf, decide_eq_true hit⟩
        exact ⟨⟨n, hn, hu⟩, .inl rfl, .inl rfl, rfl, rfl⟩
  | heartbeat a => exact .ofUpdating h
  | scheduleRetry a code msg jobId =>
    simp only [Call.exec, Lifecycle.scheduleRetry] at h
    split_ifs at h with ha
    · refine .ofUpdating ?_
      rw [stmt_lastAttempt ha]; exact h
    · split at h
      · cases h
      · next items n hu =>
        split_ifs at h with hn
        · split at h
          · cases h
          · next outbox hq =>
            cases h
            refine ⟨⟨n, by omega, ?_⟩, .inr ⟨a, code, msg, jobId, rfl, by omega, hq⟩, .inl rfl, rfl, rfl⟩
            rw [stmt_release ha]; exact hu
        · cases h
  | markFailed a code msg metadata => exact .ofUpdating h
  | markCompleted a hash metadata => exact .ofUpdating h
  | replaceChunksAndMarkCompleted a drafts hash metadata ids =>
    simp only [Call.exec, Lifecycle.replaceChunksAndMarkCompleted] at h
    split at h
    · cases h
    · next chunks hc =>
      split at h
      · cases h
      · next items n hu =>
        split_ifs at h with hn
        · cases h
          exact ⟨⟨n, by omega, hu⟩, .inl rfl, .inr ⟨a, drafts, hash, metadata, ids, rfl, hc⟩, rfl, rfl⟩
        · cases h

/-- A call that reports failure keeps nothing. -/
theorem Call.exec_false {c : Call} (h : c.exec cfg itemId now t db = .ok (db', false)) : db' = db := by
  have hupd : ∀ r, Lifecycle.updating db r = .ok (db', false) → db' = db := by
    intro r hr
    rcases updating_ok hr with ⟨hb, -, -⟩ | ⟨-, hdb⟩
    · cases hb
    · exact hdb
  cases c with
  | claim =>
    simp only [Call.exec, Lifecycle.claim] at h
    split at h
    · cases h
    · split at h
      · cases h; rfl
      · cases h
  | scheduleRetry a code msg jobId =>
    simp only [Call.exec, Lifecycle.scheduleRetry] at h
    split_ifs at h
    · exact hupd _ h
    · split at h
      · cases h
      · split_ifs at h
        · split at h <;> cases h
        · cases h; rfl
  | replaceChunksAndMarkCompleted a drafts hash metadata ids =>
    simp only [Call.exec, Lifecycle.replaceChunksAndMarkCompleted] at h
    split at h
    · cases h
    · split at h
      · cases h
      · split_ifs at h
        · cases h
        · cases h; rfl
  | _ => exact hupd _ h

/-- **Which table can refuse a call**: its item, the outbox (a retry below the limit), or the chunks. -/
theorem Call.exec_refused {c : Call} {table : String} {es : List Violation}
    (h : c.exec cfg itemId now t db = .error (.refused table es)) :
    (table = "ingestion_items" ∧ updateItem itemId (c.stmt cfg now t) c.hash? db.items = .error es) ∨
    (table = "job_outbox" ∧ ∃ a code msg jobId, c = .scheduleRetry a code msg jobId ∧
      Lifecycle.requeue itemId jobId now t db.outbox = .error es) ∨
    (table = "chunks" ∧ ∃ a drafts hash metadata ids, c = .replaceChunksAndMarkCompleted a drafts hash metadata ids) := by
  have hupd : ∀ r, Lifecycle.updating db r = .error (.refused table es) → table = "ingestion_items" ∧ r = .error es := by
    intro r hr
    obtain ⟨es', he, hr'⟩ := updating_error hr
    cases he
    exact ⟨rfl, hr'⟩
  cases c with
  | claim =>
    simp only [Call.exec, Lifecycle.claim] at h
    split at h
    · next hu => cases h; exact .inl ⟨rfl, hu⟩
    · split at h <;> cases h
  | scheduleRetry a code msg jobId =>
    simp only [Call.exec, Lifecycle.scheduleRetry] at h
    split_ifs at h with ha
    · rw [stmt_lastAttempt ha]; exact .inl (hupd _ h)
    · split at h
      · next hu =>
        cases h
        rw [stmt_release ha]; exact .inl ⟨rfl, hu⟩
      · split_ifs at h
        split at h
        · next hq => cases h; exact .inr (.inl ⟨rfl, a, code, msg, jobId, rfl, hq⟩)
        · cases h
  | replaceChunksAndMarkCompleted a drafts hash metadata ids =>
    simp only [Call.exec, Lifecycle.replaceChunksAndMarkCompleted] at h
    split at h
    · next e he =>
      cases h
      unfold replaceForItem at he
      split at he
      · next hg =>
        cases he
        unfold guardMutableChunkSet at hg
        split_ifs at hg
        cases hg
      · split at he
        · cases he; exact .inr (.inr ⟨rfl, a, drafts, hash, metadata, ids, rfl⟩)
        · cases he
    · split at h
      · next hu => cases h; exact .inl ⟨rfl, hu⟩
      · split_ifs at h
  | _ => exact .inl (hupd _ h)

/-! ## The outbox half of a retry -/

/-- the pending outbox rows of an item -/
def PendingFor (itemId : Uuid) (r : JobOutbox) : Prop :=
  r.jobType = PROCESS_INGESTION_ITEM ∧ r.aggregateId = itemId ∧ r.Pending

instance (itemId : Uuid) (r : JobOutbox) : Decidable (PendingFor itemId r) := inferInstanceAs (Decidable (_ ∧ _ ∧ _))

/-- the outbox in which the pending rows of an item are superseded -/
def superseded (itemId : Uuid) (now : Time) (outbox : Outbox) : Outbox :=
  mapWhere (PendingFor itemId) (fun r => { r with failedAt := some now, failureCode := some SUPERSEDED_BY_RETRY }) outbox

theorem superseded_ids (itemId : Uuid) (now : Time) (outbox : Outbox) :
    (superseded itemId now outbox).map (·.id) = outbox.map (·.id) := map_mapWhere _ fun _ => rfl

theorem mem_superseded {r : JobOutbox} {outbox : Outbox} (h : r ∈ superseded itemId now outbox) :
    ∃ r₀ ∈ outbox, r₀.id = r.id ∧ r₀.jobType = r.jobType ∧ r₀.aggregateId = r.aggregateId ∧
      r₀.leaseExpiresAt = r.leaseExpiresAt ∧ (r₀ = r ∨ (PendingFor itemId r₀ ∧ r.failedAt = some now)) := by
  rcases mem_mapWhere.1 h with ⟨r₀, h₀, hp, rfl⟩ | ⟨h₀, -⟩
  · exact ⟨r₀, h₀, rfl, rfl, rfl, rfl, .inr ⟨hp, rfl⟩⟩
  · exact ⟨r, h₀, rfl, rfl, rfl, rfl, .inl rfl⟩

/-- **When the outbox accepts a retry**: no pending row of the item is leased, expired or not. -/
theorem requeue_ok (itemId : Uuid) (now t : Time) {jobId : Uuid} {outbox outbox' : Outbox} (ho : ∀ r ∈ outbox, r.defects = [])
    (hj : jobId ∉ outbox.map (·.id)) :
    Lifecycle.requeue itemId jobId now t outbox = .ok outbox' ↔
      (∀ r ∈ outbox, PendingFor itemId r → r.leaseExpiresAt = none) ∧
      outbox' = superseded itemId now outbox ++ [itemJob jobId itemId t] := by
  have hcode : NonBlank SUPERSEDED_BY_RETRY := by decide
  have hfit : FitsText (some 100) SUPERSEDED_BY_RETRY := by decide
  have hty : FitsText (some 100) PROCESS_INGESTION_ITEM := by decide
  unfold Lifecycle.requeue
  cases hd : discardPendingForAggregate PROCESS_INGESTION_ITEM itemId now SUPERSEDED_BY_RETRY outbox with
  | error es =>
    refine iff_of_false (by simp) fun h => ?_
    have hok := (discard_ok (o := outbox) (f := now) ho hcode hfit).2
      ⟨fun r hr h1 h2 h3 => h.1 r hr ⟨h1, h2, h3⟩, rfl, rfl⟩
    rw [hd] at hok
    cases hok
  | ok p =>
    obtain ⟨o', n⟩ := p
    obtain ⟨hl, ho', -⟩ := (discard_ok ho hcode hfit).1 hd
    have ho' : o' = superseded itemId now outbox := ho'
    subst ho'
    simp only [enqueue_ok, superseded_ids]
    constructor
    · rintro ⟨-, -, rfl⟩; exact ⟨fun r hr hp => hl r hr hp.1 hp.2.1 hp.2.2, rfl⟩
    · rintro ⟨-, rfl⟩; exact ⟨hj, hty, rfl⟩

/-- an accepted retry leaves an admissible outbox -/
theorem requeue_defects {jobId : Uuid} {outbox outbox' : Outbox}
    (h : Lifecycle.requeue itemId jobId now t outbox = .ok outbox') (ho : ∀ r ∈ outbox, r.defects = []) :
    ∀ r ∈ outbox', r.defects = [] := by
  unfold Lifecycle.requeue at h
  split at h
  · cases h
  · next hd =>
    unfold discardPendingForAggregate at hd
    have h1 := updateWhere_keeps hd ho
    unfold enqueue at h
    split_ifs at h
    exact insertRow_keeps h h1

theorem requeue_row {jobId : Uuid} {outbox outbox' : Outbox}
    (h : Lifecycle.requeue itemId jobId now t outbox = .ok outbox') (ho : ∀ r ∈ outbox, r.defects = []) :
    jobId ∉ outbox.map (·.id) ∧ (∀ r ∈ outbox, PendingFor itemId r → r.leaseExpiresAt = none) ∧
      outbox' = superseded itemId now outbox ++ [itemJob jobId itemId t] := by
  have hj : jobId ∉ outbox.map (·.id) := by
    intro hmem
    unfold Lifecycle.requeue at h
    split at h
    · cases h
    · next o n hd =>
      obtain ⟨-, ho', -⟩ := updateWhere_ok.1 hd
      have hids : o.map (·.id) = outbox.map (·.id) := by rw [ho']; exact map_mapWhere _ fun _ => rfl
      exact (enqueue_ok.1 h).1 (hids ▸ hmem)
  exact ⟨hj, (requeue_ok itemId now t ho hj).1 h⟩

/-- a retry below the limit, with both halves accepted -/
theorem scheduleRetry_commits {a : ℕ} {code : String} {msg : Option String} {jobId : Uuid} {items : List IngestionItem}
    {outbox : Outbox} (ha : ¬ cfg.maxAttempts ≤ a)
    (hu : IngestionRepository.releaseForRetry itemId a (some code) msg t db.items = .ok (items, 1))
    (hq : Lifecycle.requeue itemId jobId now t db.outbox = .ok outbox) :
    Lifecycle.scheduleRetry cfg itemId a code msg jobId now t db = .ok ({ db with items, outbox }, true) := by
  simp only [Lifecycle.scheduleRetry, if_neg ha, hu, hq]
  rfl

/-! ## Admissible databases -/

/-- every row of the two tables meets its constraints, keys are unique, and the outbox holds jobs of items only -/
structure Db.Ok (db : Db) : Prop where
  itemIds : (db.items.map (·.id)).Nodup
  items : ∀ it ∈ db.items, it.defects = []
  jobIds : (db.outbox.map (·.id)).Nodup
  outbox : ∀ r ∈ db.outbox, r.defects = [] ∧ r.jobType = PROCESS_INGESTION_ITEM

theorem nodup_append_new {l : List Uuid} {x : Uuid} (hl : l.Nodup) (hx : x ∉ l) : (l ++ [x]).Nodup := by
  rw [List.nodup_append]
  refine ⟨hl, List.nodup_singleton x, fun a ha b hb hab => ?_⟩
  rw [List.mem_singleton.1 hb] at hab
  exact hx (hab ▸ ha)

theorem itemJob_defects (jobId itemId : Uuid) (t : Time) : (itemJob jobId itemId t).defects = [] := by
  have hty : FitsText (some 100) PROCESS_INGESTION_ITEM := by decide
  simp [itemJob, JobOutbox.defects, JobOutbox.new, hty]

theorem Db.Ok.requeued (h : db.Ok) {jobId : Uuid} {outbox' : Outbox}
    (hq : Lifecycle.requeue itemId jobId now t db.outbox = .ok outbox') :
    (outbox'.map (·.id)).Nodup ∧ ∀ r ∈ outbox', r.defects = [] ∧ r.jobType = PROCESS_INGESTION_ITEM := by
  have hdef : ∀ r ∈ db.outbox, r.defects = [] := fun r hr => (h.outbox r hr).1
  obtain ⟨hj, -, rfl⟩ := requeue_row hq hdef
  have hall := requeue_defects hq hdef
  constructor
  · rw [List.map_append, superseded_ids]; exact nodup_append_new h.jobIds hj
  · intro r hr
    refine ⟨hall r hr, ?_⟩
    rcases List.mem_append.1 hr with hr | hr
    · obtain ⟨r₀, h₀, -, hty, -⟩ := mem_superseded hr
      exact hty ▸ (h.outbox r₀ h₀).2
    · rw [List.mem_singleton.1 hr]; rfl

/-- Every operation keeps the database admissible. -/
theorem Op.exec_ok (h : db.Ok) {o : Op} {b : Bool} (he : o.exec cfg db = .ok (db', b)) : db'.Ok := by
  cases o with
  | addItem itemId jobId run art t =>
    simp only [Op.exec, Lifecycle.addItem] at he
    split at he
    · cases he
    · next items hitems =>
      split at he
      · cases he
      · next outbox hq =>
        cases he
        unfold IngestionRepository.addItem at hitems
        split at hitems
        · next hkeys =>
          have hnew : itemId ∉ db.items.map (·.id) := by
            intro hmem
            simp [IngestionRepository.keyDefects, hmem] at hkeys
          obtain ⟨hd, rfl⟩ := insertRow_ok.1 hitems
          obtain ⟨hj, -, rfl⟩ := enqueue_ok.1 hq
          refine ⟨?_, insertRow_keeps hitems h.items, ?_, fun r hr => ?_⟩
          · rw [List.map_append]; exact nodup_append_new h.itemIds hnew
          · rw [List.map_append]; exact nodup_append_new h.jobIds hj
          · rcases List.mem_append.1 hr with hr | hr
            · exact h.outbox r hr
            · rw [List.mem_singleton.1 hr]; exact ⟨itemJob_defects jobId itemId t, rfl⟩
        · cases hitems
  | reap n t =>
    simp only [Op.exec, Lifecycle.reapExpiredItems] at he
    split at he
    · cases he
    · next items count hu =>
      have hids : items.map (·.id) = db.items.map (·.id) := by
        obtain ⟨-, rfl, -⟩ := updateWhere_ok.1 hu
        exact map_mapWhere _ fun _ => rfl
      split_ifs at he
      · cases he; exact ⟨hids ▸ h.itemIds, updateWhere_keeps hu h.items, h.jobIds, h.outbox⟩
      · cases he; exact h
  | call itemId c n t =>
    cases b with
    | false => exact Call.exec_false he ▸ h
    | true =>
      have heff := Call.exec_true he
      obtain ⟨k, -, hu⟩ := heff.update
      have hids : db'.items.map (·.id) = db.items.map (·.id) := by
        obtain ⟨-, hi, -⟩ := updateWhere_ok.1 hu
        rw [hi]; exact map_mapWhere _ fun _ => rfl
      have hob : (db'.outbox.map (·.id)).Nodup ∧
          ∀ r ∈ db'.outbox, r.defects = [] ∧ r.jobType = PROCESS_INGESTION_ITEM := by
        rcases heff.outbox with hob | ⟨a, code, msg, jobId, rfl, -, hq⟩
        · rw [hob]; exact ⟨h.jobIds, h.outbox⟩
        · exact h.requeued hq
      exact ⟨hids ▸ h.itemIds, updateWhere_keeps hu h.items, hob.1, hob.2⟩

theorem Op.run_ok (h : db.Ok) (o : Op) : (o.run cfg db).Ok := by
  unfold Op.run
  split
  · exact h
  · next he => exact Op.exec_ok h he

end AtlasRag.Ingestion
