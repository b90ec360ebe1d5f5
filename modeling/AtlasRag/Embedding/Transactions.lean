/-
The transactions of `EmbeddingLifecycleService`, statement by statement, as programs of `Lib.Transaction`.

A statement that may touch several rows selects them from what is committed when it starts, and checks each one again when
it has its lock. An INSERT holds its unique keys to the end of the transaction, and waits for a transaction that is
changing a row it conflicts with. The locks of foreign-key checks are left out: they only make a transaction wait.

`now` is the application time that a call reads, `t` the database time at which its transaction began; both are
arbitrary. The dispatch that follows a commit changes no table.
-/
import AtlasRag.Lib.Transaction
import AtlasRag.Embedding.Tables

namespace AtlasRag.Embedding

open AtlasRag.Lib AtlasRag.Lib.LeasedJob AtlasRag.Lib.RowLock AtlasRag.Lib.Table AtlasRag.Lib.Transaction
open AtlasRag.Platform AtlasRag.Ingestion

def INGESTION_ITEM_NOT_COMPLETED : String := "ingestion item is not completed"

def CHUNK_SET_MOVED_DURING_RUN : String := "chunk set no longer matches the loaded chunk set"

def INCOMPLETE_VECTOR_SET : String := "persisted vector count does not match the chunk count"

def IN_FLIGHT_INDEX : String := "uq_embedding_runs_in_flight"

structure Config where
  leaseDuration : Time
  maxAttempts : ℕ
  /-- `canonical_configuration_hash` -/
  configurationHash : JsonObject → String

structure ChunkVector where
  chunkId : Uuid
  values : List ℚ
deriving DecidableEq, Repr

structure ClaimedEmbeddingRun where
  embeddingRunId : Uuid
  ingestionItemId : Uuid
  embeddingModelId : Uuid
  attemptNumber : ℕ
  claimedAt : Time
  leaseExpiresAt : Time
deriving DecidableEq, Repr

/-- `integrity`: an `IntegrityError` on a table; `multipleResultsFound`: raised by `one_or_none` -/
inductive EmbeddingError where
  | ingestionItemNotEmbeddable (reason : String)
  | embeddingRunAlreadyInFlight (ingestionItemId embeddingModelId : Uuid)
  | chunkSetChanged (reason : String)
  | multipleResultsFound
  | integrity (table : String) (violations : List Violation)
deriving DecidableEq, Repr

/-- the arguments of `persist_vectors_and_mark_completed` -/
structure Completion where
  runId : Uuid
  attemptNumber : ℕ
  ingestionItemId : Uuid
  embeddingModelId : Uuid
  dimension : ℤ
  expectedChunkIds : List Uuid
  vectors : List ChunkVector
  executionMetadata : JsonObject

/-- the rows that a completion inserts -/
def Completion.rows (c : Completion) (t : Time) : List ChunkEmbedding :=
  c.vectors.map fun v => ⟨v.chunkId, c.embeddingModelId, c.runId, c.dimension, v.values, t⟩

inductive Request where
  | createRun (runId ingestionItemId embeddingModelId : Uuid) (configuration : JsonObject)
      (createdByPrincipalId : Option Uuid)
  | claim (runId : Uuid)
  | heartbeat (runId : Uuid) (attemptNumber : ℕ)
  | scheduleRetry (runId : Uuid) (attemptNumber : ℕ) (errorCode : String) (errorMessage : Option String)
  | markFailed (runId : Uuid) (attemptNumber : ℕ) (errorCode : String) (errorMessage : Option String)
      (executionMetadata : Option JsonObject)
  | persistVectorsAndMarkCompleted (c : Completion)
  | reapExpiredRuns

inductive Outcome where
  | created (runId : Uuid)
  | claimed (claim : Option ClaimedEmbeddingRun)
  | returned (b : Bool)
  | reaped (count : ℕ)
  | raised (e : EmbeddingError)
deriving DecidableEq, Repr

structure Reply where
  request : Request
  now : Time
  t : Time
  outcome : Outcome

/-- a row, or a unique key, that a statement locks -/
inductive EmbeddingRow where
  | run (id : Uuid)
  | inFlight (ingestionItemId embeddingModelId : Uuid)
  | vector (key : Uuid × Uuid)
deriving DecidableEq, Repr

abbrev Tx := Txn EmbeddingDb EmbeddingRow Reply

/-! ## Rows that a statement writes -/

/-- the row `add_run` inserts -/
def newRun (cfg : Config) (t : Time) (runId ingestionItemId embeddingModelId : Uuid) (configuration : JsonObject)
    (createdBy : Option Uuid) : EmbeddingRun :=
  ⟨Job.new [], runId, ingestionItemId, embeddingModelId, configuration, cfg.configurationHash configuration, createdBy, t⟩

def newRunViolations (db : EmbeddingDb) (r : EmbeddingRun) : List Violation :=
  r.defects ++ uniqueIndex "pk_embedding_runs" (r.id ∈ db.runs.map (·.id)) ++
  uniqueIndex IN_FLIGHT_INDEX (r.pair ∈ (db.runs.filter (·.InFlight)).map (·.pair)) ++
  reference "ingestion_item_id" (r.ingestionItemId ∈ db.items.map (·.id)) ++
  reference "embedding_model_id" (r.embeddingModelId ∈ db.models) ++
  reference "created_by_principal_id" (∀ p ∈ r.createdByPrincipalId, p ∈ db.principals)

/-- inserting `rows` into the table `embeddings` -/
def vectorViolations (db : EmbeddingDb) (embeddings rows : List ChunkEmbedding) : List Violation :=
  rows.flatMap ChunkEmbedding.defects ++
  uniqueIndex "pk_chunk_embeddings" (¬ ((embeddings ++ rows).map (·.key)).Nodup) ++
  reference "chunk_id" (∀ v ∈ rows, v.chunkId ∈ db.chunks.map (·.id)) ++
  reference "embedding_model_id" (∀ v ∈ rows, v.embeddingModelId ∈ db.models) ++
  reference "embedding_run_id" (∀ v ∈ rows, v.embeddingRunId ∈ db.runs.map (·.id))

/-! ## Programs -/

section Programs

variable (cfg : Config) (reply : Outcome → Reply)

def raise (e : EmbeddingError) : Tx := .rollback (reply (.raised e))

/-- an UPDATE of `embedding_runs`; it goes on with the rows it matched, as they were -/
def update (ids : List Uuid) (s : RunStmt) (k : List EmbeddingRun → Tx) : Tx :=
  .stmt (fun db => (db.matching ids s).map fun r => .run r.id) fun db =>
    match updateWhere EmbeddingRun.defects (fun r => r.id ∈ ids ∧ s.Matches r.toJob) (EmbeddingRun.set s) db.runs with
    | .error es => raise reply (.integrity "embedding_runs" es)
    | .ok _ => k (db.matching ids s)

/-- the commit of the rows that an UPDATE matched -/
def commitUpdate (rows : List EmbeddingRun) (s : RunStmt) (outcome : Outcome) : Tx :=
  .commit (fun db => db.updateRuns (rows.map (·.id)) s) (reply outcome)

/-- an UPDATE of one run, committed if it matched -/
def updateOne (runId : Uuid) (s : RunStmt) : Tx :=
  update reply [runId] s fun rows =>
    if rows.length = 1 then commitUpdate reply rows s (.returned true) else .rollback (reply (.returned false))

/-- `add_run` and the commit -/
def addRun (r : EmbeddingRun) : Tx :=
  .stmt (fun db => .run r.id :: .inFlight r.ingestionItemId r.embeddingModelId ::
      (db.findInFlightRuns r.ingestionItemId r.embeddingModelId).map fun x => .run x.id) fun db =>
    match newRunViolations db r with
    | [] => .commit (fun db => db.addRun r) (reply (.created r.id))
    | es => raise reply (.integrity "embedding_runs" es)

def createRun (t : Time) (runId ingestionItemId embeddingModelId : Uuid) (configuration : JsonObject)
    (createdBy : Option Uuid) : Tx :=
  .read fun db =>
    if db.isItemEmbeddable ingestionItemId = false then
      raise reply (.ingestionItemNotEmbeddable INGESTION_ITEM_NOT_COMPLETED)
    else
      .read fun db =>
        match db.findInFlightRuns ingestionItemId embeddingModelId with
        | [] => addRun reply (newRun cfg t runId ingestionItemId embeddingModelId configuration createdBy)
        | [_] => raise reply (.embeddingRunAlreadyInFlight ingestionItemId embeddingModelId)
        | _ => raise reply .multipleResultsFound

def claim (now t : Time) (runId : Uuid) : Tx :=
  let s : RunStmt := .claim now (now + cfg.leaseDuration) cfg.maxAttempts t
  update reply [runId] s fun
  | [] => .rollback (reply (.claimed none))
  | [r] =>
    let c : ClaimedEmbeddingRun := ⟨r.id, r.ingestionItemId, r.embeddingModelId, (r.set s).attemptCount, now,
      now + cfg.leaseDuration⟩
    commitUpdate reply [r] s (.claimed (some c))
  | _ => raise reply .multipleResultsFound

def heartbeat (now t : Time) (runId : Uuid) (a : ℕ) : Tx :=
  updateOne reply runId (.heartbeat a (now + cfg.leaseDuration) t)

def scheduleRetry (now t : Time) (runId : Uuid) (a : ℕ) (errorCode : String) (errorMessage : Option String) : Tx :=
  if cfg.maxAttempts ≤ a then updateOne reply runId (.fail a now MAX_ATTEMPTS_EXCEEDED errorMessage none t)
  else updateOne reply runId (.release a (some errorCode) errorMessage t)

def markFailed (now t : Time) (runId : Uuid) (a : ℕ) (errorCode : String) (errorMessage : Option String)
    (metadata : Option JsonObject) : Tx :=
  updateOne reply runId (.fail a now errorCode errorMessage metadata t)

/-- the DELETE of `replace_for_model`; it goes on with the rows it deleted -/
def deleteForModel (embeddingModelId : Uuid) (chunkIds : List Uuid) (k : List ChunkEmbedding → Tx) : Tx :=
  if chunkIds = [] then k []
  else
    .read fun db =>
      let seen := db.embeddings.filter fun v => v.embeddingModelId = embeddingModelId ∧ v.chunkId ∈ chunkIds
      .stmt (fun _ => seen.map fun v => .vector v.key) fun db => k (seen.filter (· ∈ db.embeddings))

/-- the INSERT of `replace_for_model`, after the deletion of `gone` -/
def insertVectors (gone rows : List ChunkEmbedding) (k : Tx) : Tx :=
  if rows = [] then k
  else
    .stmt (fun _ => rows.map fun v => .vector v.key) fun db =>
      match vectorViolations db (db.embeddings.filter (· ∉ gone)) rows with
      | [] => k
      | es => raise reply (.integrity "chunk_embeddings" es)

def persistVectorsAndMarkCompleted (now t : Time) (c : Completion) : Tx :=
  .read fun db =>
    if db.listChunkIds c.ingestionItemId ≠ c.expectedChunkIds then
      raise reply (.chunkSetChanged CHUNK_SET_MOVED_DURING_RUN)
    else
      deleteForModel c.embeddingModelId c.expectedChunkIds fun gone =>
      insertVectors reply gone (c.rows t) <|
      .read fun db =>
        let own := (db.replaceVectors gone (c.rows t)).embeddings
        if EmbeddingDb.countForModel own c.embeddingModelId c.expectedChunkIds ≠ c.expectedChunkIds.length then
          raise reply (.chunkSetChanged INCOMPLETE_VECTOR_SET)
        else
          let s : RunStmt := .complete c.attemptNumber now c.executionMetadata t
          update reply [c.runId] s fun rows =>
            if rows.length = 1 then
              .commit (fun db => (db.replaceVectors gone (c.rows t)).updateRuns (rows.map (·.id)) s)
                (reply (.returned true))
            else .rollback (reply (.returned false))

def reapExpiredRuns (now t : Time) : Tx :=
  let s : RunStmt := .failExhausted now cfg.maxAttempts MAX_ATTEMPTS_EXCEEDED t
  .read fun db =>
    let due := (db.runs.filter fun r => s.Matches r.toJob).map (·.id)
    update reply due s fun rows =>
      if 0 < rows.length then commitUpdate reply rows s (.reaped rows.length) else .rollback (reply (.reaped 0))

end Programs

/-- the transaction of a request that reads the application time `now` and begins at the database time `t` -/
def Request.txn (cfg : Config) (now t : Time) (q : Request) : Tx :=
  let reply o : Reply := ⟨q, now, t, o⟩
  match q with
  | .createRun x item model configuration by' => Embedding.createRun cfg reply t x item model configuration by'
  | .claim x => Embedding.claim cfg reply now t x
  | .heartbeat x a => Embedding.heartbeat cfg reply now t x a
  | .scheduleRetry x a code message => Embedding.scheduleRetry cfg reply now t x a code message
  | .markFailed x a code message metadata => Embedding.markFailed reply now t x a code message metadata
  | .persistVectorsAndMarkCompleted c => Embedding.persistVectorsAndMarkCompleted reply now t c
  | .reapExpiredRuns => Embedding.reapExpiredRuns cfg reply now t

abbrev State := Sys EmbeddingDb Tx EmbeddingRow Reply

/-- a completion is for the item and the model of its run, as the claim of the run names them, and its vectors are for
expected chunks, as the batcher makes them -/
def Request.Legal (db : EmbeddingDb) : Request → Prop
  | .persistVectorsAndMarkCompleted c =>
    (∃ r ∈ db.runs, r.id = c.runId ∧ r.pair = (c.ingestionItemId, c.embeddingModelId)) ∧
      ∀ v ∈ c.vectors, v.chunkId ∈ c.expectedChunkIds
  | _ => True

/-- sessions run the transactions of legal requests, on clock readings that meet `clock` -/
def Legal (cfg : Config) (clock : Time → Time → Prop) (s : State) : RowLock.Op Tx → Prop
  | .start _ p => ∃ q now t, p = Request.txn cfg now t q ∧ clock now t ∧ q.Legal s.db
  | _ => True

/-- a run of embedding transactions from the database `db` -/
abbrev EmbeddingRuns (cfg : Config) (clock : Time → Time → Prop) (db : EmbeddingDb) (s : State) : Prop :=
  Run (step next) (Legal cfg clock) (Sys.init db) s

end AtlasRag.Embedding
