/-
The tables `embedding_runs` and `chunk_embeddings` with their constraints, and the queries on them.

An embedding run is a leased job (`Lib.LeasedJob`) for one ingestion item and one embedding model; a partial unique index
allows a pair one run in flight. A row of `chunk_embeddings` is the vector of one chunk for one model, with the run that
stored it. The components of a vector are what the column holds: who writes them has rounded them to its four bytes
(`Embedding.Worker`), and a number beyond the range of a four-byte float is refused.

The tables of the ingestion module are read only: the chunk set of a completed item does not change.

Results:
- `EmbeddingRun.defects_eq_nil`: an admissible row of `embedding_runs`;
- `mem_updateRuns`: what an UPDATE leaves behind;
- `listChunkIds_nodup`, `mem_listChunkIds`.
-/
import AtlasRag.Lib.Table
import AtlasRag.Ingestion.Chunk

namespace AtlasRag.Embedding

open AtlasRag.Lib.LeasedJob AtlasRag.Lib.Table AtlasRag.Platform AtlasRag.Ingestion

/-- `EmbeddingStatus` -/
abbrev EmbeddingStatus := Status

def MAX_ATTEMPTS_EXCEEDED : String := "max_attempts_exceeded"

def MAX_VECTOR_DIMENSION : ℤ := 16000

/-- what rounds to a finite four-byte float lies strictly between its negative and itself -/
def FLOAT4_BOUND : ℚ := 2 ^ 128 - 2 ^ 103

/-! ## Rows -/

structure EmbeddingRun extends Job Time JsonObject where
  id : Uuid
  ingestionItemId : Uuid
  embeddingModelId : Uuid
  configuration : JsonObject
  configurationHash : String
  createdByPrincipalId : Option Uuid
  createdAt : Time
deriving Repr

namespace EmbeddingRun

/-- the pair that the run is for -/
def pair (r : EmbeddingRun) : Uuid × Uuid := (r.ingestionItemId, r.embeddingModelId)

def InFlight (r : EmbeddingRun) : Prop := r.status = .pending ∨ r.status = .running

instance (r : EmbeddingRun) : Decidable r.InFlight := inferInstanceAs (Decidable (_ ∨ _))

/-- the constraints a row violates; `attempt_count` is a natural number, so its CHECK holds by type -/
def defects (r : EmbeddingRun) : List Violation :=
  checkThat "running_requires_claim"
    (r.status = .running → r.startedAt.isSome ∧ r.claimedAt.isSome ∧ r.leaseExpiresAt.isSome) ++
  checkThat "lease_only_while_running" (r.status = .running ∨ r.leaseExpiresAt = none) ++
  checkThat "valid_lease" (∀ l ∈ r.leaseExpiresAt, ∃ c ∈ r.claimedAt, c < l) ++
  checkThat "terminal_requires_completed_at" (r.status.Terminal → r.completedAt.isSome) ++
  checkThat "completed_not_before_started" (∀ c ∈ r.completedAt, ∃ s ∈ r.startedAt, s ≤ c) ++
  textColumn "configuration_hash" (some 64) (some r.configurationHash) ++
  textColumn "error_code" (some 150) r.errorCode ++ textColumn "error_message" none r.errorMessage

/-- No CHECK of the table refuses the row iff its lifecycle columns agree and its texts fit. -/
theorem defects_eq_nil {r : EmbeddingRun} : r.defects = [] ↔ Checks r.toJob ∧ FitsText (some 64) r.configurationHash ∧
    (∀ x ∈ r.errorCode, FitsText (some 150) x) ∧ ∀ x ∈ r.errorMessage, FitsText none x := by
  simp only [defects, List.append_eq_nil_iff, checkThat_eq_nil, IngestionItem.textColumn_eq_nil,
    Option.mem_some_iff, forall_eq']
  constructor
  · intro ⟨⟨⟨⟨⟨⟨⟨h1, h2⟩, h3⟩, h4⟩, h5⟩, h6⟩, h7⟩, h8⟩
    exact ⟨⟨h1, h2, h3, h4, h5⟩, h6, h7, h8⟩
  · intro ⟨⟨h1, h2, h3, h4, h5⟩, h6, h7, h8⟩
    exact ⟨⟨⟨⟨⟨⟨⟨h1, h2⟩, h3⟩, h4⟩, h5⟩, h6⟩, h7⟩, h8⟩

theorem inFlight_iff {r : EmbeddingRun} : r.InFlight ↔ ¬ r.status.Terminal := by
  cases h : r.status <;> simp [InFlight, Status.Terminal, h]

end EmbeddingRun

structure ChunkEmbedding where
  chunkId : Uuid
  embeddingModelId : Uuid
  embeddingRunId : Uuid
  dimension : ℤ
  embedding : List ℚ
  createdAt : Time
deriving DecidableEq, Repr

namespace ChunkEmbedding

/-- the primary key -/
def key (v : ChunkEmbedding) : Uuid × Uuid := (v.chunkId, v.embeddingModelId)

def defects (v : ChunkEmbedding) : List Violation :=
  checkThat "valid_dimension" (0 < v.dimension ∧ v.dimension ≤ MAX_VECTOR_DIMENSION) ++
  checkThat "embedding_matches_dimension" (v.embedding.length = v.dimension) ++
  if ∀ x ∈ v.embedding, -FLOAT4_BOUND < x ∧ x < FLOAT4_BOUND then [] else [.outOfRange "embedding"]

end ChunkEmbedding

/-- the tables; `models` and `principals` are the keys that references may name -/
structure EmbeddingDb where
  items : List IngestionItem
  chunks : List Chunk
  models : List Uuid
  principals : List Uuid
  runs : List EmbeddingRun
  embeddings : List ChunkEmbedding

namespace EmbeddingDb

/-! ## Queries -/

/-- `is_item_embeddable` -/
def isItemEmbeddable (db : EmbeddingDb) (ingestionItemId : Uuid) : Bool :=
  decide ((db.items.find? (·.id = ingestionItemId)).map (·.status) = some .completed)

def listChunkIds (db : EmbeddingDb) (ingestionItemId : Uuid) : List Uuid :=
  ((chunksOf ingestionItemId db.chunks).insertionSort fun a b => a.chunkIndex ≤ b.chunkIndex).map (·.id)

/-- the runs that `find_in_flight_run` selects -/
def findInFlightRuns (db : EmbeddingDb) (ingestionItemId embeddingModelId : Uuid) : List EmbeddingRun :=
  db.runs.filter fun r => r.ingestionItemId = ingestionItemId ∧ r.embeddingModelId = embeddingModelId ∧ r.InFlight

def findStalePendingRuns (db : EmbeddingDb) (pendingBefore : Time) (limit : ℕ) : List EmbeddingRun :=
  ((db.runs.filter fun r => r.status = .pending ∧ r.createdAt ≤ pendingBefore).insertionSort
    fun a b => a.createdAt ≤ b.createdAt).take limit

def findExpiredRuns (db : EmbeddingDb) (limit : ℕ) (t : Time) : List EmbeddingRun :=
  ((db.runs.filter fun r => r.status = .running ∧ r.Expired t).insertionSort
    fun a b => a.leaseExpiresAt.getD 0 ≤ b.leaseExpiresAt.getD 0).take limit

/-- `count_for_model` -/
def countForModel (embeddings : List ChunkEmbedding) (embeddingModelId : Uuid) (chunkIds : List Uuid) : ℕ :=
  if chunkIds = [] then 0
  else embeddings.countP fun v => v.embeddingModelId = embeddingModelId ∧ v.chunkId ∈ chunkIds

/-- the vectors of an item's chunks for a model -/
def vectors (db : EmbeddingDb) (ingestionItemId embeddingModelId : Uuid) : List ChunkEmbedding :=
  db.embeddings.filter fun v => v.embeddingModelId = embeddingModelId ∧ v.chunkId ∈ db.listChunkIds ingestionItemId

end EmbeddingDb

/-! ## Statements -/

abbrev RunStmt := Stmt Time JsonObject

def EmbeddingRun.set (s : RunStmt) (r : EmbeddingRun) : EmbeddingRun := { r with toJob := s.set r.toJob }

@[simp] theorem EmbeddingRun.set_id (s : RunStmt) (r : EmbeddingRun) : (r.set s).id = r.id := rfl

@[simp] theorem EmbeddingRun.set_pair (s : RunStmt) (r : EmbeddingRun) : (r.set s).pair = r.pair := rfl

namespace EmbeddingDb

def addRun (db : EmbeddingDb) (r : EmbeddingRun) : EmbeddingDb := { db with runs := db.runs ++ [r] }

/-- the rows among `ids` that a statement matches -/
def matching (db : EmbeddingDb) (ids : List Uuid) (s : RunStmt) : List EmbeddingRun :=
  db.runs.filter fun r => r.id ∈ ids ∧ s.Matches r.toJob

def updateRuns (db : EmbeddingDb) (ids : List Uuid) (s : RunStmt) : EmbeddingDb :=
  { db with runs := mapWhere (·.id ∈ ids) (EmbeddingRun.set s) db.runs }

/-- the rows `gone` are deleted, and `rows` inserted -/
def replaceVectors (db : EmbeddingDb) (gone rows : List ChunkEmbedding) : EmbeddingDb :=
  { db with embeddings := (db.embeddings.filter (· ∉ gone)) ++ rows }

variable {db : EmbeddingDb} {ids : List Uuid} {s : RunStmt} {r : EmbeddingRun}

theorem mem_matching : r ∈ db.matching ids s ↔ r ∈ db.runs ∧ r.id ∈ ids ∧ s.Matches r.toJob := by
  simp [matching]

theorem mem_updateRuns : r ∈ (db.updateRuns ids s).runs ↔
    (∃ r₀ ∈ db.runs, r₀.id ∈ ids ∧ r₀.set s = r) ∨ (r ∈ db.runs ∧ r.id ∉ ids) := mem_mapWhere

theorem updateRuns_ids : (db.updateRuns ids s).runs.map (·.id) = db.runs.map (·.id) :=
  map_mapWhere EmbeddingRun.id fun _ => rfl

theorem mem_listChunkIds {ingestionItemId x : Uuid} : x ∈ db.listChunkIds ingestionItemId ↔
    ∃ c ∈ db.chunks, c.ingestionItemId = ingestionItemId ∧ c.id = x := by
  simp [listChunkIds, chunksOf, and_assoc]

theorem listChunkIds_nodup (h : (db.chunks.map (·.id)).Nodup) (ingestionItemId : Uuid) :
    (db.listChunkIds ingestionItemId).Nodup := by
  have hperm : ((chunksOf ingestionItemId db.chunks).insertionSort fun a b => a.chunkIndex ≤ b.chunkIndex).Perm
      (chunksOf ingestionItemId db.chunks) := List.perm_insertionSort _ _
  have hsub : ((chunksOf ingestionItemId db.chunks).map (·.id)).Sublist (db.chunks.map (·.id)) :=
    List.filter_sublist.map _
  exact ((hperm.map _).nodup_iff).2 (hsub.nodup h)

theorem mem_findInFlightRuns {ingestionItemId embeddingModelId : Uuid} :
    r ∈ db.findInFlightRuns ingestionItemId embeddingModelId ↔
      r ∈ db.runs ∧ r.pair = (ingestionItemId, embeddingModelId) ∧ r.InFlight := by
  simp [findInFlightRuns, EmbeddingRun.pair, and_assoc]

end EmbeddingDb

end AtlasRag.Embedding
