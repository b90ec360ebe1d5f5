/-
`DefaultIngestionProcessor`: what one attempt does between its claim and the call that completes the item.

The loader reads the artifact's record and its object, and compares size and SHA-256 digest with the recorded ones; the
processor then extracts, reads the run's chunking configuration, chunks, and passes the chunks and the observed digest to
`replace_chunks_and_mark_completed`. Extraction, the configuration's parser and the chunker are parameters
(`Environment`): nothing here depends on what they return.

Result:
- `process_hash`: whatever the environment does, a completing call of the processor carries the recorded hash of the
  artifact it was claimed for.
-/
import AtlasRag.Ingestion.Lifecycle

namespace AtlasRag.Ingestion

open AtlasRag.Platform

/-! ## `ArtifactLoader` -/

inductive DocumentArtifactStatus where
  | available
  | missing
  | retired
  | deleted
deriving DecidableEq, Repr

/-- the columns of an artifact that the loader reads -/
structure DocumentArtifactState where
  artifactId : Uuid
  languageCode : Option String
  storageKey : String
  mimeType : String
  fileHash : String
  fileSizeBytes : ℕ
  status : DocumentArtifactStatus
deriving DecidableEq, Repr

structure LoadedArtifact where
  artifactId : Uuid
  content : List UInt8
  mimeType : String
  expectedFileHash : String
  observedFileHash : String
  fileSizeBytes : ℕ
  languageCode : Option String

/-- what reading an object may raise -/
inductive ObjectStorageError where
  | objectNotFound
  | objectStorageUnavailable
deriving DecidableEq, Repr

inductive ArtifactLoadError where
  | unavailableForIngestion (artifactId : Uuid) (status : Option DocumentArtifactStatus)
  | integrityMismatch (artifactId : Uuid) (expectedFileHash observedFileHash : String)
      (expectedFileSizeBytes observedFileSizeBytes : ℕ)
  | storage (e : ObjectStorageError)
deriving DecidableEq, Repr

/-- what `ExtractionFailed` says -/
structure ExtractionFailed where
  primaryReason : String
  fallbackReason : String
  retryable : Bool

structure ExtractionResult (δ : Type) where
  document : δ
  /-- the number of blocks of the document, and its metadata -/
  blockCount : ℤ
  documentMetadata : JsonObject
  method : String
  fallbackUsed : Bool
  fallbackReason : Option String
  qualityScore : Json

structure ChunkingConfig where
  strategy : String
  referenceTokenizer : String
  referenceTokenizerVersion : String
  maxTokens : ℤ
  overlapTokens : ℤ
  preserveTables : Bool

/-- what a processor works with; `δ` is the extracted document -/
structure Environment (δ : Type) where
  findForIngestion : Uuid → Option DocumentArtifactState
  get : String → Except ObjectStorageError (List UInt8)
  sha256 : List UInt8 → String
  extract : LoadedArtifact → Except ExtractionFailed (ExtractionResult δ)
  /-- the configuration of an ingestion run -/
  findRun : Uuid → Option JsonObject
  /-- `from_run_configuration`; `none` is `ValueError` -/
  fromRunConfiguration : JsonObject → Option ChunkingConfig
  /-- the resolved chunker; `none` is `ValueError` -/
  chunk : ChunkingConfig → δ → Option String → Option (List ChunkDraft)

variable {δ : Type}

def Environment.load (env : Environment δ) (artifactId : Uuid) : Except ArtifactLoadError LoadedArtifact :=
  match env.findForIngestion artifactId with
  | none => .error (.unavailableForIngestion artifactId none)
  | some artifact =>
    if artifact.status ≠ .available then .error (.unavailableForIngestion artifactId (some artifact.status))
    else
      match env.get artifact.storageKey with
      | .error e => .error (.storage e)
      | .ok content =>
        let observedFileHash := env.sha256 content
        if content.length ≠ artifact.fileSizeBytes ∨ observedFileHash ≠ artifact.fileHash then
          .error (.integrityMismatch artifact.artifactId artifact.fileHash observedFileHash artifact.fileSizeBytes
            content.length)
        else .ok ⟨artifact.artifactId, content, artifact.mimeType, artifact.fileHash, observedFileHash, content.length,
          artifact.languageCode⟩

/-! ## `DefaultIngestionProcessor` -/

def EXTRACTION_FAILED : String := "extraction_failed"

def CHUNKING_FAILED : String := "chunking_failed"

/-- what a processor may raise -/
inductive WorkerError where
  | leaseLost
  | permanent (errorCode : String) (message : Option String)
  | transient
  /-- any other exception -/
  | unexpected
deriving DecidableEq, Repr

def buildExecutionMetadata (result : ExtractionResult δ) : JsonObject :=
  [("extraction", .obj [("method", .str result.method), ("fallback_used", .bool result.fallbackUsed),
    ("fallback_reason", (result.fallbackReason.map Json.str).getD .null), ("quality_score", result.qualityScore),
    ("block_count", .int result.blockCount), ("document_metadata", .obj result.documentMetadata)])]

def withChunkingMetadata (metadata : JsonObject) (config : ChunkingConfig) (chunkCount : ℕ) : JsonObject :=
  metadata ++ [("chunking", .obj [("strategy", .str config.strategy),
    ("reference_tokenizer", .str config.referenceTokenizer),
    ("reference_tokenizer_version", .str config.referenceTokenizerVersion), ("chunk_count", .int chunkCount)])]

namespace DefaultIngestionProcessor

def load (env : Environment δ) (artifactId : Uuid) : Except WorkerError LoadedArtifact :=
  match env.load artifactId with
  | .ok artifact => .ok artifact
  | .error (.unavailableForIngestion ..) => .error (.permanent "artifact_unavailable_for_ingestion" none)
  | .error (.integrityMismatch ..) => .error (.permanent "artifact_integrity_mismatch" none)
  | .error (.storage .objectNotFound) => .error (.permanent "artifact_object_missing" none)
  | .error (.storage .objectStorageUnavailable) => .error .transient

def extract (env : Environment δ) (artifact : LoadedArtifact) : Except WorkerError (ExtractionResult δ) :=
  match env.extract artifact with
  | .ok result => .ok result
  | .error e => .error (if e.retryable then .transient else .permanent EXTRACTION_FAILED none)

def getChunkingConfig (env : Environment δ) (ingestionRunId : Uuid) : Except WorkerError ChunkingConfig :=
  match (env.findRun ingestionRunId).bind env.fromRunConfiguration with
  | some config => .ok config
  | none => .error (.permanent CHUNKING_FAILED none)

def chunk (env : Environment δ) (result : ExtractionResult δ) (config : ChunkingConfig)
    (languageCode : Option String) : Except WorkerError (List ChunkDraft) :=
  match env.chunk config result.document languageCode with
  | some chunks => .ok chunks
  | none => .error (.permanent CHUNKING_FAILED none)

/-- `process` up to the completing call; `ids` are the keys of the rows that call will insert -/
def process (env : Environment δ) (claim : ClaimedIngestionItem) (ids : ℕ → Uuid) : Except WorkerError Call := do
  let artifact ← load env claim.documentArtifactId
  let result ← extract env artifact
  let config ← getChunkingConfig env claim.ingestionRunId
  let chunks ← chunk env result config artifact.languageCode
  return .replaceChunksAndMarkCompleted claim.attemptNumber chunks artifact.observedFileHash
    (withChunkingMetadata (buildExecutionMetadata result) config chunks.length) ids

end DefaultIngestionProcessor

/-! ## What a completing call carries -/

theorem load_hash {env : Environment δ} {artifactId : Uuid} {loaded : LoadedArtifact}
    (h : DefaultIngestionProcessor.load env artifactId = .ok loaded) :
    ∃ artifact, env.findForIngestion artifactId = some artifact ∧ loaded.observedFileHash = artifact.fileHash := by
  have hload : env.load artifactId = .ok loaded := by
    unfold DefaultIngestionProcessor.load at h
    split at h
    · next hl => rw [hl]; exact congrArg _ (Except.ok.inj h)
    all_goals cases h
  unfold Environment.load at hload
  split at hload
  · cases hload
  · next artifact hfind =>
    refine ⟨artifact, hfind, ?_⟩
    split_ifs at hload
    split at hload
    · cases hload
    · simp only at hload
      split_ifs at hload with hsame
      cases hload
      exact not_not.1 (not_or.1 hsame).2

/-- The processor completes an item under its artifact's recorded hash only. -/
theorem process_hash {env : Environment δ} {claim : ClaimedIngestionItem} {ids : ℕ → Uuid} {c : Call}
    (h : DefaultIngestionProcessor.process env claim ids = .ok c) :
    ∃ artifact, env.findForIngestion claim.documentArtifactId = some artifact ∧ c.hash? = some artifact.fileHash := by
  unfold DefaultIngestionProcessor.process at h
  cases hl : DefaultIngestionProcessor.load env claim.documentArtifactId with
  | error e => rw [hl] at h; cases h
  | ok loaded =>
    obtain ⟨artifact, hfind, hhash⟩ := load_hash hl
    refine ⟨artifact, hfind, ?_⟩
    rw [hl] at h
    simp only [bind, Except.bind, pure, Except.pure] at h
    repeat' split at h
    all_goals first
      | (cases h; done)
      | (cases h; rw [← hhash]; rfl)

end AtlasRag.Ingestion
