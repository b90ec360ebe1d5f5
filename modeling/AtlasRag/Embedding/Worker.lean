/-
`DefaultEmbeddingProcessor`: what one attempt does between its claim and the call that completes the run.

The processor reads the run, its model, its configuration and the chunks of the item, embeds the chunks, and passes the
vectors on with a report of the work. The rows of models, the text of a stored document, the classes of the exceptions that a
provider raises and the rounding of the vector column are parameters (`Environment`).

Results:
- `process_ok`: a completing call carries what the batcher returned for the chunks of the item, under the run's model and
  configuration;
- `listed_process`, `listed_persisted`: the codes and texts that an attempt can leave in its run.
-/
import AtlasRag.Embedding.Batching.Batcher
import AtlasRag.Embedding.ModelRegistry
import AtlasRag.Embedding.Changes

namespace AtlasRag.Embedding

open AtlasRag.Lib AtlasRag.Platform AtlasRag.Ingestion Batching
open Registry (AiProvider VectorDistanceMetric)

/-! ## Errors -/

def EMBEDDING_RUN_MISSING : String := "embedding_run_missing"

def EMBEDDING_MODEL_MISSING : String := "embedding_model_missing"

def EMBEDDING_CONFIGURATION_INVALID : String := "embedding_configuration_invalid"

def INGESTION_ITEM_NOT_EMBEDDABLE : String := "ingestion_item_not_embeddable"

def EMBEDDING_INPUT_TOO_LARGE : String := "embedding_input_too_large"

def EMBEDDING_INPUT_INVALID : String := "embedding_input_invalid"

def EMBEDDING_VECTOR_INVALID : String := "embedding_vector_invalid"

def EMBEDDING_PROVIDER_FAILED : String := "embedding_provider_failed"

def INVALID_PROVIDER_RESPONSE : String := "invalid_provider_response"

def CHUNK_SET_CHANGED : String := "chunk_set_changed"

def NO_CHUNKS_TO_EMBED : String := "no_chunks_to_embed"

def TRANSIENT_EMBEDDING_ERROR : String := "transient_embedding_error"

def UNEXPECTED_EMBEDDING_ERROR : String := "unexpected_embedding_error"

/-- what a processor may raise -/
inductive WorkerError where
  | leaseLost
  | permanent (errorCode : String) (message : Option String)
  | transient
  /-- any other exception -/
  | unexpected
deriving DecidableEq, Repr

/-- the classes of what a provider raises, apart from transient failures -/
inductive ProviderException where
  | embeddingInputTooLarge
  | embeddingInputInvalid
  | embeddingVectorInvalid
  | invalidEmbeddingResponse
  | embeddingProviderPermanent
  /-- any other exception -/
  | other
deriving DecidableEq, Repr

/-! ## What an attempt reads -/

/-- the fields of `EmbeddingModelState` that the processor reads -/
structure EmbeddingModelState where
  provider : AiProvider
  modelName : String
  modelRevision : String
  dimension : ℤ
  distanceMetric : VectorDistanceMetric
  maxInputTokens : Option ℤ
deriving DecidableEq, Repr

namespace EmbeddingModelState

/-- the fields that a batch reads -/
def forBatch (model : EmbeddingModelState) : Batching.EmbeddingModelState :=
  ⟨str model.modelName, model.dimension, model.maxInputTokens⟩

/-- `create_embedding_provider` knows the provider -/
def Supported (model : EmbeddingModelState) : Prop := model.provider = .openai

instance (model : EmbeddingModelState) : Decidable model.Supported := inferInstanceAs (Decidable (_ = _))

end EmbeddingModelState

structure Environment where
  findModel : Uuid → Option EmbeddingModelState
  /-- the document that is stored as a configuration, and the value of a float in it -/
  document : JsonObject → Dict
  float : Str → ℚ
  /-- the class of an exception -/
  exception : ℕ → ProviderException
  /-- what the vector column, which has single precision, makes of a number; one beyond its range stays so, and is refused -/
  float4 : ℚ → ℚ

def AiProvider.value : AiProvider → String
  | .openai => "openai"
  | .anthropic => "anthropic"
  | .cohere => "cohere"
  | .gemini => "gemini"

def VectorDistanceMetric.value : VectorDistanceMetric → String
  | .cosine => "cosine"
  | .innerProduct => "inner_product"
  | .euclidean => "euclidean"

/-- what a provider and the pauses do in one attempt, and the turns of its tasks -/
structure Embedder where
  provider : ℕ → ℕ → Answer
  jitter : ℕ → ℕ → ℚ
  turns : List ℕ

/-- `list_chunks` -/
def EmbeddingDb.listChunks (db : EmbeddingDb) (ingestionItemId : Uuid) : List EmbeddableChunk :=
  ((chunksOf ingestionItemId db.chunks).insertionSort fun a b => a.chunkIndex ≤ b.chunkIndex).map fun c =>
    ⟨c.id, c.chunkIndex, str c.content, c.tokenCount⟩

/-- `find_run` -/
def EmbeddingDb.findRun (db : EmbeddingDb) (runId : Uuid) : Option EmbeddingRun := db.runs.find? (·.id = runId)

/-- what a processor has read -/
structure Loaded where
  model : EmbeddingModelState
  config : EmbeddingRunConfig
  chunks : List EmbeddableChunk

/-! ## The processor -/

def buildExecutionMetadata (loaded : Loaded) (outcome : EmbeddingBatchOutcome) : JsonObject :=
  let count (n : Option ℤ) : Json := (n.map Json.int).getD .null
  [("embedding", .obj [("provider", .str (AiProvider.value loaded.model.provider)), ("model", .str loaded.model.modelName),
    ("model_revision", .str loaded.model.modelRevision), ("dimension", .int loaded.model.dimension),
    ("distance_metric", .str (VectorDistanceMetric.value loaded.model.distanceMetric)),
    ("batch_count", .int outcome.batchCount), ("request_count", .int outcome.requestCount),
    ("embedded_chunk_count", .int loaded.chunks.length), ("input_tokens", count outcome.usage.inputTokens),
    ("total_tokens", count outcome.usage.totalTokens), ("batch_size", .int loaded.config.batchSize),
    ("max_batch_tokens", .int loaded.config.maxBatchTokens), ("concurrency", .int loaded.config.concurrency)])]

/-- a value that the batcher has let through, as the column stores it -/
def Batching.VectorValue.stored (float4 : ℚ → ℚ) : VectorValue → ℚ
  | .float (.finite x) => float4 x
  | .int n => float4 n
  | _ => 0

namespace DefaultEmbeddingProcessor

section

variable (env : Environment) (db : EmbeddingDb) (claim : ClaimedEmbeddingRun)

def loadRun (runId : Uuid) : Except WorkerError EmbeddingRun :=
  match db.findRun runId with
  | some run => .ok run
  | none => .error (.permanent EMBEDDING_RUN_MISSING none)

def loadModel (modelId : Uuid) : Except WorkerError EmbeddingModelState :=
  match env.findModel modelId with
  | some model => .ok model
  | none => .error (.permanent EMBEDDING_MODEL_MISSING none)

def loadConfig (run : EmbeddingRun) : Except WorkerError EmbeddingRunConfig :=
  match EmbeddingRunConfig.fromRunConfiguration env.float (env.document run.configuration) with
  | .ok config => .ok config
  | .error (.valueError _) => .error (.permanent EMBEDDING_CONFIGURATION_INVALID none)
  | .error .overflow => .error .unexpected

def loadChunks (ingestionItemId : Uuid) : Except WorkerError (List EmbeddableChunk) :=
  if db.isItemEmbeddable ingestionItemId = false then .error (.permanent INGESTION_ITEM_NOT_EMBEDDABLE none)
  else if db.listChunks ingestionItemId = [] then .error (.permanent NO_CHUNKS_TO_EMBED none)
  else .ok (db.listChunks ingestionItemId)

def load : Except WorkerError Loaded := do
  let run ← loadRun db claim.embeddingRunId
  let model ← loadModel env claim.embeddingModelId
  let config ← loadConfig env run
  let chunks ← loadChunks db claim.ingestionItemId
  .ok ⟨model, config, chunks⟩

/-- the `except` clauses of `_embed` -/
def embedError : BatchError → WorkerError
  | .embeddingInputTooLarge _ _ => .permanent EMBEDDING_INPUT_TOO_LARGE none
  | .embeddingInputInvalid _ _ => .permanent EMBEDDING_INPUT_INVALID none
  | .embeddingVectorInvalid _ => .permanent EMBEDDING_VECTOR_INVALID none
  | .invalidEmbeddingResponse _ => .permanent INVALID_PROVIDER_RESPONSE none
  | .embeddingProviderTransient _ _ => .transient
  | .provider exception =>
    match env.exception exception with
    | .embeddingInputTooLarge => .permanent EMBEDDING_INPUT_TOO_LARGE none
    | .embeddingInputInvalid => .permanent EMBEDDING_INPUT_INVALID none
    | .embeddingVectorInvalid => .permanent EMBEDDING_VECTOR_INVALID none
    | .invalidEmbeddingResponse => .permanent INVALID_PROVIDER_RESPONSE none
    | .embeddingProviderPermanent => .permanent EMBEDDING_PROVIDER_FAILED none
    | .other => .unexpected
  | .overflow => .unexpected
  | .keyError => .unexpected
  | .valueError => .unexpected

def batcher (loaded : Loaded) (e : Embedder) : EmbeddingBatcher :=
  ⟨e.provider, loaded.model.forBatch, loaded.config, e.jitter⟩

/-- `_embed`, if it has come to an end; the factory refuses a provider that it does not know -/
def embed (loaded : Loaded) (e : Embedder) : Option (Except WorkerError EmbeddingBatchOutcome) :=
  if loaded.model.Supported then
    (((batcher loaded e).embed loaded.chunks e.turns).outcome).map fun
      | .ok outcome => .ok outcome
      | .error error => .error (embedError env error)
  else some (.error .unexpected)

/-- the arguments of the completing call -/
def completion (loaded : Loaded) (outcome : EmbeddingBatchOutcome) : Completion where
  runId := claim.embeddingRunId
  attemptNumber := claim.attemptNumber
  ingestionItemId := claim.ingestionItemId
  embeddingModelId := claim.embeddingModelId
  dimension := loaded.model.dimension
  expectedChunkIds := loaded.chunks.map (·.chunkId)
  vectors := outcome.vectors.map fun v => ⟨v.chunkId, v.values.map (VectorValue.stored env.float4)⟩
  executionMetadata := buildExecutionMetadata loaded outcome

/-- `process` up to the completing call -/
def process (e : Embedder) : Option (Except WorkerError Completion) :=
  match load env db claim with
  | .error error => some (.error error)
  | .ok loaded => (embed env loaded e).map fun
    | .error error => .error error
    | .ok outcome => .ok (completion env claim loaded outcome)

/-- what the completing call comes to; `none` is an exception of the database -/
def persisted : Option Outcome → Except WorkerError Unit
  | some (.returned true) => .ok ()
  | some (.returned false) => .error .leaseLost
  | some (.raised (.chunkSetChanged _)) => .error (.permanent CHUNK_SET_CHANGED none)
  | _ => .error .unexpected

end

end DefaultEmbeddingProcessor

/-- the call that `EmbeddingJobHandler.handle` makes after an exception of the processor; `none`: it returns -/
def branch (claim : ClaimedEmbeddingRun) : WorkerError → Option Request
  | .leaseLost => none
  | .permanent errorCode message =>
    some (.markFailed claim.embeddingRunId claim.attemptNumber errorCode message none)
  | .transient => some (.scheduleRetry claim.embeddingRunId claim.attemptNumber TRANSIENT_EMBEDDING_ERROR none)
  | .unexpected => some (.scheduleRetry claim.embeddingRunId claim.attemptNumber UNEXPECTED_EMBEDDING_ERROR none)

/-! ## What a completing call carries -/

section

variable {env : Environment} {db db' : EmbeddingDb} {claim : ClaimedEmbeddingRun} {e : Embedder} {c : Completion}
  {loaded : Loaded} {outcome : EmbeddingBatchOutcome}

theorem EmbeddingDb.findRun_some {x : Uuid} {r : EmbeddingRun} (h : db.findRun x = some r) : r ∈ db.runs ∧ r.id = x :=
  ⟨List.mem_of_find?_eq_some h, by simpa using List.find?_some h⟩

/-- the completion carries what the batcher returned for the chunks of its item, under the configuration of its run and the
model of the run -/
structure Made (env : Environment) (db : EmbeddingDb) (c : Completion) (loaded : Loaded) (e : Embedder)
    (outcome : EmbeddingBatchOutcome) : Prop where
  run : ∃ r ∈ db.runs, r.id = c.runId ∧ r.pair = (c.ingestionItemId, c.embeddingModelId) ∧
    EmbeddingRunConfig.fromRunConfiguration env.float (env.document r.configuration) = .ok loaded.config
  model : env.findModel c.embeddingModelId = some loaded.model
  chunks : loaded.chunks = db.listChunks c.ingestionItemId
  embedded : ((DefaultEmbeddingProcessor.batcher loaded e).embed loaded.chunks e.turns).outcome = some (.ok outcome)
  dimension : c.dimension = loaded.model.dimension
  expected : c.expectedChunkIds = loaded.chunks.map (·.chunkId)
  vectors : c.vectors = outcome.vectors.map fun v => ⟨v.chunkId, v.values.map (VectorValue.stored env.float4)⟩
  metadata : c.executionMetadata = buildExecutionMetadata loaded outcome

namespace Made

/-- one vector for each chunk, in order -/
theorem chunkIds (h : Made env db c loaded e outcome) : c.vectors.map (·.chunkId) = c.expectedChunkIds := by
  have haligned := ((DefaultEmbeddingProcessor.batcher loaded e).embed_aligned loaded.chunks).2 e.turns outcome h.embedded
  calc c.vectors.map (·.chunkId) = outcome.vectors.map (·.chunkId) := by rw [h.vectors, List.map_map]; rfl
    _ = loaded.chunks.map (·.chunkId) := haligned.1
    _ = c.expectedChunkIds := h.expected.symm

/-- such a completion is a legal request -/
theorem legal (h : Made env db c loaded e outcome) : Request.Legal db (.persistVectorsAndMarkCompleted c) := by
  obtain ⟨r, hr, hid, hpair, -⟩ := h.run
  refine ⟨⟨r, hr, hid, hpair⟩, fun v hv => ?_⟩
  rw [← h.chunkIds]
  exact List.mem_map_of_mem hv

/-- it stays so while runs keep their configurations and items their chunks -/
theorem later (h : Made env db c loaded e outcome) (hchunks : db'.chunks = db.chunks)
    (hruns : ∀ r ∈ db.runs, ∃ r' ∈ db'.runs, r'.id = r.id ∧ r'.pair = r.pair ∧ r'.configuration = r.configuration) :
    Made env db' c loaded e outcome := by
  obtain ⟨r, hr, hid, hpair, hconfig⟩ := h.run
  obtain ⟨r', hr', hid', hpair', hconfig'⟩ := hruns r hr
  refine { h with run := ⟨r', hr', hid'.trans hid, hpair'.trans hpair, by rw [hconfig', hconfig]⟩, chunks := ?_ }
  rw [h.chunks, EmbeddingDb.listChunks, EmbeddingDb.listChunks, hchunks]

end Made

namespace DefaultEmbeddingProcessor

theorem load_ok (h : load env db claim = .ok loaded) : ∃ run, db.findRun claim.embeddingRunId = some run ∧
    env.findModel claim.embeddingModelId = some loaded.model ∧
    EmbeddingRunConfig.fromRunConfiguration env.float (env.document run.configuration) = .ok loaded.config ∧
    db.isItemEmbeddable claim.ingestionItemId = true ∧ loaded.chunks = db.listChunks claim.ingestionItemId ∧
    loaded.chunks ≠ [] := by
  unfold load at h
  obtain ⟨run, hrun, h⟩ := Effect.bind_eq_ok h
  obtain ⟨model, hmodel, h⟩ := Effect.bind_eq_ok h
  obtain ⟨config, hconfig, h⟩ := Effect.bind_eq_ok h
  obtain ⟨chunks, hchunks, h⟩ := Effect.bind_eq_ok h
  obtain rfl := Except.ok.inj h
  unfold loadRun at hrun
  unfold loadModel at hmodel
  unfold loadConfig at hconfig
  unfold loadChunks at hchunks
  split at hrun
  · next run' hfind =>
    obtain rfl := Except.ok.inj hrun
    split at hmodel
    · next model' hfindModel =>
      obtain rfl := Except.ok.inj hmodel
      split at hconfig
      · next config' hparse =>
        obtain rfl := Except.ok.inj hconfig
        split_ifs at hchunks with hitem hnone
        obtain rfl := Except.ok.inj hchunks
        exact ⟨_, hfind, hfindModel, hparse, by simpa using hitem, rfl, hnone⟩
      · cases hconfig
      · cases hconfig
    · cases hmodel
  · cases hrun

/-- **A completing call** carries what the batcher made of the chunks of the item. -/
theorem process_ok (hpair : Belongs db claim.embeddingRunId (claim.ingestionItemId, claim.embeddingModelId))
    (hids : (db.runs.map (·.id)).Nodup) (h : process env db claim e = some (.ok c)) :
    ∃ loaded outcome, Made env db c loaded e outcome := by
  unfold process at h
  split at h
  · cases h
  · next loaded hload =>
    obtain ⟨run, hrun, hmodel, hconfig, -, hchunks, -⟩ := load_ok hload
    obtain ⟨hmem, hid⟩ := EmbeddingDb.findRun_some hrun
    obtain ⟨result, hembed, hresult⟩ := Option.map_eq_some_iff.1 h
    cases result with
    | error error => cases hresult
    | ok outcome =>
      obtain rfl := Except.ok.inj hresult
      unfold embed at hembed
      split_ifs at hembed with hsupported
      · obtain ⟨result', houtcome, hresult'⟩ := Option.map_eq_some_iff.1 hembed
        cases result' with
        | error error => cases hresult'
        | ok outcome' =>
          obtain rfl := Except.ok.inj hresult'
          obtain ⟨r, hr, hrid, hrpair⟩ := hpair
          obtain rfl : run = r := List.inj_on_of_nodup_map hids hmem hr (hid.trans hrid.symm)
          exact ⟨loaded, _, ⟨run, hmem, hid, hrpair, hconfig⟩, hmodel, hchunks, houtcome, rfl, rfl, rfl, rfl⟩
      · cases hembed

end DefaultEmbeddingProcessor

end

/-! ## What an attempt leaves in its run -/

/-- the codes of permanent errors -/
def PERMANENT_CODES : List String :=
  [EMBEDDING_RUN_MISSING, EMBEDDING_MODEL_MISSING, EMBEDDING_CONFIGURATION_INVALID, INGESTION_ITEM_NOT_EMBEDDABLE,
    EMBEDDING_INPUT_TOO_LARGE, EMBEDDING_INPUT_INVALID, EMBEDDING_VECTOR_INVALID, EMBEDDING_PROVIDER_FAILED,
    INVALID_PROVIDER_RESPONSE, CHUNK_SET_CHANGED, NO_CHUNKS_TO_EMBED]

def RETRY_CODES : List String := [TRANSIENT_EMBEDDING_ERROR, UNEXPECTED_EMBEDDING_ERROR]

/-- a permanent error has one of the codes and no text -/
def WorkerError.Listed : WorkerError → Prop
  | .permanent errorCode message => errorCode ∈ PERMANENT_CODES ∧ message = none
  | _ => True

namespace DefaultEmbeddingProcessor

variable {env : Environment} {db : EmbeddingDb} {claim : ClaimedEmbeddingRun} {e : Embedder} {error : WorkerError}

theorem listed_bind {α β : Type} {x : Except WorkerError α} {f : α → Except WorkerError β}
    (hx : ∀ e, x = .error e → e.Listed) (hf : ∀ a e, f a = .error e → e.Listed) (h : x >>= f = .error error) :
    error.Listed := by
  cases x with
  | error e =>
    obtain rfl := Except.error.inj h
    exact hx e rfl
  | ok a => exact hf a error h

theorem listed_loadRun {x : Uuid} (h : loadRun db x = .error error) : error.Listed := by
  unfold loadRun at h
  split at h
  · cases h
  · cases h; simp [WorkerError.Listed, PERMANENT_CODES]

theorem listed_loadModel {x : Uuid} (h : loadModel env x = .error error) : error.Listed := by
  unfold loadModel at h
  split at h
  · cases h
  · cases h; simp [WorkerError.Listed, PERMANENT_CODES]

theorem listed_loadConfig {run : EmbeddingRun} (h : loadConfig env run = .error error) : error.Listed := by
  unfold loadConfig at h
  split at h
  · cases h
  · cases h; simp [WorkerError.Listed, PERMANENT_CODES]
  · cases h; trivial

theorem listed_loadChunks {x : Uuid} (h : loadChunks db x = .error error) : error.Listed := by
  unfold loadChunks at h
  split_ifs at h
  · cases h; simp [WorkerError.Listed, PERMANENT_CODES]
  · cases h; simp [WorkerError.Listed, PERMANENT_CODES]

theorem listed_load (h : load env db claim = .error error) : error.Listed := by
  refine listed_bind (fun e he => listed_loadRun he) (fun run e he => ?_) h
  refine listed_bind (fun e he => listed_loadModel he) (fun model e he => ?_) he
  refine listed_bind (fun e he => listed_loadConfig he) (fun config e he => ?_) he
  exact listed_bind (fun e he => listed_loadChunks he) (fun chunks e he => by cases he) he

theorem listed_embedError (b : BatchError) : (embedError env b).Listed := by
  cases b with
  | provider exception =>
    simp only [embedError]
    split
    all_goals simp [WorkerError.Listed, PERMANENT_CODES]
  | _ => simp [embedError, WorkerError.Listed, PERMANENT_CODES]

theorem listed_process (h : process env db claim e = some (.error error)) : error.Listed := by
  unfold process at h
  split at h
  · next err hload =>
    cases h
    exact listed_load hload
  · next loaded hload =>
    obtain ⟨result, hembed, hresult⟩ := Option.map_eq_some_iff.1 h
    cases result with
    | ok outcome => cases hresult
    | error err =>
      cases hresult
      unfold embed at hembed
      split_ifs at hembed
      · obtain ⟨result', -, hresult'⟩ := Option.map_eq_some_iff.1 hembed
        cases result' with
        | ok outcome => cases hresult'
        | error b =>
          cases hresult'
          exact listed_embedError b
      · cases hembed
        trivial

theorem listed_persisted {o : Option Outcome} (h : persisted o = .error error) : error.Listed := by
  unfold persisted at h
  split at h
  · cases h
  · cases h; trivial
  · cases h; simp [WorkerError.Listed, PERMANENT_CODES]
  · cases h; trivial

end DefaultEmbeddingProcessor

end AtlasRag.Embedding
