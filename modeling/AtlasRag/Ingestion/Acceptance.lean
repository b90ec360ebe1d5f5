/-
Chunking configurations: what `ingest` accepts, and what the worker makes of it.

Both parse the configuration with `from_run_configuration`. The names of the tokenizer are not looked up before the worker
resolves the chunker.

Results:
- `fromRunConfiguration_stored`: a configuration of `ingest` is read back from its JSONB column;
- `accepted_configuration`: the worker parses what `ingest` has accepted, and has a chunker for it iff it names the tokenizer
  that the worker knows;
- `accepted_unresolvable`: an accepted configuration with another tokenizer.
-/
import AtlasRag.Ingestion.Chunking.Chunkers
import AtlasRag.Ingestion.Pipeline
import AtlasRag.Ingestion.Processor

namespace AtlasRag.Ingestion.Pipeline

open AtlasRag.Platform

/-! ## What a JSONB column gives back -/

/-- the entries of an object in any order; there are no lists to go into in the configurations of runs -/
inductive SameJson : Value → Value → Prop
  | refl (v : Value) : SameJson v v
  | dict {d d' : Dict} (keys : ∀ k, Dict.get d k = none ↔ Dict.get d' k = none)
      (entries : ∀ k v v', Dict.get d k = some v → Dict.get d' k = some v' → SameJson v v') : SameJson (.dict d) (.dict d')

theorem SameJson.eq {v v' : Value} (h : SameJson v v') (hv : v.dict? = none) : v' = v := by
  cases h with
  | refl => rfl
  | dict => cases hv

/-- an object without objects in it -/
theorem SameJson.get {d : Dict} {v' : Value} (h : SameJson (.dict d) v') (hd : ∀ e ∈ d, e.2.dict? = none) :
    ∃ d' : Dict, v' = .dict d' ∧ ∀ k, d'.get k = d.get k := by
  cases h with
  | refl => exact ⟨d, rfl, fun _ => rfl⟩
  | @dict _ d' keys entries =>
    refine ⟨d', rfl, fun k => ?_⟩
    cases hk : d.get k with
    | none => exact (keys k).1 hk
    | some v =>
      obtain ⟨v', hv'⟩ := Option.ne_none_iff_exists'.1 fun hnone => Option.some_ne_none v (hk.symm.trans ((keys k).2 hnone))
      obtain ⟨l, l', hl, -⟩ := List.lookup_eq_some_iff.1 hk
      rw [hv', (entries k v v' hk hv').eq (hd (k, v) (by rw [hl]; simp))]

/-- A run's configuration is read back. -/
theorem fromRunConfiguration_stored (i : Ingest) (config : Chunking.ChunkingConfig) {stored : Dict}
    (h : SameJson (.dict (i.configuration config)) (.dict stored)) :
    Chunking.ChunkingConfig.fromRunConfiguration stored = .ok config := by
  have hscalars : ∀ e ∈ config.asMapping, e.2.dict? = none := by
    simp [Chunking.ChunkingConfig.asMapping, Value.dict?]
  have hchunking : (i.configuration config).get (str "chunking") = some (.dict config.asMapping) := rfl
  cases h with
  | refl => exact config.fromRunConfiguration_asMapping hchunking fun _ => rfl
  | dict keys entries =>
    obtain ⟨v', hv'⟩ := Option.ne_none_iff_exists'.1 fun hnone =>
      Option.some_ne_none _ (hchunking.symm.trans ((keys _).2 hnone))
    obtain ⟨mapping, rfl, hmapping⟩ := (entries _ _ _ hchunking hv').get hscalars
    exact config.fromRunConfiguration_asMapping hv' hmapping

/-! ## The worker -/

/-- `_get_chunking_config` on the configuration of a run -/
def getChunkingConfig (configuration : Dict) : Except WorkerError Chunking.ChunkingConfig :=
  match Chunking.ChunkingConfig.fromRunConfiguration configuration with
  | .ok config => .ok config
  | .error _ => .error (.permanent CHUNKING_FAILED none)

/-- the chunker that `_chunk` resolves -/
def resolveChunker (config : Chunking.ChunkingConfig) : Except WorkerError Chunking.Chunker :=
  match Chunking.ChunkerResolver.resolve Chunking.workerTokenizers config with
  | .ok chunker => .ok chunker
  | .error _ => .error (.permanent CHUNKING_FAILED none)

/-- the configuration names the tokenizer that the worker knows -/
def KnownTokenizer (config : Chunking.ChunkingConfig) : Prop :=
  config.referenceTokenizer = Chunking.WhitespaceReferenceTokenizer.name ∧
  config.referenceTokenizerVersion = Chunking.WhitespaceReferenceTokenizer.version

instance (config : Chunking.ChunkingConfig) : Decidable (KnownTokenizer config) := inferInstanceAs (Decidable (_ ∧ _))

/-- **Resolution**: a chunker for every configuration with the known tokenizer -/
theorem resolveChunker_known {config : Chunking.ChunkingConfig} (h : KnownTokenizer config) :
    ∃ chunker, resolveChunker config = .ok chunker := by
  have hlookup : Chunking.workerTokenizers.lookup (config.referenceTokenizer, config.referenceTokenizerVersion) =
      some Chunking.WhitespaceReferenceTokenizer.tokenizer := by
    rw [h.1, h.2]
    exact List.lookup_cons_self
  rw [resolveChunker, Chunking.ChunkerResolver.resolve, hlookup]
  cases config.strategy with
  | fixedTokenV1 => exact ⟨_, rfl⟩
  | headingAwareV1 => exact ⟨_, rfl⟩

theorem resolveChunker_unknown {config : Chunking.ChunkingConfig} (h : ¬ KnownTokenizer config) :
    resolveChunker config = .error (.permanent CHUNKING_FAILED none) := by
  have hne : (config.referenceTokenizer, config.referenceTokenizerVersion) ≠
      (Chunking.WhitespaceReferenceTokenizer.name, Chunking.WhitespaceReferenceTokenizer.version) := fun heq => h (Prod.mk.inj heq)
  have hlookup : Chunking.workerTokenizers.lookup (config.referenceTokenizer, config.referenceTokenizerVersion) = none := by
    rw [Chunking.workerTokenizers, List.lookup_cons, beq_eq_false_iff_ne.2 hne]
    rfl
  rw [resolveChunker, Chunking.ChunkerResolver.resolve, hlookup]

/-! ## Accepted configurations -/

/-- **What is accepted, can it be executed?** After an `ingest` that returns, the run has the configuration that the command
gives, or the default. The worker parses what the column gives back of it to the same configuration. It has a chunker for it
iff it names the tokenizer that the worker knows; else the item ends with `CHUNKING_FAILED`. -/
theorem accepted_configuration (i : Ingest) (c : Course) (hc : c.Alone i) (w : World) (hw : w.HasOnly i [])
    {q : QueuedIngestion} (hreturns : (ingest i c w).1 = .ok q) :
    ∃ run config, (ingest i c w).2.runs.filter (·.id = q.ingestionRunId) = [run] ∧ i.chunkingConfig = .ok config ∧
      run.configuration = i.configuration config ∧
      (∀ stored, SameJson (.dict run.configuration) (.dict stored) → getChunkingConfig stored = .ok config) ∧
      (KnownTokenizer config → ∃ chunker, resolveChunker config = .ok chunker) ∧
      (¬ KnownTokenizer config → resolveChunker config = .error (.permanent CHUNKING_FAILED none)) := by
  have hends := meets_ingest hc w hw
  generalize ingest i c w = r at hreturns hends ⊢
  obtain ⟨result, w'⟩ := r
  subst hreturns
  obtain ⟨rfl, -, config, hash, hconfig, -, hrun⟩ := hends
  refine ⟨i.run config hash, config, hrun, hconfig, rfl, fun stored hstored => ?_, resolveChunker_known,
    resolveChunker_unknown⟩
  have hread : Chunking.ChunkingConfig.fromRunConfiguration stored = .ok config :=
    fromRunConfiguration_stored i config hstored
  rw [getChunkingConfig, hread]

/-- 100 tokens of this tokenizer -/
def fixedTokens (referenceTokenizer : Str) (h : referenceTokenizer.strip ≠ []) : Chunking.ChunkingConfig where
  strategy := .fixedTokenV1
  referenceTokenizer := referenceTokenizer
  referenceTokenizerVersion := str "v1"
  maxTokens := 100
  overlapTokens := 0
  preserveTables := false
  maxTokens_pos := by decide
  overlapTokens_lt := by decide
  tokenizer_given := ⟨h, by decide⟩

/-- `notes`, with this configuration -/
def configured (config : Chunking.ChunkingConfig) : Ingest :=
  { notes 0 [65] with command := { (notes 0 [65]).command with chunkingConfiguration := some config.asMapping } }

theorem configured_config (config : Chunking.ChunkingConfig) : (configured config).chunkingConfig = .ok config :=
  config.fromRunConfiguration_asMapping rfl fun _ => rfl

/-- the worker reads the configuration of a call that returns, and has a chunker for it -/
theorem accepted_configuration_whitespace :
    getChunkingConfig ((configured (fixedTokens (str "whitespace") (by decide))).configuration
        (fixedTokens (str "whitespace") (by decide))) = .ok (fixedTokens (str "whitespace") (by decide)) ∧
      ∃ chunker, resolveChunker (fixedTokens (str "whitespace") (by decide)) = .ok chunker := by
  have hreturns : (ingest (configured (fixedTokens (str "whitespace") (by decide))) quiet oneUser).1 =
      .ok ((configured (fixedTokens (str "whitespace") (by decide))).queued 3) := by decide +kernel
  obtain ⟨run, config, -, hconfig, hrun, hread, hknown, -⟩ := accepted_configuration
    (configured (fixedTokens (str "whitespace") (by decide))) quiet (quiet_alone _) oneUser (oneUser_hasOnly _) hreturns
  obtain rfl := Except.ok.inj ((configured_config _).symm.trans hconfig)
  exact ⟨hread _ (hrun ▸ .refl _), hknown (by decide)⟩

/-- **A configuration that is accepted and has no chunker**: it names another tokenizer. -/
theorem accepted_unresolvable :
    oneUser.HasOnly (configured (fixedTokens (str "tiktoken") (by decide))) [] ∧
    quiet.Alone (configured (fixedTokens (str "tiktoken") (by decide))) ∧
    (ingest (configured (fixedTokens (str "tiktoken") (by decide))) quiet oneUser).1 =
      .ok ((configured (fixedTokens (str "tiktoken") (by decide))).queued 3) ∧
    (configured (fixedTokens (str "tiktoken") (by decide))).chunkingConfig = .ok (fixedTokens (str "tiktoken") (by decide)) ∧
    resolveChunker (fixedTokens (str "tiktoken") (by decide)) = .error (.permanent CHUNKING_FAILED none) :=
  ⟨oneUser_hasOnly _, quiet_alone _, by decide +kernel, configured_config _, resolveChunker_unknown (by decide)⟩

end AtlasRag.Ingestion.Pipeline
