/-
`ChunkingConfig`: what `__post_init__` checks is part of the type, and `from_run_configuration` reads one from the
configuration of a run.

Results:
- `fromRunConfiguration_asMapping`: a configuration that holds the mapping of a config is read back as that config;
- `DEFAULT_CHUNKING_CONFIG` is the config of an empty or missing mapping.
-/
import AtlasRag.Platform.Value

namespace AtlasRag.Ingestion.Chunking

open AtlasRag.Platform

inductive ChunkingStrategy where
  | fixedTokenV1
  | headingAwareV1
deriving DecidableEq, Repr

def ChunkingStrategy.value : ChunkingStrategy → Str
  | .fixedTokenV1 => str "fixed_token_v1"
  | .headingAwareV1 => str "heading_aware_v1"

/-- `ChunkingStrategy(value)` -/
def ChunkingStrategy.ofValue (value : Str) : Option ChunkingStrategy :=
  if value = ChunkingStrategy.fixedTokenV1.value then some .fixedTokenV1
  else if value = ChunkingStrategy.headingAwareV1.value then some .headingAwareV1
  else none

/-- what the chunking module raises; `UnicodeEncodeError` is a `ValueError` -/
inductive ValueError where
  | text (message : String)
  | notAStrategy (value : Str)
  | unicodeEncode
deriving DecidableEq, Repr

structure ChunkingConfig where
  strategy : ChunkingStrategy
  referenceTokenizer : Str
  referenceTokenizerVersion : Str
  maxTokens : ℤ
  overlapTokens : ℤ
  preserveTables : Bool
  maxTokens_pos : 0 < maxTokens
  overlapTokens_lt : 0 ≤ overlapTokens ∧ overlapTokens < maxTokens
  tokenizer_given : referenceTokenizer.strip ≠ [] ∧ referenceTokenizerVersion.strip ≠ []
deriving DecidableEq

namespace ChunkingConfig

/-- the constructor: `__post_init__` -/
def new (strategy : ChunkingStrategy) (referenceTokenizer referenceTokenizerVersion : Str) (maxTokens overlapTokens : ℤ)
    (preserveTables : Bool) : Except ValueError ChunkingConfig :=
  if h₁ : 0 < maxTokens then
    if h₂ : 0 ≤ overlapTokens ∧ overlapTokens < maxTokens then
      if h₃ : referenceTokenizer.strip ≠ [] ∧ referenceTokenizerVersion.strip ≠ [] then
        .ok ⟨strategy, referenceTokenizer, referenceTokenizerVersion, maxTokens, overlapTokens, preserveTables, h₁, h₂, h₃⟩
      else .error (.text "reference tokenizer identity and version are required")
    else .error (.text "overlap_tokens must be non-negative and less than max_tokens")
  else .error (.text "max_tokens must be positive")

/-- `_required_string` -/
def requiredString (values : Dict) (name : String) : Except ValueError Str :=
  match (values.get (str name)).bind Value.str? with
  | some value =>
    if value.strip = [] then .error (.text (name ++ " must be a non-empty string")) else .ok value
  | none => .error (.text (name ++ " must be a non-empty string"))

/-- `_required_int` -/
def requiredInt (values : Dict) (name : String) : Except ValueError ℤ :=
  match (values.get (str name)).bind Value.int? with
  | some value => .ok value
  | none => .error (.text (name ++ " must be an integer"))

def fromRunConfiguration (configuration : Dict) : Except ValueError ChunkingConfig :=
  match (configuration.get (str "chunking")).bind Value.dict? with
  | none => .error (.text "ingestion run configuration must contain a chunking object")
  | some rawChunking => do
    let value ← requiredString rawChunking "strategy"
    match ChunkingStrategy.ofValue value with
    | none => .error (.notAStrategy value)
    | some strategy =>
      let maxTokens ← requiredInt rawChunking "max_tokens"
      let overlapTokens ← requiredInt rawChunking "overlap_tokens"
      match (rawChunking.get (str "preserve_tables")).bind Value.bool? with
      | none => .error (.text "preserve_tables must be a boolean")
      | some preserveTables =>
        let referenceTokenizer ← requiredString rawChunking "reference_tokenizer"
        let referenceTokenizerVersion ← requiredString rawChunking "reference_tokenizer_version"
        new strategy referenceTokenizer referenceTokenizerVersion maxTokens overlapTokens preserveTables

def asMapping (c : ChunkingConfig) : Dict :=
  [(str "strategy", .str c.strategy.value), (str "reference_tokenizer", .str c.referenceTokenizer),
    (str "reference_tokenizer_version", .str c.referenceTokenizerVersion), (str "max_tokens", .int c.maxTokens),
    (str "overlap_tokens", .int c.overlapTokens), (str "preserve_tables", .bool c.preserveTables)]

end ChunkingConfig

def DEFAULT_CHUNKING_CONFIG : ChunkingConfig where
  strategy := .headingAwareV1
  referenceTokenizer := str "whitespace"
  referenceTokenizerVersion := str "v1"
  maxTokens := 512
  overlapTokens := 64
  preserveTables := true
  maxTokens_pos := by decide
  overlapTokens_lt := by decide
  tokenizer_given := by decide

/-! ## Reading a mapping back -/

theorem ChunkingStrategy.ofValue_value (s : ChunkingStrategy) : ofValue s.value = some s := by
  cases s with
  | fixedTokenV1 => decide
  | headingAwareV1 => decide

namespace ChunkingConfig

theorem new_self (c : ChunkingConfig) : new c.strategy c.referenceTokenizer c.referenceTokenizerVersion c.maxTokens
    c.overlapTokens c.preserveTables = .ok c := by
  rw [new, dif_pos c.maxTokens_pos, dif_pos c.overlapTokens_lt, dif_pos c.tokenizer_given]

theorem requiredString_ok {values : Dict} {name : String} {value : Str} (hget : values.get (str name) = some (.str value))
    (hvalue : value.strip ≠ []) : requiredString values name = .ok value := by
  simp only [requiredString, hget, Option.bind_some, Value.str?, if_neg hvalue]

theorem requiredInt_ok {values : Dict} {name : String} {value : ℤ} (hget : values.get (str name) = some (.int value)) :
    requiredInt values name = .ok value := by
  simp only [requiredInt, hget, Option.bind_some, Value.int?]

/-- **A mapping is read back**, in any dict with its entries. -/
theorem fromRunConfiguration_asMapping (c : ChunkingConfig) {configuration mapping : Dict}
    (hchunking : configuration.get (str "chunking") = some (.dict mapping)) (hmapping : ∀ k, mapping.get k = c.asMapping.get k) :
    fromRunConfiguration configuration = .ok c := by
  have hstrategy : requiredString mapping "strategy" = .ok c.strategy.value :=
    requiredString_ok (hmapping _) (by cases c.strategy <;> decide)
  have hmax : requiredInt mapping "max_tokens" = .ok c.maxTokens := requiredInt_ok (hmapping _)
  have hoverlap : requiredInt mapping "overlap_tokens" = .ok c.overlapTokens := requiredInt_ok (hmapping _)
  have hpreserve : mapping.get (str "preserve_tables") = some (.bool c.preserveTables) := hmapping _
  have hname : requiredString mapping "reference_tokenizer" = .ok c.referenceTokenizer :=
    requiredString_ok (hmapping _) c.tokenizer_given.1
  have hversion : requiredString mapping "reference_tokenizer_version" = .ok c.referenceTokenizerVersion :=
    requiredString_ok (hmapping _) c.tokenizer_given.2
  simp only [fromRunConfiguration, hchunking, Option.bind_some, Value.dict?, hstrategy, ChunkingStrategy.ofValue_value, hmax,
    hoverlap, hpreserve, Value.bool?, hname, hversion, bind, Except.bind]
  exact new_self c

end ChunkingConfig

end AtlasRag.Ingestion.Chunking
