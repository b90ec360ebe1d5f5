/-
`EmbeddingRunConfig`, as the configuration of a run holds it, and the pause before a batch is tried again.

What `__post_init__` checks is part of the type. Floats are exact rationals here, but to multiply one with an integer that
rounds to no double, such as 2^1024, raises `OverflowError`.

Results:
- `backoffSeconds_error`: only the 1025th attempt and later ones overflow, and only where the provider names no time;
- `backoffSeconds_bounds`: a pause is positive, and at most `retry_max_backoff_seconds`.
-/
import Mathlib
import AtlasRag.Platform.Value

namespace AtlasRag.Embedding.Batching

open AtlasRag.Platform

structure EmbeddingRunConfig where
  batchSize : ℤ
  maxBatchTokens : ℤ
  concurrency : ℤ
  maxProviderAttempts : ℤ
  retryInitialBackoffSeconds : ℚ
  retryMaxBackoffSeconds : ℚ
  maxCharsPerToken : ℤ
  batchSize_pos : 0 < batchSize
  maxBatchTokens_pos : 0 < maxBatchTokens
  concurrency_pos : 0 < concurrency
  maxProviderAttempts_pos : 0 < maxProviderAttempts
  retryInitialBackoffSeconds_pos : 0 < retryInitialBackoffSeconds
  retryMaxBackoffSeconds_ge : retryInitialBackoffSeconds ≤ retryMaxBackoffSeconds
  maxCharsPerToken_pos : 0 < maxCharsPerToken

def DEFAULT_EMBEDDING_RUN_CONFIG : EmbeddingRunConfig where
  batchSize := 128
  maxBatchTokens := 100000
  concurrency := 4
  maxProviderAttempts := 4
  retryInitialBackoffSeconds := 1 / 2
  retryMaxBackoffSeconds := 30
  maxCharsPerToken := 4
  batchSize_pos := by decide
  maxBatchTokens_pos := by decide
  concurrency_pos := by decide
  maxProviderAttempts_pos := by decide
  retryInitialBackoffSeconds_pos := by norm_num
  retryMaxBackoffSeconds_ge := by norm_num
  maxCharsPerToken_pos := by decide

namespace EmbeddingRunConfig

/-- the constructor: `__post_init__`; the error is the text of the `ValueError` -/
def new (batchSize maxBatchTokens concurrency maxProviderAttempts : ℤ)
    (retryInitialBackoffSeconds retryMaxBackoffSeconds : ℚ) (maxCharsPerToken : ℤ) : Except String EmbeddingRunConfig :=
  if h₁ : batchSize ≤ 0 then .error "batch_size must be positive"
  else if h₂ : maxBatchTokens ≤ 0 then .error "max_batch_tokens must be positive"
  else if h₃ : concurrency ≤ 0 then .error "concurrency must be positive"
  else if h₄ : maxProviderAttempts ≤ 0 then .error "max_provider_attempts must be positive"
  else if h₅ : retryInitialBackoffSeconds ≤ 0 then .error "retry_initial_backoff_seconds must be positive"
  else if h₆ : retryMaxBackoffSeconds < retryInitialBackoffSeconds then
    .error "retry_max_backoff_seconds must not be smaller than retry_initial_backoff_seconds"
  else if h₇ : maxCharsPerToken ≤ 0 then .error "max_chars_per_token must be positive"
  else .ok ⟨batchSize, maxBatchTokens, concurrency, maxProviderAttempts, retryInitialBackoffSeconds, retryMaxBackoffSeconds,
    maxCharsPerToken, not_le.1 h₁, not_le.1 h₂, not_le.1 h₃, not_le.1 h₄, not_le.1 h₅, not_lt.1 h₆, not_le.1 h₇⟩

variable (config : EmbeddingRunConfig)

/-- the type holds what the constructor accepts -/
theorem new_self : new config.batchSize config.maxBatchTokens config.concurrency config.maxProviderAttempts
    config.retryInitialBackoffSeconds config.retryMaxBackoffSeconds config.maxCharsPerToken = .ok config := by
  rw [new, dif_neg config.batchSize_pos.not_ge, dif_neg config.maxBatchTokens_pos.not_ge, dif_neg config.concurrency_pos.not_ge,
    dif_neg config.maxProviderAttempts_pos.not_ge, dif_neg config.retryInitialBackoffSeconds_pos.not_ge,
    dif_neg config.retryMaxBackoffSeconds_ge.not_gt, dif_neg config.maxCharsPerToken_pos.not_ge]

theorem retryMaxBackoffSeconds_pos : 0 < config.retryMaxBackoffSeconds :=
  config.retryInitialBackoffSeconds_pos.trans_le config.retryMaxBackoffSeconds_ge

end EmbeddingRunConfig

/-! ## Pauses -/

/-- `OverflowError: int too large to convert to float` -/
inductive FloatError where
  | overflow
deriving DecidableEq, Repr

/-- the exponent of the greatest double, which has 53 bits -/
def MAX_EXPONENT : ℕ := 1023

/-- the integer rounds to a finite double -/
def FitsDouble (n : ℤ) : Prop := n.natAbs < 2 ^ (MAX_EXPONENT + 1) - 2 ^ (MAX_EXPONENT - 53)

instance (n : ℤ) : Decidable (FitsDouble n) := inferInstanceAs (Decidable (_ < _))

/-- `x * n` of a float and an integer -/
def mulInt (x : ℚ) (n : ℤ) : Except FloatError ℚ := if FitsDouble n then .ok (x * n) else .error .overflow

def backoffSeconds (attemptNumber : ℕ) (config : EmbeddingRunConfig) (retryAfterSeconds : Option ℚ) (jitter : ℚ) :
    Except FloatError ℚ :=
  match retryAfterSeconds.filter (0 < ·) with
  | some retryAfterSeconds => .ok (min retryAfterSeconds config.retryMaxBackoffSeconds)
  | none => do
    let exponential ← mulInt config.retryInitialBackoffSeconds (2 ^ (attemptNumber - 1))
    .ok (min exponential config.retryMaxBackoffSeconds * (1 / 2 + jitter / 2))

/-! ## The configuration of a run -/

def CONFIGURATION_KEY : Str := str "embedding"

/-- `ValueError` with its text, or the `OverflowError` of `float(value)` -/
inductive ConfigError where
  | valueError (message : String)
  | overflow
deriving DecidableEq, Repr

def requiredInt (values : Dict) (name : String) : Except ConfigError ℤ :=
  match values.get (str name) with
  | some (.int n) => .ok n
  | _ => .error (.valueError (name ++ " must be an integer"))

/-- `float` reads the text of a float -/
def requiredFloat (float : Str → ℚ) (values : Dict) (name : String) : Except ConfigError ℚ :=
  match values.get (str name) with
  | some (.int n) => if FitsDouble n then .ok n else .error .overflow
  | some (.float text) => .ok (float text)
  | _ => .error (.valueError (name ++ " must be a number"))

def EmbeddingRunConfig.fromRunConfiguration (float : Str → ℚ) (configuration : Dict) :
    Except ConfigError EmbeddingRunConfig :=
  match configuration.get CONFIGURATION_KEY with
  | some (.dict raw) => do
    let batchSize ← requiredInt raw "batch_size"
    let maxBatchTokens ← requiredInt raw "max_batch_tokens"
    let concurrency ← requiredInt raw "concurrency"
    let maxProviderAttempts ← requiredInt raw "max_provider_attempts"
    let retryInitialBackoffSeconds ← requiredFloat float raw "retry_initial_backoff_seconds"
    let retryMaxBackoffSeconds ← requiredFloat float raw "retry_max_backoff_seconds"
    let maxCharsPerToken ← requiredInt raw "max_chars_per_token"
    (new batchSize maxBatchTokens concurrency maxProviderAttempts retryInitialBackoffSeconds retryMaxBackoffSeconds
      maxCharsPerToken).mapError .valueError
  | _ => .error (.valueError "embedding run configuration must contain an embedding object")

/-- `render` is the text of a float -/
def EmbeddingRunConfig.asMapping (render : ℚ → Str) (config : EmbeddingRunConfig) : Dict :=
  [(str "batch_size", .int config.batchSize), (str "max_batch_tokens", .int config.maxBatchTokens),
    (str "concurrency", .int config.concurrency), (str "max_provider_attempts", .int config.maxProviderAttempts),
    (str "retry_initial_backoff_seconds", .float (render config.retryInitialBackoffSeconds)),
    (str "retry_max_backoff_seconds", .float (render config.retryMaxBackoffSeconds)),
    (str "max_chars_per_token", .int config.maxCharsPerToken)]

section

variable {config : EmbeddingRunConfig} {attemptNumber : ℕ} {retryAfterSeconds : Option ℚ} {jitter : ℚ}

theorem two_pow_le_maxDouble {m n : ℕ} (h : m < n) (k : ℕ) : 2 ^ k < 2 ^ (n + 1) - 2 ^ m ↔ k ≤ n := by
  have hdouble : 2 ^ (n + 1) = 2 ^ n + 2 ^ n := by rw [Nat.pow_succ, Nat.mul_two]
  have hsmall : 2 ^ m < 2 ^ n := Nat.pow_lt_pow_right Nat.one_lt_two h
  constructor
  · intro hk
    by_contra hlt
    exact absurd (hk.trans_le (Nat.sub_le _ _)) (not_lt.2 (Nat.pow_le_pow_right Nat.two_pos (not_le.1 hlt)))
  · intro hk
    have hle : 2 ^ k ≤ 2 ^ n := Nat.pow_le_pow_right Nat.two_pos hk
    omega

theorem fitsDouble_two_pow (k : ℕ) : FitsDouble (2 ^ k) ↔ k ≤ MAX_EXPONENT := by
  have habs : (2 ^ k : ℤ).natAbs = 2 ^ k := by rw [Int.natAbs_pow]; rfl
  rw [FitsDouble, habs]
  exact two_pow_le_maxDouble (by decide) k

/-- **Overflow** of a pause -/
theorem backoffSeconds_error : backoffSeconds attemptNumber config retryAfterSeconds jitter = .error .overflow ↔
    1025 ≤ attemptNumber ∧ ∀ s ∈ retryAfterSeconds, s ≤ 0 := by
  have hnamed : retryAfterSeconds.filter (0 < ·) = none ↔ ∀ s ∈ retryAfterSeconds, s ≤ 0 := by
    simp [Option.filter_eq_none_iff]
  rw [backoffSeconds, ← hnamed]
  cases hretry : retryAfterSeconds.filter (0 < ·) with
  | some s => simp
  | none =>
    rw [mulInt]
    by_cases hk : attemptNumber - 1 ≤ MAX_EXPONENT
    · rw [if_pos ((fitsDouble_two_pow _).2 hk)]
      refine iff_of_false (by intro h; cases h) fun h => ?_
      rw [MAX_EXPONENT] at hk
      omega
    · rw [if_neg (mt (fitsDouble_two_pow _).1 hk)]
      rw [MAX_EXPONENT] at hk
      exact iff_of_true rfl ⟨by omega, rfl⟩

/-- **Bounds** of a pause -/
theorem backoffSeconds_bounds (hjitter : 0 ≤ jitter ∧ jitter ≤ 1) {s : ℚ}
    (h : backoffSeconds attemptNumber config retryAfterSeconds jitter = .ok s) :
    0 < s ∧ s ≤ config.retryMaxBackoffSeconds := by
  have hmax := config.retryMaxBackoffSeconds_pos
  rw [backoffSeconds] at h
  cases hretry : retryAfterSeconds.filter (0 < ·) with
  | some retryAfter =>
    rw [hretry] at h
    obtain rfl := Except.ok.inj h
    have hpos : 0 < retryAfter := of_decide_eq_true (Option.filter_eq_some_iff.1 hretry).2
    exact ⟨lt_min hpos hmax, min_le_right _ _⟩
  | none =>
    rw [hretry, mulInt] at h
    split_ifs at h
    · obtain rfl := Except.ok.inj h
      have hexponential : 0 < min (config.retryInitialBackoffSeconds * ((2 ^ (attemptNumber - 1) : ℤ) : ℚ))
          config.retryMaxBackoffSeconds := by
        refine lt_min (mul_pos config.retryInitialBackoffSeconds_pos ?_) hmax
        exact_mod_cast (by positivity : (0 : ℤ) < 2 ^ (attemptNumber - 1))
      refine ⟨mul_pos hexponential (by linarith [hjitter.1]), ?_⟩
      calc _ ≤ config.retryMaxBackoffSeconds * (1 / 2 + jitter / 2) :=
            mul_le_mul_of_nonneg_right (min_le_right _ _) (by linarith [hjitter.1])
        _ ≤ config.retryMaxBackoffSeconds * 1 := mul_le_mul_of_nonneg_left (by linarith [hjitter.2]) hmax.le
        _ = config.retryMaxBackoffSeconds := mul_one _
    · cases h

end

end AtlasRag.Embedding.Batching
