/-
`EmbeddingBatcher._embed_batch`: a batch is sent to the provider, again and again while the provider fails transiently.

The provider and the jitter are functions of the batch and the attempt. What a batch does is the log of its calls and pauses.

Results:
- `attempts_bounded`: calls and pauses alternate and stay within the limits of the configuration;
- `attempts_failed`: what is raised if every attempt fails;
- `retries_iff`: a pause after the 1025th attempt overflows unless the provider names a time, and only then another error
  escapes;
- `serves_of_ok`: the vectors of a batch are those of the one response it got.
-/
import AtlasRag.Embedding.Batching.Validation

namespace AtlasRag.Embedding.Batching

open AtlasRag.Platform
open AtlasRag.Lib.Effect (bind_eq_ok)

/-- what comes of one call of the provider -/
inductive Answer where
  | result (result : EmbeddingBatchResult)
  | transient (reason : String) (retryAfterSeconds : Option ℚ)
  /-- any other exception -/
  | failed (exception : ℕ)

namespace Answer

def IsTransient : Answer → Prop
  | transient _ _ => True
  | _ => False

def retryAfterSeconds : Answer → Option ℚ
  | transient _ retryAfterSeconds => retryAfterSeconds
  | _ => none

end Answer

structure ChunkVector where
  chunkId : Uuid
  values : List VectorValue
deriving DecidableEq, Repr

/-- what `_embed_batch` returns -/
structure BatchResult where
  vectors : List ChunkVector
  requests : ℕ
  usage : EmbeddingUsage
deriving DecidableEq, Repr

/-- `zip(batch.chunks, values, strict=True)` -/
def chunkVectors (chunks : List EmbeddableChunk) (values : List (List VectorValue)) : Except BatchError (List ChunkVector) :=
  if chunks.length = values.length then .ok ((chunks.zip values).map fun (chunk, values) => ⟨chunk.chunkId, values⟩)
  else .error .valueError

/-- the provider answers, and the jitter is drawn, by batch and attempt -/
structure EmbeddingBatcher where
  provider : ℕ → ℕ → Answer
  model : EmbeddingModelState
  config : EmbeddingRunConfig
  jitter : ℕ → ℕ → ℚ

inductive Action where
  | call
  | sleep (seconds : ℚ)
deriving DecidableEq, Repr

/-- how a round of the loop ends -/
inductive Round where
  | again (seconds : ℚ)
  | done (result : Except BatchError BatchResult)

namespace EmbeddingBatcher

variable (batcher : EmbeddingBatcher) (batch : EmbeddingBatch) (inputs : List EmbeddingInput)

/-- the round of the loop after the answer -/
def round (attemptNumber : ℕ) : Round :=
  match batcher.provider batch.ordinal attemptNumber with
  | .transient reason retryAfterSeconds =>
    if batcher.config.maxProviderAttempts ≤ attemptNumber then
      .done (.error (.embeddingProviderTransient reason retryAfterSeconds))
    else
      match backoffSeconds attemptNumber batcher.config retryAfterSeconds (batcher.jitter batch.ordinal attemptNumber) with
      | .error .overflow => .done (.error .overflow)
      | .ok seconds => .again seconds
  | .failed exception => .done (.error (.provider exception))
  | .result result => .done do
    let values ← orderedVectors result inputs batcher.model.dimension
    let vectors ← chunkVectors batch.chunks values
    .ok ⟨vectors, attemptNumber, result.usage⟩

section

variable {batcher batch inputs} {n : ℕ} {seconds : ℚ} {e : BatchError} {x : BatchResult}

theorem round_again (h : batcher.round batch inputs n = .again seconds) :
    ∃ reason retryAfterSeconds, batcher.provider batch.ordinal n = .transient reason retryAfterSeconds ∧
      n < batcher.config.maxProviderAttempts ∧
      backoffSeconds n batcher.config retryAfterSeconds (batcher.jitter batch.ordinal n) = .ok seconds := by
  unfold round at h
  cases hanswer : batcher.provider batch.ordinal n with
  | result result => simp only [hanswer] at h; cases h
  | failed exception => simp only [hanswer] at h; cases h
  | transient reason retryAfterSeconds =>
    simp only [hanswer] at h
    split_ifs at h with hmax
    refine ⟨reason, retryAfterSeconds, rfl, not_le.1 hmax, ?_⟩
    split at h
    · cases h
    · next s hs =>
      obtain rfl := Round.again.inj h
      exact hs

/-- a transient failure after which the batch is not tried again -/
theorem round_error {reason : String} {retryAfterSeconds : Option ℚ} {result : Except BatchError BatchResult}
    (hanswer : batcher.provider batch.ordinal n = .transient reason retryAfterSeconds)
    (h : batcher.round batch inputs n = .done result) :
    (batcher.config.maxProviderAttempts ≤ n ∧ result = .error (.embeddingProviderTransient reason retryAfterSeconds)) ∨
      (n < batcher.config.maxProviderAttempts ∧ 1025 ≤ n ∧ (∀ s ∈ retryAfterSeconds, s ≤ 0) ∧ result = .error .overflow) := by
  unfold round at h
  simp only [hanswer] at h
  split_ifs at h with hmax
  · exact .inl ⟨hmax, (Round.done.inj h).symm⟩
  · right
    split at h
    · next hoverflow =>
      obtain ⟨hn, hretry⟩ := backoffSeconds_error.1 hoverflow
      exact ⟨not_le.1 hmax, hn, hretry, (Round.done.inj h).symm⟩
    · cases h

theorem round_overflow {reason : String} {retryAfterSeconds : Option ℚ}
    (hanswer : batcher.provider batch.ordinal n = .transient reason retryAfterSeconds)
    (hmax : n < batcher.config.maxProviderAttempts) (hn : 1025 ≤ n) (hretry : ∀ s ∈ retryAfterSeconds, s ≤ 0) :
    batcher.round batch inputs n = .done (.error .overflow) := by
  have hoverflow : backoffSeconds n batcher.config retryAfterSeconds (batcher.jitter batch.ordinal n) = .error .overflow :=
    backoffSeconds_error.2 ⟨hn, hretry⟩
  simp only [round, hanswer, hoverflow, if_neg (not_le.2 hmax)]

end

/-- the loop after `attemptNumber` attempts: the calls and pauses that follow, and how it ends -/
def attempts (attemptNumber : ℕ) : List Action × Except BatchError BatchResult :=
  match _h : batcher.round batch inputs (attemptNumber + 1) with
  | .done result => ([.call], result)
  | .again seconds =>
    let rest := attempts (attemptNumber + 1)
    (.call :: .sleep seconds :: rest.1, rest.2)
termination_by (batcher.config.maxProviderAttempts - attemptNumber).toNat
decreasing_by
  obtain ⟨_, _, -, hmax, -⟩ := round_again _h
  omega

/-- `_embed_batch` -/
def embedBatch : List Action × Except BatchError BatchResult :=
  match buildInputs batch.chunks batcher.model batcher.config with
  | .error e => ([], .error e)
  | .ok inputs => batcher.attempts batch inputs 0

/-! ## The loop -/

section

variable {batcher batch inputs} {n : ℕ}

theorem attempts_done {result : Except BatchError BatchResult} (h : batcher.round batch inputs (n + 1) = .done result) :
    batcher.attempts batch inputs n = ([.call], result) := by
  rw [attempts]
  split
  · next r hr =>
    rw [h] at hr
    obtain rfl := Round.done.inj hr
    rfl
  · next s hs =>
    rw [h] at hs
    cases hs

theorem attempts_again {seconds : ℚ} (h : batcher.round batch inputs (n + 1) = .again seconds) :
    batcher.attempts batch inputs n = (.call :: .sleep seconds :: (batcher.attempts batch inputs (n + 1)).1,
      (batcher.attempts batch inputs (n + 1)).2) := by
  rw [attempts]
  split
  · next r hr =>
    rw [h] at hr
    cases hr
  · next s hs =>
    rw [h] at hs
    obtain rfl := Round.again.inj hs
    rfl

theorem embedBatch_of_inputs (hinputs : buildInputs batch.chunks batcher.model batcher.config = .ok inputs) :
    batcher.embedBatch batch = batcher.attempts batch inputs 0 := by
  rw [embedBatch, hinputs]

/-- **Induction** on the attempts that are left -/
theorem attempts_rule {P : ℕ → Prop}
    (hdone : ∀ n result, batcher.round batch inputs (n + 1) = .done result → P n)
    (hagain : ∀ n seconds, batcher.round batch inputs (n + 1) = .again seconds → P (n + 1) → P n) (n : ℕ) : P n := by
  induction hleft : (batcher.config.maxProviderAttempts - n).toNat using Nat.strongRecOn generalizing n with
  | ind left ih =>
    cases hround : batcher.round batch inputs (n + 1) with
    | done result => exact hdone n result hround
    | again seconds =>
      obtain ⟨_, _, -, hmax, -⟩ := round_again hround
      exact hagain n seconds hround (ih _ (by omega) (n + 1) rfl)

/-- the calls of the provider -/
def calls (log : List Action) : ℕ := log.count .call

theorem calls_again (seconds : ℚ) (log : List Action) : calls (.call :: .sleep seconds :: log) = calls log + 1 := by
  simp [calls]

/-- calls, with one pause between two of them -/
def Alternates : List Action → Prop
  | [.call] => True
  | .call :: .sleep _ :: log => Alternates log
  | _ => False

/-- the log of a batch, after `n` attempts -/
structure Bounded (config : EmbeddingRunConfig) (n : ℕ) (log : List Action) : Prop where
  calls : ((n + calls log : ℕ) : ℤ) ≤ config.maxProviderAttempts
  alternates : Alternates log
  pauses : ∀ s, .sleep s ∈ log → 0 < s ∧ s ≤ config.retryMaxBackoffSeconds

/-- Calls and pauses are bounded. -/
theorem attempts_bounded (hjitter : ∀ n, 0 ≤ batcher.jitter batch.ordinal n ∧ batcher.jitter batch.ordinal n ≤ 1) (n : ℕ)
    (hn : n < batcher.config.maxProviderAttempts) : Bounded batcher.config n (batcher.attempts batch inputs n).1 := by
  induction n using @attempts_rule batcher batch inputs with
  | hdone n result hround =>
    rw [attempts_done hround]
    refine ⟨?_, trivial, fun s hs => ?_⟩
    · show ((n + 1 : ℕ) : ℤ) ≤ _
      omega
    · simp at hs
  | hagain n seconds hround ih =>
    obtain ⟨_, _, -, hmax, hseconds⟩ := round_again hround
    have hrest := ih hmax
    rw [attempts_again hround]
    refine ⟨?_, hrest.alternates, fun s hs => ?_⟩
    · rw [calls_again]
      have hcalls := hrest.calls
      omega
    · rcases List.mem_cons.1 hs with hs | hs
      · cases hs
      rcases List.mem_cons.1 hs with hs | hs
      · obtain rfl := Action.sleep.inj hs
        exact backoffSeconds_bounds (hjitter (n + 1)) hseconds
      · exact hrest.pauses s hs

/-- If every attempt fails, the last error of the provider is raised, or the overflow of a pause after 1025 attempts. -/
theorem attempts_failed (n : ℕ)
    (hfails : ∀ m, n < m → m ≤ n + calls (batcher.attempts batch inputs n).1 → (batcher.provider batch.ordinal m).IsTransient) :
    ∃ k, k = n + calls (batcher.attempts batch inputs n).1 ∧
      ((batcher.config.maxProviderAttempts ≤ k ∧ ∃ reason retryAfterSeconds, (batcher.attempts batch inputs n).2 =
        .error (.embeddingProviderTransient reason retryAfterSeconds)) ∨
      (1025 ≤ k ∧ k < batcher.config.maxProviderAttempts ∧
        (∀ s ∈ (batcher.provider batch.ordinal k).retryAfterSeconds, s ≤ 0) ∧
        (batcher.attempts batch inputs n).2 = .error .overflow)) := by
  induction n using @attempts_rule batcher batch inputs with
  | hdone n result hround =>
    rw [attempts_done hround] at hfails ⊢
    refine ⟨n + 1, rfl, ?_⟩
    have hanswer := hfails (n + 1) (by omega) le_rfl
    cases hprovider : batcher.provider batch.ordinal (n + 1) with
    | result r => rw [hprovider] at hanswer; cases hanswer
    | failed e => rw [hprovider] at hanswer; cases hanswer
    | transient reason retryAfterSeconds =>
      rcases round_error hprovider hround with ⟨hmax, hresult⟩ | ⟨hmax, hn, hretry, hresult⟩
      · exact .inl ⟨hmax, reason, retryAfterSeconds, hresult⟩
      · exact .inr ⟨hn, hmax, hretry, hresult⟩
  | hagain n seconds hround ih =>
    rw [attempts_again hround] at hfails ⊢
    rw [calls_again, ← Nat.add_assoc, Nat.add_right_comm] at hfails ⊢
    exact ih fun m hm hle => hfails m (by omega) hle

/-- the loop ends where a pause overflows, if not before -/
theorem attempts_stop {k : ℕ} (hk : 1025 ≤ k) (hmax : k < batcher.config.maxProviderAttempts)
    (hanswer : (batcher.provider batch.ordinal k).IsTransient)
    (hretry : ∀ s ∈ (batcher.provider batch.ordinal k).retryAfterSeconds, s ≤ 0) (n : ℕ) (hn : n < k) :
    n + calls (batcher.attempts batch inputs n).1 ≤ k := by
  induction n using @attempts_rule batcher batch inputs with
  | hdone n result hround =>
    rw [attempts_done hround]
    exact hn
  | hagain n seconds hround ih =>
    rw [attempts_again hround, calls_again, ← Nat.add_assoc, Nat.add_right_comm]
    apply ih
    by_contra hge
    obtain rfl : n + 1 = k := by omega
    cases hprovider : batcher.provider batch.ordinal (n + 1) with
    | result r => rw [hprovider] at hanswer; cases hanswer
    | failed e => rw [hprovider] at hanswer; cases hanswer
    | transient reason retryAfterSeconds =>
      rw [hprovider] at hretry
      rw [round_overflow hprovider hmax hk hretry] at hround
      cases hround

end

/-! ## The vectors of a batch -/

/-- what the batch returns is made of this response, which came after transient failures only -/
structure Serves (x : BatchResult) (response : EmbeddingBatchResult) : Prop where
  answer : batcher.provider batch.ordinal x.requests = .result response
  earlier : ∀ n, 0 < n → n < x.requests → (batcher.provider batch.ordinal n).IsTransient
  usage : x.usage = response.usage
  chunkIds : x.vectors.map (·.chunkId) = batch.chunks.map (·.chunkId)
  values : ∀ (j : ℕ) v, x.vectors[j]? = some v → response.valuesAt j = some v.values
  dimension : ∀ v ∈ x.vectors, (v.values.length : ℤ) = batcher.model.dimension

section

variable {batcher batch inputs} {n : ℕ} {x : BatchResult}

theorem round_ok (h : batcher.round batch inputs n = .done (.ok x)) :
    ∃ response values, batcher.provider batch.ordinal n = .result response ∧
      orderedVectors response inputs batcher.model.dimension = .ok values ∧ batch.chunks.length = values.length ∧
      x = ⟨(batch.chunks.zip values).map fun (chunk, values) => ⟨chunk.chunkId, values⟩, n, response.usage⟩ := by
  cases hanswer : batcher.provider batch.ordinal n with
  | failed exception =>
    simp only [round, hanswer] at h
    cases h
  | transient reason retryAfterSeconds =>
    rcases round_error hanswer h with ⟨-, hresult⟩ | ⟨-, -, -, hresult⟩
    · cases hresult
    · cases hresult
  | result response =>
    simp only [round, hanswer] at h
    obtain ⟨values, hvalues, h⟩ := bind_eq_ok (Round.done.inj h)
    obtain ⟨vectors, hvectors, h⟩ := bind_eq_ok h
    rw [chunkVectors] at hvectors
    split_ifs at hvectors with hlength
    obtain rfl := Except.ok.inj hvectors
    exact ⟨response, values, rfl, hvalues, hlength, (Except.ok.inj h).symm⟩

/-- the `j`-th vector stands under the index `j`, and has the dimension of the model -/
theorem valuesAt_of_getElem (hinputs : buildInputs batch.chunks batcher.model batcher.config = .ok inputs)
    {response : EmbeddingBatchResult} {dimension : ℤ} {ordered : List (List VectorValue)}
    (h : orderedVectors response inputs dimension = .ok ordered) {j : ℕ} {values : List VectorValue}
    (hj : ordered[j]? = some values) : response.valuesAt j = some values ∧ (values.length : ℤ) = dimension := by
  have hnodup := nodup_index hinputs
  obtain ⟨⟨hindexes, haccepts⟩, rfl⟩ := (decides_orderedVectors hnodup response dimension).ok_iff.1 h
  rw [List.getElem?_map, Option.map_eq_some_iff] at hj
  obtain ⟨i, hi, rfl⟩ := hj
  have hindex : i.index = j := by
    have hat : (inputs.map (·.index))[j]? = some i.index := by rw [List.getElem?_map, hi]; rfl
    rw [(buildInputs_ok hinputs).1, List.getElem?_map, Option.map_eq_some_iff] at hat
    obtain ⟨k, hk, hcast⟩ := hat
    obtain ⟨hlt, rfl⟩ := List.getElem?_eq_some_iff.1 hk
    rw [← hcast, List.getElem_range]
  have hmem : i ∈ inputs := List.mem_of_getElem? hi
  obtain ⟨v, hv, hv'⟩ := List.mem_map.1 (hindexes.symm.subset (List.mem_map_of_mem hmem))
  have hat := valuesAt_of_mem (hindexes.nodup_iff.2 hnodup) hv
  rw [hv'] at hat
  rw [← hindex, hat]
  exact ⟨rfl, (haccepts v hv).1⟩

/-- **The vectors of a batch** are those of the one response it got. -/
theorem attempts_ok (hinputs : buildInputs batch.chunks batcher.model batcher.config = .ok inputs) (n : ℕ)
    (hearlier : ∀ m, 0 < m → m ≤ n → (batcher.provider batch.ordinal m).IsTransient)
    (h : (batcher.attempts batch inputs n).2 = .ok x) :
    (∃ response, batcher.Serves batch x response) ∧ x.requests = n + calls (batcher.attempts batch inputs n).1 := by
  induction n using @attempts_rule batcher batch inputs with
  | hdone n result hround =>
    rw [attempts_done hround] at h ⊢
    simp only at h
    rw [h] at hround
    obtain ⟨response, values, hanswer, hvalues, hlength, rfl⟩ := round_ok hround
    refine ⟨⟨response, hanswer, fun m hm hlt => hearlier m hm (Nat.le_of_lt_succ hlt), rfl, ?_, ?_, ?_⟩, rfl⟩
    · rw [List.map_map]
      show (batch.chunks.zip values).map (EmbeddableChunk.chunkId ∘ Prod.fst) = _
      rw [← List.map_map, List.map_fst_zip hlength.le]
    · intro j v hv
      rw [List.getElem?_map, Option.map_eq_some_iff] at hv
      obtain ⟨⟨chunk, chunkValues⟩, hzip, rfl⟩ := hv
      exact (valuesAt_of_getElem hinputs hvalues (List.getElem?_zip_eq_some.1 hzip).2).1
    · intro v hv
      obtain ⟨⟨chunk, chunkValues⟩, hmem, rfl⟩ := List.mem_map.1 hv
      obtain ⟨j, hj⟩ := List.mem_iff_getElem?.1 hmem
      exact (valuesAt_of_getElem hinputs hvalues (List.getElem?_zip_eq_some.1 hj).2).2
  | hagain n seconds hround ih =>
    obtain ⟨reason, retryAfterSeconds, hanswer, -⟩ := round_again hround
    rw [attempts_again hround] at h ⊢
    rw [calls_again, ← Nat.add_assoc, Nat.add_right_comm]
    apply ih _ h
    intro m hm hle
    rcases Nat.lt_or_eq_of_le hle with hlt | rfl
    · exact hearlier m hm (Nat.le_of_lt_succ hlt)
    · rw [hanswer]
      trivial

theorem serves_of_ok (h : (batcher.embedBatch batch).2 = .ok x) :
    (∃ response, batcher.Serves batch x response) ∧ x.requests = calls (batcher.embedBatch batch).1 := by
  cases hinputs : buildInputs batch.chunks batcher.model batcher.config with
  | error e =>
    rw [embedBatch, hinputs] at h
    cases h
  | ok inputs =>
    rw [embedBatch_of_inputs hinputs] at h ⊢
    have hok := attempts_ok hinputs 0 (fun m hm hle => absurd hm (Nat.not_lt.2 hle)) h
    rwa [Nat.zero_add] at hok

end

/-! ## The law of the retries -/

/-- the calls and pauses of a batch are bounded; and if every call fails transiently, a transient error is raised -/
def Retries : Prop :=
  (calls (batcher.embedBatch batch).1 : ℤ) ≤ batcher.config.maxProviderAttempts ∧
  Alternates (batcher.embedBatch batch).1 ∧
  (∀ s, .sleep s ∈ (batcher.embedBatch batch).1 → 0 < s ∧ s ≤ batcher.config.retryMaxBackoffSeconds) ∧
  ((∀ n, 0 < n → n ≤ calls (batcher.embedBatch batch).1 → (batcher.provider batch.ordinal n).IsTransient) →
    ∃ reason retryAfterSeconds, (batcher.embedBatch batch).2 =
      .error (.embeddingProviderTransient reason retryAfterSeconds))

section

variable {batcher batch inputs}

theorem bounded_embedBatch (hinputs : buildInputs batch.chunks batcher.model batcher.config = .ok inputs)
    (hjitter : ∀ n, 0 ≤ batcher.jitter batch.ordinal n ∧ batcher.jitter batch.ordinal n ≤ 1) :
    Bounded batcher.config 0 (batcher.embedBatch batch).1 := by
  rw [embedBatch_of_inputs hinputs]
  exact attempts_bounded hjitter 0 batcher.config.maxProviderAttempts_pos

/-- a pause that overflows breaks the law -/
theorem not_retries (hinputs : buildInputs batch.chunks batcher.model batcher.config = .ok inputs) {k : ℕ} (hk : 1025 ≤ k)
    (hmax : k < batcher.config.maxProviderAttempts)
    (hfails : ∀ m, 0 < m → m ≤ k → (batcher.provider batch.ordinal m).IsTransient)
    (hretry : ∀ s ∈ (batcher.provider batch.ordinal k).retryAfterSeconds, s ≤ 0) : ¬ batcher.Retries batch := by
  intro ⟨_, _, _, hraised⟩
  rw [embedBatch_of_inputs hinputs] at hraised
  have hstop := @attempts_stop batcher batch inputs k hk hmax (hfails k (by omega) le_rfl) hretry 0 (by omega)
  have hmade : ∀ m, 0 < m → m ≤ 0 + calls (batcher.attempts batch inputs 0).1 →
      (batcher.provider batch.ordinal m).IsTransient := fun m hm hle => hfails m hm (hle.trans hstop)
  obtain ⟨reason, retryAfterSeconds, htransient⟩ := hraised (by simpa using hmade)
  obtain ⟨c, rfl, ⟨hlast, -⟩ | ⟨-, -, -, hoverflow⟩⟩ := attempts_failed 0 hmade
  · omega
  · rw [hoverflow] at htransient
    cases htransient

/-- **The law of the retries, exactly.** It holds iff every failure from the 1025th on after which the batch is tried again
names the time to wait: without it the pause overflows. -/
theorem retries_iff (hinputs : buildInputs batch.chunks batcher.model batcher.config = .ok inputs)
    (hjitter : ∀ n, 0 ≤ batcher.jitter batch.ordinal n ∧ batcher.jitter batch.ordinal n ≤ 1) :
    batcher.Retries batch ↔ ∀ n : ℕ, 1025 ≤ n → n < batcher.config.maxProviderAttempts →
      (∀ m, 0 < m → m ≤ n → (batcher.provider batch.ordinal m).IsTransient) →
      ∃ s ∈ (batcher.provider batch.ordinal n).retryAfterSeconds, 0 < s := by
  constructor
  · intro h n hn hmax hfails
    by_contra hnamed
    push Not at hnamed
    exact not_retries hinputs hn hmax hfails hnamed h
  · intro hnamed
    have hbounded := bounded_embedBatch hinputs hjitter
    refine ⟨by simpa using hbounded.calls, hbounded.alternates, hbounded.pauses, fun hfails => ?_⟩
    rw [embedBatch_of_inputs hinputs] at hfails ⊢
    obtain ⟨k, hk, ⟨-, hraised⟩ | ⟨hlate, hmax, hretry, -⟩⟩ := attempts_failed 0
      (fun m hm hle => hfails m hm (by simpa using hle))
    · exact hraised
    · rw [Nat.zero_add] at hk
      obtain ⟨s, hs, hpos⟩ := hnamed k hlate hmax fun m hm hle => hfails m hm (hk ▸ hle)
      exact absurd (hretry s hs) (not_le.2 hpos)

end

/-- a provider that never answers -/
def neverAnswers (config : EmbeddingRunConfig) : EmbeddingBatcher where
  provider := fun _ _ => .transient "provider unavailable" none
  model := ⟨str "m", 1, none⟩
  config := config
  jitter := fun _ _ => 0

def oneChunk : EmbeddingBatch := ⟨0, [⟨1, 0, str "a", 1⟩]⟩

theorem buildInputs_oneChunk (config : EmbeddingRunConfig) :
    buildInputs oneChunk.chunks (neverAnswers config).model config = .ok [⟨0, str "a"⟩] := rfl

/-- with the attempts of the default configuration the law holds -/
theorem retries_iff_default : (neverAnswers DEFAULT_EMBEDDING_RUN_CONFIG).Retries oneChunk := by
  apply (retries_iff (buildInputs_oneChunk _) fun n => ⟨le_rfl, zero_le_one⟩).2
  intro n hn hmax
  have hfour : (neverAnswers DEFAULT_EMBEDDING_RUN_CONFIG).config.maxProviderAttempts = 4 := rfl
  omega

def manyAttempts : EmbeddingRunConfig :=
  { DEFAULT_EMBEDDING_RUN_CONFIG with maxProviderAttempts := 1026, maxProviderAttempts_pos := by decide }

/-- with 1026 it fails -/
theorem retries_overflow : ¬ ∀ (batcher : EmbeddingBatcher) (batch : EmbeddingBatch) (inputs : List EmbeddingInput),
    buildInputs batch.chunks batcher.model batcher.config = .ok inputs →
    (∀ n, 0 ≤ batcher.jitter batch.ordinal n ∧ batcher.jitter batch.ordinal n ≤ 1) → batcher.Retries batch := by
  intro h
  have hinputs := buildInputs_oneChunk manyAttempts
  have hretry : ∀ s ∈ ((neverAnswers manyAttempts).provider oneChunk.ordinal 1025).retryAfterSeconds, s ≤ 0 := by
    intro s hs
    cases hs
  exact not_retries hinputs le_rfl (by decide) (fun _ _ _ => trivial) hretry
    (h (neverAnswers manyAttempts) oneChunk _ hinputs fun n => ⟨le_rfl, zero_le_one⟩)

end EmbeddingBatcher

end AtlasRag.Embedding.Batching
