/-
`plan_batches`: chunks in batches, in order. A batch is closed where the next chunk breaks a limit; a chunk that breaks the
limit of tokens alone is a batch of its own.

The loop keeps the tokens of the open batch in a sum, and makes the segments of `Lib.Segments`.

Results:
- `map_chunks_planBatches`: the batches are the segments of the greedy loop;
- `batches_optimal`: what they are, and that no other batches within the limits are fewer.
-/
import AtlasRag.Embedding.Batching.Config
import AtlasRag.Lib.Segments
import AtlasRag.Platform.Str

namespace AtlasRag.Embedding.Batching

open AtlasRag.Lib.Segments AtlasRag.Platform

structure EmbeddableChunk where
  chunkId : Uuid
  chunkIndex : ℤ
  content : Str
  tokenCount : ℤ
deriving DecidableEq, Repr

structure EmbeddingBatch where
  ordinal : ℕ
  chunks : List EmbeddableChunk
deriving DecidableEq, Repr

/-- the variables of the loop -/
structure Plan where
  batches : List EmbeddingBatch
  current : List EmbeddableChunk
  currentTokens : ℤ

namespace Plan

/-- `batches.append(EmbeddingBatch(ordinal=len(batches), chunks=tuple(current)))` -/
def close (p : Plan) : List EmbeddingBatch := p.batches ++ [⟨p.batches.length, p.current⟩]

def ExceedsItems (config : EmbeddingRunConfig) (p : Plan) : Prop := config.batchSize ≤ p.current.length

def ExceedsTokens (config : EmbeddingRunConfig) (p : Plan) (chunk : EmbeddableChunk) : Prop :=
  p.current ≠ [] ∧ config.maxBatchTokens < p.currentTokens + chunk.tokenCount

instance (config : EmbeddingRunConfig) (p : Plan) : Decidable (p.ExceedsItems config) := inferInstanceAs (Decidable (_ ≤ _))

instance (config : EmbeddingRunConfig) (p : Plan) (chunk : EmbeddableChunk) : Decidable (p.ExceedsTokens config chunk) :=
  inferInstanceAs (Decidable (_ ∧ _))

/-- one round of the loop -/
def add (config : EmbeddingRunConfig) (p : Plan) (chunk : EmbeddableChunk) : Plan :=
  let p := if p.ExceedsItems config ∨ p.ExceedsTokens config chunk then ⟨p.close, [], 0⟩ else p
  ⟨p.batches, p.current ++ [chunk], p.currentTokens + chunk.tokenCount⟩

end Plan

def planBatches (chunks : List EmbeddableChunk) (config : EmbeddingRunConfig) : List EmbeddingBatch :=
  let p := chunks.foldl (Plan.add config) ⟨[], [], 0⟩
  if p.current ≠ [] then p.close else p.batches

/-! ## The loop and its segments -/

def tokens (chunks : List EmbeddableChunk) : ℤ := (chunks.map (·.tokenCount)).sum

/-- within the limits; a single chunk may have any number of tokens -/
def Fits (config : EmbeddingRunConfig) (chunks : List EmbeddableChunk) : Prop :=
  (chunks.length : ℤ) ≤ config.batchSize ∧ (tokens chunks ≤ config.maxBatchTokens ∨ chunks.length = 1)

instance (config : EmbeddingRunConfig) : DecidablePred (Fits config) := fun _ => inferInstanceAs (Decidable (_ ∧ _))

section

variable {config : EmbeddingRunConfig} {chunks : List EmbeddableChunk}

theorem tokens_append (chunks later : List EmbeddableChunk) : tokens (chunks ++ later) = tokens chunks + tokens later := by
  simp [tokens]

theorem tokens_nonneg (h : ∀ c ∈ chunks, 0 ≤ c.tokenCount) : 0 ≤ tokens chunks := by
  apply List.sum_nonneg
  intro n hn
  obtain ⟨c, hc, rfl⟩ := List.mem_map.1 hn
  exact h c hc

theorem fits_single (c : EmbeddableChunk) : Fits config [c] := ⟨Int.add_one_le_of_lt config.batchSize_pos, .inr rfl⟩

/-- **A chunk breaks a limit** of the open batch. -/
theorem not_fits_concat (hne : chunks ≠ []) (c : EmbeddableChunk) : ¬ Fits config (chunks ++ [c]) ↔
    config.batchSize ≤ chunks.length ∨ config.maxBatchTokens < tokens chunks + c.tokenCount := by
  have hlength : 0 < chunks.length := List.length_pos_iff.2 hne
  have htokens : tokens (chunks ++ [c]) = tokens chunks + c.tokenCount := by simp [tokens]
  rw [Fits, htokens, List.length_append, List.length_singleton]
  omega

/-- the batches and the open one are the segments, and the sum is that of the open one -/
structure Plan.Reflects (p : Plan) (segments : List (List EmbeddableChunk)) : Prop where
  chunks : p.batches.map (·.chunks) = segments
  ordinals : p.batches.map (·.ordinal) = List.range p.batches.length
  tokens : p.currentTokens = tokens p.current

theorem Plan.Reflects.close {p : Plan} {segments : List (List EmbeddableChunk)} (h : p.Reflects segments) :
    p.close.map (·.chunks) = segments ++ [p.current] ∧ p.close.map (·.ordinal) = List.range p.close.length := by
  rw [Plan.close, List.map_append, List.map_append, h.chunks, h.ordinals]
  refine ⟨rfl, ?_⟩
  rw [List.length_append, List.length_singleton, List.range_succ]
  rfl

/-- the batches that the loop ends with, from any state -/
theorem foldl_add {p : Plan} {segments : List (List EmbeddableChunk)} (h : p.Reflects segments)
    (chunks : List EmbeddableChunk) :
    let q := chunks.foldl (Plan.add config) p
    let batches := if q.current ≠ [] then q.close else q.batches
    batches.map (·.chunks) = segments ++ greedyFrom (Fits config) p.current chunks ∧
      batches.map (·.ordinal) = List.range batches.length := by
  induction chunks generalizing p segments with
  | nil =>
    rw [greedyFrom]
    by_cases hcurrent : p.current = []
    · simp [hcurrent, h.chunks, h.ordinals]
    · simpa [hcurrent] using h.close
  | cons chunk chunks ih =>
    rw [List.foldl_cons, greedyFrom]
    have hbreak : (p.ExceedsItems config ∨ p.ExceedsTokens config chunk) ↔
        ¬ (p.current = [] ∨ Fits config (p.current ++ [chunk])) := by
      rw [Plan.ExceedsItems, Plan.ExceedsTokens, not_or, h.tokens]
      by_cases hcurrent : p.current = []
      · have hpos := config.batchSize_pos
        simp [hcurrent, hpos]
      · simp [hcurrent, not_fits_concat]
    by_cases hfits : p.current = [] ∨ Fits config (p.current ++ [chunk])
    · rw [if_pos hfits, Plan.add, if_neg (mt hbreak.1 (not_not.2 hfits))]
      exact ih ⟨h.chunks, h.ordinals, by simp [tokens, h.tokens]⟩
    · rw [if_neg hfits, Plan.add, if_pos (hbreak.2 hfits)]
      obtain ⟨hchunks, hordinals⟩ := h.close
      have hnext := ih (p := ⟨p.close, [chunk], 0 + chunk.tokenCount⟩) ⟨hchunks, hordinals, by simp [tokens]⟩
      rw [List.append_assoc] at hnext
      exact hnext

variable (config chunks)

/-- **The batches** of a plan -/
theorem map_chunks_planBatches : (planBatches chunks config).map (·.chunks) = greedy (Fits config) chunks ∧
    (planBatches chunks config).map (·.ordinal) = List.range (planBatches chunks config).length := by
  have hstart : (⟨[], [], 0⟩ : Plan).Reflects [] := ⟨rfl, rfl, rfl⟩
  exact foldl_add hstart chunks

theorem isPartition_planBatches : IsPartition (Fits config) chunks ((planBatches chunks config).map (·.chunks)) := by
  rw [(map_chunks_planBatches config chunks).1]
  exact greedy_isPartition fits_single chunks

theorem flatMap_planBatches : (planBatches chunks config).flatMap (·.chunks) = chunks :=
  List.flatMap_def.trans (isPartition_planBatches config chunks).flatten

end

/-! ## Fewest batches -/

/-- within the limits, of chunks without a negative number of tokens -/
def Sound (config : EmbeddingRunConfig) (chunks : List EmbeddableChunk) : Prop :=
  Fits config chunks ∧ ∀ c ∈ chunks, 0 ≤ c.tokenCount

theorem sound_hereditary (config : EmbeddingRunConfig) : Hereditary (Sound config) := by
  intro part chunks hinfix hne ⟨⟨hlength, htokens⟩, hnonneg⟩
  have hsub := hinfix.subset
  have hle : part.length ≤ chunks.length := hinfix.length_le
  refine ⟨⟨by omega, ?_⟩, fun c hc => hnonneg c (hsub hc)⟩
  have hpos : 0 < part.length := List.length_pos_iff.2 hne
  rcases htokens with htokens | hsingle
  · left
    obtain ⟨before, after, rfl⟩ := hinfix
    rw [tokens_append, tokens_append] at htokens
    have hbefore : 0 ≤ tokens before := tokens_nonneg fun c hc => hnonneg c (by simp [hc])
    have hafter : 0 ≤ tokens after := tokens_nonneg fun c hc => hnonneg c (by simp [hc])
    omega
  · right
    omega

theorem isPartition_sound {config : EmbeddingRunConfig} {chunks : List EmbeddableChunk}
    (hnonneg : ∀ c ∈ chunks, 0 ≤ c.tokenCount) {segments : List (List EmbeddableChunk)}
    (h : IsPartition (Fits config) chunks segments) : IsPartition (Sound config) chunks segments := by
  refine ⟨h.flatten, h.ne_nil, fun s hs => ⟨h.ok s hs, fun c hc => hnonneg c ?_⟩⟩
  rw [← h.flatten]
  exact List.mem_flatten_of_mem hs hc

/-- **Batches are correct and as few as possible.** They are the chunks in order, none is empty, they are numbered from 0 and
within the limits; each but the last is full; and no other batches of these chunks within the limits are fewer. -/
theorem batches_optimal (chunks : List EmbeddableChunk) (config : EmbeddingRunConfig)
    (hnonneg : ∀ c ∈ chunks, 0 ≤ c.tokenCount) :
    (planBatches chunks config).flatMap (·.chunks) = chunks ∧
    (∀ b ∈ planBatches chunks config, b.chunks ≠ []) ∧
    (planBatches chunks config).map (·.ordinal) = List.range (planBatches chunks config).length ∧
    (∀ b ∈ planBatches chunks config, (b.chunks.length : ℤ) ≤ config.batchSize ∧
      (tokens b.chunks ≤ config.maxBatchTokens ∨ b.chunks.length = 1)) ∧
    ((planBatches chunks config).IsChain fun b next => ∀ c ∈ next.chunks.head?,
      config.batchSize < (b.chunks ++ [c]).length ∨ config.maxBatchTokens < tokens (b.chunks ++ [c])) ∧
    ∀ others, IsPartition (Fits config) chunks others → (planBatches chunks config).length ≤ others.length := by
  obtain ⟨hgreedy, hordinals⟩ := map_chunks_planBatches config chunks
  have hpartition := isPartition_planBatches config chunks
  have hfull : Full (Fits config) ((planBatches chunks config).map (·.chunks)) := by
    rw [hgreedy]
    exact greedy_full chunks
  have hne : ∀ b ∈ planBatches chunks config, b.chunks ≠ [] := fun b hb => hpartition.ne_nil _ (List.mem_map_of_mem hb)
  refine ⟨flatMap_planBatches config chunks, hne, hordinals, fun b hb => hpartition.ok _ (List.mem_map_of_mem hb), ?_, ?_⟩
  · have hchain := (List.isChain_map _).1 hfull
    refine hchain.imp_of_mem_imp fun b next hb _ hlast c hc => ?_
    have hbreak := (not_fits_concat (hne b hb) c).1 (hlast c hc)
    have htokens : tokens (b.chunks ++ [c]) = tokens b.chunks + c.tokenCount := by simp [tokens]
    rw [htokens, List.length_append, List.length_singleton]
    omega
  · intro others hothers
    rw [← @List.length_map _ _ (planBatches chunks config) EmbeddingBatch.chunks]
    exact length_le_of_full (sound_hereditary config) (isPartition_sound hnonneg hpartition)
      (hfull.imp fun s next h x hx hsound => h x hx hsound.1) (isPartition_sound hnonneg hothers) (List.suffix_refl chunks)

/-- a chunk that is too long, between two that are not -/
def longBetween : List EmbeddableChunk := [⟨1, 0, str "a", 1⟩, ⟨2, 1, str "b", 200000⟩, ⟨3, 2, str "c", 0⟩]

theorem batches_optimal_longBetween : (planBatches longBetween DEFAULT_EMBEDDING_RUN_CONFIG).length = 3 ∧
    ∀ others, IsPartition (Fits DEFAULT_EMBEDDING_RUN_CONFIG) longBetween others → 3 ≤ others.length :=
  ⟨by decide, (batches_optimal longBetween DEFAULT_EMBEDDING_RUN_CONFIG (by decide)).2.2.2.2.2⟩

end AtlasRag.Embedding.Batching
