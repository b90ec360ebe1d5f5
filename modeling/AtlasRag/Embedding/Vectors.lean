/-
The stored vectors of an item and a model, over all interleavings of `Embedding.Transactions`.

`completions` lists the completions of a pair in the order of their commits; the stored vectors of the pair are those of
the last one. An attempt that does not own its run, whose chunks are not those of the item, or whose vectors are not one
for each chunk, commits nothing.

Results:
- `Reflects.step`: a commit keeps the vectors and the history in step;
- `step_embeddings`: the only steps that change a stored vector;
- `embedding_complete`: where a run of the pair is completed, every chunk has one vector, all of the last completion.
-/
import AtlasRag.Embedding.Safety

namespace AtlasRag.Embedding

open AtlasRag.Lib AtlasRag.Lib.LeasedJob AtlasRag.Lib.RowLock AtlasRag.Lib.Table AtlasRag.Lib.Transaction
open AtlasRag.Platform AtlasRag.Ingestion

variable {cfg : Config} {clock : Time → Time → Prop} {reply : Reply} {L : Set EmbeddingRow} {db db' : EmbeddingDb}
  {item model : Uuid} {h : List Reply}

/-- the completions of the pair among the committed results -/
def completions (item model : Uuid) (h : List Reply) : List Completion :=
  (h.filterMap (·.request.completion?)).filter fun c => c.ingestionItemId = item ∧ c.embeddingModelId = model

theorem completions_append (h : List Reply) (r : Reply) : completions item model (h ++ [r]) =
    completions item model h ++
      r.request.completion?.toList.filter fun c => c.ingestionItemId = item ∧ c.embeddingModelId = model := by
  cases hr : r.request.completion? <;> simp [completions, hr]

/-- the stored vectors of the pair are those of its last completion -/
structure Reflects (db : EmbeddingDb) (h : List Reply) (item model : Uuid) : Prop where
  completed : ∀ r ∈ db.runs, r.pair = (item, model) → r.status = .completed → completions item model h ≠ []
  none' : completions item model h = [] → db.vectors item model = []
  last : ∀ c, (completions item model h).getLast? = some c → ∃ t, db.vectors item model = c.rows t ∧
    (c.vectors.map (·.chunkId)).Perm (db.listChunkIds item)

/-- a request that is no completion completes no run -/
theorem status_of_statement {q : Request} {now t : Time} {s : RunStmt} (hs : q.statement cfg now t = some s)
    (hq : q.completion? = none) (r : EmbeddingRun) (hm : s.Matches r.toJob) : (r.set s).status ≠ .completed := by
  have hstatus := exec_status (exec_some.2 ⟨hm, rfl⟩)
  cases q with
  | createRun => simp [Request.statement] at hs
  | persistVectorsAndMarkCompleted => simp [Request.completion?] at hq
  | scheduleRetry x a =>
    simp only [Request.statement, Option.some.injEq] at hs
    split_ifs at hs <;> subst hs <;> simp [EmbeddingRun.set, hstatus]
  | _ =>
    simp only [Request.statement, Option.some.injEq] at hs
    subst hs
    simp [EmbeddingRun.set, hstatus]

/-- A commit keeps the vectors and the history in step. -/
theorem Reflects.step (hr : Reflects db h item model) (hG : Good db) (hc : Change cfg reply L db db') :
    Reflects db' (h ++ [reply]) item model := by
  cases hc with
  | @created x item' model' configuration by' now t _ _ hv =>
    have hsame : completions item model (h ++ [⟨.createRun x item' model' configuration by', now, t, .created x⟩]) =
        completions item model h := by simp [completions_append, Request.completion?]
    refine ⟨fun r hmem hp hst => ?_, ?_, ?_⟩
    · rw [hsame]
      simp only [EmbeddingDb.addRun, List.mem_append, List.mem_singleton] at hmem
      rcases hmem with hmem | rfl
      · exact hr.completed r hmem hp hst
      · simp [newRun, Job.new] at hst
    · rw [hsame]; exact hr.none'
    · rw [hsame]; exact hr.last
  | @updated q now t o _ _ ids s hs hq _ howned =>
    have hsame : completions item model (h ++ [⟨q, now, t, o⟩]) = completions item model h := by
      simp [completions_append, hq]
    refine ⟨fun r hmem hp hst => ?_, ?_, ?_⟩
    · rw [hsame]
      rcases EmbeddingDb.mem_updateRuns.1 hmem with ⟨r₀, hr₀, hid, rfl⟩ | ⟨hmem, -⟩
      · exact absurd hst (status_of_statement hs hq r₀ (howned.rows r₀ hr₀ hid).2.1)
      · exact hr.completed r hmem hp hst
    · rw [hsame]; exact hr.none'
    · rw [hsame]; exact hr.last
  | @completed c now t _ _ howned hc =>
    by_cases hpair : (item, model) = (c.ingestionItemId, c.embeddingModelId)
    · obtain ⟨rfl, rfl⟩ := Prod.mk.inj hpair
      have hnew : completions c.ingestionItemId c.embeddingModelId
          (h ++ [⟨.persistVectorsAndMarkCompleted c, now, t, .returned true⟩]) =
            completions c.ingestionItemId c.embeddingModelId h ++ [c] := by
        simp [completions_append, Request.completion?]
      refine ⟨fun _ _ _ _ => by simp [hnew], fun hnil => by simp [hnew] at hnil, fun c' hlast => ⟨t, ?_⟩⟩
      obtain rfl : c = c' := by simpa [hnew] using hlast
      exact ⟨hc.vectors, hc.expected.symm ▸ hc.chunks⟩
    · have hsame : completions item model
          (h ++ [⟨.persistVectorsAndMarkCompleted c, now, t, .returned true⟩]) = completions item model h := by
        have hne : ¬ (c.ingestionItemId = item ∧ c.embeddingModelId = model) := fun h => hpair (by rw [h.1, h.2])
        simp [completions_append, Request.completion?, hne]
      have hvec := hc.vectors_ne hG hpair
      refine ⟨fun r hmem hp hst => ?_, ?_, ?_⟩
      · rw [hsame]
        rcases EmbeddingDb.mem_updateRuns.1 hmem with ⟨r₀, hr₀, hid, rfl⟩ | ⟨hmem, -⟩
        · exact absurd (hp.symm.trans (hc.pair r₀ hr₀ (by simpa using hid))) hpair
        · exact hr.completed r hmem hp hst
      · rw [hsame]; exact fun hnil => hvec.trans (hr.none' hnil)
      · rw [hsame]
        intro c' hlast
        obtain ⟨t', hrows, hperm⟩ := hr.last c' hlast
        exact ⟨t', hvec.trans hrows, hperm⟩

/-- **The only steps that change a stored vector**: the commits of complete attempts that own their run. -/
theorem step_embeddings (hdb : Good db) {s : State} (hs : EmbeddingRuns cfg clock db s) (o : RowLock.Op Tx) :
    (step next s o).db.embeddings = s.db.embeddings ∨
      ∃ w c now t, committing s o = some (w, ⟨.persistVectorsAndMarkCompleted c, now, t, .returned true⟩) ∧
        s.db.listChunkIds c.ingestionItemId = c.expectedChunkIds ∧
        (c.vectors.map (·.chunkId)).Perm c.expectedChunkIds ∧
        ∃ r ∈ s.db.runs, r.id = c.runId ∧ r.OwnedBy c.attemptNumber t := by
  cases hcom : committing s o with
  | none => exact .inl (by rw [step_db_none hcom])
  | some cm =>
    obtain ⟨w, reply⟩ := cm
    obtain ⟨L, -, hc⟩ := commit_change hdb hs hcom
    rw [step_db_some hcom]
    generalize w s.db = d at hc
    cases hc with
    | created => exact .inl rfl
    | updated => exact .inl rfl
    | @completed c now t _ _ howned hc =>
      obtain ⟨r, hr, hid⟩ := howned.found c.runId (by simp)
      exact .inr ⟨w, c, now, t, rfl, hc.expected, hc.chunks, r, hr, hid, (howned.rows r hr (by simp [hid])).2.1⟩

/-- each expected chunk has one of the rows -/
theorem one_vector (hchunks : (db.chunks.map (·.id)).Nodup) {c : Completion} {t : Time}
    (hrows : db.vectors item model = c.rows t) (hperm : (c.vectors.map (·.chunkId)).Perm (db.listChunkIds item)) {x : Uuid}
    (hx : x ∈ db.listChunkIds item) : (db.embeddings.filter fun v => v.key = (x, model)).length = 1 := by
  have hfilter : db.embeddings.filter (fun v => v.key = (x, model)) = (c.rows t).filter (·.chunkId = x) := by
    rw [← hrows, EmbeddingDb.vectors, List.filter_filter]
    refine List.filter_congr fun v _ => ?_
    by_cases hv : v.chunkId = x
    · simp [ChunkEmbedding.key, hv, hx]
    · simp [ChunkEmbedding.key, hv]
  have hcount : ((c.rows t).filter (·.chunkId = x)).length = (c.vectors.map (·.chunkId)).count x := by
    rw [← List.countP_eq_length_filter, Completion.rows, List.countP_map, List.count, List.countP_map]
    refine List.countP_congr fun v _ => ?_
    simp
  calc (db.embeddings.filter fun v => v.key = (x, model)).length
      = (c.vectors.map (·.chunkId)).count x := by rw [hfilter, hcount]
    _ = (db.listChunkIds item).count x := hperm.count_eq x
    _ = 1 := List.count_eq_one_of_mem (EmbeddingDb.listChunkIds_nodup hchunks item) hx

/-- **Embedding completeness.** In every run of embedding transactions, from tables without runs and vectors, for every
item and model:
- if a run of the pair is completed, every chunk of the item has exactly one vector, with the dimension and the run of the
  last completion;
- the vectors of the pair are all of one run;
- a step changes stored vectors only if it commits a completion that owns its run, for the chunks that the item has, with
  one vector for each of them. -/
theorem embedding_complete (cfg : Config) (db : EmbeddingDb) (hchunks : (db.chunks.map (·.id)).Nodup)
    (hruns : db.runs = []) (hvectors : db.embeddings = []) (ops : List (RowLock.Op Tx))
    (hops : Admissible (step next) (Legal cfg fun _ _ => True) (Sys.init db) ops) :
    let s := run (step next) (Sys.init db) ops
    (∀ item model, (∃ r ∈ s.db.runs, r.pair = (item, model) ∧ r.status = .completed) →
      ∃ c, (completions item model (history (Sys.init db) ops)).getLast? = some c ∧
        (∀ x ∈ s.db.listChunkIds item, (s.db.embeddings.filter fun v => v.key = (x, model)).length = 1) ∧
        ∀ v ∈ s.db.vectors item model, v.dimension = c.dimension ∧ v.embeddingRunId = c.runId) ∧
    (∀ item model, ∀ v ∈ s.db.vectors item model, ∀ w ∈ s.db.vectors item model,
      v.embeddingRunId = w.embeddingRunId) ∧
    ∀ o, (step next s o).db.embeddings = s.db.embeddings ∨
      ∃ w c now t, committing s o = some (w, ⟨.persistVectorsAndMarkCompleted c, now, t, .returned true⟩) ∧
        s.db.listChunkIds c.ingestionItemId = c.expectedChunkIds ∧
        (c.vectors.map (·.chunkId)).Perm c.expectedChunkIds ∧
        ∃ r ∈ s.db.runs, r.id = c.runId ∧ r.OwnedBy c.attemptNumber t := by
  intro s
  have hG : Good db := ⟨hchunks, by simp [hruns], by simp [hruns], by simp [hruns], by simp [hvectors], by simp [hvectors]⟩
  have hs : EmbeddingRuns cfg (fun _ _ => True) db s := run_of_admissible hops
  have hchunks' : (s.db.chunks.map (·.id)).Nodup := (run_good hG hs).chunkIds
  have href : ∀ item model, Reflects s.db (history (Sys.init db) ops) item model := by
    intro item model
    refine history_rule (H := fun d h => Reflects d h item model) legal_safe hG ⟨?_, ?_, ?_⟩ ?_ hops
    · simp [hruns]
    · simp [EmbeddingDb.vectors, hvectors]
    · simp [completions]
    · intro d h r L d' hG _ hc hr
      exact hr.step hG hc.2
  refine ⟨fun item model hex => ?_, fun item model v hv w hw => ?_, step_embeddings hG hs⟩
  · obtain ⟨r, hr, hp, hst⟩ := hex
    obtain ⟨c, hlast⟩ := Option.ne_none_iff_exists'.1
      (mt List.getLast?_eq_none_iff.1 ((href item model).completed r hr hp hst))
    obtain ⟨t, hrows, hperm⟩ := (href item model).last c hlast
    refine ⟨c, hlast, fun x hx => one_vector hchunks' hrows hperm hx, fun v hv => ?_⟩
    rw [hrows] at hv
    exact ⟨(Completion.mem_rows hv).2.2.1, (Completion.mem_rows hv).2.1⟩
  · cases hlast : (completions item model (history (Sys.init db) ops)).getLast? with
    | none =>
      rw [(href item model).none' (List.getLast?_eq_none_iff.1 hlast)] at hv
      cases hv
    | some c =>
      obtain ⟨t, hrows, -⟩ := (href item model).last c hlast
      rw [hrows] at hv hw
      rw [(Completion.mem_rows hv).2.1, (Completion.mem_rows hw).2.1]

/-- one completed item 1, with the chunk 10 -/
def oneChunk : EmbeddingDb where
  items := [⟨⟨.completed, 1, none, none, some 0, some 0, none, none, []⟩, 1, 2, 3, none, none, none, 0⟩]
  chunks := [⟨⟨0, "c", .text, none, [], none, none, none, 1, "h", []⟩, 10, 1, 0⟩]
  models := [7]
  principals := []
  runs := []
  embeddings := []

def oneAttempt : Config := ⟨60, 1, fun _ => "h"⟩

/-- a second chunk -/
def twoChunks : EmbeddingDb :=
  { oneChunk with
    chunks := oneChunk.chunks ++ [⟨⟨1, "d", .text, none, [], none, none, none, 1, "h", []⟩, 11, 1, 0⟩] }

/-- the vectors of the chunks, in reverse, by the first attempt of the run `x` -/
def completionOf (x : Uuid) (v : ℚ) : Completion := ⟨x, 1, 1, 7, 2, [10, 11], [⟨11, [v, 0]⟩, ⟨10, [v, 1]⟩], []⟩

/-- one request, in session `i`, with `n` statements -/
def session (i : ℕ) (q : Request) (t : Time) (n : ℕ) : List (RowLock.Op Tx) :=
  .start i (q.txn oneAttempt t t) :: List.replicate n (.exec i)

theorem session_legal {s : State} {q : Request} (hq : q.Legal s.db) (i : ℕ) (t : Time) (n : ℕ) :
    Admissible (step next) (Legal oneAttempt fun _ _ => True) s (session i q t n) := by
  refine ⟨⟨q, t, t, rfl, trivial, hq⟩, .of_forall (fun o ho s' => ?_) _⟩
  obtain rfl := List.eq_of_mem_replicate ho
  trivial

/-- the run `x` is created, claimed and completed -/
def createClaimComplete (i : ℕ) (x : Uuid) (t : Time) (v : ℚ) : List (RowLock.Op Tx) :=
  session i (.createRun x 1 7 [] none) t 4 ++ session (i + 1) (.claim x) (t + 1) 2 ++
    session (i + 2) (.persistVectorsAndMarkCompleted (completionOf x v)) (t + 2) 7

/-- the run 200, after the run 100 -/
def twoRuns : List (RowLock.Op Tx) := createClaimComplete 0 100 5 1 ++ createClaimComplete 3 200 10 2

theorem twoRuns_legal :
    Admissible (step next) (Legal oneAttempt fun _ _ => True) (Sys.init twoChunks) twoRuns := by
  refine .append (.append (.append ?_ ?_) ?_) (.append (.append ?_ ?_) ?_)
  all_goals apply session_legal
  exacts [trivial, trivial, ⟨by decide +kernel, by decide⟩, trivial, trivial, ⟨by decide +kernel, by decide⟩]

/-- each chunk has one vector, of the second run -/
theorem embedding_complete_second_run :
    let s := run (step next) (Sys.init twoChunks) twoRuns
    s.db.runs.map (fun r => (r.id, r.status)) = [(100, .completed), (200, .completed)] ∧
      s.db.listChunkIds 1 = [10, 11] ∧
      (∀ x ∈ s.db.listChunkIds 1, (s.db.embeddings.filter fun v => v.key = (x, 7)).length = 1) ∧
      ∀ v ∈ s.db.vectors 1 7, v.embeddingRunId = 200 := by
  intro s
  have hdone : ∃ r ∈ s.db.runs, r.pair = (1, 7) ∧ r.status = .completed := by decide +kernel
  have hlast : (completions 1 7 (history (Sys.init twoChunks) twoRuns)).getLast?.map (·.runId) = some 200 := by
    decide +kernel
  obtain ⟨c, hc, hone, hrun⟩ := (embedding_complete oneAttempt twoChunks (by decide) rfl rfl twoRuns
    twoRuns_legal).1 1 7 hdone
  rw [hc] at hlast
  exact ⟨by decide +kernel, by decide +kernel, hone, fun v hv => (hrun v hv).2.trans (Option.some.inj hlast)⟩

end AtlasRag.Embedding
