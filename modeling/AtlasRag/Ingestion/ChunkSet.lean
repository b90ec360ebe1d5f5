/-
The chunk set of an item, over the interleavings of `Ingestion.Fencing`.

A replacement deletes the item's rows and inserts its own in the transaction whose last statement completes the item, so
rows become visible with the completion only, and a completed item refuses a second replacement. The bulk insert stores
every field of a draft but its metadata (`ChunkDraft.stored`).

Results:
- `chunk_set`: an item that is not completed has no rows; a completed one has the stored drafts of the one call that
  completed it, and under `DefaultIngestionProcessor` the recorded hash of its artifact;
- `chunk_set_exact_iff`: these rows are exactly the drafts passed iff the drafts have no metadata;
- `chunk_metadata_lost`: a completion with a draft that has some.
-/
import AtlasRag.Ingestion.Fencing
import AtlasRag.Lib.Lists

namespace AtlasRag.Ingestion.Fencing

open AtlasRag.Lib AtlasRag.Lib.Lists AtlasRag.Lib.LeasedJob AtlasRag.Lib.RowLock AtlasRag.Platform

variable {cfg : Config} {id ingestionRun artifact : Uuid} {t₀ : Time} {s : State}

/-! ## What a committed call leaves in `chunks` -/

/-- a request that completes the item records its file hash -/
theorem completes_hash {d d' : ItemDb} {p : Session} {r : Reply} {it : IngestionItem} (h : Committed cfg d p d' r it)
    (hc : it.status = .completed) : ∃ x, p.request.hash? = some x ∧ it.observedFileHash = some x := by
  obtain ⟨-, -, rfl⟩ := updateRow_some.1 h.update
  obtain ⟨request, now, t, pc⟩ := p
  cases request with
  | reap => cases hc
  | call c =>
    cases c with
    | markCompleted a x metadata => exact ⟨x, rfl, rfl⟩
    | replaceChunksAndMarkCompleted a drafts x metadata ids => exact ⟨x, rfl, rfl⟩
    | heartbeat a =>
      have hm := (updateRow_some.1 h.update).1
      have hrun : d.item.status = .running := hm.1
      rw [show d.item.status = .completed from hc] at hrun
      cases hrun
    | scheduleRetry a code msg jobId =>
      by_cases ha : cfg.maxAttempts ≤ a
      · simp only [Request.stmt, stmt_lastAttempt ha] at hc; cases hc
      · simp only [Request.stmt, stmt_release ha] at hc; cases hc
    | claim => cases hc
    | markFailed => cases hc

/-- a request that replaces the chunk set completes the item -/
theorem chunkSet_completes {d d' : ItemDb} {p : Session} {r : Reply} {it : IngestionItem} (h : Committed cfg d p d' r it)
    {set : List ChunkDraft × (ℕ → Uuid)} (hset : p.request.chunkSet? = some set) : it.status = .completed := by
  obtain ⟨-, -, rfl⟩ := updateRow_some.1 h.update
  obtain ⟨request, now, t, pc⟩ := p
  cases request with
  | reap => cases hset
  | call c => cases c <;> first | rfl | cases hset

/-- with only rows of the item in the table, a replacement leaves exactly the rows of its drafts -/
theorem replaced_rows {d : ItemDb} (hrows : ∀ c ∈ d.chunks, c.ingestionItemId = d.item.id) (rows : List Chunk) :
    (d.chunks.filter fun c => c.id ∉ (chunksOf d.item.id d.chunks).map (·.id)) ++ rows = rows := by
  have hnone : (d.chunks.filter fun c => c.id ∉ (chunksOf d.item.id d.chunks).map (·.id)) = [] := by
    rw [List.filter_eq_nil_iff]
    intro c hc hgone
    have hmem : c ∈ chunksOf d.item.id d.chunks := List.mem_filter.2 ⟨hc, by simpa using hrows c hc⟩
    exact (of_decide_eq_true hgone) (List.mem_map_of_mem hmem)
  rw [hnone, List.nil_append]

/-! ## The invariant -/

structure ChunkInv (id artifact : Uuid) (s : State) : Prop where
  keys : s.db.item.id = id ∧ s.db.item.documentArtifactId = artifact
  rows : ∀ c ∈ s.db.chunks, c.ingestionItemId = s.db.item.id
  incomplete : s.db.item.status ≠ .completed → s.db.chunks = []
  completed : s.db.item.status = .completed → ∃ e ∈ s.log, e.2.result = .done s.db.item
  /-- the reply that completed the item tells what its rows are -/
  stored : ∀ e ∈ s.log, ∀ it, e.2.result = .done it → it.status = .completed → s.db.item = it ∧
    s.db.chunks.map Chunk.toChunkDraft = e.2.request.drafts.map ChunkDraft.stored ∧
    ∃ x, e.2.request.hash? = some x ∧ it.observedFileHash = some x

theorem chunkInv_init : ChunkInv id artifact (init id ingestionRun artifact t₀) where
  keys := ⟨rfl, rfl⟩
  rows _ hc := nomatch hc
  incomplete _ := rfl
  completed hc := nomatch hc
  stored _ he := nomatch he

/-- a committed call on an open item -/
theorem ChunkInv.committed (h : ChunkInv id artifact s) (hinv : Inv s) {i : ℕ} {p : Session} {d : ItemDb} {r : Reply}
    {it : IngestionItem} (hc : Committed cfg s.db p d r it) (s' : State) (hdb : s'.db = d)
    (hlog : s'.log = s.log ++ [(i, r)]) : ChunkInv id artifact s' := by
  -- a terminal row matches no statement: the item was open and no earlier reply had ended it
  have hopen : ¬ s.db.item.status.Terminal := fun ht => by
    have hx := hc.exec
    rw [exec_terminal ht] at hx
    cases hx
  have hbefore : ∀ e ∈ s.log, ∀ x, e.2.result = .done x → x.status ≠ .completed := by
    intro e he x hx hcomp
    have hzero := hinv.ended
    rw [if_neg hopen, List.countP_eq_zero] at hzero
    refine hzero e he ?_
    have hterm : x.status.Terminal := .inl hcomp
    simp only [Reply.ends, hx]
    exact decide_eq_true hterm
  have hempty : s.db.chunks = [] := h.incomplete fun hcomp => hopen (.inl hcomp)
  have hkeys : it.id = s.db.item.id ∧ it.documentArtifactId = s.db.item.documentArtifactId := by
    obtain ⟨-, -, rfl⟩ := updateRow_some.1 hc.update
    exact ⟨rfl, rfl⟩
  have hres : r.result = .done it := by rw [hc.reply]; rfl
  -- the rows after the call: its own, or none
  have hchunks : d.chunks.map Chunk.toChunkDraft = p.request.drafts.map ChunkDraft.stored ∧
      (∀ c ∈ d.chunks, c.ingestionItemId = it.id) ∧ (it.status ≠ .completed → d.chunks = []) := by
    have hcc := hc.chunks
    cases hset : p.request.chunkSet? with
    | none =>
      rw [hset] at hcc
      have hd : d.chunks = [] := hcc.trans hempty
      have hdrafts : p.request.drafts = [] := by simp [Request.drafts, hset]
      rw [hd, hdrafts]
      exact ⟨rfl, fun c hx => (nomatch hx), fun _ => rfl⟩
    | some set =>
      obtain ⟨drafts, ids⟩ := set
      rw [hset] at hcc
      have hd : d.chunks = chunkRows s.db.item.id drafts ids p.t := hcc.2.trans (replaced_rows h.rows _)
      have hdrafts : p.request.drafts = drafts := by simp [Request.drafts, hset]
      rw [hd, hdrafts, chunkRows_drafts, hkeys.1]
      exact ⟨rfl, fun c hx => chunkRows_item hx, fun hne => absurd (chunkSet_completes hc hset) hne⟩
  refine ⟨?_, ?_, ?_, ?_, ?_⟩
  · rw [hdb, hc.item]; exact ⟨hkeys.1.trans h.keys.1, hkeys.2.trans h.keys.2⟩
  · rw [hdb, hc.item]; exact hchunks.2.1
  · rw [hdb, hc.item]; exact hchunks.2.2
  · rw [hdb, hc.item, hlog]; exact fun _ => ⟨(i, r), by simp, hres⟩
  · rw [hdb, hc.item, hlog]
    intro e he x hx hcomp
    rcases List.mem_append.1 he with he | he
    · exact absurd hcomp (hbefore e he x hx)
    · rw [List.mem_singleton.1 he] at hx ⊢
      obtain rfl : it = x := Result.done.inj (hres.symm.trans hx)
      obtain rfl := hc.reply
      exact ⟨rfl, hchunks.1, completes_hash hc hcomp⟩

theorem chunkInv_step (hs : Run (step (next cfg)) ok (init id ingestionRun artifact t₀) s) (o : RowLock.Op Session)
    (h : ChunkInv id artifact s) : ChunkInv id artifact (step (next cfg) s o) := by
  have he := step_effect hs o
  generalize hs' : step (next cfg) s o = s' at he
  generalize hdb : s'.db = d, hlog : s'.log = log at he
  cases he with
  | quiet =>
    refine ⟨hdb ▸ h.keys, hdb ▸ h.rows, hdb ▸ h.incomplete, ?_, ?_⟩
    · rw [hdb, hlog]; exact h.completed
    · rw [hdb, hlog]; exact h.stored
  | @failed i r hr =>
    refine ⟨hdb ▸ h.keys, hdb ▸ h.rows, hdb ▸ h.incomplete, ?_, ?_⟩
    · rw [hdb, hlog]
      intro hc
      obtain ⟨e, he, hx⟩ := h.completed hc
      exact ⟨e, List.mem_append_left _ he, hx⟩
    · rw [hdb, hlog]
      intro e he it hit hc
      rcases List.mem_append.1 he with he | he
      · exact h.stored e he it hit hc
      · rw [List.mem_singleton.1 he] at hit
        exact absurd hit (hr it)
  | done hi hc => exact h.committed (run_inv hs) hc s' hdb hlog

theorem run_chunkInv (hs : Run (step (next cfg)) ok (init id ingestionRun artifact t₀) s) : ChunkInv id artifact s := by
  induction hs with
  | refl => exact chunkInv_init
  | tail hs o _ ih => exact chunkInv_step hs o ih

/-! ## Main results -/

/-- the call was made by `DefaultIngestionProcessor`, for the artifact of a claim -/
def ByDefaultProcessor {δ : Type} (env : Environment δ) (artifactId : Uuid) (r : Request) : Prop :=
  ∃ claim ids c, claim.documentArtifactId = artifactId ∧ DefaultIngestionProcessor.process env claim ids = .ok c ∧
    r = .call c

/-- **Frozen and complete, up to metadata.** An item that is not completed has no rows. A completed one has, for good,
the stored drafts of the call that completed it, and the recorded hash of its artifact if that call was made by
`DefaultIngestionProcessor`. -/
theorem chunk_set (hs : Run (step (next cfg)) ok (init id ingestionRun artifact t₀) s) :
    (s.db.item.status ≠ .completed → s.db.chunks = []) ∧
    (s.db.item.status = .completed →
      (∃ e ∈ s.log, e.2.result = .done s.db.item ∧
        s.db.chunks.map Chunk.toChunkDraft = e.2.request.drafts.map ChunkDraft.stored ∧
        ∀ (δ : Type) (env : Environment δ), ByDefaultProcessor env artifact e.2.request →
          ∃ record, env.findForIngestion artifact = some record ∧ s.db.item.observedFileHash = some record.fileHash) ∧
      ∀ s', Run (step (next cfg)) ok s s' → s'.db = s.db) := by
  have h := run_chunkInv hs
  refine ⟨h.incomplete, fun hc => ⟨?_, fun s' hr => terminal_stable hs (.inl hc) hr⟩⟩
  obtain ⟨e, he, hit⟩ := h.completed hc
  obtain ⟨-, hrows, x, hx, hobs⟩ := h.stored e he _ hit hc
  refine ⟨e, he, hit, hrows, ?_⟩
  rintro δ env ⟨claim, ids, c, hart, hproc, hreq⟩
  obtain ⟨record, hfind, hhash⟩ := process_hash hproc
  refine ⟨record, hart ▸ hfind, hobs.trans ?_⟩
  rw [hreq] at hx
  exact hx.symm.trans hhash

/-- the rows of the item are exactly the drafts of the one call that completed it, and stay so -/
structure Exact (cfg : Config) (artifact : Uuid) (s : State) : Prop where
  incomplete : s.db.item.status ≠ .completed → s.db.chunks = []
  complete : s.db.item.status = .completed → ∃ e ∈ s.log, e.2.result = .done s.db.item ∧
    s.db.chunks.map Chunk.toChunkDraft = e.2.request.drafts ∧
    ∀ (δ : Type) (env : Environment δ), ByDefaultProcessor env artifact e.2.request →
      ∃ record, env.findForIngestion artifact = some record ∧ s.db.item.observedFileHash = some record.fileHash
  frozen : s.db.item.status = .completed → ∀ s', Run (step (next cfg)) ok s s' → s'.db = s.db

/-- **Chunk sets.** In every run of interleaved sessions, the chunks of the item are exactly the drafts that its completing call has
passed, and none before, iff none of these drafts has metadata. -/
theorem chunk_set_exact_iff (cfg : Config) (id ingestionRun artifact : Uuid) (t₀ : Time) (s : State)
    (hs : Run (step (next cfg)) ok (init id ingestionRun artifact t₀) s) :
    Exact cfg artifact s ↔ ∀ e ∈ s.log, ∀ it, e.2.result = .done it → it.status = .completed →
      ∀ d ∈ e.2.request.drafts, d.metadata = [] := by
  have h := run_chunkInv hs
  obtain ⟨hincomplete, hcomplete⟩ := chunk_set hs
  constructor
  · intro hexact e he it hit hc
    obtain ⟨hitem, -, -⟩ := h.stored e he it hit hc
    have hcomp : s.db.item.status = .completed := hitem ▸ hc
    obtain ⟨e', he', hit', hrows, -⟩ := hexact.complete hcomp
    -- the log has one reply that ends the item, so the two are the same
    have hone : s.log.countP (·.2.ends) ≤ 1 := by rw [(run_inv hs).ended]; split_ifs <;> omega
    have hends : ∀ x ∈ s.log, ∀ y, x.2.result = .done y → y.status = .completed → x.2.ends = true := by
      intro x _ y hy hyc
      have hterm : y.status.Terminal := .inl hyc
      simp only [Reply.ends, hy]
      exact decide_eq_true hterm
    obtain rfl : e' = e := eq_of_countP_le_one hone he' he (hends e' he' _ hit' hcomp) (hends e he it hit hc)
    have hstored := (h.stored e' he' it hit hc).2.1
    exact stored_eq_self.1 (hstored.symm.trans hrows)
  · intro hmeta
    refine ⟨hincomplete, fun hc => ?_, fun hc => (hcomplete hc).2⟩
    obtain ⟨⟨e, he, hit, hrows, hproc⟩, -⟩ := hcomplete hc
    exact ⟨e, he, hit, hrows.trans (stored_eq_self.2 (hmeta e he _ hit hc)), hproc⟩

/-- a completion with one draft without metadata -/
theorem chunk_set_exact_plain :
    let draft : ChunkDraft := ⟨0, "text", .text, none, [], none, none, none, 1, "hash", []⟩
    let ops : List (RowLock.Op Session) := [.start 1 ⟨.call .claim, 0, 0, .start⟩, .exec 1, .exec 1,
      .start 1 ⟨.call (.replaceChunksAndMarkCompleted 1 [draft] "file" [] (· + 1)), 10, 10, .start⟩,
      .exec 1, .exec 1, .exec 1, .exec 1, .exec 1]
    let s := run (step (next ⟨60, 3⟩)) (init 1 5 6 0) ops
    (s.db.item.status = .completed ∧ s.db.chunks.length = 1) ∧ Exact ⟨60, 3⟩ 6 s := by
  intro draft ops s
  have hops : Admissible (step (next ⟨60, 3⟩)) ok (init 1 5 6 0) ops :=
    ⟨⟨_, _, _, rfl⟩, trivial, trivial, ⟨_, _, _, rfl⟩, trivial, trivial, trivial, trivial, trivial, trivial⟩
  refine ⟨by decide, (chunk_set_exact_iff ⟨60, 3⟩ 1 5 6 0 s (run_of_admissible hops)).2 ?_⟩
  have hmeta : ∀ e ∈ s.log, ∀ d ∈ e.2.request.drafts, d.metadata.length = 0 := by decide
  exact fun e he it _ _ d hd => List.length_eq_zero_iff.1 (hmeta e he d hd)

/-- **Metadata is lost**: the one draft of the completing call has metadata, the stored row has none. -/
theorem chunk_metadata_lost :
    let draft : ChunkDraft := ⟨0, "text", .text, none, [], none, none, none, 1, "hash", [("page", .int 1)]⟩
    let ops : List (RowLock.Op Session) := [.start 1 ⟨.call .claim, 0, 0, .start⟩, .exec 1, .exec 1,
      .start 1 ⟨.call (.replaceChunksAndMarkCompleted 1 [draft] "file" [] (· + 1)), 10, 10, .start⟩,
      .exec 1, .exec 1, .exec 1, .exec 1, .exec 1]
    let s := run (step (next ⟨60, 3⟩)) (init 1 5 6 0) ops
    Run (step (next ⟨60, 3⟩)) ok (init 1 5 6 0) s ∧ s.db.item.status = .completed ∧ ¬ Exact ⟨60, 3⟩ 6 s := by
  intro draft ops s
  have hops : Admissible (step (next ⟨60, 3⟩)) ok (init 1 5 6 0) ops :=
    ⟨⟨_, _, _, rfl⟩, trivial, trivial, ⟨_, _, _, rfl⟩, trivial, trivial, trivial, trivial, trivial, trivial⟩
  refine ⟨run_of_admissible hops, by decide, fun hexact => ?_⟩
  obtain ⟨e, he, -, hrows, -⟩ := hexact.complete (by decide)
  have hstored : s.db.chunks.map (·.toChunkDraft.metadata.length) = [0] := by decide
  have hpassed : ∀ e ∈ s.log, e.2.request.drafts.map (·.metadata.length) ≠ [0] := by decide
  refine hpassed e he ?_
  rw [← hrows, List.map_map]
  exact hstored

end AtlasRag.Ingestion.Fencing
