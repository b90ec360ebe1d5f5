/-
What committed embedding transactions do, under any interleaving.

`Change` lists the three ways in which a commit changes the tables: a run is added, rows that one statement matched are
updated, or a run is completed and the vectors of its item are replaced. Each comes with the locks held and with what the
checks of the transaction have established and still holds at the commit. `Good` is what the constraints of the two
tables say.

Results:
- `Change.good`: a commit keeps the constraints;
- `Change.run`, `Change.newRun`: a locked row, or key, is left alone;
- `Change.vectors`: while a run is in flight, the vectors of its item and model stay as they are;
- `Meanwhile.…`: the same for everything that happens while a transaction holds its locks.
-/
import AtlasRag.Embedding.Transactions

namespace AtlasRag.Embedding

open AtlasRag.Lib AtlasRag.Lib.LeasedJob AtlasRag.Lib.RowLock AtlasRag.Lib.Table AtlasRag.Lib.Transaction
open AtlasRag.Platform AtlasRag.Ingestion

/-! ## The invariant and the guarantee -/

structure Good (db : EmbeddingDb) : Prop where
  chunkIds : (db.chunks.map (·.id)).Nodup
  runIds : (db.runs.map (·.id)).Nodup
  /-- the partial unique index -/
  inFlight : ((db.runs.filter (·.InFlight)).map (·.pair)).Nodup
  runs : ∀ r ∈ db.runs, r.defects = []
  keys : (db.embeddings.map (·.key)).Nodup
  embeddings : ∀ v ∈ db.embeddings, v.defects = []

/-- the rows `ids` are there and locked, the statement matches them, and what it writes is admissible -/
structure Owned (L : Set EmbeddingRow) (db : EmbeddingDb) (ids : List Uuid) (s : RunStmt) : Prop where
  found : ∀ x ∈ ids, ∃ r ∈ db.runs, r.id = x
  rows : ∀ r ∈ db.runs, r.id ∈ ids → L (.run r.id) ∧ s.Matches r.toJob ∧ (r.set s).defects = []

/-- what a completion has checked: its chunks are those of the item, and its vectors are one for each of them -/
structure Completes (c : Completion) (t : Time) (db : EmbeddingDb) : Prop where
  expected : db.listChunkIds c.ingestionItemId = c.expectedChunkIds
  chunks : (c.vectors.map (·.chunkId)).Perm c.expectedChunkIds
  pair : ∀ r ∈ db.runs, r.id = c.runId → r.pair = (c.ingestionItemId, c.embeddingModelId)
  valid : ∀ v ∈ c.rows t, v.defects = []

/-- the run that a request names -/
def Request.runId? : Request → Option Uuid
  | .claim x => some x
  | .heartbeat x _ => some x
  | .scheduleRetry x _ _ _ => some x
  | .markFailed x _ _ _ _ => some x
  | .persistVectorsAndMarkCompleted c => some c.runId
  | _ => none

/-- the UPDATE statement of a request -/
def Request.statement (cfg : Config) (now t : Time) : Request → Option RunStmt
  | .createRun .. => none
  | .claim _ => some (.claim now (now + cfg.leaseDuration) cfg.maxAttempts t)
  | .heartbeat _ a => some (.heartbeat a (now + cfg.leaseDuration) t)
  | .scheduleRetry _ a code message =>
    some (if cfg.maxAttempts ≤ a then .fail a now MAX_ATTEMPTS_EXCEEDED message none t
      else .release a (some code) message t)
  | .markFailed _ a code message metadata => some (.fail a now code message metadata t)
  | .persistVectorsAndMarkCompleted c => some (.complete c.attemptNumber now c.executionMetadata t)
  | .reapExpiredRuns => some (.failExhausted now cfg.maxAttempts MAX_ATTEMPTS_EXCEEDED t)

def Request.completion? : Request → Option Completion
  | .persistVectorsAndMarkCompleted c => some c
  | _ => none

/-- what the commit of a request does -/
inductive Change (cfg : Config) : Reply → Set EmbeddingRow → EmbeddingDb → EmbeddingDb → Prop where
  | created {x item model : Uuid} {configuration : JsonObject} {by' : Option Uuid} {now t : Time}
      {L : Set EmbeddingRow} {db : EmbeddingDb}
      (hv : newRunViolations db (newRun cfg t x item model configuration by') = [])
      (hid : L (.run x)) (hpair : L (.inFlight item model)) :
      Change cfg ⟨.createRun x item model configuration by', now, t, .created x⟩ L db
        (db.addRun (newRun cfg t x item model configuration by'))
  | updated {q : Request} {now t : Time} {o : Outcome} {L : Set EmbeddingRow} {db : EmbeddingDb} {ids : List Uuid}
      {s : RunStmt} (hs : q.statement cfg now t = some s) (hq : q.completion? = none) (hids : ∀ x ∈ q.runId?, ids = [x])
      (howned : Owned L db ids s) : Change cfg ⟨q, now, t, o⟩ L db (db.updateRuns ids s)
  | completed {c : Completion} {now t : Time} {L : Set EmbeddingRow} {db : EmbeddingDb}
      (howned : Owned L db [c.runId] (.complete c.attemptNumber now c.executionMetadata t)) (hc : Completes c t db) :
      Change cfg ⟨.persistVectorsAndMarkCompleted c, now, t, .returned true⟩ L db
        ((db.replaceVectors (db.vectors c.ingestionItemId c.embeddingModelId) (c.rows t)).updateRuns [c.runId]
          (.complete c.attemptNumber now c.executionMetadata t))

/-- … on clock readings that meet `clock` -/
def Guarantee (cfg : Config) (clock : Time → Time → Prop) (reply : Reply) (L : Set EmbeddingRow) (db db' : EmbeddingDb) :
    Prop := clock reply.now reply.t ∧ Change cfg reply L db db'

/-- interference by other transactions, while the rows of `L` are locked -/
abbrev Meanwhile (cfg : Config) (clock : Time → Time → Prop) (L : Set EmbeddingRow) : EmbeddingDb → EmbeddingDb → Prop :=
  Interference Good (Guarantee cfg clock) L

variable {cfg : Config} {clock : Time → Time → Prop} {reply : Reply} {L M : Set EmbeddingRow} {db db' : EmbeddingDb}

/-! ## Runs -/

/-- a run of that identifier and pair is there -/
def Belongs (db : EmbeddingDb) (x : Uuid) (p : Uuid × Uuid) : Prop := ∃ r ∈ db.runs, r.id = x ∧ r.pair = p

/-- the run is in flight -/
def Open (db : EmbeddingDb) (x : Uuid) : Prop := ∃ r ∈ db.runs, r.id = x ∧ r.InFlight

theorem Good.run_eq (h : Good db) {r r' : EmbeddingRun} (hr : r ∈ db.runs) (hr' : r' ∈ db.runs) (hid : r.id = r'.id) :
    r = r' := List.inj_on_of_nodup_map h.runIds hr hr' hid

/-- By the unique index at most one run of a pair is in flight. -/
theorem Good.inFlight_eq (h : Good db) {r r' : EmbeddingRun} (hr : r ∈ db.runs) (hr' : r' ∈ db.runs)
    (hp : r.pair = r'.pair) (hf : r.InFlight) (hf' : r'.InFlight) : r = r' := by
  have hmem : r ∈ db.runs.filter (·.InFlight) := by simp [hr, hf]
  have hmem' : r' ∈ db.runs.filter (·.InFlight) := by simp [hr', hf']
  exact List.inj_on_of_nodup_map h.inFlight hmem hmem' hp

theorem Good.findInFlightRuns_le_one (h : Good db) (item model : Uuid) : (db.findInFlightRuns item model).length ≤ 1 := by
  have hone := countP_key_le_one (p := fun r : EmbeddingRun => r.ingestionItemId = item ∧ r.embeddingModelId = model)
    (k := (item, model)) h.inFlight fun r _ hr => Prod.ext hr.1 hr.2
  rw [List.countP_filter, List.countP_eq_length_filter] at hone
  refine le_trans (le_of_eq ?_) hone
  simp [EmbeddingDb.findInFlightRuns, Bool.and_assoc]

/-- a statement matches runs in flight only -/
theorem inFlight_of_matches {s : RunStmt} {r : EmbeddingRun} (h : s.Matches r.toJob) : r.InFlight := by
  rw [EmbeddingRun.inFlight_iff]
  intro ht
  have hnone := exec_terminal (s := s) ht
  simp [exec, h] at hnone

/-- an UPDATE takes no run into flight -/
theorem filter_inFlight_updateRuns {ids : List Uuid} {s : RunStmt} (howned : Owned L db ids s) :
    (((db.updateRuns ids s).runs.filter (·.InFlight)).map (·.pair)).Sublist
      ((db.runs.filter (·.InFlight)).map (·.pair)) := by
  have hrows := howned.rows
  simp only [EmbeddingDb.updateRuns]
  generalize db.runs = runs at hrows
  induction runs with
  | nil => simp [mapWhere]
  | cons r runs ih =>
    have hrest := ih fun x hx => hrows x (List.mem_cons_of_mem _ hx)
    rw [mapWhere, List.map_cons, ← mapWhere]
    by_cases hid : r.id ∈ ids
    · have hin : r.InFlight := inFlight_of_matches (hrows r List.mem_cons_self hid).2.1
      rw [if_pos hid, List.filter_cons_of_pos (a := r) (by simp [hin]), List.filter_cons]
      split_ifs
      · exact hrest.cons_cons _
      · exact hrest.cons _
    · rw [if_neg hid, List.filter_cons, List.filter_cons]
      split_ifs
      · exact hrest.cons_cons _
      · exact hrest

/-! ## What every commit keeps -/

structure Static (db db' : EmbeddingDb) : Prop where
  items : db'.items = db.items
  chunks : db'.chunks = db.chunks
  models : db'.models = db.models
  principals : db'.principals = db.principals

theorem Static.trans {db'' : EmbeddingDb} (h : Static db db') (h' : Static db' db'') : Static db db'' :=
  ⟨h'.items.trans h.items, h'.chunks.trans h.chunks, h'.models.trans h.models, h'.principals.trans h.principals⟩

theorem Static.listChunkIds (h : Static db db') (item : Uuid) : db'.listChunkIds item = db.listChunkIds item := by
  simp [EmbeddingDb.listChunkIds, h.chunks]

theorem Change.static (h : Change cfg reply L db db') : Static db db' := by
  cases h <;> exact ⟨rfl, rfl, rfl, rfl⟩

/-- what a commit does to the table of runs: one more row, or an update of rows that it holds -/
theorem Change.runs_cases (h : Change cfg reply M db db') :
    (∃ r, db'.runs = db.runs ++ [r] ∧ r.status = .pending ∧ newRunViolations db r = [] ∧ M (.run r.id) ∧
      M (.inFlight r.ingestionItemId r.embeddingModelId)) ∨
    ∃ ids s, Owned M db ids s ∧ db'.runs = (db.updateRuns ids s).runs := by
  cases h with
  | created hv hid hpair => exact .inl ⟨_, rfl, rfl, hv, hid, hpair⟩
  | updated _ _ _ howned => exact .inr ⟨_, _, howned, rfl⟩
  | completed howned _ => exact .inr ⟨_, _, howned, rfl⟩

/-- what a commit leaves of a run: its row, or the row that a matching statement wrote -/
theorem Change.mem_runs (h : Change cfg reply M db db') {r : EmbeddingRun} (hr : r ∈ db.runs) :
    r ∈ db'.runs ∨ ∃ s : RunStmt, M (.run r.id) ∧ s.Matches r.toJob ∧ r.set s ∈ db'.runs := by
  rcases h.runs_cases with ⟨x, hx, -⟩ | ⟨ids, s, howned, hx⟩
  · left
    simp [hx, hr]
  · rw [hx]
    by_cases hid : r.id ∈ ids
    · obtain ⟨hlock, hm, -⟩ := howned.rows r hr hid
      exact .inr ⟨s, hlock, hm, EmbeddingDb.mem_updateRuns.2 (.inl ⟨r, hr, hid, rfl⟩)⟩
    · exact .inl (EmbeddingDb.mem_updateRuns.2 (.inr ⟨hr, hid⟩))

/-- a locked row is left alone -/
theorem Change.locked (h : Change cfg reply M db db') {r : EmbeddingRun} (hr : r ∈ db.runs) (hM : ¬ M (.run r.id)) :
    r ∈ db'.runs := by
  rcases h.mem_runs hr with hmem | ⟨s, hlock, -⟩
  · exact hmem
  · exact absurd hlock hM

/-- a run stays, with its pair -/
theorem Change.belongs (h : Change cfg reply M db db') {x : Uuid} {p : Uuid × Uuid} (hx : Belongs db x p) :
    Belongs db' x p := by
  obtain ⟨r, hr, rfl, rfl⟩ := hx
  rcases h.mem_runs hr with hmem | ⟨s, -, -, hmem⟩
  · exact ⟨r, hmem, rfl, rfl⟩
  · exact ⟨_, hmem, rfl, rfl⟩

/-- where every run comes from: a row that was there, or the new one -/
theorem Change.mem_runs' (h : Change cfg reply M db db') {r' : EmbeddingRun} (hr' : r' ∈ db'.runs) :
    r' ∈ db.runs ∨ (∃ r ∈ db.runs, ∃ s : RunStmt, s.Matches r.toJob ∧ r' = r.set s ∧ r'.defects = [] ∧ M (.run r.id)) ∨
      (newRunViolations db r' = [] ∧ r'.status = .pending ∧ M (.run r'.id) ∧
        M (.inFlight r'.ingestionItemId r'.embeddingModelId)) := by
  rcases h.runs_cases with ⟨x, hx, hpend, hv, hid, hpair⟩ | ⟨ids, s, howned, hx⟩
  · rw [hx, List.mem_append, List.mem_singleton] at hr'
    rcases hr' with hr' | rfl
    · exact .inl hr'
    · exact .inr (.inr ⟨hv, hpend, hid, hpair⟩)
  · rw [hx, EmbeddingDb.mem_updateRuns] at hr'
    rcases hr' with ⟨r, hr, hid, rfl⟩ | ⟨hr, -⟩
    · obtain ⟨hlock, hm, hdef⟩ := howned.rows r hr hid
      exact .inr (.inl ⟨r, hr, s, hm, rfl, hdef, hlock⟩)
    · exact .inl hr

/-- a run that is there, and in flight after a commit, was in flight before -/
theorem Change.open' (h : Change cfg reply M db db') {x : Uuid} {p : Uuid × Uuid} (hx : Belongs db x p)
    (ho : Open db' x) : Open db x := by
  obtain ⟨r', hr', rfl, hf⟩ := ho
  rcases h.mem_runs' hr' with hr | ⟨r, hr, s, hm, rfl, -⟩ | ⟨hv, -⟩
  · exact ⟨r', hr, rfl, hf⟩
  · exact ⟨r, hr, rfl, inFlight_of_matches hm⟩
  · -- the new run has an identifier of its own
    obtain ⟨r, hr, hid, -⟩ := hx
    simp only [newRunViolations, List.append_eq_nil_iff, uniqueIndex_eq_nil] at hv
    exact absurd (hid ▸ List.mem_map_of_mem hr) hv.1.1.1.1.2

/-- a locked key of the partial unique index is not taken -/
theorem Change.free (h : Change cfg reply M db db') {p : Uuid × Uuid} (hM : ¬ M (.inFlight p.1 p.2))
    (hp : p ∉ (db.runs.filter (·.InFlight)).map (·.pair)) : p ∉ (db'.runs.filter (·.InFlight)).map (·.pair) := by
  rcases h.runs_cases with ⟨r, hr, -, -, -, hlock⟩ | ⟨ids, s, howned, hr⟩
  · rw [hr, List.filter_append, List.map_append, List.mem_append]
    rintro (hmem | hmem)
    · exact hp hmem
    · simp only [List.mem_map, List.mem_filter, List.mem_singleton] at hmem
      obtain ⟨_, ⟨rfl, -⟩, rfl⟩ := hmem
      exact hM hlock
  · rw [hr]
    exact fun hmem => hp ((filter_inFlight_updateRuns howned).subset hmem)

/-- a locked identifier is not taken -/
theorem Change.newId (h : Change cfg reply M db db') {x : Uuid} (hM : ¬ M (.run x)) (hx : x ∉ db.runs.map (·.id)) :
    x ∉ db'.runs.map (·.id) := by
  rcases h.runs_cases with ⟨r, hr, -, -, hlock, -⟩ | ⟨ids, s, -, hr⟩
  · rw [hr, List.map_append, List.mem_append]
    rintro (hmem | hmem)
    · exact hx hmem
    · simp only [List.map_cons, List.map_nil, List.mem_singleton] at hmem
      exact hM (hmem ▸ hlock)
  · rw [hr, EmbeddingDb.updateRuns_ids]
    exact hx

/-! ## Vectors -/

/-- a vector of an item's chunk is not one of another item's -/
theorem Good.item_eq (h : Good db) {x item item' : Uuid} (hx : x ∈ db.listChunkIds item)
    (hx' : x ∈ db.listChunkIds item') : item = item' := by
  obtain ⟨c, hc, rfl, hid⟩ := EmbeddingDb.mem_listChunkIds.1 hx
  obtain ⟨c', hc', rfl, hid'⟩ := EmbeddingDb.mem_listChunkIds.1 hx'
  rw [List.inj_on_of_nodup_map h.chunkIds hc hc' (hid.trans hid'.symm)]

theorem Completion.mem_rows {c : Completion} {t : Time} {v : ChunkEmbedding} (h : v ∈ c.rows t) :
    v.embeddingModelId = c.embeddingModelId ∧ v.embeddingRunId = c.runId ∧ v.dimension = c.dimension ∧
      v.chunkId ∈ c.vectors.map (·.chunkId) := by
  obtain ⟨w, hw, rfl⟩ := List.mem_map.1 h
  exact ⟨rfl, rfl, rfl, List.mem_map_of_mem hw⟩

/-- the vectors of the pair after the pair's vectors have been replaced by vectors of expected chunks -/
theorem vectors_replaceVectors {c : Completion} {t : Time} (hexp : db.listChunkIds c.ingestionItemId = c.expectedChunkIds)
    (hsub : ∀ v ∈ c.vectors, v.chunkId ∈ c.expectedChunkIds) :
    (db.replaceVectors (db.vectors c.ingestionItemId c.embeddingModelId) (c.rows t)).vectors c.ingestionItemId
      c.embeddingModelId = c.rows t := by
  have hold : (db.embeddings.filter (· ∉ db.vectors c.ingestionItemId c.embeddingModelId)).filter
      (fun v => v.embeddingModelId = c.embeddingModelId ∧ v.chunkId ∈ db.listChunkIds c.ingestionItemId) = [] := by
    rw [List.filter_eq_nil_iff]
    intro v hv hmine
    rw [List.mem_filter] at hv
    have hin : v ∈ db.vectors c.ingestionItemId c.embeddingModelId := List.mem_filter.2 ⟨hv.1, hmine⟩
    exact of_decide_eq_true hv.2 hin
  have hnew : (c.rows t).filter
      (fun v => v.embeddingModelId = c.embeddingModelId ∧ v.chunkId ∈ db.listChunkIds c.ingestionItemId) = c.rows t := by
    rw [List.filter_eq_self]
    intro v hv
    obtain ⟨w, hw, rfl⟩ := List.mem_map.1 hv
    simp [hexp, hsub w hw]
  calc (db.replaceVectors _ (c.rows t)).vectors c.ingestionItemId c.embeddingModelId
      = ((db.embeddings.filter (· ∉ db.vectors c.ingestionItemId c.embeddingModelId)) ++ c.rows t).filter
          (fun v => v.embeddingModelId = c.embeddingModelId ∧ v.chunkId ∈ db.listChunkIds c.ingestionItemId) := rfl
    _ = c.rows t := by rw [List.filter_append, hold, hnew, List.nil_append]

/-- **A completion leaves its own vectors** for its item and model, … -/
theorem Completes.vectors {c : Completion} {t : Time} (hc : Completes c t db) :
    (db.replaceVectors (db.vectors c.ingestionItemId c.embeddingModelId) (c.rows t)).vectors c.ingestionItemId
      c.embeddingModelId = c.rows t :=
  vectors_replaceVectors hc.expected fun _ hv => hc.chunks.mem_iff.1 (List.mem_map_of_mem hv)

/-- … and leaves those of every other pair alone -/
theorem Completes.vectors_ne (hG : Good db) {c : Completion} {t : Time} (hc : Completes c t db) {item model : Uuid}
    (hne : (item, model) ≠ (c.ingestionItemId, c.embeddingModelId)) :
    (db.replaceVectors (db.vectors c.ingestionItemId c.embeddingModelId) (c.rows t)).vectors item model =
      db.vectors item model := by
  -- a vector of the other pair is neither deleted nor inserted
  have hother : ∀ v : ChunkEmbedding, v.embeddingModelId = model ∧ v.chunkId ∈ db.listChunkIds item →
      ¬ (v.embeddingModelId = c.embeddingModelId ∧ v.chunkId ∈ db.listChunkIds c.ingestionItemId) := by
    intro v ⟨hmodel, hchunk⟩ ⟨hmodel', hchunk'⟩
    exact hne (Prod.ext (hG.item_eq hchunk hchunk') (hmodel.symm.trans hmodel'))
  have hold : (db.embeddings.filter (· ∉ db.vectors c.ingestionItemId c.embeddingModelId)).filter
      (fun v => v.embeddingModelId = model ∧ v.chunkId ∈ db.listChunkIds item) = db.vectors item model := by
    rw [List.filter_filter]
    refine List.filter_congr fun v _ => ?_
    by_cases hv : v.embeddingModelId = model ∧ v.chunkId ∈ db.listChunkIds item
    · have hkept : v ∉ db.vectors c.ingestionItemId c.embeddingModelId := fun hmem =>
        hother v hv (of_decide_eq_true (List.mem_filter.1 hmem).2)
      simp [hv, hkept]
    · simp [hv]
  have hnew : (c.rows t).filter (fun v => v.embeddingModelId = model ∧ v.chunkId ∈ db.listChunkIds item) = [] := by
    rw [List.filter_eq_nil_iff]
    intro v hv hmine
    obtain ⟨hmodel, -, -, hchunk⟩ := Completion.mem_rows hv
    exact hother v (of_decide_eq_true hmine) ⟨hmodel, hc.expected ▸ hc.chunks.mem_iff.1 hchunk⟩
  calc (db.replaceVectors _ (c.rows t)).vectors item model
      = ((db.embeddings.filter (· ∉ db.vectors c.ingestionItemId c.embeddingModelId)) ++ c.rows t).filter
          (fun v => v.embeddingModelId = model ∧ v.chunkId ∈ db.listChunkIds item) := rfl
    _ = db.vectors item model := by rw [List.filter_append, hold, hnew, List.append_nil]

/-- **The vectors of a run in flight**: a commit that leaves the run in flight leaves the vectors of its pair alone. -/
theorem Change.vectors (h : Change cfg reply M db db') (hG : Good db) {x item model : Uuid}
    (hx : Belongs db x (item, model)) (ho : Open db' x) : db'.vectors item model = db.vectors item model := by
  obtain ⟨r, hr, hid, hf⟩ := h.open' hx ho
  cases h with
  | created => rfl
  | updated => rfl
  | @completed c now t _ _ howned hc =>
    obtain ⟨rc, hrc, hrcid⟩ := howned.found c.runId (by simp)
    have hm := (howned.rows rc hrc (by simp [hrcid])).2.1
    have hpair : rc.pair = (c.ingestionItemId, c.embeddingModelId) := hc.pair rc hrc hrcid
    have hrpair : r.pair = (item, model) := by
      obtain ⟨r₀, hr₀, hid₀, hp₀⟩ := hx
      rw [hG.run_eq hr hr₀ (hid.trans hid₀.symm), hp₀]
    refine hc.vectors_ne hG fun hsame => ?_
    -- two runs of one pair in flight are the same, but this one is completed now
    obtain rfl : r = rc := hG.inFlight_eq hr hrc (by rw [hrpair, hpair, hsame]) hf (inFlight_of_matches hm)
    obtain ⟨r', hr', hid', hf'⟩ := ho
    rcases EmbeddingDb.mem_updateRuns.1 hr' with ⟨r₀, -, -, rfl⟩ | ⟨-, hnot⟩
    · simp [EmbeddingRun.InFlight, EmbeddingRun.set, Stmt.set] at hf'
    · simp [hid', ← hid, hrcid] at hnot

/-! ## The constraints -/

theorem Owned.defects {ids : List Uuid} {s : RunStmt} (h : Owned L db ids s) (hG : Good db) :
    ∀ r ∈ (db.updateRuns ids s).runs, r.defects = [] := by
  intro r hr
  rcases EmbeddingDb.mem_updateRuns.1 hr with ⟨r₀, hr₀, hid, rfl⟩ | ⟨hr, -⟩
  · exact (h.rows r₀ hr₀ hid).2.2
  · exact hG.runs r hr

theorem good_updateRuns {ids : List Uuid} {s : RunStmt} (h : Owned L db ids s) (hG : Good db) :
    Good (db.updateRuns ids s) where
  chunkIds := hG.chunkIds
  runIds := by rw [EmbeddingDb.updateRuns_ids]; exact hG.runIds
  inFlight := (filter_inFlight_updateRuns h).nodup hG.inFlight
  runs := h.defects hG
  keys := hG.keys
  embeddings := hG.embeddings

theorem good_addRun {r : EmbeddingRun} (hv : newRunViolations db r = []) (hp : r.InFlight) (hG : Good db) :
    Good (db.addRun r) := by
  simp only [newRunViolations, List.append_eq_nil_iff, uniqueIndex_eq_nil] at hv
  obtain ⟨⟨⟨⟨⟨hdef, hid⟩, hpair⟩, -⟩, -⟩, -⟩ := hv
  refine { hG with runIds := ?_, inFlight := ?_, runs := ?_ }
  · have hids : (db.addRun r).runs.map (·.id) = (db.runs.map (·.id)).concat r.id := by simp [EmbeddingDb.addRun]
    rw [hids]
    exact hG.runIds.concat hid
  · have hpairs : ((db.addRun r).runs.filter (·.InFlight)).map (·.pair) =
        ((db.runs.filter (·.InFlight)).map (·.pair)).concat r.pair := by simp [EmbeddingDb.addRun, hp]
    rw [hpairs]
    exact hG.inFlight.concat hpair
  · intro x hx
    simp only [EmbeddingDb.addRun, List.mem_append, List.mem_singleton] at hx
    rcases hx with hx | rfl
    · exact hG.runs x hx
    · exact hdef

theorem good_replaceVectors {c : Completion} {t : Time} (hc : Completes c t db) (hG : Good db) :
    Good (db.replaceVectors (db.vectors c.ingestionItemId c.embeddingModelId) (c.rows t)) := by
  refine { hG with keys := ?_, embeddings := ?_ }
  · have hold : ((db.embeddings.filter (· ∉ db.vectors c.ingestionItemId c.embeddingModelId)).map (·.key)).Nodup :=
      (List.filter_sublist.map _).nodup hG.keys
    have hnew : ((c.rows t).map (·.key)).Nodup := by
      have hids : (c.vectors.map (·.chunkId)).Nodup :=
        hc.chunks.nodup_iff.2 (hc.expected ▸ EmbeddingDb.listChunkIds_nodup hG.chunkIds _)
      have hkeys : (c.rows t).map (·.key) = (c.vectors.map (·.chunkId)).map (·, c.embeddingModelId) := by
        simp [Completion.rows, ChunkEmbedding.key]
      rw [hkeys]
      exact hids.map fun _ _ h => (Prod.mk.inj h).1
    rw [EmbeddingDb.replaceVectors, List.map_append]
    refine List.nodup_append.2 ⟨hold, hnew, ?_⟩
    rintro _ ha _ hb rfl
    obtain ⟨v, hv, hkey⟩ := List.mem_map.1 ha
    obtain ⟨w, hw, hkey'⟩ := List.mem_map.1 hb
    obtain ⟨hmodel, -, -, hchunk⟩ := Completion.mem_rows hw
    obtain ⟨hchunk', hmodel'⟩ := Prod.mk.inj (hkey.trans hkey'.symm)
    rw [List.mem_filter] at hv
    refine of_decide_eq_true hv.2 (List.mem_filter.2 ⟨hv.1, ?_⟩)
    simp [hmodel', hmodel, hchunk', hc.expected, hc.chunks.mem_iff.1 hchunk]
  · intro v hv
    rcases List.mem_append.1 hv with hv | hv
    · exact hG.embeddings v (List.mem_filter.1 hv).1
    · exact hc.valid v hv

/-- A commit keeps the constraints. -/
theorem Change.good (h : Change cfg reply L db db') (hG : Good db) : Good db' := by
  cases h with
  | created hv => exact good_addRun hv (.inl rfl) hG
  | updated _ _ _ howned => exact good_updateRuns howned hG
  | @completed c now t _ _ howned hc =>
    have hG' := good_replaceVectors hc hG
    exact good_updateRuns ⟨howned.found, howned.rows⟩ hG'

/-! ## What lasts while locks are held -/

theorem Meanwhile.static (h : Meanwhile cfg clock L db db') : Static db db' :=
  Interference.preserves h (fun _ _ _ _ _ _ hc hs => hs.trans hc.2.static) ⟨rfl, rfl, rfl, rfl⟩

theorem Meanwhile.belongs (h : Meanwhile cfg clock L db db') {x : Uuid} {p : Uuid × Uuid} (hx : Belongs db x p) :
    Belongs db' x p :=
  Interference.preserves (P := fun d => Belongs d x p) h (fun _ _ _ _ _ _ hc hb => hc.2.belongs hb) hx

theorem Meanwhile.locked (h : Meanwhile cfg clock L db db') {r : EmbeddingRun} (hr : r ∈ db.runs) (hL : L (.run r.id)) :
    r ∈ db'.runs := by
  refine Interference.preserves (P := fun d => r ∈ d.runs) h (fun a b reply M _ hdisj hc hmem => ?_) hr
  exact hc.2.locked hmem fun hM => Set.disjoint_left.1 hdisj hM hL

theorem Meanwhile.free (h : Meanwhile cfg clock L db db') {p : Uuid × Uuid} (hL : L (.inFlight p.1 p.2))
    (hp : p ∉ (db.runs.filter (·.InFlight)).map (·.pair)) : p ∉ (db'.runs.filter (·.InFlight)).map (·.pair) := by
  refine Interference.preserves (P := fun d => p ∉ (d.runs.filter (·.InFlight)).map (·.pair)) h
    (fun a b reply M _ hdisj hc hfree => ?_) hp
  exact hc.2.free (fun hM => Set.disjoint_left.1 hdisj hM hL) hfree

theorem Meanwhile.newId (h : Meanwhile cfg clock L db db') {x : Uuid} (hL : L (.run x)) (hx : x ∉ db.runs.map (·.id)) :
    x ∉ db'.runs.map (·.id) := by
  refine Interference.preserves (P := fun d => x ∉ d.runs.map (·.id)) h (fun a b reply M _ hdisj hc hnew => ?_) hx
  exact hc.2.newId (fun hM => Set.disjoint_left.1 hdisj hM hL) hnew

/-- While a run is in flight, nobody else changes the vectors of its pair. -/
theorem Meanwhile.vectors (h : Meanwhile cfg clock L db db') {x item model : Uuid} (hx : Belongs db x (item, model))
    (ho : Open db' x) : Open db x ∧ db'.vectors item model = db.vectors item model := by
  have hboth : Belongs db' x (item, model) ∧
      (Open db' x → Open db x ∧ db'.vectors item model = db.vectors item model) := by
    refine Interference.preserves (P := fun d => Belongs d x (item, model) ∧
      (Open d x → Open db x ∧ d.vectors item model = db.vectors item model)) h ?_ ⟨hx, fun ho => ⟨ho, rfl⟩⟩
    intro a b reply M hG _ hc ⟨hb, hopen⟩
    refine ⟨hc.2.belongs hb, fun ho => ?_⟩
    obtain ⟨ho', hv⟩ := hopen (hc.2.open' hb ho)
    exact ⟨ho', (hc.2.vectors hG hb ho).trans hv⟩
  exact hboth.2 ho

theorem Owned.meanwhile {ids : List Uuid} {s : RunStmt} (h : Owned L db ids s) (hd : Meanwhile cfg clock L db db')
    (hG : Good db') : Owned L db' ids s where
  found x hx := by
    obtain ⟨r, hr, rfl⟩ := h.found x hx
    exact ⟨r, hd.locked hr (h.rows r hr hx).1, rfl⟩
  rows r hr hid := by
    obtain ⟨r₀, hr₀, hid₀⟩ := h.found _ hid
    have hrows := h.rows r₀ hr₀ (hid₀ ▸ hid)
    obtain rfl : r₀ = r := hG.run_eq (hd.locked hr₀ hrows.1) hr hid₀
    exact hrows

end AtlasRag.Embedding
