/-
Every embedding transaction is safe: whatever other transactions commit between its statements, its own commit is the
`Change` of its request.

The one with an argument is the completion. It deletes, inserts and counts before it knows that it still owns the run; but
if it does own it when it commits, the run has been in flight all the time, so nobody else has touched the vectors of the
pair, and what it deleted and counted was all there was.

Results:
- `safe_persist`: the completion;
- `txn_safe`: every legal request is safe;
- `run_good`, `commit_change`: in every run the constraints hold and every commit is a `Change`.
-/
import AtlasRag.Embedding.Changes

namespace AtlasRag.Embedding

open AtlasRag.Lib AtlasRag.Lib.LeasedJob AtlasRag.Lib.RowLock AtlasRag.Lib.Table AtlasRag.Lib.Transaction
open AtlasRag.Platform AtlasRag.Ingestion

variable {cfg : Config} {clock : Time → Time → Prop} {reply : Outcome → Reply} {L L' : Set EmbeddingRow}
  {db db' : EmbeddingDb} {q : Request} {now t : Time}

abbrev SafeTx (cfg : Config) (clock : Time → Time → Prop) (p : Tx) (L : Set EmbeddingRow) (db : EmbeddingDb) : Prop :=
  Safe Good (Guarantee cfg clock) p L db

abbrev LaterTx (cfg : Config) (clock : Time → Time → Prop) (L : Set EmbeddingRow) (db : EmbeddingDb)
    (L' : Set EmbeddingRow) (db' : EmbeddingDb) : Prop := Later Good (Guarantee cfg clock) L db L' db'

/-! ## Statements -/

/-- a commit is safe if it is the change of its request -/
theorem safe_commit {w : EmbeddingDb → EmbeddingDb} {r : Reply} (hclock : clock r.now r.t)
    (h : ∀ db', Meanwhile cfg clock L db db' → Good db' → Change cfg r L db' (w db')) :
    SafeTx cfg clock (.commit w r) L db := by
  refine safe_of_commit fun db' hd hG => ?_
  have hc := h db' hd hG
  exact ⟨hc.good hG, hclock, hc⟩

theorem safe_raise (e : EmbeddingError) : SafeTx cfg clock (raise reply e) L db := safe_rollback _

/-- **An UPDATE** goes on with rows that the transaction holds from then on. -/
theorem safe_update {ids : List Uuid} {s : RunStmt} {k : List EmbeddingRun → Tx}
    (hk : ∀ L' db', LaterTx cfg clock L db L' db' → Owned L' db' ((db'.matching ids s).map (·.id)) s →
      SafeTx cfg clock (k (db'.matching ids s)) L' db') : SafeTx cfg clock (update reply ids s k) L db := by
  refine safe_stmt fun L' db' hd hrows => ?_
  split
  · exact safe_raise _
  · next rows n hu =>
    obtain ⟨hdef, -, -⟩ := updateWhere_ok.1 hu
    apply hk L' db' hd
    constructor
    · intro x hx
      obtain ⟨r, hr, rfl⟩ := List.mem_map.1 hx
      exact ⟨r, (EmbeddingDb.mem_matching.1 hr).1, rfl⟩
    · intro r hr hid
      obtain ⟨r₀, hr₀, hid₀⟩ := List.mem_map.1 hid
      obtain ⟨hmem, hin, hm⟩ := EmbeddingDb.mem_matching.1 hr₀
      obtain rfl : r₀ = r := hd.good.run_eq hmem hr hid₀
      exact ⟨hrows _ (List.mem_map.2 ⟨r₀, hr₀, rfl⟩), hm, hdef r₀ hmem ⟨hin, hm⟩⟩

theorem safe_commitUpdate {rows : List EmbeddingRun} {s : RunStmt} {o : Outcome} (hclock : clock now t)
    (hreply : reply o = ⟨q, now, t, o⟩) (hs : q.statement cfg now t = some s) (hq : q.completion? = none)
    (hids : ∀ x ∈ q.runId?, rows.map (·.id) = [x]) (howned : Owned L db (rows.map (·.id)) s) :
    SafeTx cfg clock (commitUpdate reply rows s o) L db := by
  unfold commitUpdate
  rw [hreply]
  exact safe_commit hclock fun db' hd hG => .updated hs hq hids (howned.meanwhile hd hG)

/-- one matched row of a statement on one run is the row of that run -/
theorem ids_of_matching {x : Uuid} {s : RunStmt} (h : (db.matching [x] s).length = 1) :
    (db.matching [x] s).map (·.id) = [x] := by
  obtain ⟨r, hr⟩ := List.length_eq_one_iff.1 h
  have hmem : r ∈ db.matching [x] s := by simp [hr]
  have hid : r.id = x := by simpa using (EmbeddingDb.mem_matching.1 hmem).2.1
  simp [hr, hid]

theorem safe_updateOne {x : Uuid} {s : RunStmt} (hclock : clock now t) (hreply : ∀ o, reply o = ⟨q, now, t, o⟩)
    (hs : q.statement cfg now t = some s) (hq : q.completion? = none) (hx : q.runId? = some x) :
    SafeTx cfg clock (updateOne reply x s) L db := by
  refine safe_update fun L' db' _ howned => ?_
  split_ifs with hn
  · refine safe_commitUpdate hclock (hreply _) hs hq (fun y hy => ?_) howned
    rw [ids_of_matching hn, Option.some.inj (hx.symm.trans hy)]
  · exact safe_rollback _

/-! ## Requests -/

theorem safe_addRun {x item model : Uuid} {configuration : JsonObject} {by' : Option Uuid} (hclock : clock now t)
    (hreply : ∀ o, reply o = ⟨.createRun x item model configuration by', now, t, o⟩) :
    SafeTx cfg clock (addRun reply (newRun cfg t x item model configuration by')) L db := by
  refine safe_stmt fun L₁ db₁ _ hrows => ?_
  have hid : L₁ (.run x) := hrows _ (by simp [newRun])
  have hpair : L₁ (.inFlight item model) := hrows _ (by simp [newRun])
  split
  · next hv =>
    rw [hreply]
    refine safe_commit hclock fun db₂ hd hG => .created ?_ hid hpair
    -- the keys are locked, so they are still free
    have hst := Meanwhile.static hd
    simp only [newRunViolations, List.append_eq_nil_iff, uniqueIndex_eq_nil, reference_eq_nil] at hv ⊢
    obtain ⟨⟨⟨⟨⟨hdef, hfresh⟩, hfree⟩, hitem⟩, hmodel⟩, hby⟩ := hv
    refine ⟨⟨⟨⟨⟨hdef, Meanwhile.newId hd hid hfresh⟩, Meanwhile.free hd hpair hfree⟩, ?_⟩, ?_⟩, ?_⟩
    · rw [hst.items]; exact hitem
    · rw [hst.models]; exact hmodel
    · rw [hst.principals]; exact hby
  · exact safe_raise _

theorem safe_createRun {x item model : Uuid} {configuration : JsonObject} {by' : Option Uuid} (hclock : clock now t)
    (hreply : ∀ o, reply o = ⟨.createRun x item model configuration by', now, t, o⟩) :
    SafeTx cfg clock (createRun cfg reply t x item model configuration by') L db := by
  refine safe_read fun L₁ db₁ _ => ?_
  split_ifs
  · exact safe_raise _
  · refine safe_read fun L₂ db₂ _ => ?_
    generalize db₂.findInFlightRuns item model = rows
    match rows with
    | [] =>
      have hadd : SafeTx cfg clock (addRun reply (newRun cfg t x item model configuration by')) L₂ db₂ :=
        (safe_addRun hclock hreply :)
      exact hadd
    | [_] => exact safe_raise _
    | _ :: _ :: _ => exact safe_raise _

theorem safe_claim {x : Uuid} (hclock : clock now t) (hreply : ∀ o, reply o = ⟨.claim x, now, t, o⟩) :
    SafeTx cfg clock (claim cfg reply now t x) L db := by
  unfold claim
  refine safe_update fun L' db' _ howned => ?_
  have hone : (db'.matching [x] (.claim now (now + cfg.leaseDuration) cfg.maxAttempts t)).length = 1 →
      (db'.matching [x] (.claim now (now + cfg.leaseDuration) cfg.maxAttempts t)).map (·.id) = [x] := ids_of_matching
  generalize db'.matching [x] _ = rows at howned hone
  match rows with
  | [] => exact safe_rollback _
  | [r] =>
    refine safe_commitUpdate hclock (hreply _) rfl rfl (fun y hy => ?_) howned
    obtain rfl : x = y := Option.some.inj hy
    exact hone rfl
  | _ :: _ :: _ => exact safe_raise _

theorem safe_scheduleRetry {x : Uuid} {a : ℕ} {code : String} {message : Option String} (hclock : clock now t)
    (hreply : ∀ o, reply o = ⟨.scheduleRetry x a code message, now, t, o⟩) :
    SafeTx cfg clock (scheduleRetry cfg reply now t x a code message) L db := by
  unfold scheduleRetry
  split_ifs with ha
  · exact safe_updateOne hclock hreply (by simp [Request.statement, ha]) rfl rfl
  · exact safe_updateOne hclock hreply (by simp [Request.statement, ha]) rfl rfl

theorem safe_reap (hclock : clock now t) (hreply : ∀ o, reply o = ⟨.reapExpiredRuns, now, t, o⟩) :
    SafeTx cfg clock (reapExpiredRuns cfg reply now t) L db := by
  refine safe_read fun L₁ db₁ _ => safe_update fun L₂ db₂ _ howned => ?_
  split_ifs
  · exact safe_commitUpdate hclock (hreply _) rfl rfl (fun y hy => nomatch hy) howned
  · exact safe_rollback _

/-! ## The completion -/

/-- **The DELETE**: if the run is still in flight later, the deleted rows are all the vectors that the pair has then. -/
theorem safe_deleteForModel {x item model : Uuid} {chunkIds : List Uuid} {k : List ChunkEmbedding → Tx}
    (hG : Good db) (hx : Belongs db x (item, model)) (hexp : db.listChunkIds item = chunkIds)
    (hk : ∀ L' db' gone, LaterTx cfg clock L db L' db' →
      (∀ L'' d, LaterTx cfg clock L' db' L'' d → Open d x → gone = d.vectors item model) →
      SafeTx cfg clock (k gone) L' db') : SafeTx cfg clock (deleteForModel model chunkIds k) L db := by
  unfold deleteForModel
  split_ifs with hempty
  · -- no chunk, no vector
    refine hk L db [] (.refl hG) fun L'' d hd _ => ?_
    have hnone : d.listChunkIds item = [] := by
      rw [(Meanwhile.static hd.meanwhile).listChunkIds, hexp, hempty]
    simp [EmbeddingDb.vectors, hnone]
  · refine safe_read fun L₁ db₁ h₁ => safe_stmt fun L₂ db₂ h₂ _ => ?_
    refine hk L₂ db₂ _ (h₁.trans h₂) fun L₃ d h₃ ho => ?_
    have hx₁ : Belongs db₁ x (item, model) := Meanwhile.belongs h₁.meanwhile hx
    have hx₂ : Belongs db₂ x (item, model) := Meanwhile.belongs h₂.meanwhile hx₁
    obtain ⟨ho₂, hv₃⟩ := Meanwhile.vectors h₃.meanwhile hx₂ ho
    obtain ⟨-, hv₂⟩ := Meanwhile.vectors h₂.meanwhile hx₁ ho₂
    have hseen : db₁.embeddings.filter (fun v => v.embeddingModelId = model ∧ v.chunkId ∈ chunkIds) =
        db₂.vectors item model := by
      rw [hv₂, EmbeddingDb.vectors, (Meanwhile.static h₁.meanwhile).listChunkIds, hexp]
    rw [hseen, hv₃, List.filter_eq_self]
    intro v hv
    exact decide_eq_true (List.mem_filter.1 hv).1

/-- **The INSERT**: the new rows are admissible, and no key occurs twice among them. -/
theorem safe_insertVectors {gone rows : List ChunkEmbedding} {k : Tx} (hG : Good db)
    (hk : ∀ L' db', LaterTx cfg clock L db L' db' → (∀ v ∈ rows, v.defects = []) → (rows.map (·.key)).Nodup →
      SafeTx cfg clock k L' db') : SafeTx cfg clock (insertVectors reply gone rows k) L db := by
  unfold insertVectors
  split_ifs with hempty
  · exact hk L db (.refl hG) (by simp [hempty]) (by simp [hempty])
  · refine safe_stmt fun L₁ db₁ h₁ _ => ?_
    split
    · next hv =>
      simp only [vectorViolations, List.append_eq_nil_iff, uniqueIndex_eq_nil, not_not, List.flatMap_eq_nil_iff] at hv
      obtain ⟨⟨⟨⟨hdef, hkeys⟩, -⟩, -⟩, -⟩ := hv
      rw [List.map_append] at hkeys
      exact hk L₁ db₁ h₁ hdef (List.nodup_append.1 hkeys).2.1
    · exact safe_raise _

/-- as many vectors as chunks, of expected chunks, none of them twice: one for each chunk -/
theorem vectors_perm {c : Completion} (hkeys : ((c.rows t).map (·.key)).Nodup)
    (hsub : ∀ v ∈ c.vectors, v.chunkId ∈ c.expectedChunkIds) (hlen : c.vectors.length = c.expectedChunkIds.length) :
    (c.vectors.map (·.chunkId)).Perm c.expectedChunkIds := by
  have hkeys' : (c.rows t).map (·.key) = (c.vectors.map (·.chunkId)).map (·, c.embeddingModelId) := by
    simp [Completion.rows, ChunkEmbedding.key]
  have hnd : (c.vectors.map (·.chunkId)).Nodup := (hkeys' ▸ hkeys).of_map _
  have hincl : c.vectors.map (·.chunkId) ⊆ c.expectedChunkIds := by
    intro x hx
    obtain ⟨v, hv, rfl⟩ := List.mem_map.1 hx
    exact hsub v hv
  exact (hnd.subperm hincl).perm_of_length_le (by simp [hlen])

/-- the count, over the pair's own vectors only -/
theorem length_of_count {c : Completion} (hexp : db.listChunkIds c.ingestionItemId = c.expectedChunkIds)
    (hsub : ∀ v ∈ c.vectors, v.chunkId ∈ c.expectedChunkIds)
    (hcount : EmbeddingDb.countForModel
      (db.replaceVectors (db.vectors c.ingestionItemId c.embeddingModelId) (c.rows t)).embeddings c.embeddingModelId
        c.expectedChunkIds = c.expectedChunkIds.length) : c.vectors.length = c.expectedChunkIds.length := by
  unfold EmbeddingDb.countForModel at hcount
  split_ifs at hcount with hempty
  · have hnone : c.vectors = [] := List.eq_nil_iff_forall_not_mem.2 fun v hv => by simpa [hempty] using hsub v hv
    simp [hnone, hempty]
  · have hvec : (db.replaceVectors (db.vectors c.ingestionItemId c.embeddingModelId) (c.rows t)).embeddings.filter
        (fun v => v.embeddingModelId = c.embeddingModelId ∧ v.chunkId ∈ c.expectedChunkIds) = c.rows t := by
      rw [← hexp]
      exact vectors_replaceVectors hexp hsub
    rw [List.countP_eq_length_filter, hvec] at hcount
    simpa [Completion.rows] using hcount

theorem safe_persist {c : Completion} (hclock : clock now t)
    (hreply : ∀ o, reply o = ⟨.persistVectorsAndMarkCompleted c, now, t, o⟩)
    (hlegal : Request.Legal db (.persistVectorsAndMarkCompleted c)) :
    SafeTx cfg clock (persistVectorsAndMarkCompleted reply now t c) L db := by
  obtain ⟨hx, hsub⟩ := hlegal
  refine safe_read fun L₁ db₁ h₁ => ?_
  split_ifs with hexp
  · exact safe_raise _
  · have hexp : db₁.listChunkIds c.ingestionItemId = c.expectedChunkIds := not_not.1 hexp
    have hx₁ : Belongs db₁ c.runId (c.ingestionItemId, c.embeddingModelId) := Meanwhile.belongs h₁.meanwhile hx
    refine safe_deleteForModel h₁.good hx₁ hexp fun L₂ db₂ gone h₂ hgone => ?_
    refine safe_insertVectors h₂.good fun L₃ db₃ h₃ hvalid hkeys => safe_read fun L₄ db₄ h₄ => ?_
    show SafeTx cfg clock (if EmbeddingDb.countForModel (db₄.replaceVectors gone (c.rows t)).embeddings
      c.embeddingModelId c.expectedChunkIds ≠ c.expectedChunkIds.length then _ else _) L₄ db₄
    split_ifs with hcount
    · exact safe_raise _
    · refine safe_update fun L₅ db₅ h₅ howned => ?_
      split_ifs with hn
      · rw [ids_of_matching hn] at howned ⊢
        rw [hreply]
        refine safe_commit hclock fun db₆ hd hG => ?_
        have howned₆ := howned.meanwhile hd hG
        have h₄₆ : LaterTx cfg clock L₄ db₄ L₅ db₆ := h₅.trans ⟨le_rfl, hd, hG⟩
        have hx₄ : Belongs db₄ c.runId (c.ingestionItemId, c.embeddingModelId) :=
          Meanwhile.belongs ((h₂.trans h₃).trans h₄).meanwhile hx₁
        have hexp' : ∀ d, Static db₁ d → d.listChunkIds c.ingestionItemId = c.expectedChunkIds := fun d hs =>
          (hs.listChunkIds _).trans hexp
        -- the run is in flight now, so it was when the vectors were counted
        have ho₆ : Open db₆ c.runId := by
          obtain ⟨r, hr, hid⟩ := howned₆.found c.runId (by simp)
          exact ⟨r, hr, hid, inFlight_of_matches (howned₆.rows r hr (by simp [hid])).2.1⟩
        obtain ⟨ho₄, -⟩ := Meanwhile.vectors h₄₆.meanwhile hx₄ ho₆
        have hgone₄ := hgone L₄ db₄ (h₃.trans h₄) ho₄
        have hgone₆ := hgone L₅ db₆ ((h₃.trans h₄).trans h₄₆) ho₆
        have hst₄ : Static db₁ db₄ := Meanwhile.static ((h₂.trans h₃).trans h₄).meanwhile
        have hst₆ : Static db₁ db₆ := hst₄.trans (Meanwhile.static h₄₆.meanwhile)
        have hlen : c.vectors.length = c.expectedChunkIds.length := by
          rw [not_not, hgone₄] at hcount
          exact length_of_count (hexp' db₄ hst₄) hsub hcount
        rw [hgone₆]
        refine .completed howned₆ ⟨hexp' db₆ hst₆, vectors_perm hkeys hsub hlen, fun r hr hid => ?_, hvalid⟩
        obtain ⟨r₀, hr₀, hid₀, hp₀⟩ := Meanwhile.belongs h₄₆.meanwhile hx₄
        rw [hG.run_eq hr hr₀ (hid.trans hid₀.symm), hp₀]
      · exact safe_rollback _

/-- Every legal request is safe. -/
theorem txn_safe (q : Request) (hclock : clock now t) (hlegal : q.Legal db) :
    SafeTx cfg clock (q.txn cfg now t) L db := by
  cases q with
  | createRun => exact safe_createRun hclock fun _ => rfl
  | claim => exact safe_claim hclock fun _ => rfl
  | heartbeat => exact safe_updateOne hclock (fun _ => rfl) rfl rfl rfl
  | scheduleRetry => exact safe_scheduleRetry hclock fun _ => rfl
  | markFailed => exact safe_updateOne hclock (fun _ => rfl) rfl rfl rfl
  | persistVectorsAndMarkCompleted => exact safe_persist hclock (fun _ => rfl) hlegal
  | reapExpiredRuns => exact safe_reap hclock fun _ => rfl

/-! ## Runs -/

theorem legal_safe (s : State) (i : ℕ) (p : Tx) (hp : Legal cfg clock s (.start i p)) (_ : Good s.db) :
    SafeTx cfg clock p (fun _ => False) s.db := by
  obtain ⟨q, now, t, rfl, hclock, hlegal⟩ := hp
  exact txn_safe q hclock hlegal

/-- The constraints hold in every committed state. -/
theorem run_good {s : State} (hdb : Good db) (hs : EmbeddingRuns cfg clock db s) : Good s.db :=
  (safe_rule legal_safe hdb hs).1

/-- **Every commit of a run** is the change of a request. -/
theorem commit_change {s : State} (hdb : Good db) (hs : EmbeddingRuns cfg clock db s) {o : RowLock.Op Tx}
    {w : EmbeddingDb → EmbeddingDb} {r : Reply} (ho : committing s o = some (w, r)) :
    ∃ L, Guarantee cfg clock r L s.db (w s.db) := (safe_rule legal_safe hdb hs).2 o w r ho

end AtlasRag.Embedding
