/-
Runs in flight, under races of `create_run`.

`create_run` asks for a run of the pair in flight and then inserts one; the partial unique index refuses the second of two
calls that both found none. `add_run` does not translate that violation, so the loser raises what the driver raises. An
INSERT is `Forestalled` if, since its `find_in_flight_run`, another call has committed a run of the pair that is in flight.

A program `Tells` if a call that creates no run because of another in flight says so, wherever the keys that it takes are
free, and only there.

Results:
- `txn_tells`: every request;
- `step_told_iff`: what one step does to the errors raised;
- `clear_iff`: the key that an INSERT takes is free iff the INSERT is not forestalled;
- `in_flight_unique_iff`: every loser raises `EmbeddingRunAlreadyInFlight` in exactly the runs in which no INSERT is
  forestalled;
- `crossing_creations_raise`: two crossing calls.
-/
import AtlasRag.Embedding.Vectors
import AtlasRag.Lib.Since

namespace AtlasRag.Embedding

open AtlasRag.Lib AtlasRag.Lib.LeasedJob AtlasRag.Lib.RowLock AtlasRag.Lib.Since AtlasRag.Lib.Table AtlasRag.Lib.Transaction
open AtlasRag.Platform AtlasRag.Ingestion

variable {cfg : Config} {clock : Time → Time → Prop} {reply : Outcome → Reply} {db : EmbeddingDb} {now t : Time}

/-! ## Errors -/

/-- the error says, or comes from, that another run is in flight -/
def EmbeddingError.FromInFlight : EmbeddingError → Prop
  | .embeddingRunAlreadyInFlight _ _ => True
  | .multipleResultsFound => True
  | .integrity _ violations => .unique IN_FLIGHT_INDEX ∈ violations
  | _ => False

/-- a call of `create_run` that fails because of another run in flight raises `EmbeddingRunAlreadyInFlight` -/
def TellsInFlight (r : Reply) : Prop :=
  ∀ x item model configuration by' e, r.request = .createRun x item model configuration by' → r.outcome = .raised e →
    e.FromInFlight → e = .embeddingRunAlreadyInFlight item model

/-- a unique key that a statement takes is free -/
def EmbeddingRow.Free (db : EmbeddingDb) : EmbeddingRow → Prop
  | .inFlight item model => db.findInFlightRuns item model = []
  | _ => True

instance : DecidablePred (EmbeddingRow.Free db) := fun x =>
  match x with
  | .inFlight item model => decidable_of_iff ((db.findInFlightRuns item model).isEmpty = true) List.isEmpty_iff
  | .run _ => .isTrue trivial
  | .vector _ => .isTrue trivial

/-! ## Programs -/

def Tells : Tx → Prop
  | .stmt rows k => ∀ d, Good d →
      ((∀ x ∈ rows d, x.Free d) → Tells (k d)) ∧
        (¬ (∀ x ∈ rows d, x.Free d) → ∃ r, k d = .rollback r ∧ ¬ TellsInFlight r)
  | .commit _ r => TellsInFlight r
  | .rollback r => TellsInFlight r

theorem tells_stmt {rows : EmbeddingDb → List EmbeddingRow} {k : EmbeddingDb → Tx}
    (hfree : ∀ d, ∀ x ∈ rows d, x.Free d) (h : ∀ d, Good d → Tells (k d)) : Tells (.stmt rows k) := by
  intro d hG
  exact ⟨fun _ => h d hG, fun hn => absurd (hfree d) hn⟩

theorem tells_read {k : EmbeddingDb → Tx} (h : ∀ d, Good d → Tells (k d)) : Tells (Txn.read k) :=
  tells_stmt (fun _ _ hx => by cases hx) h

/-- the program takes no unique key, and tells -/
def Orderly : Tx → Prop
  | .stmt rows k => (∀ d, ∀ x ∈ rows d, ∀ item model, x ≠ .inFlight item model) ∧ ∀ d, Orderly (k d)
  | .commit _ r => TellsInFlight r
  | .rollback r => TellsInFlight r

theorem Orderly.tells {p : Tx} (h : Orderly p) : Tells p := by
  induction p with
  | stmt rows k ih =>
    refine tells_stmt (fun d x hx => ?_) fun d _ => ih d (h.2 d)
    cases x with
    | inFlight item model => exact absurd rfl (h.1 d _ hx item model)
    | _ => trivial
  | commit w r => exact h
  | rollback r => exact h

theorem orderly_read {k : EmbeddingDb → Tx} (h : ∀ d, Orderly (k d)) : Orderly (Txn.read k) :=
  ⟨fun _ _ hx => (by cases hx), h⟩

theorem orderly_deleteForModel {model : Uuid} {chunkIds : List Uuid} {k : List ChunkEmbedding → Tx}
    (h : ∀ gone, Orderly (k gone)) : Orderly (deleteForModel model chunkIds k) := by
  unfold deleteForModel
  split_ifs
  · exact h _
  · refine orderly_read fun d => ⟨fun d' x hx item model hkey => ?_, fun _ => h _⟩
    obtain ⟨v, -, rfl⟩ := List.mem_map.1 hx
    cases hkey

section Others

variable (hreply : ∀ o, TellsInFlight (reply o))
include hreply

theorem orderly_update {ids : List Uuid} {s : RunStmt} {k : List EmbeddingRun → Tx}
    (h : ∀ rows, Orderly (k rows)) : Orderly (update reply ids s k) := by
  refine ⟨fun d x hx item model hkey => ?_, fun d => ?_⟩
  · obtain ⟨r, -, rfl⟩ := List.mem_map.1 hx
    cases hkey
  · beta_reduce
    split
    · exact hreply _
    · exact h _

theorem orderly_updateOne {x : Uuid} {s : RunStmt} : Orderly (updateOne reply x s) := by
  refine orderly_update hreply fun rows => ?_
  split_ifs
  · exact hreply _
  · exact hreply _

theorem orderly_claim {x : Uuid} : Orderly (claim cfg reply now t x) := by
  unfold claim
  refine orderly_update hreply fun rows => ?_
  match rows with
  | [] => exact hreply _
  | [_] => exact hreply _
  | _ :: _ :: _ => exact hreply _

theorem orderly_scheduleRetry {x : Uuid} {a : ℕ} {code : String} {message : Option String} :
    Orderly (scheduleRetry cfg reply now t x a code message) := by
  unfold scheduleRetry
  split_ifs
  · exact orderly_updateOne hreply
  · exact orderly_updateOne hreply

theorem orderly_reap : Orderly (reapExpiredRuns cfg reply now t) := by
  refine orderly_read fun d => orderly_update hreply fun rows => ?_
  split_ifs
  · exact hreply _
  · exact hreply _

theorem orderly_insertVectors {gone rows : List ChunkEmbedding} {k : Tx} (h : Orderly k) :
    Orderly (insertVectors reply gone rows k) := by
  unfold insertVectors
  split_ifs
  · exact h
  · refine ⟨fun d x hx item model hkey => ?_, fun d => ?_⟩
    · obtain ⟨v, -, rfl⟩ := List.mem_map.1 hx
      cases hkey
    · beta_reduce
      split
      · exact h
      · exact hreply _

theorem orderly_persist {c : Completion} : Orderly (persistVectorsAndMarkCompleted reply now t c) := by
  refine orderly_read fun d => ?_
  split_ifs
  · exact hreply _
  · refine orderly_deleteForModel fun gone => orderly_insertVectors hreply <| orderly_read fun d' => ?_
    show Orderly (if EmbeddingDb.countForModel (d'.replaceVectors gone (c.rows t)).embeddings
      c.embeddingModelId c.expectedChunkIds ≠ c.expectedChunkIds.length then _ else _)
    split_ifs
    · exact hreply _
    · refine orderly_update hreply fun rows => ?_
      split_ifs
      · exact hreply _
      · exact hreply _

end Others

/-- the INSERT of a run violates the partial unique index iff a run of its pair is in flight -/
theorem unique_mem_newRunViolations {r : EmbeddingRun} : .unique IN_FLIGHT_INDEX ∈ newRunViolations db r ↔
    db.findInFlightRuns r.ingestionItemId r.embeddingModelId ≠ [] := by
  have hpk : IN_FLIGHT_INDEX ≠ "pk_embedding_runs" := by decide
  have hpair : r.pair ∈ (db.runs.filter (·.InFlight)).map (·.pair) ↔
      db.findInFlightRuns r.ingestionItemId r.embeddingModelId ≠ [] := by
    rw [ne_eq, List.eq_nil_iff_forall_not_mem, not_forall]
    simp only [not_not, EmbeddingDb.mem_findInFlightRuns, List.mem_map, List.mem_filter, decide_eq_true_eq]
    constructor
    · rintro ⟨x, ⟨hx, hf⟩, hp⟩; exact ⟨x, hx, hp, hf⟩
    · rintro ⟨x, hx, hp, hf⟩; exact ⟨x, ⟨hx, hf⟩, hp⟩
  simp [newRunViolations, EmbeddingRun.defects, hpk, hpair]

/-- **The INSERT** tells iff its key is free. -/
theorem tells_addRun {x item model : Uuid} {configuration : JsonObject} {by' : Option Uuid} :
    Tells (addRun (fun o => ⟨.createRun x item model configuration by', now, t, o⟩)
      (newRun cfg t x item model configuration by')) := by
  intro d hG
  have hkeys : (∀ y ∈ (EmbeddingRow.run x :: .inFlight item model ::
      (d.findInFlightRuns item model).map fun r => .run r.id), y.Free d) ↔ d.findInFlightRuns item model = [] := by
    simp [EmbeddingRow.Free]
  have hviol : .unique IN_FLIGHT_INDEX ∈ newRunViolations d (newRun cfg t x item model configuration by') ↔
      d.findInFlightRuns item model ≠ [] := unique_mem_newRunViolations
  refine ⟨fun hfree => ?_, fun htaken => ?_⟩
  · have hnone := hkeys.1 hfree
    have hno : Violation.unique IN_FLIGHT_INDEX ∉ newRunViolations d (newRun cfg t x item model configuration by') :=
      fun h => hviol.1 h hnone
    beta_reduce
    split
    · intro x' item' model' configuration' by'' e _ he
      cases he
    · intro x' item' model' configuration' by'' e _ he hf
      cases he
      exact absurd hf hno
  · have hin := hviol.2 (mt hkeys.2 htaken)
    beta_reduce
    split
    · next hv => simp [hv] at hin
    · refine ⟨_, rfl, fun htells => ?_⟩
      have he := htells x item model configuration by' _ rfl rfl hin
      cases he

theorem tells_createRun {x item model : Uuid} {configuration : JsonObject} {by' : Option Uuid} :
    Tells (createRun cfg (fun o => ⟨.createRun x item model configuration by', now, t, o⟩) t x item model configuration
      by') := by
  refine tells_read fun d _ => ?_
  split_ifs
  · intro x' item' model' configuration' by'' e _ he hf
    cases he
    exact hf.elim
  · refine tells_read fun d hG => ?_
    have hone := hG.findInFlightRuns_le_one item model
    generalize d.findInFlightRuns item model = rows at hone
    match rows with
    | [] => exact tells_addRun
    | [_] =>
      intro x' item' model' configuration' by'' e hq he _
      cases hq
      cases he
      rfl
    | _ :: _ :: _ => simp at hone

/-- a request other than `create_run` -/
theorem txn_orderly {q : Request} (hq : ∀ x item model configuration by', q ≠ .createRun x item model configuration by') :
    Orderly (q.txn cfg now t) := by
  have hreply : ∀ o, TellsInFlight ⟨q, now, t, o⟩ :=
    fun _ x item model configuration by' _ h => absurd h (hq x item model configuration by')
  cases q with
  | createRun => exact absurd rfl (hq _ _ _ _ _)
  | claim => exact orderly_claim hreply
  | heartbeat => exact orderly_updateOne hreply
  | scheduleRetry => exact orderly_scheduleRetry hreply
  | markFailed => exact orderly_updateOne hreply
  | persistVectorsAndMarkCompleted => exact orderly_persist hreply
  | reapExpiredRuns => exact orderly_reap hreply

/-- **Every request tells**, but for the INSERT of `create_run`. -/
theorem txn_tells (q : Request) : Tells (q.txn cfg now t) := by
  cases q with
  | createRun => exact tells_createRun
  | _ => exact (txn_orderly fun _ _ _ _ _ h => by cases h).tells

/-! ## Runs -/

/-- at most one run of each pair is in flight; a call that creates none because of another says so; and a call that raises
commits nothing -/
structure UniqueInFlight (s : State) : Prop where
  one : ∀ item model, (s.db.findInFlightRuns item model).length ≤ 1
  told : ∀ r, Replied s r → TellsInFlight r
  quiet : ∀ o w x item model configuration by' now t outcome,
    committing s o = some (w, ⟨.createRun x item model configuration by', now, t, outcome⟩) → outcome = .created x

/-- **No statement meets a run in flight that it conflicts with**: when a statement runs, the unique keys that it takes are
free in what is committed then. Only the INSERT of `create_run` takes one. -/
def Clear (s : State) : RowLock.Op Tx → Prop
  | .exec i => ∀ p ∈ s.sessions i,
    match next s.db p with
    | .stmt rows _ => (∀ x ∈ rows, s.held x = none ∨ s.held x = some i) → ∀ x ∈ rows, x.Free s.db
    | _ => True
  | _ => True

instance (s : State) (o : RowLock.Op Tx) : Decidable (Clear s o) :=
  match o with
  | .exec i => by
    unfold Clear
    refine @Option.decidableForallMem _ _ (fun p => ?_) _
    cases next s.db p <;> infer_instance
  | .start _ _ => .isTrue trivial
  | .abort _ => .isTrue trivial

/-- every open session tells, or is raising an error -/
theorem sessions_tell (hdb : Good db) {s : State} (hs : EmbeddingRuns cfg clock db s) :
    ∀ i p, s.sessions i = some p → Tells p ∨ ∃ r, p = .rollback r := by
  refine sessions_rule (I := Good) (fun s hs => run_good hdb hs) ?_ ?_ hs
  · rintro s i p ⟨q, now, t, rfl, -⟩
    exact .inl (txn_tells q)
  · rintro rows k d hG (htells | ⟨r, hr⟩)
    · obtain ⟨hfree, htaken⟩ := htells d hG
      by_cases h : ∀ x ∈ rows d, x.Free d
      · exact .inl (hfree h)
      · obtain ⟨r, hr, -⟩ := htaken h
        exact .inr ⟨r, hr⟩
    · cases hr

/-- **What one step does to the errors raised**: they tell of the run in flight iff the step is clear. -/
theorem step_told_iff (hdb : Good db) {s : State} (hs : EmbeddingRuns cfg clock db s) {o : RowLock.Op Tx}
    (ho : Legal cfg clock s o) (htold : ∀ r, Replied s r → TellsInFlight r) :
    (∀ r, Replied (step next s o) r → TellsInFlight r) ↔ Clear s o := by
  constructor
  · intro h
    cases o with
    | exec i =>
      intro p hp
      cases p with
      | stmt rows k =>
        intro hfree
        rcases sessions_tell hdb hs i _ hp with htells | ⟨r, hr⟩
        · by_contra htaken
          obtain ⟨r, hr, hnot⟩ := (htells s.db (run_good hdb hs)).2 htaken
          refine hnot (h r (.inr ⟨i, ?_⟩))
          rw [Option.mem_def] at hp
          simp [step, hp, next, if_pos hfree, Sys.lock, hr]
        · cases hr
      | commit => trivial
      | rollback => trivial
    | start => trivial
    | abort => trivial
  · intro hclear r hr
    rcases replied_step hr with hr | ⟨i, rfl⟩ | ⟨w, hw⟩ | ⟨i, rows, k, rfl, hi, hfree, hk⟩
    · exact htold r hr
    · obtain ⟨q, now, t, hq, -⟩ := ho
      have htells : Tells (q.txn cfg now t) := txn_tells q
      rw [← hq] at htells
      exact htells
    · obtain ⟨i, rfl, hi⟩ := committing_some hw
      rcases sessions_tell hdb hs i _ hi with htells | ⟨r', hr'⟩
      · exact htells
      · cases hr'
    · rcases sessions_tell hdb hs i _ hi with htells | ⟨r', hr'⟩
      · have hrest := (htells s.db (run_good hdb hs)).1 (hclear _ hi hfree)
        rw [hk] at hrest
        exact hrest
      · cases hr'

/-! ## Forestalled calls -/

/-- an INSERT knows: a run of its pair in flight has been created since its last statement, `find_in_flight_run` -/
def Warned (d : EmbeddingDb) (notes : List (List Reply)) : Tx → Prop
  | .stmt rows _ => ∀ item model, .inFlight item model ∈ rows d → ∀ x ∈ d.findInFlightRuns item model,
      ∃ r ∈ notes.getD 0 [], r.outcome = .created x.id
  | _ => True

abbrev WarnedThroughout (cfg : Config) (p : Tx) (d : EmbeddingDb) (notes : List (List Reply)) : Prop :=
  Throughout Good (Guarantee cfg fun _ _ => True) Warned p d notes

/-- **One commit**: a run in flight afterwards was so before, or has been created. -/
theorem inFlight_change {r : Reply} {L : Set EmbeddingRow} {db' : EmbeddingDb} (hc : Change cfg r L db db')
    {item model : Uuid} {x : EmbeddingRun} (hx : x ∈ db'.findInFlightRuns item model) :
    r.outcome = .created x.id ∨ ∃ y ∈ db.findInFlightRuns item model, y.id = x.id := by
  rw [EmbeddingDb.mem_findInFlightRuns] at hx
  obtain ⟨hmem, hpair, hf⟩ := hx
  have hupdated : ∀ (ids : List Uuid) (s : RunStmt) (d : EmbeddingDb), (∀ y ∈ d.runs, y.id ∈ ids → s.Matches y.toJob) →
      d.runs = db.runs → x ∈ (d.updateRuns ids s).runs → ∃ y ∈ db.findInFlightRuns item model, y.id = x.id := by
    intro ids s d hmatch hd hxd
    rcases mem_mapWhere.1 hxd with ⟨y, hy, hids, rfl⟩ | ⟨hy, -⟩
    · exact ⟨y, EmbeddingDb.mem_findInFlightRuns.2 ⟨hd ▸ hy, hpair, inFlight_of_matches (hmatch y hy hids)⟩, rfl⟩
    · exact ⟨x, EmbeddingDb.mem_findInFlightRuns.2 ⟨hd ▸ hy, hpair, hf⟩, rfl⟩
  cases hc with
  | created =>
    rcases List.mem_append.1 hmem with hold | hnew
    · exact .inr ⟨x, EmbeddingDb.mem_findInFlightRuns.2 ⟨hold, hpair, hf⟩, rfl⟩
    · obtain rfl := List.mem_singleton.1 hnew
      exact .inl rfl
  | updated _ _ _ howned => exact .inr (hupdated _ _ db (fun y hy hids => (howned.rows y hy hids).2.1) rfl hmem)
  | completed howned => exact .inr (hupdated _ _ _ (fun y hy hids => (howned.rows y hy hids).2.1) rfl hmem)

/-- **Commits since a lookup** that found nothing: every run in flight has been created since. -/
theorem inFlight_chain {h : List Reply} {db' : EmbeddingDb} (hc : Chain Good (Guarantee cfg fun _ _ => True) db h db')
    {item model : Uuid} (hnone : db.findInFlightRuns item model = []) :
    ∀ x ∈ db'.findInFlightRuns item model, ∃ r ∈ h, r.outcome = .created x.id := by
  rw [← List.nil_append h]
  refine hc.inv (H := fun d h => ∀ x ∈ d.findInFlightRuns item model, ∃ r ∈ h, r.outcome = .created x.id) ?_ ?_
  · rintro d h r L d' - - ⟨-, hchange⟩ ih x hx
    rcases inFlight_change hchange hx with hcreated | ⟨y, hy, hid⟩
    · exact ⟨r, List.mem_append_right _ (List.mem_singleton_self _), hcreated⟩
    · obtain ⟨r', hr', hcreated⟩ := ih y hy
      exact ⟨r', List.mem_append_left _ hr', hid ▸ hcreated⟩
  · rw [hnone]
    exact fun x hx => by cases hx

theorem Orderly.warned {p : Tx} (h : Orderly p) (d : EmbeddingDb) (notes : List (List Reply)) :
    WarnedThroughout cfg p d notes := by
  induction p generalizing d notes with
  | stmt rows k ih =>
    intro h' d' _ _
    exact ⟨fun item model hkey => absurd rfl (h.1 d' _ hkey item model), ih d' (h.2 d') d' _⟩
  | commit w r => exact fun _ _ _ _ => trivial
  | rollback r => exact fun _ _ _ _ => trivial

theorem warned_createRun {x item model : Uuid} {configuration : JsonObject} {by' : Option Uuid} (d : EmbeddingDb)
    (notes : List (List Reply)) : WarnedThroughout cfg (createRun cfg (fun o => ⟨.createRun x item model configuration by',
      now, t, o⟩) t x item model configuration by') d notes := by
  refine fun h₁ d₁ _ _ => ⟨fun _ _ hkey => (by cases hkey), ?_⟩
  beta_reduce
  split_ifs
  · exact fun _ _ _ _ => trivial
  · refine fun h₂ d₂ _ _ => ⟨fun _ _ hkey => (by cases hkey), ?_⟩
    beta_reduce
    split
    · next hnone =>
      -- the INSERT, after a lookup that found nothing
      refine fun h₃ d₃ hc _ => ⟨fun item' model' hkey y hy => ?_, ?_⟩
      · have hpair : item' = item ∧ model' = model := by simpa [newRun] using hkey
        obtain ⟨rfl, rfl⟩ := hpair
        simpa using inFlight_chain hc hnone y hy
      · beta_reduce
        split
        · exact fun _ _ _ _ => trivial
        · exact fun _ _ _ _ => trivial
    · exact fun _ _ _ _ => trivial
    · exact fun _ _ _ _ => trivial

theorem txn_warned (q : Request) (d : EmbeddingDb) (notes : List (List Reply)) :
    WarnedThroughout cfg (q.txn cfg now t) d notes := by
  cases q with
  | createRun => exact warned_createRun d notes
  | _ => exact (txn_orderly fun _ _ _ _ _ h => by cases h).warned d notes

abbrev WatchedState := Watched EmbeddingDb EmbeddingRow Reply

/-- **The INSERT that the step runs is forestalled**: since the last statement of its session, `find_in_flight_run`, another
call has committed a run of the pair that is in flight now. -/
def Forestalled (w : WatchedState) : RowLock.Op Tx → Prop
  | .exec i => ∃ p ∈ w.sys.sessions i,
    match next w.sys.db p with
    | .stmt rows _ => (∀ x ∈ rows, w.sys.held x = none ∨ w.sys.held x = some i) ∧
        ∃ r ∈ w.since i 0, ∃ x ∈ w.sys.db.runs, x.InFlight ∧ r.outcome = .created x.id ∧
          .inFlight x.ingestionItemId x.embeddingModelId ∈ rows
    | _ => False
  | _ => False

instance (w : WatchedState) (o : RowLock.Op Tx) : Decidable (Forestalled w o) :=
  match o with
  | .exec i => by
    unfold Forestalled
    refine @Option.decidableExistsMem _ _ (fun p => ?_) _
    cases next w.sys.db p <;> infer_instance
  | .start _ _ => .isFalse id
  | .abort _ => .isFalse id

/-- a run of embedding transactions from the database `db`, with its notes -/
abbrev WatchedRun (cfg : Config) (db : EmbeddingDb) (w : WatchedState) : Prop :=
  Run watch (fun w o => Legal cfg (fun _ _ => True) w.sys o) (Watched.init db) w

/-- The key of an INSERT is free iff nobody has taken it since the call has looked. -/
theorem clear_iff (hdb : Good db) {w : WatchedState} (hw : WatchedRun cfg db w) (o : RowLock.Op Tx) :
    Clear w.sys o ↔ ¬ Forestalled w o := by
  cases o with
  | start => exact iff_of_true trivial id
  | abort => exact iff_of_true trivial id
  | exec i =>
    cases hi : w.sys.sessions i with
    | none => simp [Clear, Forestalled, hi]
    | some p =>
      cases p with
      | commit => simp [Clear, Forestalled, hi, next]
      | rollback => simp [Clear, Forestalled, hi, next]
      | stmt rows k =>
        simp only [Clear, Forestalled, hi, next, Option.mem_def, Option.some.injEq, forall_eq', exists_eq_left', not_and]
        refine forall_congr' fun _ => ?_
        constructor
        · rintro hclear ⟨r, -, x, hx, hf, -, hkey⟩
          have hfree : w.sys.db.findInFlightRuns x.ingestionItemId x.embeddingModelId = [] := hclear _ hkey
          have hmem := EmbeddingDb.mem_findInFlightRuns.2 ⟨hx, rfl, hf⟩
          rw [hfree] at hmem
          cases hmem
        · intro hno y hy
          cases y with
          | inFlight item model =>
            refine List.eq_nil_iff_forall_not_mem.2 fun x hx => hno ?_
            have hthrough : ∀ s i p, Legal cfg (fun _ _ => True) s (.start i p) → Good s.db →
                WarnedThroughout cfg p s.db [] := by
              rintro s i p ⟨q, now, t, rfl, -⟩ -
              exact txn_warned q _ _
            have hwarned := throughout_rule legal_safe hthrough hdb hw i _ hi
            obtain ⟨r, hr, hcreated⟩ := hwarned.here (run_good hdb (run_sys hw)) item model hy x hx
            obtain ⟨hmem, hpair, hf⟩ := EmbeddingDb.mem_findInFlightRuns.1 hx
            obtain ⟨rfl, rfl⟩ := Prod.mk.inj hpair
            exact ⟨r, hr, x, hmem, hf, hcreated, hy⟩
          | run => trivial
          | vector => trivial

/-- a committed `create_run` has created its run -/
theorem commit_created (hdb : Good db) {s : State} (hs : EmbeddingRuns cfg clock db s) {o : RowLock.Op Tx}
    {w : EmbeddingDb → EmbeddingDb} {x item model : Uuid} {configuration : JsonObject} {by' : Option Uuid}
    {outcome : Outcome} (ho : committing s o = some (w, ⟨.createRun x item model configuration by', now, t, outcome⟩)) :
    outcome = .created x := by
  obtain ⟨L, -, hc⟩ := commit_change hdb hs ho
  generalize w s.db = d at hc
  cases hc with
  | created => rfl
  | updated hs => cases hs

/-- **Unique runs in flight, exactly.** In a run of embedding transactions, from any tables that meet their constraints: in
every state at most one run of each pair is in flight, a `create_run` that creates none because of another raises
`EmbeddingRunAlreadyInFlight`, and one that raises commits nothing, if and only if no INSERT runs after another call has,
since this one's `find_in_flight_run`, committed a run of the pair that is in flight still. -/
theorem in_flight_unique_iff (cfg : Config) (db : EmbeddingDb) (hdb : Good db) (ops : List (RowLock.Op Tx))
    (hops : Admissible (step next) (Legal cfg fun _ _ => True) (Sys.init db) ops) :
    (∀ k, UniqueInFlight (run (step next) (Sys.init db) (ops.take k))) ↔
      Admissible watch (fun w o => ¬ Forestalled w o) (Watched.init db) ops := by
  have hunique : ∀ s, EmbeddingRuns cfg (fun _ _ => True) db s →
      (UniqueInFlight s ↔ ∀ r, Replied s r → TellsInFlight r) := by
    intro s hs
    refine ⟨fun h => h.told, fun h => ⟨?_, h, ?_⟩⟩
    · exact (run_good hdb hs).findInFlightRuns_le_one
    · intro o w x item model configuration by' now t outcome ho
      exact commit_created hdb hs ho
  have hinit : UniqueInFlight (Sys.init db) := by
    rw [hunique _ .refl]
    rintro r (⟨i, hi⟩ | ⟨i, hi⟩)
    · cases hi
    · cases hi
  have hstep : ∀ (w : WatchedState) o, Legal cfg (fun _ _ => True) w.sys o → WatchedRun cfg db w → UniqueInFlight w.sys →
      (UniqueInFlight (watch w o).sys ↔ ¬ Forestalled w o) := by
    intro w o ho hw htold
    rw [watch_sys, hunique _ ((run_sys hw).tail o ho), step_told_iff hdb (run_sys hw) ho htold.told]
    exact clear_iff hdb hw o
  have hwatch : Admissible watch (fun w o => Legal cfg (fun _ _ => True) w.sys o) (Watched.init db) ops :=
    admissible_watch hops
  have hiff := forall_take_iff (I := WatchedRun cfg db) (P := fun w => UniqueInFlight w.sys)
    (fun _ o ho hw => hw.tail o ho) hstep hwatch .refl hinit
  simpa only [run_watch_sys, Watched.init_sys] using hiff

theorem oneChunk_good : Good oneChunk := by constructor <;> decide

/-- two calls for the item 1 and the model 7; `n` statements of the first, then all of the second, then the rest -/
def twoCreations (n : ℕ) : List (RowLock.Op Tx) :=
  schedule [(Request.createRun 100 1 7 [] none).txn oneAttempt 5 5, (Request.createRun 101 1 7 [] none).txn oneAttempt 5 5]
    (List.replicate n 0 ++ List.replicate 4 1 ++ List.replicate (4 - n) 0)

theorem twoCreations_legal (n : ℕ) :
    Admissible (step next) (Legal oneAttempt fun _ _ => True) (Sys.init oneChunk) (twoCreations n) := by
  refine .of_forall (fun o ho s => ?_) _
  rcases List.mem_append.1 ho with ho | ho
  · simp only [List.mapIdx_cons, List.mapIdx_nil, List.mem_cons, List.not_mem_nil, or_false] at ho
    rcases ho with rfl | rfl <;> exact ⟨_, 5, 5, rfl, trivial, trivial⟩
  · obtain ⟨i, -, rfl⟩ := List.mem_map.1 ho
    trivial

/-- one after the other: the second call is told of the first one's run -/
theorem in_flight_unique_serial :
    Good oneChunk ∧ ∀ k, UniqueInFlight (run (step next) (Sys.init oneChunk) ((twoCreations 4).take k)) :=
  ⟨oneChunk_good,
    (in_flight_unique_iff oneAttempt oneChunk oneChunk_good (twoCreations 4) (twoCreations_legal 4)).2 (by decide)⟩

/-- **Two crossing calls**: the second finds no run in flight, and its INSERT is refused. -/
theorem crossing_creations_raise :
    let s := run (step next) (Sys.init oneChunk) (twoCreations 2)
    Good oneChunk ∧ EmbeddingRuns oneAttempt (fun _ _ => True) oneChunk s ∧
      s.log.map (fun e => (e.1, e.2.outcome)) =
        [(1, .created 101), (0, .raised (.integrity "embedding_runs" [.unique IN_FLIGHT_INDEX]))] ∧ ¬ UniqueInFlight s := by
  intro s
  refine ⟨oneChunk_good, run_of_admissible (twoCreations_legal 2), by decide, fun h => ?_⟩
  have hreplied : Replied s ⟨.createRun 100 1 7 [] none, 5, 5,
      .raised (.integrity "embedding_runs" [.unique IN_FLIGHT_INDEX])⟩ := .inl ⟨0, .tail _ (.head _)⟩
  have he := h.told _ hreplied 100 1 7 [] none _ rfl rfl (by simp [EmbeddingError.FromInFlight])
  cases he

end AtlasRag.Embedding
