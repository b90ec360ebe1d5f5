/-
A pass of `EmbeddingRecoveryService`.

`recover` reaps the expired runs without attempts left, selects the pending runs that are older than the pending age and
the running ones whose lease has expired, and dispatches both. The pass is run at one instant `T` that no clock reading
of the past exceeds, with nothing in between; the dispatcher may fail for any run.

Results:
- `run_jobs`: the representation invariant of every run, in every reachable state;
- `reap_alone`, `claim_alone`: what the two transactions do at `T`;
- `recover_strands_no_run`: every due run is failed or dispatched, and can be claimed if it is dispatched.
-/
import AtlasRag.Embedding.Vectors

namespace AtlasRag.Embedding

open AtlasRag.Lib AtlasRag.Lib.LeasedJob AtlasRag.Lib.RowLock AtlasRag.Lib.Table AtlasRag.Lib.Transaction
open AtlasRag.Platform AtlasRag.Ingestion

structure RecoveryConfig where
  pendingAge : Time
  batchSize : ℕ
  pendingAge_pos : 0 < pendingAge
  batchSize_pos : 0 < batchSize

structure EmbeddingRecoveryReport where
  redispatchedPending : ℕ
  redispatchedExpired : ℕ
  failedExhausted : ℕ
  dispatchFailures : ℕ
deriving DecidableEq, Repr

/-- `_dispatch`: the counts of the runs that were sent and of the failures -/
def dispatchRuns (dispatch : Uuid → Bool) (runs : List EmbeddingRun) : ℕ × ℕ :=
  runs.foldl (fun (sent, failures) r => if dispatch r.id then (sent + 1, failures) else (sent, failures + 1)) (0, 0)

/-- the tables after a pass, its report, and the runs for which the dispatcher was called -/
structure Pass where
  db : EmbeddingDb
  report : EmbeddingRecoveryReport
  calls : List Uuid

/-- the part of a pass after the reap: both selections, and a dispatch for each run -/
def redispatch (rc : RecoveryConfig) (dispatch : Uuid → Bool) (T : Time) (db : EmbeddingDb) (failedExhausted : ℕ) : Pass :=
  let pending := db.findStalePendingRuns (T - rc.pendingAge) rc.batchSize
  let expired := db.findExpiredRuns rc.batchSize T
  let (pendingSent, pendingFailures) := dispatchRuns dispatch pending
  let (expiredSent, expiredFailures) := dispatchRuns dispatch expired
  ⟨db, ⟨pendingSent, expiredSent, failedExhausted, pendingFailures + expiredFailures⟩,
    pending.map (·.id) ++ expired.map (·.id)⟩

/-- `recover` at the instant `T`; `dispatch x` tells whether the dispatch of the run `x` succeeds, and the pass ends early if
the reap raises -/
def recover (cfg : Config) (rc : RecoveryConfig) (dispatch : Uuid → Bool) (T : Time) (db : EmbeddingDb) : Option Pass :=
  match (Request.reapExpiredRuns.txn cfg T T).alone db with
  | (db, ⟨_, _, _, .reaped failedExhausted⟩) => some (redispatch rc dispatch T db failedExhausted)
  | _ => none

namespace EmbeddingRun

/-- the run is pending and older than the pending age, … -/
def StalePending (rc : RecoveryConfig) (T : Time) (r : EmbeddingRun) : Prop :=
  r.status = .pending ∧ r.createdAt ≤ T - rc.pendingAge

/-- … or its lease has expired -/
def LeaseExpired (T : Time) (r : EmbeddingRun) : Prop := r.status = .running ∧ r.Expired T

def Due (rc : RecoveryConfig) (T : Time) (r : EmbeddingRun) : Prop := r.StalePending rc T ∨ r.LeaseExpired T

instance (rc : RecoveryConfig) (T : Time) (r : EmbeddingRun) : Decidable (r.StalePending rc T) :=
  inferInstanceAs (Decidable (_ ∧ _))

instance (T : Time) (r : EmbeddingRun) : Decidable (r.LeaseExpired T) := inferInstanceAs (Decidable (_ ∧ _))

/-- failed for want of attempts -/
def FailedExhausted (max : ℕ) (r : EmbeddingRun) : Prop :=
  r.status = .failed ∧ r.errorCode = some MAX_ATTEMPTS_EXCEEDED ∧ max ≤ r.attemptCount

end EmbeddingRun

variable {cfg : Config} {rc : RecoveryConfig} {reply : Reply} {L : Set EmbeddingRow} {db db' : EmbeddingDb} {T : Time}

/-! ## The runs -/

/-- the statements of the requests keep to the attempt limit -/
theorem statement_within {q : Request} {now t : Time} {s : RunStmt} (h : q.statement cfg now t = some s) (hnow : now ≤ T) :
    s.Within cfg.maxAttempts T := by
  cases q with
  | createRun => cases h
  | claim => cases h; exact ⟨hnow, rfl⟩
  | scheduleRetry x a code message =>
    simp only [Request.statement, Option.some.injEq] at h
    split_ifs at h with ha
    · subst h; trivial
    · subst h; exact not_le.1 ha
  | _ => cases h; trivial

/-- Every run keeps its representation invariant. -/
theorem Change.jobs (h : Change cfg reply L db db') (hmax : 1 ≤ cfg.maxAttempts) (hnow : reply.now ≤ T)
    (hjobs : ∀ r ∈ db.runs, Inv cfg.maxAttempts T r.toJob) : ∀ r ∈ db'.runs, Inv cfg.maxAttempts T r.toJob := by
  have update {ids : List Uuid} {s : RunStmt} (howned : Owned L db ids s) (hs : s.Within cfg.maxAttempts T) :
      ∀ r ∈ (db.updateRuns ids s).runs, Inv cfg.maxAttempts T r.toJob := by
    intro r hr
    rcases EmbeddingDb.mem_updateRuns.1 hr with ⟨r₀, hr₀, hid, rfl⟩ | ⟨hr, -⟩
    · obtain ⟨-, hm, hdef⟩ := howned.rows r₀ hr₀ hid
      exact (hjobs r₀ hr₀).set hs hm (EmbeddingRun.defects_eq_nil.1 hdef).1
    · exact hjobs r hr
  cases h with
  | created =>
    intro r hr
    simp only [EmbeddingDb.addRun, List.mem_append, List.mem_singleton] at hr
    rcases hr with hr | rfl
    · exact hjobs r hr
    · exact Inv.new hmax T []
  | updated hs _ _ howned => exact update howned (statement_within hs hnow)
  | completed howned _ => exact update howned trivial

/-- the clock readings are not later than `T` -/
def Until (T now t : Time) : Prop := now ≤ T ∧ t ≤ T

theorem run_jobs (hmax : 1 ≤ cfg.maxAttempts) (hG : Good db) (hjobs : ∀ r ∈ db.runs, Inv cfg.maxAttempts T r.toJob)
    {s : State} (hs : EmbeddingRuns cfg (Until T) db s) : ∀ r ∈ s.db.runs, Inv cfg.maxAttempts T r.toJob := by
  refine preserved_rule (P := fun d => ∀ r ∈ d.runs, Inv cfg.maxAttempts T r.toJob) legal_safe hG hjobs ?_ hs
  intro d reply L d' _ hc hjobs
  exact hc.2.jobs hmax hc.1.1 hjobs

/-- a statement executed at `T` writes an admissible row -/
theorem defects_set {r : EmbeddingRun} {s : RunStmt} (hr : r.defects = []) (hjob : Inv cfg.maxAttempts T r.toJob)
    (hat : s.At cfg.maxAttempts T) (hm : s.Matches r.toJob)
    (htexts : (r.set s).errorCode = r.errorCode ∨ (r.set s).errorCode = some MAX_ATTEMPTS_EXCEEDED)
    (hmsg : (r.set s).errorMessage = r.errorMessage) : (r.set s).defects = [] := by
  obtain ⟨-, hhash, hcode, hmessage⟩ := EmbeddingRun.defects_eq_nil.1 hr
  have hjob' := hjob.exec le_rfl hat (exec_some.2 ⟨hm, rfl⟩)
  refine EmbeddingRun.defects_eq_nil.2 ⟨hjob'.checks, hhash, ?_, ?_⟩
  · rcases htexts with h | h
    · rw [h]; exact hcode
    · rw [h]
      intro x hx
      rw [← Option.some.inj hx]
      decide
  · rw [hmsg]; exact hmessage

/-! ## The transactions, alone at `T` -/

/-- an UPDATE that the table accepts -/
theorem update_alone {reply : Outcome → Reply} {ids : List Uuid} {s : RunStmt} {k : List EmbeddingRun → Tx}
    (h : ∀ r ∈ db.matching ids s, (r.set s).defects = []) :
    (update reply ids s k).alone db = (k (db.matching ids s)).alone db := by
  have hok : updateWhere EmbeddingRun.defects (fun r => r.id ∈ ids ∧ s.Matches r.toJob) (EmbeddingRun.set s) db.runs =
      .ok (mapWhere (fun r => r.id ∈ ids ∧ s.Matches r.toJob) (EmbeddingRun.set s) db.runs,
        db.runs.countP fun r => r.id ∈ ids ∧ s.Matches r.toJob) := by
    refine updateWhere_ok.2 ⟨fun r hr hm => ?_, rfl, rfl⟩
    exact h r (EmbeddingDb.mem_matching.2 ⟨hr, hm⟩)
  simp only [update, Txn.alone, hok]

/-- the reaping UPDATE at `T`, and the runs that it matches -/
abbrev reapStmt (cfg : Config) (T : Time) : RunStmt := .failExhausted T cfg.maxAttempts MAX_ATTEMPTS_EXCEEDED T

def reaped (cfg : Config) (T : Time) (db : EmbeddingDb) : List Uuid :=
  (db.runs.filter fun r => (reapStmt cfg T).Matches r.toJob).map (·.id)

/-- the instance of the invariants that a pass starts from -/
structure Ready (cfg : Config) (T : Time) (db : EmbeddingDb) : Prop where
  good : Good db
  jobs : ∀ r ∈ db.runs, Inv cfg.maxAttempts T r.toJob

/-- **The reap** fails the exhausted runs, and no others. -/
theorem reap_alone (h : Ready cfg T db) : (Request.reapExpiredRuns.txn cfg T T).alone db =
    (db.updateRuns (reaped cfg T db) (reapStmt cfg T), ⟨.reapExpiredRuns, T, T, .reaped (reaped cfg T db).length⟩) := by
  have hrows : db.matching (reaped cfg T db) (reapStmt cfg T) =
      db.runs.filter fun r => (reapStmt cfg T).Matches r.toJob := by
    refine List.filter_congr fun r hr => ?_
    by_cases hm : (reapStmt cfg T).Matches r.toJob
    · have hid : r.id ∈ reaped cfg T db := List.mem_map_of_mem (List.mem_filter.2 ⟨hr, by simp [hm]⟩)
      simp [hm, hid]
    · simp [hm]
  have hids : (db.matching (reaped cfg T db) (reapStmt cfg T)).map (·.id) = reaped cfg T db := by rw [hrows]; rfl
  have hdef : ∀ r ∈ db.matching (reaped cfg T db) (reapStmt cfg T), (r.set (reapStmt cfg T)).defects = [] := by
    intro r hr
    obtain ⟨hr, -, hm⟩ := EmbeddingDb.mem_matching.1 hr
    exact defects_set (h.good.runs r hr) (h.jobs r hr) ⟨rfl, rfl, rfl⟩ hm (.inr rfl) rfl
  have hlen : (db.matching (reaped cfg T db) (reapStmt cfg T)).length = (reaped cfg T db).length := by
    rw [hrows, reaped, List.length_map]
  let reply (o : Outcome) : Reply := ⟨.reapExpiredRuns, T, T, o⟩
  calc (Request.reapExpiredRuns.txn cfg T T).alone db
      = (update reply (reaped cfg T db) (reapStmt cfg T) fun rows =>
          if 0 < rows.length then commitUpdate reply rows (reapStmt cfg T) (.reaped rows.length)
          else .rollback (reply (.reaped 0))).alone db := rfl
    _ = (db.updateRuns (reaped cfg T db) (reapStmt cfg T), reply (.reaped (reaped cfg T db).length)) := by
      rw [update_alone hdef, hlen]
      split_ifs with hn
      · simp only [commitUpdate, Txn.alone, hids]
      · have hnone : reaped cfg T db = [] := List.length_eq_zero_iff.1 (by omega)
        simp [Txn.alone, hnone, EmbeddingDb.updateRuns, mapWhere]

/-- **A claim** of a claimable run succeeds. -/
theorem claim_alone (hlease : 0 < cfg.leaseDuration) (h : Ready cfg T db) {r : EmbeddingRun} (hr : r ∈ db.runs)
    (hclaim : r.Claimable cfg.maxAttempts T) : ∃ c : ClaimedEmbeddingRun, c.embeddingRunId = r.id ∧
      (((Request.claim r.id).txn cfg T T).alone db).2.outcome = .claimed (some c) := by
  let s : RunStmt := .claim T (T + cfg.leaseDuration) cfg.maxAttempts T
  let reply (o : Outcome) : Reply := ⟨.claim r.id, T, T, o⟩
  have hmatching : db.matching [r.id] s = [r] := by
    have hone : (db.matching [r.id] s).length = 1 := by
      rw [EmbeddingDb.matching, ← List.countP_eq_length_filter]
      exact countP_eq_one h.good.runIds (fun x _ hx => List.mem_singleton.1 hx.1) hr ⟨by simp, hclaim⟩
    obtain ⟨x, hx⟩ := List.length_eq_one_iff.1 hone
    have hmem : r ∈ db.matching [r.id] s := EmbeddingDb.mem_matching.2 ⟨hr, by simp, hclaim⟩
    rw [hx] at hmem ⊢
    rw [List.mem_singleton.1 hmem]
  have hdef : ∀ x ∈ db.matching [r.id] s, (x.set s).defects = [] := by
    intro x hx
    rw [hmatching, List.mem_singleton] at hx
    subst hx
    exact defects_set (h.good.runs x hr) (h.jobs x hr) ⟨rfl, rfl, lt_add_of_pos_right T hlease, rfl⟩ hclaim (.inl rfl) rfl
  have htxn : (Request.claim r.id).txn cfg T T = claim cfg reply T T r.id := rfl
  rw [htxn, claim, update_alone hdef, hmatching]
  exact ⟨_, rfl, rfl⟩

/-! ## The pass -/

theorem mem_take_insertionSort {q : EmbeddingRun → Prop} [DecidablePred q] {le : EmbeddingRun → EmbeddingRun → Prop}
    [DecidableRel le] {runs : List EmbeddingRun} {n : ℕ} (hn : (runs.filter (q ·)).length ≤ n) {r : EmbeddingRun} :
    r ∈ ((runs.filter (q ·)).insertionSort le).take n ↔ r ∈ runs ∧ q r := by
  rw [List.take_of_length_le (by rwa [List.length_insertionSort]), List.mem_insertionSort]
  simp

/-- the count of the dispatches that succeed, and of those that fail -/
theorem dispatchRuns_eq (dispatch : Uuid → Bool) (runs : List EmbeddingRun) : dispatchRuns dispatch runs =
    ((runs.map (·.id)).countP (dispatch ·), (runs.map (·.id)).countP (!dispatch ·)) := by
  have hgen : ∀ (runs : List EmbeddingRun) (a b : ℕ), runs.foldl (fun (sent, failures) r =>
      if dispatch r.id then (sent + 1, failures) else (sent, failures + 1)) (a, b) =
        (a + (runs.map (·.id)).countP (dispatch ·), b + (runs.map (·.id)).countP (!dispatch ·)) := by
    intro runs
    induction runs with
    | nil => intro a b; simp
    | cons r runs ih =>
      intro a b
      rw [List.foldl_cons]
      cases hr : dispatch r.id
      · simp [hr, ih]; omega
      · simp [hr, ih]; omega
  rw [dispatchRuns, hgen]
  simp

theorem mem_reaped (h : Good db) {r : EmbeddingRun} (hr : r ∈ db.runs) :
    r.id ∈ reaped cfg T db ↔ r.Exhausted cfg.maxAttempts T := by
  constructor
  · intro hid
    obtain ⟨x, hx, hxid⟩ := List.mem_map.1 hid
    rw [List.mem_filter] at hx
    obtain rfl : x = r := h.run_eq hx.1 hr hxid
    exact of_decide_eq_true hx.2
  · intro hm
    exact List.mem_map_of_mem (List.mem_filter.2 ⟨hr, decide_eq_true hm⟩)

/-- the tables after the reap -/
abbrev afterReap (cfg : Config) (T : Time) (db : EmbeddingDb) : EmbeddingDb :=
  db.updateRuns (reaped cfg T db) (reapStmt cfg T)

theorem Ready.afterReap (h : Ready cfg T db) : Ready cfg T (afterReap cfg T db) := by
  have howned : Owned Set.univ db (reaped cfg T db) (reapStmt cfg T) := by
    refine ⟨fun x hx => ?_, fun r hr hid => ?_⟩
    · obtain ⟨r, hr, rfl⟩ := List.mem_map.1 hx
      exact ⟨r, (List.mem_filter.1 hr).1, rfl⟩
    · have hm : (reapStmt cfg T).Matches r.toJob := (mem_reaped h.good hr).1 hid
      exact ⟨trivial, hm, defects_set (h.good.runs r hr) (h.jobs r hr) ⟨rfl, rfl, rfl⟩ hm (.inr rfl) rfl⟩
  refine ⟨good_updateRuns howned h.good, fun r hr => ?_⟩
  rcases EmbeddingDb.mem_updateRuns.1 hr with ⟨r₀, hr₀, hid, rfl⟩ | ⟨hr, -⟩
  · have hat : (reapStmt cfg T).At cfg.maxAttempts T := ⟨rfl, rfl, rfl⟩
    exact (h.jobs r₀ hr₀).exec le_rfl hat (exec_some.2 ⟨(howned.rows r₀ hr₀ hid).2.1, rfl⟩)
  · exact h.jobs r hr

/-- the reap leaves the pending runs alone, … -/
theorem stalePending_afterReap (h : Good db) : (afterReap cfg T db).runs.filter (·.StalePending rc T) =
    db.runs.filter (·.StalePending rc T) := by
  refine filter_mapWhere fun r hr hid => ?_
  obtain ⟨hrun, -⟩ := (mem_reaped h hr).1 hid
  simp [EmbeddingRun.StalePending, EmbeddingRun.set, Stmt.set, hrun]

/-- … and of those with an expired lease the ones that have attempts left -/
theorem leaseExpired_afterReap : ((afterReap cfg T db).runs.filter (·.LeaseExpired T)).length ≤
    (db.runs.filter (·.LeaseExpired T)).length := by
  refine (filter_mapWhere_sublist fun r _ _ => ?_).length_le
  simp [EmbeddingRun.LeaseExpired, EmbeddingRun.set, Stmt.set]

theorem claimable_afterReap (h : Ready cfg T db) {r : EmbeddingRun} (hr : r ∈ (afterReap cfg T db).runs)
    (hdue : r.Due rc T) : r.Claimable cfg.maxAttempts T := by
  rcases hdue with ⟨hp, -⟩ | ⟨hrun, hexp⟩
  · exact ⟨(h.afterReap.jobs r hr).pending hp, .inl hp⟩
  · refine ⟨?_, .inr ⟨hrun, hexp⟩⟩
    -- an exhausted run would have been reaped
    rcases EmbeddingDb.mem_updateRuns.1 hr with ⟨r₀, -, -, rfl⟩ | ⟨hr₀, hid⟩
    · simp [EmbeddingRun.set, Stmt.set] at hrun
    · by_contra hmax
      exact hid ((mem_reaped h.good hr₀).2 ⟨hrun, hexp, not_lt.1 hmax⟩)

/-- **A pass at `T`**, when the batches hold all that is due. -/
theorem recover_pass (hlease : 0 < cfg.leaseDuration) (h : Ready cfg T db) (dispatch : Uuid → Bool)
    (hpending : (db.runs.filter (·.StalePending rc T)).length ≤ rc.batchSize)
    (hexpired : (db.runs.filter (·.LeaseExpired T)).length ≤ rc.batchSize) :
    ∃ pass, recover cfg rc dispatch T db = some pass ∧
      (∀ r ∈ db.runs, r.Due rc T →
        (∃ r' ∈ pass.db.runs, r'.id = r.id ∧ r'.FailedExhausted cfg.maxAttempts) ∨ r.id ∈ pass.calls) ∧
      (pass.report.redispatchedPending + pass.report.redispatchedExpired = pass.calls.countP (dispatch ·) ∧
        pass.report.dispatchFailures = pass.calls.countP (!dispatch ·)) ∧
      ∀ x ∈ pass.calls, ∃ c : ClaimedEmbeddingRun, c.embeddingRunId = x ∧
        (((Request.claim x).txn cfg T T).alone pass.db).2.outcome = .claimed (some c) := by
  have hpass : recover cfg rc dispatch T db =
      some (redispatch rc dispatch T (afterReap cfg T db) (reaped cfg T db).length) := by
    unfold recover
    rw [reap_alone h]
  have hmem : ∀ r, (r ∈ (afterReap cfg T db).findStalePendingRuns (T - rc.pendingAge) rc.batchSize ↔
      r ∈ (afterReap cfg T db).runs ∧ r.StalePending rc T) ∧
      (r ∈ (afterReap cfg T db).findExpiredRuns rc.batchSize T ↔
        r ∈ (afterReap cfg T db).runs ∧ r.LeaseExpired T) := by
    intro r
    refine ⟨mem_take_insertionSort ?_, mem_take_insertionSort ?_⟩
    · exact le_trans (le_of_eq (congrArg List.length (stalePending_afterReap h.good))) hpending
    · exact leaseExpired_afterReap.trans hexpired
  refine ⟨_, hpass, fun r hr hdue => ?_, ?_, fun x hx => ?_⟩
  · by_cases hex : r.Exhausted cfg.maxAttempts T
    · have hmem' : r.set (reapStmt cfg T) ∈ (afterReap cfg T db).runs :=
        EmbeddingDb.mem_updateRuns.2 (.inl ⟨r, hr, (mem_reaped h.good hr).2 hex, rfl⟩)
      exact .inl ⟨_, hmem', rfl, rfl, rfl, hex.2.2⟩
    · have hmem' : r ∈ (afterReap cfg T db).runs :=
        EmbeddingDb.mem_updateRuns.2 (.inr ⟨hr, mt (mem_reaped h.good hr).1 hex⟩)
      right
      rcases hdue with hp | he
      · exact List.mem_append_left _ (List.mem_map_of_mem ((hmem r).1.2 ⟨hmem', hp⟩))
      · exact List.mem_append_right _ (List.mem_map_of_mem ((hmem r).2.2 ⟨hmem', he⟩))
  · simp [redispatch, dispatchRuns_eq, List.countP_append]
  · have hready := h.afterReap
    rcases List.mem_append.1 hx with hx | hx
    · obtain ⟨r, hr, rfl⟩ := List.mem_map.1 hx
      obtain ⟨hr, hp⟩ := (hmem r).1.1 hr
      have hdue : r.Due rc T := .inl hp
      exact claim_alone hlease hready hr (claimable_afterReap h hr hdue)
    · obtain ⟨r, hr, rfl⟩ := List.mem_map.1 hx
      obtain ⟨hr, he⟩ := (hmem r).2.1 hr
      have hdue : r.Due rc T := .inr he
      exact claim_alone hlease hready hr (claimable_afterReap h hr hdue)

/-- a run in flight becomes due, if nothing happens to it -/
theorem due_later (h : Ready cfg T db) {r : EmbeddingRun} (hr : r ∈ db.runs) (hrun : ¬ r.status.Terminal) :
    ∃ T' ≥ T, ∀ T'' ≥ T', r.Due rc T'' := by
  rcases EmbeddingRun.inFlight_iff.2 hrun with hp | hr'
  · refine ⟨max T (r.createdAt + rc.pendingAge), le_max_left _ _, fun T'' hT => .inl ⟨hp, ?_⟩⟩
    have hage : r.createdAt + rc.pendingAge ≤ T'' := le_trans (le_max_right _ _) hT
    exact le_sub_iff_add_le.2 hage
  · obtain ⟨-, -, hlease⟩ := (h.jobs r hr).checks.runningRequiresClaim hr'
    obtain ⟨l, hl⟩ := Option.isSome_iff_exists.1 hlease
    exact ⟨max T l, le_max_left _ _, fun T'' hT => .inr ⟨hr', l, hl, le_trans (le_max_right _ _) hT⟩⟩

/-- **Recovery strands no run.** In every state that embedding transactions reach from tables without runs, on clock readings
up to `T`, with at least one attempt allowed and leases of positive length:
- if each batch holds all that is due at `T`, a pass at `T` leaves every due run failed as exhausted, or calls the
  dispatcher for it; it counts every call as sent or as a failure; and a claim at `T` of a run that it called for
  succeeds;
- every run that is not terminal is due from some later instant on, if nothing happens to it. -/
theorem recover_strands_no_run (cfg : Config) (rc : RecoveryConfig) (dispatch : Uuid → Bool) (T : Time)
    (hlease : 0 < cfg.leaseDuration) (hmax : 1 ≤ cfg.maxAttempts) (db : EmbeddingDb)
    (hchunks : (db.chunks.map (·.id)).Nodup) (hruns : db.runs = []) (hvectors : db.embeddings = [])
    (ops : List (RowLock.Op Tx)) (hops : Admissible (step next) (Legal cfg (Until T)) (Sys.init db) ops) :
    let s := run (step next) (Sys.init db) ops
    ((s.db.runs.filter (·.StalePending rc T)).length ≤ rc.batchSize →
      (s.db.runs.filter (·.LeaseExpired T)).length ≤ rc.batchSize →
      ∃ pass, recover cfg rc dispatch T s.db = some pass ∧
        (∀ r ∈ s.db.runs, r.Due rc T →
          (∃ r' ∈ pass.db.runs, r'.id = r.id ∧ r'.FailedExhausted cfg.maxAttempts) ∨ r.id ∈ pass.calls) ∧
        (pass.report.redispatchedPending + pass.report.redispatchedExpired = pass.calls.countP (dispatch ·) ∧
          pass.report.dispatchFailures = pass.calls.countP (!dispatch ·)) ∧
        ∀ x ∈ pass.calls, ∃ c : ClaimedEmbeddingRun, c.embeddingRunId = x ∧
          (((Request.claim x).txn cfg T T).alone pass.db).2.outcome = .claimed (some c)) ∧
    ∀ r ∈ s.db.runs, ¬ r.status.Terminal → ∃ T' ≥ T, ∀ T'' ≥ T', r.Due rc T'' := by
  intro s
  have hG : Good db := ⟨hchunks, by simp [hruns], by simp [hruns], by simp [hruns], by simp [hvectors], by simp [hvectors]⟩
  have hs : EmbeddingRuns cfg (Until T) db s := run_of_admissible hops
  have hready : Ready cfg T s.db := ⟨run_good hG hs, run_jobs hmax hG (by simp [hruns]) hs⟩
  exact ⟨recover_pass hlease hready dispatch, fun r hr hrun => due_later hready hr hrun⟩

def twoAttempts : Config := ⟨60, 2, fun _ => "h"⟩

def recovery : RecoveryConfig := ⟨30, 10, by decide, by decide⟩

/-- the run 100 is created at 5 and claimed at 6; the worker is never heard of again -/
def createClaim : List (RowLock.Op Tx) :=
  [.start 0 ((Request.createRun 100 1 7 [] none).txn twoAttempts 5 5), .exec 0, .exec 0, .exec 0, .exec 0,
    .start 1 ((Request.claim 100).txn twoAttempts 6 6), .exec 1, .exec 1]

theorem createClaim_legal : Admissible (step next) (Legal twoAttempts (Until 100)) (Sys.init oneChunk) createClaim :=
  ⟨⟨_, 5, 5, rfl, ⟨by decide, by decide⟩, trivial⟩, trivial, trivial, trivial, trivial,
    ⟨_, 6, 6, rfl, ⟨by decide, by decide⟩, trivial⟩, trivial, trivial, trivial⟩

theorem recover_strands_no_run_expired :
    let s := run (step next) (Sys.init oneChunk) createClaim
    (∃ r ∈ s.db.runs, r.LeaseExpired 100) ∧ ∃ pass, recover twoAttempts recovery (fun _ => true) 100 s.db = some pass ∧
      ∀ r ∈ s.db.runs, r.Due recovery 100 →
        (∃ r' ∈ pass.db.runs, r'.id = r.id ∧ r'.FailedExhausted 2) ∨ r.id ∈ pass.calls := by
  intro s
  obtain ⟨pass, hpass, hdue, -⟩ := (recover_strands_no_run twoAttempts recovery (fun _ => true) 100 (by decide)
    (by decide) oneChunk (by decide) rfl rfl createClaim createClaim_legal).1 (by decide) (by decide)
  exact ⟨by decide, pass, hpass, hdue⟩

end AtlasRag.Embedding
