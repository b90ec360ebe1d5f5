/-
Every embedding run comes to an end.

The system of `Embedding.Delivery`, on a schedule that goes on forever. `Fair` is what the surroundings promise: clock
readings grow beyond every bound; the passes of the recovery task come again and again, each answered and with all of its
dispatches accepted; a message in the queue is handed to a worker whose claim gets an answer; and no worker renews a lease
forever. Everything else may happen in any order: workers die, sessions are aborted, calls fail after their commit, other
dispatches are lost.

A run that is not terminal is claimed again, or failed for want of attempts: as long as its row does not change it comes
to the head of its batch, since the batches are sorted by times that later rows exceed.

Results:
- `settled_row`: a row changes finitely often;
- `claimed_moves`, `exhausted_moves`: a row that is dispatched, or out of attempts, does not stay as it is;
- `delivered_eventually`: every run is completed or failed in the end (`delivered_eventually_served`: one that is served).
-/
import AtlasRag.Lib.Schedule
import AtlasRag.Embedding.Delivery

namespace AtlasRag.Embedding.Delivery

open AtlasRag.Lib AtlasRag.Lib.LeasedJob AtlasRag.Lib.RowLock AtlasRag.Lib.Table AtlasRag.Lib.Transaction
open AtlasRag.Lib.Schedule AtlasRag.Platform AtlasRag.Ingestion DefaultEmbeddingProcessor

/-! ## Schedules -/

/-- what the step does to the sessions -/
def Op.base? (cfg : Config) (s : St) : Op → Option (RowLock.Op Tx)
  | .createRun i x item model configuration by' now t =>
    match s.base.sessions i with
    | some _ => none
    | none => some (.start i ((Request.createRun x item model configuration by').txn cfg now t))
  | .reapExpiredRuns i now t =>
    match s.base.sessions i with
    | some _ => none
    | none => some (.start i (Request.reapExpiredRuns.txn cfg now t))
  | .call w i now t =>
    match s.workers w, s.base.sessions i with
    | some m, none =>
      match m.call, m.request with
      | none, some q => some (.start i (q.txn cfg now t))
      | _, _ => none
    | _, _ => none
  | .renew w i now t =>
    match s.workers w, s.base.sessions i with
    | some m, none =>
      match m.renewal, m.claim? with
      | none, some claim => some (.start i ((Request.heartbeat claim.embeddingRunId claim.attemptNumber).txn cfg now t))
      | _, _ => none
    | _, _ => none
  | .exec i _ => some (.exec i)
  | .abort i => some (.abort i)
  | _ => none

/-- the clock readings of the step -/
def Op.times : Op → List Time
  | .createRun _ _ _ _ _ _ now t => [now, t]
  | .reapExpiredRuns _ now t => [now, t]
  | .redispatchPending now _ => [now]
  | .redispatchExpired t _ => [t]
  | .call _ _ now t => [now, t]
  | .renew _ _ now t => [now, t]
  | _ => []

variable {cfg : Config} {rc : RecoveryConfig} {env : Environment} {db db' : EmbeddingDb} {q : Request} {now t : Time}

theorem base_step (s : St) (o : Op) :
    (step cfg rc env s o).base = (o.base? cfg s).elim s.base (RowLock.step next s.base) := by
  cases o with
  | createRun i x item model configuration by' now t => cases hi : s.base.sessions i <;> simp only [step, Op.base?, hi] <;> rfl
  | reapExpiredRuns i now t => cases hi : s.base.sessions i <;> simp only [step, Op.base?, hi] <;> rfl
  | call w i now t =>
    cases hw : s.workers w with
    | none => simp only [step, Op.base?, hw]; rfl
    | some m =>
      cases hi : s.base.sessions i with
      | some p => simp only [step, Op.base?, hw, hi]; rfl
      | none => cases hc : m.call <;> cases hq : m.request <;> simp only [step, Op.base?, hw, hi, hc, hq] <;> rfl
  | renew w i now t =>
    cases hw : s.workers w with
    | none => simp only [step, Op.base?, hw]; rfl
    | some m =>
      cases hi : s.base.sessions i with
      | some p => simp only [step, Op.base?, hw, hi]; rfl
      | none => cases hr : m.renewal <;> cases hc : m.claim? <;> simp only [step, Op.base?, hw, hi, hr, hc] <;> rfl
  | exec i lost =>
    simp only [step, Op.base?]
    split
    · rfl
    · split_ifs
      · rfl
      · rfl
  | _ =>
    simp only [step, Op.base?]
    repeat' split
    all_goals rfl

/-- the session `i`, begun in the step `m`, ends in the step `e` with the reply -/
structure Answered (s : ℕ → St) (f : ℕ → Op) (i m e : ℕ) (reply : Reply) : Prop where
  lt : m < e
  opens : (s m).base.sessions i = none
  isOpen : ∀ k, m < k → k ≤ e → (s k).base.sessions i ≠ none
  exec : ∃ lost, f e = .exec i lost
  ends : ending (s e).base (.exec i) = some reply

/-- what the surroundings promise -/
structure Fair (s : ℕ → St) (f : ℕ → Op) : Prop where
  /-- clock readings grow beyond every bound -/
  clocks : ∀ T, ∃ n, ∀ k ≥ n, ∀ t ∈ (f k).times, T ≤ t
  /-- the expired runs without attempts left are reaped, … -/
  reaps : ∀ n, ∃ m ≥ n, ∃ i now t e reply, f m = .reapExpiredRuns i now t ∧ Answered s f i m e reply ∧
    ∃ count, reply.outcome = .reaped count
  /-- … and both batches dispatched -/
  pendings : ∀ n, ∃ m ≥ n, ∃ now accepted, f m = .redispatchPending now accepted ∧ ∀ x, accepted x = true
  expireds : ∀ n, ∃ m ≥ n, ∃ t accepted, f m = .redispatchExpired t accepted ∧ ∀ x, accepted x = true
  /-- a worker takes the message, and its claim is answered -/
  claims : ∀ n x, x ∈ (s n).queue → ∃ m ≥ n, ∃ w i now t e reply message, f m = .call w i now t ∧
    (s m).workers w = some message ∧ message.call = none ∧ message.request = some (.claim x) ∧
    Answered s f i m e reply
  /-- attempts end -/
  renewals : ∀ x, ∃ n, ∀ k ≥ n, ∀ w i now t message claim, f k = .renew w i now t → (s k).workers w = some message →
    message.claim? = some claim → claim.embeddingRunId ≠ x

/-! ## Rows -/

/-- what a commit does to a row -/
theorem row_next {reply : Reply} {L : Set EmbeddingRow} (h : Change cfg reply L db db') {r : EmbeddingRun}
    (hr : r ∈ db.runs) : r ∈ db'.runs ∨ ∃ s, reply.request.statement cfg reply.now reply.t = some s ∧
      (∀ y ∈ reply.request.runId?, y = r.id) ∧ s.Matches r.toJob ∧ r.set s ∈ db'.runs := by
  have updated {ids : List Uuid} {s : RunStmt} (howned : Owned L db ids s)
      (hs : reply.request.statement cfg reply.now reply.t = some s) (hids : ∀ x ∈ reply.request.runId?, ids = [x]) :
      r ∈ (db.updateRuns ids s).runs ∨ ∃ s', reply.request.statement cfg reply.now reply.t = some s' ∧
        (∀ y ∈ reply.request.runId?, y = r.id) ∧ s'.Matches r.toJob ∧ r.set s' ∈ (db.updateRuns ids s).runs := by
    by_cases hid : r.id ∈ ids
    · refine .inr ⟨s, hs, fun y hy => ?_, (howned.rows r hr hid).2.1, EmbeddingDb.mem_updateRuns.2 (.inl ⟨r, hr, hid, rfl⟩)⟩
      rw [hids y hy, List.mem_singleton] at hid
      exact hid.symm
    · exact .inl (EmbeddingDb.mem_updateRuns.2 (.inr ⟨hr, hid⟩))
  cases h with
  | created => exact .inl (List.mem_append_left _ hr)
  | updated hs _ hids howned => exact updated howned hs hids
  | completed howned _ => exact updated howned rfl fun x hx => by rw [← Option.some.inj hx]

/-- the statements that a row can still match, heartbeats aside -/
def remaining (max : ℕ) (r : EmbeddingRun) : ℕ :=
  match r.status with
  | .pending => 2 * (max - r.attemptCount) + 1
  | .running => 2 * (max - r.attemptCount) + 2
  | _ => 0

/-- … of a row that may be missing -/
def remainingOf (max : ℕ) (x : Option EmbeddingRun) : ℕ := (x.map (remaining max)).getD 0

theorem remaining_set {max : ℕ} {s : RunStmt} {r : EmbeddingRun} {c : Time} (hs : s.Within max c)
    (hm : s.Matches r.toJob) (hheart : ∀ a l t, s ≠ .heartbeat a l t) : remaining max (r.set s) < remaining max r := by
  cases s with
  | claim n l m t =>
    obtain ⟨-, rfl⟩ := hs
    obtain ⟨hlt, hstatus⟩ := hm
    rcases hstatus with hp | ⟨hrun, -⟩
    · simp only [remaining, EmbeddingRun.set, Stmt.set, hp]
      omega
    · simp only [remaining, EmbeddingRun.set, Stmt.set, hrun]
      omega
  | heartbeat a l t => exact absurd rfl (hheart a l t)
  | release => simp [remaining, EmbeddingRun.set, Stmt.set, show r.status = .running from hm.1]
  | _ => simp [remaining, EmbeddingRun.set, Stmt.set, show r.status = .running from hm.1]

theorem heartbeat_of_statement {a : ℕ} {l t' : Time} (h : q.statement cfg now t = some (.heartbeat a l t')) :
    ∃ x a', q = .heartbeat x a' := by
  cases q with
  | heartbeat x a' => exact ⟨x, a', rfl⟩
  | scheduleRetry x a' code message =>
    simp only [Request.statement, Option.some.injEq] at h
    split_ifs at h
  | _ => cases h

/-- a statement that writes a lease counts it from the application clock -/
theorem lease_of_statement {s : RunStmt} {r : EmbeddingRun} (h : q.statement cfg now t = some s) :
    ∀ l ∈ (r.set s).leaseExpiresAt, l = now + cfg.leaseDuration := by
  intro l hl
  cases q with
  | createRun => cases h
  | claim => cases h; exact (Option.some.inj hl).symm
  | heartbeat => cases h; exact (Option.some.inj hl).symm
  | scheduleRetry x a code message =>
    simp only [Request.statement, Option.some.injEq] at h
    split_ifs at h
    · subst h; cases hl
    · subst h; cases hl
  | markFailed => cases h; cases hl
  | persistVectorsAndMarkCompleted => cases h; cases hl
  | reapExpiredRuns => cases h; cases hl

/-! ## How sessions end -/

section Ends

variable {reply : Outcome → Reply} {C : Reply → Prop}

theorem ends_claim {x : Uuid} (hreply : ∀ o, C (reply o)) : (claim cfg reply now t x).Ends C C := by
  unfold claim
  refine ends_update (fun o _ => hreply o) fun rows => ?_
  rcases rows with _ | ⟨r, _ | ⟨r', rows⟩⟩
  · exact hreply _
  · exact hreply _
  · exact hreply _

/-- every result is for the request, and has its clock readings -/
theorem ends_txn (cfg : Config) (now t : Time) (q : Request) : (q.txn cfg now t).Ends
    (fun reply => reply.request = q ∧ reply.now = now ∧ reply.t = t)
    fun reply => reply.request = q ∧ reply.now = now ∧ reply.t = t := by
  cases q with
  | createRun => exact ends_createRun fun o _ => ⟨rfl, rfl, rfl⟩
  | claim => exact ends_claim fun o => ⟨rfl, rfl, rfl⟩
  | heartbeat => exact ends_updateOne fun o _ => ⟨rfl, rfl, rfl⟩
  | scheduleRetry => exact ends_scheduleRetry fun o _ => ⟨rfl, rfl, rfl⟩
  | markFailed => exact ends_updateOne fun o _ => ⟨rfl, rfl, rfl⟩
  | persistVectorsAndMarkCompleted => exact ends_persist fun o _ => ⟨rfl, rfl, rfl⟩
  | reapExpiredRuns => exact ends_reap fun o _ => ⟨rfl, rfl, rfl⟩

end Ends

/-- what begins is the transaction of a request, and that of a heartbeat is a renewal -/
theorem base_start {s : St} {o : Op} {i : ℕ} {p : Tx} (hs : ∀ w m, s.workers w = some m → m.phase.Sound env s.base.db)
    (h : o.base? cfg s = some (.start i p)) : ∃ q now t, p = Request.txn cfg now t q ∧ now ∈ o.times ∧ t ∈ o.times ∧
      ∀ x a, q = .heartbeat x a → ∃ w m claim, o = .renew w i now t ∧ s.workers w = some m ∧ m.claim? = some claim ∧
        claim.embeddingRunId = x := by
  cases o with
  | createRun j x item model configuration by' now t =>
    simp only [Op.base?] at h
    split at h
    · cases h
    · cases h
      exact ⟨_, now, t, rfl, by simp [Op.times], by simp [Op.times], fun _ _ h => by cases h⟩
  | reapExpiredRuns j now t =>
    simp only [Op.base?] at h
    split at h
    · cases h
    · cases h
      exact ⟨_, now, t, rfl, by simp [Op.times], by simp [Op.times], fun _ _ h => by cases h⟩
  | call w j now t =>
    simp only [Op.base?] at h
    split at h
    · next m hw _ =>
      split at h
      · next q _ hq =>
        cases h
        refine ⟨q, now, t, rfl, by simp [Op.times], by simp [Op.times], fun x a hx => ?_⟩
        exact absurd hx (request_ne_heartbeat (hs w m hw) hq x a)
      · cases h
    · cases h
  | renew w j now t =>
    simp only [Op.base?] at h
    split at h
    · next m hw _ =>
      split at h
      · next claim _ hclaim =>
        cases h
        refine ⟨_, now, t, rfl, by simp [Op.times], by simp [Op.times], fun x a hx => ?_⟩
        cases hx
        exact ⟨w, m, claim, rfl, hw, hclaim, rfl⟩
      · cases h
    · cases h
  | exec => cases h
  | abort => cases h
  | _ => cases h

/-! ## What a claim and a reap bring about -/

section Yields

variable {r : EmbeddingRun}

theorem matching_one (h : Good db) (hr : r ∈ db.runs) {s : RunStmt} (hm : s.Matches r.toJob) :
    db.matching [r.id] s = [r] :=
  filter_eq_singleton h.runIds (fun x _ hx => List.mem_singleton.1 hx.1) hr ⟨by simp, hm⟩

/-- the row is gone when a statement that changes it is committed -/
theorem not_mem_updateRuns (h : Good db) (hr : r ∈ db.runs) {ids : List Uuid} (hid : r.id ∈ ids) {s : RunStmt}
    (hne : r.set s ≠ r) : r ∉ (db.updateRuns ids s).runs := by
  intro hmem
  rcases EmbeddingDb.mem_updateRuns.1 hmem with ⟨r₀, hr₀, -, hset⟩ | ⟨-, hnot⟩
  · obtain rfl : r₀ = r := h.run_eq hr₀ hr (by rw [← hset]; rfl)
    exact hne hset
  · exact hnot hid

/-- an UPDATE that the table accepts -/
theorem updateWhere_accepted {d : EmbeddingDb} {ids : List Uuid} {s : RunStmt}
    (h : ∀ r ∈ d.matching ids s, (r.set s).defects = []) :
    updateWhere EmbeddingRun.defects (fun r => r.id ∈ ids ∧ s.Matches r.toJob) (EmbeddingRun.set s) d.runs =
      .ok (mapWhere (fun r => r.id ∈ ids ∧ s.Matches r.toJob) (EmbeddingRun.set s) d.runs,
        d.runs.countP fun r => r.id ∈ ids ∧ s.Matches r.toJob) :=
  updateWhere_ok.2 ⟨fun r hr hm => h r (EmbeddingDb.mem_matching.2 ⟨hr, hm⟩), rfl, rfl⟩

/-- a claim writes an admissible row -/
theorem claim_defects (hlease : 0 < cfg.leaseDuration) (hdefects : r.defects = []) (hopen : r.completedAt = none) :
    (r.set (.claim now (now + cfg.leaseDuration) cfg.maxAttempts t)).defects = [] := by
  obtain ⟨-, hhash, hcode, hmessage⟩ := EmbeddingRun.defects_eq_nil.1 hdefects
  refine EmbeddingRun.defects_eq_nil.2 ⟨⟨fun _ => ?_, .inl rfl, fun l hl => ?_, fun hterminal => ?_, fun c hc => ?_⟩, hhash,
    hcode, hmessage⟩
  · simp [EmbeddingRun.set, Stmt.set]
  · obtain rfl : now + cfg.leaseDuration = l := by simpa [EmbeddingRun.set, Stmt.set] using hl
    exact ⟨now, rfl, lt_add_of_pos_right now hlease⟩
  · simp [EmbeddingRun.set, Stmt.set, Status.Terminal] at hterminal
  · simp [EmbeddingRun.set, Stmt.set, hopen] at hc

/-- **A claim** of a claimable run changes its row, if the row stays claimable to the end. -/
theorem claim_yields (now : Time) (hlease : 0 < cfg.leaseDuration) (hopen : r.completedAt = none)
    (hclaim : r.Claimable cfg.maxAttempts t) : Yields (fun d => Good d ∧ r ∈ d.runs) (fun _ => True)
      (fun d => r ∉ d.runs) ((Request.claim r.id).txn cfg now t) := by
  intro d hd
  have hmatching : d.matching [r.id] (.claim now (now + cfg.leaseDuration) cfg.maxAttempts t) = [r] :=
    matching_one hd.1 hd.2 hclaim
  have hok := updateWhere_accepted (d := d) fun x hx => by
    rw [hmatching, List.mem_singleton] at hx
    subst hx
    exact claim_defects hlease (hd.1.runs x hd.2) hopen
  beta_reduce
  rw [hok, hmatching]
  intro _ d' hd'
  refine not_mem_updateRuns hd'.1 hd'.2 (by simp) fun heq => ?_
  have hcount := congrArg (·.attemptCount) heq
  simp [EmbeddingRun.set, Stmt.set] at hcount

/-- **A reap** that is answered takes every exhausted run, if its row stays so to the end. -/
theorem reap_yields (now : Time) (hex : r.Exhausted cfg.maxAttempts t) : Yields (fun d => Good d ∧ r ∈ d.runs)
    (fun reply => ∃ count, reply.outcome = .reaped count) (fun d => r ∉ d.runs)
      (Request.reapExpiredRuns.txn cfg now t) := by
  intro d hd
  beta_reduce
  have hdue : r.id ∈ (d.runs.filter fun r => (Stmt.failExhausted now cfg.maxAttempts MAX_ATTEMPTS_EXCEEDED t : RunStmt).Matches
      r.toJob).map (·.id) := List.mem_map_of_mem (List.mem_filter.2 ⟨hd.2, decide_eq_true hex⟩)
  generalize (d.runs.filter _).map _ = due at hdue
  intro d' hd'
  beta_reduce
  split
  · rintro ⟨count, hcount⟩
    cases hcount
  · have hmem : r ∈ d'.matching due (.failExhausted now cfg.maxAttempts MAX_ATTEMPTS_EXCEEDED t) :=
      EmbeddingDb.mem_matching.2 ⟨hd'.2, hdue, hex⟩
    rw [if_pos (List.length_pos_of_mem hmem)]
    intro _ d'' hd''
    refine not_mem_updateRuns hd''.1 hd''.2 (List.mem_map_of_mem hmem) fun heq => ?_
    have hstatus := congrArg (·.status) heq
    simp [EmbeddingRun.set, Stmt.set, show r.status = .running from hex.1] at hstatus

end Yields

/-! ## The schedule -/

/-- the states of the system -/
abbrev states (cfg : Config) (rc : RecoveryConfig) (env : Environment) (db : EmbeddingDb) (f : ℕ → Op) : ℕ → St :=
  trace (step cfg rc env) (init db) f

/-- the runs in the tables after `n` steps -/
abbrev runsAt (cfg : Config) (rc : RecoveryConfig) (env : Environment) (db : EmbeddingDb) (f : ℕ → Op) (n : ℕ) :
    List EmbeddingRun := (states cfg rc env db f n).base.db.runs

theorem findRun_eq (h : Good db) {r : EmbeddingRun} {x : Uuid} : db.findRun x = some r ↔ r ∈ db.runs ∧ r.id = x := by
  constructor
  · exact EmbeddingDb.findRun_some
  · rintro ⟨hr, rfl⟩
    obtain ⟨r', hr'⟩ : ∃ r', db.findRun r.id = some r' := by
      rw [← Option.isSome_iff_exists, EmbeddingDb.findRun, List.find?_isSome]
      exact ⟨r, hr, by simp⟩
    obtain ⟨hmem, hid⟩ := EmbeddingDb.findRun_some hr'
    rw [hr', h.run_eq hmem hr hid]

/-- every row keeps its invariant, up to the readings that it has recorded -/
theorem jobs_change (hmax : 1 ≤ cfg.maxAttempts) {reply : Reply} {L : Set EmbeddingRow} (h : Change cfg reply L db db')
    (hG : Good db') (hjobs : ∀ r ∈ db.runs, ∃ c, LeasedJob.Inv cfg.maxAttempts c r.toJob) :
    ∀ r ∈ db'.runs, ∃ c, LeasedJob.Inv cfg.maxAttempts c r.toJob := by
  intro r' hr'
  rcases row_cases h hr' with hr | ⟨x, item, model, configuration, by', rfl⟩ | ⟨r, hr, s, hs, hm, rfl⟩
  · exact hjobs r' hr
  · exact ⟨0, Inv.new hmax 0 []⟩
  · obtain ⟨c, hc⟩ := hjobs r hr
    have hlater := hc.later (le_max_left c reply.now)
    exact ⟨_, hlater.set (statement_within hs (le_max_right c reply.now)) hm
      (EmbeddingRun.defects_eq_nil.1 (hG.runs _ hr')).1⟩

section Schedule

variable {f : ℕ → Op} {n m : ℕ} {r : EmbeddingRun} (hdb : Good db) (hruns : db.runs = [])
  (hlegal : ∀ n, Legal (states cfg rc env db f n) (f n))
include hdb hlegal

theorem inv_at (n : ℕ) : Inv cfg env db (states cfg rc env db f n) := delivery_inv hdb (trace_run hlegal n)

theorem good_at (n : ℕ) : Good (states cfg rc env db f n).base.db :=
  run_good hdb (inv_at hdb hlegal n).base.embeddingRuns

omit hdb hlegal in
theorem follows : Follows (fun n => (states cfg rc env db f n).base) fun n => (f n).base? cfg (states cfg rc env db f n) :=
  fun _ => base_step _ _

/-- the commit of a step -/
abbrev commitAt (cfg : Config) (rc : RecoveryConfig) (env : Environment) (db : EmbeddingDb) (f : ℕ → Op) (n : ℕ) :
    Option ((EmbeddingDb → EmbeddingDb) × Reply) :=
  committed (states cfg rc env db f n).base ((f n).base? cfg (states cfg rc env db f n))

/-- **A step** leaves the tables, or commits a change. -/
theorem db_next (n : ℕ) : (states cfg rc env db f (n + 1)).base.db = (states cfg rc env db f n).base.db ∨
    ∃ w reply L, commitAt cfg rc env db f n = some (w, reply) ∧
      Change cfg reply L (states cfg rc env db f n).base.db (states cfg rc env db f (n + 1)).base.db := by
  have hnext : (states cfg rc env db f (n + 1)).base = ((f n).base? cfg (states cfg rc env db f n)).elim
    (states cfg rc env db f n).base (RowLock.step next (states cfg rc env db f n).base) := follows n
  cases ho : (f n).base? cfg (states cfg rc env db f n) with
  | none =>
    rw [ho, Option.elim_none] at hnext
    exact .inl (congrArg (·.db) hnext)
  | some o =>
    rw [ho, Option.elim_some] at hnext
    cases hc : committing (states cfg rc env db f n).base o with
    | none => exact .inl (by rw [hnext, step_db_none hc])
    | some c =>
      obtain ⟨L, -, hchange⟩ := commit_change hdb (inv_at hdb hlegal n).base.embeddingRuns hc
      refine .inr ⟨c.1, c.2, L, by simp [commitAt, committed, ho, hc], ?_⟩
      rw [hnext, step_db_some hc]
      exact hchange

include hruns in
theorem jobs_at (hmax : 1 ≤ cfg.maxAttempts) (n : ℕ) :
    ∀ r ∈ runsAt cfg rc env db f n, ∃ c, LeasedJob.Inv cfg.maxAttempts c r.toJob := by
  induction n with
  | zero => simp [runsAt, states, trace, init, Sys.init, hruns]
  | succ n ih =>
    rcases db_next hdb hlegal n with hsame | ⟨w, reply, L, -, hchange⟩
    · rw [runsAt, hsame]
      exact ih
    · exact jobs_change hmax hchange (good_at hdb hlegal (n + 1)) ih

theorem exists_row (hr : r ∈ runsAt cfg rc env db f n) (hm : n ≤ m) : ∃ r' ∈ runsAt cfg rc env db f m, r'.id = r.id := by
  induction m, hm using Nat.le_induction with
  | base => exact ⟨r, hr, rfl⟩
  | succ m hm ih =>
    obtain ⟨r', hr', hid⟩ := ih
    rcases db_next hdb hlegal m with hsame | ⟨w, reply, L, -, hchange⟩
    · exact ⟨r', by rw [runsAt, hsame]; exact hr', hid⟩
    · rcases row_next hchange hr' with hmem | ⟨s, -, -, -, hmem⟩
      · exact ⟨r', hmem, hid⟩
      · exact ⟨_, hmem, hid⟩

variable (hfair : Fair (states cfg rc env db f) f)
include hfair

/-- **Late commits** have late clock readings. -/
theorem late (T : Time) : ∃ N, ∀ n ≥ N, ∀ w reply, commitAt cfg rc env db f n = some (w, reply) →
    T ≤ reply.now ∧ T ≤ reply.t := by
  obtain ⟨m, hm⟩ := hfair.clocks T
  have hstart : ∀ k ≥ m, ∀ i q, (f k).base? cfg (states cfg rc env db f k) = some (.start i q) →
      q.Ends (fun reply : Reply => T ≤ reply.now ∧ T ≤ reply.t) fun reply => T ≤ reply.now ∧ T ≤ reply.t := by
    intro k hk i p hp
    obtain ⟨q, now, t, rfl, hnow, ht, -⟩ := base_start (inv_at hdb hlegal k).workers hp
    refine (ends_txn cfg now t q).mono ?_ ?_
    all_goals
      rintro reply ⟨-, rfl, rfl⟩
      exact ⟨hm k hk _ hnow, hm k hk _ ht⟩
  obtain ⟨N, -, hN⟩ := fresh_rule follows (fun _ => rfl) hstart
  exact ⟨N, hN⟩

/-- from some moment on no lease of the run is renewed -/
theorem no_heartbeat (x : Uuid) : ∃ N, ∀ n ≥ N, ∀ w reply, commitAt cfg rc env db f n = some (w, reply) →
    ∀ a, reply.request ≠ .heartbeat x a := by
  obtain ⟨m, hm⟩ := hfair.renewals x
  have hstart : ∀ k ≥ m, ∀ i q, (f k).base? cfg (states cfg rc env db f k) = some (.start i q) →
      q.Ends (fun reply : Reply => ∀ a, reply.request ≠ .heartbeat x a) fun reply => ∀ a, reply.request ≠ .heartbeat x a := by
    intro k hk i p hp
    obtain ⟨q, now, t, rfl, -, -, hheart⟩ := base_start (inv_at hdb hlegal k).workers hp
    have hne : ∀ a, q ≠ .heartbeat x a := by
      intro a ha
      obtain ⟨w, message, claim, ho, hw, hclaim, hid⟩ := hheart x a ha
      exact hm k hk w i now t message claim ho hw hclaim hid
    refine (ends_txn cfg now t q).mono ?_ ?_
    all_goals
      rintro reply ⟨rfl, -, -⟩
      exact hne
  obtain ⟨N, -, hN⟩ := fresh_rule follows (fun _ => rfl) hstart
  exact ⟨N, hN⟩

/-- **A row changes finitely often**: each statement but a heartbeat brings its run closer to the end. -/
theorem settled_row (hr : r ∈ runsAt cfg rc env db f n) :
    ∃ m ≥ n, Settled (fun k => (states cfg rc env db f k).base.db.findRun r.id) m := by
  obtain ⟨N, hN⟩ := no_heartbeat hdb hlegal hfair r.id
  have hnext : ∀ k ≥ max n N, (states cfg rc env db f (k + 1)).base.db.findRun r.id =
      (states cfg rc env db f k).base.db.findRun r.id ∨
      remainingOf cfg.maxAttempts ((states cfg rc env db f (k + 1)).base.db.findRun r.id) <
        remainingOf cfg.maxAttempts ((states cfg rc env db f k).base.db.findRun r.id) := by
    intro k hk
    obtain ⟨r₁, hr₁, hid⟩ := exists_row hdb hlegal hr ((le_max_left n N).trans hk)
    have hold := (findRun_eq (good_at hdb hlegal k)).2 ⟨hr₁, hid⟩
    rcases db_next hdb hlegal k with hsame | ⟨w, reply, L, hc, hchange⟩
    · exact .inl (by simp only [hsame])
    · rcases row_next hchange hr₁ with hmem | ⟨s, hs, hnames, hmatches, hmem⟩
      · have hnew := (findRun_eq (good_at hdb hlegal (k + 1))).2 ⟨hmem, hid⟩
        exact .inl (hnew.trans hold.symm)
      · have hnew := (findRun_eq (good_at hdb hlegal (k + 1))).2 ⟨hmem, hid⟩
        have hheart : ∀ a l t, s ≠ .heartbeat a l t := by
          rintro a l t rfl
          obtain ⟨y, a', hq⟩ := heartbeat_of_statement hs
          have hy : y = r₁.id := hnames y (by rw [hq]; rfl)
          exact hN k ((le_max_right n N).trans hk) w reply hc a' (by rw [hq, hy, hid])
        rw [hnew, hold]
        exact .inr (remaining_set (statement_within hs le_rfl) hmatches hheart)
  obtain ⟨m, hm, hsettled⟩ := eventually_const (f := fun k => (states cfg rc env db f k).base.db.findRun r.id)
    (remainingOf cfg.maxAttempts) hnext
  exact ⟨m, (le_max_left n N).trans hm, hsettled⟩

omit hfair in
/-- rows that stay as they are -/
theorem stuck_of_settled {x : Uuid} (h : Settled (fun k => (states cfg rc env db f k).base.db.findRun x) m)
    (hr : r ∈ runsAt cfg rc env db f m) (hid : r.id = x) : ∀ k ≥ m, r ∈ runsAt cfg rc env db f k := by
  intro k hk
  have hnow := (findRun_eq (good_at hdb hlegal m)).2 ⟨hr, hid⟩
  exact ((findRun_eq (good_at hdb hlegal k)).1 ((h k hk).trans hnow)).1

/-- rows of a kind that is not added to stay as they are from some moment on -/
theorem stock_settles {P : EmbeddingRun → Prop} {N : ℕ} (hstep : ∀ n ≥ N, ∀ r' ∈ runsAt cfg rc env db f (n + 1), P r' →
    ∃ r ∈ runsAt cfg rc env db f n, r.id = r'.id ∧ P r) :
    ∃ M ≥ N, ∀ n ≥ M, ∀ r ∈ runsAt cfg rc env db f n, P r → ∀ k ≥ n, r ∈ runsAt cfg rc env db f k := by
  have hstock : ∀ n ≥ N, ∀ r ∈ runsAt cfg rc env db f n, P r → ∃ r₀ ∈ runsAt cfg rc env db f N, r₀.id = r.id := by
    intro n hn
    induction n, hn using Nat.le_induction with
    | base => exact fun r hr _ => ⟨r, hr, rfl⟩
    | succ n hn ih =>
      intro r' hr' hP'
      obtain ⟨r, hr, hid, hP⟩ := hstep n hn r' hr' hP'
      obtain ⟨r₀, hr₀, hid₀⟩ := ih r hr hP
      exact ⟨r₀, hr₀, hid₀.trans hid⟩
  have hsettled : ∀ r₀ ∈ runsAt cfg rc env db f N,
      ∃ m, Settled (fun k => (states cfg rc env db f k).base.db.findRun r₀.id) m := fun r₀ hr₀ => by
    obtain ⟨m, -, hm⟩ := settled_row hdb hlegal hfair hr₀
    exact ⟨m, hm⟩
  obtain ⟨M, hM, hall⟩ := exists_settled (f := fun (r₀ : EmbeddingRun) k =>
    (states cfg rc env db f k).base.db.findRun r₀.id) hsettled N
  refine ⟨M, hM, fun n hn r hr hP => ?_⟩
  obtain ⟨r₀, hr₀, hid⟩ := hstock n (hM.trans hn) r hr hP
  exact stuck_of_settled hdb hlegal ((hall r₀ hr₀).later hn) hr hid.symm

end Schedule

/-! ## No run is left behind -/

section Moves

variable {f : ℕ → Op} {n m : ℕ} {r : EmbeddingRun}

/-- the session that an answer ends -/
theorem Answered.session {i e : ℕ} {reply : Reply} {p : Tx} (h : Answered (states cfg rc env db f) f i m e reply)
    (hp : (f m).base? cfg (states cfg rc env db f m) = some (.start i p)) :
    Session (fun n => (states cfg rc env db f n).base) (fun n => (f n).base? cfg (states cfg rc env db f n)) i m e p
      reply := by
  obtain ⟨lost, hexec⟩ := h.exec
  exact ⟨hp, h.lt, h.opens, h.isOpen, by simp only [hexec]; rfl, h.ends⟩

variable (hdb : Good db) (hruns : db.runs = []) (hlegal : ∀ n, Legal (states cfg rc env db f n) (f n))
  (hfair : Fair (states cfg rc env db f) f)
include hdb hlegal hfair

/-- **A row that is dispatched** while it can be claimed does not stay as it is. -/
theorem claimed_moves (hlease : 0 < cfg.leaseDuration) (hstuck : ∀ k ≥ n, r ∈ runsAt cfg rc env db f k)
    (hopen : r.completedAt = none) (hclaim : ∀ k ≥ n, ∀ t ∈ (f k).times, r.Claimable cfg.maxAttempts t)
    (hq : r.id ∈ (states cfg rc env db f n).queue) : False := by
  obtain ⟨m, hm, w, i, now, t, e, reply, message, ho, hw, hcall, hrequest, hanswered⟩ := hfair.claims n r.id hq
  have hbase : (f m).base? cfg (states cfg rc env db f m) = some (.start i ((Request.claim r.id).txn cfg now t)) := by
    simp only [ho, Op.base?, hw, hanswered.opens, hcall, hrequest]
  have hyields := claim_yields now hlease hopen (hclaim m hm t (by simp [ho, Op.times]))
  have hgone := yields_rule follows (hanswered.session hbase) hyields
    (fun k hk _ => ⟨good_at hdb hlegal k, hstuck k (hm.trans hk)⟩) trivial
  exact hgone (hstuck (e + 1) (by have := hanswered.lt; omega))

/-- **A row out of attempts** does not stay as it is. -/
theorem exhausted_moves (hstuck : ∀ k ≥ n, r ∈ runsAt cfg rc env db f k)
    (hex : ∀ k ≥ n, ∀ t ∈ (f k).times, r.Exhausted cfg.maxAttempts t) : False := by
  obtain ⟨m, hm, i, now, t, e, reply, ho, hanswered, hreaped⟩ := hfair.reaps n
  have hbase : (f m).base? cfg (states cfg rc env db f m) = some (.start i (Request.reapExpiredRuns.txn cfg now t)) := by
    simp only [ho, Op.base?, hanswered.opens]
  have hyields := reap_yields now (hex m hm t (by simp [ho, Op.times]))
  have hgone := yields_rule follows (hanswered.session hbase) hyields
    (fun k hk _ => ⟨good_at hdb hlegal k, hstuck k (hm.trans hk)⟩) hreaped
  exact hgone (hstuck (e + 1) (by have := hanswered.lt; omega))

include hruns

/-- **A pending run** does not stay so. -/
theorem pending_moves (hmax : 1 ≤ cfg.maxAttempts) (hlease : 0 < cfg.leaseDuration)
    (hstuck : ∀ k ≥ n, r ∈ runsAt cfg rc env db f k) (hpending : r.status = .pending) : False := by
  obtain ⟨N, hN⟩ := late hdb hlegal hfair (r.createdAt + 1)
  -- no run that is created late comes before this one
  obtain ⟨M, hM, hsettled⟩ := stock_settles hdb hlegal hfair (P := fun x => x.createdAt ≤ r.createdAt) (N := N)
    fun k hk x' hx' hle => by
      rcases db_next hdb hlegal k with hsame | ⟨w, reply, L, hc, hchange⟩
      · exact ⟨x', by rw [runsAt, ← hsame]; exact hx', rfl, hle⟩
      · rcases row_cases hchange hx' with hx | ⟨y, item, model, configuration, by', rfl⟩ | ⟨x, hx, s, -, -, rfl⟩
        · exact ⟨x', hx, rfl, hle⟩
        · have hlate := (hN k hk w reply hc).2
          have hle' : reply.t ≤ r.createdAt := hle
          linarith
        · exact ⟨x, hx, rfl, hle⟩
  obtain ⟨K, hK⟩ := hfair.clocks (r.createdAt + rc.pendingAge)
  obtain ⟨m, hm, now, accepted, ho, haccepted⟩ := hfair.pendings (max n (max M K))
  have hnow : r.createdAt + rc.pendingAge ≤ now := hK m (by omega) now (by simp [ho, Op.times])
  have hr : r ∈ (runsAt cfg rc env db f m).filter fun x => x.status = .pending ∧ x.createdAt ≤ now - rc.pendingAge :=
    List.mem_filter.2 ⟨hstuck m (by omega), by simp [hpending, le_sub_iff_add_le.2 hnow]⟩
  obtain ⟨h, hmem, hle⟩ := exists_first (fun x : EmbeddingRun => x.createdAt) hr rc.batchSize_pos
  have hbatch : h ∈ (runsAt cfg rc env db f m).filter _ := (List.mem_insertionSort _).1 (List.mem_of_mem_take hmem)
  obtain ⟨hh, hstatus⟩ := List.mem_filter.1 hbatch
  have hp : h.status = .pending := (of_decide_eq_true hstatus).1
  obtain ⟨c, hjob⟩ := jobs_at hdb hruns hlegal hmax m h hh
  have hstuck' : ∀ k ≥ m + 1, h ∈ runsAt cfg rc env db f k := fun k hk => hsettled m (by omega) h hh hle k (by omega)
  refine claimed_moves hdb hlegal hfair hlease hstuck' (hjob.open' (by simp [hp, Status.Terminal]))
    (fun _ _ _ _ => ⟨hjob.pending hp, .inl hp⟩) ?_
  have hqueue : (states cfg rc env db f (m + 1)).queue = (states cfg rc env db f m).queue ++
      (((states cfg rc env db f m).base.db.findStalePendingRuns (now - rc.pendingAge) rc.batchSize).map (·.id)).filter
        (accepted ·) := by
    rw [states, trace, ho]
    rfl
  rw [hqueue, List.mem_append, List.mem_filter]
  exact .inr ⟨List.mem_map_of_mem hmem, haccepted _⟩

/-- **A running run** does not stay so. -/
theorem running_moves (hmax : 1 ≤ cfg.maxAttempts) (hlease : 0 < cfg.leaseDuration)
    (hstuck : ∀ k ≥ n, r ∈ runsAt cfg rc env db f k) (hrunning : r.status = .running) : False := by
  have lease_of : ∀ k, ∀ x ∈ runsAt cfg rc env db f k, x.status = .running → ∃ l, x.leaseExpiresAt = some l := by
    intro k x hx hrun
    obtain ⟨c, hjob⟩ := jobs_at hdb hruns hlegal hmax k x hx
    exact Option.isSome_iff_exists.1 (hjob.checks.runningRequiresClaim hrun).2.2
  obtain ⟨l, hl⟩ := lease_of n r (hstuck n le_rfl) hrunning
  obtain ⟨N, hN⟩ := late hdb hlegal hfair l
  -- no lease that is written late ends before this one
  obtain ⟨M, hM, hsettled⟩ := stock_settles hdb hlegal hfair (P := fun x => ∃ l' ∈ x.leaseExpiresAt, l' ≤ l) (N := N)
    fun k hk x' hx' hle => by
      rcases db_next hdb hlegal k with hsame | ⟨w, reply, L, hc, hchange⟩
      · exact ⟨x', by rw [runsAt, ← hsame]; exact hx', rfl, hle⟩
      · rcases row_cases hchange hx' with hx | ⟨y, item, model, configuration, by', rfl⟩ | ⟨x, hx, s, hs, -, rfl⟩
        · exact ⟨x', hx, rfl, hle⟩
        · obtain ⟨l', hl', -⟩ := hle
          cases hl'
        · obtain ⟨l', hl', hle'⟩ := hle
          have hlate := (hN k hk w reply hc).1
          rw [lease_of_statement hs l' hl'] at hle'
          linarith
  obtain ⟨K, hK⟩ := hfair.clocks l
  obtain ⟨m, hm, t, accepted, ho, haccepted⟩ := hfair.expireds (max n (max M K))
  have ht : l ≤ t := hK m (by omega) t (by simp [ho, Op.times])
  have hr : r ∈ (runsAt cfg rc env db f m).filter fun x => x.status = .running ∧ x.Expired t :=
    List.mem_filter.2 ⟨hstuck m (by omega), decide_eq_true ⟨hrunning, l, hl, ht⟩⟩
  obtain ⟨h, hmem, hle⟩ := exists_first (fun x : EmbeddingRun => x.leaseExpiresAt.getD 0) hr rc.batchSize_pos
  have hbatch : h ∈ (runsAt cfg rc env db f m).filter _ := (List.mem_insertionSort _).1 (List.mem_of_mem_take hmem)
  obtain ⟨hh, hstatus⟩ := List.mem_filter.1 hbatch
  obtain ⟨hrun, -⟩ : h.status = .running ∧ h.Expired t := of_decide_eq_true hstatus
  obtain ⟨l', hl'⟩ := lease_of m h hh hrun
  have hle' : l' ≤ l := by simpa [hl, hl'] using hle
  have hexpired : ∀ k ≥ m + 1, ∀ t ∈ (f k).times, h.Expired t := fun k hk t ht =>
    ⟨l', hl', hle'.trans (hK k (by omega) t ht)⟩
  obtain ⟨c, hjob⟩ := jobs_at hdb hruns hlegal hmax m h hh
  have hstuck' : ∀ k ≥ m + 1, h ∈ runsAt cfg rc env db f k := fun k hk =>
    hsettled m (by omega) h hh ⟨l', hl', hle'⟩ k (by omega)
  by_cases hattempts : h.attemptCount < cfg.maxAttempts
  · refine claimed_moves hdb hlegal hfair hlease hstuck' (hjob.open' (by simp [hrun, Status.Terminal]))
      (fun k hk t ht => ⟨hattempts, .inr ⟨hrun, hexpired k hk t ht⟩⟩) ?_
    have hqueue : (states cfg rc env db f (m + 1)).queue = (states cfg rc env db f m).queue ++
        (((states cfg rc env db f m).base.db.findExpiredRuns rc.batchSize t).map (·.id)).filter (accepted ·) := by
      rw [states, trace, ho]
      rfl
    rw [hqueue, List.mem_append, List.mem_filter]
    exact .inr ⟨List.mem_map_of_mem hmem, haccepted _⟩
  · exact exhausted_moves hdb hlegal hfair hstuck' fun k hk t ht => ⟨hrun, hexpired k hk t ht, not_lt.1 hattempts⟩

end Moves

/-- **Every embedding run comes to an end.** On every schedule of the system that goes on forever and is fair, from tables
without runs, with at least one attempt allowed and leases of positive length, each run that is ever created is at some
moment completed or failed, and its row stays as it is from then on. The batches of the recovery task may be smaller than
the number of runs that are due. -/
theorem delivered_eventually (cfg : Config) (rc : RecoveryConfig) (env : Environment) (db : EmbeddingDb)
    (hmax : 1 ≤ cfg.maxAttempts) (hlease : 0 < cfg.leaseDuration) (hchunks : (db.chunks.map (·.id)).Nodup)
    (hruns : db.runs = []) (hvectors : db.embeddings = []) (f : ℕ → Op)
    (hlegal : ∀ n, Legal (states cfg rc env db f n) (f n)) (hfair : Fair (states cfg rc env db f) f) :
    ∀ n, ∀ r ∈ runsAt cfg rc env db f n, ∃ m ≥ n, ∃ r', r'.id = r.id ∧ r'.status.Terminal ∧
      ∀ k ≥ m, r' ∈ runsAt cfg rc env db f k := by
  intro n r hr
  have hG : Good db := ⟨hchunks, by simp [hruns], by simp [hruns], by simp [hruns], by simp [hvectors], by simp [hvectors]⟩
  obtain ⟨m, hm, hsettled⟩ := settled_row hG hlegal hfair hr
  obtain ⟨r', hr', hid⟩ := exists_row hG hlegal hr hm
  have hstuck := stuck_of_settled hG hlegal hsettled hr' hid
  refine ⟨m, hm, r', hid, ?_, hstuck⟩
  cases hstatus : r'.status with
  | pending => exact (pending_moves hG hruns hlegal hfair hmax hlease hstuck hstatus).elim
  | running => exact (running_moves hG hruns hlegal hfair hmax hlease hstuck hstatus).elim
  | completed => exact .inl rfl
  | failed => exact .inr rfl

/-! ### A schedule that goes on forever -/

/-- the passes of the recovery task, one step at a time -/
def idle (n : ℕ) : Op :=
  match n % 6 with
  | 0 => .reapExpiredRuns 3 n n
  | 4 => .redispatchPending n fun _ => true
  | 5 => .redispatchExpired n fun _ => true
  | _ => .exec 3 false

/-- the run 100 is served, and then nothing is left to do -/
def servedForever (n : ℕ) : Op := (served[n]?).getD (idle n)

section Idle

variable {s : St} {i : ℕ}

/-- a statement that locks nothing -/
theorem exec_stmt {rows : EmbeddingDb → List EmbeddingRow} {k : EmbeddingDb → Tx}
    (h : s.base.sessions i = some (.stmt rows k)) (hrows : rows s.base.db = []) :
    let s' := step cfg rc env s (.exec i false)
    s'.base.sessions i = some (k s.base.db) ∧ s'.base.db = s.base.db ∧ s'.queue = s.queue := by
  have hending : Transaction.ending s.base (.exec i) = none := by simp [ending, h]
  simp only [step, hending]
  simp [RowLock.step, h, next, hrows, Sys.lock]

theorem exec_rollback {reply : Reply} (h : s.base.sessions i = some (.rollback reply)) :
    let s' := step cfg rc env s (.exec i false)
    s'.base.sessions i = none ∧ s'.base.db = s.base.db ∧ s'.queue = s.queue := by
  have hending : Transaction.ending s.base (.exec i) = some reply := by simp [ending, h]
  simp only [step, hending]
  simp [RowLock.step, h, next, Sys.close, St.answer]

/-- all runs are terminal, and nothing is under way -/
structure Idle (s : St) : Prop where
  runs : ∀ r ∈ s.base.db.runs, r.status.Terminal
  session : s.base.sessions 3 = none
  queue : s.queue = []

theorem Idle.of_same {s' : St} (h : Idle s) (hdb : s'.base.db = s.base.db) (hsession : s'.base.sessions 3 = none)
    (hqueue : s'.queue = s.queue) : Idle s' := ⟨hdb ▸ h.runs, hsession, hqueue.trans h.queue⟩

/-- **A reap** of terminal runs finds nothing. -/
theorem idle_reap (cfg : Config) (rc : RecoveryConfig) (env : Environment) (h : Idle s) (T : Time) :
    let s₁ := step cfg rc env s (.reapExpiredRuns 3 T T)
    let s₂ := step cfg rc env s₁ (.exec 3 false)
    let s₃ := step cfg rc env s₂ (.exec 3 false)
    (s₁.base.sessions 3 ≠ none ∧ s₂.base.sessions 3 ≠ none ∧
      s₃.base.sessions 3 = some (.rollback ⟨.reapExpiredRuns, T, T, .reaped 0⟩)) ∧
    (s₁.queue = [] ∧ s₂.queue = [] ∧ s₃.queue = []) ∧ Idle (step cfg rc env s₃ (.exec 3 false)) := by
  intro s₁ s₂ s₃
  have hstart : s₁ = s.start 3 (Request.reapExpiredRuns.txn cfg T T) T := by
    simp only [s₁, step, h.session]
  have h₁ : s₁.base.sessions 3 = some (Request.reapExpiredRuns.txn cfg T T) := by
    simp [hstart, St.start, RowLock.step, h.session]
  have hdb₁ : s₁.base.db = s.base.db := by simp [hstart, St.start, RowLock.step, h.session]
  have hq₁ : s₁.queue = s.queue := by rw [hstart]; rfl
  obtain ⟨h₂, hdb₂, hq₂⟩ : s₂.base.sessions 3 = _ ∧ s₂.base.db = s₁.base.db ∧ s₂.queue = s₁.queue := exec_stmt h₁ rfl
  have hnone : ∀ ids, s₂.base.db.matching ids (.failExhausted T cfg.maxAttempts MAX_ATTEMPTS_EXCEEDED T) = [] := by
    intro ids
    rw [EmbeddingDb.matching, List.filter_eq_nil_iff]
    intro r hr hm
    have hterminal : r.status.Terminal := h.runs r (hdb₁ ▸ hdb₂ ▸ hr)
    have hmatches : r.status = .running := (of_decide_eq_true hm).2.1
    simp [hmatches, Status.Terminal] at hterminal
  obtain ⟨h₃, hdb₃, hq₃⟩ : s₃.base.sessions 3 = _ ∧ s₃.base.db = s₂.base.db ∧ s₃.queue = s₂.queue :=
    exec_stmt h₂ (by rw [hnone]; rfl)
  have hend : s₃.base.sessions 3 = some (.rollback ⟨.reapExpiredRuns, T, T, .reaped 0⟩) := by
    rw [h₃, updateWhere_accepted fun r hr => by rw [hnone] at hr; cases hr]
    simp only [hnone]
    rfl
  let s₄ := step cfg rc env s₃ (.exec 3 false)
  obtain ⟨h₄, hdb₄, hq₄⟩ : s₄.base.sessions 3 = none ∧ s₄.base.db = s₃.base.db ∧ s₄.queue = s₃.queue := exec_rollback hend
  refine ⟨⟨by simp [h₁], by rw [h₂]; simp, hend⟩, ⟨hq₁.trans h.queue, (hq₂.trans hq₁).trans h.queue,
    ((hq₃.trans hq₂).trans hq₁).trans h.queue⟩, ?_⟩
  exact h.of_same (((hdb₄.trans hdb₃).trans hdb₂).trans hdb₁) h₄ (((hq₄.trans hq₃).trans hq₂).trans hq₁)

theorem idle_redispatchPending (h : Idle s) (now : Time) (accepted : Uuid → Bool) :
    Idle (step cfg rc env s (.redispatchPending now accepted)) := by
  have hnone : s.base.db.findStalePendingRuns (now - rc.pendingAge) rc.batchSize = [] := by
    have hfilter : (s.base.db.runs.filter fun r => r.status = .pending ∧ r.createdAt ≤ now - rc.pendingAge) = [] := by
      rw [List.filter_eq_nil_iff]
      intro r hr hm
      have hterminal := h.runs r hr
      simp [(of_decide_eq_true hm).1, Status.Terminal] at hterminal
    rw [EmbeddingDb.findStalePendingRuns, hfilter]
    simp
  exact h.of_same rfl h.session (by simp [step, St.send, hnone])

theorem idle_redispatchExpired (h : Idle s) (t : Time) (accepted : Uuid → Bool) :
    Idle (step cfg rc env s (.redispatchExpired t accepted)) := by
  have hnone : s.base.db.findExpiredRuns rc.batchSize t = [] := by
    have hfilter : (s.base.db.runs.filter fun r => r.status = .running ∧ r.Expired t) = [] := by
      rw [List.filter_eq_nil_iff]
      intro r hr hm
      have hterminal := h.runs r hr
      simp [(of_decide_eq_true hm).1, Status.Terminal] at hterminal
    rw [EmbeddingDb.findExpiredRuns, hfilter]
    simp
  exact h.of_same rfl h.session (by simp [step, St.send, hnone])

end Idle

section Served

/-- the states of the schedule -/
abbrev servedAt (n : ℕ) : St := states oneAttempt recovery oneEnvironment oneChunk servedForever n

theorem servedForever_eq {n : ℕ} (hn : 19 ≤ n) : servedForever n = idle n := by
  have hnone : served[n]? = none := List.getElem?_eq_none hn
  rw [servedForever, hnone, Option.getD_none]

theorem servedAt_succ (n : ℕ) : servedAt (n + 1) = step oneAttempt recovery oneEnvironment (servedAt n) (servedForever n) :=
  rfl

/-- **One period**, of a reap and the two batches. -/
theorem period (k : ℕ) (h : Idle (servedAt (24 + 6 * k))) :
    Answered servedAt servedForever 3 (24 + 6 * k) (24 + 6 * k + 3)
      ⟨.reapExpiredRuns, (24 + 6 * k : ℕ), (24 + 6 * k : ℕ), .reaped 0⟩ ∧
    (∀ j < 6, (servedAt (24 + 6 * k + j)).queue = []) ∧ Idle (servedAt (24 + 6 * (k + 1))) := by
  have op : ∀ j, servedForever (24 + 6 * k + j) = idle (24 + 6 * k + j) := fun j => servedForever_eq (by omega)
  have mod : ∀ j < 6, (24 + 6 * k + j) % 6 = j := fun j hj => by omega
  generalize hn : 24 + 6 * k = n at h op mod ⊢
  have ho₀ : servedForever n = .reapExpiredRuns 3 n n := (op 0).trans (by simp [idle, show n % 6 = 0 from mod 0 (by omega)])
  have ho₁ : servedForever (n + 1) = .exec 3 false := (op 1).trans (by simp [idle, mod 1 (by omega)])
  have ho₂ : servedForever (n + 2) = .exec 3 false := (op 2).trans (by simp [idle, mod 2 (by omega)])
  have ho₃ : servedForever (n + 3) = .exec 3 false := (op 3).trans (by simp [idle, mod 3 (by omega)])
  have ho₄ : servedForever (n + 4) = .redispatchPending ((n + 4 : ℕ) : Time) fun _ => true :=
    (op 4).trans (by simp [idle, mod 4 (by omega)])
  have ho₅ : servedForever (n + 5) = .redispatchExpired ((n + 5 : ℕ) : Time) fun _ => true :=
    (op 5).trans (by simp [idle, mod 5 (by omega)])
  obtain ⟨⟨hs₁, hs₂, hs₃⟩, ⟨hq₁, hq₂, hq₃⟩, h₄⟩ := idle_reap oneAttempt recovery oneEnvironment h n
  have e₁ := ho₀ ▸ servedAt_succ n
  have e₂ := ho₁ ▸ servedAt_succ (n + 1)
  have e₃ := ho₂ ▸ servedAt_succ (n + 2)
  have e₄ := ho₃ ▸ servedAt_succ (n + 3)
  rw [← e₁] at hs₁ hs₂ hs₃ hq₁ hq₂ hq₃ h₄
  rw [← e₂] at hs₂ hs₃ hq₂ hq₃ h₄
  rw [← e₃] at hs₃ hq₃ h₄
  rw [← e₄] at h₄
  have h₅ : Idle (servedAt (n + 5)) := by
    rw [servedAt_succ, ho₄]
    exact idle_redispatchPending h₄ _ _
  have h₆ : Idle (servedAt (n + 6)) := by
    rw [servedAt_succ, ho₅]
    exact idle_redispatchExpired h₅ _ _
  have hnext : 24 + 6 * (k + 1) = n + 6 := by omega
  rw [hnext]
  refine ⟨⟨by omega, h.session, fun j hj hle => ?_, ⟨false, ho₃⟩, by simp [ending, hs₃]⟩, fun j hj => ?_, h₆⟩
  · obtain rfl | rfl | rfl : j = n + 1 ∨ j = n + 2 ∨ j = n + 3 := by omega
    · exact hs₁
    · exact hs₂
    · rw [hs₃]
      simp
  · obtain rfl | rfl | rfl | rfl | rfl | rfl : j = 0 ∨ j = 1 ∨ j = 2 ∨ j = 3 ∨ j = 4 ∨ j = 5 := by omega
    · exact h.queue
    · exact hq₁
    · exact hq₂
    · exact hq₃
    · exact h₄.queue
    · exact h₅.queue

theorem idle_at (k : ℕ) : Idle (servedAt (24 + 6 * k)) := by
  induction k with
  | zero =>
    have hsession : ((servedAt 24).base.sessions 3).isNone = true := by decide +kernel
    exact ⟨by decide +kernel, Option.isNone_iff_eq_none.1 hsession, by decide +kernel⟩
  | succ k ih => exact (period k ih).2.2

/-- the queue is empty but for the one message -/
theorem queue_at {n : ℕ} (hn : n ≠ 6) : (servedAt n).queue = [] := by
  by_cases hlt : n < 24
  · have hall : ∀ n < 24, n ≠ 6 → (servedAt n).queue = [] := by decide +kernel
    exact hall n hlt hn
  · obtain ⟨k, j, hj, rfl⟩ : ∃ k j, j < 6 ∧ n = 24 + 6 * k + j := ⟨(n - 24) / 6, (n - 24) % 6, by omega, by omega⟩
    exact (period k (idle_at k)).2.1 j hj

/-- the message is claimed -/
theorem claim_answered : ∃ reply, Answered servedAt servedForever 1 7 9 reply := by
  have hsome : (ending (servedAt 9).base (.exec 1)).isSome = true := by decide +kernel
  obtain ⟨reply, hreply⟩ := Option.isSome_iff_exists.1 hsome
  have hnone : ((servedAt 7).base.sessions 1).isNone = true := by decide +kernel
  refine ⟨reply, by omega, Option.isNone_iff_eq_none.1 hnone, fun k hk hle => ?_, ⟨false, rfl⟩, hreply⟩
  have hopen : ∀ k ≤ 9, 7 < k → ((servedAt k).base.sessions 1).isSome = true := by decide +kernel
  exact Option.isSome_iff_ne_none.1 (hopen k hle hk)

theorem served_fair : Fair servedAt servedForever where
  clocks T := by
    refine ⟨max 24 T.toNat, fun k hk t ht => ?_⟩
    rw [servedForever_eq (by omega)] at ht
    have heq : t = k := by
      unfold idle at ht
      split at ht
      all_goals simp [Op.times] at ht
      all_goals exact ht
    have hT : T.toNat ≤ k := (le_max_right 24 _).trans hk
    rw [heq]
    exact (Int.self_le_toNat T).trans (Int.ofNat_le.2 hT)
  reaps n := by
    obtain ⟨hanswered, -, -⟩ := period n (idle_at n)
    refine ⟨24 + 6 * n, by omega, 3, ((24 + 6 * n : ℕ) : Time), ((24 + 6 * n : ℕ) : Time), _, _, ?_, hanswered, 0, rfl⟩
    rw [servedForever_eq (by omega), idle, show (24 + 6 * n) % 6 = 0 by omega]
    rfl
  pendings n := by
    refine ⟨24 + 6 * n + 4, by omega, ((24 + 6 * n + 4 : ℕ) : Time), fun _ => true, ?_, fun _ => rfl⟩
    rw [servedForever_eq (by omega), idle, show (24 + 6 * n + 4) % 6 = 4 by omega]
    rfl
  expireds n := by
    refine ⟨24 + 6 * n + 5, by omega, ((24 + 6 * n + 5 : ℕ) : Time), fun _ => true, ?_, fun _ => rfl⟩
    rw [servedForever_eq (by omega), idle, show (24 + 6 * n + 5) % 6 = 5 by omega]
    rfl
  claims n x hx := by
    by_cases hn : n = 6
    · subst hn
      have hqueue : (servedAt 6).queue = [100] := by decide +kernel
      rw [hqueue, List.mem_singleton] at hx
      subst hx
      obtain ⟨reply, hreply⟩ := claim_answered
      exact ⟨7, by omega, 0, 1, 6, 6, 9, reply, ⟨100, .claiming, none, none⟩, rfl, rfl, rfl, rfl, hreply⟩
    · rw [queue_at hn] at hx
      cases hx
  renewals x := by
    refine ⟨19, fun k hk w i now t message claim ho => ?_⟩
    rw [servedForever_eq hk] at ho
    unfold idle at ho
    split at ho
    all_goals cases ho

theorem clock_step (cfg : Config) (rc : RecoveryConfig) (env : Environment) (s : St) (o : Op) :
    (step cfg rc env s o).clock = s.clock ∨ o.dbTime? = some (step cfg rc env s o).clock := by
  cases o with
  | _ =>
    simp only [step]
    repeat' split
    all_goals first
      | exact .inl rfl
      | exact .inr rfl

theorem servedForever_legal (n : ℕ) : Legal (servedAt n) (servedForever n) := by
  by_cases hlt : n < 24
  · have hall : ∀ n < 24, Legal (servedAt n) (servedForever n) := by decide +kernel
    exact hall n hlt
  · have htime : ∀ n ≥ 24, ∀ t ∈ (servedForever n).dbTime?, t = n := by
      intro n hn t ht
      rw [servedForever_eq (by omega)] at ht
      unfold idle at ht
      split at ht
      all_goals simp [Op.dbTime?] at ht
      all_goals exact ht.symm
    have hclock : ∀ n ≥ 24, (servedAt n).clock ≤ n := by
      intro n hn
      induction n, hn using Nat.le_induction with
      | base => decide +kernel
      | succ n hn ih =>
        rw [servedAt_succ]
        rcases clock_step oneAttempt recovery oneEnvironment (servedAt n) (servedForever n) with hsame | htold
        · rw [hsame]
          exact ih.trans (Int.ofNat_le.2 n.le_succ)
        · rw [htime n hn _ htold]
          exact Int.ofNat_le.2 n.le_succ
    intro t ht
    rw [htime n (by omega) t ht]
    exact hclock n (by omega)

/-- the run that is created first is terminal in the end -/
theorem delivered_eventually_served :
    (∃ r ∈ runsAt oneAttempt recovery oneEnvironment oneChunk servedForever 5, r.id = 100 ∧ r.status = .pending) ∧
      ∃ m ≥ 5, ∃ r', r'.id = 100 ∧ r'.status.Terminal ∧
        ∀ k ≥ m, r' ∈ runsAt oneAttempt recovery oneEnvironment oneChunk servedForever k := by
  have hpending : ∃ r ∈ runsAt oneAttempt recovery oneEnvironment oneChunk servedForever 5, r.id = 100 ∧
      r.status = .pending := by decide +kernel
  refine ⟨hpending, ?_⟩
  obtain ⟨r, hr, hid, -⟩ := hpending
  have hend := delivered_eventually oneAttempt recovery oneEnvironment oneChunk (by decide) (by decide) (by decide) rfl rfl
    servedForever servedForever_legal served_fair 5 r hr
  rw [hid] at hend
  exact hend

end Served

end AtlasRag.Embedding.Delivery
