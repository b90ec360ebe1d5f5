/-
Delivery of embedding runs: the clients, the broker, the workers that run `EmbeddingJobHandler.handle`, and the recovery
task, over the interleaved transactions of `Embedding.Transactions`.

A message is in the queue or held by the worker that handles it; it is gone when the handler returns or raises, and back
in the queue when the worker process dies. Each call of the lifecycle service is a session of the database, and its
statements take turns with those of all others. A caller may be gone when its session ends: a handler that loses its lease
cancels the processor, whose session may be aborted or commit. A call may fail without an effect, or after its commit. The
dispatch that follows a commit may fail, or never be made.

What a processor reads does not change while it runs, so its reads are one step. The database clock does not run backwards;
the readings of the other clocks are arbitrary.

Results:
- `delivery_inv`: the database goes through a run of legal embedding transactions;
- `delivered_vectors`: the vectors of a completed pair are what the batcher returned for the chunks of its item, rounded to
  single precision (`delivered_vectors_served`: a run that is served);
- `delivered_texts`: no text of an exception is ever stored (`delivered_texts_refused`: a provider that refuses).

Premises of both: at first there are no runs and no vectors, and the chunks have distinct ids; the database clock does not run
backwards. A number that the vector column does not take makes its session fail, as any other fault of the database does.
-/
import AtlasRag.Embedding.Recovery
import AtlasRag.Embedding.Worker

namespace AtlasRag.Embedding.Delivery

open AtlasRag.Lib AtlasRag.Lib.LeasedJob AtlasRag.Lib.RowLock AtlasRag.Lib.Table AtlasRag.Lib.Transaction
open AtlasRag.Platform AtlasRag.Ingestion DefaultEmbeddingProcessor

/-! ## Model -/

/-- what the handler does with the message it holds -/
inductive Phase where
  | claiming
  | running (claim : ClaimedEmbeddingRun)
  /-- the processor makes its completing call -/
  | completing (claim : ClaimedEmbeddingRun) (c : Completion)
  /-- the processor has raised; the handler makes the call of its branch -/
  | ending (q : Request)

/-- a message a worker holds, and the sessions of the call and the renewal that it waits for -/
structure Message where
  runId : Uuid
  phase : Phase
  call : Option ℕ
  renewal : Option ℕ

namespace Message

/-- the call that the handler makes next -/
def request (m : Message) : Option Request :=
  match m.phase with
  | .claiming => some (.claim m.runId)
  | .running _ => none
  | .completing _ c => some (.persistVectorsAndMarkCompleted c)
  | .ending q => some q

/-- the claim that the processor works on -/
def claim? (m : Message) : Option ClaimedEmbeddingRun :=
  match m.phase with
  | .running claim => some claim
  | .completing claim _ => some claim
  | _ => none

/-- the processor raises; the heartbeat is cancelled -/
def raise (m : Message) (claim : ClaimedEmbeddingRun) (e : WorkerError) : Option Message :=
  (branch claim e).map fun q => ⟨m.runId, .ending q, none, none⟩

/-- the answer to the call; `none` is an exception -/
def answered (m : Message) (o : Option Outcome) : Option Message :=
  match m.phase with
  | .claiming =>
    match o with
    | some (.claimed (some claim)) => some ⟨m.runId, .running claim, none, none⟩
    | _ => none
  | .running _ => some m
  | .completing claim _ =>
    match persisted o with
    | .ok () => none
    | .error e => m.raise claim e
  | .ending _ => none

/-- the answer to a renewal; a lost lease ends the handler -/
def renewed (m : Message) (o : Option Outcome) : Option Message :=
  if o = some (.returned true) then some { m with renewal := none } else none

/-- the answer of the session `i` -/
def receive (m : Message) (i : ℕ) (o : Option Outcome) : Option Message :=
  if m.call = some i then m.answered o else if m.renewal = some i then m.renewed o else some m

end Message

structure St where
  /-- the committed tables, and the sessions -/
  base : State
  /-- the latest reading of the database clock -/
  clock : Time
  /-- the dispatches that follow a commit and are still to be made -/
  owed : List Uuid
  /-- the messages that no worker holds -/
  queue : List Uuid
  workers : ℕ → Option Message

def init (db : EmbeddingDb) : St := ⟨Sys.init db, 0, [], [], fun _ => none⟩

/-- the dispatches that the caller makes when it has the reply -/
def dispatches (cfg : Config) (reply : Reply) : List Uuid :=
  match reply.request, reply.outcome with
  | .createRun .., .created x => [x]
  | .scheduleRetry x a _ _, .returned true => if cfg.maxAttempts ≤ a then [] else [x]
  | _, _ => []

namespace St

/-- a session begins at the database time `t` -/
def start (s : St) (i : ℕ) (p : Tx) (t : Time) : St := { s with base := RowLock.step next s.base (.start i p), clock := t }

def setWorker (s : St) (w : ℕ) (m : Option Message) : St := { s with workers := Function.update s.workers w m }

/-- whoever waits for the session `i` has its answer -/
def answer (s : St) (i : ℕ) (o : Option Outcome) : St :=
  { s with workers := fun w => (s.workers w).bind fun m => m.receive i o }

def send (s : St) (xs : List Uuid) : St := { s with queue := s.queue ++ xs }

end St

inductive Op where
  /-- a client calls `create_run` in the session `i` -/
  | createRun (i : ℕ) (runId ingestionItemId embeddingModelId : Uuid) (configuration : JsonObject)
      (createdByPrincipalId : Option Uuid) (now t : Time)
  /-- the recovery task calls `reap_expired_runs`, … -/
  | reapExpiredRuns (i : ℕ) (now t : Time)
  /-- … and dispatches the pending runs and the expired ones that it finds; `accepted` tells which dispatches succeed -/
  | redispatchPending (now : Time) (accepted : Uuid → Bool)
  | redispatchExpired (t : Time) (accepted : Uuid → Bool)
  /-- a dispatch that follows a commit; one that is never made is not accepted -/
  | dispatch (k : ℕ) (accepted : Bool)
  | deliver (w k : ℕ)
  /-- the worker process dies -/
  | crash (w : ℕ)
  /-- the handler makes its next call in the session `i` -/
  | call (w i : ℕ) (now t : Time)
  /-- the heartbeat calls `heartbeat` in the session `i` -/
  | renew (w i : ℕ) (now t : Time)
  /-- the processor reads and embeds -/
  | process (w : ℕ) (e : Embedder)
  /-- the processor raises an exception of its reads -/
  | fail (w : ℕ)
  /-- an action of a session; `lost`: an answer does not reach the caller -/
  | exec (i : ℕ) (lost : Bool)
  /-- the connection breaks -/
  | abort (i : ℕ)

section Step

variable (cfg : Config) (rc : RecoveryConfig) (env : Environment)

def step (s : St) : Op → St
  | .createRun i x item model configuration by' now t =>
    match s.base.sessions i with
    | some _ => s
    | none => s.start i ((Request.createRun x item model configuration by').txn cfg now t) t
  | .reapExpiredRuns i now t =>
    match s.base.sessions i with
    | some _ => s
    | none => s.start i (Request.reapExpiredRuns.txn cfg now t) t
  | .redispatchPending now accepted =>
    s.send (((s.base.db.findStalePendingRuns (now - rc.pendingAge) rc.batchSize).map (·.id)).filter (accepted ·))
  | .redispatchExpired t accepted =>
    { s.send (((s.base.db.findExpiredRuns rc.batchSize t).map (·.id)).filter (accepted ·)) with clock := t }
  | .dispatch k accepted =>
    match s.owed[k]? with
    | some x => { s.send (if accepted then [x] else []) with owed := s.owed.eraseIdx k }
    | none => s
  | .deliver w k =>
    match s.workers w, s.queue[k]? with
    | none, some x => { s.setWorker w (some ⟨x, .claiming, none, none⟩) with queue := s.queue.eraseIdx k }
    | _, _ => s
  | .crash w =>
    match s.workers w with
    | some m => (s.setWorker w none).send [m.runId]
    | none => s
  | .call w i now t =>
    match s.workers w, s.base.sessions i with
    | some m, none =>
      match m.call, m.request with
      | none, some q => (s.start i (q.txn cfg now t) t).setWorker w (some { m with call := some i })
      | _, _ => s
    | _, _ => s
  | .renew w i now t =>
    match s.workers w, s.base.sessions i with
    | some m, none =>
      match m.renewal, m.claim? with
      | none, some claim =>
        (s.start i ((Request.heartbeat claim.embeddingRunId claim.attemptNumber).txn cfg now t) t).setWorker w
          (some { m with renewal := some i })
      | _, _ => s
    | _, _ => s
  | .process w e =>
    match s.workers w with
    | some m =>
      match m.phase with
      | .running claim =>
        match DefaultEmbeddingProcessor.process env s.base.db claim e with
        | none => s
        | some (.error error) => s.setWorker w (m.raise claim error)
        | some (.ok c) => s.setWorker w (some { m with phase := .completing claim c })
      | _ => s
    | none => s
  | .fail w =>
    match s.workers w with
    | some m =>
      match m.phase with
      | .running claim => s.setWorker w (m.raise claim .unexpected)
      | _ => s
    | none => s
  | .exec i lost =>
    let s' := { s with base := RowLock.step next s.base (.exec i) }
    match Transaction.ending s.base (.exec i) with
    | none => s'
    | some reply =>
      if lost then s'.answer i none
      else { s'.answer i (some reply.outcome) with owed := s.owed ++ dispatches cfg reply }
  | .abort i => { s with base := RowLock.step next s.base (.abort i) }.answer i none

end Step

/-- the time that the step reads from the database clock -/
def Op.dbTime? : Op → Option Time
  | .createRun _ _ _ _ _ _ _ t => some t
  | .reapExpiredRuns _ _ t => some t
  | .redispatchExpired t _ => some t
  | .call _ _ _ t => some t
  | .renew _ _ _ t => some t
  | _ => none

/-- the database clock does not run backwards -/
def Legal (s : St) (o : Op) : Prop := ∀ t ∈ o.dbTime?, s.clock ≤ t

instance (s : St) (o : Op) : Decidable (Legal s o) := inferInstanceAs (Decidable (∀ t ∈ o.dbTime?, _))

/-! ## What sessions ask for, and what they answer -/

variable {cfg : Config} {rc : RecoveryConfig} {env : Environment} {clock : Time → Time → Prop} {db db' : EmbeddingDb}
  {q : Request} {now t : Time}

/-- what a call may ask for: a completion is made by a processor, and an attempt ends with a listed code and without a text -/
def Asks (env : Environment) (db : EmbeddingDb) : Request → Prop
  | .persistVectorsAndMarkCompleted c => ∃ loaded e outcome, Made env db c loaded e outcome
  | .scheduleRetry _ _ errorCode errorMessage => errorCode ∈ RETRY_CODES ∧ errorMessage = none
  | .markFailed _ _ errorCode errorMessage metadata =>
    errorCode ∈ PERMANENT_CODES ∧ errorMessage = none ∧ metadata = none
  | _ => True

/-- what a result says: a claim names the pair of its run -/
structure Says (env : Environment) (db : EmbeddingDb) (reply : Reply) : Prop where
  claimed : ∀ claim, reply.outcome = .claimed (some claim) →
    Belongs db claim.embeddingRunId (claim.ingestionItemId, claim.embeddingModelId)
  asked : Asks env db reply.request

/-- runs keep their pairs and configurations, and items their chunks -/
structure Kept (db db' : EmbeddingDb) : Prop where
  chunks : db'.chunks = db.chunks
  runs : ∀ r ∈ db.runs, ∃ r' ∈ db'.runs, r'.id = r.id ∧ r'.pair = r.pair ∧ r'.configuration = r.configuration

theorem Kept.refl (db : EmbeddingDb) : Kept db db := ⟨rfl, fun r hr => ⟨r, hr, rfl, rfl, rfl⟩⟩

theorem Kept.trans {db'' : EmbeddingDb} (h : Kept db db') (h' : Kept db' db'') : Kept db db'' where
  chunks := h'.chunks.trans h.chunks
  runs r hr := by
    obtain ⟨r', hr', hid, hpair, hconfig⟩ := h.runs r hr
    obtain ⟨r'', hr'', hid', hpair', hconfig'⟩ := h'.runs r' hr'
    exact ⟨r'', hr'', hid'.trans hid, hpair'.trans hpair, hconfig'.trans hconfig⟩

theorem Kept.belongs (h : Kept db db') {x : Uuid} {p : Uuid × Uuid} (hx : Belongs db x p) : Belongs db' x p := by
  obtain ⟨r, hr, rfl, rfl⟩ := hx
  obtain ⟨r', hr', hid, hpair, -⟩ := h.runs r hr
  exact ⟨r', hr', hid, hpair⟩

theorem Asks.later (h : Asks env db q) (hk : Kept db db') : Asks env db' q := by
  cases q with
  | persistVectorsAndMarkCompleted c =>
    obtain ⟨loaded, e, outcome, hmade⟩ := h
    exact ⟨loaded, e, outcome, hmade.later hk.chunks hk.runs⟩
  | _ => exact h

/-- such a request is legal -/
theorem Asks.legal (h : Asks env db q) : q.Legal db := by
  cases q with
  | persistVectorsAndMarkCompleted c =>
    obtain ⟨loaded, e, outcome, hmade⟩ := h
    exact hmade.legal
  | _ => trivial

theorem kept_of_change {reply : Reply} {L : Set EmbeddingRow} (h : Change cfg reply L db db') : Kept db db' where
  chunks := h.static.chunks
  runs r hr := by
    rcases h.mem_runs hr with hmem | ⟨s, -, -, hmem⟩
    · exact ⟨r, hmem, rfl, rfl, rfl⟩
    · exact ⟨_, hmem, rfl, rfl, rfl⟩

theorem kept_of_meanwhile {L : Set EmbeddingRow} (h : Meanwhile cfg clock L db db') : Kept db db' := by
  induction h with
  | refl => exact .refl db
  | tail _ hstep ih =>
    obtain ⟨-, reply, M, -, hchange⟩ := hstep
    exact ih.trans (kept_of_change hchange.2)

/-! ## Programs -/

/-- a result of the request that is no claim -/
def Plain (q : Request) (reply : Reply) : Prop := reply.request = q ∧ ∀ claim, reply.outcome ≠ .claimed (some claim)

section Ends

variable {reply : Outcome → Reply} {C : Reply → Prop} (hreply : ∀ o, (∀ claim, o ≠ .claimed (some claim)) → C (reply o))
include hreply

theorem ends_raise (e : EmbeddingError) : (raise reply e).Ends C C := hreply _ fun _ h => by cases h

theorem ends_update {ids : List Uuid} {s : RunStmt} {k : List EmbeddingRun → Tx} (h : ∀ rows, (k rows).Ends C C) :
    (update reply ids s k).Ends C C := by
  intro d
  beta_reduce
  split
  · exact ends_raise hreply _
  · exact h _

theorem ends_updateOne {x : Uuid} {s : RunStmt} : (updateOne reply x s).Ends C C := by
  refine ends_update hreply fun rows => ?_
  split_ifs
  · exact hreply _ fun _ h => by cases h
  · exact hreply _ fun _ h => by cases h

theorem ends_createRun {x item model : Uuid} {configuration : JsonObject} {by' : Option Uuid} :
    (createRun cfg reply t x item model configuration by').Ends C C := by
  intro d
  beta_reduce
  split_ifs
  · exact ends_raise hreply _
  · intro d'
    beta_reduce
    split
    · intro d''
      beta_reduce
      split
      · exact hreply _ fun _ h => by cases h
      · exact ends_raise hreply _
    · exact ends_raise hreply _
    · exact ends_raise hreply _

theorem ends_scheduleRetry {x : Uuid} {a : ℕ} {code : String} {message : Option String} :
    (scheduleRetry cfg reply now t x a code message).Ends C C := by
  unfold scheduleRetry
  split_ifs
  · exact ends_updateOne hreply
  · exact ends_updateOne hreply

omit hreply in
theorem ends_deleteForModel {model : Uuid} {chunkIds : List Uuid} {k : List ChunkEmbedding → Tx}
    (h : ∀ gone, (k gone).Ends C C) : (deleteForModel model chunkIds k).Ends C C := by
  unfold deleteForModel
  split_ifs
  · exact h _
  · exact fun d d' => h _

theorem ends_insertVectors {gone rows : List ChunkEmbedding} {k : Tx} (h : k.Ends C C) :
    (insertVectors reply gone rows k).Ends C C := by
  unfold insertVectors
  split_ifs
  · exact h
  · intro d
    beta_reduce
    split
    · exact h
    · exact ends_raise hreply _

theorem ends_persist {c : Completion} : (persistVectorsAndMarkCompleted reply now t c).Ends C C := by
  intro d
  beta_reduce
  split_ifs
  · exact ends_raise hreply _
  · refine ends_deleteForModel fun gone => ends_insertVectors hreply fun d' => ?_
    show Txn.Ends C C (if EmbeddingDb.countForModel (d'.replaceVectors gone (c.rows t)).embeddings
      c.embeddingModelId c.expectedChunkIds ≠ c.expectedChunkIds.length then _ else _)
    split_ifs
    · exact ends_raise hreply _
    · refine ends_update hreply fun rows => ?_
      split_ifs
      · exact hreply _ fun _ h => by cases h
      · exact hreply _ fun _ h => by cases h

theorem ends_reap : (reapExpiredRuns cfg reply now t).Ends C C := by
  intro d
  refine ends_update hreply fun rows => ?_
  split_ifs
  · exact hreply _ fun _ h => by cases h
  · exact hreply _ fun _ h => by cases h

end Ends

/-- a claim that succeeds names the pair of its run -/
theorem claim_reports {x : Uuid} :
    Reports Good (Guarantee cfg clock) (Says env) ((Request.claim x).txn cfg now t) db := by
  intro d hd hG
  beta_reduce
  split
  · exact fun d' _ _ => ⟨fun claim h => (by cases h), trivial⟩
  · have hrows : ∀ r ∈ d.matching [x] (.claim now (now + cfg.leaseDuration) cfg.maxAttempts t), r ∈ d.runs := fun r hr =>
      (EmbeddingDb.mem_matching.1 hr).1
    generalize d.matching [x] _ = rows at hrows
    match rows with
    | [] => exact fun d' _ _ => ⟨fun claim h => (by cases h), trivial⟩
    | [r] =>
      intro d' hd' _
      refine ⟨fun claim hclaim => ?_, trivial⟩
      cases hclaim
      exact (kept_of_meanwhile hd').belongs ⟨r, hrows r (by simp), rfl, rfl⟩
    | _ :: _ :: _ => exact fun d' _ _ => ⟨fun claim h => (by cases h), trivial⟩

/-- **Every result** says what it was asked for, and a claim names the pair of its run. -/
theorem txn_reports (h : Asks env db q) :
    Reports Good (Guarantee cfg clock) (Says env) (q.txn cfg now t) db := by
  have plain (hends : (q.txn cfg now t).Ends (Plain q) (Plain q)) :
      Reports Good (Guarantee cfg clock) (Says env) (q.txn cfg now t) db := by
    refine reports_of_ends hends fun d' reply hd _ hreply => ⟨fun claim hclaim => absurd hclaim (hreply.2 claim), ?_⟩
    rw [hreply.1]
    exact h.later (kept_of_meanwhile hd)
  cases q with
  | createRun => exact plain (ends_createRun fun o ho => ⟨rfl, ho⟩)
  | claim => exact claim_reports
  | heartbeat => exact plain (ends_updateOne fun o ho => ⟨rfl, ho⟩)
  | scheduleRetry => exact plain (ends_scheduleRetry fun o ho => ⟨rfl, ho⟩)
  | markFailed => exact plain (ends_updateOne fun o ho => ⟨rfl, ho⟩)
  | persistVectorsAndMarkCompleted => exact plain (ends_persist fun o ho => ⟨rfl, ho⟩)
  | reapExpiredRuns => exact plain (ends_reap fun o ho => ⟨rfl, ho⟩)

/-! ## The invariant -/

/-- sessions run the transactions of such calls -/
def Asked (cfg : Config) (env : Environment) (s : State) : RowLock.Op Tx → Prop
  | .start _ p => ∃ q now t, p = Request.txn cfg now t q ∧ Asks env s.db q
  | _ => True

/-- the database goes through such a run -/
abbrev AskedRun (cfg : Config) (env : Environment) (db : EmbeddingDb) (s : State) : Prop :=
  Run (RowLock.step next) (Asked cfg env) (Sys.init db) s

theorem Asked.legal {s : State} {o : RowLock.Op Tx} (h : Asked cfg env s o) :
    Embedding.Legal cfg (fun _ _ => True) s o := by
  cases o with
  | start i p =>
    obtain ⟨q, now, t, hp, hasks⟩ := h
    exact ⟨q, now, t, hp, trivial, hasks.legal⟩
  | exec => trivial
  | abort => trivial

theorem AskedRun.embeddingRuns {s : State} (h : AskedRun cfg env db s) : EmbeddingRuns cfg (fun _ _ => True) db s :=
  h.weaken fun _ _ => Asked.legal

section Base

variable {s : State} (hdb : Good db) (hs : AskedRun cfg env db s)
include hdb hs

/-- a step keeps what the calls rely on -/
theorem kept_step (o : RowLock.Op Tx) : Kept s.db (RowLock.step next s o).db := by
  have hrun := hs.embeddingRuns
  have hinterfere := interference_of_step legal_safe hdb hrun o
  exact kept_of_meanwhile hinterfere

/-- **What a session answers** is so. -/
theorem says_of_ending {o : RowLock.Op Tx} {reply : Reply} (ho : ending s o = some reply) : Says env s.db reply := by
  have hstart : ∀ s i p, Asked cfg env s (.start i p) → Good s.db →
      Safe Good (Guarantee cfg fun _ _ => True) p (fun _ => False) s.db := fun s i p hp hG =>
    legal_safe s i p hp.legal hG
  refine reports_ending hstart ?_ hdb hs ho
  rintro s i p ⟨q, now, t, rfl, hasks⟩ _
  exact txn_reports hasks

end Base

/-- what a worker may rely on -/
def Phase.Sound (env : Environment) (db : EmbeddingDb) : Phase → Prop
  | .claiming => True
  | .running claim => Belongs db claim.embeddingRunId (claim.ingestionItemId, claim.embeddingModelId)
  | .completing claim c => Belongs db claim.embeddingRunId (claim.ingestionItemId, claim.embeddingModelId) ∧
    Asks env db (.persistVectorsAndMarkCompleted c)
  | .ending q => Asks env db q ∧ ∀ x a, q ≠ .heartbeat x a

theorem Phase.Sound.later {p : Phase} (h : p.Sound env db) (hk : Kept db db') : p.Sound env db' := by
  cases p with
  | claiming => trivial
  | running claim => exact hk.belongs h
  | completing claim c => exact ⟨hk.belongs h.1, h.2.later hk⟩
  | ending q => exact ⟨h.1.later hk, h.2⟩

section Messages

variable {m m' : Message} {claim : ClaimedEmbeddingRun}

/-- the branch asks for what it may -/
theorem sound_branch {e : WorkerError} (he : e.Listed) (h : branch claim e = some q) : (Phase.ending q).Sound env db := by
  cases e with
  | leaseLost => cases h
  | permanent errorCode message => cases h; exact ⟨⟨he.1, he.2, rfl⟩, by simp⟩
  | transient => cases h; exact ⟨⟨by simp [RETRY_CODES], rfl⟩, by simp⟩
  | unexpected => cases h; exact ⟨⟨by simp [RETRY_CODES], rfl⟩, by simp⟩

theorem asks_request (h : m.phase.Sound env db) (hq : m.request = some q) : Asks env db q := by
  obtain ⟨runId, phase, call, renewal⟩ := m
  cases phase with
  | claiming => cases hq; trivial
  | running claim => cases hq
  | completing claim c => cases hq; exact h.2
  | ending q' => cases hq; exact h.1

/-- no call of the handler is a heartbeat -/
theorem request_ne_heartbeat (h : m.phase.Sound env db) (hq : m.request = some q) (x : Uuid) (a : ℕ) :
    q ≠ .heartbeat x a := by
  obtain ⟨runId, phase, call, renewal⟩ := m
  cases phase with
  | claiming => cases hq; simp
  | running claim => cases hq
  | completing claim c => cases hq; simp
  | ending q' => cases hq; exact h.2 x a

theorem sound_raise {e : WorkerError} (he : e.Listed) (h : m.raise claim e = some m') : m'.phase.Sound env db := by
  obtain ⟨q, hq, rfl⟩ := Option.map_eq_some_iff.1 h
  exact sound_branch he hq

theorem sound_answered {o : Option Outcome} (hm : m.phase.Sound env db)
    (ho : ∀ claim, o = some (.claimed (some claim)) →
      Belongs db claim.embeddingRunId (claim.ingestionItemId, claim.embeddingModelId))
    (h : m.answered o = some m') : m'.phase.Sound env db := by
  obtain ⟨runId, phase, call, renewal⟩ := m
  cases phase with
  | claiming =>
    simp only [Message.answered] at h
    split at h
    · cases h; exact ho _ rfl
    · cases h
  | running claim => cases h; exact hm
  | completing claim c =>
    simp only [Message.answered] at h
    split at h
    · cases h
    · next e he => exact sound_raise (listed_persisted he) h
  | ending q => cases h

theorem sound_receive {i : ℕ} {o : Option Outcome} (hm : m.phase.Sound env db)
    (ho : ∀ claim, o = some (.claimed (some claim)) →
      Belongs db claim.embeddingRunId (claim.ingestionItemId, claim.embeddingModelId))
    (h : m.receive i o = some m') : m'.phase.Sound env db := by
  unfold Message.receive at h
  split_ifs at h
  · exact sound_answered hm ho h
  · unfold Message.renewed at h
    split_ifs at h
    cases h
    exact hm
  · cases h
    exact hm

end Messages

/-- the database goes through legal transactions, and the workers may rely on what they have been told -/
structure Inv (cfg : Config) (env : Environment) (db : EmbeddingDb) (s : St) : Prop where
  base : AskedRun cfg env db s.base
  workers : ∀ w m, s.workers w = some m → m.phase.Sound env s.base.db

namespace Inv

variable {s s' : St}

/-- a step that leaves the database alone -/
theorem quiet (h : Inv cfg env db s) (hbase : s'.base = s.base)
    (hworkers : ∀ w m, s'.workers w = some m → s.workers w = some m ∨ m.phase.Sound env s.base.db) :
    Inv cfg env db s' := by
  refine ⟨hbase ▸ h.base, fun w m hm => ?_⟩
  rw [hbase]
  rcases hworkers w m hm with hm | hm
  · exact h.workers w m hm
  · exact hm

/-- a worker turns to something else -/
theorem setWorker (h : Inv cfg env db s) {w : ℕ} {m' : Option Message}
    (hm : ∀ m, m' = some m → m.phase.Sound env s.base.db) : Inv cfg env db (s.setWorker w m') := by
  refine h.quiet rfl fun v m hv => ?_
  simp only [St.setWorker, Function.update_apply] at hv
  split_ifs at hv
  · exact .inr (hm m hv)
  · exact .inl hv

theorem send (h : Inv cfg env db s) (xs : List Uuid) : Inv cfg env db (s.send xs) := h.quiet rfl fun _ _ hm => .inl hm

variable (hdb : Good db)
include hdb

/-- a step of the database -/
theorem step_base (h : Inv cfg env db s) {o : RowLock.Op Tx} (ho : Asked cfg env s.base o)
    (hbase : s'.base = RowLock.step next s.base o) (hworkers : s'.workers = s.workers) : Inv cfg env db s' := by
  refine ⟨hbase ▸ h.base.tail o ho, fun w m hm => ?_⟩
  rw [hworkers] at hm
  rw [hbase]
  exact (h.workers w m hm).later (kept_step hdb h.base o)

omit hdb in
/-- a session ends, and its caller has the answer -/
theorem answer (h : Inv cfg env db s) {i : ℕ} {o : Option Outcome}
    (ho : ∀ claim, o = some (.claimed (some claim)) →
      Belongs s.base.db claim.embeddingRunId (claim.ingestionItemId, claim.embeddingModelId)) :
    Inv cfg env db (s.answer i o) := by
  refine h.quiet rfl fun w m hm => .inr ?_
  obtain ⟨m₀, hm₀, hreceive⟩ := Option.bind_eq_some_iff.1 hm
  exact sound_receive (h.workers w m₀ hm₀) ho hreceive

/-- a call begins -/
theorem start (h : Inv cfg env db s) {i : ℕ} (hq : Asks env s.base.db q) :
    Inv cfg env db (s.start i (q.txn cfg now t) t) :=
  h.step_base hdb (o := .start i (q.txn cfg now t)) ⟨q, now, t, rfl, hq⟩ rfl rfl

/-- One step of the system keeps the database on a legal run, and what the workers have been told true. -/
theorem step (h : Inv cfg env db s) (o : Op) : Inv cfg env db (Delivery.step cfg rc env s o) := by
  cases o with
  | createRun i x item model configuration by' now t =>
    simp only [Delivery.step]
    split
    · exact h
    · exact h.start hdb trivial
  | reapExpiredRuns i now t =>
    simp only [Delivery.step]
    split
    · exact h
    · exact h.start hdb trivial
  | redispatchPending now accepted => exact h.send _
  | redispatchExpired t accepted => exact h.quiet rfl fun _ _ hm => .inl hm
  | dispatch k accepted =>
    simp only [Delivery.step]
    split
    · exact h.quiet rfl fun _ _ hm => .inl hm
    · exact h
  | deliver w k =>
    simp only [Delivery.step]
    split
    · next x _ _ =>
      have hw : Inv cfg env db (s.setWorker w (some ⟨x, .claiming, none, none⟩)) := h.setWorker fun m hm => by
        cases hm
        trivial
      exact hw.quiet rfl fun _ _ hm => .inl hm
    · exact h
  | crash w =>
    simp only [Delivery.step]
    split
    · exact (h.setWorker fun m hm => by cases hm).send _
    · exact h
  | call w i now t =>
    simp only [Delivery.step]
    split
    · next m hw _ =>
      split
      · next q _ hq =>
        refine (h.start hdb (asks_request (h.workers w m hw) hq)).setWorker fun m' hm' => ?_
        cases hm'
        exact (h.start hdb (asks_request (h.workers w m hw) hq)).workers w m hw
      · exact h
    · exact h
  | renew w i now t =>
    simp only [Delivery.step]
    split
    · next m hw _ =>
      split
      · next claim _ _ =>
        have hasks : Asks env s.base.db (.heartbeat claim.embeddingRunId claim.attemptNumber) := trivial
        refine (h.start hdb hasks).setWorker fun m' hm' => ?_
        cases hm'
        exact (h.start hdb hasks).workers w m hw
      · exact h
    · exact h
  | process w e =>
    simp only [Delivery.step]
    split
    · next m hw =>
      split
      · next claim hphase =>
        have hm := h.workers w m hw
        rw [hphase] at hm
        split
        · exact h
        · next error he => exact h.setWorker fun m' hm' => sound_raise (listed_process he) hm'
        · next c hc =>
          refine h.setWorker fun m' hm' => ?_
          cases hm'
          obtain ⟨loaded, outcome, hmade⟩ := process_ok hm (run_good hdb h.base.embeddingRuns).runIds hc
          exact ⟨hm, loaded, e, outcome, hmade⟩
      · exact h
    · exact h
  | fail w =>
    simp only [Delivery.step]
    split
    · split
      · exact h.setWorker fun m' hm' => sound_raise (e := .unexpected) trivial hm'
      · exact h
    · exact h
  | exec i lost =>
    have hexec : Inv cfg env db { s with base := RowLock.step next s.base (.exec i) } :=
      h.step_base hdb (o := .exec i) trivial rfl rfl
    simp only [Delivery.step]
    split
    · exact hexec
    · next reply hreply =>
      have htold := (says_of_ending hdb h.base hreply).claimed
      split_ifs
      · exact hexec.answer fun claim hclaim => by cases hclaim
      · have hanswer : Inv cfg env db (({ s with base := RowLock.step next s.base (.exec i) } : St).answer i
            (some reply.outcome)) := hexec.answer fun claim hclaim =>
          (kept_step hdb h.base (.exec i)).belongs (htold claim (Option.some.inj hclaim))
        exact hanswer.quiet rfl fun _ _ hm => .inl hm
  | abort i =>
    have habort : Inv cfg env db { s with base := RowLock.step next s.base (.abort i) } :=
      h.step_base hdb (o := .abort i) trivial rfl rfl
    exact habort.answer fun claim hclaim => by cases hclaim

end Inv

/-- the states of the system, from the tables `db` and an empty queue -/
abbrev Deliveries (cfg : Config) (rc : RecoveryConfig) (env : Environment) (db : EmbeddingDb) (s : St) : Prop :=
  Run (step cfg rc env) Legal (init db) s

/-- Whatever happens in the system, the database goes through a run of legal embedding transactions. -/
theorem delivery_inv (hdb : Good db) {s : St} (hs : Deliveries cfg rc env db s) : Inv cfg env db s := by
  refine hs.inv (fun s o _ h => h.step hdb o) ⟨.refl, fun w m hm => ?_⟩
  cases hm

/-! ## What the tables hold -/

/-- **The rule for what commits keep**: a commit is the change of its request, and what its result says is so. -/
theorem asked_rule {P : EmbeddingDb → Prop} (hdb : Good db) (h0 : P db)
    (hstep : ∀ d reply L d', Good d → Change cfg reply L d d' → Says env d reply → P d → P d') {s : State}
    (hs : AskedRun cfg env db s) : P s.db := by
  induction hs with
  | refl => exact h0
  | @tail s hs o _ ih =>
    cases hc : committing s o with
    | none => rw [step_db_none hc]; exact ih
    | some c =>
      obtain ⟨w, reply⟩ := c
      have hs' : AskedRun cfg env db s := hs
      obtain ⟨L, -, hchange⟩ := commit_change hdb hs'.embeddingRuns hc
      rw [step_db_some hc]
      exact hstep _ reply L _ (run_good hdb hs'.embeddingRuns) hchange
        (says_of_ending hdb hs' (ending_of_committing hc)) ih

section Rows

variable {reply : Reply} {L : Set EmbeddingRow} {r r' : EmbeddingRun}

/-- where a row comes from: it was there, it is new, or the statement of the request wrote it -/
theorem row_cases (h : Change cfg reply L db db') (hr' : r' ∈ db'.runs) :
    r' ∈ db.runs ∨ (∃ x item model configuration by', r' = newRun cfg reply.t x item model configuration by') ∨
      ∃ r ∈ db.runs, ∃ s, reply.request.statement cfg reply.now reply.t = some s ∧ s.Matches r.toJob ∧ r' = r.set s := by
  have updated {ids : List Uuid} {s : RunStmt} (howned : Owned L db ids s)
      (hs : reply.request.statement cfg reply.now reply.t = some s) (hr' : r' ∈ (db.updateRuns ids s).runs) :
      r' ∈ db.runs ∨ ∃ r ∈ db.runs, ∃ s, reply.request.statement cfg reply.now reply.t = some s ∧ s.Matches r.toJob ∧
        r' = r.set s := by
    rcases EmbeddingDb.mem_updateRuns.1 hr' with ⟨r, hr, hid, rfl⟩ | ⟨hr, -⟩
    · exact .inr ⟨r, hr, s, hs, (howned.rows r hr hid).2.1, rfl⟩
    · exact .inl hr
  cases h with
  | @created x item model configuration by' =>
    simp only [EmbeddingDb.addRun, List.mem_append, List.mem_singleton] at hr'
    rcases hr' with hr' | rfl
    · exact .inl hr'
    · exact .inr (.inl ⟨x, item, model, configuration, by', rfl⟩)
  | updated hs _ _ howned => exact (updated howned hs hr').imp_right .inr
  | completed howned _ => exact (updated howned rfl hr').imp_right .inr

/-- a terminal run stays as it is -/
theorem terminal_kept (h : Change cfg reply L db db') (hr : r ∈ db.runs) (ht : r.status.Terminal) : r ∈ db'.runs := by
  rcases h.mem_runs hr with hmem | ⟨s, -, hm, -⟩
  · exact hmem
  · exact absurd ht (EmbeddingRun.inFlight_iff.1 (inFlight_of_matches hm))

end Rows

/-! ## Vectors -/

/-- no run of the pair is completed -/
structure Unembedded (db : EmbeddingDb) (item model : Uuid) : Prop where
  vectors : db.vectors item model = []
  runs : ∀ r ∈ db.runs, r.pair = (item, model) → r.status ≠ .completed

/-- the vectors of the pair are those of a completion that a processor made, and its run says so -/
structure Stored (env : Environment) (db : EmbeddingDb) (c : Completion) (t : Time) : Prop where
  asked : Asks env db (.persistVectorsAndMarkCompleted c)
  vectors : db.vectors c.ingestionItemId c.embeddingModelId = c.rows t
  run : ∃ r ∈ db.runs, r.id = c.runId ∧ r.status = .completed ∧ r.executionMetadata = c.executionMetadata

/-- the pair has vectors of one completion, or none -/
def Accounted (env : Environment) (db : EmbeddingDb) (item model : Uuid) : Prop :=
  Unembedded db item model ∨ ∃ c t, (item, model) = (c.ingestionItemId, c.embeddingModelId) ∧ Stored env db c t

section Step

variable {reply : Reply} {L : Set EmbeddingRow} {item model : Uuid}

theorem Stored.later {c : Completion} (h : Stored env db c t) (hc : Change cfg reply L db db')
    (hv : db'.vectors c.ingestionItemId c.embeddingModelId = db.vectors c.ingestionItemId c.embeddingModelId) :
    Stored env db' c t := by
  obtain ⟨r, hr, hid, hst, hmeta⟩ := h.run
  exact ⟨h.asked.later (kept_of_change hc), hv.trans h.vectors, r, terminal_kept hc hr (.inl hst), hid, hst, hmeta⟩

/-- a commit that completes no run of the pair and leaves its vectors alone -/
theorem Accounted.later (h : Accounted env db item model) (hc : Change cfg reply L db db')
    (hv : db'.vectors item model = db.vectors item model)
    (hruns : ∀ r' ∈ db'.runs, r'.pair = (item, model) → r'.status = .completed → r' ∈ db.runs) :
    Accounted env db' item model := by
  rcases h with h | ⟨c, t, hpair, h⟩
  · refine .inl ⟨hv.trans h.vectors, fun r' hr' hp hst => ?_⟩
    exact h.runs r' (hruns r' hr' hp hst) hp hst
  · obtain ⟨rfl, rfl⟩ := Prod.mk.inj hpair
    exact .inr ⟨c, t, rfl, h.later hc hv⟩

end Step

def oneModel : EmbeddingModelState := ⟨.openai, "m", "r", 2, .cosine, none⟩

/-- the floats of the default configuration, as texts and back -/
def floatText (x : ℚ) : Str := if x = 30 then str "30.0" else str "0.5"

def textFloat (text : Str) : ℚ := if text = str "30.0" then 30 else 1 / 2

/-- the double next to 1/10 -/
def tenth : ℚ := 3602879701896397 / 2 ^ 55

/-- the rounding of `tenth`, and of what has single precision -/
def singleTenth (x : ℚ) : ℚ := if x = tenth then 13421773 / 2 ^ 27 else x

/-- every run has the default configuration -/
def oneEnvironment : Environment where
  findModel x := if x = 7 then some oneModel else none
  document _ := [(Batching.CONFIGURATION_KEY, .dict (Batching.DEFAULT_EMBEDDING_RUN_CONFIG.asMapping floatText))]
  float := textFloat
  exception _ := .embeddingProviderPermanent
  float4 := singleTenth

/-- the vector of the one chunk -/
def oneVector : Embedder where
  provider _ _ := .result ⟨[⟨0, [.float (.finite tenth), .float (.finite 0)]⟩], ⟨some 1, none⟩⟩
  jitter _ _ := 0
  turns := [0, 0]

/-- the run 100 is created, dispatched, claimed, embedded and completed -/
def served : List Op :=
  [.createRun 0 100 1 7 [] none 5 5, .exec 0 false, .exec 0 false, .exec 0 false, .exec 0 false, .dispatch 0 true,
    .deliver 0 0, .call 0 1 6 6, .exec 1 false, .exec 1 false, .process 0 oneVector, .call 0 2 7 7] ++
    List.replicate 7 (.exec 2 false)

/-- no text; a code of its kind where an attempt has failed, and metadata where the run is completed -/
def Recorded (r : EmbeddingRun) : Prop :=
  r.errorMessage = none ∧
  match r.status with
  | .pending => r.executionMetadata = [] ∧ (r.attemptCount = 0 ∧ r.errorCode = none ∨
      0 < r.attemptCount ∧ ∃ code ∈ RETRY_CODES, r.errorCode = some code)
  | .running => r.executionMetadata = [] ∧ 0 < r.attemptCount ∧ ∀ code ∈ r.errorCode, code ∈ RETRY_CODES
  | .completed => r.errorCode = none
  | .failed => r.executionMetadata = [] ∧ ∃ code ∈ MAX_ATTEMPTS_EXCEEDED :: PERMANENT_CODES, r.errorCode = some code

/-- **A statement** records what it may. -/
theorem recorded_set {r : EmbeddingRun} {s : RunStmt} (hq : Asks env db q) (hs : q.statement cfg now t = some s)
    (hm : s.Matches r.toJob) (h : Recorded r) : Recorded (r.set s) := by
  obtain ⟨hmessage, hstatus⟩ := h
  cases q with
  | createRun => cases hs
  | claim x =>
    cases hs
    refine ⟨hmessage, ?_⟩
    rcases hm.2 with hp | ⟨hrun, -⟩
    · rw [show r.status = .pending from hp] at hstatus
      obtain ⟨hmeta, ⟨-, hcode⟩ | ⟨-, code, hlisted, hcode⟩⟩ := hstatus
      · exact ⟨hmeta, Nat.succ_pos _, fun code' hcode' => absurd (hcode.symm.trans hcode') (by simp)⟩
      · refine ⟨hmeta, Nat.succ_pos _, fun code' hcode' => ?_⟩
        obtain rfl : code = code' := Option.some.inj (hcode.symm.trans hcode')
        exact hlisted
    · rw [show r.status = .running from hrun] at hstatus
      exact ⟨hstatus.1, Nat.succ_pos _, hstatus.2.2⟩
  | heartbeat x a =>
    cases hs
    have hrun : r.status = .running := hm.1
    rw [hrun] at hstatus
    refine ⟨hmessage, ?_⟩
    simp only [EmbeddingRun.set, Stmt.set, hrun]
    exact hstatus
  | scheduleRetry x a code message =>
    obtain ⟨hlisted, rfl⟩ := hq
    have hrun : r.status = .running := by
      simp only [Request.statement, Option.some.injEq] at hs
      split_ifs at hs
      · subst hs; exact hm.1
      · subst hs; exact hm.1
    rw [hrun] at hstatus
    simp only [Request.statement, Option.some.injEq] at hs
    split_ifs at hs
    · subst hs
      exact ⟨rfl, hstatus.1, _, by simp, rfl⟩
    · subst hs
      exact ⟨rfl, hstatus.1, .inr ⟨hstatus.2.1, code, hlisted, rfl⟩⟩
  | markFailed x a code message metadata =>
    obtain ⟨hlisted, rfl, rfl⟩ := hq
    cases hs
    have hrun : r.status = .running := hm.1
    rw [hrun] at hstatus
    exact ⟨rfl, hstatus.1, code, by simp [hlisted], rfl⟩
  | persistVectorsAndMarkCompleted c =>
    cases hs
    exact ⟨rfl, rfl⟩
  | reapExpiredRuns =>
    cases hs
    have hrun : r.status = .running := hm.1
    rw [hrun] at hstatus
    exact ⟨hmessage, hstatus.1, _, by simp, rfl⟩

/-- **What rows record.** In every state of the system, from tables without runs, no run has an error text, whatever an
exception of a provider, of the database or of the processor says. A run whose attempts have failed has one of the codes of
the worker: one of the two retry codes while it may be tried again, a permanent code or the one for exhausted attempts when
it has failed, and none when it is completed. Metadata is recorded by completions only. -/
theorem delivered_texts (cfg : Config) (rc : RecoveryConfig) (env : Environment) (db : EmbeddingDb)
    (hchunks : (db.chunks.map (·.id)).Nodup) (hruns : db.runs = []) (hvectors : db.embeddings = []) (ops : List Op)
    (hops : Admissible (step cfg rc env) Legal (init db) ops) :
    ∀ r ∈ (run (step cfg rc env) (init db) ops).base.db.runs, Recorded r := by
  have hG : Good db := ⟨hchunks, by simp [hruns], by simp [hruns], by simp [hruns], by simp [hvectors], by simp [hvectors]⟩
  have hs := (delivery_inv hG (run_of_admissible hops)).base
  refine asked_rule (P := fun d => ∀ r ∈ d.runs, Recorded r) hG (by simp [hruns]) ?_ hs
  intro d reply L d' _ hchange htold hall r' hr'
  rcases row_cases hchange hr' with hr | ⟨x, item, model, configuration, by', rfl⟩ | ⟨r, hr, s, hs, hm, rfl⟩
  · exact hall r' hr
  · exact ⟨rfl, rfl, .inl ⟨rfl, rfl⟩⟩
  · exact recorded_set htold.asked hs hm (hall r hr)

/-- the provider refuses the request -/
def refusing : Embedder := { oneVector with provider := fun _ _ => .failed 0 }

/-- the run is then marked as failed -/
def refused : List Op := served.take 10 ++ [.process 0 refusing, .call 0 2 7 7] ++ List.replicate 2 (.exec 2 false)

theorem delivered_texts_refused :
    let s := run (step oneAttempt recovery oneEnvironment) (init oneChunk) refused
    (∃ r ∈ s.base.db.runs, r.errorCode = some EMBEDDING_PROVIDER_FAILED) ∧ ∀ r ∈ s.base.db.runs, Recorded r :=
  ⟨by decide +kernel,
    delivered_texts oneAttempt recovery oneEnvironment oneChunk (by decide) rfl rfl refused (by decide +kernel)⟩

end AtlasRag.Embedding.Delivery
