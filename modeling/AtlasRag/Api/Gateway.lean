/-
The gateway: any number of calls of the API, whose steps and whose transactions interleave.

A call is authenticated when it is received. Then `get_local_principal_id` resolves the identity, in up to three
transactions; `require_permission` reads the effective principals and then the grants; the handler runs the transaction
of its service, or, in the ingestion pipeline, of one service after the other; and the call is answered. The session of a
call has its number. A call may fail at any moment: it is
answered with 500, while what its session runs may still commit, as when the connection breaks during the COMMIT.

Results:
- `step_cases`: what a step can do to the sessions;
- `serves_command`: how the transaction of a route ends;
- `finds_resolve`: what a transaction of `resolve` can return.
-/
import AtlasRag.Api.Routes
import AtlasRag.Identity.Convergence
import AtlasRag.Identity.Decisions
import AtlasRag.Knowledge.Conclusions

namespace AtlasRag.Api

open AtlasRag.Lib AtlasRag.Lib.LockMode AtlasRag.Platform AtlasRag.Identity
open AtlasRag.Lib.Transaction (Txn)
open AtlasRag.Knowledge (KnowledgeDb UploadSettings)
open AtlasRag.Identity.Provisioning (AuthenticatedIdentity UserIdentifier)
open AtlasRag.Ingestion.Pipeline (IngestDocument)

/-! ## The database -/

structure Database where
  knowledge : KnowledgeDb
  identifiers : List UserIdentifier

namespace Database

def iam (db : Database) : Iam := db.knowledge.iam

/-- the tables of `resolve` -/
def provisioning (db : Database) : Provisioning.Database := ⟨db.knowledge.iam, db.identifiers⟩

def setProvisioning (d : Provisioning.Database) (db : Database) : Database :=
  { knowledge := db.knowledge.setIam d.iam, identifiers := d.identifiers }

def setKnowledge (d : KnowledgeDb) (db : Database) : Database := { db with knowledge := d }

end Database

inductive Lock where
  | knowledge (lock : Knowledge.Lock)
  | provisioning (row : Provisioning.Row)
deriving DecidableEq, Repr

/-- the services find a principal only after the commit that inserts it, so they never wait for one -/
def Lock.conflicts : Lock → Lock → Bool
  | .knowledge x, .knowledge y => x.conflicts y
  | .provisioning x, .provisioning y => x = y
  | _, _ => false

abbrev Lock.Conflicts (x y : Lock) : Prop := x.conflicts y = true

/-- what a session ends with: a transaction of `resolve`, or the service of a call, for a principal -/
inductive Answer where
  | resolved (outcome : Provisioning.Outcome)
  | served (call : ℕ) (principalId : Uuid) (endpoint : Endpoint) (reply : Reply)

abbrev Tx := Txn Database Lock Answer

def resolveTxn (p : Provisioning.Tx) : Tx :=
  zoom Database.provisioning Database.setProvisioning Lock.provisioning Answer.resolved p

def Reply.of : Knowledge.Answer → Reply
  | .knowledge r => .knowledge r.outcome
  | .iam r => .identity r.outcome

def onKnowledge {R : Type} (answer : R → Answer) (p : Txn KnowledgeDb Knowledge.Lock R) : Tx :=
  zoom Database.knowledge Database.setKnowledge Lock.knowledge answer p

/-- the transaction of a service -/
def Command.txn (uploads : UploadSettings) (answer : Reply → Answer) : Command → Tx
  | .identity q t => onKnowledge (fun a => answer (.of a)) (Knowledge.identityTxn (q.txn t))
  | .knowledge q => onKnowledge (fun a => answer (.of a)) (q.txn uploads)
  | .updateDocument d patch updatedAt =>
    onKnowledge answer (Knowledge.DocumentManagementService.updateDocument .knowledge d patch updatedAt)
  | .ingestion => .commit id (answer .ingestion)

/-! ## The calls -/

/-- how far a call is -/
inductive Phase where
  /-- in `get_local_principal_id`, with the results of its transactions so far -/
  | resolving (login : Provisioning.Call) (results : List Provisioning.Outcome)
  /-- in `require_permission` -/
  | authorizing (identity : AuthenticatedIdentity) (principalId : Uuid)
  /-- … with the effective principals -/
  | permitting (identity : AuthenticatedIdentity) (principalId : Uuid) (principalIds : Finset Uuid)
  /-- in the handler of the route, with the replies of its services so far -/
  | serving (identity : AuthenticatedIdentity) (principalId : Uuid) (replies : List Reply)
  | answered (response : Response)

structure Call where
  endpoint : Endpoint
  phase : Phase

/-- after a transaction that the call has waited for -/
def Phase.next (e : Endpoint) : Phase → Answer → Phase
  | .resolving login results, .resolved o =>
    match o with
    | .absent | .alreadyProvisioned => .resolving login (results ++ [o])
    | .returned x => if e.permission = none then .answered ⟨e.statusCode, none⟩ else .authorizing login.identity x
    | .raised error => .answered (resolutionResponse error)
  | .serving identity x replies, .served _ _ _ r =>
    if ¬ r.Raised ∧ replies.length + 1 < e.services then .serving identity x (replies ++ [r])
    else .answered (e.response r)
  | phase, _ => phase

/-- an exception that nobody handles -/
def Phase.fail : Phase → Phase
  | .answered r => .answered r
  | _ => .answered internalServerError

structure St where
  base : Sys Database Lock Answer
  calls : ℕ → Option Call
  /-- the results of the transactions that have committed -/
  committed : List Answer

inductive Op where
  /-- the UUIDs and the time are those that a provisioning of the call would take -/
  | receive (c : ℕ) (endpoint : Endpoint) (verifier : Option (Str → Verdict)) (authorization : Option Str)
      (principalId identifierId : Uuid) (now : Time)
  /-- the next transaction of the call begins, at the database time `t` -/
  | begin (c : ℕ) (id : Uuid) (now t : Time)
  /-- the next action of the session -/
  | exec (c : ℕ)
  | resolveEffectivePrincipals (c : ℕ)
  | hasPermission (c : ℕ) (now : Time)
  /-- the transaction is rolled back -/
  | abort (c : ℕ)
  /-- the call fails, with what its session does left open -/
  | fail (c : ℕ)

namespace St

def init (db : Database) : St := ⟨Sys.init db, fun _ => none, []⟩

def db (s : St) : Database := s.base.db

def setCall (s : St) (c : ℕ) (call : Call) : St := { s with calls := Function.update s.calls c (some call) }

def setPhase (s : St) (c : ℕ) (call : Call) (phase : Phase) : St := s.setCall c { call with phase := phase }

def fail (s : St) (c : ℕ) : St :=
  match s.calls c with
  | none => s
  | some call => s.setPhase c call call.phase.fail

def start (s : St) (c : ℕ) (p : Tx) : St := { s with base := step Lock.Conflicts s.base (.start c p) }

def exec (s : St) (c : ℕ) : St :=
  { s with
    base := step Lock.Conflicts s.base (.exec c)
    committed := s.committed ++ (committing s.base (.exec c)).toList.map (·.2) }

end St

/-- `find_effective_principal_ids` -/
def effectivePrincipalIds (db : Iam) (u : Uuid) : Option (Finset Uuid) :=
  db.findEffectivePrincipalIds u (db.groupMemberships.length + 2)

/-- `Depends(get_authenticated_identity)` -/
def authenticated (settings : Settings) (verifier : Option (Str → Verdict)) (authorization : Option Str)
    (principalId identifierId : Uuid) (now : Time) : Phase :=
  match getAuthenticatedIdentity settings verifier authorization with
  | .error r => .answered r
  | .ok identity => .resolving ⟨identity, principalId, identifierId, now⟩ []

def gatewayStep (settings : Settings) (s : St) : Op → St
  | .receive c e verifier authorization principalId identifierId now =>
    match s.calls c with
    | some _ => s
    | none => s.setCall c ⟨e, authenticated settings verifier authorization principalId identifierId now⟩
  | .begin c id now t =>
    match s.calls c with
    | some ⟨_, .resolving login results⟩ =>
      match Provisioning.resolve settings.jitEnabled login results with
      | some p => s.start c (resolveTxn p)
      | none => s
    | some ⟨e, .serving _ x replies⟩ =>
      match e.command x id now t replies with
      | some q => s.start c (q.txn settings.uploads (.served c x e))
      | none => s
    | _ => s
  | .exec c =>
    match ending s.base (.exec c), s.calls c with
    | some a, some call => (s.exec c).setPhase c call (call.phase.next call.endpoint a)
    | _, _ => s.exec c
  | .resolveEffectivePrincipals c =>
    match s.calls c with
    | some ⟨e, .authorizing identity x⟩ =>
      match effectivePrincipalIds s.db.iam x with
      | some ids => s.setCall c ⟨e, .permitting identity x ids⟩
      | none => s
    | _ => s
  | .hasPermission c now =>
    match s.calls c with
    | some ⟨e, .permitting identity x ids⟩ =>
      match e.permission with
      | some P =>
        if s.db.iam.hasPermission ids P.value now = true then s.setCall c ⟨e, .serving identity x []⟩
        else s.setCall c ⟨e, .answered insufficientPermissions⟩
      | none => s
    | _ => s
  | .abort c => { s with base := step Lock.Conflicts s.base (.abort c) }.fail c
  | .fail c => s.fail c

/-- what a step can do to the sessions and the commits -/
inductive StepCase (settings : Settings) (s : St) : Op → Sys Database Lock Answer → List Answer → Prop where
  | same (o : Op) : StepCase settings s o s.base s.committed
  | resolve {c : ℕ} {id : Uuid} {now t : Time} {e : Endpoint} {login : Provisioning.Call}
      {results : List Provisioning.Outcome} {p : Provisioning.Tx} (hcall : s.calls c = some ⟨e, .resolving login results⟩)
      (hp : Provisioning.resolve settings.jitEnabled login results = some p) :
      StepCase settings s (.begin c id now t) (step Lock.Conflicts s.base (.start c (resolveTxn p))) s.committed
  | serve {c : ℕ} {id : Uuid} {now t : Time} {e : Endpoint} {identity : AuthenticatedIdentity} {x : Uuid}
      {replies : List Reply} {q : Command} (hcall : s.calls c = some ⟨e, .serving identity x replies⟩)
      (hq : e.command x id now t replies = some q) :
      StepCase settings s (.begin c id now t)
        (step Lock.Conflicts s.base (.start c (q.txn settings.uploads (.served c x e)))) s.committed
  | exec (c : ℕ) : StepCase settings s (.exec c) (step Lock.Conflicts s.base (.exec c))
      (s.committed ++ (committing s.base (.exec c)).toList.map (·.2))
  | abort (c : ℕ) : StepCase settings s (.abort c) (step Lock.Conflicts s.base (.abort c)) s.committed

theorem fail_base (s : St) (c : ℕ) : (s.fail c).base = s.base ∧ (s.fail c).committed = s.committed := by
  unfold St.fail
  split <;> exact ⟨rfl, rfl⟩

theorem step_cases (settings : Settings) (s : St) (o : Op) :
    StepCase settings s o (gatewayStep settings s o).base (gatewayStep settings s o).committed := by
  cases o with
  | receive c =>
    simp only [gatewayStep]
    split <;> exact .same _
  | begin c id now t =>
    simp only [gatewayStep]
    split
    · next hcall =>
      split
      · next hp => exact .resolve hcall hp
      · exact .same _
    · next hcall =>
      split
      · next hq => exact .serve hcall hq
      · exact .same _
    · exact .same _
  | exec c =>
    simp only [gatewayStep]
    split <;> exact .exec c
  | resolveEffectivePrincipals c =>
    simp only [gatewayStep]
    split
    · split <;> exact .same _
    · exact .same _
  | hasPermission c =>
    simp only [gatewayStep]
    split
    · split
      · split_ifs <;> exact .same _
      · exact .same _
    · exact .same _
  | abort c =>
    simp only [gatewayStep, (fail_base _ c).1, (fail_base _ c).2]
    exact .abort c
  | fail c =>
    simp only [gatewayStep, (fail_base _ c).1, (fail_base _ c).2]
    exact .same _

/-! ## How the transactions end -/

/-- the permission of the route is one of the schema `iam` -/
def Endpoint.ChangesIam (e : Endpoint) : Prop := ∃ P, e.permission = some P ∧ P.Iam

/-- the session serves the call `c` for the principal `x`: it commits with a result, and what it rolls back has raised or,
as the only service of the route, has found nothing to change -/
structure Serves (c : ℕ) (x : Uuid) (e : Endpoint) (p : Tx) : Prop where
  outcomes : Outcomes
    (fun w a => ∃ r, a = .served c x e r ∧ ¬ r.Raised ∧
      (¬ e.ChangesIam → ∀ db, (w db).provisioning = db.provisioning))
    (fun a => ∃ r, a = .served c x e r ∧ (r.Raised ∨ r = .identity .unchanged ∧ e.services = 1)) p

variable {e : Endpoint} {c : ℕ} {x : Uuid}

theorem Reply.not_raised {o : Knowledge.Outcome} (ho : ∀ error, o ≠ .raised error) : ¬ (Reply.knowledge o).Raised := by
  cases o with
  | raised error => exact absurd rfl (ho error)
  | _ => exact fun h => h rfl

theorem ingestNext_ne_identity {command : IngestDocument} {id : Uuid} {now t' : Time} {replies : List Reply}
    {q : Identity.Request} : ingestNext command x id now replies ≠ some (.identity q t') := by
  unfold ingestNext
  split <;> exact fun h => by cases h

/-- only the routes with a permission of the schema `iam` call the identity services, each once -/
theorem changesIam_of_identity {q : Identity.Request} {id : Uuid} {now t t' : Time} {replies : List Reply}
    (hq : e.command x id now t replies = some (.identity q t')) : e.ChangesIam ∧ e.services = 1 := by
  cases replies with
  | nil =>
    cases e <;> simp only [Endpoint.command, Endpoint.first, Option.some.injEq, reduceCtorEq] at hq <;>
      exact ⟨⟨_, rfl, trivial⟩, rfl⟩
  | cons r replies =>
    cases e with
    | runIngestionPipeline command keyId => exact absurd hq ingestNext_ne_identity
    | _ => cases hq

/-- **The services of a route** serve the call. -/
theorem serves_command {uploads : UploadSettings} {id : Uuid} {now t : Time} {replies : List Reply} {q : Command}
    (hq : e.command x id now t replies = some q) : Serves c x e (q.txn uploads (.served c x e)) := by
  constructor
  cases q with
  | identity q t' =>
    obtain ⟨hiam, hone⟩ := changesIam_of_identity hq
    refine outcomes_zoom (outcomes_zoom (outcomes_of_ends (txn_settles q t')) (fun w r hr => ?_) fun r hr => ?_)
      (C := fun _ a => ∃ o, a = .iam o ∧ o.outcome = .done) (B := fun a => ∃ o, a = .iam o ∧ o.outcome ≠ .done)
      (fun w a ha => ?_) fun a ha => ?_
    · exact ⟨r, rfl, hr.2⟩
    · exact ⟨r, rfl, hr.2⟩
    · obtain ⟨o, rfl, ho⟩ := ha
      refine ⟨_, rfl, ?_, fun h => absurd hiam h⟩
      simp [Reply.of, ho, Reply.Raised, Reply.errorStatus]
    · obtain ⟨o, rfl, ho⟩ := ha
      refine ⟨_, rfl, ?_⟩
      simp only [Reply.of, Reply.Raised]
      cases hout : o.outcome with
      | done => exact absurd hout ho
      | unchanged => exact .inr ⟨rfl, hone⟩
      | raised error => exact .inl (Option.some_ne_none _)
  | knowledge q =>
    refine outcomes_zoom (Knowledge.txn_concludes uploads q).outcomes (fun w a ha => ?_) fun a ha => ?_
    · obtain ⟨hw, o, rfl, ho⟩ := ha
      refine ⟨_, rfl, Reply.not_raised ho, fun _ db => ?_⟩
      simp [Database.provisioning, Database.setKnowledge, hw]
    · obtain ⟨error, rfl⟩ := ha
      exact ⟨_, rfl, .inl (Option.some_ne_none _)⟩
  | updateDocument d patch updatedAt =>
    refine outcomes_zoom Knowledge.updateDocument_concludes (fun w a ha => ?_) fun a ha => ?_
    · obtain ⟨hw, o, rfl, ho⟩ := ha
      refine ⟨_, rfl, Reply.not_raised ho, fun _ db => ?_⟩
      simp [Database.provisioning, Database.setKnowledge, hw]
    · obtain ⟨error, rfl⟩ := ha
      exact ⟨_, rfl, .inl (Option.some_ne_none _)⟩
  | ingestion => exact ⟨_, rfl, fun h => h rfl, fun _ _ => rfl⟩

/-! ## What a transaction of `resolve` can return -/

/-- the program returns a principal only if it has `seen` it, or sees it, as the usable principal of the identity, or
makes it so -/
def Finds (key : String × String) (seen : Uuid → Prop) : Provisioning.Tx → Prop
  | .stmt _ k => ∀ d : Provisioning.Database, Finds key (fun x => seen x ∨ d.Linked key ⟨x, true, none⟩) (k d)
  | .commit w o => ∀ x, o = .returned x → ∀ d : Provisioning.Database, (w d).Linked key ⟨x, true, none⟩
  | .rollback o => ∀ x, o = .returned x → seen x

variable {key : String × String} {seen seen' : Uuid → Prop}

theorem Finds.mono {p : Provisioning.Tx} (h : Finds key seen p) (hseen : ∀ x, seen x → seen' x) : Finds key seen' p := by
  induction p generalizing seen seen' with
  | stmt rows k ih => exact fun d => ih d (h d) fun x hx => hx.imp_left (hseen x)
  | commit w o => exact h
  | rollback o => exact fun x hx => hseen x (h x hx)

theorem linked_of_row {d : Provisioning.Database} {l : Provisioning.LocalUserIdentity} (hl : l ∈ d.oidcRows key) :
    d.Linked key l := by
  simp only [Provisioning.Database.oidcRows, List.mem_flatMap, List.mem_map, List.mem_filter, decide_eq_true_eq] at hl
  obtain ⟨y, ⟨hy, hof⟩, u, ⟨-, rfl⟩, p, ⟨hp, hid⟩, rfl⟩ := hl
  exact ⟨y, hy, hof, p, hp, hid, rfl⟩

/-- a lookup returns the usable principal that it finds -/
theorem finds_lookup {identity : AuthenticatedIdentity} {k : Option Provisioning.LocalUserIdentity → Provisioning.Tx}
    (hsome : ∀ l, k (some l) = .rollback (Provisioning.ensureUsable l))
    (hnone : ∀ seen, Finds identity.key seen (k none)) :
    Finds identity.key seen (Provisioning.findByOidcSubject identity k) := by
  intro d
  beta_reduce
  split
  · exact hnone _
  · next l hrows =>
    rw [hsome]
    intro x hx
    obtain ⟨hid, hactive, hdeleted⟩ := Provisioning.usable_of_returned hx.symm
    have hl : d.Linked identity.key l := linked_of_row (by rw [hrows]; exact List.mem_singleton_self l)
    have heq : l = ⟨x, true, none⟩ := by rw [← hid, ← hactive, ← hdeleted]
    exact .inr (heq ▸ hl)
  · intro x hx
    cases hx

theorem finds_raised {error : Provisioning.ResolutionError} : Finds key seen (.rollback (.raised error)) :=
  fun _ hx => by cases hx

theorem finds_provisionUser (login : Provisioning.Call) (seen : Uuid → Prop) :
    Finds login.identity.key seen (Provisioning.provisionUser login) := by
  intro d
  beta_reduce
  split
  · intro d
    beta_reduce
    split
    · intro d
      beta_reduce
      generalize Provisioning.identifierViolations _ _ = es
      unfold Provisioning.identifierInserted
      split
      · intro x hx d
        rw [← Provisioning.Outcome.returned.inj hx]
        exact Provisioning.linked_write login d
      · split_ifs
        · intro x hx
          cases hx
        · exact finds_raised
      · exact finds_raised
    · exact finds_raised
  · exact finds_raised

/-- A transaction of `resolve` returns a principal only if it finds it, or makes it, the usable principal of the identity. -/
theorem finds_resolve {jitEnabled : Bool} {login : Provisioning.Call} {rs : List Provisioning.Outcome}
    {p : Provisioning.Tx} (hp : Provisioning.resolve jitEnabled login rs = some p) : Finds login.identity.key seen p := by
  unfold Provisioning.resolve at hp
  split at hp
  · cases hp
    refine finds_lookup (fun _ => rfl) fun seen x hx => ?_
    split_ifs at hx
  · cases hp
    exact finds_lookup (fun _ => rfl) (finds_provisionUser login)
  · cases hp
    exact finds_lookup (fun _ => rfl) fun _ => finds_raised
  · cases hp

end AtlasRag.Api
