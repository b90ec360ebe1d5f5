/-
The routes of the API that may change the schemas `iam` and `knowledge`, and `/auth/me`: who may use them, which
transactions each one runs, and how their outcome is answered.

`POST /ingestion/pipeline` runs five transactions, one after the other; the last two write the schema `ingestion`, whose
tables are left out here (`Ingestion.Pipeline` has them), as is the object storage of the uploads (`Knowledge.Upload`). Every
other route runs one. The queries are left out, and `POST /ingestion/artifacts/{artifact_id}/extraction`, which only reads.

The payloads are those that the request models accept, and the checks that the two upload handlers make themselves: a file
name that is not blank, and a time zone in `source_updated_at`. A payload that is refused is answered with 422, and nothing
is called.
-/
import AtlasRag.Extraction.Normalization
import AtlasRag.Identity.Superadmin
import AtlasRag.Identity.Provisioning
import AtlasRag.Ingestion.Pipeline
import AtlasRag.Knowledge.Edits

namespace AtlasRag.Api

open AtlasRag.Platform AtlasRag.Identity AtlasRag.Knowledge
open AtlasRag.Identity.Provisioning (AuthenticatedIdentity ResolutionError)
open AtlasRag.Ingestion.Pipeline (IngestDocument)

/-! ## Permissions -/

inductive Permission where
  | iamPrincipalsManage
  | iamRolesManage
  | iamGroupsManage
  | iamPermissionsManage
  | knowledgeDocumentsManage
  | knowledgeDocumentAclManage
deriving DecidableEq, Repr

def Permission.value : Permission → String
  | .iamPrincipalsManage => "iam.principals.manage"
  | .iamRolesManage => "iam.roles.manage"
  | .iamGroupsManage => "iam.groups.manage"
  | .iamPermissionsManage => "iam.permissions.manage"
  | .knowledgeDocumentsManage => "knowledge.documents.manage"
  | .knowledgeDocumentAclManage => "knowledge.document_acl.manage"

/-- the permissions of the routes that change the schema `iam` -/
def Permission.Iam : Permission → Prop
  | .knowledgeDocumentsManage | .knowledgeDocumentAclManage => False
  | _ => True

instance (P : Permission) : Decidable P.Iam := by
  cases P <;> first | exact isTrue trivial | exact isFalse id

theorem Permission.value_mem (P : Permission) : P.value ∈ ALL_MANAGEMENT_PERMISSIONS := by
  cases P <;> decide

/-! ## Requests -/

structure DocumentCreateRequest where
  canonicalKey : String
  title : String
  description : Option String
  documentType : Option String
  department : Option String
  defaultLanguageCode : Option String
  metadata : JsonObject

structure DocumentAclGrantCreateRequest where
  principalId : Uuid
  permission : DocumentPermission
  expiresAt : Option Time

/-- a route, with the parameters of its path, and its payload -/
inductive Endpoint where
  | authenticatedUser
  | addGroupMember (groupId memberId : Uuid)
  | removeGroupMember (groupId memberId : Uuid)
  | assignUserRole (userId roleId : Uuid)
  | revokeUserRole (userId roleId : Uuid)
  | grantPrincipalPermission (principalId : Uuid) (permissionKey : Permission)
  | revokePrincipalPermission (principalId : Uuid) (permissionKey : Permission)
  | activatePrincipal (principalId : Uuid)
  | deactivatePrincipal (principalId : Uuid)
  | retirePrincipal (principalId : Uuid)
  | createDocument (payload : DocumentCreateRequest)
  | updateDocument (documentId : Uuid) (patch : DocumentPatch)
  | deleteDocument (documentId : Uuid)
  | grantDocumentAcl (documentId : Uuid) (payload : DocumentAclGrantCreateRequest)
  | revokeDocumentAcl (documentId grantId : Uuid)
  | createDocumentVersion (documentId : Uuid) (versionLabel : String) (metadata : JsonObject)
  | publishDocumentVersion (documentId versionId : Uuid) (effectiveFrom : Time)
  | withdrawDocumentVersion (documentId versionId : Uuid) (effectiveTo : Time)
  | archiveDocumentVersion (documentId versionId : Uuid)
  | uploadDocumentArtifact (command : UploadDocumentArtifact)
  /-- with a UUID to draw for the canonical key -/
  | runIngestionPipeline (command : IngestDocument) (keyId : Uuid)

namespace Endpoint

/-- the argument of `require_permission`; `/auth/me` does without -/
def permission : Endpoint → Option Permission
  | .authenticatedUser => none
  | .addGroupMember .. | .removeGroupMember .. => some .iamGroupsManage
  | .assignUserRole .. | .revokeUserRole .. => some .iamRolesManage
  | .grantPrincipalPermission .. | .revokePrincipalPermission .. => some .iamPermissionsManage
  | .activatePrincipal _ | .deactivatePrincipal _ | .retirePrincipal _ => some .iamPrincipalsManage
  | .createDocument _ | .updateDocument .. | .deleteDocument _ => some .knowledgeDocumentsManage
  | .grantDocumentAcl .. | .revokeDocumentAcl .. => some .knowledgeDocumentAclManage
  | .createDocumentVersion .. | .publishDocumentVersion .. | .withdrawDocumentVersion .. | .archiveDocumentVersion .. =>
    some .knowledgeDocumentsManage
  | .uploadDocumentArtifact _ | .runIngestionPipeline .. => some .knowledgeDocumentsManage

/-- `status_code` of the route -/
def statusCode : Endpoint → ℕ
  | .authenticatedUser => 200
  | .addGroupMember .. | .removeGroupMember .. | .assignUserRole .. | .revokeUserRole .. => 204
  | .grantPrincipalPermission .. | .revokePrincipalPermission .. => 204
  | .activatePrincipal _ | .deactivatePrincipal _ | .retirePrincipal _ => 204
  | .createDocument _ | .createDocumentVersion .. | .uploadDocumentArtifact _ | .grantDocumentAcl .. => 201
  | .deleteDocument _ | .revokeDocumentAcl .. => 204
  | .updateDocument .. | .publishDocumentVersion .. | .withdrawDocumentVersion .. | .archiveDocumentVersion .. => 200
  | .runIngestionPipeline .. => 202

/-- how many transactions the handler runs -/
def services : Endpoint → ℕ
  | .authenticatedUser => 0
  | .runIngestionPipeline .. => 5
  | _ => 1

end Endpoint

/-! ## Services -/

/-- the call of a service -/
inductive Command where
  /-- a transaction that begins at the database time `t` -/
  | identity (q : Identity.Request) (t : Time)
  | knowledge (q : Knowledge.Request)
  | updateDocument (documentId : Uuid) (patch : DocumentPatch) (updatedAt : Time)
  /-- `create_run` or `add_item` of the ingestion lifecycle -/
  | ingestion

/-- what a service answers -/
inductive Reply where
  | identity (o : Identity.Outcome)
  | knowledge (o : Knowledge.Outcome)
  | ingestion

/-- `command.canonical_key or f"ingestion-{uuid4()}"` -/
def canonicalKeyOf (command : IngestDocument) (keyId : Uuid) : String :=
  (command.canonicalKey.filter (· ≠ "")).getD ("ingestion-" ++ uuidText keyId)

/-- what the handler of the route calls first, for the principal that the dependency returns; `id` is what `uuid4` draws,
`now` the clock of the application -/
def Endpoint.first (actorPrincipalId id : Uuid) (now t : Time) : Endpoint → Option Command
  | .authenticatedUser => none
  | .addGroupMember g m => some (.identity (.addGroupMember g m actorPrincipalId now) t)
  | .removeGroupMember g m => some (.identity (.removeGroupMember g m actorPrincipalId now) t)
  | .assignUserRole u r => some (.identity (.assignRole u r actorPrincipalId now) t)
  | .revokeUserRole u r => some (.identity (.revokeRole u r actorPrincipalId now) t)
  | .grantPrincipalPermission x P => some (.identity (.grantPermission x P.value actorPrincipalId now) t)
  | .revokePrincipalPermission x P => some (.identity (.revokePermission x P.value actorPrincipalId now) t)
  | .activatePrincipal x => some (.identity (.activatePrincipal x) t)
  | .deactivatePrincipal x => some (.identity (.deactivatePrincipal x) t)
  | .retirePrincipal x => some (.identity (.retirePrincipal x) t)
  | .createDocument p => some (.knowledge (.createDocument ⟨id, actorPrincipalId, p.canonicalKey, p.title, p.description,
      p.documentType, p.department, p.defaultLanguageCode, p.metadata, now, now⟩))
  | .updateDocument d patch => some (.updateDocument d patch now)
  | .deleteDocument d => some (.knowledge (.deleteDocument d now))
  | .grantDocumentAcl d p =>
    some (.knowledge (.grantAcl ⟨id, d, p.principalId, p.permission, now, actorPrincipalId, p.expiresAt⟩))
  | .revokeDocumentAcl d g => some (.knowledge (.revokeAcl d g actorPrincipalId now))
  | .createDocumentVersion d label metadata =>
    some (.knowledge (.createVersion ⟨id, d, label, some actorPrincipalId, metadata, now⟩))
  | .publishDocumentVersion d v effectiveFrom => some (.knowledge (.publishVersion d v effectiveFrom now))
  | .withdrawDocumentVersion d v effectiveTo => some (.knowledge (.withdrawVersion d v effectiveTo now))
  | .archiveDocumentVersion d v => some (.knowledge (.archiveVersion d v now))
  | .uploadDocumentArtifact command => some (.knowledge (.upload command id actorPrincipalId now))
  | .runIngestionPipeline command keyId => some (.knowledge (.createDocument ⟨id, actorPrincipalId,
      canonicalKeyOf command keyId, command.title, none, none, none, some command.languageCode, [], now, now⟩))

/-- what `ingest` calls after these replies -/
def ingestNext (command : IngestDocument) (actorPrincipalId id : Uuid) (now : Time) : List Reply → Option Command
  | [.knowledge (.document d)] =>
    some (.knowledge (.createVersion ⟨id, d.id, command.versionLabel, some actorPrincipalId, [], now⟩))
  | [.knowledge (.document d), .knowledge (.version v)] =>
    some (.knowledge (.upload ⟨d.id, v.id, command.artifactKey, command.languageCode, command.sourceName, none,
      command.contentType, command.content, none⟩ id actorPrincipalId now))
  | [_, _, .knowledge (.uploaded _)] => some .ingestion
  | [_, _, _, .ingestion] => some .ingestion
  | _ => none

/-- what the handler of the route calls after the replies of the calls before -/
def Endpoint.command (actorPrincipalId id : Uuid) (now t : Time) (e : Endpoint) : List Reply → Option Command
  | [] => e.first actorPrincipalId id now t
  | replies =>
    match e with
    | .runIngestionPipeline command _ => ingestNext command actorPrincipalId id now replies
    | _ => none

/-! ## Responses -/

/-- a status with the `detail` of an `HTTPException`; there is none where the body is that of the route, or the text of
another exception -/
structure Response where
  status : ℕ
  detail : Option String
deriving DecidableEq, Repr

def identityStatus : IdentityError → ℕ
  | .principalNotFound .. | .groupMembershipNotFound .. | .roleAssignmentUserNotFound _ | .roleAssignmentRoleNotFound _
  | .roleAssignmentNotFound .. | .permissionTargetNotFound _ | .permissionNotFound _ | .permissionGrantNotFound .. => 404
  | .principalRetired .. | .principalInactive .. | .groupSelfMembership .. | .groupPrincipalRequired _
  | .groupMemberTypeNotAllowed .. | .groupMembershipAlreadyExists .. | .groupCycleDetected .. | .roleAssignmentConflict ..
  | .permissionTargetRetired _ | .permissionTargetInactive _ | .permissionGrantConflict .. | .protectedSuperadminRole _
  | .lastSuperadminViolation .. => 409
  | .integrity _ => 500

def knowledgeStatus : KnowledgeError → ℕ
  | .documentNotFound _ | .documentAclGrantNotFound .. | .documentAclPrincipalNotFound _ | .documentVersionNotFound ..
  | .documentVersionDocumentNotFound _ => 404
  | .documentAclExpirationInvalid .. | .documentVersionInvalidTransition .. | .documentVersionInvalidEffectiveRange ..
  | .documentArtifactEmpty | .documentArtifactKeyInvalid _ | .documentArtifactLanguageCodeInvalid _
  | .documentArtifactContentTypeInvalid _ => 422
  | .documentDeleted _ | .documentCanonicalKeyConflict _ | .documentAclGrantConflict .. | .documentVersionConflict ..
  | .documentVersionOverlap .. | .documentArtifactConflict .. | .documentArtifactStorageLocationConflict ..
  | .documentArtifactVersionNotDraft .. => 409
  | .documentArtifactTooLarge .. => 413
  | .multipleResultsFound | .integrity _ => 500

namespace Reply

/-- the exception handlers -/
def errorStatus : Reply → Option ℕ
  | .identity (.raised e) => some (identityStatus e)
  | .knowledge (.raised e) => some (knowledgeStatus e)
  | _ => none

/-- the service has raised -/
def Raised (r : Reply) : Prop := r.errorStatus ≠ none

instance (r : Reply) : Decidable r.Raised := inferInstanceAs (Decidable (_ ≠ _))

end Reply

/-- the response to what the service of the route does -/
def Endpoint.response (e : Endpoint) (r : Reply) : Response := ⟨r.errorStatus.getD e.statusCode, none⟩

/-- of `IdentityResolutionError`, which `get_local_principal_id` translates, and of what nobody does -/
def resolutionResponse : ResolutionError → Response
  | .notProvisioned | .disabled | .retired | .provisioningConflict =>
    ⟨403, some "Authenticated identity has no usable local access"⟩
  | .multipleResultsFound | .database _ => ⟨500, none⟩

def insufficientPermissions : Response := ⟨403, some "Insufficient permissions"⟩

/-- the response to an exception that nobody handles -/
def internalServerError : Response := ⟨500, none⟩

theorem identityStatus_error (e : IdentityError) : 400 ≤ identityStatus e := by
  cases e <;> simp [identityStatus]

theorem knowledgeStatus_error (e : KnowledgeError) : 400 ≤ knowledgeStatus e := by
  cases e <;> simp [knowledgeStatus]

theorem Endpoint.services_pos {e : Endpoint} {P : Permission} (h : e.permission = some P) : 0 < e.services := by
  cases e with
  | authenticatedUser => cases h
  | _ => simp [services]

theorem Endpoint.statusCode_success (e : Endpoint) : e.statusCode < 300 := by
  cases e <;> simp [statusCode]

/-- a service that raises is answered with an error, one that does not with the status of the route -/
theorem Endpoint.response_raised (e : Endpoint) (r : Reply) : 400 ≤ (e.response r).status ↔ r.Raised := by
  have hsuccess : ¬ 400 ≤ e.statusCode := by have := e.statusCode_success; omega
  match r with
  | .identity (.raised error) => exact iff_of_true (identityStatus_error error) (Option.some_ne_none _)
  | .knowledge (.raised error) => exact iff_of_true (knowledgeStatus_error error) (Option.some_ne_none _)
  | .identity .done | .identity .unchanged => exact iff_of_false hsuccess fun h => h rfl
  | .knowledge .done | .knowledge (.document _) | .knowledge (.version _) | .knowledge (.artifact _)
  | .knowledge (.uploaded _) | .knowledge (.grant _) | .ingestion => exact iff_of_false hsuccess fun h => h rfl

/-! ## Authentication -/

/-- what the token verifier does with a token: it raises `TokenVerificationError`, or something else -/
inductive Verdict where
  | identity (identity : AuthenticatedIdentity)
  | untrusted
  | failed
deriving DecidableEq, Repr

structure Settings where
  disableAuth : Bool
  /-- the identity of every request if the authentication is disabled -/
  seedUser : AuthenticatedIdentity
  jitEnabled : Bool
  uploads : UploadSettings

def BEARER : Str := str "bearer"

/-- `_bearer_token`; the value of a header is ASCII -/
def bearerToken (authorization : Option Str) : Except Response Str :=
  match authorization with
  | none => .error ⟨401, some "Authentication required"⟩
  | some header =>
    let scheme := header.takeWhile (· ≠ 32)
    let token := Str.strip (header.drop (scheme.length + 1))
    if Extraction.lower scheme ≠ BEARER ∨ (32 : CodePoint) ∉ header ∨ token = [] then
      .error ⟨401, some "Invalid authorization header"⟩
    else .ok token

/-- `get_authenticated_identity`; `verifier` is `none` if the application has not configured one -/
def getAuthenticatedIdentity (settings : Settings) (verifier : Option (Str → Verdict)) (authorization : Option Str) :
    Except Response AuthenticatedIdentity :=
  if settings.disableAuth then .ok settings.seedUser
  else
    match verifier with
    | none => .error internalServerError
    | some verify =>
      match bearerToken authorization with
      | .error r => .error r
      | .ok token =>
        match verify token with
        | .identity identity => .ok identity
        | .untrusted => .error ⟨401, some "Invalid authentication token"⟩
        | .failed => .error internalServerError

/-- the caller has a token that is verified to be of the identity; while the authentication is disabled, everybody is the seed
user -/
def Authenticates (settings : Settings) (verifier : Option (Str → Verdict)) (authorization : Option Str)
    (identity : AuthenticatedIdentity) : Prop :=
  if settings.disableAuth then identity = settings.seedUser
  else ∃ verify token, verifier = some verify ∧ bearerToken authorization = .ok token ∧ verify token = .identity identity

end AtlasRag.Api
