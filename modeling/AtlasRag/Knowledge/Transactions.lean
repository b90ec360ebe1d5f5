/-
The transactions of the knowledge services, statement by statement, as programs of `Lib.Transaction`, with the lock modes
of PostgreSQL.

A SELECT FOR UPDATE, and an UPDATE, choose their rows in the snapshot with which the statement starts, wait for the locks,
and check the WHERE clause again. An INSERT holds its unique keys, and locks the rows that it references FOR KEY SHARE,
which waits for a FOR UPDATE lock and for no other. A write of an effective period holds the old and the new period; it
waits for a transaction that writes an overlapping one.

A plain SELECT locks nothing. Where a service goes on to rely on the row that it has read so, the row is `noted`: that
excludes nobody, but a schedule can be examined for it.

The object storage has no part in a transaction; `Knowledge.Upload` has it.
-/
import AtlasRag.Knowledge.Requests
import AtlasRag.Lib.LockMode

namespace AtlasRag.Knowledge

open AtlasRag.Lib AtlasRag.Lib.Table AtlasRag.Platform
open AtlasRag.Lib.Transaction (Txn)
open AtlasRag.Identity (Iam IamRow)

/-! ## Locks -/

inductive Row where
  | document (id : Uuid)
  | version (id : Uuid)
  | grant (id : Uuid)
deriving DecidableEq, Repr

/-- the row-level locks that the statements take, and the mark of a row that was read without one -/
inductive Strength where
  | noted
  | keyShare
  | noKeyUpdate
  | update
deriving DecidableEq, Repr

def Strength.conflicts : Strength → Strength → Bool
  | .update, .keyShare | .update, .noKeyUpdate | .update, .update => true
  | .keyShare, .update | .noKeyUpdate, .update | .noKeyUpdate, .noKeyUpdate => true
  | _, _ => false

inductive Lock where
  | row (row : Row) (strength : Strength)
  | key (key : Key)
  /-- an effective period, in the index of the exclusion constraint -/
  | period (documentId : Uuid) (effectiveFrom : Time) (effectiveTo : Option Time)
  | iam (row : IamRow)
  /-- FOR KEY SHARE on a row of `principals` -/
  | principalKey (id : Uuid)
deriving DecidableEq, Repr

def Lock.conflicts : Lock → Lock → Bool
  | .row r s, .row r' s' => r = r' ∧ s.conflicts s'
  | .key k, .key k' => k = k'
  | .period d f x, .period d' f' x' => d = d' ∧ (∀ y ∈ x', f < y) ∧ ∀ y ∈ x, f' < y
  | .iam r, .iam r' => r = r'
  | .iam r, .principalKey p => r = .principal p
  | .principalKey p, .iam r => r = .principal p
  | _, _ => false

abbrev Lock.Conflicts (x y : Lock) : Prop := x.conflicts y = true

theorem Strength.conflicts_symm {s s' : Strength} (h : s.conflicts s' = true) : s'.conflicts s = true := by
  revert h
  cases s <;> cases s' <;> decide

theorem Lock.conflicts_symm (x y : Lock) (h : x.Conflicts y) : y.Conflicts x := by
  cases x <;> cases y <;> simp only [Lock.Conflicts, Lock.conflicts, decide_eq_true_eq, Bool.false_eq_true] at h ⊢
  case row.row => exact ⟨h.1.symm, Strength.conflicts_symm h.2⟩
  case period.period => exact ⟨h.1.symm, h.2.2, h.2.1⟩
  all_goals first | exact h.symm | exact h

/-- the lock of the effective period of a version -/
def DocumentVersion.periodLock (v : DocumentVersion) : List Lock :=
  v.effectiveFrom.toList.map fun f => .period v.documentId f v.effectiveTo

abbrev Tx := Txn KnowledgeDb Lock Answer

abbrev State := LockMode.Sys KnowledgeDb Lock Answer

/-! ## Changes of the tables -/

def Document.delete (deletedAt : Time) (d : Document) : Document :=
  { d with deletedAt := some deletedAt, updatedAt := deletedAt }

def DocumentACL.revoke (actor : Uuid) (revokedAt : Time) (g : DocumentACL) : DocumentACL :=
  { g with revokedAt := some revokedAt, revokedByPrincipalId := some actor }

/-- the WHERE clause of `revoke_grant` -/
def DocumentACL.Revocable (documentId grantId : Uuid) (g : DocumentACL) : Prop :=
  g.documentId = documentId ∧ g.id = grantId ∧ g.revokedAt = none

instance (documentId grantId : Uuid) (g : DocumentACL) : Decidable (g.Revocable documentId grantId) :=
  inferInstanceAs (Decidable (_ ∧ _ ∧ _))

namespace DocumentVersion

/-- the SET clauses of the repository -/
def publish (publishedAt effectiveFrom : Time) (v : DocumentVersion) : DocumentVersion :=
  { v with status := .published, publishedAt := some publishedAt, effectiveFrom := some effectiveFrom, updatedAt := publishedAt }

def closeAt (effectiveTo updatedAt : Time) (v : DocumentVersion) : DocumentVersion :=
  { v with effectiveTo := some effectiveTo, updatedAt := updatedAt }

def withdraw (effectiveTo updatedAt : Time) (v : DocumentVersion) : DocumentVersion :=
  { v with status := .withdrawn, effectiveTo := some effectiveTo, updatedAt := updatedAt }

def archive (updatedAt : Time) (v : DocumentVersion) : DocumentVersion :=
  { v with status := .archived, updatedAt := updatedAt }

end DocumentVersion

namespace KnowledgeDb

def addDocument (db : KnowledgeDb) (d : Document) : KnowledgeDb := { db with documents := db.documents ++ [d] }

def addVersion (db : KnowledgeDb) (v : DocumentVersion) : KnowledgeDb := { db with versions := db.versions ++ [v] }

def addArtifact (db : KnowledgeDb) (a : DocumentArtifact) : KnowledgeDb := { db with artifacts := db.artifacts ++ [a] }

def addGrant (db : KnowledgeDb) (g : DocumentACL) : KnowledgeDb := { db with acl := db.acl ++ [g] }

def softDelete (db : KnowledgeDb) (d : Uuid) (deletedAt : Time) : KnowledgeDb :=
  { db with documents := mapWhere (fun x => x.id = d ∧ x.deletedAt = none) (Document.delete deletedAt) db.documents }

def revokeGrant (db : KnowledgeDb) (d g actor : Uuid) (revokedAt : Time) : KnowledgeDb :=
  { db with acl := mapWhere (DocumentACL.Revocable d g) (DocumentACL.revoke actor revokedAt) db.acl }

/-- an UPDATE of a version by its key -/
def setVersion (db : KnowledgeDb) (d v : Uuid) (set : DocumentVersion → DocumentVersion) : KnowledgeDb :=
  { db with versions := mapWhere (fun x => x.id = v ∧ x.documentId = d) set db.versions }

/-! ## Reads of the repositories -/

/-- `find_open_effective_version` -/
def openVersions (db : KnowledgeDb) (d : Uuid) : List DocumentVersion :=
  db.versions.filter fun x => x.documentId = d ∧ x.effectiveFrom ≠ none ∧ x.effectiveTo = none

/-- `find_effective_at` -/
def effectiveVersions (db : KnowledgeDb) (d : Uuid) (t : Time) : List DocumentVersion :=
  db.versions.filter fun x => x.documentId = d ∧ x.EffectiveAt t

def CanonicalKeyExists (db : KnowledgeDb) (canonicalKey : String) : Prop :=
  ∃ x ∈ db.documents, x.canonicalKey = canonicalKey

def HasUnrevokedGrant (db : KnowledgeDb) (d p : Uuid) (permission : DocumentPermission) : Prop :=
  ∃ g ∈ db.acl, g.documentId = d ∧ g.principalId = p ∧ g.permission = permission ∧ g.revokedAt = none

def ArtifactKeyExists (db : KnowledgeDb) (v : Uuid) (artifactKey : String) : Prop :=
  ∃ a ∈ db.artifacts, a.documentVersionId = v ∧ a.artifactKey = artifactKey

def StorageKeyExists (db : KnowledgeDb) (storageProvider storageKey : String) : Prop :=
  ∃ a ∈ db.artifacts, a.storageProvider = storageProvider ∧ a.storageKey = storageKey

instance (db : KnowledgeDb) (canonicalKey : String) : Decidable (db.CanonicalKeyExists canonicalKey) :=
  inferInstanceAs (Decidable (∃ x ∈ db.documents, _))
instance (db : KnowledgeDb) (d p : Uuid) (permission : DocumentPermission) :
    Decidable (db.HasUnrevokedGrant d p permission) := inferInstanceAs (Decidable (∃ g ∈ db.acl, _))
instance (db : KnowledgeDb) (v : Uuid) (artifactKey : String) : Decidable (db.ArtifactKeyExists v artifactKey) :=
  inferInstanceAs (Decidable (∃ a ∈ db.artifacts, _))
instance (db : KnowledgeDb) (storageProvider storageKey : String) :
    Decidable (db.StorageKeyExists storageProvider storageKey) := inferInstanceAs (Decidable (∃ a ∈ db.artifacts, _))

/-! ## What the database refuses -/

def PrincipalExists (db : KnowledgeDb) (p : Uuid) : Prop := p ∈ db.iam.principals.map (·.id)

instance (db : KnowledgeDb) (p : Uuid) : Decidable (db.PrincipalExists p) :=
  inferInstanceAs (Decidable (p ∈ db.iam.principals.map (·.id)))

/-- a new document -/
def documentViolations (db : KnowledgeDb) (d : Document) : List Violation :=
  d.defects ++ uniqueIndex "pk_documents" (.documentId d.id ∈ db.keys) ++
  uniqueIndex DOCUMENT_CANONICAL_KEY_CONSTRAINT (.canonicalKey d.canonicalKey ∈ db.keys) ++
  reference "created_by_principal_id" (∀ p ∈ d.createdByPrincipalId, db.PrincipalExists p)

/-- a new grant -/
def grantViolations (db : KnowledgeDb) (g : DocumentACL) : List Violation :=
  g.defects ++ uniqueIndex "pk_document_acl" (.grantId g.id ∈ db.keys) ++
  uniqueIndex ACTIVE_DOCUMENT_ACL_CONSTRAINT (.activeGrant g.documentId g.principalId g.permission ∈ db.keys) ++
  reference "document_id" (g.documentId ∈ db.documents.map (·.id)) ++
  reference "principal_id" (db.PrincipalExists g.principalId) ++
  reference "granted_by_principal_id" (∀ p ∈ g.grantedByPrincipalId, db.PrincipalExists p)

/-- a version as it is to be written: its own CHECKs, and the effective periods of the others -/
def versionViolations (db : KnowledgeDb) (v : DocumentVersion) : List Violation :=
  v.defects ++ exclusionConstraint DOCUMENT_VERSION_OVERLAP_CONSTRAINT
    (∃ w ∈ db.versions, w.id ≠ v.id ∧ w.documentId = v.documentId ∧ w.Overlaps v)

/-- a new version -/
def newVersionViolations (db : KnowledgeDb) (v : DocumentVersion) : List Violation :=
  db.versionViolations v ++ uniqueIndex "pk_document_versions" (.versionId v.id ∈ db.keys) ++
  uniqueIndex DOCUMENT_VERSION_LABEL_CONSTRAINT (.versionLabel v.documentId v.versionLabel ∈ db.keys) ++
  reference "document_id" (v.documentId ∈ db.documents.map (·.id)) ++
  reference "created_by_principal_id" (∀ p ∈ v.createdByPrincipalId, db.PrincipalExists p)

/-- a new artifact -/
def artifactViolations (db : KnowledgeDb) (a : DocumentArtifact) : List Violation :=
  a.defects ++ uniqueIndex "pk_document_artifacts" (.artifactId a.id ∈ db.keys) ++
  uniqueIndex DOCUMENT_ARTIFACT_KEY_CONSTRAINT (.artifactKey a.documentVersionId a.artifactKey ∈ db.keys) ++
  uniqueIndex DOCUMENT_ARTIFACT_STORAGE_LOCATION_CONSTRAINT (.storageLocation a.storageProvider a.storageKey ∈ db.keys) ++
  reference "document_version_id" (a.documentVersionId ∈ db.versions.map (·.id)) ++
  reference "created_by_principal_id" (∀ p ∈ a.createdByPrincipalId, db.PrincipalExists p)

end KnowledgeDb

/-! ## Programs -/

section Programs

variable (reply : Outcome → Answer)

/-- the transaction raises -/
def raise (e : KnowledgeError) : Tx := .rollback (reply (.raised e))

/-- a SELECT of one row: nothing is locked; the row is noted if it is `relied` on -/
def select {α : Type} (row : α → Row) (relied : α → Bool) (find : KnowledgeDb → Option α) (k : Option α → Tx) : Tx :=
  .stmt (fun db => ((find db).filter relied).toList.map fun x => .row (row x) .noted) fun db => k (find db)

/-- a SELECT of one row, FOR UPDATE -/
def selectForUpdate {α : Type} (lock : α → Lock) (find : KnowledgeDb → Option α) (k : Option α → Tx) : Tx :=
  .read fun db =>
    match find db with
    | none => k none
    | some x => .stmt (fun _ => [lock x]) fun db => k (find db)

theorem alone_selectForUpdate {α : Type} (lock : α → Lock) (find : KnowledgeDb → Option α) (k : Option α → Tx)
    (db : KnowledgeDb) : (selectForUpdate lock find k).alone db = (k (find db)).alone db := by
  simp only [selectForUpdate, Transaction.Txn.read, Transaction.Txn.alone]
  cases hx : find db with
  | none => rfl
  | some x => rw [Transaction.Txn.alone, hx]

/-- an INSERT of a row with these unique keys, that references what `references` locks -/
def insert (keys : List Key) (references : List Lock) (violations : KnowledgeDb → List Violation)
    (refused : List Violation → KnowledgeError) (k : Tx) : Tx :=
  .stmt (fun _ => keys.map .key ++ references) fun db =>
    match violations db with
    | [] => k
    | es => raise reply (refused es)

def findDocument (d : Uuid) (k : Option Document → Tx) : Tx :=
  selectForUpdate (fun x => .row (.document x.id) .update) (·.findDocument d) k

/-- `find_active_by_id`, without and with a lock -/
def findActiveDocument (d : Uuid) (k : Option Document → Tx) : Tx :=
  select (fun x => .document x.id) (fun _ => true) (·.findActiveDocument d) k

def lockActiveDocument (d : Uuid) (k : Option Document → Tx) : Tx :=
  selectForUpdate (fun x => .row (.document x.id) .update) (·.findActiveDocument d) k

/-- `find_by_id` of versions, without and with a lock -/
def findVersion (d v : Uuid) (k : Option DocumentVersion → Tx) : Tx :=
  select (fun x => .version x.id) (fun x => x.status = .draft) (·.findVersion d v) k

def lockVersion (d v : Uuid) (k : Option DocumentVersion → Tx) : Tx :=
  selectForUpdate (fun x => .row (.version x.id) .update) (·.findVersion d v) k

/-- an UPDATE of a version by its key, after what the transaction has written `sofar`; it goes on with the new row -/
def updateVersion (sofar : KnowledgeDb → KnowledgeDb) (d v : Uuid) (set : DocumentVersion → DocumentVersion)
    (refused : List Violation → KnowledgeError) (k : Option DocumentVersion → Tx) : Tx :=
  .stmt (fun db => ((sofar db).findVersion d v).toList.flatMap fun x =>
      .row (.version v) .noKeyUpdate :: (x.periodLock ++ (set x).periodLock)) fun db =>
    match updateWhere (sofar db).versionViolations (fun x => x.id = v ∧ x.documentId = d) set (sofar db).versions with
    | .error es => raise reply (refused es)
    | .ok _ => k (((sofar db).setVersion d v set).findVersion d v)

namespace DocumentManagementService

def createDocument (document : CreateDocument) : Tx :=
  .read fun db =>
    if db.CanonicalKeyExists document.canonicalKey then
      raise reply (.documentCanonicalKeyConflict document.canonicalKey)
    else
      insert reply document.row.keys [.principalKey document.createdByPrincipalId] (·.documentViolations document.row)
        (fun es => if es.head? = some (.unique DOCUMENT_CANONICAL_KEY_CONSTRAINT) then
          .documentCanonicalKeyConflict document.canonicalKey else .integrity es)
        (.commit (·.addDocument document.row) (reply (.document document.row)))

/-- `soft_delete` -/
def softDelete (d : Uuid) (k : Bool → Tx) : Tx :=
  .read fun db =>
    match db.findActiveDocument d with
    | none => k false
    | some _ => .stmt (fun _ => [.row (.document d) .noKeyUpdate]) fun db => k (db.findActiveDocument d).isSome

def deleteDocument (d : Uuid) (deletedAt : Time) : Tx :=
  softDelete d fun deleted =>
    if deleted then .commit (·.softDelete d deletedAt) (reply .done) else raise reply (.documentNotFound d)

end DocumentManagementService

namespace DocumentVersionManagementService

def createVersion (version : CreateDocumentVersion) : Tx :=
  findActiveDocument version.documentId fun
  | none => raise reply (.documentVersionDocumentNotFound version.documentId)
  | some _ =>
    insert reply version.row.keys
      (.row (.document version.documentId) .keyShare :: version.createdByPrincipalId.toList.map .principalKey)
      (·.newVersionViolations version.row)
      (fun es => if es.head? = some (.unique DOCUMENT_VERSION_LABEL_CONSTRAINT) then
        .documentVersionConflict version.documentId version.versionLabel else .integrity es)
      (.commit (·.addVersion version.row) (reply (.version version.row)))

/-- `find_open_effective_version`, FOR UPDATE -/
def findOpenEffectiveVersion (d : Uuid) (k : Option DocumentVersion → Tx) : Tx :=
  .read fun db =>
    let ids := (db.openVersions d).map (·.id)
    .stmt (fun _ => ids.map fun x => .row (.version x) .update) fun db =>
      match (db.openVersions d).filter (·.id ∈ ids) with
      | [] => k none
      | [x] => k (some x)
      | _ => raise reply .multipleResultsFound

/-- the last steps of `publish_version`: `set_published` and the commit -/
def setPublished (sofar : KnowledgeDb → KnowledgeDb) (d v : Uuid) (publishedAt effectiveFrom : Time) : Tx :=
  updateVersion reply sofar d v (DocumentVersion.publish publishedAt effectiveFrom)
    (fun es => if es.head? = some (.exclusion DOCUMENT_VERSION_OVERLAP_CONSTRAINT) then .documentVersionOverlap d v
      else .integrity es) fun
    | none => raise reply (.documentVersionNotFound d v)
    | some updated =>
      .commit (fun db => (sofar db).setVersion d v (DocumentVersion.publish publishedAt effectiveFrom))
        (reply (.version updated))

def publishVersion (d v : Uuid) (effectiveFrom publishedAt : Time) : Tx :=
  lockVersion d v fun
  | none => raise reply (.documentVersionNotFound d v)
  | some version =>
    if version.status ≠ .draft then
      raise reply (.documentVersionInvalidTransition d v version.status .published)
    else
      findOpenEffectiveVersion reply d fun
      | none => setPublished reply id d v publishedAt effectiveFrom
      | some openVersion =>
        match openVersion.effectiveFrom.filter (effectiveFrom ≤ ·) with
        | some f => raise reply (.documentVersionInvalidEffectiveRange f (some effectiveFrom))
        | none =>
          let close := DocumentVersion.closeAt effectiveFrom publishedAt
          updateVersion reply id d openVersion.id close .integrity fun _ =>
            setPublished reply (·.setVersion d openVersion.id close) d v publishedAt effectiveFrom

/-- an UPDATE by `set_withdrawn` or `set_archived`, and the commit -/
def setStatus (d v : Uuid) (set : DocumentVersion → DocumentVersion) : Tx :=
  updateVersion reply id d v set .integrity fun
  | none => raise reply (.documentVersionNotFound d v)
  | some updated => .commit (·.setVersion d v set) (reply (.version updated))

def withdrawVersion (d v : Uuid) (effectiveTo updatedAt : Time) : Tx :=
  lockVersion d v fun
  | none => raise reply (.documentVersionNotFound d v)
  | some version =>
    if version.status ≠ .published then
      raise reply (.documentVersionInvalidTransition d v version.status .withdrawn)
    else
      match version.effectiveFrom.filter (effectiveTo ≤ ·) with
      | some f => raise reply (.documentVersionInvalidEffectiveRange f (some effectiveTo))
      | none => setStatus reply d v (DocumentVersion.withdraw effectiveTo updatedAt)

def archiveVersion (d v : Uuid) (updatedAt : Time) : Tx :=
  lockVersion d v fun
  | none => raise reply (.documentVersionNotFound d v)
  | some version =>
    if version.status ≠ .withdrawn then
      raise reply (.documentVersionInvalidTransition d v version.status .archived)
    else setStatus reply d v (DocumentVersion.archive updatedAt)

end DocumentVersionManagementService

/-- `DocumentArtifactRepository.add` -/
def addArtifact (artifact : CreateDocumentArtifact) (k : Tx) : Tx :=
  insert reply artifact.row.keys
    (.row (.version artifact.documentVersionId) .keyShare :: artifact.createdByPrincipalId.toList.map .principalKey)
    (·.artifactViolations artifact.row)
    (fun es => if es.head? = some (.unique DOCUMENT_ARTIFACT_KEY_CONSTRAINT) then
        .documentArtifactConflict artifact.documentVersionId artifact.artifactKey
      else if es.head? = some (.unique DOCUMENT_ARTIFACT_STORAGE_LOCATION_CONSTRAINT) then
        .documentArtifactStorageLocationConflict artifact.storageProvider artifact.storageKey
      else .integrity es) k

namespace DocumentArtifactManagementService

def createArtifact (d : Uuid) (artifact : CreateDocumentArtifact) : Tx :=
  findVersion d artifact.documentVersionId fun
  | none => raise reply (.documentVersionNotFound d artifact.documentVersionId)
  | some version =>
    if version.status ≠ .draft then
      raise reply (.documentArtifactVersionNotDraft artifact.documentVersionId version.status)
    else addArtifact reply artifact (.commit (·.addArtifact artifact.row) (reply (.artifact artifact.row)))

end DocumentArtifactManagementService

namespace DocumentAclManagementService

def grantAcl (grant : CreateDocumentAclGrant) : Tx :=
  match grant.expiresAt.filter (· ≤ grant.grantedAt) with
  | some x => raise reply (.documentAclExpirationInvalid x grant.grantedAt)
  | none =>
    lockActiveDocument grant.documentId fun
    | none => raise reply (.documentNotFound grant.documentId)
    | some _ =>
      selectForUpdate (fun p => .iam (.principal p.id)) (·.iam.findById grant.principalId) fun
      | none => raise reply (.documentAclPrincipalNotFound grant.principalId)
      | some _ =>
        .read fun db =>
          if db.HasUnrevokedGrant grant.documentId grant.principalId grant.permission then
            raise reply (.documentAclGrantConflict grant.documentId grant.principalId grant.permission)
          else
            insert reply grant.row.keys
              [.row (.document grant.documentId) .keyShare, .principalKey grant.principalId,
                .principalKey grant.grantedByPrincipalId]
              (·.grantViolations grant.row)
              (fun es => if es.head? = some (.unique ACTIVE_DOCUMENT_ACL_CONSTRAINT) then
                .documentAclGrantConflict grant.documentId grant.principalId grant.permission else .integrity es)
              (.commit (·.addGrant grant.row) (reply (.grant grant.row)))

/-- `revoke_grant` and the commit -/
def revokeGrant (d g actor : Uuid) (revokedAt : Time) : Tx :=
  .read fun db =>
    match db.acl.find? (·.Revocable d g) with
    | none => raise reply (.documentAclGrantNotFound d g)
    | some x =>
      .stmt (fun _ => .row (.grant g) .noKeyUpdate :: x.keys.map .key) fun db =>
        match updateWhere DocumentACL.defects (DocumentACL.Revocable d g) (DocumentACL.revoke actor revokedAt) db.acl with
        | .error es => raise reply (.integrity es)
        | .ok (_, n) =>
          if 0 < n then .commit (·.revokeGrant d g actor revokedAt) (reply .done)
          else raise reply (.documentAclGrantNotFound d g)

def revokeAcl (d g actor : Uuid) (revokedAt : Time) : Tx :=
  lockActiveDocument d fun
  | none => raise reply (.documentNotFound d)
  | some _ => revokeGrant reply d g actor revokedAt

end DocumentAclManagementService

namespace DocumentArtifactUploadService

/-- `_validate_target` -/
def validateTarget (d v : Uuid) (k : Tx) : Tx :=
  findDocument d fun
  | none => raise reply (.documentNotFound d)
  | some document =>
    if document.deletedAt ≠ none then raise reply (.documentDeleted d)
    else
      lockVersion d v fun
      | none => raise reply (.documentVersionNotFound d v)
      | some version =>
        if version.status ≠ .draft then raise reply (.documentArtifactVersionNotDraft v version.status) else k

/-- the part of `upload` before `put` -/
def validate (settings : UploadSettings) (command : UploadDocumentArtifact) (artifactId : Uuid) (k : Tx) : Tx :=
  validateTarget reply command.documentId command.documentVersionId
    (match command.validateFile settings with
    | some e => raise reply e
    | none =>
      .read fun db =>
        if db.ArtifactKeyExists command.documentVersionId command.artifactKey then
          raise reply (.documentArtifactConflict command.documentVersionId command.artifactKey)
        else
          .read fun db =>
            if db.StorageKeyExists settings.storageProvider (command.storageKey artifactId) then
              raise reply (.documentArtifactStorageLocationConflict settings.storageProvider (command.storageKey artifactId))
            else k)

def upload (settings : UploadSettings) (command : UploadDocumentArtifact) (artifactId actorPrincipalId : Uuid)
    (createdAt : Time) : Tx :=
  let artifact := command.artifact settings artifactId actorPrincipalId createdAt
  validate reply settings command artifactId
    (addArtifact reply artifact (.commit (·.addArtifact artifact.row) (reply (.uploaded (command.uploaded artifactId)))))

end DocumentArtifactUploadService

end Programs

/-! ## Requests -/

/-- the transaction of a request -/
def Request.txn (settings : UploadSettings) (q : Request) : Tx :=
  let reply := fun o => Answer.knowledge ⟨q, o⟩
  match q with
  | .createDocument document => DocumentManagementService.createDocument reply document
  | .deleteDocument d deletedAt => DocumentManagementService.deleteDocument reply d deletedAt
  | .createVersion version => DocumentVersionManagementService.createVersion reply version
  | .publishVersion d v effectiveFrom publishedAt => DocumentVersionManagementService.publishVersion reply d v effectiveFrom publishedAt
  | .withdrawVersion d v effectiveTo updatedAt => DocumentVersionManagementService.withdrawVersion reply d v effectiveTo updatedAt
  | .archiveVersion d v updatedAt => DocumentVersionManagementService.archiveVersion reply d v updatedAt
  | .createArtifact d artifact => DocumentArtifactManagementService.createArtifact reply d artifact
  | .upload command artifactId actor createdAt => DocumentArtifactUploadService.upload reply settings command artifactId actor createdAt
  | .grantAcl grant => DocumentAclManagementService.grantAcl reply grant
  | .revokeAcl d g actor revokedAt => DocumentAclManagementService.revokeAcl reply d g actor revokedAt

def KnowledgeDb.setIam (iam : Iam) (db : KnowledgeDb) : KnowledgeDb := { db with iam := iam }

/-- a transaction of the identity module -/
def identityTxn (p : Identity.Tx) : Tx := LockMode.zoom KnowledgeDb.iam KnowledgeDb.setIam Lock.iam Answer.iam p

/-- a program that a session may start: one of the `requests` to this module, or any to the identity module -/
def Begins (settings : UploadSettings) (requests : Set Request) (p : Tx) : Prop :=
  (∃ q ∈ requests, p = q.txn settings) ∨ ∃ p₀, Identity.Begins p₀ ∧ p = identityTxn p₀

end AtlasRag.Knowledge
