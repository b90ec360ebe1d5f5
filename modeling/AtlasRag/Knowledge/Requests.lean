/-
What is asked of the knowledge services: the commands, the settings of the upload service with its checks of a file, the
errors, and the rows that a command stands for.

Generated identifiers and clock readings are part of the requests.
-/
import AtlasRag.Identity.Transactions
import AtlasRag.Knowledge.Tables
import AtlasRag.Platform.Sha256
import AtlasRag.Platform.Text

namespace AtlasRag.Knowledge

open AtlasRag.Platform

def DOCUMENT_CANONICAL_KEY_CONSTRAINT : String := "uq_documents_canonical_key"

def ACTIVE_DOCUMENT_ACL_CONSTRAINT : String := "uq_document_acl_active_grant"

def DOCUMENT_VERSION_LABEL_CONSTRAINT : String := "uq_document_versions_document_id_version_label"

def DOCUMENT_VERSION_OVERLAP_CONSTRAINT : String := "ex_document_versions_no_overlapping_effective_period"

def DOCUMENT_ARTIFACT_KEY_CONSTRAINT : String := "uq_document_artifacts_version_artifact_key"

def DOCUMENT_ARTIFACT_STORAGE_LOCATION_CONSTRAINT : String := "uq_document_artifacts_storage_location"

/-! ## Errors -/

/-- the errors of the services; `integrity`: an `IntegrityError` that nobody translates, with the violations in the order
in which they are checked; `multipleResultsFound`: raised by `one_or_none` -/
inductive KnowledgeError where
  | documentNotFound (documentId : Uuid)
  | documentDeleted (documentId : Uuid)
  | documentCanonicalKeyConflict (canonicalKey : String)
  | documentAclGrantConflict (documentId principalId : Uuid) (permission : DocumentPermission)
  | documentAclGrantNotFound (documentId grantId : Uuid)
  | documentAclPrincipalNotFound (principalId : Uuid)
  | documentAclExpirationInvalid (expiresAt grantedAt : Time)
  | documentVersionNotFound (documentId versionId : Uuid)
  | documentVersionConflict (documentId : Uuid) (versionLabel : String)
  | documentVersionInvalidTransition (documentId versionId : Uuid) (currentStatus targetStatus : DocumentVersionStatus)
  | documentVersionOverlap (documentId versionId : Uuid)
  | documentVersionInvalidEffectiveRange (effectiveFrom : Time) (effectiveTo : Option Time)
  | documentVersionDocumentNotFound (documentId : Uuid)
  | documentArtifactConflict (documentVersionId : Uuid) (artifactKey : String)
  | documentArtifactEmpty
  | documentArtifactTooLarge (fileSizeBytes maxFileSizeBytes : ℕ)
  | documentArtifactKeyInvalid (artifactKey : String)
  | documentArtifactLanguageCodeInvalid (languageCode : String)
  | documentArtifactContentTypeInvalid (contentType : String)
  | documentArtifactStorageLocationConflict (storageProvider storageKey : String)
  | documentArtifactVersionNotDraft (documentVersionId : Uuid) (status : DocumentVersionStatus)
  | multipleResultsFound
  | integrity (violations : List Violation)
deriving DecidableEq, Repr

/-! ## Commands -/

structure CreateDocument where
  documentId : Uuid
  createdByPrincipalId : Uuid
  canonicalKey : String
  title : String
  description : Option String
  documentType : Option String
  department : Option String
  defaultLanguageCode : Option String
  metadata : JsonObject
  createdAt : Time
  updatedAt : Time

def CreateDocument.row (d : CreateDocument) : Document :=
  ⟨d.documentId, some d.createdByPrincipalId, d.canonicalKey, d.title, d.description, d.documentType, d.department,
    d.defaultLanguageCode, d.metadata, d.createdAt, d.updatedAt, none⟩

structure CreateDocumentVersion where
  versionId : Uuid
  documentId : Uuid
  versionLabel : String
  createdByPrincipalId : Option Uuid
  metadata : JsonObject
  createdAt : Time

def CreateDocumentVersion.row (v : CreateDocumentVersion) : DocumentVersion :=
  ⟨v.versionId, v.documentId, v.versionLabel, none, none, none, .draft, v.createdByPrincipalId, v.metadata, v.createdAt,
    v.createdAt⟩

structure CreateDocumentArtifact where
  artifactId : Uuid
  documentVersionId : Uuid
  artifactKey : String
  languageCode : String
  sourceName : String
  sourceUri : Option String
  sourceUpdatedAt : Option Time
  storageProvider : String
  storageKey : String
  mimeType : String
  fileHash : String
  fileSizeBytes : ℤ
  createdByPrincipalId : Option Uuid
  metadata : JsonObject
  createdAt : Time

def CreateDocumentArtifact.row (a : CreateDocumentArtifact) : DocumentArtifact :=
  ⟨a.artifactId, a.documentVersionId, a.artifactKey, a.languageCode, a.sourceName, a.sourceUri, a.sourceUpdatedAt,
    a.storageProvider, a.storageKey, a.mimeType, a.fileHash, a.fileSizeBytes, .available, a.createdByPrincipalId, a.metadata,
    a.createdAt, a.createdAt, none, none⟩

structure CreateDocumentAclGrant where
  grantId : Uuid
  documentId : Uuid
  principalId : Uuid
  permission : DocumentPermission
  grantedAt : Time
  grantedByPrincipalId : Uuid
  expiresAt : Option Time
deriving DecidableEq, Repr

def CreateDocumentAclGrant.row (g : CreateDocumentAclGrant) : DocumentACL :=
  ⟨g.grantId, g.documentId, g.principalId, g.permission, g.grantedAt, some g.grantedByPrincipalId, g.expiresAt, none, none⟩

structure UploadDocumentArtifact where
  documentId : Uuid
  documentVersionId : Uuid
  artifactKey : String
  languageCode : String
  sourceName : String
  sourceUri : Option String
  contentType : String
  content : List UInt8
  sourceUpdatedAt : Option Time

structure UploadedDocumentArtifact where
  artifactId : Uuid
  documentVersionId : Uuid
  artifactKey : String
  languageCode : String
  mimeType : String
  fileHash : String
  fileSizeBytes : ℕ
deriving DecidableEq, Repr

/-! ## Uploads -/

/-- the arguments of the constructor of `DocumentArtifactUploadService`, which checks them -/
structure UploadSettings where
  maxFileSizeBytes : ℕ
  acceptedLanguageCodes : List String
  allowedContentTypes : List String
  artifactKeyMaxLength : ℕ
  languageCodeMaxLength : ℕ
  storageProvider : String
  maxFileSizeBytes_pos : 0 < maxFileSizeBytes
  allowedContentTypes_ne : allowedContentTypes ≠ []
  artifactKeyMaxLength_pos : 0 < artifactKeyMaxLength
  languageCodeMaxLength_pos : 0 < languageCodeMaxLength
  storageProvider_ne : ¬ Blank storageProvider
  acceptedLanguageCodes_ne : acceptedLanguageCodes ≠ []
  acceptedLanguageCodes_fit : ∀ c ∈ acceptedLanguageCodes, ¬ Blank c ∧ c.length ≤ languageCodeMaxLength

/-- small texts in English -/
def textUploads : UploadSettings :=
  ⟨100, ["en"], ["text/plain"], 255, 20, "local", by decide, by decide, by decide, by decide, by decide, by decide,
    by decide⟩

def buildStorageKey (documentId versionId artifactId : Uuid) : String :=
  "documents/" ++ uuidText documentId ++ "/versions/" ++ uuidText versionId ++ "/artifacts/" ++ uuidText artifactId

def sha256Hex (content : List UInt8) : String := Sha256.hexDigest content

namespace UploadDocumentArtifact

def storageKey (command : UploadDocumentArtifact) (artifactId : Uuid) : String :=
  buildStorageKey command.documentId command.documentVersionId artifactId

/-- the artifact that an upload adds -/
def artifact (command : UploadDocumentArtifact) (settings : UploadSettings) (artifactId actorPrincipalId : Uuid)
    (createdAt : Time) : CreateDocumentArtifact :=
  ⟨artifactId, command.documentVersionId, command.artifactKey, command.languageCode, command.sourceName, command.sourceUri,
    command.sourceUpdatedAt, settings.storageProvider, command.storageKey artifactId, command.contentType,
    sha256Hex command.content, command.content.length, some actorPrincipalId, [], createdAt⟩

/-- what an upload returns -/
def uploaded (command : UploadDocumentArtifact) (artifactId : Uuid) : UploadedDocumentArtifact :=
  ⟨artifactId, command.documentVersionId, command.artifactKey, command.languageCode, command.contentType,
    sha256Hex command.content, command.content.length⟩

/-- `_validate_file` -/
def validateFile (settings : UploadSettings) (command : UploadDocumentArtifact) : Option KnowledgeError :=
  if Blank command.artifactKey ∨ settings.artifactKeyMaxLength < command.artifactKey.length then
    some (.documentArtifactKeyInvalid command.artifactKey)
  else if settings.languageCodeMaxLength < command.languageCode.length then
    some (.documentArtifactLanguageCodeInvalid command.languageCode)
  else if command.languageCode ∉ settings.acceptedLanguageCodes then
    some (.documentArtifactLanguageCodeInvalid command.languageCode)
  else if command.contentType ∉ settings.allowedContentTypes then
    some (.documentArtifactContentTypeInvalid command.contentType)
  else if command.content = [] then some .documentArtifactEmpty
  else if settings.maxFileSizeBytes < command.content.length then
    some (.documentArtifactTooLarge command.content.length settings.maxFileSizeBytes)
  else none

end UploadDocumentArtifact

/-! ## Requests -/

inductive Request where
  | createDocument (document : CreateDocument)
  | deleteDocument (documentId : Uuid) (deletedAt : Time)
  | createVersion (version : CreateDocumentVersion)
  | publishVersion (documentId versionId : Uuid) (effectiveFrom publishedAt : Time)
  | withdrawVersion (documentId versionId : Uuid) (effectiveTo updatedAt : Time)
  | archiveVersion (documentId versionId : Uuid) (updatedAt : Time)
  | createArtifact (documentId : Uuid) (artifact : CreateDocumentArtifact)
  | upload (command : UploadDocumentArtifact) (artifactId actorPrincipalId : Uuid) (createdAt : Time)
  | grantAcl (grant : CreateDocumentAclGrant)
  | revokeAcl (documentId grantId actorPrincipalId : Uuid) (revokedAt : Time)

inductive Outcome where
  | done
  | document (d : Document)
  | version (v : DocumentVersion)
  | artifact (a : DocumentArtifact)
  | uploaded (a : UploadedDocumentArtifact)
  | grant (g : DocumentACL)
  | raised (e : KnowledgeError)

structure Reply where
  request : Request
  outcome : Outcome

/-- the results of the transactions on the two schemas -/
inductive Answer where
  | knowledge (reply : Reply)
  | iam (reply : Identity.Reply)

end AtlasRag.Knowledge
