/-
The schema `knowledge`: documents, their access control list, their versions and the artifacts of these, next to the
schema `iam`.

A document is deleted by setting `deleted_at`, a grant revoked by setting `revoked_at`; no row is ever removed. The
effective period of a version is the half-open range from `effective_from` to `effective_to`, unbounded where that is
NULL; there is none while `effective_from` is NULL.

`keys` lists the entries of all unique indexes, so that uniqueness is one statement. `Admissible` says what the schema
enforces: CHECKs, unique keys, references, and the exclusion constraint on the effective periods of a document.
-/
import AtlasRag.Identity.Tables

namespace AtlasRag.Knowledge

open AtlasRag.Platform AtlasRag.Identity

inductive DocumentPermission where
  | read
  | manage
deriving DecidableEq, Repr

inductive DocumentVersionStatus where
  | draft
  | published
  | withdrawn
  | archived
deriving DecidableEq, Repr

inductive DocumentArtifactStatus where
  | available
  | missing
  | retired
  | deleted
deriving DecidableEq, Repr

/-- an entry of a unique index -/
inductive Key where
  | documentId (id : Uuid)
  | canonicalKey (canonicalKey : String)
  | grantId (id : Uuid)
  /-- `uq_document_acl_active_grant`, for grants that are not revoked -/
  | activeGrant (documentId principalId : Uuid) (permission : DocumentPermission)
  | versionId (id : Uuid)
  | versionLabel (documentId : Uuid) (versionLabel : String)
  | artifactId (id : Uuid)
  | artifactKey (documentVersionId : Uuid) (artifactKey : String)
  | storageLocation (storageProvider storageKey : String)
deriving DecidableEq, Repr

/-! ## Documents -/

structure Document where
  id : Uuid
  createdByPrincipalId : Option Uuid
  canonicalKey : String
  title : String
  description : Option String
  documentType : Option String
  department : Option String
  defaultLanguageCode : Option String
  metadata : JsonObject
  createdAt : Time
  updatedAt : Time
  deletedAt : Option Time
deriving Repr

def Document.keys (d : Document) : List Key := [.documentId d.id, .canonicalKey d.canonicalKey]

def Document.defects (d : Document) : List Violation :=
  textColumn "canonical_key" (some 255) (some d.canonicalKey) ++ textColumn "title" (some 500) (some d.title) ++
  textColumn "description" none d.description ++ textColumn "document_type" (some 100) d.documentType ++
  textColumn "department" (some 100) d.department ++ textColumn "default_language_code" (some 20) d.defaultLanguageCode

/-! ## Access control list -/

structure DocumentACL where
  id : Uuid
  documentId : Uuid
  principalId : Uuid
  permission : DocumentPermission
  grantedAt : Time
  grantedByPrincipalId : Option Uuid
  expiresAt : Option Time
  revokedAt : Option Time
  revokedByPrincipalId : Option Uuid
deriving DecidableEq, Repr

def DocumentACL.keys (g : DocumentACL) : List Key :=
  .grantId g.id :: if g.revokedAt = none then [.activeGrant g.documentId g.principalId g.permission] else []

def DocumentACL.defects (g : DocumentACL) : List Violation :=
  checkThat "expires_after_grant" (∀ x ∈ g.expiresAt, g.grantedAt < x) ++
  checkThat "revoked_not_before_grant" (∀ x ∈ g.revokedAt, g.grantedAt ≤ x)

/-! ## Versions -/

structure DocumentVersion where
  id : Uuid
  documentId : Uuid
  versionLabel : String
  effectiveFrom : Option Time
  effectiveTo : Option Time
  publishedAt : Option Time
  status : DocumentVersionStatus
  createdByPrincipalId : Option Uuid
  metadata : JsonObject
  createdAt : Time
  updatedAt : Time
deriving Repr

namespace DocumentVersion

def keys (v : DocumentVersion) : List Key := [.versionId v.id, .versionLabel v.documentId v.versionLabel]

/-- the effective periods have an instant in common -/
def Overlaps (v w : DocumentVersion) : Prop :=
  ∃ f ∈ v.effectiveFrom, ∃ g ∈ w.effectiveFrom, (∀ x ∈ w.effectiveTo, f < x) ∧ ∀ x ∈ v.effectiveTo, g < x

/-- the instant lies in the effective period -/
def EffectiveAt (v : DocumentVersion) (t : Time) : Prop := (∃ f ∈ v.effectiveFrom, f ≤ t) ∧ ∀ x ∈ v.effectiveTo, t < x

instance (v w : DocumentVersion) : Decidable (v.Overlaps w) :=
  inferInstanceAs (Decidable (∃ f ∈ v.effectiveFrom, ∃ g ∈ w.effectiveFrom, _ ∧ _))
instance (v : DocumentVersion) (t : Time) : Decidable (v.EffectiveAt t) := inferInstanceAs (Decidable (_ ∧ _))

def defects (v : DocumentVersion) : List Violation :=
  textColumn "version_label" (some 100) (some v.versionLabel) ++
  checkThat "effective_to_after_from" (∀ x ∈ v.effectiveTo, ∀ f ∈ v.effectiveFrom, f < x) ++
  checkThat "published_requires_dates" (v.status = .published → v.publishedAt ≠ none ∧ v.effectiveFrom ≠ none) ++
  checkThat "closed_requires_dates" (v.status = .withdrawn ∨ v.status = .archived →
    v.publishedAt ≠ none ∧ v.effectiveFrom ≠ none ∧ v.effectiveTo ≠ none)

theorem overlaps_symm {v w : DocumentVersion} (h : v.Overlaps w) : w.Overlaps v := by
  obtain ⟨f, hf, g, hg, hfw, hgv⟩ := h
  exact ⟨g, hg, f, hf, hgv, hfw⟩

/-- two periods that share an instant overlap -/
theorem overlaps_of_effectiveAt {v w : DocumentVersion} {t : Time} (hv : v.EffectiveAt t) (hw : w.EffectiveAt t) :
    v.Overlaps w := by
  obtain ⟨⟨f, hf, hft⟩, hvt⟩ := hv
  obtain ⟨⟨g, hg, hgt⟩, hwt⟩ := hw
  exact ⟨f, hf, g, hg, fun x hx => hft.trans_lt (hwt x hx), fun x hx => hgt.trans_lt (hvt x hx)⟩

end DocumentVersion

/-! ## Artifacts -/

structure DocumentArtifact where
  id : Uuid
  documentVersionId : Uuid
  artifactKey : String
  languageCode : String
  sourceName : String
  sourceUri : Option String
  sourceUpdatedAt : Option Time
  storageProvider : String
  storageKey : String
  mimeType : String
  fileHash : String
  fileSizeBytes : ℤ
  status : DocumentArtifactStatus
  createdByPrincipalId : Option Uuid
  metadata : JsonObject
  createdAt : Time
  updatedAt : Time
  retiredAt : Option Time
  deletedAt : Option Time
deriving Repr

def DocumentArtifact.keys (a : DocumentArtifact) : List Key :=
  [.artifactId a.id, .artifactKey a.documentVersionId a.artifactKey, .storageLocation a.storageProvider a.storageKey]

def DocumentArtifact.defects (a : DocumentArtifact) : List Violation :=
  textColumn "artifact_key" (some 255) (some a.artifactKey) ++ textColumn "language_code" (some 20) (some a.languageCode) ++
  textColumn "source_name" (some 500) (some a.sourceName) ++ textColumn "source_uri" none a.sourceUri ++
  textColumn "storage_provider" (some 50) (some a.storageProvider) ++ textColumn "storage_key" none (some a.storageKey) ++
  textColumn "mime_type" (some 150) (some a.mimeType) ++ textColumn "file_hash" (some 128) (some a.fileHash) ++
  (if -2 ^ 63 ≤ a.fileSizeBytes ∧ a.fileSizeBytes < 2 ^ 63 then [] else [.outOfRange "file_size_bytes"]) ++
  checkThat "document_artifact_file_size_non_negative" (0 ≤ a.fileSizeBytes)

/-! ## The database -/

structure KnowledgeDb where
  iam : Iam
  documents : List Document
  acl : List DocumentACL
  versions : List DocumentVersion
  artifacts : List DocumentArtifact

namespace KnowledgeDb

def keys (db : KnowledgeDb) : List Key :=
  db.documents.flatMap Document.keys ++ db.acl.flatMap DocumentACL.keys ++ db.versions.flatMap DocumentVersion.keys ++
  db.artifacts.flatMap DocumentArtifact.keys

/-- the document exists and is not deleted -/
def Active (db : KnowledgeDb) (d : Uuid) : Prop := ∃ x ∈ db.documents, x.id = d ∧ x.deletedAt = none

/-- the version exists and has not left DRAFT -/
def Draft (db : KnowledgeDb) (v : Uuid) : Prop := ∃ x ∈ db.versions, x.id = v ∧ x.status = .draft

instance (db : KnowledgeDb) (d : Uuid) : Decidable (db.Active d) := inferInstanceAs (Decidable (∃ x ∈ db.documents, _))
instance (db : KnowledgeDb) (v : Uuid) : Decidable (db.Draft v) := inferInstanceAs (Decidable (∃ x ∈ db.versions, _))

/-- what the schema enforces -/
structure Admissible (db : KnowledgeDb) : Prop where
  iam : db.iam.Admissible
  keys : db.keys.Nodup
  documents : ∀ d ∈ db.documents, d.defects = []
  acl : ∀ g ∈ db.acl, g.defects = [] ∧ g.documentId ∈ db.documents.map (·.id)
  versions : ∀ v ∈ db.versions, v.defects = [] ∧ v.documentId ∈ db.documents.map (·.id)
  artifacts : ∀ a ∈ db.artifacts, a.defects = [] ∧ a.documentVersionId ∈ db.versions.map (·.id)
  /-- `ex_document_versions_no_overlapping_effective_period` -/
  periods : ∀ v ∈ db.versions, ∀ w ∈ db.versions, v.id ≠ w.id → v.documentId = w.documentId → ¬ v.Overlaps w

/-! ## Unique keys -/

variable {db : KnowledgeDb}

/-- rows with a unique key in common are one row -/
theorem eq_of_key {α : Type} {f : α → List Key} {l : List α} (h : (l.flatMap f).Nodup) {a b : α} (ha : a ∈ l) (hb : b ∈ l)
    {k : Key} (hka : k ∈ f a) (hkb : k ∈ f b) : a = b := by
  have hpair := (List.nodup_flatMap.1 h).2
  by_contra hne
  have hsymm : Std.Symm (Function.onFun List.Disjoint f) := ⟨fun _ _ hd => hd.symm⟩
  exact hpair.forall ha hb hne hka hkb

theorem nodup_tables (h : db.keys.Nodup) :
    (db.documents.flatMap Document.keys).Nodup ∧ (db.acl.flatMap DocumentACL.keys).Nodup ∧
      (db.versions.flatMap DocumentVersion.keys).Nodup ∧ (db.artifacts.flatMap DocumentArtifact.keys).Nodup := by
  obtain ⟨hdav, hf, -⟩ := List.nodup_append.1 h
  obtain ⟨hda, hv, -⟩ := List.nodup_append.1 hdav
  obtain ⟨hd, ha, -⟩ := List.nodup_append.1 hda
  exact ⟨hd, ha, hv, hf⟩

theorem document_eq (h : db.keys.Nodup) {x y : Document} (hx : x ∈ db.documents) (hy : y ∈ db.documents)
    (hid : x.id = y.id) : x = y :=
  eq_of_key (nodup_tables h).1 hx hy (k := .documentId x.id) (by simp [Document.keys]) (by simp [Document.keys, hid])

theorem version_eq (h : db.keys.Nodup) {x y : DocumentVersion} (hx : x ∈ db.versions) (hy : y ∈ db.versions)
    (hid : x.id = y.id) : x = y :=
  eq_of_key (nodup_tables h).2.2.1 hx hy (k := .versionId x.id) (by simp [DocumentVersion.keys])
    (by simp [DocumentVersion.keys, hid])

theorem grant_eq (h : db.keys.Nodup) {x y : DocumentACL} (hx : x ∈ db.acl) (hy : y ∈ db.acl) (hid : x.id = y.id) : x = y :=
  eq_of_key (nodup_tables h).2.1 hx hy (k := .grantId x.id) (by simp [DocumentACL.keys])
    (by simp [DocumentACL.keys, hid])

/-- at most one unrevoked grant for each document, principal and permission -/
theorem activeGrant_eq (h : db.keys.Nodup) {x y : DocumentACL} (hx : x ∈ db.acl) (hy : y ∈ db.acl)
    (hd : x.documentId = y.documentId) (hp : x.principalId = y.principalId) (hperm : x.permission = y.permission)
    (hxr : x.revokedAt = none) (hyr : y.revokedAt = none) : x = y :=
  eq_of_key (nodup_tables h).2.1 hx hy (k := .activeGrant x.documentId x.principalId x.permission)
    (by simp [DocumentACL.keys, hxr]) (by simp [DocumentACL.keys, hyr, hd, hp, hperm])

/-! ## Queries by key -/

/-- `DocumentRepository.find_by_id` -/
def findDocument (db : KnowledgeDb) (d : Uuid) : Option Document := db.documents.find? (·.id = d)

/-- `DocumentRepository.find_active_by_id` -/
def findActiveDocument (db : KnowledgeDb) (d : Uuid) : Option Document :=
  db.documents.find? fun x => x.id = d ∧ x.deletedAt = none

/-- `DocumentVersionRepository.find_by_id` -/
def findVersion (db : KnowledgeDb) (d v : Uuid) : Option DocumentVersion :=
  db.versions.find? fun x => x.id = v ∧ x.documentId = d

theorem findDocument_some {d : Uuid} {x : Document} (h : db.findDocument d = some x) : x ∈ db.documents ∧ x.id = d := by
  have hid := List.find?_some h
  exact ⟨List.mem_of_find?_eq_some h, of_decide_eq_true hid⟩

theorem findActiveDocument_some {d : Uuid} {x : Document} (h : db.findActiveDocument d = some x) :
    x ∈ db.documents ∧ x.id = d ∧ x.deletedAt = none := by
  have hid := List.find?_some h
  exact ⟨List.mem_of_find?_eq_some h, of_decide_eq_true hid⟩

theorem findVersion_some {d v : Uuid} {x : DocumentVersion} (h : db.findVersion d v = some x) :
    x ∈ db.versions ∧ x.id = v ∧ x.documentId = d := by
  have hid := List.find?_some h
  exact ⟨List.mem_of_find?_eq_some h, of_decide_eq_true hid⟩

end KnowledgeDb

end AtlasRag.Knowledge
