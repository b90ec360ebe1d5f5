/-
`update_document`: the columns that a patch names are set, in a document that is not deleted.
-/
import AtlasRag.Knowledge.Transactions

namespace AtlasRag.Knowledge

open AtlasRag.Lib AtlasRag.Lib.Table AtlasRag.Platform
open AtlasRag.Lib.Transaction (Txn)

inductive DocumentField where
  | title
  | description
  | documentType
  | department
  | defaultLanguageCode
  | metadata
deriving DecidableEq, Repr

/-- a patch that `DocumentUpdateRequest` accepts: it names a field, and no NULL for a column that has none -/
structure DocumentPatch where
  fields : List DocumentField
  title : Option String
  description : Option String
  documentType : Option String
  department : Option String
  defaultLanguageCode : Option String
  metadata : Option JsonObject
  fields_ne : fields ≠ []
  title_given : .title ∈ fields → title ≠ none
  metadata_given : .metadata ∈ fields → metadata ≠ none

/-- the SET clause of `update_active` -/
def DocumentPatch.set (patch : DocumentPatch) (updatedAt : Time) (d : Document) : Document :=
  { d with
    updatedAt := updatedAt
    title := if .title ∈ patch.fields then patch.title.getD d.title else d.title
    description := if .description ∈ patch.fields then patch.description else d.description
    documentType := if .documentType ∈ patch.fields then patch.documentType else d.documentType
    department := if .department ∈ patch.fields then patch.department else d.department
    defaultLanguageCode :=
      if .defaultLanguageCode ∈ patch.fields then patch.defaultLanguageCode else d.defaultLanguageCode
    metadata := if .metadata ∈ patch.fields then patch.metadata.getD d.metadata else d.metadata }

def KnowledgeDb.updateActive (db : KnowledgeDb) (d : Uuid) (patch : DocumentPatch) (updatedAt : Time) : KnowledgeDb :=
  { db with documents := mapWhere (fun x => x.id = d ∧ x.deletedAt = none) (patch.set updatedAt) db.documents }

/-- `update_active` and the commit -/
def DocumentManagementService.updateDocument {R : Type} (reply : Outcome → R) (d : Uuid) (patch : DocumentPatch)
    (updatedAt : Time) : Txn KnowledgeDb Lock R :=
  .read fun db =>
    match db.findActiveDocument d with
    | none => .rollback (reply (.raised (.documentNotFound d)))
    | some _ =>
      .stmt (fun _ => [.row (.document d) .noKeyUpdate]) fun db =>
        match updateWhere Document.defects (fun x => x.id = d ∧ x.deletedAt = none) (patch.set updatedAt) db.documents with
        | .error es => .rollback (reply (.raised (.integrity es)))
        | .ok _ =>
          match db.findActiveDocument d with
          | none => .rollback (reply (.raised (.documentNotFound d)))
          | some x => .commit (·.updateActive d patch updatedAt) (reply (.document (patch.set updatedAt x)))

end AtlasRag.Knowledge
