/-
`IngestionPipelineService.ingest`: four transactions and an upload, one after the other, each committed on its own.

A session may fail before its commit, and when it is left; meanwhile others go on. Nothing is taken back once its step is
done: an `ingest` that raises leaves what the steps before have committed.

Results:
- `ingest_remains`: which of the document, the version, the artifact, its object, the run, the item and its job remain of an
  `ingest` that raises, and that a document which remains blocks its canonical key;
- `ingest_rejected_after_failure`: an upload that is refused, and the second attempt.
-/
import AtlasRag.Ingestion.Chunking.Config
import AtlasRag.Ingestion.Lifecycle
import AtlasRag.Knowledge.Upload
import AtlasRag.Platform.Dumps

namespace AtlasRag.Ingestion.Pipeline

open AtlasRag.Lib.Effect AtlasRag.Platform AtlasRag.Knowledge

def DEFAULT_VERSION_LABEL : String := "v1"

def DEFAULT_ARTIFACT_KEY : String := "source"

structure IngestDocument where
  title : String
  sourceName : String
  contentType : String
  content : List UInt8
  languageCode : String
  canonicalKey : Option String := none
  versionLabel : String := DEFAULT_VERSION_LABEL
  artifactKey : String := DEFAULT_ARTIFACT_KEY
  chunkingConfiguration : Option Dict := none

structure QueuedIngestion where
  documentId : Uuid
  documentVersionId : Uuid
  artifactId : Uuid
  canonicalKey : String
  ingestionRunId : Uuid
  ingestionItemId : Uuid
  status : IngestionStatus
deriving DecidableEq, Repr

structure IngestionRun where
  id : Uuid
  configuration : Dict
  configurationHash : String
  createdByPrincipalId : Option Uuid
  createdAt : Time

structure World where
  stores : Upload.Stores
  runs : List IngestionRun
  items : List IngestionItem
  chunks : List Chunk
  outbox : Jobs.Outbox

namespace World

/-- the tables that the ingestion module works on -/
def ingestion (w : World) : Db := ⟨w.items, w.chunks, w.outbox, w.runs.map (·.id), w.stores.db.artifacts.map (·.id)⟩

def setIngestion (w : World) (db : Db) : World := { w with items := db.items, chunks := db.chunks, outbox := db.outbox }

def setKnowledge (w : World) (db : KnowledgeDb) : World := { w with stores := { w.stores with db := db } }

def addRun (w : World) (run : IngestionRun) : World := { w with runs := w.runs ++ [run] }

/-- what the database refuses of a new run -/
def runViolations (w : World) (run : IngestionRun) : List Violation :=
  jsonbColumn "configuration" run.configuration ++ textColumn "configuration_hash" (some 64) (some run.configurationHash) ++
  uniqueIndex "pk_ingestion_runs" (run.id ∈ w.runs.map (·.id)) ++
  reference "created_by_principal_id" (∀ p ∈ run.createdByPrincipalId, w.stores.db.PrincipalExists p)

end World

/-! ## A call -/

/-- a call of `ingest`: the settings of the upload service, the command, and what the services draw and read of the clock -/
structure Ingest where
  settings : UploadSettings
  command : IngestDocument
  actorPrincipalId : Uuid
  /-- for a canonical key -/
  keyId : Uuid
  documentId : Uuid
  versionId : Uuid
  artifactId : Uuid
  runId : Uuid
  itemId : Uuid
  jobId : Uuid
  documentCreatedAt : Time
  versionCreatedAt : Time
  artifactCreatedAt : Time
  runCreatedAt : Time
  itemCreatedAt : Time

namespace Ingest

variable (i : Ingest)

/-- `command.canonical_key or f"ingestion-{uuid4()}"` -/
def canonicalKey : String := (i.command.canonicalKey.filter (· ≠ "")).getD ("ingestion-" ++ uuidText i.keyId)

def document : CreateDocument :=
  ⟨i.documentId, i.actorPrincipalId, i.canonicalKey, i.command.title, none, none, none, some i.command.languageCode, [],
    i.documentCreatedAt, i.documentCreatedAt⟩

def version : CreateDocumentVersion :=
  ⟨i.versionId, i.documentId, i.command.versionLabel, some i.actorPrincipalId, [], i.versionCreatedAt⟩

def upload : Upload.Call :=
  ⟨i.settings, ⟨i.documentId, i.versionId, i.command.artifactKey, i.command.languageCode, i.command.sourceName, none,
    i.command.contentType, i.command.content, none⟩, i.artifactId, i.actorPrincipalId, i.artifactCreatedAt⟩

/-- `command.chunking_configuration or DEFAULT_CHUNKING_CONFIG.as_mapping()` -/
def rawChunkingConfiguration : Dict :=
  match i.command.chunkingConfiguration with
  | none | some [] => Chunking.DEFAULT_CHUNKING_CONFIG.asMapping
  | some raw => raw

def chunkingConfig : Except Chunking.ValueError Chunking.ChunkingConfig :=
  Chunking.ChunkingConfig.fromRunConfiguration [(str "chunking", .dict i.rawChunkingConfiguration)]

def configuration (config : Chunking.ChunkingConfig) : Dict :=
  [(str "language_code", .str (str i.command.languageCode)), (str "chunking", .dict config.asMapping)]

/-- `canonical_configuration_hash`, whose `json.dumps` refuses integers of too many digits; the nesting is no deeper than 2 -/
@[irreducible] def configurationHash (config : Chunking.ChunkingConfig) : Except Chunking.ValueError String :=
  match canonicalConfigurationHash 2 (i.configuration config) with
  | some hash => .ok hash
  | none => .error (.text ("Exceeds the limit (4300 digits) for integer string conversion; " ++
      "use sys.set_int_max_str_digits() to increase the limit"))

def run (config : Chunking.ChunkingConfig) (hash : String) : IngestionRun :=
  ⟨i.runId, i.configuration config, hash, some i.actorPrincipalId, i.runCreatedAt⟩

def queued (artifactId : Uuid) : QueuedIngestion :=
  ⟨i.documentId, i.versionId, artifactId, i.canonicalKey, i.runId, i.itemId, .pending⟩

end Ingest

/-! ## What can happen -/

inductive Step where
  | createDocument
  | createVersion
  | upload
  | chunkingConfiguration
  | configurationHash
  | createRun
  | addItem
deriving DecidableEq, Repr

inductive Cause where
  | knowledge (e : KnowledgeError)
  | ingestion (e : IngestionError)
  | value (e : Chunking.ValueError)
  | failure (f : Upload.Failure)
deriving DecidableEq, Repr

structure Raised where
  step : Step
  cause : Cause
deriving DecidableEq, Repr

abbrev Act := Eff World Raised

/-- a unit of work: what others do before it, what it raises before its commit takes effect, and when it is left -/
structure Session where
  others : World → World
  failure : Option Upload.Failure
  exit : Option Upload.Failure

structure Course where
  createDocument : Session
  createVersion : Session
  upload : Upload.Course
  createRun : Session
  addItem : Session

def Course.sessions (c : Course) : List Session := [c.createDocument, c.createVersion, c.createRun, c.addItem]

/-- what is raised when the unit of work of a step is left -/
def Course.exit (c : Course) : Step → Option Upload.Failure
  | .createDocument => c.createDocument.exit
  | .createVersion => c.createVersion.exit
  | .upload => c.upload.exit.failure
  | .chunkingConfiguration => none
  | .configurationHash => none
  | .createRun => c.createRun.exit
  | .addItem => c.addItem.exit

/-! ## The service -/

/-- a unit of work with this transaction; an error on leaving it takes the place of the one raised before -/
def unitOfWork (step : Step) (s : Session) (transaction : World → Except Cause World) : Act Unit := do
  modify s.others
  match s.failure with
  | some f => fail ⟨step, .failure (s.exit.getD f)⟩
  | none =>
    let w ← get
    match transaction w with
    | .error cause => fail ⟨step, (s.exit.map .failure).getD cause⟩
    | .ok w' =>
      modify fun _ => w'
      match s.exit with
      | some f => fail ⟨step, .failure f⟩
      | none => pure ()

/-- the error in an answer -/
def error? : Answer → Option KnowledgeError
  | .knowledge ⟨_, .raised e⟩ => some e
  | _ => none

/-- a transaction of the knowledge services -/
def knowledge (settings : UploadSettings) (q : Request) (w : World) : Except Cause World :=
  let r := (q.txn settings).alone w.stores.db
  match error? r.2 with
  | some e => .error (.knowledge e)
  | none => .ok (w.setKnowledge r.1)

/-- `IngestionLifecycleService.create_run` -/
def createRun (run : IngestionRun) (w : World) : Except Cause World :=
  match w.runViolations run with
  | [] => .ok (w.addRun run)
  | es => .error (.ingestion (.refused "ingestion_runs" es))

/-- `IngestionLifecycleService.add_item` -/
def addItem (itemId jobId runId artifactId : Uuid) (t : Time) (w : World) : Except Cause World :=
  match Lifecycle.addItem itemId jobId runId artifactId t w.ingestion with
  | .error e => .error (.ingestion e)
  | .ok (db, _) => .ok (w.setIngestion db)

def cause : Upload.Raised → Cause
  | .domain e => .knowledge e
  | .failure f => .failure f

def upload (c : Upload.Course) (u : Upload.Call) : Act UploadedDocumentArtifact := do
  let w ← get
  let r := u.run c (.start w.stores)
  modify fun w => { w with stores := r.2.stores }
  match r.1 with
  | .ok uploaded => pure uploaded
  | .error e => fail ⟨.upload, cause e⟩

/-- a computation on the command alone -/
def check {α : Type} (step : Step) : Except Chunking.ValueError α → Act α
  | .ok a => pure a
  | .error e => fail ⟨step, .value e⟩

def ingest (i : Ingest) (c : Course) : Act QueuedIngestion := do
  unitOfWork .createDocument c.createDocument (knowledge i.settings (.createDocument i.document))
  unitOfWork .createVersion c.createVersion (knowledge i.settings (.createVersion i.version))
  let uploaded ← upload c.upload i.upload
  let config ← check .chunkingConfiguration i.chunkingConfig
  let hash ← check .configurationHash (i.configurationHash config)
  unitOfWork .createRun c.createRun (createRun (i.run config hash))
  unitOfWork .addItem c.addItem (addItem i.itemId i.jobId i.runId uploaded.artifactId i.itemCreatedAt)
  pure (i.queued uploaded.artifactId)

/-! ## What a call makes -/

inductive Thing where
  | document
  | version
  | artifact
  | object
  | run
  | item
  | job
deriving DecidableEq, Repr

namespace Ingest

def HasDocument (i : Ingest) (s : Upload.Stores) : Prop :=
  ∃ d ∈ s.db.documents, d.id = i.documentId ∧ d.canonicalKey = i.canonicalKey

def HasVersion (i : Ingest) (s : Upload.Stores) : Prop :=
  ∃ v ∈ s.db.versions, v.id = i.versionId ∧ v.documentId = i.documentId

end Ingest

/-- the thing with the identifier that the call has drawn for it is there -/
def World.Has (w : World) (i : Ingest) : Thing → Prop
  | .document => i.HasDocument w.stores
  | .version => i.HasVersion w.stores
  | .artifact => w.stores.HasRow i.artifactId
  | .object => (w.stores.objects i.upload.key).isSome
  | .run => ∃ r ∈ w.runs, r.id = i.runId
  | .item => ∃ it ∈ w.items, it.id = i.itemId
  | .job => ∃ j ∈ w.outbox, j.id = i.jobId

instance (w : World) (i : Ingest) (x : Thing) : Decidable (w.Has i x) := by
  cases x <;> simp only [World.Has, Ingest.HasDocument, Ingest.HasVersion] <;> infer_instance

/-- of what the call makes, these things are there -/
def World.HasOnly (w : World) (i : Ingest) (things : List Thing) : Prop := ∀ x, w.Has i x ↔ x ∈ things

/-- what the steps before have made -/
def Step.before : Step → List Thing
  | .createDocument => []
  | .createVersion => [.document]
  | .upload => [.document, .version]
  | .chunkingConfiguration | .configurationHash | .createRun => [.document, .version, .artifact, .object]
  | .addItem => [.document, .version, .artifact, .object, .run]

/-- what the step makes -/
def Step.adds : Step → List Thing
  | .createDocument => [.document]
  | .createVersion => [.version]
  | .upload => [.artifact, .object]
  | .chunkingConfiguration | .configurationHash => []
  | .createRun => [.run]
  | .addItem => [.item, .job]

/-- **What may remain** of a call that raises in a step: what the steps before have made; with what the step itself makes, if
leaving its unit of work raises; or with the object alone, if the delete that compensates an upload fails. -/
def Course.Leaves (c : Course) (step : Step) (things : List Thing) : Prop :=
  things = step.before ∨ (c.exit step ≠ none ∧ things = step.before ++ step.adds) ∨
  (step = .upload ∧ ¬ c.upload.Compensates ∧ things = step.before ++ [.object])

/-- others go on without what the call makes -/
structure Elsewhere (i : Ingest) (f : World → World) : Prop where
  has : ∀ w x, (f w).Has i x ↔ w.Has i x
  runs : ∀ w, (f w).runs.filter (·.id = i.runId) = w.runs.filter (·.id = i.runId)

structure Course.Alone (c : Course) (i : Ingest) : Prop where
  sessions : ∀ s ∈ c.sessions, Elsewhere i s.others
  upload : ∀ a ∈ c.upload.awaits, Upload.Elsewhere i.artifactId i.upload.key a.others
  target : ∀ a ∈ c.upload.awaits, ∀ s,
    (i.HasDocument (a.others s) ↔ i.HasDocument s) ∧ (i.HasVersion (a.others s) ↔ i.HasVersion s)

/-! ## Transactions -/

section

variable {i : Ingest} {w w' : World} {things added : List Thing}

theorem hasOnly_append (h : ∀ x, w'.Has i x ↔ w.Has i x ∨ x ∈ added) (hw : w.HasOnly i things) :
    w'.HasOnly i (things ++ added) := fun x => by rw [h, hw, List.mem_append]

theorem alone_createDocument {reply : Outcome → Answer} {document : CreateDocument} {db : KnowledgeDb} :
    (DocumentManagementService.createDocument reply document).alone db =
    (if db.CanonicalKeyExists document.canonicalKey then
      (db, reply (.raised (.documentCanonicalKeyConflict document.canonicalKey)))
    else
      match db.documentViolations document.row with
      | [] => (db.addDocument document.row, reply (.document document.row))
      | es => (db, reply (.raised (if es.head? = some (.unique DOCUMENT_CANONICAL_KEY_CONSTRAINT) then
          .documentCanonicalKeyConflict document.canonicalKey else .integrity es)))) := by
  simp only [DocumentManagementService.createDocument, Lib.Transaction.Txn.read, Lib.Transaction.Txn.alone]
  split_ifs with hkey
  · rfl
  · rw [Knowledge.insert, Lib.Transaction.Txn.alone]
    cases db.documentViolations document.row with
    | nil => rfl
    | cons e es => rfl

theorem alone_createVersion {reply : Outcome → Answer} {version : CreateDocumentVersion} {db : KnowledgeDb} :
    (DocumentVersionManagementService.createVersion reply version).alone db =
    (match db.findActiveDocument version.documentId with
    | none => (db, reply (.raised (.documentVersionDocumentNotFound version.documentId)))
    | some _ =>
      match db.newVersionViolations version.row with
      | [] => (db.addVersion version.row, reply (.version version.row))
      | es => (db, reply (.raised (if es.head? = some (.unique DOCUMENT_VERSION_LABEL_CONSTRAINT) then
          .documentVersionConflict version.documentId version.versionLabel else .integrity es)))) := by
  rw [DocumentVersionManagementService.createVersion, findActiveDocument, select, Lib.Transaction.Txn.alone]
  cases db.findActiveDocument version.documentId with
  | none => rfl
  | some document =>
    simp only [Knowledge.insert, Lib.Transaction.Txn.alone]
    cases db.newVersionViolations version.row with
    | nil => rfl
    | cons e es => rfl

/-- **Documents**: the one transaction adds the document. -/
theorem createDocument_has (h : knowledge i.settings (.createDocument i.document) w = .ok w') (x : Thing) :
    w'.Has i x ↔ w.Has i x ∨ x ∈ Step.createDocument.adds := by
  have hdb : w' = w.setKnowledge (w.stores.db.addDocument i.document.row) := by
    simp only [knowledge, Request.txn, alone_createDocument] at h
    split_ifs at h
    · cases h
    · revert h
      cases w.stores.db.documentViolations i.document.row with
      | nil => exact fun h => (Except.ok.inj h).symm
      | cons e es => exact fun h => (by cases h)
  subst hdb
  cases x <;> simp [World.Has, Ingest.HasDocument, Ingest.HasVersion, World.setKnowledge, KnowledgeDb.addDocument, Step.adds,
    CreateDocument.row, Ingest.document, Upload.Stores.HasRow, or_and_right, exists_or]

/-- The transaction of the version adds the version, and nothing else of the call. -/
theorem createVersion_has (h : knowledge i.settings (.createVersion i.version) w = .ok w') (x : Thing) :
    w'.Has i x ↔ w.Has i x ∨ x ∈ Step.createVersion.adds := by
  have hdb : w' = w.setKnowledge (w.stores.db.addVersion i.version.row) := by
    simp only [knowledge, Request.txn, alone_createVersion] at h
    revert h
    cases w.stores.db.findActiveDocument i.version.documentId with
    | none => exact fun h => (by cases h)
    | some document =>
      cases w.stores.db.newVersionViolations i.version.row with
      | nil => exact fun h => (Except.ok.inj h).symm
      | cons e es => exact fun h => (by cases h)
  subst hdb
  cases x <;> simp [World.Has, Ingest.HasDocument, Ingest.HasVersion, World.setKnowledge, KnowledgeDb.addVersion, Step.adds,
    CreateDocumentVersion.row, Ingest.version, Upload.Stores.HasRow, or_and_right, exists_or]

/-- A run that is created is one that the table takes, and is added to it. -/
theorem createRun_ok {run : IngestionRun} (h : createRun run w = .ok w') :
    w.runViolations run = [] ∧ w' = w.addRun run := by
  revert h
  rw [createRun]
  cases w.runViolations run with
  | nil => exact fun h => ⟨rfl, (Except.ok.inj h).symm⟩
  | cons e es => exact fun h => (by cases h)

theorem createRun_has {config : Chunking.ChunkingConfig} {hash : String} (h : createRun (i.run config hash) w = .ok w')
    (x : Thing) : w'.Has i x ↔ w.Has i x ∨ x ∈ Step.createRun.adds := by
  obtain ⟨-, rfl⟩ := createRun_ok h
  cases x <;> simp [World.Has, World.addRun, Step.adds, Ingest.run, or_and_right, exists_or]

/-- **Items**: an item and its job, or neither -/
theorem addItem_ok {itemId jobId runId artifactId : Uuid} {t : Time} (h : addItem itemId jobId runId artifactId t w = .ok w') :
    w' = { w with
      items := w.items ++ [.new itemId runId artifactId t], outbox := w.outbox ++ [itemJob jobId itemId t] } := by
  simp only [addItem, Lifecycle.addItem, IngestionRepository.addItem] at h
  split at h
  · cases h
  · next db _ hitem =>
    split at hitem
    · cases hitem
    · next items hitems =>
      split at hitem
      · cases hitem
      · next outbox hjob =>
        obtain ⟨-, -, houtbox⟩ := Jobs.enqueue_ok.1 hjob
        split at hitems
        · obtain ⟨-, hitems'⟩ := Lib.Table.insertRow_ok.1 hitems
          cases hitem
          cases h
          rw [World.setIngestion, hitems', houtbox]
          rfl
        · cases hitems

theorem addItem_has (h : addItem i.itemId i.jobId i.runId i.artifactId i.itemCreatedAt w = .ok w') (x : Thing) :
    w'.Has i x ↔ w.Has i x ∨ x ∈ Step.addItem.adds := by
  rw [addItem_ok h]
  cases x <;> simp [World.Has, Step.adds, itemJob, Jobs.JobOutbox.new, IngestionItem.new, or_and_right, exists_or]

end

/-! ## Steps -/

/-- what a call that raises has left -/
def Course.Left (c : Course) (i : Ingest) (e : Raised) (w : World) : Prop :=
  ∃ things, c.Leaves e.step things ∧ w.HasOnly i things

section

variable {i : Ingest} {c : Course} {P Q : World → Prop}

theorem Elsewhere.hasOnly {f : World → World} (hf : Elsewhere i f) {w : World} {things : List Thing} (hw : w.HasOnly i things) :
    (f w).HasOnly i things := fun x => (hf.has w x).trans (hw x)

theorem meets_unitOfWork {step : Step} {s : Session} {transaction : World → Except Cause World}
    (hothers : ∀ w, P w → P (s.others w)) (htransaction : ∀ w w', P w → transaction w = .ok w' → Q w') :
    Meets P (unitOfWork step s transaction) (fun _ => Q) fun e w => e.step = step ∧ (P w ∨ (s.exit ≠ none ∧ Q w)) := by
  refine meets_bind (Q := fun _ => P) (meets_modify hothers) fun _ => ?_
  split
  · exact meets_fail fun w hw => ⟨rfl, .inl hw⟩
  · refine meets_get fun w => ?_
    split
    · exact meets_fail fun w' hw => ⟨rfl, .inl hw.1⟩
    · next w' hw' =>
      refine meets_bind (Q := fun _ => Q) (meets_modify fun w₀ hw => htransaction w w' (hw.2 ▸ hw.1) hw') fun _ => ?_
      split
      · next f hf => exact meets_fail fun w₀ hw => ⟨rfl, .inr ⟨by rw [hf]; exact Option.some_ne_none f, hw⟩⟩
      · exact meets_pure fun w₀ hw => hw

/-- a unit of work, as a step of a call -/
theorem meets_session {step : Step} {s : Session} {transaction : World → Except Cause World} (hexit : c.exit step = s.exit)
    (hothers : ∀ w, P w → P (s.others w)) (hP : ∀ w, P w → w.HasOnly i step.before)
    (htransaction : ∀ w w', P w → transaction w = .ok w' → Q w')
    (hQ : ∀ w, Q w → w.HasOnly i (step.before ++ step.adds)) :
    Meets P (unitOfWork step s transaction) (fun _ => Q) (c.Left i) := by
  refine (meets_unitOfWork hothers htransaction).weaken (fun _ h => h) (fun _ _ h => h) fun e w ⟨hstep, hw⟩ => ?_
  rcases hw with hw | ⟨hraises, hw⟩
  · exact ⟨_, .inl rfl, hstep ▸ hP w hw⟩
  · exact ⟨_, .inr (.inl ⟨by rw [hstep, hexit]; exact hraises, rfl⟩), hstep ▸ hQ w hw⟩

theorem meets_check {α : Type} {step : Step} {x : Except Chunking.ValueError α} (hP : ∀ w, P w → w.HasOnly i step.before) :
    Meets P (check step x) (fun a w => x = .ok a ∧ P w) (c.Left i) := by
  cases x with
  | ok a => exact meets_pure fun w hw => ⟨rfl, hw⟩
  | error e => exact meets_fail fun w hw => ⟨_, .inl rfl, hP w hw⟩

/-- the upload changes the stores only -/
theorem hasOnly_stores {w : World} {s : Upload.Stores} {added : List Thing} (hw : w.HasOnly i Step.upload.before)
    (htarget : i.HasDocument s ∧ i.HasVersion s) (hadded : ∀ x ∈ added, x = .artifact ∨ x = .object)
    (hrow : s.HasRow i.artifactId ↔ .artifact ∈ added) (hobject : (s.objects i.upload.key).isSome ↔ .object ∈ added) :
    World.HasOnly { w with stores := s } i (Step.upload.before ++ added) := by
  have hnot : ∀ x ∈ [Thing.run, .item, .job], x ∉ added := fun x hx hmem => by
    rcases hadded x hmem with rfl | rfl <;> simp at hx
  intro x
  rw [List.mem_append]
  cases x with
  | document => exact iff_of_true htarget.1 (.inl (by decide))
  | version => exact iff_of_true htarget.2 (.inl (by decide))
  | artifact => exact hrow.trans (or_iff_right (by decide)).symm
  | object => exact hobject.trans (or_iff_right (by decide)).symm
  | run => exact (hw .run).trans (or_iff_left (hnot _ (by decide))).symm
  | item => exact (hw .item).trans (or_iff_left (hnot _ (by decide))).symm
  | job => exact (hw .job).trans (or_iff_left (hnot _ (by decide))).symm

theorem fresh_of_hasOnly {w : World} (hw : w.HasOnly i Step.upload.before) :
    Upload.Fresh i.artifactId i.upload.key w.stores := by
  have hrow : ¬ w.Has i .artifact := fun h => absurd ((hw .artifact).1 h) (by decide)
  have hobject : ¬ w.Has i .object := fun h => absurd ((hw .object).1 h) (by decide)
  exact ⟨fun a ha hid => hrow ⟨a, ha, hid⟩, Option.not_isSome_iff_eq_none.1 hobject⟩

/-- the upload leaves the document and the version alone -/
theorem upload_target (hc : c.Alone i) {s : Upload.Stores} (hs : i.HasDocument s ∧ i.HasVersion s) :
    i.HasDocument (i.upload.run c.upload (.start s)).2.stores ∧ i.HasVersion (i.upload.run c.upload (.start s)).2.stores := by
  have hrows : ∀ (s : Upload.Stores) rows, i.HasDocument s ∧ i.HasVersion s →
      i.HasDocument (s.addRows rows) ∧ i.HasVersion (s.addRows rows) := by
    intro s rows hs
    have hsame : ∀ db, (rows.foldl KnowledgeDb.addArtifact db).documents = db.documents ∧
        (rows.foldl KnowledgeDb.addArtifact db).versions = db.versions := by
      induction rows with
      | nil => exact fun db => ⟨rfl, rfl⟩
      | cons r rows ih => exact fun db => ih (db.addArtifact r)
    simpa only [Ingest.HasDocument, Ingest.HasVersion, Upload.Stores.addRows, hsame] using hs
  have hothers : ∀ a ∈ c.upload.awaits, ∀ s, i.HasDocument s ∧ i.HasVersion s →
      i.HasDocument (a.others s) ∧ i.HasVersion (a.others s) := fun a ha s hs =>
    ⟨(hc.target a ha s).1.2 hs.1, (hc.target a ha s).2.2 hs.2⟩
  exact (Upload.keeps_upload hothers i.upload (fun _ _ h => h) hrows).run hs

/-- **The upload**: row and object are there, or neither; the object alone, if the delete fails. -/
theorem meets_upload (hc : c.Alone i) :
    Meets (fun w => w.HasOnly i Step.upload.before) (upload c.upload i.upload)
      (fun uploaded w => uploaded.artifactId = i.artifactId ∧ w.HasOnly i (Step.upload.before ++ Step.upload.adds))
      (c.Left i) := by
  intro w hw
  have hfresh := fresh_of_hasOnly hw
  have hends := Upload.meets_upload (u := i.upload) ⟨hfresh, hc.upload⟩ (.start w.stores) ⟨rfl, .refl⟩
  have htarget := upload_target hc ⟨(hw .document).2 (by decide), (hw .version).2 (by decide)⟩
  rw [upload, bind_ok (get_run w)]
  generalize i.upload.run c.upload (.start w.stores) = r at hends htarget ⊢
  obtain ⟨result, x⟩ := r
  dsimp only at hends htarget ⊢
  rw [bind_ok (modify_run _ w)]
  have hkept : i.upload.Kept x → World.HasOnly { w with stores := x.stores } i (Step.upload.before ++ Step.upload.adds) :=
    fun hkept => hasOnly_stores hw htarget (by decide) (iff_of_true (Upload.kept_hasRow hkept) (by decide))
      (iff_of_true (by rw [hkept.2]; rfl) (by decide))
  cases result with
  | ok uploaded =>
    obtain ⟨rfl, hk⟩ := hends
    exact ⟨rfl, hkept hk⟩
  | error e =>
    rcases hends with ⟨hexit, hk⟩ | ⟨o, ⟨hx, hothers⟩, hcomp⟩
    · exact ⟨_, .inr (.inl ⟨hexit, rfl⟩), hkept hk⟩
    · have helse := hothers.fresh hc.upload hfresh
      have hrow : ¬ x.stores.HasRow i.artifactId := by
        rintro ⟨a, ha, hid⟩
        rw [hx] at ha
        exact helse.1 a ha hid
      have hobject : x.stores.objects i.upload.key = o := by rw [hx, Upload.setObject_objects]
      cases o with
      | none =>
        refine ⟨_, .inl rfl, ?_⟩
        exact @hasOnly_stores i w x.stores [] hw htarget (by decide) (iff_of_false hrow (by decide))
          (iff_of_false (by rw [hobject]; exact Bool.false_ne_true) (by decide))
      | some o =>
        refine ⟨_, .inr (.inr ⟨rfl, fun hdelete => (by cases hcomp hdelete), rfl⟩), ?_⟩
        exact hasOnly_stores hw htarget (by decide) (iff_of_false hrow (by decide))
          (iff_of_true (by rw [hobject]; rfl) (by decide))

end

/-! ## Calls -/

section

variable {i : Ingest} {c : Course}

/-- the run that a call makes is the only one with its identifier -/
def Ingest.HasRun (i : Ingest) (config : Chunking.ChunkingConfig) (hash : String) (w : World) : Prop :=
  w.runs.filter (·.id = i.runId) = [i.run config hash]

theorem createRun_hasRun {config : Chunking.ChunkingConfig} {hash : String} {w w' : World}
    (hw : w.HasOnly i Step.createRun.before) (h : createRun (i.run config hash) w = .ok w') : i.HasRun config hash w' := by
  obtain ⟨-, rfl⟩ := createRun_ok h
  have hnone : w.runs.filter (·.id = i.runId) = [] := by
    refine List.filter_eq_nil_iff.2 fun r hr hid => ?_
    exact absurd ((hw .run).1 ⟨r, hr, of_decide_eq_true hid⟩) (by decide)
  simp [Ingest.HasRun, World.addRun, hnone, Ingest.run]

/-- **What a call leaves**: everything, with a run that has the configuration of the command; or what `Leaves` says. -/
theorem meets_ingest (hc : c.Alone i) :
    Meets (fun w => w.HasOnly i []) (ingest i c)
      (fun q w => q = i.queued i.artifactId ∧ w.HasOnly i (Step.addItem.before ++ Step.addItem.adds) ∧
        ∃ config hash, i.chunkingConfig = .ok config ∧ i.configurationHash config = .ok hash ∧ i.HasRun config hash w)
      (c.Left i) := by
  have hothers : ∀ s ∈ c.sessions, ∀ w things, World.HasOnly w i things → (s.others w).HasOnly i things :=
    fun s hs _ _ hw => (hc.sessions s hs).hasOnly hw
  have hdocument : Meets (fun w => w.HasOnly i Step.createDocument.before)
      (unitOfWork .createDocument c.createDocument (knowledge i.settings (.createDocument i.document)))
      (fun _ w => w.HasOnly i Step.createVersion.before) (c.Left i) :=
    meets_session rfl (fun w hw => hothers _ (by simp [Course.sessions]) w _ hw) (fun _ hw => hw)
      (fun _ _ hw h => hasOnly_append (createDocument_has h) hw) fun _ hw => hw
  have hversion : Meets (fun w => w.HasOnly i Step.createVersion.before)
      (unitOfWork .createVersion c.createVersion (knowledge i.settings (.createVersion i.version)))
      (fun _ w => w.HasOnly i Step.upload.before) (c.Left i) :=
    meets_session rfl (fun w hw => hothers _ (by simp [Course.sessions]) w _ hw) (fun _ hw => hw)
      (fun _ _ hw h => hasOnly_append (createVersion_has h) hw) fun _ hw => hw
  refine meets_bind hdocument fun _ => meets_bind hversion fun _ => meets_bind (meets_upload hc) fun uploaded => ?_
  have hconfig : Meets (fun w => uploaded.artifactId = i.artifactId ∧ w.HasOnly i Step.createRun.before)
      (check .chunkingConfiguration i.chunkingConfig) (fun config w => i.chunkingConfig = .ok config ∧
        uploaded.artifactId = i.artifactId ∧ w.HasOnly i Step.createRun.before) (c.Left i) := meets_check fun _ hw => hw.2
  refine meets_bind hconfig fun config => ?_
  have hhash : Meets (fun w => i.chunkingConfig = .ok config ∧ uploaded.artifactId = i.artifactId ∧
        w.HasOnly i Step.createRun.before)
      (check .configurationHash (i.configurationHash config)) (fun hash w => i.configurationHash config = .ok hash ∧
        i.chunkingConfig = .ok config ∧ uploaded.artifactId = i.artifactId ∧ w.HasOnly i Step.createRun.before) (c.Left i) :=
    meets_check fun _ hw => hw.2.2
  refine meets_bind hhash fun hash => ?_
  -- the run, with the configuration of the command
  have hrun : Meets (fun w => i.configurationHash config = .ok hash ∧ i.chunkingConfig = .ok config ∧
        uploaded.artifactId = i.artifactId ∧ w.HasOnly i Step.createRun.before)
      (unitOfWork .createRun c.createRun (createRun (i.run config hash)))
      (fun _ w => i.configurationHash config = .ok hash ∧ i.chunkingConfig = .ok config ∧
        uploaded.artifactId = i.artifactId ∧ i.HasRun config hash w ∧ w.HasOnly i Step.addItem.before) (c.Left i) :=
    meets_session rfl
      (fun w ⟨hhash, hconfig, hid, hw⟩ => ⟨hhash, hconfig, hid, hothers _ (by simp [Course.sessions]) w _ hw⟩)
      (fun _ hw => hw.2.2.2)
      (fun _ _ ⟨hhash, hconfig, hid, hw⟩ h =>
        ⟨hhash, hconfig, hid, createRun_hasRun hw h, hasOnly_append (createRun_has h) hw⟩)
      fun _ hw => hw.2.2.2.2
  refine meets_bind hrun fun _ => ?_
  have hitem : Meets (fun w => i.configurationHash config = .ok hash ∧ i.chunkingConfig = .ok config ∧
        uploaded.artifactId = i.artifactId ∧ i.HasRun config hash w ∧ w.HasOnly i Step.addItem.before)
      (unitOfWork .addItem c.addItem (addItem i.itemId i.jobId i.runId uploaded.artifactId i.itemCreatedAt))
      (fun _ w => i.configurationHash config = .ok hash ∧ i.chunkingConfig = .ok config ∧
        uploaded.artifactId = i.artifactId ∧ i.HasRun config hash w ∧
        w.HasOnly i (Step.addItem.before ++ Step.addItem.adds)) (c.Left i) := by
    have hsession := hc.sessions c.addItem (by simp [Course.sessions])
    refine meets_session rfl
      (fun w ⟨hhash, hconfig, hid, hr, hw⟩ => ⟨hhash, hconfig, hid, (hsession.runs w).trans hr, hsession.hasOnly hw⟩)
      (fun _ hw => hw.2.2.2.2) ?_ fun _ hw => hw.2.2.2.2
    rintro w w' ⟨hhash, hconfig, hid, hr, hw⟩ h
    rw [hid] at h
    refine ⟨hhash, hconfig, hid, ?_, hasOnly_append (addItem_has h) hw⟩
    rw [addItem_ok h]
    exact hr
  refine meets_bind hitem fun _ => ?_
  exact meets_pure fun w ⟨hhash, hconfig, hid, hr, hw⟩ => ⟨congrArg i.queued hid, hw, config, hash, hconfig, hhash, hr⟩

/-- a document blocks its canonical key -/
theorem ingest_conflict {s : Session} (hs : c.createDocument = s) (hfailure : s.failure = none) (hexit : s.exit = none)
    {w : World} (hkey : (s.others w).stores.db.CanonicalKeyExists i.canonicalKey) :
    (ingest i c w).1 = .error ⟨.createDocument, .knowledge (.documentCanonicalKeyConflict i.canonicalKey)⟩ := by
  have hrefused : knowledge i.settings (.createDocument i.document) (s.others w) =
      .error (.knowledge (.documentCanonicalKeyConflict i.canonicalKey)) := by
    have hkey' : (s.others w).stores.db.CanonicalKeyExists i.document.canonicalKey := hkey
    simp only [knowledge, Request.txn, alone_createDocument, if_pos hkey']
    rfl
  have hstep : unitOfWork .createDocument s (knowledge i.settings (.createDocument i.document)) w =
      (.error ⟨.createDocument, .knowledge (.documentCanonicalKeyConflict i.canonicalKey)⟩, s.others w) := by
    rw [unitOfWork, bind_ok (modify_run _ w), hfailure]
    dsimp only
    rw [bind_ok (get_run _), hrefused, hexit]
    rfl
  rw [ingest, hs, bind_error hstep]

end

/-- **What remains of a call that raises.** A call that returns has made everything. One that raises has left exactly what the
steps before the one that raises have made: with what that step makes, only if leaving its unit of work is what raises; with
the object of an upload, only if the delete that compensates it fails. If its document is among this then, as long as that is
there, every call with the same canonical key is rejected; otherwise nothing is left. -/
theorem ingest_remains (i : Ingest) (c : Course) (hc : c.Alone i) (w : World) (hw : w.HasOnly i []) :
    (∀ q w', ingest i c w = (.ok q, w') → ∀ x, w'.Has i x) ∧
    ∀ e w', ingest i c w = (.error e, w') → ∃ things, c.Leaves e.step things ∧ w'.HasOnly i things ∧
      (Thing.document ∉ things → things = []) ∧
      (Thing.document ∈ things → ∀ (later : Ingest) (c' : Course) (w'' : World), later.canonicalKey = i.canonicalKey →
        c'.createDocument.failure = none → c'.createDocument.exit = none → (c'.createDocument.others w'').Has i .document →
        (ingest later c' w'').1 = .error ⟨.createDocument, .knowledge (.documentCanonicalKeyConflict i.canonicalKey)⟩) := by
  have hends := meets_ingest hc w hw
  refine ⟨fun q w' hrun => ?_, fun e w' hrun => ?_⟩
  · rw [hrun] at hends
    intro x
    have hall : x ∈ Step.addItem.before ++ Step.addItem.adds := by cases x <;> decide
    exact (hends.2.1 x).2 hall
  · rw [hrun] at hends
    obtain ⟨things, hleaves, hthings⟩ := hends
    refine ⟨things, hleaves, hthings, fun hno => ?_, fun _ later c' w'' hkey hfailure hexit hdocument => ?_⟩
    · -- every later step has the document before it
      have hbefore : e.step = .createDocument ∨ Thing.document ∈ e.step.before := by cases e.step <;> decide
      rcases hleaves with rfl | ⟨-, rfl⟩ | ⟨hstep, -, rfl⟩
      · rcases hbefore with hstep | hmem
        · rw [hstep]
          rfl
        · exact absurd hmem hno
      · rcases hbefore with hstep | hmem
        · rw [hstep] at hno
          exact absurd (by decide) hno
        · exact absurd (List.mem_append_left _ hmem) hno
      · rw [hstep] at hno
        exact absurd (by decide) hno
    · obtain ⟨d, hd, -, hdkey⟩ := hdocument
      rw [← hkey]
      exact ingest_conflict rfl hfailure hexit ⟨d, hd, hdkey.trans hkey.symm⟩

/-! ## A refused upload -/

/-- nothing fails, and nobody else is there -/
def quiet : Course := ⟨⟨id, none, none⟩, ⟨id, none, none⟩, Upload.quiet, ⟨id, none, none⟩, ⟨id, none, none⟩⟩

/-- a user, and no document -/
def oneUser : World :=
  ⟨⟨⟨⟨[⟨9, .user, true, 0, 0, none⟩], [9], [], [], [], [], [], []⟩, [], [], [], []⟩, fun _ => none⟩, [], [], [], []⟩

/-- a call with these contents; the call draws `n`, `n + 1`, … -/
def notes (n : Uuid) (content : List UInt8) : Ingest where
  settings := textUploads
  command := ⟨"Notes", "notes.txt", "text/plain", content, "en", some "notes", DEFAULT_VERSION_LABEL, DEFAULT_ARTIFACT_KEY, none⟩
  actorPrincipalId := 9
  keyId := n
  documentId := n + 1
  versionId := n + 2
  artifactId := n + 3
  runId := n + 4
  itemId := n + 5
  jobId := n + 6
  documentCreatedAt := 0
  versionCreatedAt := 0
  artifactCreatedAt := 0
  runCreatedAt := 0
  itemCreatedAt := 0

theorem quiet_alone (i : Ingest) : quiet.Alone i where
  sessions s hs := by
    have hid : s.others = id := by
      simp only [Course.sessions, quiet, List.mem_cons, List.not_mem_nil, or_false, or_self] at hs
      rw [hs]
    rw [hid]
    exact ⟨fun _ _ => Iff.rfl, fun _ => rfl⟩
  upload a ha := by
    simp only [Upload.Course.awaits, quiet, Upload.quiet, List.mem_cons, List.not_mem_nil, or_false, or_self] at ha
    rw [ha]
    exact ⟨fun _ => rfl, fun _ _ => rfl⟩
  target a ha s := by
    simp only [Upload.Course.awaits, quiet, Upload.quiet, List.mem_cons, List.not_mem_nil, or_false, or_self] at ha
    rw [ha]
    exact ⟨Iff.rfl, Iff.rfl⟩

theorem oneUser_hasOnly (i : Ingest) : oneUser.HasOnly i [] := fun x => by
  cases x <;> simp [World.Has, Ingest.HasDocument, Ingest.HasVersion, Upload.Stores.HasRow, oneUser]

/-- an empty file is refused after its document and version are committed, which stay -/
theorem ingest_remains_empty :
    (ingest (notes 0 []) quiet oneUser).1 = .error ⟨.upload, .knowledge .documentArtifactEmpty⟩ ∧
      (ingest (notes 0 []) quiet oneUser).2.HasOnly (notes 0 []) [.document, .version] := by
  have hraises : (ingest (notes 0 []) quiet oneUser).1 = .error ⟨.upload, .knowledge .documentArtifactEmpty⟩ := by
    decide +kernel
  obtain ⟨things, hleaves, hthings, -⟩ :=
    (ingest_remains (notes 0 []) quiet (quiet_alone _) oneUser (oneUser_hasOnly _)).2 _ _ (Prod.ext hraises rfl)
  refine ⟨hraises, ?_⟩
  rcases hleaves with rfl | ⟨hexit, -⟩ | ⟨-, hdelete, -⟩
  · exact hthings
  · exact absurd rfl hexit
  · exact absurd (.inl rfl) hdelete

/-- **A call that raises is not undone.** The file is empty: the upload is refused, the document and the version remain, and
the next call, with the file as it should be, is refused for its canonical key. -/
theorem ingest_rejected_after_failure :
    oneUser.HasOnly (notes 0 []) [] ∧ quiet.Alone (notes 0 []) ∧
    (ingest (notes 0 []) quiet oneUser).1 = .error ⟨.upload, .knowledge .documentArtifactEmpty⟩ ∧
    (ingest (notes 0 []) quiet oneUser).2.Has (notes 0 []) .document ∧
    (ingest (notes 0 []) quiet oneUser).2.Has (notes 0 []) .version ∧
    (ingest (notes 10 [65]) quiet (ingest (notes 0 []) quiet oneUser).2).1 =
      .error ⟨.createDocument, .knowledge (.documentCanonicalKeyConflict "notes")⟩ ∧
    (ingest (notes 10 [65]) quiet oneUser).1 = .ok ((notes 10 [65]).queued 13) :=
  ⟨oneUser_hasOnly _, quiet_alone _, by decide +kernel, by decide +kernel, by decide +kernel, by decide +kernel,
    by decide +kernel⟩

end AtlasRag.Ingestion.Pipeline
