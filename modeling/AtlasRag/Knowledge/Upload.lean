/-
`DocumentArtifactUploadService.upload` on the database and the object storage, which share no transaction.

Each `await` may raise an error or be cancelled, and meanwhile others go on. `put`, `commit` and the other awaits raise
before they have had their effect; only of the compensating `delete` nothing is assumed. The session keeps what it has
written until the commit, and leaving it drops the rest. `elsewhere` follows the stores as they would be without the
upload.

Results:
- `upload_in_step`: whatever fails, the row is there iff its object is, with the hash and the size of the object, and if
  it is not then the upload has left nothing behind; a row without an object is never there;
- `upload_alone`: an upload that nothing disturbs is the transaction of `Knowledge.Transactions`, and stores the object
  iff that one commits;
- `storageKey_inj`: two uploads share a storage key only if they share the artifact id.
-/
import AtlasRag.Knowledge.Transactions
import AtlasRag.Lib.Effect

namespace AtlasRag.Knowledge.Upload

open AtlasRag.Lib.Effect AtlasRag.Platform

/-! ## The stores -/

/-- an object of the object storage -/
structure StoredObject where
  content : List UInt8
  contentType : String
deriving DecidableEq, Repr

structure Stores where
  db : KnowledgeDb
  objects : String → Option StoredObject

def Stores.setObject (s : Stores) (key : String) (o : Option StoredObject) : Stores :=
  { s with objects := Function.update s.objects key o }

def Stores.addRows (s : Stores) (rows : List DocumentArtifact) : Stores :=
  { s with db := rows.foldl KnowledgeDb.addArtifact s.db }

structure World where
  stores : Stores
  /-- the stores as the others alone have made them -/
  elsewhere : Stores

def World.start (s : Stores) : World := ⟨s, s⟩

def World.meanwhile (others : Stores → Stores) (w : World) : World := ⟨others w.stores, others w.elsewhere⟩

/-! ## What can happen -/

/-- `error` is an `Exception`, `cancelled` is not -/
inductive Failure where
  | error
  | cancelled
deriving DecidableEq, Repr

/-- an `await`: what others do to the stores meanwhile, and the failure that it raises, if any -/
structure Await where
  others : Stores → Stores
  failure : Option Failure

/-- the awaits of an upload -/
structure Course where
  enter : Await
  findDocument : Await
  findVersion : Await
  artifactKeyExists : Await
  storageKeyExists : Await
  put : Await
  add : Await
  commit : Await
  exit : Await
  delete : Await
  /-- a `delete` that raises has removed the object all the same -/
  deleted : Bool

def Course.awaits (c : Course) : List Await :=
  [c.enter, c.findDocument, c.findVersion, c.artifactKeyExists, c.storageKeyExists, c.put, c.add, c.commit, c.exit, c.delete]

/-- the compensating delete, if it is called, removes the object -/
def Course.Compensates (c : Course) : Prop := c.delete.failure = none ∨ c.deleted = true

inductive Raised where
  | domain (e : KnowledgeError)
  | failure (f : Failure)
deriving DecidableEq, Repr

/-- the variables of `upload`, and what its session has written -/
structure Locals where
  uploaded : Bool
  committed : Bool
  session : List DocumentArtifact

abbrev Act := Eff (World × Locals) Raised

/-! ## The service -/

def await (a : Await) : Act Unit := do
  modify fun s => (s.1.meanwhile a.others, s.2)
  match a.failure with
  | some f => fail (.failure f)
  | none => pure ()

/-- an assignment to the variables -/
def assign (g : Locals → Locals) : Act Unit := modify fun s => (s.1, g s.2)

/-- a change of the stores -/
def write (g : Stores → Stores) : Act Unit := modify fun s => ({ s.1 with stores := g s.1.stores }, s.2)

/-- `if p: raise e` -/
def raiseIf (p : Prop) [Decidable p] (e : KnowledgeError) : Act Unit := if p then fail (.domain e) else pure ()

/-- a query in the transaction of the session -/
def query {α : Type} (a : Await) (find : KnowledgeDb → α) : Act α := do
  await a
  let s ← get
  pure (find s.1.stores.db)

/-- `_validate_target` -/
def validateTarget (c : Course) (d v : Uuid) : Act Unit := do
  match ← query c.findDocument (·.findDocument d) with
  | none => fail (.domain (.documentNotFound d))
  | some document => do
    raiseIf (document.deletedAt ≠ none) (.documentDeleted d)
    match ← query c.findVersion (·.findVersion d v) with
    | none => fail (.domain (.documentVersionNotFound d v))
    | some version => raiseIf (version.status ≠ .draft) (.documentArtifactVersionNotDraft v version.status)

/-- `_validate_file` -/
def validateFile (settings : UploadSettings) (command : UploadDocumentArtifact) : Act Unit :=
  match command.validateFile settings with
  | some e => fail (.domain e)
  | none => pure ()

/-- `ObjectStorage.put` -/
def put (c : Course) (key : String) (content : List UInt8) (contentType : String) : Act Unit := do
  await c.put
  write (·.setObject key (some ⟨content, contentType⟩))

/-- what is raised for an `IntegrityError` of `DocumentArtifactRepository.add` -/
def refused (artifact : CreateDocumentArtifact) (es : List Violation) : KnowledgeError :=
  if es.head? = some (.unique DOCUMENT_ARTIFACT_KEY_CONSTRAINT) then
    .documentArtifactConflict artifact.documentVersionId artifact.artifactKey
  else if es.head? = some (.unique DOCUMENT_ARTIFACT_STORAGE_LOCATION_CONSTRAINT) then
    .documentArtifactStorageLocationConflict artifact.storageProvider artifact.storageKey
  else .integrity es

/-- `DocumentArtifactRepository.add` -/
def add (c : Course) (artifact : CreateDocumentArtifact) : Act Unit := do
  let violations ← query c.add (·.artifactViolations artifact.row)
  raiseIf (violations ≠ []) (refused artifact violations)
  assign fun l => { l with session := l.session ++ [artifact.row] }

def commit (c : Course) : Act Unit := do
  await c.commit
  let s ← get
  write (·.addRows s.2.session)
  assign fun l => { l with session := [] }

/-- `async with self._uow_factory()`: leaving it drops what is not committed -/
def unitOfWork (c : Course) (body : Act Unit) : Act Unit := do
  await c.enter
  ensuring body do
    assign fun l => { l with session := [] }
    await c.exit

/-- `_best_effort_delete` -/
def bestEffortDelete (c : Course) (key : String) : Act Unit := do
  modify fun s => (s.1.meanwhile c.delete.others, s.2)
  match c.delete.failure with
  | none => write (·.setObject key none)
  | some f => do
    write fun s => if c.deleted then s.setObject key none else s
    match f with
    | .error => pure ()
    | .cancelled => fail (.failure .cancelled)

/-- the part of `upload` before `put` -/
def validate (settings : UploadSettings) (c : Course) (command : UploadDocumentArtifact) (artifactId : Uuid) : Act Unit := do
  validateTarget c command.documentId command.documentVersionId
  validateFile settings command
  let keyExists ← query c.artifactKeyExists fun db => decide (db.ArtifactKeyExists command.documentVersionId command.artifactKey)
  raiseIf keyExists (.documentArtifactConflict command.documentVersionId command.artifactKey)
  let locationExists ← query c.storageKeyExists fun db =>
    decide (db.StorageKeyExists settings.storageProvider (command.storageKey artifactId))
  raiseIf locationExists (.documentArtifactStorageLocationConflict settings.storageProvider (command.storageKey artifactId))

/-- the `async with` block of `upload` -/
def transaction (settings : UploadSettings) (c : Course) (command : UploadDocumentArtifact) (artifactId actor : Uuid)
    (createdAt : Time) : Act Unit := do
  let artifact := command.artifact settings artifactId actor createdAt
  validate settings c command artifactId
  put c artifact.storageKey command.content command.contentType
  assign fun l => { l with uploaded := true }
  add c artifact
  commit c
  assign fun l => { l with committed := true }

/-- the `finally` block of `upload` -/
def compensate (c : Course) (key : String) : Act Unit := do
  let s ← get
  if s.2.uploaded ∧ ¬ s.2.committed then bestEffortDelete c key else pure ()

def upload (settings : UploadSettings) (c : Course) (command : UploadDocumentArtifact) (artifactId actor : Uuid)
    (createdAt : Time) : Eff World Raised UploadedDocumentArtifact :=
  withLocals ⟨false, false, []⟩ do
    ensuring (unitOfWork c (transaction settings c command artifactId actor createdAt))
      (compensate c (command.storageKey artifactId))
    pure (command.uploaded artifactId)

/-! ## Others -/

/-- what the rows of an artifact say about its object -/
def Stores.rows (s : Stores) (artifactId : Uuid) : List (String × String × ℤ) :=
  (s.db.artifacts.filter (·.id = artifactId)).map fun a => (a.storageKey, a.fileHash, a.fileSizeBytes)

/-- others go on without the artifact and its object -/
structure Elsewhere (artifactId : Uuid) (key : String) (f : Stores → Stores) : Prop where
  rows : ∀ s, (f s).rows artifactId = s.rows artifactId
  object : ∀ s o, f (s.setObject key o) = (f s).setObject key o

/-- neither store knows the artifact -/
def Fresh (artifactId : Uuid) (key : String) (s : Stores) : Prop :=
  (∀ a ∈ s.db.artifacts, a.id ≠ artifactId) ∧ s.objects key = none

/-- what the others alone can have made of `s` in the course of an upload -/
def ByOthers (c : Course) : Stores → Stores → Prop := Relation.ReflTransGen fun x y => ∃ a ∈ c.awaits, y = a.others x

section

variable {artifactId : Uuid} {key : String} {f : Stores → Stores}

@[simp] theorem setObject_rows (s : Stores) (o : Option StoredObject) : (s.setObject key o).rows artifactId = s.rows artifactId :=
  rfl

@[simp] theorem setObject_objects (s : Stores) (o : Option StoredObject) : (s.setObject key o).objects key = o :=
  Function.update_self ..

@[simp] theorem setObject_setObject (s : Stores) (o o' : Option StoredObject) :
    (s.setObject key o).setObject key o' = s.setObject key o' := by
  simp [Stores.setObject]

theorem setObject_self {s : Stores} {o : Option StoredObject} (h : s.objects key = o) : s.setObject key o = s := by
  subst h
  rw [Stores.setObject, Function.update_eq_self]

theorem rows_eq_nil {s : Stores} : s.rows artifactId = [] ↔ ∀ a ∈ s.db.artifacts, a.id ≠ artifactId := by
  simp [Stores.rows]

theorem Elsewhere.objects (h : Elsewhere artifactId key f) (s : Stores) : (f s).objects key = s.objects key := by
  have hself : f s = (f s).setObject key (s.objects key) := by
    rw [← h.object, setObject_self rfl]
  rw [hself, setObject_objects]

/-- others do not make the artifact known -/
theorem ByOthers.fresh {c : Course} (hc : ∀ a ∈ c.awaits, Elsewhere artifactId key a.others) {s s' : Stores}
    (h : ByOthers c s s') (hs : Fresh artifactId key s) : Fresh artifactId key s' := by
  induction h with
  | refl => exact hs
  | tail _ hstep ih =>
    obtain ⟨a, ha, rfl⟩ := hstep
    exact ⟨rows_eq_nil.1 (((hc a ha).rows _).trans (rows_eq_nil.2 ih.1)), ((hc a ha).objects _).trans ih.2⟩

/-- … and leave everything as it is, if there are none -/
theorem ByOthers.eq {c : Course} (hc : ∀ a ∈ c.awaits, a.others = id) {s s' : Stores} (h : ByOthers c s s') : s' = s := by
  induction h with
  | refl => rfl
  | tail _ hstep ih =>
    obtain ⟨a, ha, rfl⟩ := hstep
    rw [hc a ha, id, ih]

end

/-! ## Stages -/

/-- an upload: the settings of the service, and what it is called with -/
structure Call where
  settings : UploadSettings
  command : UploadDocumentArtifact
  artifactId : Uuid
  actor : Uuid
  createdAt : Time

namespace Call

def key (u : Call) : String := u.command.storageKey u.artifactId

def object (u : Call) : StoredObject := ⟨u.command.content, u.command.contentType⟩

def artifact (u : Call) : CreateDocumentArtifact := u.command.artifact u.settings u.artifactId u.actor u.createdAt

def run (u : Call) (c : Course) : Eff World Raised UploadedDocumentArtifact :=
  upload u.settings c u.command u.artifactId u.actor u.createdAt

/-- nothing is known of the artifact, and others do nothing about it -/
structure Alone (u : Call) (c : Course) (s : Stores) : Prop where
  fresh : Fresh u.artifactId u.key s
  others : ∀ a ∈ c.awaits, Elsewhere u.artifactId u.key a.others

/-- of the upload only the object is there, or what a delete has left of it -/
def OnlyObject (u : Call) (c : Course) (s : Stores) (o : Option StoredObject) (w : World) : Prop :=
  w.stores = w.elsewhere.setObject u.key o ∧ ByOthers c s w.elsewhere

/-- the upload has done nothing -/
def Untouched (c : Course) (s : Stores) (w : World) : Prop := w.stores = w.elsewhere ∧ ByOthers c s w.elsewhere

/-- row and object are there -/
def Kept (u : Call) (w : World) : Prop :=
  w.stores.rows u.artifactId = [(u.key, sha256Hex u.command.content, (u.command.content.length : ℤ))] ∧
  w.stores.objects u.key = some u.object

/-- what remains if the row is not committed -/
def Left (u : Call) (c : Course) (s : Stores) (w : World) : Prop := ∃ o, u.OnlyObject c s o w ∧ (c.Compensates → o = none)

end Call

/-- whatever others do meanwhile -/
def Steady (c : Course) (P : World → Prop) : Prop := ∀ a ∈ c.awaits, ∀ w, P w → P (w.meanwhile a.others)

section

variable {u : Call} {c : Course} {s : Stores} (hu : u.Alone c s)

include hu

theorem onlyObject_steady (o : Option StoredObject) : Steady c (u.OnlyObject c s o) := by
  intro a ha w ⟨hw, hothers⟩
  refine ⟨?_, hothers.tail ⟨a, ha, rfl⟩⟩
  calc a.others w.stores = a.others (w.elsewhere.setObject u.key o) := by rw [hw]
    _ = (a.others w.elsewhere).setObject u.key o := (hu.others a ha).object _ _

theorem kept_steady : Steady c u.Kept := fun a ha w hw =>
  ⟨((hu.others a ha).rows w.stores).trans hw.1, ((hu.others a ha).objects w.stores).trans hw.2⟩

theorem onlyObject_of_untouched {w : World} (h : Call.Untouched c s w) : u.OnlyObject c s none w :=
  ⟨h.1.trans (setObject_self (h.2.fresh hu.others hu.fresh).2).symm, h.2⟩

theorem untouched_of_onlyObject {w : World} (h : u.OnlyObject c s none w) : Call.Untouched c s w :=
  ⟨h.1.trans (setObject_self (h.2.fresh hu.others hu.fresh).2), h.2⟩

/-- the commit -/
theorem kept_of_onlyObject {w : World} (h : u.OnlyObject c s (some u.object) w) :
    u.Kept { w with stores := w.stores.addRows [u.artifact.row] } := by
  obtain ⟨hw, hothers⟩ := h
  have hnone : w.stores.rows u.artifactId = [] := by
    rw [hw, setObject_rows, rows_eq_nil]
    exact (hothers.fresh hu.others hu.fresh).1
  refine ⟨?_, ?_⟩
  · have happ : (w.stores.addRows [u.artifact.row]).rows u.artifactId =
        w.stores.rows u.artifactId ++ [(u.key, sha256Hex u.command.content, (u.command.content.length : ℤ))] := by
      simp [Stores.rows, Stores.addRows, KnowledgeDb.addArtifact, CreateDocumentArtifact.row, Call.artifact,
        UploadDocumentArtifact.artifact, Call.key]
    rw [happ, hnone, List.nil_append]
  · show w.stores.objects u.key = some u.object
    rw [hw, setObject_objects]

end

theorem untouched_steady (c : Course) (s : Stores) : Steady c (Call.Untouched c s) := fun a ha _ hw =>
  ⟨congrArg a.others hw.1, hw.2.tail ⟨a, ha, rfl⟩⟩

/-! ## Steps -/

/-- a stage, at which the variables have these values -/
def At (P : World → Prop) (l : Locals) (s : World × Locals) : Prop := P s.1 ∧ s.2 = l

section

variable {c : Course} {P Q : World → Prop} {l : Locals} {R : World × Locals → Prop}

theorem meets_await {a : Await} (hP : Steady c P) (ha : a ∈ c.awaits) (hR : a.failure ≠ none → ∀ s, At P l s → R s) :
    Meets (At P l) (await a) (fun _ => At P l) fun _ => R := by
  refine meets_bind (Q := fun _ => At P l) (meets_modify fun s hs => ⟨hP a ha _ hs.1, hs.2⟩) fun _ => ?_
  split
  · next hf => exact meets_fail (hR (by rw [hf]; exact Option.some_ne_none _))
  · exact meets_pure fun s hs => hs

theorem meets_query {α : Type} {a : Await} {find : KnowledgeDb → α} (hP : Steady c P) (ha : a ∈ c.awaits)
    (hR : ∀ s, At P l s → R s) : Meets (At P l) (query a find) (fun _ => At P l) fun _ => R := by
  refine meets_bind (meets_await hP ha fun _ => hR) fun _ => meets_get fun s₀ => ?_
  exact meets_pure fun s hs => hs.1

theorem meets_raiseIf {p : Prop} [Decidable p] {e : KnowledgeError} (hR : ∀ s, At P l s → R s) :
    Meets (At P l) (raiseIf p e) (fun _ => At P l) fun _ => R :=
  meets_ite (fun _ => meets_fail hR) fun _ => meets_pure fun _ hs => hs

/-- the variables are as they were assigned -/
theorem meets_read {α : Type} {g : World × Locals → Act α} {Q' : α → World × Locals → Prop} {R : Raised → World × Locals → Prop}
    (h : ∀ w, Meets (At P l) (g (w, l)) Q' R) : Meets (At P l) (get >>= g) Q' R := by
  rintro ⟨w, l₀⟩ ⟨hw, rfl⟩
  exact h w (w, l₀) ⟨hw, rfl⟩

theorem meets_assign {l' : Locals} {g : Locals → Locals} (hg : g l = l') :
    Meets (At P l) (assign g) (fun _ => At P l') fun _ => R :=
  meets_modify fun _ hs => ⟨hs.1, (congrArg g hs.2).trans hg⟩

theorem meets_write {g : Stores → Stores} (hg : ∀ w, P w → Q { w with stores := g w.stores }) :
    Meets (At P l) (write g) (fun _ => At Q l) fun _ => R :=
  meets_modify fun _ hs => ⟨hg _ hs.1, hs.2⟩

theorem meets_validateTarget (hP : Steady c P) (hR : ∀ s, At P l s → R s) (d v : Uuid) :
    Meets (At P l) (validateTarget c d v) (fun _ => At P l) fun _ => R := by
  refine meets_bind (meets_query hP (by simp [Course.awaits]) hR) fun document => ?_
  cases document with
  | none => exact meets_fail hR
  | some document =>
    refine meets_bind (meets_raiseIf hR) fun _ => ?_
    refine meets_bind (meets_query hP (by simp [Course.awaits]) hR) fun version => ?_
    cases version with
    | none => exact meets_fail hR
    | some version => exact meets_raiseIf hR

theorem meets_validateFile (settings : UploadSettings) (command : UploadDocumentArtifact) (hR : ∀ s, At P l s → R s) :
    Meets (At P l) (validateFile settings command) (fun _ => At P l) fun _ => R := by
  rw [validateFile]
  split
  · exact meets_fail hR
  · exact meets_pure fun s hs => hs

theorem meets_validate (settings : UploadSettings) (command : UploadDocumentArtifact) (artifactId : Uuid) (hP : Steady c P)
    (hR : ∀ s, At P l s → R s) : Meets (At P l) (validate settings c command artifactId) (fun _ => At P l) fun _ => R := by
  refine meets_bind (meets_validateTarget hP hR _ _) fun _ => ?_
  refine meets_bind (meets_validateFile settings command hR) fun _ => ?_
  refine meets_bind (meets_query hP (by simp [Course.awaits]) hR) fun keyExists => ?_
  refine meets_bind (meets_raiseIf hR) fun _ => ?_
  refine meets_bind (meets_query hP (by simp [Course.awaits]) hR) fun locationExists => ?_
  exact meets_raiseIf hR

/-- leaving the session keeps the stage -/
theorem meets_exit {l' : Locals} (hP : Steady c P) (hl : { l with session := [] } = l')
    (hR : c.exit.failure ≠ none → ∀ s, At P l' s → R s) :
    Meets (At P l) (do
      assign fun l => { l with session := [] }
      await c.exit) (fun _ => At P l') fun _ => R :=
  meets_bind (meets_assign hl) fun _ => meets_await hP (by simp [Course.awaits]) hR

end

/-! ## Uploads -/

/-- where an upload can be when it raises; once it has committed, only leaving the session raises -/
def Raising (u : Call) (c : Course) (s : Stores) (x : World × Locals) : Prop :=
  At (Call.Untouched c s) ⟨false, false, []⟩ x ∨
  (∃ session, At (u.OnlyObject c s (some u.object)) ⟨true, false, session⟩ x) ∨
  (c.exit.failure ≠ none ∧ At u.Kept ⟨true, true, []⟩ x)

section

variable {u : Call} {c : Course} {s : Stores} (hu : u.Alone c s)

include hu

/-- **The block** ends with both stores written, and raises with nothing done, or with the object alone. -/
theorem meets_transaction :
    Meets (At (Call.Untouched c s) ⟨false, false, []⟩)
      (transaction u.settings c u.command u.artifactId u.actor u.createdAt)
      (fun _ => At u.Kept ⟨true, true, []⟩) fun _ => Raising u c s := by
  have hnothing : ∀ x, At (Call.Untouched c s) ⟨false, false, []⟩ x → Raising u c s x := fun x hx => .inl hx
  have hstored : ∀ session x, At (u.OnlyObject c s (some u.object)) ⟨true, false, session⟩ x → Raising u c s x :=
    fun session x hx => .inr (.inl ⟨session, hx⟩)
  have hsteady := untouched_steady c s
  refine meets_bind (meets_validate _ _ _ hsteady hnothing) fun _ => ?_
  -- the object is stored
  have hput : Meets (At (Call.Untouched c s) ⟨false, false, []⟩) (put c u.key u.command.content u.command.contentType)
      (fun _ => At (u.OnlyObject c s (some u.object)) ⟨false, false, []⟩) fun _ => Raising u c s := by
    refine meets_bind (meets_await hsteady (by simp [Course.awaits]) fun _ => hnothing) fun _ => ?_
    refine meets_write fun w hw => ⟨?_, hw.2⟩
    rw [hw.1]
    rfl
  refine meets_bind hput fun _ => ?_
  refine meets_bind (Q := fun _ => At (u.OnlyObject c s (some u.object)) ⟨true, false, []⟩) (meets_assign rfl) fun _ => ?_
  -- the row is written, and committed
  have hadd : Meets (At (u.OnlyObject c s (some u.object)) ⟨true, false, []⟩) (add c u.artifact)
      (fun _ => At (u.OnlyObject c s (some u.object)) ⟨true, false, [u.artifact.row]⟩) fun _ => Raising u c s := by
    refine meets_bind (meets_query (onlyObject_steady hu _) (by simp [Course.awaits]) (hstored _)) fun violations => ?_
    exact meets_bind (meets_raiseIf (hstored _)) fun _ => meets_assign rfl
  refine meets_bind hadd fun _ => ?_
  have hcommit : Meets (At (u.OnlyObject c s (some u.object)) ⟨true, false, [u.artifact.row]⟩) (commit c)
      (fun _ => At u.Kept ⟨true, false, []⟩) fun _ => Raising u c s := by
    refine meets_bind (meets_await (onlyObject_steady hu _) (by simp [Course.awaits]) fun _ => hstored _) fun _ => ?_
    refine meets_read fun w => ?_
    exact meets_bind (meets_write fun _ hw => kept_of_onlyObject hu hw) fun _ => meets_assign rfl
  refine meets_bind hcommit fun _ => ?_
  exact meets_assign rfl

/-- **The session**: leaving it keeps the stage, and drops the rows that are not committed. -/
theorem meets_unitOfWork :
    Meets (At (Call.Untouched c s) ⟨false, false, []⟩)
      (unitOfWork c (transaction u.settings c u.command u.artifactId u.actor u.createdAt))
      (fun _ => At u.Kept ⟨true, true, []⟩) fun _ => Raising u c s := by
  refine meets_bind (meets_await (untouched_steady c s) (by simp [Course.awaits]) fun _ x hx => .inl hx) fun _ => ?_
  refine meets_ensuring (meets_transaction hu) (fun _ => ?_) fun _ => ?_
  · exact meets_exit (kept_steady hu) rfl fun hexit x hx => .inr (.inr ⟨hexit, hx⟩)
  · rintro x (hx | ⟨session, hx⟩ | ⟨hraises, hx⟩)
    · have hexit := meets_exit (l := ⟨false, false, []⟩) (untouched_steady c s) rfl fun _ x hx => (.inl hx : Raising u c s x)
      exact (hexit.weaken (fun _ h => h) (fun _ _ h => .inl h) fun _ _ h => h) x hx
    · have hexit := meets_exit (l := ⟨true, false, session⟩) (onlyObject_steady hu _) rfl fun _ x hx =>
        (.inr (.inl ⟨[], hx⟩) : Raising u c s x)
      exact (hexit.weaken (fun _ h => h) (fun _ _ h => .inr (.inl ⟨[], h⟩)) fun _ _ h => h) x hx
    · have hexit := meets_exit (l := ⟨true, true, []⟩) (kept_steady hu) rfl fun _ x hx =>
        (.inr (.inr ⟨hraises, hx⟩) : Raising u c s x)
      exact (hexit.weaken (fun _ h => h) (fun _ _ h => .inr (.inr ⟨hraises, h⟩)) fun _ _ h => h) x hx

/-- **The compensation**: the delete is called, and its errors are not raised. -/
theorem meets_bestEffortDelete (o : Option StoredObject) (l : Locals) :
    Meets (At (u.OnlyObject c s o) l) (bestEffortDelete c u.key) (fun _ x => u.Left c s x.1) fun _ x => u.Left c s x.1 := by
  have hremoved : ∀ w, u.OnlyObject c s o w →
      u.OnlyObject c s none { w with stores := w.stores.setObject u.key none } := fun w hw =>
    ⟨by rw [hw.1, setObject_setObject], hw.2⟩
  refine meets_bind (Q := fun _ => At (u.OnlyObject c s o) l)
    (meets_modify fun x hx => ⟨onlyObject_steady hu o _ (by simp [Course.awaits]) _ hx.1, hx.2⟩) fun _ => ?_
  split
  · exact meets_modify fun x hx => ⟨none, hremoved x.1 hx.1, fun _ => rfl⟩
  · rename_i f hf
    have hleft : Meets (At (u.OnlyObject c s o) l) (write fun s => if c.deleted then s.setObject u.key none else s)
        (fun _ x => u.Left c s x.1) fun (_ : Raised) x => u.Left c s x.1 := by
      refine meets_modify fun x hx => ?_
      by_cases hd : c.deleted = true
      · exact ⟨none, by simpa only [hd, if_true] using hremoved x.1 hx.1, fun _ => rfl⟩
      · refine ⟨o, by simpa only [hd, Bool.false_eq_true, if_false] using hx.1, fun hcomp => ?_⟩
        rcases hcomp with hn | ht
        · rw [hn] at hf
          cases hf
        · exact absurd ht hd
    refine meets_bind hleft fun _ => ?_
    cases f with
    | error => exact meets_pure fun x hx => hx
    | cancelled => exact meets_fail fun x hx => hx

/-- **What an upload leaves**: row and object, or at most what a failed delete has left of the object. -/
theorem meets_upload :
    Meets (Call.Untouched c s) (u.run c) (fun a w => a = u.command.uploaded u.artifactId ∧ u.Kept w)
      fun _ w => (c.exit.failure ≠ none ∧ u.Kept w) ∨ u.Left c s w := by
  refine meets_withLocals (meets_bind (Q := fun _ x => u.Kept x.1) ?_ fun _ => meets_pure fun x hx => ⟨rfl, hx⟩)
  refine meets_ensuring (meets_unitOfWork hu) (fun _ => ?_) fun _ => ?_
  · refine meets_read fun w => ?_
    exact meets_pure fun x hx => hx.1
  · rintro x (hx | ⟨session, hx⟩ | ⟨hraises, hx⟩)
    · refine meets_read (fun w => ?_) x hx
      exact meets_pure fun x hx => .inr ⟨none, onlyObject_of_untouched hu hx.1, fun _ => rfl⟩
    · refine meets_read (fun w => ?_) x hx
      exact (meets_bestEffortDelete hu (some u.object) _).weaken (fun _ h => h) (fun _ _ h => .inr h) fun _ _ h => .inr h
    · refine meets_read (fun w => ?_) x hx
      exact meets_pure fun x hx => .inl ⟨hraises, hx.1⟩

end

/-! ## What an upload leaves alone -/

section

variable {c : Course} {I : Stores → Prop} (hothers : ∀ a ∈ c.awaits, ∀ s, I s → I (a.others s))

include hothers

theorem keeps_await {a : Await} (ha : a ∈ c.awaits) : Lib.Effect.Keeps (fun x => I x.1.stores) (await a) := by
  refine keeps_bind (keeps_modify fun x hx => hothers a ha _ hx) fun _ => ?_
  split
  · exact keeps_fail _
  · exact keeps_pure _

theorem keeps_query {α : Type} {a : Await} (ha : a ∈ c.awaits) (find : KnowledgeDb → α) :
    Lib.Effect.Keeps (fun x => I x.1.stores) (query a find) :=
  keeps_bind (keeps_await hothers ha) fun _ => keeps_bind keeps_get fun _ => keeps_pure _

omit hothers in
theorem keeps_raiseIf {p : Prop} [Decidable p] (e : KnowledgeError) : Lib.Effect.Keeps (fun x => I x.1.stores) (raiseIf p e) :=
  keeps_ite (keeps_fail _) (keeps_pure _)

theorem keeps_validate (settings : UploadSettings) (command : UploadDocumentArtifact) (artifactId : Uuid) :
    Lib.Effect.Keeps (fun x => I x.1.stores) (validate settings c command artifactId) := by
  refine keeps_bind ?target fun _ => keeps_bind ?file fun _ => ?keys
  case target =>
    refine keeps_bind (keeps_query hothers (by simp [Course.awaits]) _) fun document => ?_
    cases document with
    | none => exact keeps_fail _
    | some document =>
      refine keeps_bind (keeps_raiseIf _) fun _ => keeps_bind (keeps_query hothers (by simp [Course.awaits]) _) fun version => ?_
      cases version with
      | none => exact keeps_fail _
      | some version => exact keeps_raiseIf _
  case file =>
    rw [validateFile]
    split
    · exact keeps_fail _
    · exact keeps_pure _
  case keys =>
    refine keeps_bind (keeps_query hothers (by simp [Course.awaits]) _) fun _ => keeps_bind (keeps_raiseIf _) fun _ => ?_
    exact keeps_bind (keeps_query hothers (by simp [Course.awaits]) _) fun _ => keeps_raiseIf _

/-- what no object and no row of an artifact changes, and no other either, an upload does not change -/
theorem keeps_upload (u : Call) (hobject : ∀ s o, I s → I (s.setObject u.key o)) (hrows : ∀ s rows, I s → I (s.addRows rows)) :
    Lib.Effect.Keeps (fun w => I w.stores) (u.run c) := by
  refine keeps_withLocals (keeps_bind (keeps_ensuring ?block ?compensation) fun _ => keeps_pure _)
  case block =>
    refine keeps_bind (keeps_await hothers (by simp [Course.awaits])) fun _ => keeps_ensuring ?_ ?_
    · refine keeps_bind (keeps_validate hothers _ _ _) fun _ => ?_
      refine keeps_bind (keeps_bind (keeps_await hothers (by simp [Course.awaits])) fun _ =>
        keeps_modify fun x hx => hobject _ _ hx) fun _ => ?_
      refine keeps_bind (keeps_modify fun _ hx => hx) fun _ => ?_
      refine keeps_bind (keeps_bind (keeps_query hothers (by simp [Course.awaits]) _) fun _ =>
        keeps_bind (keeps_raiseIf _) fun _ => keeps_modify fun _ hx => hx) fun _ => ?_
      refine keeps_bind (keeps_bind (keeps_await hothers (by simp [Course.awaits])) fun _ => keeps_bind keeps_get fun _ =>
        keeps_bind (keeps_modify fun x hx => hrows _ _ hx) fun _ => keeps_modify fun _ hx => hx) fun _ => ?_
      exact keeps_modify fun _ hx => hx
    · exact keeps_bind (keeps_modify fun _ hx => hx) fun _ => keeps_await hothers (by simp [Course.awaits])
  case compensation =>
    refine keeps_bind keeps_get fun _ => keeps_ite ?_ (keeps_pure _)
    refine keeps_bind (keeps_modify fun x hx => hothers _ (by simp [Course.awaits]) _ hx) fun _ => ?_
    split
    · exact keeps_modify fun x hx => hobject _ _ hx
    · refine keeps_bind (keeps_modify fun x hx => ?_) fun _ => ?_
      · dsimp only
        split_ifs
        · exact hobject _ _ hx
        · exact hx
      · split
        · exact keeps_pure _
        · exact keeps_fail _

end

/-! ## Other uploads -/

/-- **Storage keys** of different artifacts differ. -/
theorem storageKey_inj {command command' : UploadDocumentArtifact} {artifactId artifactId' : Uuid}
    (h : command.storageKey artifactId = command'.storageKey artifactId') : artifactId = artifactId' := by
  have hlast : ∀ d v a, ∃ l, (buildStorageKey d v a).toList = l ++ '/' :: (uuidText a).toList := fun d v a =>
    ⟨("documents/" ++ uuidText d ++ "/versions/" ++ uuidText v ++ "/artifacts").toList, by
      simp [buildStorageKey, String.toList_append]⟩
  obtain ⟨l, hl⟩ := hlast command.documentId command.documentVersionId artifactId
  obtain ⟨l', hl'⟩ := hlast command'.documentId command'.documentVersionId artifactId'
  have hkeys : l ++ '/' :: (uuidText artifactId).toList = l' ++ '/' :: (uuidText artifactId').toList := by
    rw [← hl, ← hl']
    exact congrArg String.toList h
  exact uuidText_injective (String.toList_inj.1
    (eq_of_last_slash (slash_not_mem_uuidText _) (slash_not_mem_uuidText _) hkeys))

/-- what an upload does to the object storage, another may be doing meanwhile -/
theorem elsewhere_setObject {u v : Call} (h : v.artifactId ≠ u.artifactId) (o : Option StoredObject) :
    Elsewhere u.artifactId u.key (·.setObject v.key o) where
  rows _ := rfl
  object s o' := by
    have hkey : v.key ≠ u.key := fun hkey => h (storageKey_inj hkey)
    rw [Stores.setObject, Stores.setObject, Stores.setObject, Stores.setObject, Function.update_comm hkey]

/-- … and what it, or any other request, does to the database -/
theorem elsewhere_db {artifactId : Uuid} {key : String} {w : KnowledgeDb → KnowledgeDb}
    (h : ∀ db, ∃ new, (w db).artifacts = db.artifacts ++ new ∧ ∀ a ∈ new, a.id ≠ artifactId) :
    Elsewhere artifactId key fun s => { s with db := w s.db } where
  rows s := by
    obtain ⟨new, hnew, hid⟩ := h s.db
    have hnone : new.filter (fun a => a.id = artifactId) = [] := by simpa using hid
    simp only [Stores.rows, hnew, List.filter_append, hnone, List.append_nil]
  object _ _ := rfl

/-! ## Both stores -/

def Stores.HasRow (s : Stores) (artifactId : Uuid) : Prop := ∃ a ∈ s.db.artifacts, a.id = artifactId

instance (s : Stores) (artifactId : Uuid) : Decidable (s.HasRow artifactId) :=
  inferInstanceAs (Decidable (∃ a ∈ s.db.artifacts, _))

theorem kept_row {u : Call} {w : World} (h : u.Kept w) {a : DocumentArtifact} (ha : a ∈ w.stores.db.artifacts)
    (hid : a.id = u.artifactId) : a.storageKey = u.key ∧ a.fileHash = sha256Hex u.command.content ∧
      a.fileSizeBytes = u.command.content.length := by
  have hrow : (a.storageKey, a.fileHash, a.fileSizeBytes) ∈ w.stores.rows u.artifactId :=
    List.mem_map.2 ⟨a, List.mem_filter.2 ⟨ha, by simpa using hid⟩, rfl⟩
  rw [h.1, List.mem_singleton, Prod.mk.injEq, Prod.mk.injEq] at hrow
  exact hrow

theorem kept_hasRow {u : Call} {w : World} (h : u.Kept w) : w.stores.HasRow u.artifactId := by
  by_contra hnone
  have hrows : w.stores.rows u.artifactId = [] := rows_eq_nil.2 fun a ha hid => hnone ⟨a, ha, hid⟩
  rw [h.1] at hrows
  cases hrows

/-- **Database and object storage keep in step.** Whatever raises, and whatever others do elsewhere: if the compensating
delete removes the object then the row is committed iff the object is there, and without the row both stores are as the
others have made them. In any case a committed row has its object, with this hash and size, and an upload that returns
has committed its row. -/
theorem upload_in_step (u : Call) (c : Course) (s : Stores) (hu : u.Alone c s) :
    (c.Compensates → (((u.run c (.start s)).2.stores.HasRow u.artifactId ↔
        ((u.run c (.start s)).2.stores.objects u.key).isSome) ∧
      (¬ (u.run c (.start s)).2.stores.HasRow u.artifactId →
        (u.run c (.start s)).2.stores = (u.run c (.start s)).2.elsewhere ∧
          ((∀ a ∈ c.awaits, a.others = id) → (u.run c (.start s)).2.stores = s)))) ∧
    (∀ a ∈ (u.run c (.start s)).2.stores.db.artifacts, a.id = u.artifactId → a.storageKey = u.key ∧
      ∃ o ∈ (u.run c (.start s)).2.stores.objects u.key,
        a.fileHash = sha256Hex o.content ∧ a.fileSizeBytes = o.content.length) ∧
    ∀ x, (u.run c (.start s)).1 = .ok x →
      x = u.command.uploaded u.artifactId ∧ (u.run c (.start s)).2.stores.HasRow u.artifactId := by
  have hends := meets_upload hu (.start s) ⟨rfl, .refl⟩
  generalize u.run c (.start s) = r at hends ⊢
  obtain ⟨result, w⟩ := r
  have hw : u.Kept w ∨ u.Left c s w := by
    cases result with
    | error e => exact hends.imp_left And.right
    | ok x => exact .inl hends.2
  refine ⟨fun hcomp => ?_, fun a ha hid => ?_, fun x hx => ?_⟩
  · rcases hw with hkept | ⟨o, hleft, ho⟩
    · have hrow := kept_hasRow hkept
      exact ⟨iff_of_true hrow (by rw [hkept.2]; rfl), fun hnone => absurd hrow hnone⟩
    · obtain rfl := ho hcomp
      obtain ⟨hsame, hothers⟩ := untouched_of_onlyObject hu hleft
      have hfresh := hothers.fresh hu.others hu.fresh
      refine ⟨iff_of_false ?_ ?_, fun _ => ⟨hsame, fun hquiet => hsame.trans (hothers.eq hquiet)⟩⟩
      · rintro ⟨a, ha, hid⟩
        rw [hsame] at ha
        exact hfresh.1 a ha hid
      · rw [hsame, hfresh.2]
        exact Bool.false_ne_true
  · rcases hw with hkept | ⟨o, ⟨hw, hothers⟩, -⟩
    · obtain ⟨hkey, hhash, hsize⟩ := kept_row hkept ha hid
      exact ⟨hkey, u.object, hkept.2, hhash, hsize⟩
    · rw [hw] at ha
      exact absurd hid ((hothers.fresh hu.others hu.fresh).1 a ha)
  · subst hx
    exact ⟨hends.1, kept_hasRow hends.2⟩

/-- document 1 and its version 2, a draft -/
def oneDraft : Stores where
  db :=
    { iam := ⟨[⟨9, .user, true, 0, 0, none⟩], [9], [], [], [], [], [], []⟩
      documents := [⟨1, some 9, "handbook", "Handbook", none, none, none, none, [], 0, 0, none⟩]
      acl := []
      versions := [⟨2, 1, "1.0", none, none, none, .draft, none, [], 5, 5⟩]
      artifacts := [] }
  objects _ := none

/-- the upload of a text as artifact `artifactId` -/
def textUpload (artifactId : Uuid) : Call where
  settings := textUploads
  command := ⟨1, 2, "a", "en", "text", none, "text/plain", [65], none⟩
  artifactId := artifactId
  actor := 9
  createdAt := 9

def still : Await := ⟨id, none⟩

/-- another upload stores its object and its row, and the commit is cancelled -/
def cancelledCommit : Course where
  enter := still
  findDocument := still
  findVersion := still
  artifactKeyExists := still
  storageKeyExists := still
  put := still
  add := ⟨fun s => s.setObject (textUpload 7).key (some (textUpload 7).object), none⟩
  commit := ⟨fun s => { s with db := s.db.addArtifact (textUpload 7).artifact.row }, some .cancelled⟩
  exit := still
  delete := still
  deleted := false

theorem cancelledCommit_alone : (textUpload 6).Alone cancelledCommit oneDraft where
  fresh := ⟨by decide, rfl⟩
  others := by
    have hstill : Elsewhere (textUpload 6).artifactId (textUpload 6).key still.others := ⟨fun _ => rfl, fun _ _ => rfl⟩
    have hadd : Elsewhere (textUpload 6).artifactId (textUpload 6).key cancelledCommit.add.others :=
      elsewhere_setObject (u := textUpload 6) (v := textUpload 7) (by decide) _
    have hcommit : Elsewhere (textUpload 6).artifactId (textUpload 6).key cancelledCommit.commit.others :=
      elsewhere_db (w := fun db => db.addArtifact (textUpload 7).artifact.row) fun db =>
        ⟨[(textUpload 7).artifact.row], rfl, fun a ha => by
          rw [List.mem_singleton.1 ha]
          exact (by decide : (7 : ℕ) ≠ 6)⟩
    intro a ha
    simp only [Course.awaits, List.mem_cons, List.not_mem_nil, or_false] at ha
    rcases ha with rfl | rfl | rfl | rfl | rfl | rfl | rfl | rfl | rfl | rfl
    case inr.inr.inr.inr.inr.inr.inl => exact hadd
    case inr.inr.inr.inr.inr.inr.inr.inl => exact hcommit
    all_goals exact hstill

/-- the cancelled upload leaves nothing, the other one both -/
theorem upload_in_step_cancelled :
    ((textUpload 6).run cancelledCommit (.start oneDraft)).2.stores.objects (textUpload 6).key = none ∧
      ((textUpload 6).run cancelledCommit (.start oneDraft)).2.stores.HasRow 7 := by
  have hstep := ((upload_in_step (textUpload 6) cancelledCommit oneDraft cancelledCommit_alone).1 (.inl rfl)).1
  have hnone : ¬ ((textUpload 6).run cancelledCommit (.start oneDraft)).2.stores.HasRow 6 := by decide +kernel
  have hobject := mt hstep.2 hnone
  exact ⟨by simpa using hobject, by decide +kernel⟩

/-! ## An upload that nothing disturbs -/

/-- nothing fails, and nobody else is there -/
def quiet : Course := ⟨still, still, still, still, still, still, still, still, still, still, false⟩

/-- why the checks before `put` refuse an upload -/
def refusal (settings : UploadSettings) (command : UploadDocumentArtifact) (artifactId : Uuid) (db : KnowledgeDb) :
    Option KnowledgeError :=
  match db.findDocument command.documentId with
  | none => some (.documentNotFound command.documentId)
  | some document =>
    if document.deletedAt ≠ none then some (.documentDeleted command.documentId)
    else
      match db.findVersion command.documentId command.documentVersionId with
      | none => some (.documentVersionNotFound command.documentId command.documentVersionId)
      | some version =>
        if version.status ≠ .draft then some (.documentArtifactVersionNotDraft command.documentVersionId version.status)
        else
          match command.validateFile settings with
          | some e => some e
          | none =>
            if db.ArtifactKeyExists command.documentVersionId command.artifactKey then
              some (.documentArtifactConflict command.documentVersionId command.artifactKey)
            else if db.StorageKeyExists settings.storageProvider (command.storageKey artifactId) then
              some (.documentArtifactStorageLocationConflict settings.storageProvider (command.storageKey artifactId))
            else none

section

variable {settings : UploadSettings} {command : UploadDocumentArtifact} {artifactId : Uuid} {x : World × Locals}

theorem query_still {α : Type} {a : Await} (ha : a = still) (find : KnowledgeDb → α) :
    query a find x = (.ok (find x.1.stores.db), x) := by
  subst ha
  rfl

theorem raiseIf_pos {p : Prop} [Decidable p] {e : KnowledgeError} (h : p) : raiseIf p e x = (.error (.domain e), x) := by
  rw [raiseIf, if_pos h, fail_run]

theorem raiseIf_neg {p : Prop} [Decidable p] {e : KnowledgeError} (h : ¬ p) : raiseIf p e x = (.ok (), x) := by
  rw [raiseIf, if_neg h, pure_run]

theorem validateTarget_quiet (d v : Uuid) : validateTarget quiet d v x =
    (match x.1.stores.db.findDocument d with
    | none => (.error (.domain (.documentNotFound d)), x)
    | some document =>
      if document.deletedAt ≠ none then (.error (.domain (.documentDeleted d)), x)
      else
        match x.1.stores.db.findVersion d v with
        | none => (.error (.domain (.documentVersionNotFound d v)), x)
        | some version =>
          if version.status ≠ .draft then (.error (.domain (.documentArtifactVersionNotDraft v version.status)), x)
          else (.ok (), x)) := by
  rw [validateTarget, bind_ok (query_still (a := quiet.findDocument) rfl _)]
  cases x.1.stores.db.findDocument d with
  | none => rfl
  | some document =>
    dsimp only
    split_ifs with hdeleted
    · exact bind_error (raiseIf_pos hdeleted)
    rw [bind_ok (raiseIf_neg hdeleted), bind_ok (query_still (a := quiet.findVersion) rfl _)]
    cases x.1.stores.db.findVersion d v with
    | none => rfl
    | some version =>
      dsimp only
      split_ifs with hdraft
      · exact raiseIf_pos hdraft
      · exact raiseIf_neg hdraft

theorem validateFile_quiet (settings : UploadSettings) (command : UploadDocumentArtifact) : validateFile settings command x =
    (match command.validateFile settings with
    | some e => (.error (.domain e), x)
    | none => (.ok (), x)) := by
  rw [validateFile]
  cases command.validateFile settings with
  | some e => rfl
  | none => rfl

theorem validate_quiet (settings : UploadSettings) (command : UploadDocumentArtifact) (artifactId : Uuid) : validate settings quiet command artifactId x =
    (match refusal settings command artifactId x.1.stores.db with
    | some e => (.error (.domain e), x)
    | none => (.ok (), x)) := by
  have htarget := validateTarget_quiet (x := x) command.documentId command.documentVersionId
  rw [validate, refusal]
  cases hdoc : x.1.stores.db.findDocument command.documentId with
  | none =>
    rw [hdoc] at htarget
    exact bind_error htarget
  | some document =>
    rw [hdoc] at htarget
    dsimp only at htarget ⊢
    by_cases hdeleted : document.deletedAt ≠ none
    · rw [if_pos hdeleted] at htarget ⊢
      exact bind_error htarget
    rw [if_neg hdeleted] at htarget ⊢
    cases hver : x.1.stores.db.findVersion command.documentId command.documentVersionId with
    | none =>
      rw [hver] at htarget
      exact bind_error htarget
    | some version =>
      rw [hver] at htarget
      dsimp only at htarget ⊢
      by_cases hdraft : version.status ≠ .draft
      · rw [if_pos hdraft] at htarget ⊢
        exact bind_error htarget
      rw [if_neg hdraft] at htarget ⊢
      rw [bind_ok htarget]
      have hfile := validateFile_quiet settings command (x := x)
      cases hv : command.validateFile settings with
      | some e =>
        rw [hv] at hfile
        exact bind_error hfile
      | none =>
        rw [hv] at hfile
        rw [bind_ok hfile, bind_ok (query_still (a := quiet.artifactKeyExists) rfl _)]
        dsimp only
        split_ifs with hkey hlocation
        · exact bind_error (raiseIf_pos (decide_eq_true hkey))
        · rw [bind_ok (raiseIf_neg (by simpa using hkey)), bind_ok (query_still (a := quiet.storageKeyExists) rfl _)]
          exact raiseIf_pos (decide_eq_true hlocation)
        · rw [bind_ok (raiseIf_neg (by simpa using hkey)), bind_ok (query_still (a := quiet.storageKeyExists) rfl _)]
          exact raiseIf_neg (by simpa using hlocation)

theorem alone_validate {reply : Outcome → Answer} {k : Tx} {db : KnowledgeDb} :
    (DocumentArtifactUploadService.validate reply settings command artifactId k).alone db =
    (match refusal settings command artifactId db with
    | some e => (db, reply (.raised e))
    | none => k.alone db) := by
  rw [DocumentArtifactUploadService.validate, DocumentArtifactUploadService.validateTarget, findDocument,
    alone_selectForUpdate, refusal]
  cases db.findDocument command.documentId with
  | none => rfl
  | some document =>
    dsimp only
    by_cases hdeleted : document.deletedAt ≠ none
    · rw [if_pos hdeleted, if_pos hdeleted]
      rfl
    rw [if_neg hdeleted, if_neg hdeleted, lockVersion, alone_selectForUpdate]
    cases db.findVersion command.documentId command.documentVersionId with
    | none => rfl
    | some version =>
      dsimp only
      by_cases hdraft : version.status ≠ .draft
      · rw [if_pos hdraft, if_pos hdraft]
        rfl
      rw [if_neg hdraft, if_neg hdraft]
      cases command.validateFile settings with
      | some e => rfl
      | none =>
        simp only [Lib.Transaction.Txn.read, Lib.Transaction.Txn.alone]
        by_cases hkey : db.ArtifactKeyExists command.documentVersionId command.artifactKey
        · rw [if_pos hkey, if_pos hkey]
          rfl
        rw [if_neg hkey, if_neg hkey, Lib.Transaction.Txn.alone]
        by_cases hlocation : db.StorageKeyExists settings.storageProvider (command.storageKey artifactId)
        · rw [if_pos hlocation, if_pos hlocation]
          rfl
        · rw [if_neg hlocation, if_neg hlocation]

theorem alone_addArtifact {reply : Outcome → Answer} {k : Tx} {db : KnowledgeDb} (a : CreateDocumentArtifact) :
    (addArtifact reply a k).alone db =
    (match db.artifactViolations a.row with
    | [] => k.alone db
    | es => (db, reply (.raised (refused a es)))) := by
  rw [addArtifact, insert, Lib.Transaction.Txn.alone]
  cases db.artifactViolations a.row with
  | nil => rfl
  | cons e es => rfl

/-- the reply to an upload; a failure of the infrastructure gets none -/
def reply : Except Raised UploadedDocumentArtifact → Option Outcome
  | .ok a => some (.uploaded a)
  | .error (.domain e) => some (.raised e)
  | .error (.failure _) => none

theorem unitOfWork_quiet (body : Act Unit) :
    unitOfWork quiet body x = ((body x).1, (body x).2.1, { (body x).2.2 with session := [] }) := rfl

/-- the block, on the stores `s` -/
theorem transaction_quiet (u : Call) (s : Stores) :
    transaction u.settings quiet u.command u.artifactId u.actor u.createdAt (.start s, ⟨false, false, []⟩) =
    (match refusal u.settings u.command u.artifactId s.db with
    | some e => (.error (.domain e), .start s, ⟨false, false, []⟩)
    | none =>
      match s.db.artifactViolations u.artifact.row with
      | [] => (.ok (), ⟨(s.setObject u.key (some u.object)).addRows [u.artifact.row], s⟩, ⟨true, true, []⟩)
      | es => (.error (.domain (refused u.artifact es)), ⟨s.setObject u.key (some u.object), s⟩, ⟨true, false, []⟩)) := by
  have hvalidate := validate_quiet u.settings u.command u.artifactId (x := (.start s, ⟨false, false, []⟩))
  rw [transaction]
  cases hrefusal : refusal u.settings u.command u.artifactId s.db with
  | some e =>
    rw [show (World.start s).stores.db = s.db from rfl, hrefusal] at hvalidate
    exact bind_error hvalidate
  | none =>
    rw [show (World.start s).stores.db = s.db from rfl, hrefusal] at hvalidate
    have hput : put quiet (u.command.artifact u.settings u.artifactId u.actor u.createdAt).storageKey u.command.content
        u.command.contentType (.start s, ⟨false, false, []⟩) =
        (.ok (), ⟨s.setObject u.key (some u.object), s⟩, ⟨false, false, []⟩) := rfl
    have huploaded : assign (fun l => { l with uploaded := true })
        (⟨s.setObject u.key (some u.object), s⟩, ⟨false, false, []⟩) =
        (.ok (), ⟨s.setObject u.key (some u.object), s⟩, ⟨true, false, []⟩) := rfl
    rw [bind_ok hvalidate, bind_ok hput, bind_ok huploaded]
    rw [← Call.artifact]
    have hread : query quiet.add (fun db => db.artifactViolations u.artifact.row)
        (⟨s.setObject u.key (some u.object), s⟩, ⟨true, false, []⟩) = (.ok (s.db.artifactViolations u.artifact.row),
        ⟨s.setObject u.key (some u.object), s⟩, ⟨true, false, []⟩) := query_still rfl _
    cases hviolations : s.db.artifactViolations u.artifact.row with
    | nil =>
      rw [hviolations] at hread
      have hadd : add quiet u.artifact (⟨s.setObject u.key (some u.object), s⟩, ⟨true, false, []⟩) =
          (.ok (), ⟨s.setObject u.key (some u.object), s⟩, ⟨true, false, [u.artifact.row]⟩) := by
        rw [add, bind_ok hread, bind_ok (raiseIf_neg fun h => h rfl)]
        rfl
      rw [bind_ok hadd]
      rfl
    | cons e es =>
      rw [hviolations] at hread
      refine bind_error ?_
      rw [add, bind_ok hread]
      exact bind_error (raiseIf_pos (List.cons_ne_nil e es))

/-- what `upload` makes of its block -/
theorem run_quiet {u : Call} {s : Stores} {result : Except Raised Unit} {w : World} {l : Locals}
    (h : transaction u.settings quiet u.command u.artifactId u.actor u.createdAt (.start s, ⟨false, false, []⟩) =
      (result, w, l)) :
    u.run quiet (.start s) = (result.map fun _ => u.command.uploaded u.artifactId,
      if l.uploaded ∧ ¬ l.committed then { w with stores := w.stores.setObject u.key none } else w) := by
  have hblock : unitOfWork quiet (transaction u.settings quiet u.command u.artifactId u.actor u.createdAt)
      (.start s, ⟨false, false, []⟩) = (result, w, { l with session := [] }) := by
    rw [unitOfWork_quiet, h]
  have hcompensate : compensate quiet u.key (w, { l with session := [] }) = (.ok (),
      (if l.uploaded ∧ ¬ l.committed then { w with stores := w.stores.setObject u.key none } else w),
      { l with session := [] }) := by
    rw [compensate, bind_ok (get_run _)]
    split_ifs
    · rfl
    · rfl
  have hensure : ensuring (unitOfWork quiet (transaction u.settings quiet u.command u.artifactId u.actor u.createdAt))
      (compensate quiet u.key) (.start s, ⟨false, false, []⟩) = (result,
      (if l.uploaded ∧ ¬ l.committed then { w with stores := w.stores.setObject u.key none } else w),
      { l with session := [] }) := by
    rw [ensuring, hblock]
    dsimp only
    rw [hcompensate]
  rw [Call.run, upload, ← Call.key, withLocals]
  cases result with
  | error e => rw [bind_error hensure]; rfl
  | ok => rw [bind_ok hensure]; rfl

/-- **An upload that nothing disturbs** is its transaction: it replies the same and leaves the same database. -/
theorem upload_alone (u : Call) (s : Stores) (answer : Outcome → Answer) :
    ∃ o, reply (u.run quiet (.start s)).1 = some o ∧
      (DocumentArtifactUploadService.upload answer u.settings u.command u.artifactId u.actor u.createdAt).alone s.db =
        ((u.run quiet (.start s)).2.stores.db, answer o) := by
  have hblock := transaction_quiet u s
  rw [DocumentArtifactUploadService.upload, alone_validate]
  cases hrefusal : refusal u.settings u.command u.artifactId s.db with
  | some e =>
    rw [hrefusal] at hblock
    rw [run_quiet hblock]
    exact ⟨.raised e, rfl, rfl⟩
  | none =>
    rw [hrefusal] at hblock
    dsimp only
    rw [← Call.artifact, alone_addArtifact]
    cases hviolations : s.db.artifactViolations u.artifact.row with
    | nil =>
      rw [hviolations] at hblock
      rw [run_quiet hblock]
      exact ⟨.uploaded (u.command.uploaded u.artifactId), rfl, rfl⟩
    | cons e es =>
      rw [hviolations] at hblock
      rw [run_quiet hblock]
      exact ⟨.raised (refused u.artifact (e :: es)), rfl, rfl⟩

end

end AtlasRag.Knowledge.Upload
