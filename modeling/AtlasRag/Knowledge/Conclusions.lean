/-
How the transactions of the knowledge services end, whatever they read: a commit does not touch the schema `iam` and is
answered with a result, a rollback with an exception.

Results:
- `txn_concludes`: every request;
- `answered_commits`, `history_eq`: in every run a call that is answered with success has committed.
-/
import AtlasRag.Identity.Conclusions
import AtlasRag.Knowledge.Edits
import AtlasRag.Knowledge.Safety
import AtlasRag.Lib.Outcomes

namespace AtlasRag.Knowledge

open AtlasRag.Lib AtlasRag.Lib.LockMode AtlasRag.Lib.Table AtlasRag.Platform
open AtlasRag.Lib.RowLock (Op)
open AtlasRag.Lib.Transaction (Txn)

/-- the program commits with a result of the request, and raises otherwise -/
structure Concludes (q : Request) (p : Tx) : Prop where
  outcomes : Outcomes (fun w a => (∀ db, (w db).iam = db.iam) ∧ ∃ o, a = .knowledge ⟨q, o⟩ ∧ ∀ e, o ≠ .raised e)
    (fun a => ∃ e, a = .knowledge ⟨q, .raised e⟩) p

section Programs

variable {reply : Outcome → Answer} {q : Request}

theorem concludes_stmt {rows : KnowledgeDb → List Lock} {k : KnowledgeDb → Tx} (hk : ∀ db, Concludes q (k db)) :
    Concludes q (.stmt rows k) := ⟨fun db => (hk db).outcomes⟩

theorem concludes_read {k : KnowledgeDb → Tx} (hk : ∀ db, Concludes q (k db)) : Concludes q (Txn.read k) :=
  concludes_stmt hk

theorem concludes_select {α : Type} {row : α → Row} {relied : α → Bool} {find : KnowledgeDb → Option α}
    {k : Option α → Tx} (hk : ∀ x, Concludes q (k x)) : Concludes q (select row relied find k) :=
  concludes_stmt fun _ => hk _

theorem concludes_selectForUpdate {α : Type} {lock : α → Lock} {find : KnowledgeDb → Option α} {k : Option α → Tx}
    (hk : ∀ x, Concludes q (k x)) : Concludes q (selectForUpdate lock find k) := by
  refine concludes_read fun db => ?_
  cases find db with
  | none => exact hk _
  | some x => exact concludes_stmt fun _ => hk _

theorem concludes_lockActiveDocument {d : Uuid} {k : Option Document → Tx} (hk : ∀ x, Concludes q (k x)) :
    Concludes q (lockActiveDocument d k) := concludes_selectForUpdate hk

theorem concludes_lockVersion {d v : Uuid} {k : Option DocumentVersion → Tx} (hk : ∀ x, Concludes q (k x)) :
    Concludes q (lockVersion d v k) := concludes_selectForUpdate hk

variable (hreply : ∀ o, reply o = .knowledge ⟨q, o⟩)
include hreply

theorem concludes_raise (e : KnowledgeError) : Concludes q (raise reply e) := ⟨e, hreply _⟩

theorem concludes_commit {w : KnowledgeDb → KnowledgeDb} {o : Outcome} (hw : ∀ db, (w db).iam = db.iam)
    (ho : ∀ e, o ≠ .raised e) : Concludes q (.commit w (reply o)) := ⟨hw, o, hreply o, ho⟩

theorem concludes_insert {keys : List Key} {references : List Lock} {violations : KnowledgeDb → List Violation}
    {refused : List Violation → KnowledgeError} {k : Tx} (hk : Concludes q k) :
    Concludes q (insert reply keys references violations refused k) := by
  refine concludes_stmt fun db => ?_
  split
  · exact hk
  · exact concludes_raise hreply _

theorem concludes_updateVersion {sofar : KnowledgeDb → KnowledgeDb} {d v : Uuid} {set : DocumentVersion → DocumentVersion}
    {refused : List Violation → KnowledgeError} {k : Option DocumentVersion → Tx} (hk : ∀ x, Concludes q (k x)) :
    Concludes q (updateVersion reply sofar d v set refused k) := by
  refine concludes_stmt fun db => ?_
  split
  · exact concludes_raise hreply _
  · exact hk _

/-! ## Documents -/

theorem concludes_createDocument {document : CreateDocument} :
    Concludes q (DocumentManagementService.createDocument reply document) := by
  refine concludes_read fun db => ?_
  split_ifs
  · exact concludes_raise hreply _
  · exact concludes_insert hreply (concludes_commit hreply (fun _ => rfl) (by simp))

theorem concludes_deleteDocument {d : Uuid} {deletedAt : Time} :
    Concludes q (DocumentManagementService.deleteDocument reply d deletedAt) := by
  have hdeleted : ∀ deleted : Bool, Concludes q
      (if deleted then .commit (·.softDelete d deletedAt) (reply .done) else raise reply (.documentNotFound d)) := by
    intro deleted
    split_ifs
    · exact concludes_commit hreply (fun _ => rfl) (by simp)
    · exact concludes_raise hreply _
  refine concludes_read fun db => ?_
  split
  · exact hdeleted false
  · exact concludes_stmt fun _ => hdeleted _

/-! ## Versions -/

theorem concludes_createVersion {version : CreateDocumentVersion} :
    Concludes q (DocumentVersionManagementService.createVersion reply version) := by
  unfold DocumentVersionManagementService.createVersion findActiveDocument
  refine concludes_select fun x => ?_
  cases x with
  | none => exact concludes_raise hreply _
  | some x => exact concludes_insert hreply (concludes_commit hreply (fun _ => rfl) (by simp))

theorem concludes_findOpenEffectiveVersion {d : Uuid} {k : Option DocumentVersion → Tx} (hk : ∀ x, Concludes q (k x)) :
    Concludes q (DocumentVersionManagementService.findOpenEffectiveVersion reply d k) := by
  refine concludes_read fun db => concludes_stmt fun db' => ?_
  split
  · exact hk _
  · exact hk _
  · exact concludes_raise hreply _

theorem concludes_setPublished {sofar : KnowledgeDb → KnowledgeDb} {d v : Uuid} {publishedAt effectiveFrom : Time}
    (hsofar : ∀ db, (sofar db).iam = db.iam) :
    Concludes q (DocumentVersionManagementService.setPublished reply sofar d v publishedAt effectiveFrom) := by
  refine concludes_updateVersion hreply fun x => ?_
  cases x with
  | none => exact concludes_raise hreply _
  | some x => exact concludes_commit hreply hsofar (by simp)

theorem concludes_publishVersion {d v : Uuid} {effectiveFrom publishedAt : Time} :
    Concludes q (DocumentVersionManagementService.publishVersion reply d v effectiveFrom publishedAt) := by
  refine concludes_lockVersion fun x => ?_
  cases x with
  | none => exact concludes_raise hreply _
  | some x =>
    dsimp only
    split_ifs
    · exact concludes_raise hreply _
    · refine concludes_findOpenEffectiveVersion hreply fun y => ?_
      cases y with
      | none => exact concludes_setPublished hreply fun _ => rfl
      | some y =>
        dsimp only
        split
        · exact concludes_raise hreply _
        · exact concludes_updateVersion hreply fun _ => concludes_setPublished hreply fun _ => rfl

theorem concludes_setStatus {d v : Uuid} {set : DocumentVersion → DocumentVersion} :
    Concludes q (DocumentVersionManagementService.setStatus reply d v set) := by
  refine concludes_updateVersion hreply fun x => ?_
  cases x with
  | none => exact concludes_raise hreply _
  | some x => exact concludes_commit hreply (fun _ => rfl) (by simp)

theorem concludes_withdrawVersion {d v : Uuid} {effectiveTo updatedAt : Time} :
    Concludes q (DocumentVersionManagementService.withdrawVersion reply d v effectiveTo updatedAt) := by
  refine concludes_lockVersion fun x => ?_
  cases x with
  | none => exact concludes_raise hreply _
  | some x =>
    dsimp only
    split_ifs
    · exact concludes_raise hreply _
    · split
      · exact concludes_raise hreply _
      · exact concludes_setStatus hreply

theorem concludes_archiveVersion {d v : Uuid} {updatedAt : Time} :
    Concludes q (DocumentVersionManagementService.archiveVersion reply d v updatedAt) := by
  refine concludes_lockVersion fun x => ?_
  cases x with
  | none => exact concludes_raise hreply _
  | some x =>
    dsimp only
    split_ifs
    · exact concludes_raise hreply _
    · exact concludes_setStatus hreply

/-! ## Artifacts -/

theorem concludes_createArtifact {d : Uuid} {artifact : CreateDocumentArtifact} :
    Concludes q (DocumentArtifactManagementService.createArtifact reply d artifact) := by
  unfold DocumentArtifactManagementService.createArtifact findVersion
  refine concludes_select fun x => ?_
  cases x with
  | none => exact concludes_raise hreply _
  | some x =>
    dsimp only
    split_ifs
    · exact concludes_raise hreply _
    · exact concludes_insert hreply (concludes_commit hreply (fun _ => rfl) (by simp))

theorem concludes_validateTarget {d v : Uuid} {k : Tx} (hk : Concludes q k) :
    Concludes q (DocumentArtifactUploadService.validateTarget reply d v k) := by
  unfold DocumentArtifactUploadService.validateTarget findDocument
  refine concludes_selectForUpdate fun x => ?_
  cases x with
  | none => exact concludes_raise hreply _
  | some x =>
    dsimp only
    split_ifs
    · exact concludes_raise hreply _
    · refine concludes_lockVersion fun y => ?_
      cases y with
      | none => exact concludes_raise hreply _
      | some y =>
        dsimp only
        split_ifs
        · exact concludes_raise hreply _
        · exact hk

theorem concludes_upload {settings : UploadSettings} {command : UploadDocumentArtifact} {artifactId actor : Uuid}
    {createdAt : Time} :
    Concludes q (DocumentArtifactUploadService.upload reply settings command artifactId actor createdAt) := by
  refine concludes_validateTarget hreply ?_
  split
  · exact concludes_raise hreply _
  · refine concludes_read fun db => ?_
    split_ifs
    · exact concludes_raise hreply _
    · refine concludes_read fun db => ?_
      split_ifs
      · exact concludes_raise hreply _
      · exact concludes_insert hreply (concludes_commit hreply (fun _ => rfl) (by simp))

/-! ## Grants -/

theorem concludes_grantAcl {grant : CreateDocumentAclGrant} :
    Concludes q (DocumentAclManagementService.grantAcl reply grant) := by
  unfold DocumentAclManagementService.grantAcl
  split
  · exact concludes_raise hreply _
  · refine concludes_lockActiveDocument fun x => ?_
    cases x with
    | none => exact concludes_raise hreply _
    | some x =>
      refine concludes_selectForUpdate fun y => ?_
      cases y with
      | none => exact concludes_raise hreply _
      | some y =>
        refine concludes_read fun db => ?_
        split_ifs
        · exact concludes_raise hreply _
        · exact concludes_insert hreply (concludes_commit hreply (fun _ => rfl) (by simp))

theorem concludes_revokeAcl {d g actor : Uuid} {revokedAt : Time} :
    Concludes q (DocumentAclManagementService.revokeAcl reply d g actor revokedAt) := by
  refine concludes_lockActiveDocument fun x => ?_
  cases x with
  | none => exact concludes_raise hreply _
  | some x =>
    refine concludes_read fun db => ?_
    split
    · exact concludes_raise hreply _
    · refine concludes_stmt fun db' => ?_
      split
      · exact concludes_raise hreply _
      · split_ifs
        · exact concludes_commit hreply (fun _ => rfl) (by simp)
        · exact concludes_raise hreply _

end Programs

/-- **Every request** concludes. -/
theorem txn_concludes (settings : UploadSettings) (q : Request) : Concludes q (q.txn settings) := by
  have hreply : ∀ o, Answer.knowledge ⟨q, o⟩ = .knowledge ⟨q, o⟩ := fun _ => rfl
  cases q with
  | createDocument => exact concludes_createDocument hreply
  | deleteDocument => exact concludes_deleteDocument hreply
  | createVersion => exact concludes_createVersion hreply
  | publishVersion => exact concludes_publishVersion hreply
  | withdrawVersion => exact concludes_withdrawVersion hreply
  | archiveVersion => exact concludes_archiveVersion hreply
  | createArtifact => exact concludes_createArtifact hreply
  | upload => exact concludes_upload hreply
  | grantAcl => exact concludes_grantAcl hreply
  | revokeAcl => exact concludes_revokeAcl hreply

/-- … and so does `update_document` -/
theorem updateDocument_concludes {R : Type} {reply : Outcome → R} {d : Uuid} {patch : DocumentPatch} {updatedAt : Time} :
    Outcomes (fun w a => (∀ db, (w db).iam = db.iam) ∧ ∃ o, a = reply o ∧ ∀ e, o ≠ .raised e)
      (fun a => ∃ e, a = reply (.raised e)) (DocumentManagementService.updateDocument reply d patch updatedAt) := by
  intro db
  beta_reduce
  split
  · exact ⟨_, rfl⟩
  · intro db'
    beta_reduce
    split
    · exact ⟨_, rfl⟩
    · split
      · exact ⟨_, rfl⟩
      · exact ⟨fun _ => rfl, _, rfl, by simp⟩

/-! ## Runs -/

/-- the call has returned a result; one of the identity module, `done` -/
def Answer.success : Answer → Bool
  | .knowledge ⟨_, .raised _⟩ => false
  | .knowledge _ => true
  | .iam reply => reply.outcome = .done

theorem success_knowledge {q : Request} {o : Outcome} (ho : ∀ e, o ≠ .raised e) :
    (Answer.knowledge ⟨q, o⟩).success = true := by
  cases o with
  | raised e => exact absurd rfl (ho e)
  | _ => rfl

variable {settings : UploadSettings} {requests : Set Request} {db : KnowledgeDb}

/-- **What sessions run** commits exactly with a success. -/
theorem begins_outcomes {p : Tx} (hp : Begins settings requests p) :
    Outcomes (fun _ a => a.success = true) (fun a => ¬ a.success = true) p := by
  rcases hp with ⟨q, -, rfl⟩ | ⟨p₀, ⟨q, t, rfl⟩, rfl⟩
  · refine (txn_concludes settings q).outcomes.mono ?_ ?_
    · rintro w a ⟨-, o, rfl, ho⟩
      exact success_knowledge ho
    · rintro a ⟨e, rfl⟩
      exact Bool.false_ne_true
  · refine outcomes_zoom (outcomes_of_ends (Identity.txn_settles q t)) (fun w r hr => ?_) fun r hr => ?_
    · exact decide_eq_true hr.2
    · exact fun h => hr.2 (of_decide_eq_true h)

/-- A call that is answered with success has committed. -/
theorem answered_commits {s : State} (hs : KnowledgeRun settings db s) {o : Op Tx} {a : Answer} (ha : ending s o = some a)
    (hsuccess : a.success = true) : ∃ w, committing s o = some (w, a) :=
  ending_commits (fun _ _ _ hp => begins_outcomes hp) hs ha hsuccess

/-- **The history of a run** is the list of the successes in its log. -/
theorem history_eq {ops : List (Op Tx)}
    (hops : Admissible (step Lock.Conflicts) (Starts (Begins settings requests)) (Sys.init db) ops) :
    history Lock.Conflicts (Sys.init db) ops =
      ((run (step Lock.Conflicts) (Sys.init db) ops).log.map (·.2)).filter fun a => a.success = true := by
  refine history_eq_log ?_ hops
  exact fun _ _ _ hp => begins_outcomes hp

end AtlasRag.Knowledge
