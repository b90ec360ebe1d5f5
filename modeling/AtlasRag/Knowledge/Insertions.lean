/-
What is inserted under a version that has left DRAFT, and under a document that is deleted.

`upload` and `grant_acl` lock what they check until they commit. `create_artifact` and `create_version` check a row that they
have read without a lock: their INSERT waits for a transaction that has the row locked FOR UPDATE, and goes on once that one
has published the version, or deleted the document. Where no schedule does that, nothing is inserted too late.

Results:
- `artifacts_frozen`: unless a version is published while a `create_artifact` relies on it, its artifacts are final then;
- `document_frozen`: unless a document is deleted while a `create_version` relies on it, nothing is added under it after;
- `artifact_after_publication`, `version_after_deletion`: the schedules in which it happens.
-/
import AtlasRag.Knowledge.Transitions

namespace AtlasRag.Knowledge

open AtlasRag.Lib AtlasRag.Lib.Table AtlasRag.Lib.LockMode AtlasRag.Platform
open KnowledgeDb
open AtlasRag.Lib.RowLock (Op)

/-- what a schedule may do: start one of the given `requests`, and not commit an UPDATE of a protected row while another
session relies on it -/
def Careful (settings : UploadSettings) (requests : Set Request) (protect : Set Row) (s : State) (o : Op Tx) : Prop :=
  Starts (Begins settings requests) s o ∧ ∀ i, o = .exec i → Undisturbed protect s i

abbrev CarefulRun (settings : UploadSettings) (requests : Set Request) (protect : Set Row) (db : KnowledgeDb) (s : State) :
    Prop := Run (step Lock.Conflicts) (Careful settings requests protect) (Sys.init db) s

variable {settings : UploadSettings} {requests : Set Request} {protect : Set Row} {db db' : KnowledgeDb}

theorem careful_obligations : Obligations Lock.Conflicts (Clash protect) (Careful settings requests protect) Good
    (Commit settings requests protect) :=
  obligations (fun _ _ _ h => h.1) fun _ i h => h.2 i rfl

/-- **What every commit keeps stays**, from a state of the run on. -/
theorem careful_rule (hdb : Good db) {s : State} (hs : CarefulRun settings requests protect db s) {P : KnowledgeDb → Prop}
    (hstep : ∀ a r L b, Good a → Commit settings requests protect r L a b → P a → P b) (h0 : P s.db) {ops : List (Op Tx)}
    (hops : Admissible (step Lock.Conflicts) (Careful settings requests protect) s ops) :
    P (run (step Lock.Conflicts) s ops).db :=
  (chain_rule careful_obligations hdb hs hops).preserves hstep h0

/-- a check of a schedule: no action meets a row that another session has noted -/
def unnoted (rows : List Row) (s : State) : List (Op Tx) → Bool
  | [] => true
  | .exec i :: ops => (rows.all fun x => s.held.all fun h => h.1 = i ∨ h.2 ≠ .row x .noted) &&
      unnoted rows (step Lock.Conflicts s (.exec i)) ops
  | o :: ops => unnoted rows (step Lock.Conflicts s o) ops

theorem careful_of_unnoted {x : Row} {ops : List (Op Tx)} {s : State} (h : unnoted [x] s ops = true)
    (hstart : ∀ i p, .start i p ∈ ops → Begins settings requests p) :
    Admissible (step Lock.Conflicts) (Careful settings requests {x}) s ops := by
  induction ops generalizing s with
  | nil => trivial
  | cons o ops ih =>
    have hrest : ∀ i p, .start i p ∈ ops → Begins settings requests p := fun i p hp => hstart i p (List.mem_cons_of_mem _ hp)
    cases o with
    | start i p => exact ⟨⟨hstart i p List.mem_cons_self, fun j hj => by cases hj⟩, ih h hrest⟩
    | abort i => exact ⟨⟨trivial, fun j hj => by cases hj⟩, ih h hrest⟩
    | exec i =>
      obtain ⟨hheld, hops⟩ := Bool.and_eq_true_iff.1 h
      refine ⟨⟨trivial, fun j hj => ?_⟩, ih hops hrest⟩
      cases hj
      rintro w r - y rfl - k hk hnoted
      have hall := List.all_eq_true.1 (List.all_eq_true.1 hheld y List.mem_cons_self) _ hnoted
      exact (of_decide_eq_true hall).elim hk fun hne => hne rfl

/-! ## Artifacts of a version -/

namespace KnowledgeDb

/-- the version has left DRAFT -/
def Left (db : KnowledgeDb) (v : Uuid) : Prop := ∃ x ∈ db.versions, x.id = v ∧ x.status ≠ .draft

instance (db : KnowledgeDb) (v : Uuid) : Decidable (db.Left v) := inferInstanceAs (Decidable (∃ x ∈ db.versions, _))

/-- `list_for_version`, with the deleted ones -/
def artifactsOf (db : KnowledgeDb) (v : Uuid) : List DocumentArtifact := db.artifacts.filter (·.documentVersionId = v)

end KnowledgeDb

theorem Left.not_draft (h : Good db) {v : Uuid} (hv : db.Left v) : ¬ db.Draft v := by
  rintro ⟨y, hy, hid, hst⟩
  obtain ⟨x, hx, rfl, hne⟩ := hv
  exact hne (version_eq h.admissible.keys hx hy hid.symm ▸ hst)

theorem left_setVersion {d v w : Uuid} {set : DocumentVersion → DocumentVersion} (hset : Sets set)
    (hst : ∀ x : DocumentVersion, x.status ≠ .draft → (set x).status ≠ .draft) (hv : db.Left v) :
    (db.setVersion d w set).Left v := by
  obtain ⟨x, hx, hid, hne⟩ := hv
  by_cases hxw : x.id = w ∧ x.documentId = d
  · exact ⟨set x, mem_mapWhere.2 (.inl ⟨x, hx, hxw, rfl⟩), (hset.id x).trans hid, hst x hne⟩
  · exact ⟨x, mem_mapWhere.2 (.inr ⟨hx, hxw⟩), hid, hne⟩

theorem artifactsOf_addArtifact {v : Uuid} {a : DocumentArtifact} (ha : a.documentVersionId ≠ v) :
    (db.addArtifact a).artifactsOf v = db.artifactsOf v := by
  simp [artifactsOf, KnowledgeDb.addArtifact, ha]

/-- **One commit**: a version that has left DRAFT stays so, and gets no artifact. -/
theorem frozen_step {v : Uuid} (hprot : .version v ∈ protect) {r : Answer} {L : Set Lock} (hG : Good db)
    (hc : Commit settings requests protect r L db db') (hv : db.Left v) : db'.Left v ∧ db'.artifactsOf v = db.artifactsOf v := by
  cases r with
  | iam reply => obtain ⟨-, -, heq⟩ := hc; rw [heq]; exact ⟨hv, rfl⟩
  | knowledge reply =>
    obtain ⟨q, o⟩ := reply
    obtain ⟨hq, hc⟩ := hc
    have hnot := Left.not_draft hG hv
    cases q with
    | createArtifact d c =>
      obtain ⟨-, -, hdraft, -, rfl⟩ := hc
      refine ⟨hv, artifactsOf_addArtifact fun hid => hnot ?_⟩
      obtain rfl : c.documentVersionId = v := hid
      exact hdraft hprot
    | upload c id actor at' =>
      obtain ⟨-, -, -, ⟨x, hx, hxid, -, hst⟩, -, rfl⟩ := hc
      exact ⟨hv, artifactsOf_addArtifact fun hid => hnot ⟨x, hx, hxid.trans hid, hst⟩⟩
    | publishVersion d w f at' =>
      obtain ⟨x, -, -, ⟨-, rfl⟩ | ⟨y, -, -, -, -, -, rfl⟩⟩ := hc
      · exact ⟨left_setVersion (sets_publish at' f) (fun _ _ hst => by cases hst) hv, rfl⟩
      · have hv' : (db.setVersion d y.id (.closeAt f at')).Left v := left_setVersion (sets_closeAt f at') (fun _ hne => hne) hv
        exact ⟨left_setVersion (sets_publish at' f) (fun _ _ hst => by cases hst) hv', rfl⟩
    | withdrawVersion d w e at' =>
      obtain ⟨x, -, -, -, -, rfl⟩ := hc
      exact ⟨left_setVersion (sets_withdraw e at') (fun _ _ hst => by cases hst) hv, rfl⟩
    | archiveVersion d w at' =>
      obtain ⟨x, -, -, -, rfl⟩ := hc
      exact ⟨left_setVersion (sets_archive at') (fun _ _ hst => by cases hst) hv, rfl⟩
    | createVersion c =>
      obtain ⟨-, -, -, -, rfl⟩ := hc
      obtain ⟨x, hx, hid, hne⟩ := hv
      exact ⟨⟨x, List.mem_append_left _ hx, hid, hne⟩, rfl⟩
    | createDocument => obtain ⟨-, -, -, rfl⟩ := hc; exact ⟨hv, rfl⟩
    | deleteDocument => obtain ⟨-, -, -, rfl⟩ := hc; exact ⟨hv, rfl⟩
    | grantAcl => obtain ⟨-, -, -, -, rfl⟩ := hc; exact ⟨hv, rfl⟩
    | revokeAcl => obtain ⟨x, -, -, -, -, -, rfl⟩ := hc; exact ⟨hv, rfl⟩

/-- **The artifacts of a published version are final**, in every run in which it is not published while a session that has
read it as a draft without a lock is still going on. -/
theorem artifacts_frozen (settings : UploadSettings) (db : KnowledgeDb) (hadm : db.Admissible)
    (hversions : db.versions = []) (v : Uuid) (s : State) (hs : CarefulRun settings Set.univ {.version v} db s)
    (hv : s.db.Left v) (ops : List (Op Tx))
    (hops : Admissible (step Lock.Conflicts) (Careful settings Set.univ {.version v}) s ops) :
    let s' := run (step Lock.Conflicts) s ops
    s'.db.Left v ∧ s'.db.artifactsOf v = s.db.artifactsOf v := by
  intro s'
  refine careful_rule (good_of_no_versions hadm hversions) hs
    (P := fun d => d.Left v ∧ d.artifactsOf v = s.db.artifactsOf v) (fun a r L b hG hc ha => ?_) ⟨hv, rfl⟩ hops
  obtain ⟨hb, hart⟩ := frozen_step (Set.mem_singleton _) hG hc ha.1
  exact ⟨hb, hart.trans ha.2⟩

/-- an artifact of the given version -/
def artifact (id version : Uuid) : CreateDocumentArtifact :=
  ⟨id, version, uuidText id, "en", "text", none, none, "local", buildStorageKey 1 version id, "text/plain", "", 0, none, [],
    7⟩

/-- version 2 gets an artifact and is published; another `create_artifact` and an upload are still to come -/
def publishedRequests : List Request :=
  [.createVersion ⟨2, 1, "1.0", none, [], 5⟩, .createArtifact 1 (artifact 4 2), .publishVersion 1 2 10 8,
    .createArtifact 1 (artifact 5 2), .upload ⟨1, 2, "a", "en", "text", none, "text/plain", [65], none⟩ 6 9 9]

def publishing : List (Op Tx) :=
  Transaction.schedule (publishedRequests.map (·.txn textUploads))
    (List.replicate 3 0 ++ List.replicate 3 1 ++ List.replicate 6 2)

def published : State := run (step Lock.Conflicts) (Sys.init oneDocument) publishing

def attempts : List (Op Tx) := (List.replicate 3 3 ++ List.replicate 8 4).map .exec

theorem artifacts_frozen_one :
    (published.db.artifactsOf 2).length = 1 ∧
      ((run (step Lock.Conflicts) published attempts).db.artifactsOf 2).length = 1 := by
  have hstart : ∀ i p, Op.start i p ∈ publishing → Begins textUploads Set.univ p := fun i p hp => by
    refine of_start_mem_schedule (fun p hp => ?_) hp
    obtain ⟨q, -, rfl⟩ := List.mem_map.1 hp
    exact .inl ⟨q, trivial, rfl⟩
  have hs : CarefulRun textUploads Set.univ {.version 2} oneDocument published :=
    run_of_admissible (careful_of_unnoted (by decide +kernel) hstart)
  have hops : Admissible (step Lock.Conflicts) (Careful textUploads Set.univ {.version 2}) published attempts :=
    careful_of_unnoted (by decide +kernel) fun i p hp => by simp [attempts] at hp
  have hlen : (published.db.artifactsOf 2).length = 1 := by decide +kernel
  obtain ⟨-, hart⟩ := artifacts_frozen textUploads oneDocument oneDocument_admissible rfl 2 published hs
    (by decide +kernel) attempts hops
  exact ⟨hlen, by rw [hart]; exact hlen⟩

/-- `create_artifact` reads version 2 as a draft; the version is published; its artifact is about to be committed -/
def publishedMeanwhile : State :=
  run (step Lock.Conflicts) (Sys.init oneDocument) (Transaction.schedule
    [(Request.createVersion ⟨2, 1, "1.0", none, [], 5⟩).txn textUploads,
      (Request.createArtifact 1 (artifact 4 2)).txn textUploads, (Request.publishVersion 1 2 10 8).txn textUploads]
    (List.replicate 3 0 ++ [1] ++ List.replicate 6 2 ++ [1]))

/-- a schedule in which an artifact is added to a published version -/
theorem artifact_after_publication :
    KnowledgeRun textUploads oneDocument publishedMeanwhile ∧ publishedMeanwhile.db.Left 2 ∧
      publishedMeanwhile.db.artifactsOf 2 = [] ∧
      ((step Lock.Conflicts publishedMeanwhile (.exec 1)).db.artifactsOf 2).map (·.id) = [4] := by
  refine ⟨run_of_admissible (schedule_admissible (fun p hp => ?_) _ _), by decide +kernel, ?_, by decide +kernel⟩
  · simp only [List.mem_cons, List.not_mem_nil, or_false] at hp
    rcases hp with rfl | rfl | rfl <;> exact .inl ⟨_, trivial, rfl⟩
  · exact List.length_eq_zero_iff.1 (by decide +kernel)

/-! ## Rows under a document -/

namespace KnowledgeDb

/-- the document is deleted, and when -/
def DeletedAt (db : KnowledgeDb) (d : Uuid) (t : Time) : Prop := ∃ x ∈ db.documents, x.id = d ∧ x.deletedAt = some t

instance (db : KnowledgeDb) (d : Uuid) (t : Time) : Decidable (db.DeletedAt d t) :=
  inferInstanceAs (Decidable (∃ x ∈ db.documents, _))

/-- the identifiers of the rows under a document -/
def versionsOf (db : KnowledgeDb) (d : Uuid) : List Uuid := (db.versions.filter (·.documentId = d)).map (·.id)

def artifactsUnder (db : KnowledgeDb) (d : Uuid) : List Uuid :=
  (db.artifacts.filter (·.documentVersionId ∈ db.versionsOf d)).map (·.id)

def grantsOf (db : KnowledgeDb) (d : Uuid) : List Uuid := (db.acl.filter (·.documentId = d)).map (·.id)

end KnowledgeDb

/-- the commit deletes the document -/
def Deletes (d : Uuid) (r : Answer) : Prop := ∃ at', r = .knowledge ⟨.deleteDocument d at', .done⟩

/-- the rows under a document, as they were -/
structure SameUnder (d : Uuid) (db db' : KnowledgeDb) : Prop where
  versions : db'.versionsOf d = db.versionsOf d
  artifacts : db'.artifactsUnder d = db.artifactsUnder d
  grants : db'.grantsOf d = db.grantsOf d

theorem DeletedAt.not_active (h : Good db) {d : Uuid} {t : Time} (hd : db.DeletedAt d t) : ¬ db.Active d := by
  rintro ⟨y, hy, hid, hnone⟩
  obtain ⟨x, hx, rfl, hdel⟩ := hd
  rw [document_eq h.admissible.keys hx hy hid.symm, hnone] at hdel
  cases hdel

theorem versionsOf_setVersion {set : DocumentVersion → DocumentVersion} (hset : Sets set) (d d' v : Uuid) :
    (db.setVersion d' v set).versionsOf d = db.versionsOf d :=
  map_filter_mapWhere (fun x => by rw [hset.document]) hset.id

theorem sameUnder_of_eq {d : Uuid} (hv : db'.versionsOf d = db.versionsOf d) (ha : db'.artifacts = db.artifacts)
    (hg : db'.grantsOf d = db.grantsOf d) : SameUnder d db db' :=
  ⟨hv, by rw [artifactsUnder, artifactsUnder, hv, ha], hg⟩

/-- what a commit does to the documents -/
theorem Commit.documents {r : Answer} {L : Set Lock} (hc : Commit settings requests protect r L db db') :
    ((∀ d, ¬ Deletes d r) ∧ (db'.documents = db.documents ∨ ∃ x, db'.documents = db.documents ++ [x])) ∨
      ∃ d at', r = .knowledge ⟨.deleteDocument d at', .done⟩ ∧ db.Active d ∧ db' = db.softDelete d at' := by
  cases r with
  | iam reply =>
    obtain ⟨-, -, heq⟩ := hc
    exact .inl ⟨fun d ⟨_, hd⟩ => (by cases hd), .inl (by rw [heq]; rfl)⟩
  | knowledge reply =>
    obtain ⟨q, o⟩ := reply
    obtain ⟨-, hc⟩ := hc
    cases q with
    | deleteDocument d at' => obtain ⟨-, hd, rfl, rfl⟩ := hc; exact .inr ⟨d, at', rfl, hd, rfl⟩
    | createDocument c => obtain ⟨-, -, -, rfl⟩ := hc; exact .inl ⟨fun d ⟨_, hd⟩ => (by cases hd), .inr ⟨_, rfl⟩⟩
    | createVersion => obtain ⟨-, -, -, -, rfl⟩ := hc; exact .inl ⟨fun d ⟨_, hd⟩ => (by cases hd), .inl rfl⟩
    | publishVersion =>
      obtain ⟨x, -, -, ⟨-, rfl⟩ | ⟨w, -, -, -, -, -, rfl⟩⟩ := hc <;>
        exact .inl ⟨fun d ⟨_, hd⟩ => (by cases hd), .inl rfl⟩
    | withdrawVersion => obtain ⟨x, -, -, -, -, rfl⟩ := hc; exact .inl ⟨fun d ⟨_, hd⟩ => (by cases hd), .inl rfl⟩
    | archiveVersion => obtain ⟨x, -, -, -, rfl⟩ := hc; exact .inl ⟨fun d ⟨_, hd⟩ => (by cases hd), .inl rfl⟩
    | createArtifact => obtain ⟨-, -, -, -, rfl⟩ := hc; exact .inl ⟨fun d ⟨_, hd⟩ => (by cases hd), .inl rfl⟩
    | upload => obtain ⟨-, -, -, -, -, rfl⟩ := hc; exact .inl ⟨fun d ⟨_, hd⟩ => (by cases hd), .inl rfl⟩
    | grantAcl => obtain ⟨-, -, -, -, rfl⟩ := hc; exact .inl ⟨fun d ⟨_, hd⟩ => (by cases hd), .inl rfl⟩
    | revokeAcl => obtain ⟨x, -, -, -, -, -, rfl⟩ := hc; exact .inl ⟨fun d ⟨_, hd⟩ => (by cases hd), .inl rfl⟩

/-- a document that is not deleted by the commit stays active -/
theorem Commit.active {r : Answer} {L : Set Lock} (hc : Commit settings requests protect r L db db') {d : Uuid}
    (hd : db.Active d) (hr : ¬ Deletes d r) : db'.Active d := by
  obtain ⟨x, hx, hid, hnone⟩ := hd
  rcases hc.documents with ⟨-, heq | ⟨y, heq⟩⟩ | ⟨d', at', rfl, -, rfl⟩
  · exact ⟨x, heq ▸ hx, hid, hnone⟩
  · exact ⟨x, heq ▸ List.mem_append_left _ hx, hid, hnone⟩
  · refine ⟨x, mem_mapWhere.2 (.inr ⟨hx, ?_⟩), hid, hnone⟩
    rintro ⟨hxd, -⟩
    exact hr ⟨at', by rw [← hid, hxd]⟩

/-- a document that is deleted stays as it is -/
theorem Commit.deletedAt {r : Answer} {L : Set Lock} (hc : Commit settings requests protect r L db db') {d : Uuid}
    {t : Time} (hd : db.DeletedAt d t) : db'.DeletedAt d t := by
  obtain ⟨x, hx, hid, hdel⟩ := hd
  rcases hc.documents with ⟨-, heq | ⟨y, heq⟩⟩ | ⟨d', at', rfl, -, rfl⟩
  · exact ⟨x, heq ▸ hx, hid, hdel⟩
  · exact ⟨x, heq ▸ List.mem_append_left _ hx, hid, hdel⟩
  · refine ⟨x, mem_mapWhere.2 (.inr ⟨hx, ?_⟩), hid, hdel⟩
    rintro ⟨-, hnone⟩
    rw [hdel] at hnone
    cases hnone

/-- … and one that the commit deletes is deleted -/
theorem Commit.deletes {r : Answer} {L : Set Lock} (hc : Commit settings requests protect r L db db') {d : Uuid}
    (hr : Deletes d r) : ∃ t, db'.DeletedAt d t := by
  obtain ⟨at', rfl⟩ := hr
  obtain ⟨-, -, ⟨x, hx, hid, hnone⟩, -, rfl⟩ := hc
  exact ⟨at', _, mem_mapWhere.2 (.inl ⟨x, hx, ⟨hid, hnone⟩, rfl⟩), hid, rfl⟩

/-- **One commit**: nothing is added under a deleted document. -/
theorem sameUnder_step {d : Uuid} {t : Time} (hprot : .document d ∈ protect) {r : Answer} {L : Set Lock} (hG : Good db)
    (hreq : ∀ d' c, .createArtifact d' c ∉ requests) (hc : Commit settings requests protect r L db db')
    (hd : db.DeletedAt d t) : SameUnder d db db' := by
  cases r with
  | iam reply => obtain ⟨-, -, heq⟩ := hc; rw [heq]; exact ⟨rfl, rfl, rfl⟩
  | knowledge reply =>
    obtain ⟨q, o⟩ := reply
    obtain ⟨hq, hc⟩ := hc
    have hnot := DeletedAt.not_active hG hd
    cases q with
    | createDocument => obtain ⟨-, -, -, rfl⟩ := hc; exact ⟨rfl, rfl, rfl⟩
    | deleteDocument => obtain ⟨-, -, -, rfl⟩ := hc; exact ⟨rfl, rfl, rfl⟩
    | createVersion c =>
      obtain ⟨-, -, hactive, -, rfl⟩ := hc
      have hne : c.documentId ≠ d := fun hid => hnot (hid ▸ hactive (hid ▸ hprot))
      refine sameUnder_of_eq ?_ rfl rfl
      simp [versionsOf, addVersion, CreateDocumentVersion.row, hne]
    | publishVersion d' v f at' =>
      obtain ⟨x, -, -, ⟨-, rfl⟩ | ⟨y, -, -, -, -, -, rfl⟩⟩ := hc
      · exact sameUnder_of_eq (versionsOf_setVersion (sets_publish at' f) d d' v) rfl rfl
      · refine sameUnder_of_eq ?_ rfl rfl
        rw [versionsOf_setVersion (sets_publish at' f), versionsOf_setVersion (sets_closeAt f at')]
    | withdrawVersion d' v e at' =>
      obtain ⟨x, -, -, -, -, rfl⟩ := hc
      exact sameUnder_of_eq (versionsOf_setVersion (sets_withdraw e at') d d' v) rfl rfl
    | archiveVersion d' v at' =>
      obtain ⟨x, -, -, -, rfl⟩ := hc
      exact sameUnder_of_eq (versionsOf_setVersion (sets_archive at') d d' v) rfl rfl
    | createArtifact d' c => exact absurd hq (hreq d' c)
    | upload c id actor at' =>
      obtain ⟨-, -, hactive, ⟨x, hx, hxid, hxd, -⟩, -, rfl⟩ := hc
      have hne : c.documentId ≠ d := fun hid => hnot (hid ▸ hactive)
      -- the version belongs to the other document
      have hout : c.documentVersionId ∉ db.versionsOf d := by
        intro hin
        obtain ⟨y, hy, hyid⟩ := List.mem_map.1 hin
        obtain ⟨hy, hyd⟩ := List.mem_filter.1 hy
        have hyx := version_eq hG.admissible.keys hy hx (hyid.trans hxid.symm)
        exact hne (hxd.symm.trans ((congrArg _ hyx).symm.trans (of_decide_eq_true hyd)))
      refine ⟨rfl, ?_, rfl⟩
      have hsame : (db.addArtifact (c.artifact settings id actor at').row).versionsOf d = db.versionsOf d := rfl
      rw [artifactsUnder, hsame]
      simp [artifactsUnder, KnowledgeDb.addArtifact, UploadDocumentArtifact.artifact, CreateDocumentArtifact.row, hout]
    | grantAcl c =>
      obtain ⟨-, -, hactive, -, rfl⟩ := hc
      have hne : c.documentId ≠ d := fun hid => hnot (hid ▸ hactive)
      refine sameUnder_of_eq rfl rfl ?_
      simp [grantsOf, addGrant, CreateDocumentAclGrant.row, hne]
    | revokeAcl d' g actor at' =>
      obtain ⟨x, -, -, -, -, -, rfl⟩ := hc
      exact sameUnder_of_eq rfl rfl (map_filter_mapWhere (fun _ => rfl) fun _ => rfl)

/-- the requests other than `create_artifact`, which does not look at the document -/
def withoutCreateArtifact : Set Request := {q | ∀ d c, q ≠ .createArtifact d c}

/-- **Nothing is added under a deleted document**, in every run in which it is not deleted while a session that has read it
as active without a lock is still going on; and the time of its deletion stays. -/
theorem document_frozen (settings : UploadSettings) (db : KnowledgeDb) (hadm : db.Admissible) (hversions : db.versions = [])
    (d : Uuid) (s : State) (hs : CarefulRun settings withoutCreateArtifact {.document d} db s) (t : Time)
    (hd : s.db.DeletedAt d t) (ops : List (Op Tx))
    (hops : Admissible (step Lock.Conflicts) (Careful settings withoutCreateArtifact {.document d}) s ops) :
    let s' := run (step Lock.Conflicts) s ops
    s'.db.DeletedAt d t ∧ SameUnder d s.db s'.db := by
  intro s'
  refine careful_rule (good_of_no_versions hadm hversions) hs (P := fun b => b.DeletedAt d t ∧ SameUnder d s.db b)
    (fun a r L b hG hc ha => ?_) ⟨hd, rfl, rfl, rfl⟩ hops
  have hreq : ∀ d' c, Request.createArtifact d' c ∉ withoutCreateArtifact := fun d' c hq => hq d' c rfl
  have hsame := sameUnder_step (Set.mem_singleton _) hG hreq hc ha.1
  exact ⟨hc.deletedAt ha.1, hsame.versions.trans ha.2.versions, hsame.artifacts.trans ha.2.artifacts, hsame.grants.trans ha.2.grants⟩

/-- document 1 gets a version and is deleted; three more requests are still to come -/
def deletedRequests : List Request :=
  [.createVersion ⟨2, 1, "1.0", none, [], 5⟩, .deleteDocument 1 8, .createVersion ⟨3, 1, "2.0", none, [], 9⟩,
    .upload ⟨1, 2, "a", "en", "text", none, "text/plain", [65], none⟩ 6 9 9, .grantAcl ⟨7, 1, 9, .read, 9, 9, none⟩]

def deleting : List (Op Tx) :=
  Transaction.schedule (deletedRequests.map (·.txn textUploads)) (List.replicate 3 0 ++ List.replicate 3 1)

def deleted : State := run (step Lock.Conflicts) (Sys.init oneDocument) deleting

def additions : List (Op Tx) := (List.replicate 3 2 ++ List.replicate 8 3 ++ List.replicate 7 4).map .exec

theorem document_frozen_one :
    (run (step Lock.Conflicts) deleted additions).db.DeletedAt 1 8 ∧
      (run (step Lock.Conflicts) deleted additions).db.versionsOf 1 = [2] := by
  have hstart : ∀ i p, Op.start i p ∈ deleting → Begins textUploads withoutCreateArtifact p := fun i p hp => by
    refine of_start_mem_schedule (fun p hp => ?_) hp
    obtain ⟨q, hq, rfl⟩ := List.mem_map.1 hp
    refine .inl ⟨q, fun d c hc => ?_, rfl⟩
    simp [hc, deletedRequests] at hq
  have hs : CarefulRun textUploads withoutCreateArtifact {.document 1} oneDocument deleted :=
    run_of_admissible (careful_of_unnoted (by decide +kernel) hstart)
  have hops : Admissible (step Lock.Conflicts) (Careful textUploads withoutCreateArtifact {.document 1}) deleted
      additions := careful_of_unnoted (by decide +kernel) fun i p hp => by simp [additions] at hp
  have hversions : deleted.db.versionsOf 1 = [2] := by decide +kernel
  obtain ⟨hd, hsame⟩ := document_frozen textUploads oneDocument oneDocument_admissible rfl 1 deleted hs 8
    (by decide +kernel) additions hops
  exact ⟨hd, hsame.versions.trans hversions⟩

/-- `create_version` reads document 1 as active; the document is deleted; the version is about to be committed -/
def deletedMeanwhile : State :=
  run (step Lock.Conflicts) (Sys.init oneDocument) (Transaction.schedule
    [(Request.createVersion ⟨2, 1, "1.0", none, [], 5⟩).txn textUploads, (Request.deleteDocument 1 8).txn textUploads]
    ([0] ++ List.replicate 3 1 ++ [0]))

/-- a schedule in which a version is added to a deleted document -/
theorem version_after_deletion :
    Run (step Lock.Conflicts) (Starts (Begins textUploads withoutCreateArtifact)) (Sys.init oneDocument)
        deletedMeanwhile ∧
      deletedMeanwhile.db.DeletedAt 1 8 ∧ deletedMeanwhile.db.versionsOf 1 = [] ∧
      (step Lock.Conflicts deletedMeanwhile (.exec 0)).db.versionsOf 1 = [2] := by
  refine ⟨run_of_admissible (schedule_admissible (fun p hp => ?_) _ _), by decide +kernel, by decide +kernel,
    by decide +kernel⟩
  simp only [List.mem_cons, List.not_mem_nil, or_false] at hp
  rcases hp with rfl | rfl <;> exact .inl ⟨_, (fun d c hc => by cases hc), rfl⟩

end AtlasRag.Knowledge
