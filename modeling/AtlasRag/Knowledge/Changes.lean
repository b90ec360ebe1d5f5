/-
What committed knowledge transactions do, under any interleaving.

`Good` is the invariant: what the schema enforces, and how the effective periods of the versions of a document follow one
another. `Change` says for each request what its commit does to the database, with the locks it holds and the facts that its
checks have established and that still hold then.

A row that was read without a lock may be changed before the transaction ends. `protect` is a set of rows for which that is
assumed away: `Clash` counts an UPDATE of such a row as excluded while another session has it noted. Nothing is assumed
where `protect` is empty.

Results:
- `Change.keeps`: what a commit leaves, given the locks it holds;
- `Meanwhile.still`: what is left of the database as long as a session holds its locks;
- `Change.good`: every change keeps the invariant.
-/
import AtlasRag.Identity.Safety
import AtlasRag.Knowledge.Transactions

namespace AtlasRag.Knowledge

open AtlasRag.Lib AtlasRag.Lib.Table AtlasRag.Platform
open KnowledgeDb

/-! ## The invariant and the guarantee -/

structure Good (db : KnowledgeDb) : Prop where
  admissible : db.Admissible
  /-- a draft has no effective period -/
  drafts : ∀ v ∈ db.versions, v.status = .draft → v.effectiveFrom = none ∧ v.effectiveTo = none
  /-- a published version ends only where another one begins -/
  successors : ∀ v ∈ db.versions, v.status = .published → ∀ x ∈ v.effectiveTo,
    ∃ w ∈ db.versions, w.documentId = v.documentId ∧ w.effectiveFrom = some x

/-- an UPDATE of a version: the row, and the locks held for it -/
structure Written (L : Set Lock) (db : KnowledgeDb) (d v : Uuid) (status : DocumentVersionStatus)
    (set : DocumentVersion → DocumentVersion) (x : DocumentVersion) : Prop where
  mem : x ∈ db.versions
  id : x.id = v
  document : x.documentId = d
  status : x.status = status
  row : L (.row (.version v) .noKeyUpdate)
  period : ∀ l ∈ (set x).periodLock, L l

/-- what the commit of a request does -/
def Change (settings : UploadSettings) (protect : Set Row) (q : Request) (o : Outcome) (L : Set Lock)
    (db db' : KnowledgeDb) : Prop :=
  match q with
  | .createDocument c => (∀ k ∈ c.row.keys, L (.key k)) ∧ db.documentViolations c.row = [] ∧ o = .document c.row ∧
      db' = db.addDocument c.row
  | .deleteDocument d at' => L (.row (.document d) .noKeyUpdate) ∧ db.Active d ∧ o = .done ∧ db' = db.softDelete d at'
  | .createVersion c => (∀ k ∈ c.row.keys, L (.key k)) ∧ db.newVersionViolations c.row = [] ∧
      (.document c.documentId ∈ protect → db.Active c.documentId) ∧ o = .version c.row ∧ db' = db.addVersion c.row
  | .publishVersion d v f at' => ∃ x, Written L db d v .draft (.publish at' f) x ∧ o = .version (x.publish at' f) ∧
      (db.versionViolations (x.publish at' f) = [] ∧ db' = db.setVersion d v (.publish at' f) ∨
        ∃ w, Written L db d w.id .published (.closeAt f at') w ∧ w.effectiveTo = none ∧ (∃ g ∈ w.effectiveFrom, g < f) ∧
          db.versionViolations (w.closeAt f at') = [] ∧
          (db.setVersion d w.id (.closeAt f at')).versionViolations (x.publish at' f) = [] ∧
          db' = (db.setVersion d w.id (.closeAt f at')).setVersion d v (.publish at' f))
  | .withdrawVersion d v e at' => ∃ x, Written L db d v .published (.withdraw e at') x ∧ (∃ f ∈ x.effectiveFrom, f < e) ∧
      db.versionViolations (x.withdraw e at') = [] ∧ o = .version (x.withdraw e at') ∧
      db' = db.setVersion d v (.withdraw e at')
  | .archiveVersion d v at' => ∃ x, Written L db d v .withdrawn (.archive at') x ∧
      db.versionViolations (x.archive at') = [] ∧ o = .version (x.archive at') ∧ db' = db.setVersion d v (.archive at')
  | .createArtifact _ c => (∀ k ∈ c.row.keys, L (.key k)) ∧ db.artifactViolations c.row = [] ∧
      (.version c.documentVersionId ∈ protect → db.Draft c.documentVersionId) ∧ o = .artifact c.row ∧
      db' = db.addArtifact c.row
  | .upload c id actor at' => (∀ k ∈ (c.artifact settings id actor at').row.keys, L (.key k)) ∧
      db.artifactViolations (c.artifact settings id actor at').row = [] ∧ db.Active c.documentId ∧
      (∃ x ∈ db.versions, x.id = c.documentVersionId ∧ x.documentId = c.documentId ∧ x.status = .draft) ∧
      o = .uploaded (c.uploaded id) ∧ db' = db.addArtifact (c.artifact settings id actor at').row
  | .grantAcl c => (∀ k ∈ c.row.keys, L (.key k)) ∧ db.grantViolations c.row = [] ∧ db.Active c.documentId ∧
      o = .grant c.row ∧ db' = db.addGrant c.row
  | .revokeAcl d g actor at' => ∃ x ∈ db.acl, x.Revocable d g ∧ (x.revoke actor at').defects = [] ∧
      L (.row (.grant g) .noKeyUpdate) ∧ o = .done ∧ db' = db.revokeGrant d g actor at'

/-- what a commit does, where only the given `requests` are made -/
def Commit (settings : UploadSettings) (requests : Set Request) (protect : Set Row) :
    Answer → Set Lock → KnowledgeDb → KnowledgeDb → Prop
  | .knowledge reply, L, db, db' => reply.request ∈ requests ∧
      Change settings protect reply.request reply.outcome L db db'
  | .iam reply, L, db, db' => db'.iam.Admissible ∧ Identity.Change False reply (fun x => L (.iam x)) db.iam db'.iam ∧
      db' = db.setIam db'.iam

/-- locks that one session does not hold at a commit while another holds its own -/
def Clash (protect : Set Row) (x y : Lock) : Prop :=
  x.Conflicts y ∨ ∃ r ∈ protect, x = .row r .noKeyUpdate ∧ y = .row r .noted

/-- the row is locked so that nobody else updates it -/
def Guards (protect : Set Row) (r : Row) (L : Set Lock) : Prop :=
  ∃ s, L (.row r s) ∧ Clash protect (.row r .noKeyUpdate) (.row r s)

theorem guards_update {protect : Set Row} {r : Row} {L : Set Lock} (h : L (.row r .update)) : Guards protect r L :=
  ⟨.update, h, .inl (decide_eq_true ⟨rfl, rfl⟩)⟩

theorem guards_noKeyUpdate {protect : Set Row} {r : Row} {L : Set Lock} (h : L (.row r .noKeyUpdate)) :
    Guards protect r L :=
  ⟨.noKeyUpdate, h, .inl (decide_eq_true ⟨rfl, rfl⟩)⟩

theorem guards_noted {protect : Set Row} {r : Row} {L : Set Lock} (h : L (.row r .noted)) (hr : r ∈ protect) :
    Guards protect r L :=
  ⟨.noted, h, .inr ⟨r, hr, rfl, rfl⟩⟩

theorem Guards.mono {protect : Set Row} {r : Row} {L L' : Set Lock} (h : Guards protect r L) (hL : L ≤ L') :
    Guards protect r L' := by
  obtain ⟨s, hs, hclash⟩ := h
  exact ⟨s, hL hs, hclash⟩

/-- interference by other transactions, while the locks `L` are held -/
abbrev Meanwhile (settings : UploadSettings) (requests : Set Request) (protect : Set Row) (L : Set Lock) :
    KnowledgeDb → KnowledgeDb → Prop :=
  LockMode.Meanwhile (Clash protect) Good (Commit settings requests protect) L

variable {settings : UploadSettings} {requests : Set Request} {protect : Set Row} {q : Request} {o : Outcome} {r : Answer}
  {L M : Set Lock}
  {db db' : KnowledgeDb}

/-! ## The tables after a write -/

theorem keys_addDocument (d : Document) : (db.addDocument d).keys.Perm (db.keys ++ d.keys) := by
  rw [List.perm_iff_count]
  intro k
  simp only [KnowledgeDb.keys, addDocument, List.flatMap_append, List.flatMap_singleton, List.count_append]
  omega

theorem keys_addGrant (g : DocumentACL) : (db.addGrant g).keys.Perm (db.keys ++ g.keys) := by
  rw [List.perm_iff_count]
  intro k
  simp only [KnowledgeDb.keys, addGrant, List.flatMap_append, List.flatMap_singleton, List.count_append]
  omega

theorem keys_addVersion (v : DocumentVersion) : (db.addVersion v).keys.Perm (db.keys ++ v.keys) := by
  rw [List.perm_iff_count]
  intro k
  simp only [KnowledgeDb.keys, addVersion, List.flatMap_append, List.flatMap_singleton, List.count_append]
  omega

theorem keys_addArtifact (a : DocumentArtifact) : (db.addArtifact a).keys.Perm (db.keys ++ a.keys) := by
  rw [List.perm_iff_count]
  intro k
  simp only [KnowledgeDb.keys, KnowledgeDb.addArtifact, List.flatMap_append, List.flatMap_singleton, List.count_append]
  omega

theorem keys_softDelete (d : Uuid) (t : Time) : (db.softDelete d t).keys = db.keys := by
  have hdocuments : (db.softDelete d t).documents.flatMap Document.keys = db.documents.flatMap Document.keys :=
    flatMap_mapWhere fun _ => rfl
  rw [KnowledgeDb.keys, hdocuments]
  rfl

theorem keys_revokeGrant (d g actor : Uuid) (t : Time) : (db.revokeGrant d g actor t).keys.Sublist db.keys := by
  have hacl : ((db.revokeGrant d g actor t).acl.flatMap DocumentACL.keys).Sublist (db.acl.flatMap DocumentACL.keys) := by
    refine flatMap_mapWhere_sublist fun x => ?_
    simp only [DocumentACL.keys, DocumentACL.revoke, reduceCtorEq, if_false]
    exact List.Sublist.cons_cons _ (List.nil_sublist _)
  exact (((List.Sublist.refl _).append hacl).append (List.Sublist.refl _)).append (List.Sublist.refl _)

/-- the columns of a version that no UPDATE sets -/
structure Sets (set : DocumentVersion → DocumentVersion) : Prop where
  id : ∀ x, (set x).id = x.id
  document : ∀ x, (set x).documentId = x.documentId
  label : ∀ x, (set x).versionLabel = x.versionLabel

theorem sets_publish (at' f : Time) : Sets (.publish at' f) := ⟨fun _ => rfl, fun _ => rfl, fun _ => rfl⟩

theorem sets_closeAt (f at' : Time) : Sets (.closeAt f at') := ⟨fun _ => rfl, fun _ => rfl, fun _ => rfl⟩

theorem sets_withdraw (e at' : Time) : Sets (.withdraw e at') := ⟨fun _ => rfl, fun _ => rfl, fun _ => rfl⟩

theorem sets_archive (at' : Time) : Sets (.archive at') := ⟨fun _ => rfl, fun _ => rfl, fun _ => rfl⟩

theorem keys_setVersion {set : DocumentVersion → DocumentVersion} (hset : Sets set) (d v : Uuid) :
    (db.setVersion d v set).keys = db.keys := by
  have hkeys : ∀ x : DocumentVersion, (set x).keys = x.keys := fun x => by
    rw [DocumentVersion.keys, DocumentVersion.keys, hset.id, hset.document, hset.label]
  have hversions : (db.setVersion d v set).versions.flatMap DocumentVersion.keys =
      db.versions.flatMap DocumentVersion.keys := flatMap_mapWhere hkeys
  rw [KnowledgeDb.keys, hversions]
  rfl

/-- the rows after an UPDATE by key -/
theorem mem_setVersion (h : db.keys.Nodup) {x : DocumentVersion} (hx : x ∈ db.versions)
    {set : DocumentVersion → DocumentVersion} {y : DocumentVersion} :
    y ∈ (db.setVersion x.documentId x.id set).versions ↔ y = set x ∨ (y ∈ db.versions ∧ y ≠ x) := by
  have hpin : ∀ z ∈ db.versions, (z.id = x.id ∧ z.documentId = x.documentId) ↔ z = x := fun z hz =>
    ⟨fun hid => version_eq h hz hx hid.1, fun hzx => by rw [hzx]; exact ⟨rfl, rfl⟩⟩
  rw [setVersion, mem_mapWhere]
  refine or_congr ⟨?_, ?_⟩ (and_congr_right fun hy => not_congr (hpin y hy))
  · rintro ⟨z, hz, hid, rfl⟩
    rw [(hpin z hz).1 hid]
  · rintro rfl
    exact ⟨x, hx, ⟨rfl, rfl⟩, rfl⟩

theorem versionIds_setVersion {set : DocumentVersion → DocumentVersion} (hset : Sets set) (d v : Uuid) :
    (db.setVersion d v set).versions.map (·.id) = db.versions.map (·.id) :=
  map_mapWhere _ hset.id

theorem documentIds_softDelete (d : Uuid) (t : Time) :
    (db.softDelete d t).documents.map (·.id) = db.documents.map (·.id) := map_mapWhere _ fun _ => rfl

/-! ## What a commit leaves -/

/-- no row is removed, and what is changed or added is locked -/
structure Keeps (L : Set Lock) (db db' : KnowledgeDb) : Prop where
  principals : db'.iam.principals.map (·.id) = db.iam.principals.map (·.id)
  documentIds : ∀ x ∈ db.documents.map (·.id), x ∈ db'.documents.map (·.id)
  versionIds : ∀ x ∈ db.versions.map (·.id), x ∈ db'.versions.map (·.id)
  keys : ∀ k ∈ db'.keys, k ∈ db.keys ∨ L (.key k)
  documents : ∀ x ∈ db.documents, x ∈ db'.documents ∨ L (.row (.document x.id) .noKeyUpdate)
  versions : ∀ x ∈ db.versions, x ∈ db'.versions ∨ L (.row (.version x.id) .noKeyUpdate)
  periods : ∀ x ∈ db'.versions, x ∈ db.versions ∨ ∀ l ∈ x.periodLock, L l
  grants : ∀ x ∈ db.acl, x ∈ db'.acl ∨ L (.row (.grant x.id) .noKeyUpdate)

theorem keeps_addDocument {d : Document} (hk : ∀ k ∈ d.keys, L (.key k)) : Keeps L db (db.addDocument d) where
  principals := rfl
  documentIds x hx := by rw [addDocument, List.map_append]; exact List.mem_append_left _ hx
  versionIds _ hx := hx
  keys k hkey := (List.mem_append.1 ((keys_addDocument d).mem_iff.1 hkey)).imp_right (hk k)
  documents _ hx := .inl (List.mem_append_left _ hx)
  versions _ hx := .inl hx
  periods _ hx := .inl hx
  grants _ hx := .inl hx

theorem keeps_addGrant {g : DocumentACL} (hk : ∀ k ∈ g.keys, L (.key k)) : Keeps L db (db.addGrant g) where
  principals := rfl
  documentIds _ hx := hx
  versionIds _ hx := hx
  keys k hkey := (List.mem_append.1 ((keys_addGrant g).mem_iff.1 hkey)).imp_right (hk k)
  documents _ hx := .inl hx
  versions _ hx := .inl hx
  periods _ hx := .inl hx
  grants _ hx := .inl (List.mem_append_left _ hx)

theorem keeps_addVersion {v : DocumentVersion} (hk : ∀ k ∈ v.keys, L (.key k)) (hv : v.effectiveFrom = none) :
    Keeps L db (db.addVersion v) where
  principals := rfl
  documentIds _ hx := hx
  versionIds x hx := by rw [addVersion, List.map_append]; exact List.mem_append_left _ hx
  keys k hkey := (List.mem_append.1 ((keys_addVersion v).mem_iff.1 hkey)).imp_right (hk k)
  documents _ hx := .inl hx
  versions _ hx := .inl (List.mem_append_left _ hx)
  periods x hx := (List.mem_append.1 hx).imp_right fun hx => by
    rw [List.mem_singleton.1 hx, DocumentVersion.periodLock, hv]
    intro l hl
    cases hl
  grants _ hx := .inl hx

theorem keeps_addArtifact {a : DocumentArtifact} (hk : ∀ k ∈ a.keys, L (.key k)) : Keeps L db (db.addArtifact a) where
  principals := rfl
  documentIds _ hx := hx
  versionIds _ hx := hx
  keys k hkey := (List.mem_append.1 ((keys_addArtifact a).mem_iff.1 hkey)).imp_right (hk k)
  documents _ hx := .inl hx
  versions _ hx := .inl hx
  periods _ hx := .inl hx
  grants _ hx := .inl hx

theorem keeps_softDelete {d : Uuid} {t : Time} (hd : L (.row (.document d) .noKeyUpdate)) :
    Keeps L db (db.softDelete d t) where
  principals := rfl
  documentIds x hx := by rw [documentIds_softDelete]; exact hx
  versionIds _ hx := hx
  keys k hkey := by rw [keys_softDelete] at hkey; exact .inl hkey
  documents x hx := by
    by_cases hxd : x.id = d ∧ x.deletedAt = none
    · exact .inr (hxd.1 ▸ hd)
    · exact .inl (mem_mapWhere.2 (.inr ⟨hx, hxd⟩))
  versions _ hx := .inl hx
  periods _ hx := .inl hx
  grants _ hx := .inl hx

theorem keeps_revokeGrant {d g actor : Uuid} {t : Time} (hg : L (.row (.grant g) .noKeyUpdate)) :
    Keeps L db (db.revokeGrant d g actor t) where
  principals := rfl
  documentIds _ hx := hx
  versionIds _ hx := hx
  keys k hkey := .inl ((keys_revokeGrant d g actor t).subset hkey)
  documents _ hx := .inl hx
  versions _ hx := .inl hx
  periods _ hx := .inl hx
  grants x hx := by
    by_cases hxg : x.Revocable d g
    · exact .inr (hxg.2.1 ▸ hg)
    · exact .inl (mem_mapWhere.2 (.inr ⟨hx, hxg⟩))

theorem keeps_setVersion (h : db.keys.Nodup) {d v : Uuid} {status : DocumentVersionStatus}
    {set : DocumentVersion → DocumentVersion} (hset : Sets set) {x : DocumentVersion} (hx : Written L db d v status set x) :
    Keeps L db (db.setVersion d v set) := by
  obtain ⟨hmem, rfl, rfl, -, hrow, hperiod⟩ := hx
  refine ⟨rfl, fun _ hy => hy, fun y hy => ?_, fun k hk => ?_, fun _ hy => .inl hy, fun y hy => ?_, fun y hy => ?_,
    fun _ hy => .inl hy⟩
  · rw [versionIds_setVersion hset]; exact hy
  · rw [keys_setVersion hset] at hk; exact .inl hk
  · by_cases hyx : y = x
    · exact .inr (hyx ▸ hrow)
    · exact .inl ((mem_setVersion h hmem).2 (.inr ⟨hy, hyx⟩))
  · rcases (mem_setVersion h hmem).1 hy with hyx | hyx
    · exact .inr (hyx ▸ hperiod)
    · exact .inl hyx.1

theorem Keeps.trans {db'' : KnowledgeDb} (h : Keeps L db db') (h' : Keeps L db' db'') : Keeps L db db'' where
  principals := h'.principals.trans h.principals
  documentIds x hx := h'.documentIds x (h.documentIds x hx)
  versionIds x hx := h'.versionIds x (h.versionIds x hx)
  keys k hk := (h'.keys k hk).elim (h.keys k) .inr
  documents x hx := (h.documents x hx).elim (h'.documents x) .inr
  versions x hx := (h.versions x hx).elim (h'.versions x) .inr
  periods x hx := (h'.periods x hx).elim (h.periods x) .inr
  grants x hx := (h.grants x hx).elim (h'.grants x) .inr

theorem Written.later {d v : Uuid} {status : DocumentVersionStatus} {set : DocumentVersion → DocumentVersion}
    {x : DocumentVersion} (h : Written L db d v status set x) (hx : x ∈ db'.versions) : Written L db' d v status set x :=
  ⟨hx, h.id, h.document, h.status, h.row, h.period⟩

/-- an UPDATE of one version leaves another -/
theorem Written.mem_setVersion (hk : db.keys.Nodup) {d v v' : Uuid} {status status' : DocumentVersionStatus}
    {set set' : DocumentVersion → DocumentVersion} {x w : DocumentVersion} (hx : Written L db d v status set x)
    (hw : Written L db d v' status' set' w) (hne : status ≠ status') : x ∈ (db.setVersion d v' set').versions := by
  obtain ⟨hmem, rfl, rfl, hst, -, -⟩ := hw
  refine (Knowledge.mem_setVersion hk hmem).2 (.inr ⟨hx.mem, ?_⟩)
  rintro rfl
  exact hne (hx.status.symm.trans hst)

theorem Change.keeps (hG : Good db) (h : Change settings protect q o L db db') : Keeps L db db' := by
  have hkeys := hG.admissible.keys
  cases q with
  | createDocument c => obtain ⟨hk, -, -, rfl⟩ := h; exact keeps_addDocument hk
  | deleteDocument d at' => obtain ⟨hd, -, -, rfl⟩ := h; exact keeps_softDelete hd
  | createVersion c => obtain ⟨hk, -, -, -, rfl⟩ := h; exact keeps_addVersion hk rfl
  | publishVersion d v f at' =>
    obtain ⟨x, hx, -, ⟨-, rfl⟩ | ⟨w, hw, -, -, -, -, rfl⟩⟩ := h
    · exact keeps_setVersion hkeys (sets_publish at' f) hx
    · have hclosed := keeps_setVersion hkeys (sets_closeAt f at') hw
      have hkeys' : (db.setVersion d w.id (.closeAt f at')).keys.Nodup := by
        rw [keys_setVersion (sets_closeAt f at')]; exact hkeys
      exact hclosed.trans (keeps_setVersion hkeys' (sets_publish at' f) (hx.later (hx.mem_setVersion hkeys hw (by decide))))
  | withdrawVersion d v e at' =>
    obtain ⟨x, hx, -, -, -, rfl⟩ := h
    exact keeps_setVersion hkeys (sets_withdraw e at') hx
  | archiveVersion d v at' =>
    obtain ⟨x, hx, -, -, rfl⟩ := h
    exact keeps_setVersion hkeys (sets_archive at') hx
  | createArtifact d c => obtain ⟨hk, -, -, -, rfl⟩ := h; exact keeps_addArtifact hk
  | upload c id actor at' => obtain ⟨hk, -, -, -, -, rfl⟩ := h; exact keeps_addArtifact hk
  | grantAcl c => obtain ⟨hk, -, -, -, rfl⟩ := h; exact keeps_addGrant hk
  | revokeAcl d g actor at' => obtain ⟨x, -, -, -, hg, -, rfl⟩ := h; exact keeps_revokeGrant hg

theorem Commit.keeps (hG : Good db) (h : Commit settings requests protect r L db db') : Keeps L db db' := by
  cases r with
  | knowledge reply => exact Change.keeps hG h.2
  | iam reply =>
    obtain ⟨-, hc, heq⟩ := h
    have hids : db'.iam.principals.map (·.id) = db.iam.principals.map (·.id) := hc.static.map_principals (·.1)
    rw [heq]
    exact ⟨hids, fun _ hx => hx, fun _ hx => hx, fun _ hk => .inl hk, fun _ hx => .inl hx, fun _ hx => .inl hx,
      fun _ hx => .inl hx, fun _ hx => .inl hx⟩

/-! ## What is left while locks are held -/

structure Still (protect : Set Row) (L : Set Lock) (db db' : KnowledgeDb) : Prop where
  principals : db'.iam.principals.map (·.id) = db.iam.principals.map (·.id)
  documentIds : ∀ x ∈ db.documents.map (·.id), x ∈ db'.documents.map (·.id)
  versionIds : ∀ x ∈ db.versions.map (·.id), x ∈ db'.versions.map (·.id)
  keys : ∀ k, L (.key k) → k ∉ db.keys → k ∉ db'.keys
  documents : ∀ x ∈ db.documents, Guards protect (.document x.id) L → x ∈ db'.documents
  versions : ∀ x ∈ db.versions, Guards protect (.version x.id) L → x ∈ db'.versions
  /-- no effective period is written where the session holds one -/
  periods : ∀ p : DocumentVersion, (∀ l ∈ p.periodLock, L l) → ∀ x ∈ db'.versions, x.documentId = p.documentId →
    x.Overlaps p → x ∈ db.versions
  grants : ∀ x ∈ db.acl, Guards protect (.grant x.id) L → x ∈ db'.acl

theorem not_guarded (hM : ∀ x y, M x → L y → ¬ Clash protect x y) {x : Row} (hx : M (.row x .noKeyUpdate)) :
    ¬ Guards protect x L := fun ⟨_, hs, hclash⟩ => hM _ _ hx hs hclash

/-- overlapping periods of a document are not locked by two sessions -/
theorem not_overlaps (hM : ∀ x y, M x → L y → ¬ Clash protect x y) {p x : DocumentVersion} (hp : ∀ l ∈ p.periodLock, L l)
    (hx : ∀ l ∈ x.periodLock, M l) (hd : x.documentId = p.documentId) : ¬ x.Overlaps p := by
  rintro ⟨f, hf, g, hg, hfp, hgx⟩
  have hlx : .period x.documentId f x.effectiveTo ∈ x.periodLock := by
    simp [DocumentVersion.periodLock, Option.mem_def.1 hf]
  have hlp : .period p.documentId g p.effectiveTo ∈ p.periodLock := by
    simp [DocumentVersion.periodLock, Option.mem_def.1 hg]
  exact hM _ _ (hx _ hlx) (hp _ hlp) (.inl (decide_eq_true ⟨hd, hfp, hgx⟩))

/-- **What is left** while a session holds its locks. -/
theorem Meanwhile.still (h : Meanwhile settings requests protect L db db') : Still protect L db db' := by
  refine LockMode.Meanwhile.preserves h (P := Still protect L db) (fun a b r M hG hM hc ha => ?_) ?_
  · have hk := Commit.keeps hG hc
    refine ⟨hk.principals.trans ha.principals, fun x hx => hk.documentIds x (ha.documentIds x hx),
      fun x hx => hk.versionIds x (ha.versionIds x hx), fun k hL hdb hb => ?_, fun x hx hg => ?_, fun x hx hg => ?_,
      fun p hp x hx hd hov => ?_, fun x hx hg => ?_⟩
    · rcases hk.keys k hb with hka | hMk
      · exact ha.keys k hL hdb hka
      · exact hM _ _ hMk hL (.inl (decide_eq_true rfl))
    · exact (hk.documents x (ha.documents x hx hg)).resolve_right fun hx => not_guarded hM hx hg
    · exact (hk.versions x (ha.versions x hx hg)).resolve_right fun hx => not_guarded hM hx hg
    · rcases hk.periods x hx with hxa | hxM
      · exact ha.periods p hp x hxa hd hov
      · exact absurd hov (not_overlaps hM hp hxM hd)
    · exact (hk.grants x (ha.grants x hx hg)).resolve_right fun hx => not_guarded hM hx hg
  · exact ⟨rfl, fun _ hx => hx, fun _ hx => hx, fun _ _ hk => hk, fun _ hx _ => hx, fun _ hx _ => hx,
      fun _ _ _ hx _ _ => hx, fun _ hx _ => hx⟩

section Still

variable (h : Still protect L db db')
include h

theorem Still.principalExists {p : Uuid} (hp : db.PrincipalExists p) : db'.PrincipalExists p := by
  unfold PrincipalExists
  rw [h.principals]
  exact hp

theorem Still.active {d : Uuid} (hd : db.Active d) (hg : Guards protect (.document d) L) : db'.Active d := by
  obtain ⟨x, hx, rfl, hdel⟩ := hd
  exact ⟨x, h.documents x hx hg, rfl, hdel⟩

theorem Still.draft {v : Uuid} (hv : db.Draft v) (hg : Guards protect (.version v) L) : db'.Draft v := by
  obtain ⟨x, hx, rfl, hst⟩ := hv
  exact ⟨x, h.versions x hx hg, rfl, hst⟩

/-- a row that could be added, whose keys are locked, still can be -/
theorem Still.documentViolations {d : Document} (hk : ∀ k ∈ d.keys, L (.key k)) (hv : db.documentViolations d = []) :
    db'.documentViolations d = [] := by
  simp only [KnowledgeDb.documentViolations, List.append_eq_nil_iff, uniqueIndex_eq_nil, reference_eq_nil] at hv ⊢
  obtain ⟨⟨⟨hdef, hid⟩, hkey⟩, hcreator⟩ := hv
  refine ⟨⟨⟨hdef, h.keys _ (hk _ (by simp [Document.keys])) hid⟩, h.keys _ (hk _ (by simp [Document.keys])) hkey⟩, ?_⟩
  exact fun p hp => h.principalExists (hcreator p hp)

theorem Still.grantViolations {g : DocumentACL} (hopen : g.revokedAt = none) (hk : ∀ k ∈ g.keys, L (.key k))
    (hv : db.grantViolations g = []) : db'.grantViolations g = [] := by
  simp only [KnowledgeDb.grantViolations, List.append_eq_nil_iff, uniqueIndex_eq_nil, reference_eq_nil] at hv ⊢
  obtain ⟨⟨⟨⟨⟨hdef, hid⟩, hkey⟩, hdoc⟩, hp⟩, hby⟩ := hv
  refine ⟨⟨⟨⟨⟨hdef, h.keys _ (hk _ ?_) hid⟩, h.keys _ (hk _ ?_) hkey⟩, h.documentIds _ hdoc⟩, h.principalExists hp⟩,
    fun p hp => h.principalExists (hby p hp)⟩
  · simp [DocumentACL.keys]
  · simp [DocumentACL.keys, hopen]

theorem Still.versionViolations {v : DocumentVersion} (hp : ∀ l ∈ v.periodLock, L l) (hv : db.versionViolations v = []) :
    db'.versionViolations v = [] := by
  simp only [KnowledgeDb.versionViolations, List.append_eq_nil_iff, exclusionConstraint_eq_nil] at hv ⊢
  refine ⟨hv.1, ?_⟩
  rintro ⟨w, hw, hne, hd, hov⟩
  exact hv.2 ⟨w, h.periods v hp w hw hd hov, hne, hd, hov⟩

theorem Still.newVersionViolations {v : DocumentVersion} (hk : ∀ k ∈ v.keys, L (.key k)) (hfrom : v.effectiveFrom = none)
    (hv : db.newVersionViolations v = []) : db'.newVersionViolations v = [] := by
  simp only [KnowledgeDb.newVersionViolations, List.append_eq_nil_iff, uniqueIndex_eq_nil, reference_eq_nil] at hv ⊢
  obtain ⟨⟨⟨⟨hper, hid⟩, hlabel⟩, hdoc⟩, hcreator⟩ := hv
  refine ⟨⟨⟨⟨h.versionViolations (by simp [DocumentVersion.periodLock, hfrom]) hper, h.keys _ (hk _ ?_) hid⟩,
    h.keys _ (hk _ ?_) hlabel⟩, h.documentIds _ hdoc⟩, fun p hp => h.principalExists (hcreator p hp)⟩
  · simp [DocumentVersion.keys]
  · simp [DocumentVersion.keys]

theorem Still.artifactViolations {a : DocumentArtifact} (hk : ∀ k ∈ a.keys, L (.key k)) (hv : db.artifactViolations a = []) :
    db'.artifactViolations a = [] := by
  simp only [KnowledgeDb.artifactViolations, List.append_eq_nil_iff, uniqueIndex_eq_nil, reference_eq_nil] at hv ⊢
  obtain ⟨⟨⟨⟨⟨hdef, hid⟩, hkey⟩, hloc⟩, hver⟩, hcreator⟩ := hv
  refine ⟨⟨⟨⟨⟨hdef, h.keys _ (hk _ ?_) hid⟩, h.keys _ (hk _ ?_) hkey⟩, h.keys _ (hk _ ?_) hloc⟩, h.versionIds _ hver⟩,
    fun p hp => h.principalExists (hcreator p hp)⟩
  all_goals simp [DocumentArtifact.keys]

end Still

/-! ## The invariant after a commit -/

theorem nodup_of_new {ks : List Key} (h : db.keys.Nodup) (hks : ks.Nodup) (hnew : ∀ k ∈ ks, k ∉ db.keys) :
    (db.keys ++ ks).Nodup :=
  List.nodup_append'.2 ⟨h, hks, fun k hk hk' => hnew k hk' hk⟩

theorem Good.addDocument (h : Good db) {d : Document} (hv : db.documentViolations d = []) : Good (db.addDocument d) := by
  simp only [documentViolations, List.append_eq_nil_iff, uniqueIndex_eq_nil, reference_eq_nil] at hv
  obtain ⟨⟨⟨hdef, hid⟩, hkey⟩, -⟩ := hv
  have hmem : ∀ x ∈ db.documents.map (·.id), x ∈ (db.addDocument d).documents.map (·.id) :=
    (keeps_addDocument (L := fun _ => True) fun _ _ => trivial).documentIds
  refine ⟨⟨h.admissible.iam, ?_, fun x hx => ?_, fun g hg => ?_, fun v hv => ?_, h.admissible.artifacts,
    h.admissible.periods⟩, h.drafts, h.successors⟩
  · refine (keys_addDocument d).nodup_iff.2 (nodup_of_new h.admissible.keys (by simp [Document.keys]) ?_)
    simp [Document.keys, hid, hkey]
  · rcases List.mem_append.1 hx with hx | hx
    · exact h.admissible.documents x hx
    · rw [List.mem_singleton.1 hx]; exact hdef
  · exact ⟨(h.admissible.acl g hg).1, hmem _ (h.admissible.acl g hg).2⟩
  · exact ⟨(h.admissible.versions v hv).1, hmem _ (h.admissible.versions v hv).2⟩

theorem Good.addGrant (h : Good db) {g : DocumentACL} (hopen : g.revokedAt = none) (hv : db.grantViolations g = []) :
    Good (db.addGrant g) := by
  simp only [grantViolations, List.append_eq_nil_iff, uniqueIndex_eq_nil, reference_eq_nil] at hv
  obtain ⟨⟨⟨⟨⟨hdef, hid⟩, hkey⟩, hdoc⟩, -⟩, -⟩ := hv
  refine ⟨⟨h.admissible.iam, ?_, h.admissible.documents, fun x hx => ?_, h.admissible.versions, h.admissible.artifacts,
    h.admissible.periods⟩, h.drafts, h.successors⟩
  · refine (keys_addGrant g).nodup_iff.2 (nodup_of_new h.admissible.keys (by simp [DocumentACL.keys, hopen]) ?_)
    simp [DocumentACL.keys, hopen, hid, hkey]
  · rcases List.mem_append.1 hx with hx | hx
    · exact h.admissible.acl x hx
    · rw [List.mem_singleton.1 hx]; exact ⟨hdef, hdoc⟩

theorem Good.addVersion (h : Good db) {v : DocumentVersion} (hdraft : v.effectiveFrom = none ∧ v.effectiveTo = none)
    (hv : db.newVersionViolations v = []) : Good (db.addVersion v) := by
  simp only [newVersionViolations, versionViolations, List.append_eq_nil_iff, uniqueIndex_eq_nil, reference_eq_nil] at hv
  obtain ⟨⟨⟨⟨⟨hdef, -⟩, hid⟩, hlabel⟩, hdoc⟩, -⟩ := hv
  have hmem : ∀ x ∈ db.versions.map (·.id), x ∈ (db.addVersion v).versions.map (·.id) :=
    (keeps_addVersion (L := fun _ => True) (fun _ _ => trivial) hdraft.1).versionIds
  have hnone : ∀ w : DocumentVersion, ¬ v.Overlaps w := fun w ⟨f, hf, _⟩ => by rw [hdraft.1] at hf; cases hf
  have hcases : ∀ x ∈ (db.addVersion v).versions, x ∈ db.versions ∨ x = v := fun x hx =>
    (List.mem_append.1 hx).imp_right List.mem_singleton.1
  refine ⟨⟨h.admissible.iam, ?_, h.admissible.documents, h.admissible.acl, fun x hx => ?_, fun a ha => ?_,
    fun x hx y hy hne hd => ?_⟩, fun x hx hst => ?_, fun x hx hst e he => ?_⟩
  · refine (keys_addVersion v).nodup_iff.2 (nodup_of_new h.admissible.keys (by simp [DocumentVersion.keys]) ?_)
    simp [DocumentVersion.keys, hid, hlabel]
  · rcases hcases x hx with hx | hx
    · exact h.admissible.versions x hx
    · rw [hx]; exact ⟨hdef, hdoc⟩
  · exact ⟨(h.admissible.artifacts a ha).1, hmem _ (h.admissible.artifacts a ha).2⟩
  · rcases hcases x hx with hx | hx
    · rcases hcases y hy with hy | hy
      · exact h.admissible.periods x hx y hy hne hd
      · rw [hy]; exact fun hov => hnone x (DocumentVersion.overlaps_symm hov)
    · rw [hx]; exact hnone y
  · rcases hcases x hx with hx | hx
    · exact h.drafts x hx hst
    · rw [hx]; exact hdraft
  · rcases hcases x hx with hx | hx
    · obtain ⟨w, hw, hwd, hwf⟩ := h.successors x hx hst e he
      exact ⟨w, List.mem_append_left _ hw, hwd, hwf⟩
    · rw [hx, hdraft.2] at he; cases he

theorem Good.addArtifact (h : Good db) {a : DocumentArtifact} (hv : db.artifactViolations a = []) :
    Good (db.addArtifact a) := by
  simp only [artifactViolations, List.append_eq_nil_iff, uniqueIndex_eq_nil, reference_eq_nil] at hv
  obtain ⟨⟨⟨⟨⟨hdef, hid⟩, hkey⟩, hloc⟩, hver⟩, -⟩ := hv
  refine ⟨⟨h.admissible.iam, ?_, h.admissible.documents, h.admissible.acl, h.admissible.versions, fun x hx => ?_,
    h.admissible.periods⟩, h.drafts, h.successors⟩
  · refine (keys_addArtifact a).nodup_iff.2 (nodup_of_new h.admissible.keys (by simp [DocumentArtifact.keys]) ?_)
    simp [DocumentArtifact.keys, hid, hkey, hloc]
  · rcases List.mem_append.1 hx with hx | hx
    · exact h.admissible.artifacts x hx
    · rw [List.mem_singleton.1 hx]; exact ⟨hdef, hver⟩

theorem Good.softDelete (h : Good db) (d : Uuid) (t : Time) : Good (db.softDelete d t) := by
  refine ⟨⟨h.admissible.iam, ?_, fun x hx => ?_, fun g hg => ?_, fun v hv => ?_, h.admissible.artifacts,
    h.admissible.periods⟩, h.drafts, h.successors⟩
  · rw [keys_softDelete]; exact h.admissible.keys
  · rcases mem_mapWhere.1 hx with ⟨y, hy, -, rfl⟩ | ⟨hx, -⟩
    · exact h.admissible.documents y hy
    · exact h.admissible.documents x hx
  · rw [documentIds_softDelete]; exact h.admissible.acl g hg
  · rw [documentIds_softDelete]; exact h.admissible.versions v hv

theorem Good.revokeGrant (h : Good db) {d g actor : Uuid} {t : Time} {x : DocumentACL} (hx : x ∈ db.acl)
    (hxg : x.Revocable d g) (hdef : (x.revoke actor t).defects = []) : Good (db.revokeGrant d g actor t) := by
  refine ⟨⟨h.admissible.iam, (keys_revokeGrant d g actor t).nodup h.admissible.keys, h.admissible.documents,
    fun y hy => ?_, h.admissible.versions, h.admissible.artifacts, h.admissible.periods⟩, h.drafts, h.successors⟩
  rcases mem_mapWhere.1 hy with ⟨z, hz, hzg, rfl⟩ | ⟨hy, -⟩
  · have hzx : z = x := grant_eq h.admissible.keys hz hx (hzg.2.1.trans hxg.2.1.symm)
    rw [hzx]
    exact ⟨hdef, (h.admissible.acl x hx).2⟩
  · exact h.admissible.acl y hy

/-- an UPDATE of a version that the constraints accept -/
theorem admissible_setVersion (h : db.Admissible) {set : DocumentVersion → DocumentVersion} (hset : Sets set)
    {x : DocumentVersion} (hx : x ∈ db.versions) (hv : db.versionViolations (set x) = []) :
    (db.setVersion x.documentId x.id set).Admissible := by
  simp only [versionViolations, List.append_eq_nil_iff, exclusionConstraint_eq_nil] at hv
  obtain ⟨hdef, hper⟩ := hv
  have hmem : ∀ y, y ∈ (db.setVersion x.documentId x.id set).versions ↔ y = set x ∨ (y ∈ db.versions ∧ y ≠ x) :=
    fun y => mem_setVersion h.keys hx
  have hclear : ∀ y ∈ db.versions, y ≠ x → y.documentId = x.documentId → ¬ y.Overlaps (set x) := by
    intro y hy hne hd hov
    refine hper ⟨y, hy, fun hid => hne ?_, by rw [hset.document]; exact hd, hov⟩
    exact version_eq h.keys hy hx (hid.trans (hset.id x))
  refine ⟨h.iam, ?_, h.documents, h.acl, fun y hy => ?_, fun a ha => ?_, fun y hy z hz hne hd => ?_⟩
  · rw [keys_setVersion hset]; exact h.keys
  · rcases (hmem y).1 hy with rfl | ⟨hy, -⟩
    · rw [hset.document]; exact ⟨hdef, (h.versions x hx).2⟩
    · exact h.versions y hy
  · rw [versionIds_setVersion hset]; exact h.artifacts a ha
  · rcases (hmem y).1 hy with rfl | ⟨hy, hyx⟩
    · rcases (hmem z).1 hz with rfl | ⟨hz, hzx⟩
      · exact absurd rfl hne
      · intro hov
        exact hclear z hz hzx (hd.symm.trans (hset.document x)) (DocumentVersion.overlaps_symm hov)
    · rcases (hmem z).1 hz with rfl | ⟨hz, hzx⟩
      · exact hclear y hy hyx (hd.trans (hset.document x))
      · exact h.periods y hy z hz hne hd

/-- what the invariant asks of a version that was written -/
structure Follows (db : KnowledgeDb) (y : DocumentVersion) : Prop where
  draft : y.status ≠ .draft
  successor : y.status = .published → ∀ e ∈ y.effectiveTo, ∃ w ∈ db.versions, w.documentId = y.documentId ∧
    w.effectiveFrom = some e

/-- where effective periods begin -/
def KnowledgeDb.Begins (db : KnowledgeDb) (d : Uuid) (f : Time) : Prop :=
  ∃ w ∈ db.versions, w.documentId = d ∧ w.effectiveFrom = some f

/-- an UPDATE that keeps where the version begins, if it does -/
theorem begins_setVersion (h : db.keys.Nodup) {set : DocumentVersion → DocumentVersion} (hset : Sets set)
    {x : DocumentVersion} (hx : x ∈ db.versions) (hfrom : ∀ f ∈ x.effectiveFrom, (set x).effectiveFrom = some f) {d : Uuid}
    {f : Time} (hf : db.Begins d f) : (db.setVersion x.documentId x.id set).Begins d f := by
  obtain ⟨w, hw, hd, hwf⟩ := hf
  by_cases hwx : w = x
  · subst hwx
    exact ⟨set w, (mem_setVersion h hw).2 (.inl rfl), by rw [hset.document, hd], hfrom f hwf⟩
  · exact ⟨w, (mem_setVersion h hx).2 (.inr ⟨hw, hwx⟩), hd, hwf⟩

theorem Good.follow (h : Good db) (hadm : db'.Admissible) (hbegins : ∀ d f, db.Begins d f → db'.Begins d f)
    (hnew : ∀ y ∈ db'.versions, y ∈ db.versions ∨ Follows db' y) : Good db' := by
  refine ⟨hadm, fun y hy hst => ?_, fun y hy hst e he => ?_⟩
  · rcases hnew y hy with hy | hy
    · exact h.drafts y hy hst
    · exact absurd hst hy.draft
  · rcases hnew y hy with hy | hy
    · exact hbegins _ _ (h.successors y hy hst e he)
    · exact hy.successor hst e he

/-- an UPDATE that takes a version out of the sequence -/
theorem Good.setVersion (h : Good db) {set : DocumentVersion → DocumentVersion} (hset : Sets set) {x : DocumentVersion}
    (hx : x ∈ db.versions) (hv : db.versionViolations (set x) = [])
    (hfrom : ∀ f ∈ x.effectiveFrom, (set x).effectiveFrom = some f) (hdraft : (set x).status ≠ .draft)
    (hpublished : (set x).status = .published → (set x).effectiveTo = none) :
    Good (db.setVersion x.documentId x.id set) := by
  refine h.follow (admissible_setVersion h.admissible hset hx hv)
    (fun _ _ => begins_setVersion h.admissible.keys hset hx hfrom) fun y hy => ?_
  rcases (mem_setVersion h.admissible.keys hx).1 hy with rfl | ⟨hy, -⟩
  · exact .inr ⟨hdraft, fun hst e he => by rw [hpublished hst] at he; cases he⟩
  · exact .inl hy

/-- a version is published, and the one that was open before it ends where it begins -/
theorem Good.publishAfter (h : Good db) {d v : Uuid} {f at' : Time} {x w : DocumentVersion}
    (hx : Written L db d v .draft (.publish at' f) x) (hw : Written L db d w.id .published (.closeAt f at') w)
    (hvw : db.versionViolations (w.closeAt f at') = [])
    (hvx : (db.setVersion d w.id (.closeAt f at')).versionViolations (x.publish at' f) = []) :
    Good ((db.setVersion d w.id (.closeAt f at')).setVersion d v (.publish at' f)) := by
  have hk := h.admissible.keys
  have hx' := hx.mem_setVersion hk hw (by decide)
  obtain ⟨hxm, rfl, rfl, hxst, -, -⟩ := hx
  obtain ⟨hwm, -, hwd, hwst, -, -⟩ := hw
  rw [← hwd] at hvx hx' ⊢
  have hadm := admissible_setVersion h.admissible (sets_closeAt f at') hwm hvw
  rw [hwd] at hadm hvx hx' ⊢
  have hk' := hadm.keys
  have hmem : ∀ y, y ∈ ((db.setVersion x.documentId w.id (.closeAt f at')).setVersion x.documentId x.id
      (.publish at' f)).versions ↔ y = x.publish at' f ∨
        (y ∈ (db.setVersion x.documentId w.id (.closeAt f at')).versions ∧ y ≠ x) := fun y => mem_setVersion hk' hx'
  refine h.follow (admissible_setVersion hadm (sets_publish at' f) hx' hvx) (fun d e he => ?_) fun y hy => ?_
  · refine begins_setVersion hk' (sets_publish at' f) hx' (fun g hg => ?_) ?_
    · rw [(h.drafts x hxm hxst).1] at hg; cases hg
    · rw [← hwd]; exact begins_setVersion hk (sets_closeAt f at') hwm (fun _ hg => hg) he
  · rcases (hmem y).1 hy with rfl | ⟨hy, -⟩
    · refine .inr ⟨(fun hst => by cases hst), fun _ e he => ?_⟩
      have hnone : (x.publish at' f).effectiveTo = none := (h.drafts x hxm hxst).2
      rw [hnone] at he; cases he
    · rw [← hwd] at hy
      rcases (mem_setVersion hk hwm).1 hy with rfl | ⟨hy, -⟩
      · refine .inr ⟨?_, fun _ e he => ?_⟩
        · rw [DocumentVersion.closeAt, hwst]; decide
        · obtain rfl : f = e := Option.some.inj he
          exact ⟨_, (hmem _).2 (.inl rfl), hwd.symm, rfl⟩
      · exact .inl hy

/-- Every change keeps the invariant. -/
theorem Change.good (hG : Good db) (h : Change settings protect q o L db db') : Good db' := by
  cases q with
  | createDocument c => obtain ⟨-, hv, -, rfl⟩ := h; exact hG.addDocument hv
  | deleteDocument d at' => obtain ⟨-, -, -, rfl⟩ := h; exact hG.softDelete d at'
  | createVersion c => obtain ⟨-, hv, -, -, rfl⟩ := h; exact hG.addVersion ⟨rfl, rfl⟩ hv
  | publishVersion d v f at' =>
    obtain ⟨x, hx, -, ⟨hv, rfl⟩ | ⟨w, hw, -, -, hvw, hvx, rfl⟩⟩ := h
    · obtain ⟨hm, rfl, rfl, hst, -, -⟩ := hx
      refine hG.setVersion (sets_publish at' f) hm hv (fun g hg => ?_) (fun hst => by cases hst) fun _ => (hG.drafts x hm hst).2
      rw [(hG.drafts x hm hst).1] at hg; cases hg
    · exact hG.publishAfter hx hw hvw hvx
  | withdrawVersion d v e at' =>
    obtain ⟨x, ⟨hm, rfl, rfl, -, -, -⟩, -, hv, -, rfl⟩ := h
    exact hG.setVersion (sets_withdraw e at') hm hv (fun _ hg => hg) (fun hst => by cases hst) fun hst => by cases hst
  | archiveVersion d v at' =>
    obtain ⟨x, ⟨hm, rfl, rfl, -, -, -⟩, hv, -, rfl⟩ := h
    exact hG.setVersion (sets_archive at') hm hv (fun _ hg => hg) (fun hst => by cases hst) fun hst => by cases hst
  | createArtifact d c => obtain ⟨-, hv, -, -, rfl⟩ := h; exact hG.addArtifact hv
  | upload c id actor at' => obtain ⟨-, hv, -, -, -, rfl⟩ := h; exact hG.addArtifact hv
  | grantAcl c => obtain ⟨-, hv, -, -, rfl⟩ := h; exact hG.addGrant rfl hv
  | revokeAcl d g actor at' => obtain ⟨x, hx, hxg, hdef, -, -, rfl⟩ := h; exact hG.revokeGrant hx hxg hdef

end AtlasRag.Knowledge
