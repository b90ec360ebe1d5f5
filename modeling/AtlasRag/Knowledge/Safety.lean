/-
Every knowledge request is safe: whatever other transactions do between its statements, its commit keeps the invariant and
does what `Change` says. The transactions of the identity module are safe as they are safe there.

Results:
- `txn_safe`: every request is safe;
- `identityTxn_safe`: so is every transaction on the schema `iam`;
- `run_good`: the invariant holds in every committed state.
-/
import AtlasRag.Knowledge.Changes

namespace AtlasRag.Knowledge

open AtlasRag.Lib AtlasRag.Lib.Table AtlasRag.Lib.LockMode AtlasRag.Platform
open KnowledgeDb

abbrev SafeTx (settings : UploadSettings) (requests : Set Request) (protect : Set Row) (p : Tx) (L : Set Lock)
    (db : KnowledgeDb) : Prop :=
  Safe (Clash protect) Good (Commit settings requests protect) p L db

abbrev LaterTx (settings : UploadSettings) (requests : Set Request) (protect : Set Row) (L : Set Lock) (db : KnowledgeDb) (L' : Set Lock)
    (db' : KnowledgeDb) : Prop := Later (Clash protect) Good (Commit settings requests protect) L db L' db'

variable {settings : UploadSettings} {requests : Set Request} {protect : Set Row} {q : Request} {reply : Outcome → Answer}
  {L L' : Set Lock}
  {db db' : KnowledgeDb}

theorem later_still (h : LaterTx settings requests protect L db L' db') : Still protect L db db' := Meanwhile.still h.meanwhile

/-! ## Statements -/

theorem safe_raise (e : KnowledgeError) : SafeTx settings requests protect (raise reply e) L db := safe_rollback _

theorem safe_select {α : Type} {row : α → Row} {relied : α → Bool} {find : KnowledgeDb → Option α} {k : Option α → Tx}
    (hk : ∀ L' db', LaterTx settings requests protect L db L' db' →
      (∀ x, find db' = some x → relied x = true → L' (.row (row x) .noted)) → SafeTx settings requests protect (k (find db')) L' db') :
    SafeTx settings requests protect (select row relied find k) L db := by
  refine safe_stmt fun L₁ db₁ h₁ hrows => hk L₁ db₁ h₁ fun x hx hrel => hrows _ ?_
  have hfilter : (find db₁).filter relied = some x := by rw [hx, Option.filter_some, if_pos hrel]
  rw [hfilter]
  exact List.mem_singleton_self _

/-- a row read FOR UPDATE is locked; `hlock`: a later answer is the same row -/
theorem safe_selectForUpdate {α : Type} {lock : α → Lock} {find : KnowledgeDb → Option α} {k : Option α → Tx}
    (hlock : ∀ a b x y, find a = some x → find b = some y → lock x = lock y)
    (hk : ∀ L' db', LaterTx settings requests protect L db L' db' → (∀ x, find db' = some x → L' (lock x)) →
      SafeTx settings requests protect (k (find db')) L' db') :
    SafeTx settings requests protect (selectForUpdate lock find k) L db := by
  refine safe_read fun L₁ db₁ h₁ => ?_
  cases hx : find db₁ with
  | none =>
    have hnone := hk L₁ db₁ h₁ fun x hfind => by rw [hx] at hfind; cases hfind
    rw [hx] at hnone
    exact hnone
  | some x =>
    refine safe_stmt fun L₂ db₂ h₂ hrows => hk L₂ db₂ (h₁.trans h₂) fun y hy => ?_
    rw [hlock db₂ db₁ y x hy hx]
    exact hrows _ (List.mem_singleton_self _)

theorem safe_insert {keys : List Key} {references : List Lock} {violations : KnowledgeDb → List Violation}
    {refused : List Violation → KnowledgeError} {k : Tx}
    (hk : ∀ L' db', LaterTx settings requests protect L db L' db' → (∀ key ∈ keys, L' (.key key)) → violations db' = [] →
      SafeTx settings requests protect k L' db') :
    SafeTx settings requests protect (insert reply keys references violations refused k) L db := by
  refine safe_stmt fun L₁ db₁ h₁ hrows => ?_
  split
  · next hv => exact hk L₁ db₁ h₁ (fun key hkey => hrows _ (List.mem_append_left _ (List.mem_map_of_mem hkey))) hv
  · exact safe_raise _

/-- the results of the program are those of a request that is made -/
structure Replies (requests : Set Request) (q : Request) (reply : Outcome → Answer) : Prop where
  mem : q ∈ requests
  eq : ∀ o, reply o = .knowledge ⟨q, o⟩

/-- the commit of a request -/
theorem safe_change {w : KnowledgeDb → KnowledgeDb} {o : Outcome} (hreply : Replies requests q reply)
    (h : ∀ db', Meanwhile settings requests protect L db db' → Good db' → Change settings protect q o L db' (w db')) :
    SafeTx settings requests protect (.commit w (reply o)) L db := by
  refine safe_commit fun db' hd hG => ?_
  have hc := h db' hd hG
  rw [hreply.eq]
  exact ⟨hc.good hG, hreply.mem, hc⟩

/-! ## Rows that are locked -/

/-- the document is active, and stays so -/
def Locked (protect : Set Row) (d : Uuid) (L : Set Lock) (db : KnowledgeDb) : Prop :=
  db.Active d ∧ Guards protect (.document d) L

theorem Locked.later {d : Uuid} (h : Locked protect d L db) (h₁ : LaterTx settings requests protect L db L' db') :
    Locked protect d L' db' :=
  ⟨(later_still h₁).active h.1 h.2, h.2.mono h₁.locks⟩

theorem Locked.active {d : Uuid} (h : Locked protect d L db) (hd : Meanwhile settings requests protect L db db') : db'.Active d :=
  (Meanwhile.still hd).active h.1 h.2

theorem safe_findDocument {d : Uuid} {k : Option Document → Tx}
    (hnone : ∀ L' db', SafeTx settings requests protect (k none) L' db')
    (hsome : ∀ L' db' x, LaterTx settings requests protect L db L' db' → (x.deletedAt = none → Locked protect d L' db') →
      SafeTx settings requests protect (k (some x)) L' db') :
    SafeTx settings requests protect (findDocument d k) L db := by
  refine safe_selectForUpdate (fun a b x y hx hy => ?_) fun L₁ db₁ h₁ hlock => ?_
  · rw [(findDocument_some hx).2, (findDocument_some hy).2]
  · cases hx : db₁.findDocument d with
    | none => exact hnone L₁ db₁
    | some x =>
      obtain ⟨hmem, hid⟩ := findDocument_some hx
      have hl := hlock x hx
      rw [hid] at hl
      exact hsome L₁ db₁ x h₁ fun hdel => ⟨⟨x, hmem, hid, hdel⟩, guards_update hl⟩

theorem safe_lockActiveDocument {d : Uuid} {k : Option Document → Tx}
    (hnone : ∀ L' db', SafeTx settings requests protect (k none) L' db')
    (hsome : ∀ L' db' x, LaterTx settings requests protect L db L' db' → Locked protect d L' db' →
      SafeTx settings requests protect (k (some x)) L' db') :
    SafeTx settings requests protect (lockActiveDocument d k) L db := by
  refine safe_selectForUpdate (fun a b x y hx hy => ?_) fun L₁ db₁ h₁ hlock => ?_
  · rw [(findActiveDocument_some hx).2.1, (findActiveDocument_some hy).2.1]
  · cases hx : db₁.findActiveDocument d with
    | none => exact hnone L₁ db₁
    | some x =>
      obtain ⟨hmem, hid, hdel⟩ := findActiveDocument_some hx
      have hl := hlock x hx
      rw [hid] at hl
      exact hsome L₁ db₁ x h₁ ⟨⟨x, hmem, hid, hdel⟩, guards_update hl⟩

/-- the document was read without a lock -/
theorem safe_findActiveDocument {d : Uuid} {k : Option Document → Tx}
    (hnone : ∀ L' db', SafeTx settings requests protect (k none) L' db')
    (hsome : ∀ L' db' x, LaterTx settings requests protect L db L' db' → (.document d ∈ protect → Locked protect d L' db') →
      SafeTx settings requests protect (k (some x)) L' db') :
    SafeTx settings requests protect (findActiveDocument d k) L db := by
  refine safe_select fun L₁ db₁ h₁ hnoted => ?_
  cases hx : db₁.findActiveDocument d with
  | none => exact hnone L₁ db₁
  | some x =>
    obtain ⟨hmem, hid, hdel⟩ := findActiveDocument_some hx
    have hl := hnoted x hx rfl
    rw [hid] at hl
    exact hsome L₁ db₁ x h₁ fun hprot => ⟨⟨x, hmem, hid, hdel⟩, guards_noted hl hprot⟩

/-- the version, as it was read and as it stays -/
structure Holds (protect : Set Row) (d v : Uuid) (x : DocumentVersion) (L : Set Lock) (db : KnowledgeDb) : Prop where
  mem : x ∈ db.versions
  id : x.id = v
  document : x.documentId = d
  guard : Guards protect (.version v) L

theorem Holds.later {d v : Uuid} {x : DocumentVersion} (h : Holds protect d v x L db)
    (h₁ : LaterTx settings requests protect L db L' db') : Holds protect d v x L' db' :=
  ⟨(later_still h₁).versions x h.mem (h.id ▸ h.guard), h.id, h.document, h.guard.mono h₁.locks⟩

theorem Holds.meanwhile {d v : Uuid} {x : DocumentVersion} (h : Holds protect d v x L db)
    (hd : Meanwhile settings requests protect L db db') : Holds protect d v x L db' :=
  ⟨(Meanwhile.still hd).versions x h.mem (h.id ▸ h.guard), h.id, h.document, h.guard⟩

theorem safe_lockVersion {d v : Uuid} {k : Option DocumentVersion → Tx}
    (hnone : ∀ L' db', SafeTx settings requests protect (k none) L' db')
    (hsome : ∀ L' db' x, LaterTx settings requests protect L db L' db' → Holds protect d v x L' db' →
      SafeTx settings requests protect (k (some x)) L' db') :
    SafeTx settings requests protect (lockVersion d v k) L db := by
  refine safe_selectForUpdate (fun a b x y hx hy => ?_) fun L₁ db₁ h₁ hlock => ?_
  · rw [(findVersion_some hx).2.1, (findVersion_some hy).2.1]
  · cases hx : db₁.findVersion d v with
    | none => exact hnone L₁ db₁
    | some x =>
      obtain ⟨hmem, hid, hdoc⟩ := findVersion_some hx
      have hl := hlock x hx
      rw [hid] at hl
      exact hsome L₁ db₁ x h₁ ⟨hmem, hid, hdoc, guards_update hl⟩

/-- the version was read without a lock; a draft is noted -/
theorem safe_findVersion {d v : Uuid} {k : Option DocumentVersion → Tx}
    (hnone : ∀ L' db', SafeTx settings requests protect (k none) L' db')
    (hsome : ∀ L' db' x, LaterTx settings requests protect L db L' db' →
      (x.status = .draft → .version v ∈ protect → Holds protect d v x L' db') → SafeTx settings requests protect (k (some x)) L' db') :
    SafeTx settings requests protect (findVersion d v k) L db := by
  refine safe_select fun L₁ db₁ h₁ hnoted => ?_
  cases hx : db₁.findVersion d v with
  | none => exact hnone L₁ db₁
  | some x =>
    obtain ⟨hmem, hid, hdoc⟩ := findVersion_some hx
    refine hsome L₁ db₁ x h₁ fun hst hprot => ⟨hmem, hid, hdoc, guards_noted ?_ hprot⟩
    have hl := hnoted x hx (decide_eq_true hst)
    rwa [hid] at hl

theorem findVersion_eq (h : db.keys.Nodup) {x : DocumentVersion} (hx : x ∈ db.versions) :
    db.findVersion x.documentId x.id = some x := by
  cases hf : db.findVersion x.documentId x.id with
  | none =>
    have hnot := List.find?_eq_none.1 hf x hx
    simp at hnot
  | some y =>
    obtain ⟨hy, hid, -⟩ := findVersion_some hf
    rw [version_eq h hy hx hid]

/-- an open effective period is that of a published version -/
theorem Good.open_published (h : Good db) {w : DocumentVersion} (hw : w ∈ db.versions) (hfrom : w.effectiveFrom ≠ none)
    (hto : w.effectiveTo = none) : w.status = .published := by
  have hdef := (h.admissible.versions w hw).1
  simp only [DocumentVersion.defects, List.append_eq_nil_iff, checkThat_eq_nil] at hdef
  cases hst : w.status with
  | published => rfl
  | draft => exact absurd (h.drafts w hw hst).1 hfrom
  | withdrawn => exact absurd hto (hdef.2 (.inl hst)).2.2
  | archived => exact absurd hto (hdef.2 (.inr hst)).2.2

/-! ## UPDATE of a version -/

/-- an UPDATE of a version that the transaction has locked before -/
theorem safe_updateVersion {sofar : KnowledgeDb → KnowledgeDb} {d v : Uuid} {set : DocumentVersion → DocumentVersion}
    (hset : Sets set) {refused : List Violation → KnowledgeError} {k : Option DocumentVersion → Tx} {x : DocumentVersion}
    (hid : x.id = v) (hdoc : x.documentId = d)
    (hsofar : ∀ L' db', LaterTx settings requests protect L db L' db' → x ∈ (sofar db').versions ∧ (sofar db').keys.Nodup)
    (hk : ∀ L' db', LaterTx settings requests protect L db L' db' → L' (.row (.version v) .noKeyUpdate) →
      (∀ l ∈ (set x).periodLock, L' l) → (sofar db').versionViolations (set x) = [] →
      SafeTx settings requests protect (k (some (set x))) L' db') :
    SafeTx settings requests protect (updateVersion reply sofar d v set refused k) L db := by
  subst hid hdoc
  refine safe_stmt fun L₁ db₁ h₁ hrows => ?_
  obtain ⟨hmem, hkeys⟩ := hsofar L₁ db₁ h₁
  rw [findVersion_eq hkeys hmem] at hrows
  simp only [Option.toList_some, List.flatMap_cons, List.flatMap_nil, List.append_nil] at hrows
  split
  · exact safe_raise _
  · next rows hu =>
    obtain ⟨hv, -, -⟩ := updateWhere_ok.1 hu
    have hmem' : set x ∈ ((sofar db₁).setVersion x.documentId x.id set).versions :=
      (mem_setVersion hkeys hmem).2 (.inl rfl)
    have hfind : ((sofar db₁).setVersion x.documentId x.id set).findVersion x.documentId x.id = some (set x) := by
      have hkeys' : ((sofar db₁).setVersion x.documentId x.id set).keys.Nodup := by
        rw [keys_setVersion hset]; exact hkeys
      have hf := findVersion_eq hkeys' hmem'
      rwa [hset.id, hset.document] at hf
    rw [hfind]
    refine hk L₁ db₁ h₁ (hrows _ List.mem_cons_self) (fun l hl => hrows l ?_) (hv x hmem ⟨rfl, rfl⟩)
    exact List.mem_cons_of_mem _ (List.mem_append_right _ hl)

/-- `set_withdrawn` and `set_archived`, of a version that is locked -/
theorem safe_setStatus {d v : Uuid} {set : DocumentVersion → DocumentVersion} (hset : Sets set) {x : DocumentVersion}
    (hx : Holds protect d v x L db) (hreply : Replies requests q reply)
    (hchange : ∀ L' db', Written L' db' d v x.status set x → db'.versionViolations (set x) = [] → Good db' →
      Change settings protect q (.version (set x)) L' db' (db'.setVersion d v set)) :
    SafeTx settings requests protect (DocumentVersionManagementService.setStatus reply d v set) L db := by
  refine safe_updateVersion hset hx.id hx.document
    (fun L₁ db₁ h₁ => ⟨(hx.later h₁).mem, h₁.good.admissible.keys⟩) fun L₁ db₁ h₁ hrow hper hv => ?_
  refine safe_change hreply fun db₂ hd hG => hchange L₁ db₂ ?_ ((Meanwhile.still hd).versionViolations hper hv) hG
  exact ⟨((hx.later h₁).meanwhile hd).mem, hx.id, hx.document, rfl, hrow, hper⟩

/-- a version that could be written after another one, with its period locked, still can be -/
theorem Still.versionViolations_setVersion (h : Still protect L db db') (hk : db.keys.Nodup) (hk' : db'.keys.Nodup)
    {d : Uuid} {w : DocumentVersion} {set : DocumentVersion → DocumentVersion} (hw : Holds protect d w.id w L db)
    {y : DocumentVersion} (hp : ∀ l ∈ y.periodLock, L l) (hv : (db.setVersion d w.id set).versionViolations y = []) :
    (db'.setVersion d w.id set).versionViolations y = [] := by
  obtain ⟨hmem, -, rfl, hguard⟩ := hw
  have hmem' := h.versions w hmem hguard
  simp only [KnowledgeDb.versionViolations, List.append_eq_nil_iff, exclusionConstraint_eq_nil] at hv ⊢
  refine ⟨hv.1, ?_⟩
  rintro ⟨z, hz, hne, hd, hov⟩
  refine hv.2 ⟨z, (mem_setVersion hk hmem).2 ?_, hne, hd, hov⟩
  exact ((mem_setVersion hk' hmem').1 hz).imp_right fun hz => ⟨h.periods y hp z hz.1 hd hov, hz.2⟩

/-! ## The requests -/

open DocumentVersionManagementService

theorem createDocument_safe {c : CreateDocument} (hreply : Replies requests (.createDocument c) reply) :
    SafeTx settings requests protect (DocumentManagementService.createDocument reply c) L db := by
  refine safe_read fun L₁ db₁ _ => ?_
  split_ifs
  · exact safe_raise _
  · refine safe_insert fun L₂ db₂ _ hkeys hv => ?_
    refine safe_change hreply fun db₃ hd _ => ⟨hkeys, ?_, rfl, rfl⟩
    exact (Meanwhile.still hd).documentViolations hkeys hv

theorem deleteDocument_safe {d : Uuid} {t : Time} (hreply : Replies requests (.deleteDocument d t) reply) :
    SafeTx settings requests protect (DocumentManagementService.deleteDocument reply d t) L db := by
  refine safe_read fun L₁ db₁ _ => ?_
  split
  · exact safe_raise _
  · refine safe_stmt fun L₂ db₂ _ hrows => ?_
    have hrow : L₂ (.row (.document d) .noKeyUpdate) := hrows _ (List.mem_singleton_self _)
    cases hx : db₂.findActiveDocument d with
    | none => exact safe_raise _
    | some x =>
      obtain ⟨hmem, hid, hdel⟩ := findActiveDocument_some hx
      have hlocked : Locked protect d L₂ db₂ := ⟨⟨x, hmem, hid, hdel⟩, guards_noKeyUpdate hrow⟩
      exact safe_change hreply fun db₃ hd _ => ⟨hrow, hlocked.active hd, rfl, rfl⟩

theorem createVersion_safe {c : CreateDocumentVersion} (hreply : Replies requests (.createVersion c) reply) :
    SafeTx settings requests protect (createVersion reply c) L db := by
  refine safe_findActiveDocument (fun _ _ => safe_raise _) fun L₁ db₁ _ _ hactive => ?_
  refine safe_insert fun L₂ db₂ h₂ hkeys hv => ?_
  refine safe_change hreply fun db₃ hd _ =>
    ⟨hkeys, (Meanwhile.still hd).newVersionViolations hkeys rfl hv, fun hprot => ?_, rfl, rfl⟩
  exact ((hactive hprot).later h₂).active hd

theorem createArtifact_safe {d : Uuid} {c : CreateDocumentArtifact}
    (hreply : Replies requests (.createArtifact d c) reply) :
    SafeTx settings requests protect (DocumentArtifactManagementService.createArtifact reply d c) L db := by
  refine safe_findVersion (fun _ _ => safe_raise _) fun L₁ db₁ x _ hx => ?_
  show SafeTx settings requests protect (if _ then _ else _) L₁ db₁
  split_ifs with hst
  · exact safe_raise _
  · have hdraft : x.status = .draft := not_not.1 hst
    refine safe_insert fun L₂ db₂ h₂ hkeys hv => ?_
    refine safe_change hreply fun db₃ hd _ =>
      ⟨hkeys, (Meanwhile.still hd).artifactViolations hkeys hv, fun hprot => ?_, rfl, rfl⟩
    have hx₃ := ((hx hdraft hprot).later h₂).meanwhile hd
    exact ⟨x, hx₃.mem, hx₃.id, hdraft⟩

theorem withdrawVersion_safe {d v : Uuid} {e t : Time} (hreply : Replies requests (.withdrawVersion d v e t) reply) :
    SafeTx settings requests protect (withdrawVersion reply d v e t) L db := by
  refine safe_lockVersion (fun _ _ => safe_raise _) fun L₁ db₁ x h₁ hx => ?_
  show SafeTx settings requests protect (if _ then _ else _) L₁ db₁
  split_ifs with hst
  · exact safe_raise _
  · have hpub : x.status = .published := not_not.1 hst
    split
    · exact safe_raise _
    · next hrange =>
      refine safe_setStatus (sets_withdraw e t) hx hreply fun L₂ db₂ hw hv hG => ⟨x, hpub ▸ hw, ?_, hv, rfl, rfl⟩
      -- a published version has a first instant, and it was compared with `effective_to`
      have hdef := (hG.admissible.versions x hw.mem).1
      simp only [DocumentVersion.defects, List.append_eq_nil_iff, checkThat_eq_nil] at hdef
      obtain ⟨f, hf⟩ := Option.ne_none_iff_exists'.1 (hdef.1.2 hpub).2
      refine ⟨f, hf, not_le.1 fun hle => ?_⟩
      rw [hf, Option.filter_some, if_pos (decide_eq_true hle)] at hrange
      cases hrange

theorem archiveVersion_safe {d v : Uuid} {t : Time} (hreply : Replies requests (.archiveVersion d v t) reply) :
    SafeTx settings requests protect (archiveVersion reply d v t) L db := by
  refine safe_lockVersion (fun _ _ => safe_raise _) fun L₁ db₁ x h₁ hx => ?_
  show SafeTx settings requests protect (if _ then _ else _) L₁ db₁
  split_ifs with hst
  · exact safe_raise _
  · exact safe_setStatus (sets_archive t) hx hreply fun L₂ db₂ hw hv _ => ⟨x, not_not.1 hst ▸ hw, hv, rfl, rfl⟩

theorem safe_findOpenEffectiveVersion {d : Uuid} {k : Option DocumentVersion → Tx}
    (hnone : ∀ L' db', LaterTx settings requests protect L db L' db' → SafeTx settings requests protect (k none) L' db')
    (hsome : ∀ L' db' w, LaterTx settings requests protect L db L' db' → Holds protect d w.id w L' db' → w.effectiveFrom ≠ none →
      w.effectiveTo = none → SafeTx settings requests protect (k (some w)) L' db') :
    SafeTx settings requests protect (findOpenEffectiveVersion reply d k) L db := by
  refine safe_read fun L₁ db₁ h₁ => safe_stmt fun L₂ db₂ h₂ hrows => ?_
  split
  · exact hnone L₂ db₂ (h₁.trans h₂)
  · next w hw =>
    have hmem := List.mem_filter.1 (List.mem_of_mem_head? (by rw [hw]; rfl))
    have hopen := List.mem_filter.1 hmem.1
    obtain ⟨hdoc, hfrom, hto⟩ := of_decide_eq_true hopen.2
    have hids : w.id ∈ (db₁.openVersions d).map (·.id) := of_decide_eq_true hmem.2
    have hlock : L₂ (.row (.version w.id) .update) := hrows _ (List.mem_map_of_mem hids)
    exact hsome L₂ db₂ w (h₁.trans h₂) ⟨hopen.1, rfl, hdoc, guards_update hlock⟩ hfrom hto
  · exact safe_raise _

/-- the version is published; nothing was open -/
theorem safe_setPublished {d v : Uuid} {f t : Time} {x : DocumentVersion} (hx : Holds protect d v x L db)
    (hdraft : x.status = .draft) (hreply : Replies requests (.publishVersion d v f t) reply) :
    SafeTx settings requests protect (setPublished reply id d v t f) L db := by
  refine safe_updateVersion (sets_publish t f) hx.id hx.document
    (fun L₁ db₁ h₁ => ⟨(hx.later h₁).mem, h₁.good.admissible.keys⟩) fun L₁ db₁ h₁ hrow hper hv => ?_
  refine safe_change hreply fun db₂ hd _ =>
    ⟨x, ⟨((hx.later h₁).meanwhile hd).mem, hx.id, hx.document, hdraft, hrow, hper⟩, rfl, .inl ⟨?_, rfl⟩⟩
  exact (Meanwhile.still hd).versionViolations hper hv

/-- the version is published, after the open one was closed -/
theorem safe_setPublished_closed {d v : Uuid} {f t : Time} {x w : DocumentVersion} (hx : Holds protect d v x L db)
    (hdraft : x.status = .draft) (hw : Holds protect d w.id w L db) (hpub : w.status = .published)
    (hto : w.effectiveTo = none) (hfrom : ∃ g ∈ w.effectiveFrom, g < f)
    (hrow : L (.row (.version w.id) .noKeyUpdate)) (hper : ∀ l ∈ (w.closeAt f t).periodLock, L l)
    (hv : db.versionViolations (w.closeAt f t) = [])
    (hreply : Replies requests (.publishVersion d v f t) reply) :
    SafeTx settings requests protect (setPublished reply (·.setVersion d w.id (.closeAt f t)) d v t f) L db := by
  have hne : x ≠ w := fun h => by rw [h, hpub] at hdraft; cases hdraft
  refine safe_updateVersion (sets_publish t f) hx.id hx.document (fun L₁ db₁ h₁ => ?_) fun L₁ db₁ h₁ hrow₁ hper₁ hv₁ => ?_
  · have hw₁ := hw.later h₁
    refine ⟨?_, ?_⟩
    · rw [← hw.document]
      exact (mem_setVersion h₁.good.admissible.keys hw₁.mem).2 (.inr ⟨(hx.later h₁).mem, hne⟩)
    · rw [keys_setVersion (sets_closeAt f t)]; exact h₁.good.admissible.keys
  · refine safe_change hreply fun db₂ hd hG => ?_
    have hx₂ := (hx.later h₁).meanwhile hd
    have hw₁ := hw.later h₁
    refine ⟨x, ⟨hx₂.mem, hx.id, hx.document, hdraft, hrow₁, hper₁⟩, rfl, .inr ⟨w, ⟨(hw₁.meanwhile hd).mem, rfl,
      hw.document, hpub, h₁.locks hrow, fun l hl => h₁.locks (hper l hl)⟩, hto, hfrom, ?_, ?_, rfl⟩⟩
    · have hv' := (later_still h₁).versionViolations hper hv
      exact (Meanwhile.still hd).versionViolations (fun l hl => h₁.locks (hper l hl)) hv'
    · exact (Meanwhile.still hd).versionViolations_setVersion h₁.good.admissible.keys hG.admissible.keys hw₁ hper₁ hv₁

theorem publishVersion_safe {d v : Uuid} {f t : Time} (hreply : Replies requests (.publishVersion d v f t) reply) :
    SafeTx settings requests protect (publishVersion reply d v f t) L db := by
  refine safe_lockVersion (fun _ _ => safe_raise _) fun L₁ db₁ x h₁ hx => ?_
  show SafeTx settings requests protect (if _ then _ else _) L₁ db₁
  split_ifs with hst
  · exact safe_raise _
  · have hdraft : x.status = .draft := not_not.1 hst
    refine safe_findOpenEffectiveVersion (fun L₂ db₂ h₂ => safe_setPublished (hx.later h₂) hdraft hreply)
      fun L₂ db₂ w h₂ hw hfrom hto => ?_
    dsimp only
    split
    · exact safe_raise _
    · next hrange =>
      refine safe_updateVersion (sets_closeAt f t) rfl hw.document
        (fun L₃ db₃ h₃ => ⟨(hw.later h₃).mem, h₃.good.admissible.keys⟩) fun L₃ db₃ h₃ hrow hper hv => ?_
      obtain ⟨g, hg⟩ := Option.ne_none_iff_exists'.1 hfrom
      refine safe_setPublished_closed ((hx.later h₂).later h₃) hdraft (hw.later h₃) ?_ hto ⟨g, hg, not_le.1 fun hle => ?_⟩
        hrow hper hv hreply
      · exact h₃.good.open_published (hw.later h₃).mem hfrom hto
      · rw [hg, Option.filter_some, if_pos (decide_eq_true hle)] at hrange
        cases hrange

theorem grantAcl_safe {c : CreateDocumentAclGrant} (hreply : Replies requests (.grantAcl c) reply) :
    SafeTx settings requests protect (DocumentAclManagementService.grantAcl reply c) L db := by
  unfold DocumentAclManagementService.grantAcl
  split
  · exact safe_raise _
  · refine safe_lockActiveDocument (fun _ _ => safe_raise _) fun L₁ db₁ _ _ hactive => ?_
    refine safe_selectForUpdate (fun a b x y hx hy => ?_) fun L₂ db₂ h₂ _ => ?_
    · rw [(Identity.findById_some hx).2, (Identity.findById_some hy).2]
    · cases db₂.iam.findById c.principalId with
      | none => exact safe_raise _
      | some p =>
        refine safe_read fun L₃ db₃ h₃ => ?_
        split_ifs
        · exact safe_raise _
        · refine safe_insert fun L₄ db₄ h₄ hkeys hv => ?_
          refine safe_change hreply fun db₅ hd _ => ⟨hkeys, ?_, ?_, rfl, rfl⟩
          · exact (Meanwhile.still hd).grantViolations rfl hkeys hv
          · exact (((hactive.later h₂).later h₃).later h₄).active hd

theorem revokeAcl_safe {d g actor : Uuid} {t : Time} (hreply : Replies requests (.revokeAcl d g actor t) reply) :
    SafeTx settings requests protect (DocumentAclManagementService.revokeAcl reply d g actor t) L db := by
  refine safe_lockActiveDocument (fun _ _ => safe_raise _) fun L₁ db₁ _ _ _ => ?_
  refine safe_read fun L₂ db₂ _ => ?_
  split
  · exact safe_raise _
  · refine safe_stmt fun L₃ db₃ _ hrows => ?_
    have hrow : L₃ (.row (.grant g) .noKeyUpdate) := hrows _ List.mem_cons_self
    split
    · exact safe_raise _
    · next rows n hu =>
      obtain ⟨hv, -, rfl⟩ := updateWhere_ok.1 hu
      split_ifs with hn
      · obtain ⟨x, hx, hxg⟩ := List.countP_pos_iff.1 hn
        have hxg : x.Revocable d g := of_decide_eq_true hxg
        refine safe_change hreply fun db₄ hd _ => ⟨x, ?_, hxg, hv x hx hxg, hrow, rfl, rfl⟩
        exact (Meanwhile.still hd).grants x hx (hxg.2.1 ▸ guards_noKeyUpdate hrow)
      · exact safe_raise _

theorem upload_safe {c : UploadDocumentArtifact} {id actor : Uuid} {t : Time}
    (hreply : Replies requests (.upload c id actor t) reply) :
    SafeTx settings requests protect (DocumentArtifactUploadService.upload reply settings c id actor t) L db := by
  unfold DocumentArtifactUploadService.upload DocumentArtifactUploadService.validate
    DocumentArtifactUploadService.validateTarget
  refine safe_findDocument (fun _ _ => safe_raise _) fun L₁ db₁ x _ hx => ?_
  show SafeTx settings requests protect (if _ then _ else _) L₁ db₁
  split_ifs with hdel
  · exact safe_raise _
  · have hactive := hx (not_not.1 hdel)
    refine safe_lockVersion (fun _ _ => safe_raise _) fun L₂ db₂ y h₂ hy => ?_
    show SafeTx settings requests protect (if _ then _ else _) L₂ db₂
    split_ifs with hst
    · exact safe_raise _
    · split
      · exact safe_raise _
      · refine safe_read fun L₃ db₃ h₃ => ?_
        split_ifs
        · exact safe_raise _
        · refine safe_read fun L₄ db₄ h₄ => ?_
          split_ifs
          · exact safe_raise _
          · refine safe_insert fun L₅ db₅ h₅ hkeys hv => ?_
            refine safe_change hreply fun db₆ hd _ => ⟨hkeys, ?_, ?_, ?_, rfl, rfl⟩
            · exact (Meanwhile.still hd).artifactViolations hkeys hv
            · exact ((((hactive.later h₂).later h₃).later h₄).later h₅).active hd
            · have hy₆ := (((hy.later h₃).later h₄).later h₅).meanwhile hd
              exact ⟨y, hy₆.mem, hy₆.id, hy₆.document, not_not.1 hst⟩

/-- Every request is safe. -/
theorem txn_safe (hq : q ∈ requests) : SafeTx settings requests protect (q.txn settings) L db := by
  cases q with
  | createDocument => exact createDocument_safe ⟨hq, fun _ => rfl⟩
  | deleteDocument => exact deleteDocument_safe ⟨hq, fun _ => rfl⟩
  | createVersion => exact createVersion_safe ⟨hq, fun _ => rfl⟩
  | publishVersion => exact publishVersion_safe ⟨hq, fun _ => rfl⟩
  | withdrawVersion => exact withdrawVersion_safe ⟨hq, fun _ => rfl⟩
  | archiveVersion => exact archiveVersion_safe ⟨hq, fun _ => rfl⟩
  | createArtifact => exact createArtifact_safe ⟨hq, fun _ => rfl⟩
  | upload => exact upload_safe ⟨hq, fun _ => rfl⟩
  | grantAcl => exact grantAcl_safe ⟨hq, fun _ => rfl⟩
  | revokeAcl => exact revokeAcl_safe ⟨hq, fun _ => rfl⟩

/-! ## The identity module -/

theorem Change.iam {o : Outcome} (h : Change settings protect q o L db db') : db'.iam = db.iam := by
  cases q with
  | createDocument => obtain ⟨-, -, -, rfl⟩ := h; rfl
  | deleteDocument => obtain ⟨-, -, -, rfl⟩ := h; rfl
  | createVersion => obtain ⟨-, -, -, -, rfl⟩ := h; rfl
  | publishVersion => obtain ⟨x, -, -, ⟨-, rfl⟩ | ⟨w, -, -, -, -, -, rfl⟩⟩ := h <;> rfl
  | withdrawVersion => obtain ⟨x, -, -, -, -, rfl⟩ := h; rfl
  | archiveVersion => obtain ⟨x, -, -, -, rfl⟩ := h; rfl
  | createArtifact => obtain ⟨-, -, -, -, rfl⟩ := h; rfl
  | upload => obtain ⟨-, -, -, -, -, rfl⟩ := h; rfl
  | grantAcl => obtain ⟨-, -, -, -, rfl⟩ := h; rfl
  | revokeAcl => obtain ⟨x, -, -, -, -, -, rfl⟩ := h; rfl

theorem Good.iam (h : Good db) : Identity.Good False db.iam := ⟨h.admissible.iam, False.elim, False.elim⟩

theorem Good.setIam (h : Good db) {iam : Identity.Iam} (hiam : iam.Admissible) : Good (db.setIam iam) :=
  ⟨⟨hiam, h.admissible.keys, h.admissible.documents, h.admissible.acl, h.admissible.versions, h.admissible.artifacts,
    h.admissible.periods⟩, h.drafts, h.successors⟩

/-- to the schema `iam`, the transactions of this module do nothing -/
theorem Commit.interference {r : Answer} {M : Set Lock} (hG : Good db) (hM : ∀ x y, M x → L y → ¬ Clash protect x y)
    (h : Commit settings requests protect r M db db') :
    Transaction.Interference (Identity.Good False) (Identity.Change False) (fun x => L (.iam x)) db.iam db'.iam := by
  cases r with
  | knowledge reply => rw [Change.iam h.2]; exact .refl
  | iam reply =>
    refine .single ⟨hG.iam, reply, fun x => M (.iam x), ?_, h.2.1⟩
    exact Set.disjoint_left.2 fun x hx hy => hM _ _ hx hy (.inl (decide_eq_true rfl))

/-- **The transactions of the identity module** are safe next to those of this one. -/
theorem identityTxn_safe {p : Identity.Tx} (hp : Identity.Begins p) (hG : Good db) :
    SafeTx settings requests protect (identityTxn p) (fun _ => False) db := by
  refine safe_zoom (fun x y h => Lock.iam.inj h) (fun _ h => h.iam) (fun a b r M L hG hM hc => hc.interference hG hM)
    (fun r L e d hG hd hc => ?_) (Identity.begins_safe p db.iam hp hG.iam)
  exact ⟨hG.setIam hd.admissible, hd.admissible, hc, rfl⟩

/-! ## Runs -/

theorem begins_safe {p : Tx} (hp : Begins settings requests p) (hG : Good db) :
    SafeTx settings requests protect p (fun _ => False) db := by
  rcases hp with ⟨q, hq, rfl⟩ | ⟨p₀, hp₀, rfl⟩
  · exact txn_safe hq
  · exact identityTxn_safe hp₀ hG

/-- no session commits an UPDATE of a protected row while another one has the row noted -/
def Undisturbed (protect : Set Row) (s : State) (i : ℕ) : Prop :=
  ∀ w r, s.sessions i = some (.commit w r) → ∀ x ∈ protect, s.holds i (.row x .noKeyUpdate) →
    ∀ k, k ≠ i → ¬ s.holds k (.row x .noted)

/-- **The obligations** of runs of requests, if the schedule leaves the protected rows undisturbed. -/
theorem obligations {ok : State → RowLock.Op Tx → Prop} (hstart : ∀ s i p, ok s (.start i p) → Begins settings requests p)
    (hok : ∀ s i, ok s (.exec i) → Undisturbed protect s i) :
    Obligations Lock.Conflicts (Clash protect) ok Good (Commit settings requests protect) where
  symm := Lock.conflicts_symm
  start s i p hp hG := begins_safe (hstart s i p hp) hG
  apart s i w r hcomp ho hi k hne x y hx hy := by
    rintro (hxy | ⟨row, hrow, rfl, rfl⟩)
    · exact hcomp i k hne.symm x y hx hy hxy
    · exact hok s i ho w r hi row hrow hx k hne hy

/-- a run of knowledge and identity transactions from the database `db` -/
abbrev KnowledgeRun (settings : UploadSettings) (db : KnowledgeDb) (s : State) : Prop :=
  Run (step Lock.Conflicts) (Starts (Begins settings Set.univ)) (Sys.init db) s

theorem run_obligations :
    Obligations Lock.Conflicts (Clash ∅) (Starts (Begins settings Set.univ)) Good (Commit settings Set.univ ∅) :=
  obligations (fun _ _ _ h => h) fun _ _ _ _ _ _ _ hx => absurd hx (Set.notMem_empty _)

/-- where there are no versions yet, the schema's constraints are all -/
theorem good_of_no_versions (hadm : db.Admissible) (hversions : db.versions = []) : Good db := by
  refine ⟨hadm, ?_, ?_⟩
  · rw [hversions]; exact fun v hv => by cases hv
  · rw [hversions]; exact fun v hv => by cases hv

/-- The invariant holds in every committed state. -/
theorem run_good {s : State} (hdb : Good db) (hs : KnowledgeRun settings db s) : Good s.db :=
  (safe_rule run_obligations hdb hs).1

end AtlasRag.Knowledge
