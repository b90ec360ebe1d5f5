/-
Who may read a document.

A grant is active at an instant if it was given by then, has not been revoked and has not expired. The decision asks for an
active READ or MANAGE grant of a document that is not deleted; the list of grants shows the active ones. In every run both
are what the history of the successful calls says: a grant counts until its row is revoked or its document deleted.

Results:
- `canRead_history`: the decision in terms of the history, and in terms of the list; at most one grant is unrevoked for
  each document, principal and permission; a permission grant of the identity module changes no decision.
-/
import AtlasRag.Identity.Decisions
import AtlasRag.Knowledge.Insertions
import AtlasRag.Lib.Lists

namespace AtlasRag.Knowledge

open AtlasRag.Lib AtlasRag.Lib.Lists AtlasRag.Lib.Table AtlasRag.Lib.LockMode AtlasRag.Lib.History AtlasRag.Platform
open KnowledgeDb
open AtlasRag.Lib.RowLock (Op)

/-! ## The queries -/

/-- the WHERE clause of active grants -/
def DocumentACL.ActiveAt (g : DocumentACL) (t : Time) : Prop :=
  g.grantedAt ≤ t ∧ g.revokedAt = none ∧ ∀ x ∈ g.expiresAt, t < x

instance (g : DocumentACL) (t : Time) : Decidable (g.ActiveAt t) := inferInstanceAs (Decidable (_ ∧ _ ∧ _))

namespace KnowledgeDb

/-- the rows of the join of `has_active_read_grant` -/
def ReadGrant (db : KnowledgeDb) (d : Uuid) (principalIds : Finset Uuid) (t : Time) (g : DocumentACL) : Prop :=
  (∃ x ∈ db.documents, x.id = g.documentId ∧ x.id = d ∧ x.deletedAt = none) ∧ g.principalId ∈ principalIds ∧
    (g.permission = .read ∨ g.permission = .manage) ∧ g.ActiveAt t

instance (db : KnowledgeDb) (d : Uuid) (principalIds : Finset Uuid) (t : Time) (g : DocumentACL) :
    Decidable (db.ReadGrant d principalIds t g) := inferInstanceAs (Decidable (_ ∧ _ ∧ _ ∧ _))

/-- `DocumentAccessRepository.has_active_read_grant` -/
def hasActiveReadGrant (db : KnowledgeDb) (d : Uuid) (principalIds : Finset Uuid) (t : Time) : Bool :=
  if principalIds = ∅ then false else decide (∃ g ∈ db.acl, db.ReadGrant d principalIds t g)

/-- `DocumentAuthorizationService.can_read_document` -/
def canReadDocument (db : KnowledgeDb) (d : Uuid) (effectivePrincipalIds : Finset Uuid) (t : Time) : Bool :=
  if effectivePrincipalIds = ∅ then false else db.hasActiveReadGrant d effectivePrincipalIds t

/-- `DocumentAclRepository.list_for_document` -/
def listForDocument (db : KnowledgeDb) (d : Uuid) (t : Time) (includeHistory : Bool) : List DocumentACL :=
  (db.acl.filter fun g => g.documentId = d ∧ (includeHistory = true ∨ g.ActiveAt t)).mergeSort fun a b =>
    a.grantedAt < b.grantedAt ∨ a.grantedAt = b.grantedAt ∧ a.id ≤ b.id

/-- `DocumentAclManagementService.list_acl_grants` -/
def listAclGrants (db : KnowledgeDb) (d : Uuid) (t : Time) (includeHistory : Bool) :
    Except KnowledgeError (List DocumentACL) :=
  match db.findActiveDocument d with
  | none => .error (.documentNotFound d)
  | some _ => .ok (db.listForDocument d t includeHistory)

/-- the decision for a user -/
def canRead (db : KnowledgeDb) (u d : Uuid) (t : Time) (n : ℕ) : Option Bool :=
  (db.iam.findEffectivePrincipalIds u n).map fun ids => db.canReadDocument d ids t

end KnowledgeDb

variable {settings : UploadSettings} {requests : Set Request} {protect : Set Row} {r : Answer} {L : Set Lock}
  {db db' : KnowledgeDb} {d : Uuid} {ids : Finset Uuid} {t : Time}

theorem canReadDocument_iff : db.canReadDocument d ids t = true ↔
    db.Active d ∧ ∃ g ∈ db.acl, g.documentId = d ∧ g.principalId ∈ ids ∧ (g.permission = .read ∨ g.permission = .manage) ∧
      g.ActiveAt t := by
  simp only [canReadDocument, hasActiveReadGrant]
  split_ifs with hids
  · simp [hids]
  · rw [decide_eq_true_iff]
    constructor
    · rintro ⟨g, hg, ⟨x, hx, hxg, hxd, hdel⟩, hp⟩
      exact ⟨⟨x, hx, hxd, hdel⟩, g, hg, hxg.symm.trans hxd, hp⟩
    · rintro ⟨⟨x, hx, hxd, hdel⟩, g, hg, hgd, hp⟩
      exact ⟨g, hg, ⟨x, hx, hxd.trans hgd.symm, hxd, hdel⟩, hp⟩

theorem mem_listForDocument {g : DocumentACL} :
    g ∈ db.listForDocument d t false ↔ g ∈ db.acl ∧ g.documentId = d ∧ g.ActiveAt t := by
  simp [listForDocument]

/-- the list is there for a document that is not deleted -/
theorem listAclGrants_ok (hd : db.Active d) (h : Bool) : db.listAclGrants d t h = .ok (db.listForDocument d t h) := by
  obtain ⟨x, hx, hid, hdel⟩ := hd
  obtain ⟨y, hy⟩ := Option.ne_none_iff_exists'.1 fun hnone : db.findActiveDocument d = none =>
    List.find?_eq_none.1 hnone x hx (decide_eq_true ⟨hid, hdel⟩)
  rw [listAclGrants, hy]

/-- The decision and the list agree. -/
theorem canReadDocument_list (hd : db.Active d) : db.canReadDocument d ids t = true ↔
    ∃ g ∈ db.listForDocument d t false, g.principalId ∈ ids ∧ (g.permission = .read ∨ g.permission = .manage) := by
  rw [canReadDocument_iff]
  simp only [mem_listForDocument]
  constructor
  · rintro ⟨-, g, hg, hgd, hp, hperm, ht⟩
    exact ⟨g, ⟨hg, hgd, ht⟩, hp, hperm⟩
  · rintro ⟨g, ⟨hg, hgd, ht⟩, hp, hperm⟩
    exact ⟨hd, g, hg, hgd, hp, hperm, ht⟩

/-! ## The events -/

/-- the grant is given -/
def Grants (c : CreateDocumentAclGrant) (r : Answer) : Prop := r = .knowledge ⟨.grantAcl c, .grant c.row⟩

def Revokes (d g : Uuid) (r : Answer) : Prop := ∃ actor at', r = .knowledge ⟨.revokeAcl d g actor at', .done⟩

/-- what a history says about the readers of a document -/
def ReadableIn (h : List Answer) (d : Uuid) (ids : Finset Uuid) (t : Time) : Prop :=
  ids.Nonempty ∧ (∀ r ∈ h, ¬ Deletes d r) ∧ ∃ c : CreateDocumentAclGrant, c.documentId = d ∧ c.principalId ∈ ids ∧
    (c.permission = .read ∨ c.permission = .manage) ∧ (∀ x ∈ c.expiresAt, t < x) ∧
    ∃ h₁ r h₂, h = h₁ ++ r :: h₂ ∧ Grants c r ∧ ∀ x ∈ h₂, ¬ Revokes d c.grantId x

theorem row_injective {c c' : CreateDocumentAclGrant} (h : c.row = c'.row) : c = c' := by
  cases c
  cases c'
  simp only [CreateDocumentAclGrant.row, DocumentACL.mk.injEq, Option.some.injEq, and_true] at h
  simp only [CreateDocumentAclGrant.mk.injEq]
  exact h

/-- **One commit**: the row of a grant is there if the commit gives the grant, or if it was there and is not revoked. -/
theorem Commit.row_iff (hc : Commit settings requests protect r L db db') (c : CreateDocumentAclGrant) :
    c.row ∈ db'.acl ↔ Grants c r ∨ (c.row ∈ db.acl ∧ ¬ Revokes c.documentId c.grantId r) := by
  cases r with
  | iam reply =>
    obtain ⟨-, -, heq⟩ := hc
    rw [heq]
    simp [setIam, Grants, Revokes]
  | knowledge reply =>
    obtain ⟨q, o⟩ := reply
    obtain ⟨-, hc⟩ := hc
    cases q with
    | grantAcl c' =>
      obtain ⟨-, -, -, rfl, rfl⟩ := hc
      have hrow : c.row = c'.row ↔ c' = c := ⟨fun he => (row_injective he).symm, fun he => he ▸ rfl⟩
      simp only [addGrant, List.mem_append, List.mem_singleton, hrow]
      simp only [Grants, Revokes, Answer.knowledge.injEq, Reply.mk.injEq, Request.grantAcl.injEq, reduceCtorEq, false_and,
        exists_false, not_false_eq_true, and_true]
      rw [or_comm]
      exact or_congr_left ⟨fun he => ⟨he, he ▸ rfl⟩, fun he => he.1⟩
    | revokeAcl d g actor at' =>
      obtain ⟨x, -, -, -, -, rfl, rfl⟩ := hc
      have hgrants : ¬ Grants c (.knowledge ⟨.revokeAcl d g actor at', .done⟩) := fun he => by cases he
      rw [or_iff_right hgrants, revokeGrant, mem_mapWhere]
      constructor
      · rintro (⟨y, -, -, hy⟩ | ⟨hy, hnot⟩)
        · exact absurd (congrArg DocumentACL.revokedAt hy) (by simp [DocumentACL.revoke, CreateDocumentAclGrant.row])
        · refine ⟨hy, ?_⟩
          rintro ⟨_, _, he⟩
          cases he
          exact hnot ⟨rfl, rfl, rfl⟩
      · rintro ⟨hy, hnot⟩
        refine .inr ⟨hy, ?_⟩
        rintro ⟨rfl, rfl, -⟩
        exact hnot ⟨actor, at', rfl⟩
    | createDocument => obtain ⟨-, -, -, rfl⟩ := hc; simp [addDocument, Grants, Revokes]
    | deleteDocument => obtain ⟨-, -, -, rfl⟩ := hc; simp [softDelete, Grants, Revokes]
    | createVersion => obtain ⟨-, -, -, -, rfl⟩ := hc; simp [addVersion, Grants, Revokes]
    | publishVersion => obtain ⟨x, -, -, ⟨-, rfl⟩ | ⟨w, -, -, -, -, -, rfl⟩⟩ := hc <;> simp [setVersion, Grants, Revokes]
    | withdrawVersion => obtain ⟨x, -, -, -, -, rfl⟩ := hc; simp [setVersion, Grants, Revokes]
    | archiveVersion => obtain ⟨x, -, -, -, rfl⟩ := hc; simp [setVersion, Grants, Revokes]
    | createArtifact => obtain ⟨-, -, -, -, rfl⟩ := hc; simp [KnowledgeDb.addArtifact, Grants, Revokes]
    | upload => obtain ⟨-, -, -, -, -, rfl⟩ := hc; simp [KnowledgeDb.addArtifact, Grants, Revokes]

/-- an unrevoked row that the commit does not add was there -/
theorem Commit.unrevoked (hc : Commit settings requests protect r L db db') {g : DocumentACL} (hg : g ∈ db'.acl)
    (hopen : g.revokedAt = none) : g ∈ db.acl ∨ (db.Active g.documentId ∧ ∃ c : CreateDocumentAclGrant, g = c.row) := by
  cases r with
  | iam reply => obtain ⟨-, -, heq⟩ := hc; rw [heq] at hg; exact .inl hg
  | knowledge reply =>
    obtain ⟨q, o⟩ := reply
    obtain ⟨-, hc⟩ := hc
    cases q with
    | grantAcl c =>
      obtain ⟨-, -, hactive, -, rfl⟩ := hc
      rcases List.mem_append.1 hg with hg | hg
      · exact .inl hg
      · rw [List.mem_singleton.1 hg]; exact .inr ⟨hactive, c, rfl⟩
    | revokeAcl d g' actor at' =>
      obtain ⟨x, -, -, -, -, -, rfl⟩ := hc
      rcases mem_mapWhere.1 hg with ⟨y, -, -, rfl⟩ | ⟨hg, -⟩
      · cases hopen
      · exact .inl hg
    | createDocument => obtain ⟨-, -, -, rfl⟩ := hc; exact .inl hg
    | deleteDocument => obtain ⟨-, -, -, rfl⟩ := hc; exact .inl hg
    | createVersion => obtain ⟨-, -, -, -, rfl⟩ := hc; exact .inl hg
    | publishVersion => obtain ⟨x, -, -, ⟨-, rfl⟩ | ⟨w, -, -, -, -, -, rfl⟩⟩ := hc <;> exact .inl hg
    | withdrawVersion => obtain ⟨x, -, -, -, -, rfl⟩ := hc; exact .inl hg
    | archiveVersion => obtain ⟨x, -, -, -, rfl⟩ := hc; exact .inl hg
    | createArtifact => obtain ⟨-, -, -, -, rfl⟩ := hc; exact .inl hg
    | upload => obtain ⟨-, -, -, -, -, rfl⟩ := hc; exact .inl hg

/-! ## Histories -/

/-- what the history tells of the tables -/
structure Recorded (h : List Answer) (db : KnowledgeDb) : Prop where
  deleted : ∀ d, (∃ r ∈ h, Deletes d r) → ∃ t, db.DeletedAt d t
  /-- the document of a grant is active, unless it was deleted -/
  granted : ∀ g ∈ db.acl, g.revokedAt = none → db.Active g.documentId ∨ ∃ r ∈ h, Deletes g.documentId r
  rows : ∀ g ∈ db.acl, g.revokedAt = none → ∃ c : CreateDocumentAclGrant, g = c.row

theorem Recorded.append {h : List Answer} (hh : Recorded h db) (hc : Commit settings requests protect r L db db') :
    Recorded (h ++ [r]) db' := by
  have hactive : ∀ d, db.Active d → db'.Active d ∨ ∃ x ∈ h ++ [r], Deletes d x := by
    intro d hd
    by_cases hr : Deletes d r
    · exact .inr ⟨r, by simp, hr⟩
    · exact .inl (hc.active hd hr)
  refine ⟨fun d ⟨x, hx, hdel⟩ => ?_, fun g hg hopen => ?_, fun g hg hopen => ?_⟩
  · rcases List.mem_append.1 hx with hx | hx
    · obtain ⟨t, ht⟩ := hh.deleted d ⟨x, hx, hdel⟩
      exact ⟨t, hc.deletedAt ht⟩
    · rw [List.mem_singleton.1 hx] at hdel
      exact hc.deletes hdel
  · rcases hc.unrevoked hg hopen with hg | ⟨hd, -⟩
    · rcases hh.granted g hg hopen with hd | ⟨x, hx, hdel⟩
      · exact hactive _ hd
      · exact .inr ⟨x, List.mem_append_left _ hx, hdel⟩
    · exact hactive _ hd
  · rcases hc.unrevoked hg hopen with hg | ⟨-, hrow⟩
    · exact hh.rows g hg hopen
    · exact hrow

/-- The decision is that of the history. -/
theorem canReadDocument_iff_readable {h : List Answer} (hG : Good db') (hrec : Recorded h db')
    (hrows : ∀ c : CreateDocumentAclGrant, c.row ∈ db'.acl ↔
      LastOpens (Grants c) (Revokes c.documentId c.grantId) False h)
    (ht : ∀ c : CreateDocumentAclGrant, (∃ r ∈ h, Grants c r) → c.grantedAt ≤ t) :
    db'.canReadDocument d ids t = true ↔ ReadableIn h d ids t := by
  rw [canReadDocument_iff]
  constructor
  · rintro ⟨hactive, g, hg, hgd, hp, hperm, -, hopen, hexp⟩
    obtain ⟨c, rfl⟩ := hrec.rows g hg hopen
    obtain rfl : c.documentId = d := hgd
    refine ⟨⟨_, hp⟩, fun r hr hdel => ?_, c, rfl, hp, hperm, hexp, ?_⟩
    · obtain ⟨t', ht'⟩ := hrec.deleted _ ⟨r, hr, hdel⟩
      exact DeletedAt.not_active hG ht' hactive
    · rcases (hrows c).1 hg with ⟨h₁, r, h₂, he, hr, hafter⟩ | ⟨hf, -⟩
      · exact ⟨h₁, r, h₂, he, hr, hafter⟩
      · exact hf.elim
  · rintro ⟨-, hnot, c, rfl, hp, hperm, hexp, h₁, r, h₂, rfl, hr, hafter⟩
    have hg : c.row ∈ db'.acl := (hrows c).2 (.inl ⟨h₁, r, h₂, rfl, hr, hafter⟩)
    refine ⟨?_, c.row, hg, rfl, hp, hperm, ht c ⟨r, by simp, hr⟩, rfl, hexp⟩
    exact (hrec.granted _ hg rfl).resolve_right fun ⟨x, hx, hdel⟩ => hnot x hx hdel

theorem unrevoked_le_one (hG : Good db) (d p : Uuid) (permission : DocumentPermission) :
    (db.acl.filter fun g => g.documentId = d ∧ g.principalId = p ∧ g.permission = permission ∧
      g.revokedAt = none).length ≤ 1 := by
  have hnodup : db.acl.Nodup := by
    refine (List.nodup_flatMap.1 (nodup_tables hG.admissible.keys).2.1).2.imp fun {x y} hdisj hxy => ?_
    have hkey : Key.grantId x.id ∈ x.keys := List.mem_cons_self
    exact hdisj hkey (hxy ▸ hkey)
  refine length_le_one (hnodup.filter _) fun x hx y hy => ?_
  obtain ⟨hx, hxp⟩ := List.mem_filter.1 hx
  obtain ⟨hy, hyp⟩ := List.mem_filter.1 hy
  obtain ⟨hxd, hxp, hxperm, hxr⟩ := of_decide_eq_true hxp
  obtain ⟨hyd, hyp, hyperm, hyr⟩ := of_decide_eq_true hyp
  exact activeGrant_eq hG.admissible.keys hx hy (hxd.trans hyd.symm) (hxp.trans hyp.symm) (hxperm.trans hyperm.symm) hxr hyr

/-- the tables of permission grants are not asked -/
theorem canRead_permissions {reply : Identity.Reply} (hc : Commit settings requests protect (.iam reply) L db db')
    (hreq : (∃ x permission actor at', reply.request = .grantPermission x permission actor at') ∨
      ∃ x permission actor at', reply.request = .revokePermission x permission actor at') (u d : Uuid) (t : Time) (n : ℕ) :
    db'.canRead u d t n = db.canRead u d t n := by
  obtain ⟨-, hc, heq⟩ := hc
  have hids : db'.iam.findEffectivePrincipalIds u n = db.iam.findEffectivePrincipalIds u n := by
    obtain ⟨q, t', o⟩ := reply
    rcases hreq with ⟨x, permission, actor, at', rfl⟩ | ⟨x, permission, actor, at', rfl⟩
    · obtain ⟨-, hiam⟩ := hc; rw [hiam]; rfl
    · obtain ⟨-, -, hiam⟩ := hc; rw [hiam]; rfl
  rw [canRead, canRead, hids, heq]
  rfl

/-- **Reading is what the history says.** In every run, from a database without versions and grants:
- the history is that of the calls that have been answered with success, in their order;
- a user may read a document, at any time not before a grant of the history, iff the history says so of the user's effective
  principals;
- at most one grant of a permission on a document to a principal is unrevoked;
- for a document that is not deleted the decision agrees with the list of active grants;
- granting and revoking permissions in the identity module changes no decision. -/
theorem canRead_history (settings : UploadSettings) (db : KnowledgeDb) (hadm : db.Admissible) (hversions : db.versions = [])
    (hacl : db.acl = []) (ops : List (Op Tx))
    (hops : Admissible (step Lock.Conflicts) (Starts (Begins settings Set.univ)) (Sys.init db) ops) :
    let s := run (step Lock.Conflicts) (Sys.init db) ops
    let h := history Lock.Conflicts (Sys.init db) ops
    (h = (s.log.map (·.2)).filter fun a => a.success = true) ∧
    (∀ u d t n, (∀ c, (∃ r ∈ h, Grants c r) → c.grantedAt ≤ t) → s.db.iam.groupMemberships.length + 2 ≤ n →
      ∃ ids, s.db.iam.findEffectivePrincipalIds u n = some ids ∧ (∀ p, p ∈ ids ↔ s.db.iam.Effective u p) ∧
        s.db.canRead u d t n = some (s.db.canReadDocument d ids t) ∧
        (s.db.canReadDocument d ids t = true ↔ ReadableIn h d ids t)) ∧
    (∀ d p permission, (s.db.acl.filter fun g => g.documentId = d ∧ g.principalId = p ∧ g.permission = permission ∧
      g.revokedAt = none).length ≤ 1) ∧
    (∀ d ids t, s.db.Active d → ∃ grants, s.db.listAclGrants d t false = .ok grants ∧
      (s.db.canReadDocument d ids t = true ↔
        ∃ g ∈ grants, g.principalId ∈ ids ∧ (g.permission = .read ∨ g.permission = .manage))) ∧
    ∀ o w reply, committing s o = some (w, .iam reply) →
      ((∃ x permission actor at', reply.request = .grantPermission x permission actor at') ∨
        ∃ x permission actor at', reply.request = .revokePermission x permission actor at') →
      ∀ u d t n, (step Lock.Conflicts s o).db.canRead u d t n = s.db.canRead u d t n := by
  intro s h
  have hdb := good_of_no_versions hadm hversions
  have hs : KnowledgeRun settings db s := run_of_admissible hops
  have hG := run_good hdb hs
  have hchain : Transaction.Chain Good (Commit settings Set.univ ∅) db h s.db := chain_rule run_obligations hdb .refl hops
  have hstart : Recorded [] db := by
    refine ⟨fun d ⟨r, hr, _⟩ => absurd hr List.not_mem_nil, ?_, ?_⟩
    · rw [hacl]; exact fun g hg => absurd hg List.not_mem_nil
    · rw [hacl]; exact fun g hg => absurd hg List.not_mem_nil
  have hrec : Recorded h s.db :=
    hchain.inv (H := fun b h => Recorded h b) (fun a h r L b _ _ hc hh => hh.append hc) hstart
  have hrows : ∀ c : CreateDocumentAclGrant, c.row ∈ s.db.acl ↔
      LastOpens (Grants c) (Revokes c.documentId c.grantId) False h := fun c => by
    have hstep : ∀ a r L b, Good a → Commit settings Set.univ ∅ r L a b → (c.row ∈ b.acl ↔
        Grants c r ∨ (c.row ∈ a.acl ∧ ¬ Revokes c.documentId c.grantId r)) := fun a r L b _ hc => hc.row_iff c
    have hcell := lastOpens_chain hstep hchain
    rwa [hacl, eq_false (List.not_mem_nil (a := c.row))] at hcell
  refine ⟨history_eq hops, fun u d t n ht hn => ?_, unrevoked_le_one hG, fun d ids t hd => ?_,
    fun o w reply hc hreq u d t n => ?_⟩
  · obtain ⟨ids, hids, hmem⟩ := Identity.Iam.find_eq hG.admissible.iam u hn
    exact ⟨ids, hids, hmem, by rw [canRead, hids]; rfl, canReadDocument_iff_readable hG hrec hrows ht⟩
  · exact ⟨_, listAclGrants_ok hd false, canReadDocument_list hd⟩
  · obtain ⟨L, hchange⟩ := (safe_rule run_obligations hdb hs).2 o w _ hc
    rw [step_db_some hc]
    exact canRead_permissions hchange hreq u d t n

/-- the user 9 is granted document 1 at 5, until 50 -/
def granting : List (Op Tx) :=
  Transaction.schedule [(Request.grantAcl ⟨4, 1, 9, .read, 5, 9, some 50⟩).txn textUploads] (List.replicate 7 0)

theorem canRead_history_granted : ReadableIn (history Lock.Conflicts (Sys.init oneDocument) granting) 1 {9} 49 := by
  have hops : Admissible (step Lock.Conflicts) (Starts (Begins textUploads Set.univ)) (Sys.init oneDocument) granting := by
    refine schedule_admissible (fun p hp => ?_) _ _
    rw [List.mem_singleton.1 hp]
    exact .inl ⟨_, trivial, rfl⟩
  have hh : history Lock.Conflicts (Sys.init oneDocument) granting =
      [.knowledge ⟨.grantAcl ⟨4, 1, 9, .read, 5, 9, some 50⟩, .grant ⟨4, 1, 9, .read, 5, some 9, some 50, none, none⟩⟩] :=
    rfl
  obtain ⟨ids, hids, -, -, hiff⟩ := (canRead_history textUploads oneDocument oneDocument_admissible rfl rfl granting
    hops).2.1 9 1 49 3
    (by
      rw [hh]
      rintro c ⟨r, hr, hg⟩
      rw [List.mem_singleton.1 hr] at hg
      cases hg
      decide)
    (by decide +kernel)
  have hnine : (run (step Lock.Conflicts) (Sys.init oneDocument) granting).db.iam.findEffectivePrincipalIds 9 3 =
      some {9} := by decide +kernel
  obtain rfl : {9} = ids := Option.some.inj (hnine.symm.trans hids)
  exact hiff.1 (by decide +kernel)

end AtlasRag.Knowledge
