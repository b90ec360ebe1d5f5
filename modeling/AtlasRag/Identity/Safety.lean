/-
Every identity transaction is safe: whatever other transactions commit between its statements, its own commit is the
`Change` of its request and keeps the schema's constraints.

Results:
- `safe_protectUserRemoval`: behind the superadmin guard, the transaction holds the lock of the superadmin role and
  somebody else holds the role;
- `txn_safe`: every request is safe;
- `run_good`, `commit_change`: in every run the invariant holds and every commit is a `Change`.
-/
import AtlasRag.Identity.Changes

namespace AtlasRag.Identity

open AtlasRag.Lib AtlasRag.Lib.RowLock AtlasRag.Lib.Table AtlasRag.Lib.Transaction AtlasRag.Platform

variable {secured : Prop} {reply : Outcome → Reply} {L L' : Set IamRow} {db db' : Iam}

abbrev LaterTx (secured : Prop) (L : Set IamRow) (db : Iam) (L' : Set IamRow) (db' : Iam) : Prop :=
  Later (Good secured) (Change secured) L db L' db'

theorem later_static (h : LaterTx secured L db L' db') : Static db db' := Meanwhile.static h.meanwhile

theorem Removes.later {u : Uuid} (h : Removes secured u L db) (hd : LaterTx secured L db L' db') :
    Removes secured u L' db' := (h.meanwhile hd.meanwhile).mono hd.locks

theorem Holds.later {x : Uuid} {p : Principal} (h : Holds x p L db) (hd : LaterTx secured L db L' db') :
    Holds x p L' db' := ⟨hd.locks h.1, (h.meanwhile hd.meanwhile).2⟩

theorem Lives.later {x : Uuid} (h : Lives x L db) (hd : LaterTx secured L db L' db') : Lives x L' db' := by
  obtain ⟨hL, hp⟩ := h.meanwhile hd.meanwhile
  exact ⟨hd.locks hL, hp⟩

/-- **A commit** is safe if it is the change of its request and keeps the schema's constraints. -/
theorem safe_commit {w : Iam → Iam} {r : Reply}
    (h : ∀ db', Meanwhile secured L db db' → Good secured db' → Change secured r L db' (w db') ∧ (w db').Admissible) :
    SafeTx secured (.commit w r) L db := by
  refine safe_of_commit fun db' hd hG => ?_
  obtain ⟨hc, ha⟩ := h db' hd hG
  exact ⟨hc.good hG ha, hc⟩

theorem safe_raise (e : IdentityError) : SafeTx secured (raise reply e) L db := safe_rollback _

theorem findById_some {x : Uuid} {p : Principal} (h : db.findById x = some p) : p ∈ db.principals ∧ p.id = x := by
  have hid := List.find?_some h
  exact ⟨List.mem_of_find?_eq_some h, of_decide_eq_true hid⟩

theorem safe_findById {x : Uuid} {k : Option Principal → Tx}
    (hk : ∀ L' db', LaterTx secured L db L' db' → (∀ p, db'.findById x = some p → L' (.principal x)) →
      SafeTx secured (k (db'.findById x)) L' db') : SafeTx secured (findById x k) L db := by
  refine safe_stmt fun L' db' hd hrows => hk L' db' hd fun p hp => ?_
  refine hrows _ ?_
  simp [hp]

theorem safe_isSuperadminRole {x : Uuid} {k : Bool → Tx}
    (hyes : ∀ L' db', LaterTx secured L db L' db' → SafeTx secured (k true) L' db')
    (hno : ∀ L' db', LaterTx secured L db L' db' → db'.superadminRoleId ≠ some x → SafeTx secured (k false) L' db') :
    SafeTx secured (isSuperadminRole x k) L db := by
  refine safe_read fun L' db' hd => ?_
  by_cases hx : db'.superadminRoleId = some x
  · rw [decide_eq_true hx]; exact hyes L' db' hd
  · rw [decide_eq_false hx]; exact hno L' db' hd hx

theorem safe_protectRoleLifecycle {x : Uuid} {operation : String} {k : Tx}
    (hk : ∀ L' db', LaterTx secured L db L' db' → db'.superadminRoleId ≠ some x → SafeTx secured k L' db') :
    SafeTx secured (protectRoleLifecycle reply x operation k) L db := by
  refine safe_isSuperadminRole (fun L' db' _ => ?_) fun L' db' hd hx => ?_
  · rw [if_pos rfl]; exact safe_raise _
  · rw [if_neg Bool.false_ne_true]; exact hk L' db' hd hx

/-- with unique identifiers and at most one open row for each pair, a role has no holder twice -/
theorem activeHolders_nodup (h : db.Admissible) (r : Uuid) : (db.activeHolders r).Nodup := by
  have hpairs : db.userRoles.Pairwise fun a b => a.revokedAt = none → b.revokedAt = none →
      (a.userPrincipalId, a.rolePrincipalId) ≠ (b.userPrincipalId, b.rolePrincipalId) := by
    have hnd := h.assignments
    unfold Iam.openAssignments List.Nodup at hnd
    rw [List.pairwise_map, List.pairwise_filter] at hnd
    exact hnd.imp fun hab ha hb => hab (decide_eq_true ha) (decide_eq_true hb)
  refine List.nodup_flatMap.2 ⟨fun a _ => ?_, hpairs.imp fun hab => ?_⟩
  · exact (List.filter_sublist.map _).nodup h.principalIds
  · intro x ha hb
    simp only [List.mem_map, List.mem_filter, decide_eq_true_eq] at ha hb
    obtain ⟨p, ⟨-, hpa, hra, hopena, -⟩, rfl⟩ := ha
    obtain ⟨q, ⟨-, hqb, hrb, hopenb, -⟩, hqp⟩ := hb
    refine hab hopena hopenb (Prod.ext ?_ (hra.trans hrb.symm))
    exact hpa.symm.trans (hqp.symm.trans hqb)

/-- two rows in the count are two holders -/
theorem exists_other_holder (h : db.Admissible) {r u : Uuid} (hn : 1 < (db.activeHolders r).length) :
    ∃ x ∈ db.activeHolders r, x ≠ u := by
  have hnd := activeHolders_nodup h r
  by_contra hall
  push Not at hall
  have hle : (db.activeHolders r).length ≤ 1 := by
    have hsub : db.activeHolders r ⊆ [u] := fun x hx => List.mem_singleton.2 (hall x hx)
    exact (hnd.subperm hsub).length_le
  omega

/-- **Behind the guard**: the superadmin role is locked, and somebody other than `u` holds it. -/
theorem safe_protectUserRemoval {u : Uuid} {operation : String} {k : Tx}
    (hk : ∀ L' db', LaterTx secured L db L' db' → Removes secured u L' db' → SafeTx secured k L' db') :
    SafeTx secured (protectUserRemoval reply u operation k) L db := by
  refine safe_stmt fun L₁ db₁ h₁ hrows => ?_
  split
  · exact safe_raise _
  · next r hr =>
    have hlock : L₁ (.role r) := hrows _ (by simp [hr])
    refine safe_read fun L₂ db₂ h₂ => ?_
    have hr₂ : db₂.superadminRoleId = some r := (later_static h₂).superadmin.trans hr
    rw [hr₂]
    refine safe_read fun L₃ db₃ h₃ => ?_
    have hr₃ : db₃.superadminRoleId = some r := (later_static h₃).superadmin.trans hr₂
    have h₁₃ : LaterTx secured L db L₃ db₃ := (h₁.trans h₂).trans h₃
    have hlock₃ : L₃ (.role r) := h₃.locks (h₂.locks hlock)
    split_ifs with hu
    · refine safe_read fun L₄ db₄ h₄ => ?_
      have hr₄ : db₄.superadminRoleId = some r := (later_static h₄).superadmin.trans hr₃
      split_ifs with hcount
      · exact safe_raise _
      · refine hk L₄ db₄ (h₁₃.trans h₄) ⟨r, hr₄, h₄.locks hlock₃, fun _ => ?_⟩
        exact exists_other_holder h₄.good.admissible (not_le.1 hcount)
    · -- the user holds nothing, so whoever holds the role is somebody else
      refine hk L₃ db₃ h₁₃ ⟨r, hr₃, hlock₃, fun hs => ?_⟩
      obtain ⟨r', hr', x, hx⟩ := h₃.good.held hs
      obtain rfl : r' = r := Option.some.inj (hr'.symm.trans hr₃)
      refine ⟨x, hx, ?_⟩
      rintro rfl
      exact hu (decide_eq_true hx)

/-! ## The commits -/

/-- the open row of a locked pair is the one that the statement saw -/
theorem openFor_meanwhile {g m : Uuid} (hd : Meanwhile secured L db db') (hL : L (.openMembership g m))
    {x : GroupMembership} (hx : x ∈ db'.groupMemberships) (hf : x.OpenFor g m) : x ∈ db.groupMemberships := by
  have hmem : x ∈ db'.groupMemberships.filter (GroupMembership.OpenFor g m) :=
    List.mem_filter.2 ⟨hx, decide_eq_true hf⟩
  rw [hd.memberships hL] at hmem
  exact (List.mem_filter.1 hmem).1

theorem assignedFor_meanwhile {u r : Uuid} (hd : Meanwhile secured L db db') (hL : L (.openAssignment u r))
    {x : UserRole} (hx : x ∈ db'.userRoles) (hf : x.OpenFor u r) : x ∈ db.userRoles := by
  have hmem : x ∈ db'.userRoles.filter (UserRole.OpenFor u r) := List.mem_filter.2 ⟨hx, decide_eq_true hf⟩
  rw [hd.assignments hL] at hmem
  exact (List.mem_filter.1 hmem).1

theorem grantedFor_meanwhile {y : Uuid} {key : String} (hd : Meanwhile secured L db db') (hL : L (.openGrant y key))
    {x : PrincipalPermission} (hx : x ∈ db'.principalPermissions) (hf : x.OpenFor y key) :
    x ∈ db.principalPermissions := by
  have hmem : x ∈ db'.principalPermissions.filter (PrincipalPermission.OpenFor y key) :=
    List.mem_filter.2 ⟨hx, decide_eq_true hf⟩
  rw [hd.grants hL] at hmem
  exact (List.mem_filter.1 hmem).1

theorem safe_addMembership {g m actor : Uuid} {ty : PrincipalType} {at' : Time}
    (hreq : ∀ o, (reply o).request = .addGroupMember g m actor at') :
    SafeTx secured (GroupMembershipService.addMembership reply g m ty actor at') L db := by
  refine safe_stmt fun L₁ db₁ h₁ hrows => ?_
  have hlock : L₁ (.openMembership g m) := hrows _ (List.mem_singleton_self _)
  split
  · next hv =>
    obtain ⟨hv, hnew⟩ := List.append_eq_nil_iff.1 hv
    rw [uniqueIndex_eq_nil] at hnew
    refine safe_commit fun db₂ hd hG => ?_
    rw [← hd.static.membershipViolations] at hv
    have hnew₂ : (g, m) ∉ db₂.openMemberships := by
      rw [mem_openMemberships]
      rintro ⟨x, hx, hf⟩
      exact hnew (mem_openMemberships.2 ⟨x, openFor_meanwhile hd hlock hx hf, hf⟩)
    obtain ⟨-, -, p, hp, hid, rfl⟩ := membership_admissible hv
    refine ⟨?_, admissible_addMembership hG.admissible hv rfl hnew₂⟩
    rw [Change, hreq]
    exact ⟨hlock, p, hp, hid, rfl⟩
  · split_ifs <;> exact safe_raise _

theorem safe_removeMembership {g m actor : Uuid} {at' : Time}
    (hreq : ∀ o, (reply o).request = .removeGroupMember g m actor at') :
    SafeTx secured (.stmt (fun db => if (g, m) ∈ db.openMemberships then [.openMembership g m] else []) fun db =>
      match updateWhere (membershipViolations db) (GroupMembership.OpenFor g m) (GroupMembership.close actor at')
        db.groupMemberships with
      | .error es => raise reply (.integrity es)
      | .ok (_, n) =>
        if 0 < n then .commit (fun db => db.closeMembership g m actor at') (reply .done)
        else raise reply (.groupMembershipNotFound g m)) L db := by
  refine safe_stmt fun L₁ db₁ h₁ hrows => ?_
  split
  · exact safe_raise _
  · next rows n hu =>
    obtain ⟨hv, -, rfl⟩ := updateWhere_ok.1 hu
    split_ifs with hn
    · obtain ⟨x, hx, hf⟩ := List.countP_pos_iff.1 hn
      have hopen : (g, m) ∈ db₁.openMemberships := mem_openMemberships.2 ⟨x, hx, of_decide_eq_true hf⟩
      have hlock : L₁ (.openMembership g m) := hrows _ (by rw [if_pos hopen]; exact List.mem_singleton_self _)
      refine safe_commit fun db₂ hd hG => ⟨?_, admissible_closeMembership hG.admissible fun y hy hfy => ?_⟩
      · rw [Change, hreq]; exact ⟨hlock, rfl⟩
      · rw [hd.static.membershipViolations]
        exact hv y (openFor_meanwhile hd hlock hy hfy) hfy
    · exact safe_raise _

theorem safe_addAssignment {u r actor : Uuid} {at' : Time}
    (hreq : ∀ o, (reply o).request = .assignRole u r actor at') :
    SafeTx secured (.stmt (fun _ => [.openAssignment u r]) fun db =>
      match assignmentViolations db ⟨u, r, at', some actor, none, none⟩ ++
        uniqueIndex ASSIGNMENT_INDEX ((u, r) ∈ db.openAssignments) with
      | [] => .commit (fun db => db.addAssignment ⟨u, r, at', some actor, none, none⟩) (reply .done)
      | _ => raise reply (.roleAssignmentConflict u r)) L db := by
  refine safe_stmt fun L₁ db₁ h₁ hrows => ?_
  have hlock : L₁ (.openAssignment u r) := hrows _ (List.mem_singleton_self _)
  split
  · next hv =>
    obtain ⟨hv, hnew⟩ := List.append_eq_nil_iff.1 hv
    rw [uniqueIndex_eq_nil] at hnew
    refine safe_commit fun db₂ hd hG => ?_
    rw [← hd.static.assignmentViolations] at hv
    have hnew₂ : (u, r) ∉ db₂.openAssignments := by
      rw [mem_openAssignments]
      rintro ⟨x, hx, hf⟩
      exact hnew (mem_openAssignments.2 ⟨x, assignedFor_meanwhile hd hlock hx hf, hf⟩)
    refine ⟨?_, admissible_addAssignment hG.admissible hv rfl hnew₂⟩
    rw [Change, hreq]
    exact ⟨hlock, rfl⟩
  · exact safe_raise _

theorem safe_closeActiveAssignment {u r actor : Uuid} {at' : Time}
    (hreq : ∀ o, (reply o).request = .revokeRole u r actor at')
    (hrem : db.superadminRoleId = some r → Removes secured u L db) :
    SafeTx secured (RoleAssignmentService.closeActiveAssignment reply u r actor at') L db := by
  refine safe_stmt fun L₁ db₁ h₁ hrows => ?_
  split
  · exact safe_raise _
  · next rows n hu =>
    obtain ⟨hv, -, rfl⟩ := updateWhere_ok.1 hu
    split_ifs with hn
    · obtain ⟨x, hx, hf⟩ := List.countP_pos_iff.1 hn
      have hopen : (u, r) ∈ db₁.openAssignments := mem_openAssignments.2 ⟨x, hx, of_decide_eq_true hf⟩
      have hlock : L₁ (.openAssignment u r) := hrows _ (by rw [if_pos hopen]; exact List.mem_singleton_self _)
      refine safe_commit fun db₂ hd hG => ⟨?_, admissible_closeAssignment hG.admissible fun y hy hfy => ?_⟩
      · rw [Change, hreq]
        refine ⟨hlock, fun hr => ?_, rfl⟩
        have hr₀ : db.superadminRoleId = some r :=
          ((later_static h₁).trans hd.static).superadmin.symm.trans hr
        exact ((hrem hr₀).later h₁).meanwhile hd
      · rw [hd.static.assignmentViolations]
        exact hv y (assignedFor_meanwhile hd hlock hy hfy) hfy
    · exact safe_raise _

/-- `_update_status`, for a request whose change is `setStatus` once the guards hold -/
theorem safe_updateStatus {x : Uuid} {b : Bool} {del : Option Time} {t : Time} (hlives : Lives x L db)
    (hchange : ∀ L' db', LaterTx secured L db L' db' →
      Change secured (reply .done) L' db' (db'.setStatus x b del t)) :
    SafeTx secured (updateStatus reply x b del t) L db := by
  refine safe_stmt fun L₁ db₁ h₁ hrows => ?_
  have hlives₁ := hlives.later h₁
  split
  · exact safe_raise _
  · next rows hu =>
    obtain ⟨hv, -, -⟩ := updateWhere_ok.1 hu
    refine safe_commit fun db₂ hd hG => ⟨?_, admissible_setStatus hG.admissible fun p hp hid => ?_⟩
    · exact hchange L₁ db₂ (h₁.trans ⟨le_rfl, hd, hG⟩)
    · -- the locked row is the one that the statement saw
      obtain ⟨q, hq, -⟩ := hlives₁.2
      have hq₂ : db₂.findById x = some q := (hd.principal hlives₁.1).trans hq
      obtain ⟨hqmem, hqid⟩ := findById_some hq₂
      obtain rfl : p = q := List.inj_on_of_nodup_map hG.admissible.principalIds hp hqmem (hid.trans hqid.symm)
      exact hv p (findById_some hq).1 hid

theorem safe_addGrant {x actor : Uuid} {permission : String} {at' : Time}
    (hreq : ∀ o, (reply o).request = .grantPermission x permission actor at') :
    SafeTx secured (.stmt (fun _ => [.openGrant x permission]) fun db =>
      match grantViolations db ⟨x, permission, at', some actor, none, none⟩ ++
        uniqueIndex GRANT_INDEX ((x, permission) ∈ db.openGrants) with
      | [] => .commit (fun db => db.addGrant ⟨x, permission, at', some actor, none, none⟩) (reply .done)
      | _ => raise reply (.permissionGrantConflict x permission)) L db := by
  refine safe_stmt fun L₁ db₁ h₁ hrows => ?_
  have hlock : L₁ (.openGrant x permission) := hrows _ (List.mem_singleton_self _)
  split
  · next hv =>
    obtain ⟨hv, hnew⟩ := List.append_eq_nil_iff.1 hv
    rw [uniqueIndex_eq_nil] at hnew
    refine safe_commit fun db₂ hd hG => ?_
    rw [← hd.static.grantViolations] at hv
    have hnew₂ : (x, permission) ∉ db₂.openGrants := by
      rw [mem_openGrants]
      rintro ⟨y, hy, hf⟩
      exact hnew (mem_openGrants.2 ⟨y, grantedFor_meanwhile hd hlock hy hf, hf⟩)
    refine ⟨?_, admissible_addGrant hG.admissible hv rfl hnew₂⟩
    rw [Change, hreq]
    exact ⟨hlock, rfl⟩
  · exact safe_raise _

theorem safe_closeGrant {x actor : Uuid} {permission : String} {at' : Time}
    (hreq : ∀ o, (reply o).request = .revokePermission x permission actor at')
    (hrole : db.superadminRoleId ≠ some x) :
    SafeTx secured (.stmt (fun db => if (x, permission) ∈ db.openGrants then [.openGrant x permission] else []) fun db =>
      match updateWhere (grantViolations db) (PrincipalPermission.OpenFor x permission)
        (PrincipalPermission.close actor at') db.principalPermissions with
      | .error es => raise reply (.integrity es)
      | .ok (_, n) =>
        if 0 < n then .commit (fun db => db.closeGrant x permission actor at') (reply .done)
        else raise reply (.permissionGrantNotFound x permission)) L db := by
  refine safe_stmt fun L₁ db₁ h₁ hrows => ?_
  split
  · exact safe_raise _
  · next rows n hu =>
    obtain ⟨hv, -, rfl⟩ := updateWhere_ok.1 hu
    split_ifs with hn
    · obtain ⟨y, hy, hf⟩ := List.countP_pos_iff.1 hn
      have hopen : (x, permission) ∈ db₁.openGrants := mem_openGrants.2 ⟨y, hy, of_decide_eq_true hf⟩
      have hlock : L₁ (.openGrant x permission) := hrows _ (by rw [if_pos hopen]; exact List.mem_singleton_self _)
      refine safe_commit fun db₂ hd hG => ⟨?_, admissible_closeGrant hG.admissible fun z hz hfz => ?_⟩
      · rw [Change, hreq]
        refine ⟨hlock, fun hr => hrole ?_, rfl⟩
        exact ((later_static h₁).trans hd.static).superadmin.symm.trans hr
      · rw [hd.static.grantViolations]
        exact hv z (grantedFor_meanwhile hd hlock hz hfz) hfz
    · exact safe_raise _

/-! ## The requests -/

theorem safe_ensureTargetsExist {u r : Uuid} {k : Tx}
    (hk : ∀ L' db', LaterTx secured L db L' db' → SafeTx secured k L' db') :
    SafeTx secured (RoleAssignmentService.ensureTargetsExist reply u r k) L db := by
  refine safe_read fun L₁ db₁ h₁ => ?_
  split_ifs
  · refine safe_read fun L₂ db₂ h₂ => ?_
    split_ifs
    · exact hk L₂ db₂ (h₁.trans h₂)
    · exact safe_raise _
  · exact safe_raise _

theorem safe_ensureRegistered {permission : String} {k : Tx}
    (hk : ∀ L' db', LaterTx secured L db L' db' → SafeTx secured k L' db') :
    SafeTx secured (PermissionManagementService.ensureRegistered reply permission k) L db := by
  refine safe_read fun L₁ db₁ h₁ => ?_
  split_ifs
  · exact hk L₁ db₁ h₁
  · exact safe_raise _

theorem safe_ensureActive {p : Principal} {role : String} {k : Tx} (hk : SafeTx secured k L db) :
    SafeTx secured (GroupMembershipService.ensureActive reply p role k) L db := by
  unfold GroupMembershipService.ensureActive
  split_ifs
  · exact safe_raise _
  · exact safe_raise _
  · exact hk

theorem safe_ensureGroup {p : Principal} {k : Tx} (hk : SafeTx secured k L db) :
    SafeTx secured (GroupMembershipService.ensureGroup reply p k) L db := by
  unfold GroupMembershipService.ensureGroup
  split_ifs
  · exact safe_raise _
  · exact hk

theorem safe_getAllowedMemberType {p : Principal} {k : PrincipalType → Tx} (hk : SafeTx secured (k p.type) L db) :
    SafeTx secured (GroupMembershipService.getAllowedMemberType reply p k) L db := by
  unfold GroupMembershipService.getAllowedMemberType
  split_ifs
  · exact hk
  · exact safe_raise _

/-- the principal read FOR UPDATE, not retired, stays as it is to the end of the transaction -/
theorem safe_getPrincipal {x : Uuid} {k : Principal → Tx}
    (hk : ∀ L' db' p, LaterTx secured L db L' db' → Holds x p L' db' → p.deletedAt = none →
      SafeTx secured (k p) L' db') : SafeTx secured (PrincipalLifecycle.getPrincipal reply x k) L db := by
  refine safe_findById fun L₁ db₁ h₁ hlock => ?_
  cases hp : db₁.findById x with
  | none => exact safe_raise _
  | some p =>
    show SafeTx secured (if _ then _ else _) _ _
    split_ifs with hdel
    · exact safe_raise _
    · exact hk L₁ db₁ p h₁ ⟨hlock p hp, hp⟩ (not_not.1 hdel)

theorem addGroupMember_safe {g m actor : Uuid} {at' : Time}
    (hreq : ∀ o, (reply o).request = .addGroupMember g m actor at') :
    SafeTx secured (GroupMembershipService.addGroupMember reply g m actor at') L db := by
  unfold GroupMembershipService.addGroupMember
  split_ifs
  · exact safe_raise _
  · refine safe_findById fun L₁ db₁ _ _ => ?_
    cases db₁.findById g with
    | none => exact safe_raise _
    | some group =>
      refine safe_ensureActive (safe_ensureGroup (safe_findById fun L₂ db₂ _ _ => ?_))
      cases db₂.findById m with
      | none => exact safe_raise _
      | some member =>
        refine safe_ensureActive (safe_getAllowedMemberType (safe_read fun L₃ db₃ _ => ?_))
        split_ifs
        · exact safe_raise _
        · refine safe_read fun L₄ db₄ _ => ?_
          split_ifs
          · exact safe_raise _
          · exact safe_addMembership hreq
        · exact safe_addMembership hreq

theorem removeGroupMember_safe {g m actor : Uuid} {at' : Time}
    (hreq : ∀ o, (reply o).request = .removeGroupMember g m actor at') :
    SafeTx secured (GroupMembershipService.removeGroupMember reply g m actor at') L db := by
  refine safe_findById fun L₁ db₁ _ _ => ?_
  cases db₁.findById g with
  | none => exact safe_raise _
  | some group =>
    refine safe_ensureGroup (safe_findById fun L₂ db₂ _ _ => ?_)
    cases db₂.findById m with
    | none => exact safe_raise _
    | some member => exact safe_getAllowedMemberType (safe_removeMembership hreq)

theorem assignRole_safe {u r actor : Uuid} {at' : Time} (hreq : ∀ o, (reply o).request = .assignRole u r actor at') :
    SafeTx secured (RoleAssignmentService.assignRole reply u r actor at') L db := by
  refine safe_ensureTargetsExist fun L₁ db₁ _ => safe_read fun L₂ db₂ _ => ?_
  split_ifs
  · exact safe_raise _
  · exact safe_addAssignment hreq

theorem revokeRole_safe {u r actor : Uuid} {at' : Time} (hreq : ∀ o, (reply o).request = .revokeRole u r actor at') :
    SafeTx secured (RoleAssignmentService.revokeRole reply u r actor at') L db := by
  refine safe_ensureTargetsExist fun L₁ db₁ _ => safe_read fun L₂ db₂ _ => ?_
  split_ifs
  · refine safe_isSuperadminRole (fun L₃ db₃ _ => ?_) fun L₃ db₃ _ hr => ?_
    · rw [if_pos rfl]
      exact safe_protectUserRemoval fun L₄ db₄ _ hrem => safe_closeActiveAssignment hreq fun _ => hrem
    · rw [if_neg Bool.false_ne_true]
      exact safe_closeActiveAssignment hreq fun hr' => absurd hr' hr
  · exact safe_raise _

theorem activatePrincipal_safe {x : Uuid} {t : Time} (hreq : ∀ o, reply o = ⟨.activatePrincipal x, t, o⟩) :
    SafeTx secured (PrincipalLifecycle.activatePrincipal reply x t) L db := by
  refine safe_getPrincipal fun L₁ db₁ p _ hp hdel => ?_
  split_ifs
  · exact safe_rollback _
  · refine safe_updateStatus (hp.lives hdel) fun L₂ db₂ h₂ => ?_
    rw [hreq]
    exact ⟨(hp.lives hdel).later h₂, rfl⟩

/-- the two operations that take a principal out of use, behind their guards -/
theorem safe_takeOut {x : Uuid} {p : Principal} {del : Option Time} {t : Time} {operation : String}
    (hp : Holds x p L db) (hdel : p.deletedAt = none)
    (hchange : ∀ L' db', Holds x p L' db' → db'.superadminRoleId ≠ some x → Removes secured x L' db' →
      Change secured (reply .done) L' db' (db'.setStatus x false del t)) :
    SafeTx secured (protectRoleLifecycle reply x operation <| protectUserRemoval reply x operation <|
      updateStatus reply x false del t) L db := by
  refine safe_protectRoleLifecycle fun L₁ db₁ h₁ hrole => ?_
  refine safe_protectUserRemoval fun L₂ db₂ h₂ hrem => ?_
  have hp₂ := (hp.later h₁).later h₂
  refine safe_updateStatus (hp₂.lives hdel) fun L₃ db₃ h₃ => ?_
  refine hchange L₃ db₃ (hp₂.later h₃) (fun hx => hrole ?_) (hrem.later h₃)
  exact ((later_static h₂).trans (later_static h₃)).superadmin.symm.trans hx

theorem deactivatePrincipal_safe {x : Uuid} {t : Time} (hreq : ∀ o, reply o = ⟨.deactivatePrincipal x, t, o⟩) :
    SafeTx secured (PrincipalLifecycle.deactivatePrincipal reply x t) L db := by
  refine safe_getPrincipal fun L₁ db₁ p _ hp hdel => ?_
  split_ifs with hact
  · exact safe_rollback _
  · refine safe_takeOut hp hdel fun L₂ db₂ hp₂ hrole hrem => ?_
    rw [hreq]
    exact ⟨⟨p, hp₂, Bool.not_eq_false _ ▸ hact, hdel⟩, hrole, hrem, rfl⟩

theorem retirePrincipal_safe {x : Uuid} {t : Time} (hreq : ∀ o, reply o = ⟨.retirePrincipal x, t, o⟩) :
    SafeTx secured (PrincipalLifecycle.retirePrincipal reply x t) L db := by
  refine safe_getPrincipal fun L₁ db₁ p _ hp hdel => ?_
  refine safe_takeOut hp hdel fun L₂ db₂ hp₂ hrole hrem => ?_
  rw [hreq]
  exact ⟨hp₂.lives hdel, hrole, hrem, rfl⟩

theorem grantPermission_safe {x actor : Uuid} {permission : String} {at' : Time}
    (hreq : ∀ o, (reply o).request = .grantPermission x permission actor at') :
    SafeTx secured (PermissionManagementService.grantPermission reply x permission actor at') L db := by
  unfold PermissionManagementService.grantPermission
  refine safe_findById fun L₁ db₁ _ _ => ?_
  cases db₁.findById x with
  | none => exact safe_raise _
  | some p =>
    show SafeTx secured (if _ then _ else _) _ _
    split_ifs
    · exact safe_raise _
    · exact safe_raise _
    · refine safe_ensureRegistered fun L₂ db₂ _ => safe_read fun L₃ db₃ _ => ?_
      split_ifs
      · exact safe_raise _
      · exact safe_addGrant hreq

theorem revokePermission_safe {x actor : Uuid} {permission : String} {at' : Time}
    (hreq : ∀ o, (reply o).request = .revokePermission x permission actor at') :
    SafeTx secured (PermissionManagementService.revokePermission reply x permission actor at') L db :=
  safe_ensureRegistered fun _ _ _ => safe_protectRoleLifecycle fun _ _ _ hrole => safe_closeGrant hreq hrole

/-- Every request is safe. -/
theorem txn_safe (q : Request) (t : Time) : SafeTx secured (q.txn t) L db := by
  cases q with
  | addGroupMember => exact addGroupMember_safe fun _ => rfl
  | removeGroupMember => exact removeGroupMember_safe fun _ => rfl
  | assignRole => exact assignRole_safe fun _ => rfl
  | revokeRole => exact revokeRole_safe fun _ => rfl
  | activatePrincipal => exact activatePrincipal_safe fun _ => rfl
  | deactivatePrincipal => exact deactivatePrincipal_safe fun _ => rfl
  | retirePrincipal => exact retirePrincipal_safe fun _ => rfl
  | grantPermission => exact grantPermission_safe fun _ => rfl
  | revokePermission => exact revokePermission_safe fun _ => rfl

/-! ## Runs -/

/-- a run of identity transactions from the database `db` -/
abbrev IamRun (db : Iam) (s : State) : Prop := Run (step next) (Starts Begins) (Sys.init db) s

theorem begins_safe (p : Tx) (d : Iam) (hp : Begins p) (_ : Good secured d) : SafeTx secured p (fun _ => False) d := by
  obtain ⟨q, t, rfl⟩ := hp
  exact txn_safe q t

/-- The invariant holds in every committed state. -/
theorem run_good {s : State} (hdb : Good secured db) (hs : IamRun db s) : Good secured s.db :=
  (safe_rule (fun s _ p => begins_safe p s.db) hdb hs).1

/-- **Every commit of a run** is the change of a request. -/
theorem commit_change {s : State} (hdb : Good secured db) (hs : IamRun db s) {o : Op Tx} {w : Iam → Iam} {r : Reply}
    (ho : committing s o = some (w, r)) : ∃ L, Change secured r L s.db (w s.db) :=
  (safe_rule (fun s _ p => begins_safe p s.db) hdb hs).2 o w r ho

end AtlasRag.Identity
