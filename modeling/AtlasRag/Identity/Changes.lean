/-
What committed identity transactions do, under any interleaving.

`Change` says for each request what its commit does to the database, with the locks it holds and the facts that its checks
have established and that still hold then. `Good` is the invariant: the schema's constraints and, where `secured` is
assumed, the types of the class tables and that somebody holds the superadmin role.

Every program is safe for the two (`txn_safe`), so in every run the invariant holds in every committed state and every
commit is a `Change` (`run_good`, `commit_change`).
-/
import AtlasRag.Identity.Transactions

namespace AtlasRag.Identity

open AtlasRag.Lib AtlasRag.Lib.Table AtlasRag.Lib.Transaction AtlasRag.Platform

/-! ## The invariant and the guarantee -/

structure Good (secured : Prop) (db : Iam) : Prop where
  admissible : db.Admissible
  typed : secured → db.Typed
  held : secured → ∃ r, db.superadminRoleId = some r ∧ ∃ u, u ∈ db.activeHolders r

/-- what a transaction that takes the role from `u` has made sure of: it holds the lock of the superadmin role, and
somebody else holds the role -/
def Removes (secured : Prop) (u : Uuid) (L : Set IamRow) (db : Iam) : Prop :=
  ∃ r, db.superadminRoleId = some r ∧ L (.role r) ∧ (secured → ∃ x ∈ db.activeHolders r, x ≠ u)

/-- the principal is locked, and as it was read -/
def Holds (x : Uuid) (p : Principal) (L : Set IamRow) (db : Iam) : Prop := L (.principal x) ∧ db.findById x = some p

/-- the locked principal is there and not retired -/
def Lives (x : Uuid) (L : Set IamRow) (db : Iam) : Prop :=
  L (.principal x) ∧ ∃ p, db.findById x = some p ∧ p.deletedAt = none

theorem Holds.lives {x : Uuid} {p : Principal} {L : Set IamRow} {db : Iam} (h : Holds x p L db)
    (hdel : p.deletedAt = none) : Lives x L db := ⟨h.1, p, h.2, hdel⟩

/-- what the commit of a request does -/
def Change (secured : Prop) (reply : Reply) (L : Set IamRow) (db db' : Iam) : Prop :=
  match reply.request with
  | .addGroupMember g m actor at' => L (.openMembership g m) ∧ ∃ p ∈ db.principals, p.id = m ∧
      db' = db.addMembership ⟨g, m, p.type, at', some actor, none, none⟩
  | .removeGroupMember g m actor at' => L (.openMembership g m) ∧ db' = db.closeMembership g m actor at'
  | .assignRole u r actor at' => L (.openAssignment u r) ∧ db' = db.addAssignment ⟨u, r, at', some actor, none, none⟩
  | .revokeRole u r actor at' => L (.openAssignment u r) ∧ (db.superadminRoleId = some r → Removes secured u L db) ∧
      db' = db.closeAssignment u r actor at'
  | .activatePrincipal x => Lives x L db ∧ db' = db.setStatus x true none reply.t
  | .deactivatePrincipal x => (∃ p, Holds x p L db ∧ p.Usable) ∧ db.superadminRoleId ≠ some x ∧
      Removes secured x L db ∧ db' = db.setStatus x false none reply.t
  | .retirePrincipal x => Lives x L db ∧ db.superadminRoleId ≠ some x ∧ Removes secured x L db ∧
      db' = db.setStatus x false (some reply.t) reply.t
  | .grantPermission x permission actor at' => L (.openGrant x permission) ∧
      db' = db.addGrant ⟨x, permission, at', some actor, none, none⟩
  | .revokePermission x permission actor at' => L (.openGrant x permission) ∧ db.superadminRoleId ≠ some x ∧
      db' = db.closeGrant x permission actor at'

/-- the user from whom a request takes a role or the activity -/
def Request.target? : Request → Option Uuid
  | .revokeRole u _ _ _ => some u
  | .deactivatePrincipal x => some x
  | .retirePrincipal x => some x
  | _ => none

/-- interference by other transactions, while the rows of `L` are locked -/
abbrev Meanwhile (secured : Prop) (L : Set IamRow) : Iam → Iam → Prop := Interference (Good secured) (Change secured) L

abbrev SafeTx (secured : Prop) (p : Tx) (L : Set IamRow) (db : Iam) : Prop := Safe (Good secured) (Change secured) p L db

variable {secured : Prop} {reply : Reply} {L M : Set IamRow} {db db' : Iam}

/-! ## What no transaction changes -/

/-- the columns of a principal that no transaction writes -/
def Principal.fixed (p : Principal) : Uuid × PrincipalType × Time := (p.id, p.type, p.createdAt)

structure Static (db db' : Iam) : Prop where
  users : db'.users = db.users
  roles : db'.roles = db.roles
  groups : db'.groups = db.groups
  permissions : db'.permissions = db.permissions
  principals : db'.principals.map Principal.fixed = db.principals.map Principal.fixed

theorem Static.refl (db : Iam) : Static db db := ⟨rfl, rfl, rfl, rfl, rfl⟩

theorem Static.trans {db'' : Iam} (h : Static db db') (h' : Static db' db'') : Static db db'' :=
  ⟨h'.users.trans h.users, h'.roles.trans h.roles, h'.groups.trans h.groups, h'.permissions.trans h.permissions,
    h'.principals.trans h.principals⟩

theorem static_setStatus (db : Iam) (x : Uuid) (b : Bool) (del : Option Time) (t : Time) :
    Static db (db.setStatus x b del t) := ⟨rfl, rfl, rfl, rfl, map_mapWhere _ fun _ => rfl⟩

theorem Change.static (h : Change secured reply L db db') : Static db db' := by
  obtain ⟨request, t, o⟩ := reply
  cases request with
  | addGroupMember => obtain ⟨-, p, -, -, rfl⟩ := h; exact ⟨rfl, rfl, rfl, rfl, rfl⟩
  | removeGroupMember => obtain ⟨-, rfl⟩ := h; exact ⟨rfl, rfl, rfl, rfl, rfl⟩
  | assignRole => obtain ⟨-, rfl⟩ := h; exact ⟨rfl, rfl, rfl, rfl, rfl⟩
  | revokeRole => obtain ⟨-, -, rfl⟩ := h; exact ⟨rfl, rfl, rfl, rfl, rfl⟩
  | activatePrincipal => obtain ⟨-, rfl⟩ := h; exact static_setStatus ..
  | deactivatePrincipal => obtain ⟨-, -, -, rfl⟩ := h; exact static_setStatus ..
  | retirePrincipal => obtain ⟨-, -, -, rfl⟩ := h; exact static_setStatus ..
  | grantPermission => obtain ⟨-, rfl⟩ := h; exact ⟨rfl, rfl, rfl, rfl, rfl⟩
  | revokePermission => obtain ⟨-, -, rfl⟩ := h; exact ⟨rfl, rfl, rfl, rfl, rfl⟩

theorem Meanwhile.static (h : Meanwhile secured L db db') : Static db db' :=
  Interference.preserves h (fun _ _ _ _ _ _ hc hs => hs.trans hc.static) (.refl db)

theorem Static.superadmin (h : Static db db') : db'.superadminRoleId = db.superadminRoleId := by
  unfold Iam.superadminRoleId; rw [h.roles]

/-- the identifiers and types of the principals -/
theorem Static.map_principals {β : Type} (h : Static db db') (f : Uuid × PrincipalType × Time → β) :
    db'.principals.map (fun p => f p.fixed) = db.principals.map (fun p => f p.fixed) := by
  have hm := congrArg (List.map f) h.principals
  rwa [List.map_map, List.map_map] at hm

theorem Static.membershipViolations (h : Static db db') (m : GroupMembership) :
    membershipViolations db' m = membershipViolations db m := by
  have hid : db'.principals.map (·.id) = db.principals.map (·.id) := h.map_principals (·.1)
  have hty : db'.principals.map (fun p => (p.id, p.type)) = db.principals.map fun p => (p.id, p.type) :=
    h.map_principals fun x => (x.1, x.2.1)
  simp only [Identity.membershipViolations, actorReference, h.groups, hid, hty]

theorem Static.assignmentViolations (h : Static db db') (a : UserRole) :
    assignmentViolations db' a = assignmentViolations db a := by
  have hid : db'.principals.map (·.id) = db.principals.map (·.id) := h.map_principals (·.1)
  simp only [Identity.assignmentViolations, actorReference, h.users, h.roles, hid]

theorem Static.grantViolations (h : Static db db') (g : PrincipalPermission) :
    grantViolations db' g = grantViolations db g := by
  have hid : db'.principals.map (·.id) = db.principals.map (·.id) := h.map_principals (·.1)
  simp only [Identity.grantViolations, actorReference, h.permissions, hid]

/-! ## What a lock keeps -/

/-- the open rows of a locked pair -/
theorem Change.memberships (h : Change secured reply M db db') {g m : Uuid} (hM : ¬ M (.openMembership g m)) :
    db'.groupMemberships.filter (GroupMembership.OpenFor g m) =
      db.groupMemberships.filter (GroupMembership.OpenFor g m) := by
  obtain ⟨request, t, o⟩ := reply
  cases request with
  | addGroupMember g' m' =>
    obtain ⟨hl, p, -, -, rfl⟩ := h
    rw [Iam.addMembership, List.filter_append]
    have hne : ¬ (g' = g ∧ m' = m) := by rintro ⟨rfl, rfl⟩; exact hM hl
    simp [GroupMembership.OpenFor, hne]
  | removeGroupMember g' m' =>
    obtain ⟨hl, rfl⟩ := h
    refine filter_mapWhere fun x _ hx => ?_
    have hne : ¬ (g' = g ∧ m' = m) := by rintro ⟨rfl, rfl⟩; exact hM hl
    exact ⟨decide_eq_false fun hq => hne ⟨hx.1.symm.trans hq.1, hx.2.1.symm.trans hq.2.1⟩,
      decide_eq_false fun hq => hne ⟨hx.1.symm.trans hq.1, hx.2.1.symm.trans hq.2.1⟩⟩
  | assignRole => obtain ⟨-, rfl⟩ := h; rfl
  | revokeRole => obtain ⟨-, -, rfl⟩ := h; rfl
  | activatePrincipal => obtain ⟨-, rfl⟩ := h; rfl
  | deactivatePrincipal => obtain ⟨-, -, -, rfl⟩ := h; rfl
  | retirePrincipal => obtain ⟨-, -, -, rfl⟩ := h; rfl
  | grantPermission => obtain ⟨-, rfl⟩ := h; rfl
  | revokePermission => obtain ⟨-, -, rfl⟩ := h; rfl

theorem Change.assignments (h : Change secured reply M db db') {u r : Uuid} (hM : ¬ M (.openAssignment u r)) :
    db'.userRoles.filter (UserRole.OpenFor u r) = db.userRoles.filter (UserRole.OpenFor u r) := by
  obtain ⟨request, t, o⟩ := reply
  cases request with
  | assignRole u' r' =>
    obtain ⟨hl, rfl⟩ := h
    rw [Iam.addAssignment, List.filter_append]
    have hne : ¬ (u' = u ∧ r' = r) := by rintro ⟨rfl, rfl⟩; exact hM hl
    simp [UserRole.OpenFor, hne]
  | revokeRole u' r' =>
    obtain ⟨hl, -, rfl⟩ := h
    refine filter_mapWhere fun x _ hx => ?_
    have hne : ¬ (u' = u ∧ r' = r) := by rintro ⟨rfl, rfl⟩; exact hM hl
    exact ⟨decide_eq_false fun hq => hne ⟨hx.1.symm.trans hq.1, hx.2.1.symm.trans hq.2.1⟩,
      decide_eq_false fun hq => hne ⟨hx.1.symm.trans hq.1, hx.2.1.symm.trans hq.2.1⟩⟩
  | addGroupMember => obtain ⟨-, p, -, -, rfl⟩ := h; rfl
  | removeGroupMember => obtain ⟨-, rfl⟩ := h; rfl
  | activatePrincipal => obtain ⟨-, rfl⟩ := h; rfl
  | deactivatePrincipal => obtain ⟨-, -, -, rfl⟩ := h; rfl
  | retirePrincipal => obtain ⟨-, -, -, rfl⟩ := h; rfl
  | grantPermission => obtain ⟨-, rfl⟩ := h; rfl
  | revokePermission => obtain ⟨-, -, rfl⟩ := h; rfl

theorem Change.grants (h : Change secured reply M db db') {x : Uuid} {key : String} (hM : ¬ M (.openGrant x key)) :
    db'.principalPermissions.filter (PrincipalPermission.OpenFor x key) =
      db.principalPermissions.filter (PrincipalPermission.OpenFor x key) := by
  obtain ⟨request, t, o⟩ := reply
  cases request with
  | grantPermission x' key' =>
    obtain ⟨hl, rfl⟩ := h
    rw [Iam.addGrant, List.filter_append]
    have hne : ¬ (x' = x ∧ key' = key) := by rintro ⟨rfl, rfl⟩; exact hM hl
    simp [PrincipalPermission.OpenFor, hne]
  | revokePermission x' key' =>
    obtain ⟨hl, -, rfl⟩ := h
    refine filter_mapWhere fun y _ hy => ?_
    have hne : ¬ (x' = x ∧ key' = key) := by rintro ⟨rfl, rfl⟩; exact hM hl
    exact ⟨decide_eq_false fun hq => hne ⟨hy.1.symm.trans hq.1, hy.2.1.symm.trans hq.2.1⟩,
      decide_eq_false fun hq => hne ⟨hy.1.symm.trans hq.1, hy.2.1.symm.trans hq.2.1⟩⟩
  | addGroupMember => obtain ⟨-, p, -, -, rfl⟩ := h; rfl
  | removeGroupMember => obtain ⟨-, rfl⟩ := h; rfl
  | assignRole => obtain ⟨-, rfl⟩ := h; rfl
  | revokeRole => obtain ⟨-, -, rfl⟩ := h; rfl
  | activatePrincipal => obtain ⟨-, rfl⟩ := h; rfl
  | deactivatePrincipal => obtain ⟨-, -, -, rfl⟩ := h; rfl
  | retirePrincipal => obtain ⟨-, -, -, rfl⟩ := h; rfl

/-- another principal's status -/
theorem findById_setStatus {x y : Uuid} (hxy : y ≠ x) (b : Bool) (del : Option Time) (t : Time) :
    (db.setStatus y b del t).findById x = db.findById x := by
  unfold Iam.findById
  rw [← List.head?_filter, ← List.head?_filter]
  congr 1
  refine filter_mapWhere fun p _ hp => ?_
  have hne : p.id ≠ x := fun he => hxy (hp.symm.trans he)
  simp [Principal.setStatus, hne]

theorem Change.principal (h : Change secured reply M db db') {x : Uuid} (hM : ¬ M (.principal x)) :
    db'.findById x = db.findById x := by
  obtain ⟨request, t, o⟩ := reply
  have hset : ∀ y b del, M (.principal y) → (db.setStatus y b del t).findById x = db.findById x := by
    intro y b del hl
    refine findById_setStatus ?_ b del t
    rintro rfl
    exact hM hl
  cases request with
  | activatePrincipal y => obtain ⟨hl, rfl⟩ := h; exact hset y _ _ hl.1
  | deactivatePrincipal y => obtain ⟨⟨p, hp, -⟩, -, -, rfl⟩ := h; exact hset y _ _ hp.1
  | retirePrincipal y => obtain ⟨hl, -, -, rfl⟩ := h; exact hset y _ _ hl.1
  | addGroupMember => obtain ⟨-, p, -, -, rfl⟩ := h; rfl
  | removeGroupMember => obtain ⟨-, rfl⟩ := h; rfl
  | assignRole => obtain ⟨-, rfl⟩ := h; rfl
  | revokeRole => obtain ⟨-, -, rfl⟩ := h; rfl
  | grantPermission => obtain ⟨-, rfl⟩ := h; rfl
  | revokePermission => obtain ⟨-, -, rfl⟩ := h; rfl

/-! ## The holders of the superadmin role -/

theorem mem_activeHolders {r x : Uuid} :
    x ∈ db.activeHolders r ↔ db.Assigned x r ∧ ∃ p ∈ db.principals, p.id = x ∧ p.Usable := by
  simp only [Iam.activeHolders, List.mem_flatMap, List.mem_map, List.mem_filter, decide_eq_true_eq]
  constructor
  · rintro ⟨a, ha, p, ⟨hp, hid, hr, hopen, hus⟩, rfl⟩
    exact ⟨⟨a, ha, hid.symm, hr, hopen⟩, p, hp, rfl, hus⟩
  · rintro ⟨⟨a, ha, rfl, hr, hopen⟩, p, hp, hid, hus⟩
    exact ⟨a, ha, p, ⟨hp, hid, hr, hopen, hus⟩, hid⟩

/-- a holder stays one when the assignments keep its row and the principals keep it usable -/
theorem holder_mono {r x : Uuid} (h : x ∈ db.activeHolders r) (ha : db.Assigned x r → db'.Assigned x r)
    (hp : (∃ p ∈ db.principals, p.id = x ∧ p.Usable) → ∃ p ∈ db'.principals, p.id = x ∧ p.Usable) :
    x ∈ db'.activeHolders r := by
  obtain ⟨h1, h2⟩ := mem_activeHolders.1 h
  exact mem_activeHolders.2 ⟨ha h1, hp h2⟩

theorem usable_setStatus {x y : Uuid} {b : Bool} {del : Option Time} {t : Time} (hxy : x = y → b = true ∧ del = none)
    (h : ∃ p ∈ db.principals, p.id = x ∧ p.Usable) : ∃ p ∈ (db.setStatus y b del t).principals, p.id = x ∧ p.Usable := by
  obtain ⟨p, hp, hid, hus⟩ := h
  by_cases hy : p.id = y
  · exact ⟨_, mem_mapWhere.2 (.inl ⟨p, hp, hy, rfl⟩), hid, hxy (hid.symm.trans hy)⟩
  · exact ⟨p, mem_mapWhere.2 (.inr ⟨hp, hy⟩), hid, hus⟩

theorem assigned_close {u r u' r' actor : Uuid} {t : Time} (hne : ¬ (u' = u ∧ r' = r)) (h : db.Assigned u r) :
    (db.closeAssignment u' r' actor t).Assigned u r := by
  obtain ⟨a, ha, hu, hr, hopen⟩ := h
  have hnot : ¬ a.OpenFor u' r' := fun hf => hne ⟨hf.1.symm.trans hu, hf.2.1.symm.trans hr⟩
  exact ⟨a, mem_mapWhere.2 (.inr ⟨ha, hnot⟩), hu, hr, hopen⟩

/-- A holder is lost only to a transaction that removes it. -/
theorem Change.holder (h : Change secured reply M db db') {r x : Uuid} (hr : db.superadminRoleId = some r)
    (hx : x ∈ db.activeHolders r) :
    x ∈ db'.activeHolders r ∨ (reply.request.target? = some x ∧ Removes secured x M db) := by
  obtain ⟨request, t, o⟩ := reply
  cases request with
  | addGroupMember => obtain ⟨-, p, -, -, rfl⟩ := h; exact .inl hx
  | removeGroupMember => obtain ⟨-, rfl⟩ := h; exact .inl hx
  | grantPermission => obtain ⟨-, rfl⟩ := h; exact .inl hx
  | revokePermission => obtain ⟨-, -, rfl⟩ := h; exact .inl hx
  | assignRole u r' actor at' =>
    obtain ⟨-, rfl⟩ := h
    refine .inl (holder_mono hx (fun ha => ?_) id)
    obtain ⟨a, ha, hau⟩ := ha
    exact ⟨a, List.mem_append_left _ ha, hau⟩
  | revokeRole u r' actor at' =>
    obtain ⟨-, hrem, rfl⟩ := h
    by_cases hsame : u = x ∧ r' = r
    · obtain ⟨rfl, rfl⟩ := hsame
      exact .inr ⟨rfl, hrem hr⟩
    · exact .inl (holder_mono hx (assigned_close hsame) id)
  | activatePrincipal y =>
    obtain ⟨-, rfl⟩ := h
    exact .inl (holder_mono hx id (usable_setStatus fun _ => ⟨rfl, rfl⟩))
  | deactivatePrincipal y =>
    obtain ⟨-, -, hrem, rfl⟩ := h
    by_cases hxy : x = y
    · exact .inr ⟨congrArg some hxy.symm, hxy ▸ hrem⟩
    · exact .inl (holder_mono hx id (usable_setStatus fun he => absurd he hxy))
  | retirePrincipal y =>
    obtain ⟨-, -, hrem, rfl⟩ := h
    by_cases hxy : x = y
    · exact .inr ⟨congrArg some hxy.symm, hxy ▸ hrem⟩
    · exact .inl (holder_mono hx id (usable_setStatus fun he => absurd he hxy))

/-- **Somebody still holds the role**: whoever a transaction removes, it has seen somebody else. -/
theorem Change.held (h : Change secured reply M db db') (hs : secured)
    (hheld : ∃ r, db.superadminRoleId = some r ∧ ∃ u, u ∈ db.activeHolders r) :
    ∃ r, db'.superadminRoleId = some r ∧ ∃ u, u ∈ db'.activeHolders r := by
  obtain ⟨r, hr, u, hu⟩ := hheld
  refine ⟨r, h.static.superadmin.trans hr, ?_⟩
  rcases h.holder hr hu with hstay | ⟨htarget, r', hr', -, hother⟩
  · exact ⟨u, hstay⟩
  · obtain rfl : r' = r := Option.some.inj (hr'.symm.trans hr)
    obtain ⟨x, hx, hxu⟩ := hother hs
    rcases h.holder hr hx with hstay | ⟨htarget', -⟩
    · exact ⟨x, hstay⟩
    · exact absurd (Option.some.inj (htarget'.symm.trans htarget)) hxu

/-! ## Facts that last -/

theorem Meanwhile.memberships (h : Meanwhile secured L db db') {g m : Uuid} (hL : L (.openMembership g m)) :
    db'.groupMemberships.filter (GroupMembership.OpenFor g m) =
      db.groupMemberships.filter (GroupMembership.OpenFor g m) :=
  Interference.keeps (fun d => d.groupMemberships.filter (GroupMembership.OpenFor g m)) h
    fun _ _ _ _ hdisj hc => hc.memberships fun hM => Set.disjoint_left.1 hdisj hM hL

theorem Meanwhile.assignments (h : Meanwhile secured L db db') {u r : Uuid} (hL : L (.openAssignment u r)) :
    db'.userRoles.filter (UserRole.OpenFor u r) = db.userRoles.filter (UserRole.OpenFor u r) :=
  Interference.keeps (fun d => d.userRoles.filter (UserRole.OpenFor u r)) h
    fun _ _ _ _ hdisj hc => hc.assignments fun hM => Set.disjoint_left.1 hdisj hM hL

theorem Meanwhile.grants (h : Meanwhile secured L db db') {x : Uuid} {key : String} (hL : L (.openGrant x key)) :
    db'.principalPermissions.filter (PrincipalPermission.OpenFor x key) =
      db.principalPermissions.filter (PrincipalPermission.OpenFor x key) :=
  Interference.keeps (fun d => d.principalPermissions.filter (PrincipalPermission.OpenFor x key)) h
    fun _ _ _ _ hdisj hc => hc.grants fun hM => Set.disjoint_left.1 hdisj hM hL

theorem Meanwhile.principal (h : Meanwhile secured L db db') {x : Uuid} (hL : L (.principal x)) :
    db'.findById x = db.findById x :=
  Interference.keeps (fun d => d.findById x) h
    fun _ _ _ _ hdisj hc => hc.principal fun hM => Set.disjoint_left.1 hdisj hM hL

/-- while the superadmin role is locked, its holders stay -/
theorem Meanwhile.holder (h : Meanwhile secured L db db') {r x : Uuid} (hr : db.superadminRoleId = some r)
    (hL : L (.role r)) (hx : x ∈ db.activeHolders r) : x ∈ db'.activeHolders r := by
  have hboth : db'.superadminRoleId = some r ∧ x ∈ db'.activeHolders r := by
    refine Interference.preserves h (P := fun d => d.superadminRoleId = some r ∧ x ∈ d.activeHolders r) ?_ ⟨hr, hx⟩
    rintro a b reply M - hdisj hc ⟨hra, hxa⟩
    refine ⟨hc.static.superadmin.trans hra, ?_⟩
    rcases hc.holder hra hxa with hstay | ⟨-, r', hr', hM, -⟩
    · exact hstay
    · obtain rfl : r' = r := Option.some.inj (hr'.symm.trans hra)
      exact absurd hL (Set.disjoint_left.1 hdisj hM)
  exact hboth.2

theorem Removes.meanwhile {u : Uuid} (h : Removes secured u L db) (hd : Meanwhile secured L db db') :
    Removes secured u L db' := by
  obtain ⟨r, hr, hL, hother⟩ := h
  refine ⟨r, hd.static.superadmin.trans hr, hL, fun hs => ?_⟩
  obtain ⟨x, hx, hxu⟩ := hother hs
  exact ⟨x, hd.holder hr hL hx, hxu⟩

theorem Removes.mono {u : Uuid} (h : Removes secured u L db) (hL : L ≤ M) : Removes secured u M db := by
  obtain ⟨r, hr, hl, hother⟩ := h
  exact ⟨r, hr, hL hl, hother⟩

theorem Holds.meanwhile {x : Uuid} {p : Principal} (h : Holds x p L db) (hd : Meanwhile secured L db db') :
    Holds x p L db' := ⟨h.1, (hd.principal h.1).trans h.2⟩

theorem Lives.meanwhile {x : Uuid} (h : Lives x L db) (hd : Meanwhile secured L db db') : Lives x L db' := by
  obtain ⟨hL, p, hp, hdel⟩ := h
  exact ⟨hL, p, (hd.principal hL).trans hp, hdel⟩

/-! ## The schema's constraints -/

theorem mem_openMemberships {g m : Uuid} :
    (g, m) ∈ db.openMemberships ↔ ∃ x ∈ db.groupMemberships, x.OpenFor g m := by
  simp only [Iam.openMemberships, List.mem_map, List.mem_filter, decide_eq_true_eq, Prod.mk.injEq,
    GroupMembership.OpenFor]
  constructor
  · rintro ⟨x, ⟨hx, hopen⟩, hg, hm⟩; exact ⟨x, hx, hg, hm, hopen⟩
  · rintro ⟨x, hx, hg, hm, hopen⟩; exact ⟨x, ⟨hx, hopen⟩, hg, hm⟩

theorem mem_openAssignments {u r : Uuid} : (u, r) ∈ db.openAssignments ↔ ∃ x ∈ db.userRoles, x.OpenFor u r := by
  simp only [Iam.openAssignments, List.mem_map, List.mem_filter, decide_eq_true_eq, Prod.mk.injEq, UserRole.OpenFor]
  constructor
  · rintro ⟨x, ⟨hx, hopen⟩, hg, hm⟩; exact ⟨x, hx, hg, hm, hopen⟩
  · rintro ⟨x, hx, hg, hm, hopen⟩; exact ⟨x, ⟨hx, hopen⟩, hg, hm⟩

theorem mem_openGrants {y : Uuid} {key : String} :
    (y, key) ∈ db.openGrants ↔ ∃ x ∈ db.principalPermissions, x.OpenFor y key := by
  simp only [Iam.openGrants, List.mem_map, List.mem_filter, decide_eq_true_eq, Prod.mk.injEq,
    PrincipalPermission.OpenFor]
  constructor
  · rintro ⟨x, ⟨hx, hopen⟩, hg, hm⟩; exact ⟨x, hx, hg, hm, hopen⟩
  · rintro ⟨x, hx, hg, hm, hopen⟩; exact ⟨x, ⟨hx, hopen⟩, hg, hm⟩

theorem membership_admissible {m : GroupMembership} (h : membershipViolations db m = []) :
    m.defects = [] ∧ m.groupPrincipalId ∈ db.groups ∧
      ∃ p ∈ db.principals, p.id = m.memberPrincipalId ∧ p.type = m.memberType := by
  simp only [membershipViolations, List.append_eq_nil_iff, reference_eq_nil, List.mem_map, Prod.mk.injEq] at h
  obtain ⟨⟨⟨⟨hd, hg⟩, p, hp, hid, hty⟩, -⟩, -⟩ := h
  exact ⟨hd, hg, p, hp, hid, hty⟩

theorem assignment_admissible {a : UserRole} (h : assignmentViolations db a = []) :
    a.defects = [] ∧ a.userPrincipalId ∈ db.users ∧ a.rolePrincipalId ∈ db.roles.map (·.principalId) := by
  simp only [assignmentViolations, List.append_eq_nil_iff, reference_eq_nil] at h
  exact ⟨h.1.1.1.1, h.1.1.1.2, h.1.1.2⟩

theorem grant_admissible {g : PrincipalPermission} (h : grantViolations db g = []) :
    g.defects = [] ∧ g.permissionKey ∈ db.permissions ∧ ∃ p ∈ db.principals, p.id = g.principalId := by
  simp only [grantViolations, List.append_eq_nil_iff, reference_eq_nil, List.mem_map] at h
  exact ⟨h.1.1.1.1, h.1.1.2, h.1.1.1.2⟩

theorem admissible_addMembership (h : db.Admissible) {m : GroupMembership} (hv : membershipViolations db m = [])
    (hopen : m.removedAt = none) (hnew : (m.groupPrincipalId, m.memberPrincipalId) ∉ db.openMemberships) :
    (db.addMembership m).Admissible := by
  refine { h with memberships := fun x hx => ?_, openMembers := ?_ }
  · rcases List.mem_append.1 hx with hx | hx
    · exact h.memberships x hx
    · rw [List.mem_singleton.1 hx]; exact membership_admissible hv
  · have heq : (db.addMembership m).openMemberships = db.openMemberships.concat (m.groupPrincipalId, m.memberPrincipalId) := by
      simp [Iam.openMemberships, Iam.addMembership, hopen]
    rw [heq]; exact h.openMembers.concat hnew

theorem admissible_addAssignment (h : db.Admissible) {a : UserRole} (hv : assignmentViolations db a = [])
    (hopen : a.revokedAt = none) (hnew : (a.userPrincipalId, a.rolePrincipalId) ∉ db.openAssignments) :
    (db.addAssignment a).Admissible := by
  refine { h with userRoles := fun x hx => ?_, assignments := ?_ }
  · rcases List.mem_append.1 hx with hx | hx
    · exact h.userRoles x hx
    · rw [List.mem_singleton.1 hx]; exact assignment_admissible hv
  · have heq : (db.addAssignment a).openAssignments = db.openAssignments.concat (a.userPrincipalId, a.rolePrincipalId) := by
      simp [Iam.openAssignments, Iam.addAssignment, hopen]
    rw [heq]; exact h.assignments.concat hnew

theorem admissible_addGrant (h : db.Admissible) {g : PrincipalPermission} (hv : grantViolations db g = [])
    (hopen : g.revokedAt = none) (hnew : (g.principalId, g.permissionKey) ∉ db.openGrants) :
    (db.addGrant g).Admissible := by
  refine { h with grants := fun x hx => ?_, openGranted := ?_ }
  · rcases List.mem_append.1 hx with hx | hx
    · exact h.grants x hx
    · rw [List.mem_singleton.1 hx]; exact grant_admissible hv
  · have heq : (db.addGrant g).openGrants = db.openGrants.concat (g.principalId, g.permissionKey) := by
      simp [Iam.openGrants, Iam.addGrant, hopen]
    rw [heq]; exact h.openGranted.concat hnew

theorem admissible_closeMembership (h : db.Admissible) {g m actor : Uuid} {at' : Time}
    (hv : ∀ x ∈ db.groupMemberships, x.OpenFor g m → membershipViolations db (x.close actor at') = []) :
    (db.closeMembership g m actor at').Admissible := by
  refine { h with memberships := fun x hx => ?_, openMembers := ?_ }
  · rcases mem_mapWhere.1 hx with ⟨z, hz, hf, rfl⟩ | ⟨hz, -⟩
    · exact membership_admissible (hv z hz hf)
    · exact h.memberships x hz
  · exact ((filter_mapWhere_sublist fun _ _ _ => rfl).map _).nodup h.openMembers

theorem admissible_closeAssignment (h : db.Admissible) {u r actor : Uuid} {at' : Time}
    (hv : ∀ x ∈ db.userRoles, x.OpenFor u r → assignmentViolations db (x.close actor at') = []) :
    (db.closeAssignment u r actor at').Admissible := by
  refine { h with userRoles := fun x hx => ?_, assignments := ?_ }
  · rcases mem_mapWhere.1 hx with ⟨z, hz, hf, rfl⟩ | ⟨hz, -⟩
    · exact assignment_admissible (hv z hz hf)
    · exact h.userRoles x hz
  · exact ((filter_mapWhere_sublist fun _ _ _ => rfl).map _).nodup h.assignments

theorem admissible_closeGrant (h : db.Admissible) {y : Uuid} {key : String} {actor : Uuid} {at' : Time}
    (hv : ∀ x ∈ db.principalPermissions, x.OpenFor y key → grantViolations db (x.close actor at') = []) :
    (db.closeGrant y key actor at').Admissible := by
  refine { h with grants := fun x hx => ?_, openGranted := ?_ }
  · rcases mem_mapWhere.1 hx with ⟨z, hz, hf, rfl⟩ | ⟨hz, -⟩
    · exact grant_admissible (hv z hz hf)
    · exact h.grants x hz
  · exact ((filter_mapWhere_sublist fun _ _ _ => rfl).map _).nodup h.openGranted

/-- references to principals by identifier and type survive what a transaction may do to principals -/
theorem Static.exists_principal (h : Static db db') {P : Uuid → PrincipalType → Prop}
    (hp : ∃ p ∈ db.principals, P p.id p.type) : ∃ p ∈ db'.principals, P p.id p.type := by
  obtain ⟨p, hp, hP⟩ := hp
  have hmem : p.fixed ∈ db'.principals.map Principal.fixed := h.principals ▸ List.mem_map_of_mem hp
  obtain ⟨q, hq, he⟩ := List.mem_map.1 hmem
  have hid : q.id = p.id := congrArg (·.1) he
  have hty : q.type = p.type := congrArg (·.2.1) he
  exact ⟨q, hq, hid ▸ hty ▸ hP⟩

theorem admissible_setStatus (h : db.Admissible) {x : Uuid} {b : Bool} {del : Option Time} {t : Time}
    (hv : ∀ p ∈ db.principals, p.id = x → (p.setStatus b del t).defects = []) : (db.setStatus x b del t).Admissible := by
  have hs := static_setStatus db x b del t
  have hid : (db.setStatus x b del t).principals.map (·.id) = db.principals.map (·.id) := hs.map_principals (·.1)
  refine { h with principalIds := ?_, principals := ?_, users := ?_, roles := ?_, groups := ?_, memberships := ?_,
                  grants := ?_ }
  · rw [hid]; exact h.principalIds
  · intro p hp
    rcases mem_mapWhere.1 hp with ⟨z, hz, hx, rfl⟩ | ⟨hz, -⟩
    · exact hv z hz hx
    · exact h.principals p hz
  · exact fun u hu => hs.exists_principal (P := fun i _ => i = u) (h.users u hu)
  · exact fun r hr => hs.exists_principal (P := fun i _ => i = r.principalId) (h.roles r hr)
  · exact fun g hg => hs.exists_principal (P := fun i _ => i = g) (h.groups g hg)
  · intro m hm
    obtain ⟨hd, hg, hp⟩ := h.memberships m hm
    exact ⟨hd, hg, hs.exists_principal (P := fun i ty => i = m.memberPrincipalId ∧ ty = m.memberType) hp⟩
  · intro g hg
    obtain ⟨hd, hk, hp⟩ := h.grants g hg
    exact ⟨hd, hk, hs.exists_principal (P := fun i _ => i = g.principalId) hp⟩

theorem Static.typed (h : Static db db') (ht : db.Typed) : db'.Typed := by
  have hback : ∀ p ∈ db'.principals, ∃ q ∈ db.principals, q.id = p.id ∧ q.type = p.type := by
    intro p hp
    have hmem : p.fixed ∈ db.principals.map Principal.fixed := h.principals ▸ List.mem_map_of_mem hp
    obtain ⟨q, hq, he⟩ := List.mem_map.1 hmem
    exact ⟨q, hq, congrArg (·.1) he, congrArg (·.2.1) he⟩
  refine ⟨fun p hp hu => ?_, fun p hp hr => ?_, fun p hp hg => ?_⟩
  · obtain ⟨q, hq, hid, hty⟩ := hback p hp
    exact hty ▸ ht.users q hq (hid ▸ h.users ▸ hu)
  · obtain ⟨q, hq, hid, hty⟩ := hback p hp
    exact hty ▸ ht.roles q hq (hid ▸ h.roles ▸ hr)
  · obtain ⟨q, hq, hid, hty⟩ := hback p hp
    exact hty ▸ ht.groups q hq (hid ▸ h.groups ▸ hg)

theorem Change.good (h : Change secured reply L db db') (hG : Good secured db) (hadm : db'.Admissible) :
    Good secured db' := ⟨hadm, fun hs => h.static.typed (hG.typed hs), fun hs => h.held hs (hG.held hs)⟩

end AtlasRag.Identity
