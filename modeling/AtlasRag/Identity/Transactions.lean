/-
The transactions of the identity services, statement by statement, as programs of `Lib.Transaction`.

`find_by_id` and `lock_superadmin_role` read FOR UPDATE; an INSERT holds the key of its open pair, an UPDATE the rows it
matched, to the end of the transaction. An open pair has at most one row, so `openMembership g m` stands for the row and
for its key in the partial unique index alike. The locks that a foreign-key check takes are left out: all they can do is
make a transaction wait.

`t` is the database time at which the transaction began (`now()` in SQL); the times of the application clock are arguments
of the request.
-/
import AtlasRag.Lib.Table
import AtlasRag.Lib.Transaction
import AtlasRag.Identity.EffectivePrincipals

namespace AtlasRag.Identity

open AtlasRag.Lib AtlasRag.Lib.Closure AtlasRag.Lib.Table AtlasRag.Lib.Transaction AtlasRag.Platform

def SUPERADMIN_ROLE_KEY : String := "superadmin"

/-- the errors of the services; `integrity`: an `IntegrityError` that no service translates -/
inductive IdentityError where
  | principalNotFound (principalId : Uuid) (role : String)
  | principalRetired (principalId : Uuid) (role : String)
  | principalInactive (principalId : Uuid) (role : String)
  | groupSelfMembership (groupId memberId : Uuid)
  | groupPrincipalRequired (principalId : Uuid)
  | groupMemberTypeNotAllowed (principalId : Uuid) (principalType : PrincipalType)
  | groupMembershipAlreadyExists (groupId memberId : Uuid)
  | groupMembershipNotFound (groupId memberId : Uuid)
  | groupCycleDetected (groupId memberId : Uuid)
  | roleAssignmentUserNotFound (userPrincipalId : Uuid)
  | roleAssignmentRoleNotFound (rolePrincipalId : Uuid)
  | roleAssignmentConflict (userPrincipalId rolePrincipalId : Uuid)
  | roleAssignmentNotFound (userPrincipalId rolePrincipalId : Uuid)
  | permissionTargetNotFound (principalId : Uuid)
  | permissionTargetRetired (principalId : Uuid)
  | permissionTargetInactive (principalId : Uuid)
  | permissionNotFound (permission : String)
  | permissionGrantConflict (principalId : Uuid) (permission : String)
  | permissionGrantNotFound (principalId : Uuid) (permission : String)
  | protectedSuperadminRole (operation : String)
  | lastSuperadminViolation (userPrincipalId : Uuid) (operation : String)
  | integrity (violations : List Violation)
deriving DecidableEq, Repr

inductive Outcome where
  | done
  /-- returned without a change -/
  | unchanged
  | raised (e : IdentityError)
deriving DecidableEq, Repr

inductive Request where
  | addGroupMember (groupId memberId actorId : Uuid) (addedAt : Time)
  | removeGroupMember (groupId memberId actorId : Uuid) (removedAt : Time)
  | assignRole (userPrincipalId rolePrincipalId actorPrincipalId : Uuid) (assignedAt : Time)
  | revokeRole (userPrincipalId rolePrincipalId actorPrincipalId : Uuid) (revokedAt : Time)
  | activatePrincipal (principalId : Uuid)
  | deactivatePrincipal (principalId : Uuid)
  | retirePrincipal (principalId : Uuid)
  | grantPermission (principalId : Uuid) (permission : String) (actorPrincipalId : Uuid) (grantedAt : Time)
  | revokePermission (principalId : Uuid) (permission : String) (actorPrincipalId : Uuid) (revokedAt : Time)
deriving DecidableEq, Repr

structure Reply where
  request : Request
  t : Time
  outcome : Outcome
deriving DecidableEq, Repr

inductive IamRow where
  | principal (id : Uuid)
  | role (principalId : Uuid)
  | openMembership (groupId memberId : Uuid)
  | openAssignment (userId roleId : Uuid)
  | openGrant (principalId : Uuid) (permission : String)
deriving DecidableEq, Repr

abbrev Tx := Txn Iam IamRow Reply

/-! ## Reads -/

namespace Iam

def findById (db : Iam) (x : Uuid) : Option Principal := db.principals.find? (·.id = x)

/-- `SuperadminRepository.find_superadmin_role_id` -/
def superadminRoleId (db : Iam) : Option Uuid := (db.roles.find? (·.roleKey = SUPERADMIN_ROLE_KEY)).map (·.principalId)

/-- the join of `user_roles` and `principals` by which the holders of a role are counted -/
def activeHolders (db : Iam) (role : Uuid) : List Uuid :=
  db.userRoles.flatMap fun a => (db.principals.filter fun p => p.id = a.userPrincipalId ∧ a.rolePrincipalId = role ∧
    a.revokedAt = none ∧ p.Usable).map (·.id)

/-- `SuperadminRepository.user_has_superadmin_role`, for the role it has found -/
def userHasRole (db : Iam) (u role : Uuid) : Bool := decide (u ∈ db.activeHolders role)

/-- the memberships that the cycle check follows: group to member group -/
def memberGroups (db : Iam) : List (Uuid × Uuid) :=
  (db.groupMemberships.filter fun m => m.memberType = .group ∧ m.removedAt = none).map fun m =>
    (m.groupPrincipalId, m.memberPrincipalId)

/-- the recursive CTE `reachable_groups` -/
def reachableGroups (db : Iam) (member : Uuid) : Option (Finset Uuid) :=
  let direct := image db.memberGroups {member}
  evaluate db.memberGroups (db.memberGroups.length + 2) direct direct

/-- `GroupMembershipRepository.would_create_cycle` -/
def wouldCreateCycle (db : Iam) (group member : Uuid) : Bool :=
  ((db.reachableGroups member).map fun S => decide (group ∈ S)).getD false

end Iam

/-! ## Rows that a statement writes -/

/-- who made a change must be a principal -/
def actorReference (db : Iam) (column : String) (actor : Option Uuid) : List Violation :=
  reference column (∀ a ∈ actor, a ∈ db.principals.map (·.id))

def membershipViolations (db : Iam) (m : GroupMembership) : List Violation :=
  m.defects ++ reference "group_principal_id" (m.groupPrincipalId ∈ db.groups) ++
  reference "member_principal_id" ((m.memberPrincipalId, m.memberType) ∈ db.principals.map fun p => (p.id, p.type)) ++
  actorReference db "added_by_principal_id" m.addedByPrincipalId ++
  actorReference db "removed_by_principal_id" m.removedByPrincipalId

def assignmentViolations (db : Iam) (a : UserRole) : List Violation :=
  a.defects ++ reference "user_principal_id" (a.userPrincipalId ∈ db.users) ++
  reference "role_principal_id" (a.rolePrincipalId ∈ db.roles.map (·.principalId)) ++
  actorReference db "assigned_by_principal_id" a.assignedByPrincipalId ++
  actorReference db "revoked_by_principal_id" a.revokedByPrincipalId

def grantViolations (db : Iam) (g : PrincipalPermission) : List Violation :=
  g.defects ++ reference "principal_id" (g.principalId ∈ db.principals.map (·.id)) ++
  reference "permission_key" (g.permissionKey ∈ db.permissions) ++
  actorReference db "granted_by_principal_id" g.grantedByPrincipalId ++
  actorReference db "revoked_by_principal_id" g.revokedByPrincipalId

def MEMBERSHIP_INDEX : String := "uq_group_memberships_active_membership"

def ASSIGNMENT_INDEX : String := "uq_user_roles_active_assignment"

def GRANT_INDEX : String := "uq_principal_permissions_active"

/-- the open row of a pair -/
def GroupMembership.OpenFor (g m : Uuid) (x : GroupMembership) : Prop :=
  x.groupPrincipalId = g ∧ x.memberPrincipalId = m ∧ x.removedAt = none

def UserRole.OpenFor (u r : Uuid) (x : UserRole) : Prop :=
  x.userPrincipalId = u ∧ x.rolePrincipalId = r ∧ x.revokedAt = none

def PrincipalPermission.OpenFor (p : Uuid) (key : String) (x : PrincipalPermission) : Prop :=
  x.principalId = p ∧ x.permissionKey = key ∧ x.revokedAt = none

instance (g m : Uuid) (x : GroupMembership) : Decidable (x.OpenFor g m) := inferInstanceAs (Decidable (_ ∧ _ ∧ _))
instance (u r : Uuid) (x : UserRole) : Decidable (x.OpenFor u r) := inferInstanceAs (Decidable (_ ∧ _ ∧ _))
instance (p : Uuid) (key : String) (x : PrincipalPermission) : Decidable (x.OpenFor p key) :=
  inferInstanceAs (Decidable (_ ∧ _ ∧ _))

def GroupMembership.close (actor : Uuid) (at' : Time) (x : GroupMembership) : GroupMembership :=
  { x with removedAt := some at', removedByPrincipalId := some actor }

def UserRole.close (actor : Uuid) (at' : Time) (x : UserRole) : UserRole :=
  { x with revokedAt := some at', revokedByPrincipalId := some actor }

def PrincipalPermission.close (actor : Uuid) (at' : Time) (x : PrincipalPermission) : PrincipalPermission :=
  { x with revokedAt := some at', revokedByPrincipalId := some actor }

def Principal.setStatus (isActive : Bool) (deletedAt : Option Time) (t : Time) (p : Principal) : Principal :=
  { p with isActive := isActive, deletedAt := deletedAt, statusChangedAt := t }

/-! ## Changes of the tables -/

namespace Iam

def addMembership (db : Iam) (m : GroupMembership) : Iam := { db with groupMemberships := db.groupMemberships ++ [m] }

def addAssignment (db : Iam) (a : UserRole) : Iam := { db with userRoles := db.userRoles ++ [a] }

def addGrant (db : Iam) (g : PrincipalPermission) : Iam :=
  { db with principalPermissions := db.principalPermissions ++ [g] }

def closeMembership (db : Iam) (g m actor : Uuid) (at' : Time) : Iam :=
  let close := GroupMembership.close actor at'
  { db with groupMemberships := mapWhere (GroupMembership.OpenFor g m) close db.groupMemberships }

def closeAssignment (db : Iam) (u r actor : Uuid) (at' : Time) : Iam :=
  let close := UserRole.close actor at'
  { db with userRoles := mapWhere (UserRole.OpenFor u r) close db.userRoles }

def closeGrant (db : Iam) (p : Uuid) (key : String) (actor : Uuid) (at' : Time) : Iam :=
  let close := PrincipalPermission.close actor at'
  { db with principalPermissions := mapWhere (PrincipalPermission.OpenFor p key) close db.principalPermissions }

def setStatus (db : Iam) (x : Uuid) (isActive : Bool) (deletedAt : Option Time) (t : Time) : Iam :=
  { db with principals := mapWhere (·.id = x) (Principal.setStatus isActive deletedAt t) db.principals }

end Iam

/-! ## Programs -/

section Programs

variable (reply : Outcome → Reply)

/-- the transaction raises -/
def raise (e : IdentityError) : Tx := .rollback (reply (.raised e))

/-- `find_by_id`, FOR UPDATE -/
def findById (x : Uuid) (k : Option Principal → Tx) : Tx :=
  .stmt (fun db => (db.findById x).toList.map fun _ => .principal x) fun db => k (db.findById x)

/-- `_update_status` and the commit -/
def updateStatus (x : Uuid) (isActive : Bool) (deletedAt : Option Time) (t : Time) : Tx :=
  .stmt (fun db => (db.findById x).toList.map fun _ => .principal x) fun db =>
    match updateWhere Principal.defects (·.id = x) (Principal.setStatus isActive deletedAt t) db.principals with
    | .error es => raise reply (.integrity es)
    | .ok _ => .commit (fun db => db.setStatus x isActive deletedAt t) (reply .done)

/-- `SuperadminPolicy.is_superadmin_role` -/
def isSuperadminRole (x : Uuid) (k : Bool → Tx) : Tx := .read fun db => k (decide (db.superadminRoleId = some x))

/-- `SuperadminPolicy.protect_role_lifecycle` -/
def protectRoleLifecycle (x : Uuid) (operation : String) (k : Tx) : Tx :=
  isSuperadminRole x fun isSuperadmin => if isSuperadmin then raise reply (.protectedSuperadminRole operation) else k

/-- `SuperadminPolicy.protect_user_removal` -/
def protectUserRemoval (u : Uuid) (operation : String) (k : Tx) : Tx :=
  .stmt (fun db => db.superadminRoleId.toList.map .role) fun db =>
    match db.superadminRoleId with
    | none => raise reply (.protectedSuperadminRole "validate superadmin invariant")
    | some roleId =>
      .read fun db =>
        match db.superadminRoleId with
        | none => k
        | some found =>
          .read fun db =>
            if db.userHasRole u found then
              .read fun db =>
                if (db.activeHolders roleId).length ≤ 1 then raise reply (.lastSuperadminViolation u operation) else k
            else k

namespace GroupMembershipService

/-- the checks of `_ensure_active` and `_ensure_group`, in the order in which a caller makes them -/
def ensureActive (p : Principal) (role : String) (k : Tx) : Tx :=
  if p.deletedAt ≠ none then raise reply (.principalRetired p.id role)
  else if p.isActive = false then raise reply (.principalInactive p.id role)
  else k

def ensureGroup (p : Principal) (k : Tx) : Tx := if p.type ≠ .group then raise reply (.groupPrincipalRequired p.id) else k

def getAllowedMemberType (p : Principal) (k : PrincipalType → Tx) : Tx :=
  if p.type = .user ∨ p.type = .group then k p.type else raise reply (.groupMemberTypeNotAllowed p.id p.type)

/-- `add_membership` and the commit -/
def addMembership (groupId memberId : Uuid) (memberType : PrincipalType) (actorId : Uuid) (addedAt : Time) : Tx :=
  let m : GroupMembership := ⟨groupId, memberId, memberType, addedAt, some actorId, none, none⟩
  .stmt (fun _ => [.openMembership groupId memberId]) fun db =>
    match membershipViolations db m ++ uniqueIndex MEMBERSHIP_INDEX ((groupId, memberId) ∈ db.openMemberships) with
    | [] => .commit (fun db => db.addMembership m) (reply .done)
    | es => if .unique MEMBERSHIP_INDEX ∈ es then raise reply (.groupMembershipAlreadyExists groupId memberId)
      else raise reply (.integrity es)

def addGroupMember (groupId memberId actorId : Uuid) (addedAt : Time) : Tx :=
  if groupId = memberId then raise reply (.groupSelfMembership groupId memberId)
  else findById groupId fun
    | none => raise reply (.principalNotFound groupId "group")
    | some group =>
      ensureActive reply group "group" <| ensureGroup reply group <|
      findById memberId fun
        | none => raise reply (.principalNotFound memberId "member")
        | some member =>
          ensureActive reply member "member" <| getAllowedMemberType reply member fun memberType =>
          .read fun db =>
            if (groupId, memberId) ∈ db.openMemberships then
              raise reply (.groupMembershipAlreadyExists groupId memberId)
            else if memberType = .group then
              .read fun db =>
                if db.wouldCreateCycle groupId memberId then raise reply (.groupCycleDetected groupId memberId)
                else addMembership reply groupId memberId memberType actorId addedAt
            else addMembership reply groupId memberId memberType actorId addedAt

def removeGroupMember (groupId memberId actorId : Uuid) (removedAt : Time) : Tx :=
  findById groupId fun
  | none => raise reply (.principalNotFound groupId "group")
  | some group =>
    ensureGroup reply group <|
    findById memberId fun
      | none => raise reply (.principalNotFound memberId "member")
      | some member =>
        getAllowedMemberType reply member fun _ =>
        .stmt (fun db => if (groupId, memberId) ∈ db.openMemberships then [.openMembership groupId memberId] else [])
          fun db =>
            match updateWhere (membershipViolations db) (GroupMembership.OpenFor groupId memberId)
              (GroupMembership.close actorId removedAt) db.groupMemberships with
            | .error es => raise reply (.integrity es)
            | .ok (_, n) =>
              if 0 < n then .commit (fun db => db.closeMembership groupId memberId actorId removedAt) (reply .done)
              else raise reply (.groupMembershipNotFound groupId memberId)

end GroupMembershipService

namespace RoleAssignmentService

/-- `_ensure_targets_exist` -/
def ensureTargetsExist (u r : Uuid) (k : Tx) : Tx :=
  .read fun db =>
    if u ∈ db.users then
      .read fun db =>
        if r ∈ db.roles.map (·.principalId) then k else raise reply (.roleAssignmentRoleNotFound r)
    else raise reply (.roleAssignmentUserNotFound u)

def assignRole (u r actor : Uuid) (assignedAt : Time) : Tx :=
  let a : UserRole := ⟨u, r, assignedAt, some actor, none, none⟩
  ensureTargetsExist reply u r <|
  .read fun db =>
    if (u, r) ∈ db.openAssignments then raise reply (.roleAssignmentConflict u r)
    else
      .stmt (fun _ => [.openAssignment u r]) fun db =>
        match assignmentViolations db a ++ uniqueIndex ASSIGNMENT_INDEX ((u, r) ∈ db.openAssignments) with
        | [] => .commit (fun db => db.addAssignment a) (reply .done)
        | _ => raise reply (.roleAssignmentConflict u r)

/-- `close_active_assignment` and the commit -/
def closeActiveAssignment (u r actor : Uuid) (revokedAt : Time) : Tx :=
  .stmt (fun db => if (u, r) ∈ db.openAssignments then [.openAssignment u r] else []) fun db =>
    match updateWhere (assignmentViolations db) (UserRole.OpenFor u r) (UserRole.close actor revokedAt) db.userRoles with
    | .error es => raise reply (.integrity es)
    | .ok (_, n) =>
      if 0 < n then .commit (fun db => db.closeAssignment u r actor revokedAt) (reply .done)
      else raise reply (.roleAssignmentNotFound u r)

def revokeRole (u r actor : Uuid) (revokedAt : Time) : Tx :=
  ensureTargetsExist reply u r <|
  .read fun db =>
    if (u, r) ∈ db.openAssignments then
      isSuperadminRole r fun isSuperadmin =>
        if isSuperadmin then
          protectUserRemoval reply u "revoke superadmin role" (closeActiveAssignment reply u r actor revokedAt)
        else closeActiveAssignment reply u r actor revokedAt
    else raise reply (.roleAssignmentNotFound u r)

end RoleAssignmentService

namespace PrincipalLifecycle

/-- `_get_principal` and `_ensure_not_retired` -/
def getPrincipal (x : Uuid) (k : Principal → Tx) : Tx :=
  findById x fun
  | none => raise reply (.principalNotFound x "principal")
  | some p => if p.deletedAt ≠ none then raise reply (.principalRetired p.id "principal") else k p

def activatePrincipal (x : Uuid) (t : Time) : Tx :=
  getPrincipal reply x fun p =>
    if p.isActive then .rollback (reply .unchanged) else updateStatus reply x true none t

def deactivatePrincipal (x : Uuid) (t : Time) : Tx :=
  getPrincipal reply x fun p =>
    if p.isActive = false then .rollback (reply .unchanged)
    else
      protectRoleLifecycle reply x "deactivate principal" <| protectUserRemoval reply x "deactivate principal" <|
      updateStatus reply x false none t

def retirePrincipal (x : Uuid) (t : Time) : Tx :=
  getPrincipal reply x fun _ =>
    protectRoleLifecycle reply x "retire principal" <| protectUserRemoval reply x "retire principal" <|
    updateStatus reply x false (some t) t

end PrincipalLifecycle

namespace PermissionManagementService

/-- `_ensure_registered` -/
def ensureRegistered (permission : String) (k : Tx) : Tx :=
  .read fun db => if permission ∈ db.permissions then k else raise reply (.permissionNotFound permission)

/-- the grant is inserted when the commit flushes it -/
def grantPermission (x : Uuid) (permission : String) (actor : Uuid) (grantedAt : Time) : Tx :=
  let g : PrincipalPermission := ⟨x, permission, grantedAt, some actor, none, none⟩
  findById x fun
  | none => raise reply (.permissionTargetNotFound x)
  | some p =>
    if p.deletedAt ≠ none then raise reply (.permissionTargetRetired x)
    else if p.isActive = false then raise reply (.permissionTargetInactive x)
    else
      ensureRegistered reply permission <|
      .read fun db =>
        if (x, permission) ∈ db.openGrants then raise reply (.permissionGrantConflict x permission)
        else
          .stmt (fun _ => [.openGrant x permission]) fun db =>
            match grantViolations db g ++ uniqueIndex GRANT_INDEX ((x, permission) ∈ db.openGrants) with
            | [] => .commit (fun db => db.addGrant g) (reply .done)
            | _ => raise reply (.permissionGrantConflict x permission)

def revokePermission (x : Uuid) (permission : String) (actor : Uuid) (revokedAt : Time) : Tx :=
  ensureRegistered reply permission <|
  protectRoleLifecycle reply x ("revoke " ++ permission) <|
  .stmt (fun db => if (x, permission) ∈ db.openGrants then [.openGrant x permission] else []) fun db =>
    match updateWhere (grantViolations db) (PrincipalPermission.OpenFor x permission)
      (PrincipalPermission.close actor revokedAt) db.principalPermissions with
    | .error es => raise reply (.integrity es)
    | .ok (_, n) =>
      if 0 < n then .commit (fun db => db.closeGrant x permission actor revokedAt) (reply .done)
      else raise reply (.permissionGrantNotFound x permission)

end PermissionManagementService

end Programs

/-- the transaction of a request that begins at the database time `t` -/
def Request.txn (t : Time) (q : Request) : Tx :=
  let reply o : Reply := ⟨q, t, o⟩
  match q with
  | .addGroupMember g m actor at' => GroupMembershipService.addGroupMember reply g m actor at'
  | .removeGroupMember g m actor at' => GroupMembershipService.removeGroupMember reply g m actor at'
  | .assignRole u r actor at' => RoleAssignmentService.assignRole reply u r actor at'
  | .revokeRole u r actor at' => RoleAssignmentService.revokeRole reply u r actor at'
  | .activatePrincipal x => PrincipalLifecycle.activatePrincipal reply x t
  | .deactivatePrincipal x => PrincipalLifecycle.deactivatePrincipal reply x t
  | .retirePrincipal x => PrincipalLifecycle.retirePrincipal reply x t
  | .grantPermission x permission actor at' => PermissionManagementService.grantPermission reply x permission actor at'
  | .revokePermission x permission actor at' => PermissionManagementService.revokePermission reply x permission actor at'

/-- sessions run the transactions of requests -/
def Begins (p : Tx) : Prop := ∃ (q : Request) (t : Time), p = q.txn t

abbrev State := RowLock.Sys Iam Tx IamRow Reply

end AtlasRag.Identity
