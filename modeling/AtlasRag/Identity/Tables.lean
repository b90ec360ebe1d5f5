/-
The schema `iam`: principals, users, roles, groups, role assignments, group memberships, permissions and grants.

Assignments, memberships and grants are never deleted; a closed one keeps its row with the time at which it was closed.
Left out are the columns that nothing here reads: names, descriptions, group keys, the timestamps of the class tables, and
the row keys of the last three tables.

`Admissible` says what the schema enforces: primary keys, references, CHECKs, and the partial unique indexes by which a
pair has at most one open row. `Typed` says what the schema leaves to its writers: a row of `users` (of `roles`, of
`groups`) belongs to a principal of that type.
-/
import AtlasRag.Platform.Postgres

namespace AtlasRag.Identity

open AtlasRag.Platform

inductive PrincipalType where
  | user
  | role
  | group
deriving DecidableEq, Repr

instance : LawfulBEq (Uuid × PrincipalType) := inferInstance

/-! ## Rows -/

structure Principal where
  id : Uuid
  type : PrincipalType
  isActive : Bool
  createdAt : Time
  statusChangedAt : Time
  deletedAt : Option Time
deriving DecidableEq, Repr

/-- active and not retired -/
def Principal.Usable (p : Principal) : Prop := p.isActive = true ∧ p.deletedAt = none

instance (p : Principal) : Decidable p.Usable := inferInstanceAs (Decidable (_ ∧ _))

def Principal.defects (p : Principal) : List Violation :=
  checkThat "deleted_principal_inactive" (p.deletedAt = none ∨ p.isActive = false) ++
  checkThat "status_changed_not_before_created" (p.createdAt ≤ p.statusChangedAt)

structure Role where
  principalId : Uuid
  roleKey : String
deriving DecidableEq, Repr

structure UserRole where
  userPrincipalId : Uuid
  rolePrincipalId : Uuid
  assignedAt : Time
  assignedByPrincipalId : Option Uuid
  revokedAt : Option Time
  revokedByPrincipalId : Option Uuid
deriving DecidableEq, Repr

def UserRole.defects (r : UserRole) : List Violation :=
  checkThat "revoked_not_before_assigned" (∀ x ∈ r.revokedAt, r.assignedAt ≤ x)

structure GroupMembership where
  groupPrincipalId : Uuid
  memberPrincipalId : Uuid
  memberType : PrincipalType
  addedAt : Time
  addedByPrincipalId : Option Uuid
  removedAt : Option Time
  removedByPrincipalId : Option Uuid
deriving DecidableEq, Repr

def GroupMembership.defects (m : GroupMembership) : List Violation :=
  checkThat "member_type_user_or_group" (m.memberType = .user ∨ m.memberType = .group) ++
  checkThat "no_self_membership" (m.groupPrincipalId ≠ m.memberPrincipalId) ++
  checkThat "removed_not_before_added" (∀ x ∈ m.removedAt, m.addedAt ≤ x)

structure PrincipalPermission where
  principalId : Uuid
  permissionKey : String
  grantedAt : Time
  grantedByPrincipalId : Option Uuid
  revokedAt : Option Time
  revokedByPrincipalId : Option Uuid
deriving DecidableEq, Repr

def PrincipalPermission.defects (g : PrincipalPermission) : List Violation :=
  checkThat "principal_permission_revoked_not_before_granted" (∀ x ∈ g.revokedAt, g.grantedAt ≤ x)

/-- the schema `iam`; `users` and `groups` are the keys of the two tables, `permissions` the registered keys -/
structure Iam where
  principals : List Principal
  users : List Uuid
  roles : List Role
  groups : List Uuid
  userRoles : List UserRole
  groupMemberships : List GroupMembership
  permissions : List String
  principalPermissions : List PrincipalPermission
deriving DecidableEq, Repr

/-! ## What the tables say -/

namespace Iam

/-- a principal of this type that is active and not retired -/
def Active (db : Iam) (ty : PrincipalType) (x : Uuid) : Prop := ∃ p ∈ db.principals, p.id = x ∧ p.type = ty ∧ p.Usable

/-- an active user that is not retired -/
def ActiveUser (db : Iam) (u : Uuid) : Prop := u ∈ db.users ∧ db.Active .user u

/-- the user has an open assignment of the role -/
def Assigned (db : Iam) (u r : Uuid) : Prop :=
  ∃ a ∈ db.userRoles, a.userPrincipalId = u ∧ a.rolePrincipalId = r ∧ a.revokedAt = none

/-- the principal has an open membership in the group -/
def Member (db : Iam) (x g : Uuid) : Prop :=
  ∃ m ∈ db.groupMemberships, m.memberPrincipalId = x ∧ m.groupPrincipalId = g ∧ m.removedAt = none

/-- the principal has an open grant of the permission -/
def Granted (db : Iam) (x : Uuid) (key : String) : Prop :=
  ∃ g ∈ db.principalPermissions, g.principalId = x ∧ g.permissionKey = key ∧ g.revokedAt = none

instance (db : Iam) (ty : PrincipalType) (x : Uuid) : Decidable (db.Active ty x) :=
  inferInstanceAs (Decidable (∃ p ∈ db.principals, _))

instance (db : Iam) (u : Uuid) : Decidable (db.ActiveUser u) := inferInstanceAs (Decidable (_ ∧ _))

instance (db : Iam) (u r : Uuid) : Decidable (db.Assigned u r) := inferInstanceAs (Decidable (∃ a ∈ db.userRoles, _))

instance (db : Iam) (x g : Uuid) : Decidable (db.Member x g) :=
  inferInstanceAs (Decidable (∃ m ∈ db.groupMemberships, _))

instance (db : Iam) (x : Uuid) (key : String) : Decidable (db.Granted x key) :=
  inferInstanceAs (Decidable (∃ g ∈ db.principalPermissions, _))

/-- the pairs of the open rows of the three tables -/
def openAssignments (db : Iam) : List (Uuid × Uuid) :=
  (db.userRoles.filter (·.revokedAt = none)).map fun a => (a.userPrincipalId, a.rolePrincipalId)

def openMemberships (db : Iam) : List (Uuid × Uuid) :=
  (db.groupMemberships.filter (·.removedAt = none)).map fun m => (m.groupPrincipalId, m.memberPrincipalId)

def openGrants (db : Iam) : List (Uuid × String) :=
  (db.principalPermissions.filter (·.revokedAt = none)).map fun g => (g.principalId, g.permissionKey)

/-- what the schema enforces -/
structure Admissible (db : Iam) : Prop where
  principalIds : (db.principals.map (·.id)).Nodup
  principals : ∀ p ∈ db.principals, p.defects = []
  users : ∀ u ∈ db.users, ∃ p ∈ db.principals, p.id = u
  roles : ∀ r ∈ db.roles, ∃ p ∈ db.principals, p.id = r.principalId
  roleKeys : (db.roles.map (·.roleKey)).Nodup
  groups : ∀ g ∈ db.groups, ∃ p ∈ db.principals, p.id = g
  userRoles : ∀ a ∈ db.userRoles, a.defects = [] ∧ a.userPrincipalId ∈ db.users ∧
    a.rolePrincipalId ∈ db.roles.map (·.principalId)
  assignments : db.openAssignments.Nodup
  memberships : ∀ m ∈ db.groupMemberships, m.defects = [] ∧ m.groupPrincipalId ∈ db.groups ∧
    ∃ p ∈ db.principals, p.id = m.memberPrincipalId ∧ p.type = m.memberType
  openMembers : db.openMemberships.Nodup
  grants : ∀ g ∈ db.principalPermissions, g.defects = [] ∧ g.permissionKey ∈ db.permissions ∧
    ∃ p ∈ db.principals, p.id = g.principalId
  openGranted : db.openGrants.Nodup

/-- the rows of the class tables belong to principals of their types -/
structure Typed (db : Iam) : Prop where
  users : ∀ p ∈ db.principals, p.id ∈ db.users → p.type = .user
  roles : ∀ p ∈ db.principals, p.id ∈ db.roles.map (·.principalId) → p.type = .role
  groups : ∀ p ∈ db.principals, p.id ∈ db.groups → p.type = .group

end Iam

end AtlasRag.Identity
