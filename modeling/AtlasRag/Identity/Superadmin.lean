/-
Nobody can lock the superadmins out.

`Secured` is what the bootstrap sets up: the superadmin role is active, it has every management permission, and an active
user holds it. Every transaction that takes a principal out of use, or the role from a user, locks the row of the
superadmin role before it counts who holds it, and one that would touch the role itself is refused; so `Secured` is kept
by every commit, in every interleaving.

Results:
- `Change.keepsSecured`: a commit keeps it;
- `Iam.Secured.isAllowed`: where it holds, one user is allowed everything;
- `no_superadmin_lockout`: it holds in every committed state of every run.
Premises of `no_superadmin_lockout`, all on the first state: the constraints of the schema hold, the superadmin role is in
force, and the rows of `users`, `roles` and `groups` belong to principals of those types (`Iam.Typed`). No constraint
states the last one; the services write the row of the type of each principal they insert, and every step of a run keeps
it.
Witness `no_superadmin_lockout_race`: of two superadmins each takes the role from the other while a third transaction
deactivates one of them; the later two are refused.
-/
import AtlasRag.Identity.Safety

namespace AtlasRag.Identity

open AtlasRag.Lib AtlasRag.Lib.RowLock AtlasRag.Lib.Table AtlasRag.Lib.Transaction AtlasRag.Platform

def ALL_MANAGEMENT_PERMISSIONS : List String :=
  ["iam.principals.manage", "iam.roles.manage", "iam.groups.manage", "iam.permissions.manage",
    "knowledge.documents.manage", "knowledge.document_acl.manage"]

namespace Iam

/-- an open grant that has begun by `t` -/
def GrantedBy (db : Iam) (x : Uuid) (key : String) (t : Time) : Prop :=
  ∃ g ∈ db.principalPermissions, g.principalId = x ∧ g.permissionKey = key ∧ g.grantedAt ≤ t ∧ g.revokedAt = none

instance (db : Iam) (x : Uuid) (key : String) (t : Time) : Decidable (db.GrantedBy x key t) :=
  inferInstanceAs (Decidable (∃ g ∈ db.principalPermissions, _))

/-- **The superadmin role `r` is in force**: it is active, has had every management permission since `t`, and an active
user holds it. -/
structure Secured (db : Iam) (r : Uuid) (t : Time) : Prop where
  role : db.superadminRoleId = some r
  active : db.Active .role r
  granted : ∀ key ∈ ALL_MANAGEMENT_PERMISSIONS, db.GrantedBy r key t
  held : ∃ u, db.ActiveUser u ∧ db.Assigned u r

end Iam

variable {secured : Prop} {reply : Reply} {L : Set IamRow} {db db' : Iam} {r : Uuid} {t : Time}

/-! ## Holders -/

/-- the guard counts holders without a look at their type, and only users are assigned roles -/
theorem exists_holder_iff (hadm : db.Admissible) (hty : db.Typed) :
    (∃ u, u ∈ db.activeHolders r) ↔ ∃ u, db.ActiveUser u ∧ db.Assigned u r := by
  refine exists_congr fun u => ?_
  rw [mem_activeHolders]
  constructor
  · rintro ⟨hassigned, p, hp, rfl, hus⟩
    obtain ⟨a, ha, hau, har, hopen⟩ := hassigned
    have huser : p.id ∈ db.users := hau ▸ (hadm.userRoles a ha).2.1
    have htype : p.type = .user := hty.users p hp huser
    exact ⟨⟨huser, p, hp, rfl, htype, hus⟩, a, ha, hau, har, hopen⟩
  · rintro ⟨⟨-, p, hp, hid, -, hus⟩, hassigned⟩
    exact ⟨hassigned, p, hp, hid, hus⟩

theorem Iam.Secured.good (h : db.Secured r t) (hadm : db.Admissible) (hty : db.Typed) : Good True db :=
  ⟨hadm, fun _ => hty, fun _ => ⟨r, h.role, (exists_holder_iff hadm hty).2 h.held⟩⟩

/-! ## What a commit keeps -/

theorem active_setStatus {ty : PrincipalType} {x y : Uuid} {b : Bool} {del : Option Time} {at' : Time}
    (hxy : x = y → b = true ∧ del = none) (h : db.Active ty x) : (db.setStatus y b del at').Active ty x := by
  obtain ⟨p, hp, hid, hty, hus⟩ := h
  by_cases hy : p.id = y
  · exact ⟨_, mem_mapWhere.2 (.inl ⟨p, hp, hy, rfl⟩), hid, hty, hxy (hid.symm.trans hy)⟩
  · exact ⟨p, mem_mapWhere.2 (.inr ⟨hp, hy⟩), hid, hty, hus⟩

/-- the superadmin role is not deactivated or retired -/
theorem Change.roleActive (h : Change secured reply L db db') (hr : db.superadminRoleId = some r)
    (ha : db.Active .role r) : db'.Active .role r := by
  obtain ⟨request, t, o⟩ := reply
  cases request with
  | activatePrincipal y =>
    obtain ⟨-, rfl⟩ := h
    exact active_setStatus (fun _ => ⟨rfl, rfl⟩) ha
  | deactivatePrincipal y =>
    obtain ⟨-, hne, -, rfl⟩ := h
    exact active_setStatus (fun hry => absurd (hry ▸ hr) hne) ha
  | retirePrincipal y =>
    obtain ⟨-, hne, -, rfl⟩ := h
    exact active_setStatus (fun hry => absurd (hry ▸ hr) hne) ha
  | addGroupMember => obtain ⟨-, p, -, -, rfl⟩ := h; exact ha
  | removeGroupMember => obtain ⟨-, rfl⟩ := h; exact ha
  | assignRole => obtain ⟨-, rfl⟩ := h; exact ha
  | revokeRole => obtain ⟨-, -, rfl⟩ := h; exact ha
  | grantPermission => obtain ⟨-, rfl⟩ := h; exact ha
  | revokePermission => obtain ⟨-, -, rfl⟩ := h; exact ha

/-- the superadmin role loses no permission -/
theorem Change.roleGranted (h : Change secured reply L db db') (hr : db.superadminRoleId = some r) {key : String}
    (hg : db.GrantedBy r key t) : db'.GrantedBy r key t := by
  obtain ⟨g, hmem, hid, hkey, hbegun, hopen⟩ := hg
  obtain ⟨request, t', o⟩ := reply
  cases request with
  | grantPermission x key' =>
    obtain ⟨-, rfl⟩ := h
    exact ⟨g, List.mem_append_left _ hmem, hid, hkey, hbegun, hopen⟩
  | revokePermission x key' =>
    obtain ⟨-, hne, rfl⟩ := h
    have hnot : ¬ g.OpenFor x key' := fun hf => hne (hr.trans (congrArg some (hid.symm.trans hf.1)))
    exact ⟨g, mem_mapWhere.2 (.inr ⟨hmem, hnot⟩), hid, hkey, hbegun, hopen⟩
  | addGroupMember => obtain ⟨-, p, -, -, rfl⟩ := h; exact ⟨g, hmem, hid, hkey, hbegun, hopen⟩
  | removeGroupMember => obtain ⟨-, rfl⟩ := h; exact ⟨g, hmem, hid, hkey, hbegun, hopen⟩
  | assignRole => obtain ⟨-, rfl⟩ := h; exact ⟨g, hmem, hid, hkey, hbegun, hopen⟩
  | revokeRole => obtain ⟨-, -, rfl⟩ := h; exact ⟨g, hmem, hid, hkey, hbegun, hopen⟩
  | activatePrincipal => obtain ⟨-, rfl⟩ := h; exact ⟨g, hmem, hid, hkey, hbegun, hopen⟩
  | deactivatePrincipal => obtain ⟨-, -, -, rfl⟩ := h; exact ⟨g, hmem, hid, hkey, hbegun, hopen⟩
  | retirePrincipal => obtain ⟨-, -, -, rfl⟩ := h; exact ⟨g, hmem, hid, hkey, hbegun, hopen⟩

/-- A commit keeps the superadmin role in force. -/
theorem Change.keepsSecured (h : Change True reply L db db') (hG : Good True db) (hs : db.Secured r t)
    (hadm : db'.Admissible) : db'.Secured r t := by
  have hrole : db'.superadminRoleId = some r := h.static.superadmin.trans hs.role
  have hG' : Good True db' := h.good hG hadm
  refine ⟨hrole, h.roleActive hs.role hs.active, fun key hkey => h.roleGranted hs.role (hs.granted key hkey), ?_⟩
  obtain ⟨r', hr', hheld⟩ := hG'.held trivial
  obtain rfl : r' = r := Option.some.inj (hr'.symm.trans hrole)
  exact (exists_holder_iff hadm (hG'.typed trivial)).1 hheld

/-! ## What it gives -/

/-- **Whoever holds the role is allowed everything**, at any later time. -/
theorem Iam.Secured.isAllowed (h : db.Secured r t) (hadm : db.Admissible) :
    ∃ u, ∀ key ∈ ALL_MANAGEMENT_PERMISSIONS, ∀ now, t ≤ now → ∀ n, db.groupMemberships.length + 2 ≤ n →
      db.isAllowed u key now n = some true := by
  obtain ⟨u, huser, hassigned⟩ := h.held
  refine ⟨u, fun key hkey now hnow n hn => ?_⟩
  obtain ⟨b, hb, hiff⟩ := Iam.isAllowed_iff hadm u key now hn
  obtain ⟨g, hg, hid, hgkey, hbegun, hopen⟩ := h.granted key hkey
  have heff : db.Effective u g.principalId := ⟨huser, .inr (.inl (hid ▸ ⟨hassigned, h.active⟩))⟩
  have htrue : b = true := hiff.2 ⟨g, hg, heff, hgkey, hbegun.trans hnow, hopen⟩
  rw [hb, htrue]

/-- **No superadmin lock-out.** In every run of identity transactions, from a database in which the superadmin role is
in force and every principal has the type of its class table (`Iam.Typed`), the role is in force in every committed state,
and some user is allowed every management permission. -/
theorem no_superadmin_lockout (db : Iam) (hadm : db.Admissible) (hty : db.Typed) (r : Uuid) (t : Time)
    (h : db.Secured r t) (s : State) (hs : IamRun db s) :
    s.db.Secured r t ∧ ∃ u, ∀ key ∈ ALL_MANAGEMENT_PERMISSIONS, ∀ now, t ≤ now →
      ∀ n, s.db.groupMemberships.length + 2 ≤ n → s.db.isAllowed u key now n = some true := by
  have hG : Good True db := h.good hadm hty
  have hsec : s.db.Secured r t := by
    induction hs with
    | refl => exact h
    | @tail s' hs' o ho ih =>
      have hadm' : (step next s' o).db.Admissible := (run_good hG (hs'.tail o ho)).admissible
      cases ho' : committing s' o with
      | none => rw [step_db_none ho']; exact ih
      | some c =>
        obtain ⟨L, hchange⟩ := commit_change hG hs' ho'
        rw [step_db_some ho'] at hadm' ⊢
        exact hchange.keepsSecured (run_good hG hs') ih hadm'
  exact ⟨hsec, hsec.isAllowed (run_good hG hs).admissible⟩

/-- the superadmin role 1, held by the users 2 and 3 -/
def twoSuperadmins : Iam where
  principals := [⟨1, .role, true, 0, 0, none⟩, ⟨2, .user, true, 0, 0, none⟩, ⟨3, .user, true, 0, 0, none⟩]
  users := [2, 3]
  roles := [⟨1, SUPERADMIN_ROLE_KEY⟩]
  groups := []
  userRoles := [⟨2, 1, 0, none, none, none⟩, ⟨3, 1, 0, none, none, none⟩]
  groupMemberships := []
  permissions := ALL_MANAGEMENT_PERMISSIONS
  principalPermissions := ALL_MANAGEMENT_PERMISSIONS.map fun key => ⟨1, key, 0, none, none, none⟩

/-- each superadmin takes the role from the other, while a third transaction deactivates user 2 -/
def mutualRemoval : List (Op Tx) :=
  schedule [(Request.revokeRole 3 1 2 5).txn 5, (Request.revokeRole 2 1 3 5).txn 5, (Request.deactivatePrincipal 2).txn 5]
    [0, 0, 0, 0, 1, 1, 1, 1, 2, 2, 0, 0, 0, 0, 0, 0, 1, 2, 1, 1, 1, 1, 2, 2, 2, 2, 2]

theorem no_superadmin_lockout_race :
    let s := run (step next) (Sys.init twoSuperadmins) mutualRemoval
    s.log.map (fun e => (e.1, e.2.outcome)) =
      [(0, .done), (1, .raised (.lastSuperadminViolation 2 "revoke superadmin role")),
        (2, .raised (.lastSuperadminViolation 2 "deactivate principal"))] ∧
    s.db.Secured 1 0 := by
  have hrun : IamRun twoSuperadmins (run (step next) (Sys.init twoSuperadmins) mutualRemoval) := by
    refine run_of_admissible (schedule_admissible (fun p hp => ?_) _ _)
    simp only [List.mem_cons, List.not_mem_nil, or_false] at hp
    rcases hp with rfl | rfl | rfl <;> exact ⟨_, _, rfl⟩
  refine ⟨by decide, (no_superadmin_lockout twoSuperadmins ?_ ?_ 1 0 ?_ _ hrun).1⟩
  · constructor <;> decide
  · constructor <;> decide
  · exact ⟨by decide, by decide, by decide, 2, by decide, by decide⟩

end AtlasRag.Identity
