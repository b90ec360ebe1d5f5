/-
`EffectivePrincipalRepository.find_effective_principal_ids`, and the decision `is_allowed` that is made with it.

The query has three parts, each with its own filters: the user itself (`active_user`, which anchors the other two), the
roles assigned to it, and a recursive query for the groups, whose anchor joins the user's memberships and whose recursive
step joins the memberships of the groups found so far. `n` is the fuel of the recursive query.

Results:
- `effective_principals`: on every admissible database, cyclic ones included, the query ends, and yields the reference
  closure `Effective`; an unusable group contributes nothing; one more open membership removes nothing;
- `isAllowed_iff`: a permission is allowed iff an effective principal has an open grant of it that has begun.
-/
import AtlasRag.Lib.Closure
import AtlasRag.Identity.Tables

namespace AtlasRag.Identity

open AtlasRag.Lib AtlasRag.Lib.Closure AtlasRag.Platform

namespace Iam

/-! ## The query -/

/-- the CTE `active_user` -/
def activeUser (db : Iam) (u : Uuid) : Finset Uuid :=
  ((db.principals.filter fun p => p.id ∈ db.users ∧ p.id = u ∧ p.type = .user ∧ p.Usable).map (·.id)).toFinset

def activeRoles (db : Iam) (u : Uuid) : Finset Uuid :=
  ((db.userRoles.filter fun a => a.userPrincipalId ∈ db.activeUser u ∧ a.revokedAt = none ∧
    db.Active .role a.rolePrincipalId).map (·.rolePrincipalId)).toFinset

/-- the memberships that the anchor (members of type `user`) and the recursive step (`group`) join: member to group -/
def groupEdges (db : Iam) (memberType : PrincipalType) : List (Uuid × Uuid) :=
  (db.groupMemberships.filter fun m => m.memberType = memberType ∧ m.removedAt = none ∧
    db.Active .group m.groupPrincipalId).map fun m => (m.memberPrincipalId, m.groupPrincipalId)

/-- the recursive CTE `effective_groups` -/
def effectiveGroups (db : Iam) (u : Uuid) (n : ℕ) : Option (Finset Uuid) :=
  let direct := image (db.groupEdges .user) (db.activeUser u)
  evaluate (db.groupEdges .group) n direct direct

def findEffectivePrincipalIds (db : Iam) (u : Uuid) (n : ℕ) : Option (Finset Uuid) :=
  (db.effectiveGroups u n).map fun groups => db.activeUser u ∪ db.activeRoles u ∪ groups

/-- `PermissionRepository.has_permission` -/
def hasPermission (db : Iam) (principalIds : Finset Uuid) (permission : String) (t : Time) : Bool :=
  decide (principalIds.Nonempty ∧ ∃ g ∈ db.principalPermissions, g.principalId ∈ principalIds ∧
    g.permissionKey = permission ∧ g.grantedAt ≤ t ∧ g.revokedAt = none)

/-- `PermissionAuthorizationService.is_allowed` -/
def isAllowed (db : Iam) (u : Uuid) (permission : String) (t : Time) (n : ℕ) : Option Bool :=
  (db.findEffectivePrincipalIds u n).map fun ids => db.hasPermission ids permission t

/-! ## The reference closure -/

/-- an open membership in an active group -/
def ActiveMember (db : Iam) (x g : Uuid) : Prop := db.Member x g ∧ db.Active .group g

/-- the principals that an active user acts for: itself, its active roles, and the groups on a path of open memberships
through active groups only -/
def Effective (db : Iam) (u p : Uuid) : Prop :=
  db.ActiveUser u ∧ (p = u ∨ (db.Assigned u p ∧ db.Active .role p) ∨ Relation.TransGen db.ActiveMember u p)

/-- the database without the memberships through a group -/
def withoutGroup (db : Iam) (g : Uuid) : Iam :=
  { db with groupMemberships := db.groupMemberships.filter fun m =>
      ¬ (m.groupPrincipalId = g ∨ (m.memberType = .group ∧ m.memberPrincipalId = g)) }

/-- the database with one more membership -/
def withMembership (db : Iam) (m : GroupMembership) : Iam := { db with groupMemberships := db.groupMemberships ++ [m] }

variable {db : Iam} {u : Uuid}

/-! ## The parts of the query -/

theorem mem_activeUser {x : Uuid} : x ∈ db.activeUser u ↔ x = u ∧ db.ActiveUser u := by
  simp only [activeUser, List.mem_toFinset, List.mem_map, List.mem_filter, decide_eq_true_eq]
  constructor
  · rintro ⟨p, ⟨hp, hu, rfl, hty, hus⟩, rfl⟩
    exact ⟨rfl, hu, p, hp, rfl, hty, hus⟩
  · rintro ⟨rfl, hu, p, hp, rfl, hty, hus⟩
    exact ⟨p, ⟨hp, hu, rfl, hty, hus⟩, rfl⟩

theorem mem_activeRoles {x : Uuid} :
    x ∈ db.activeRoles u ↔ db.ActiveUser u ∧ db.Assigned u x ∧ db.Active .role x := by
  simp only [activeRoles, List.mem_toFinset, List.mem_map, List.mem_filter, decide_eq_true_eq, mem_activeUser]
  constructor
  · rintro ⟨a, ⟨ha, ⟨hau, hu⟩, hopen, hrole⟩, rfl⟩
    exact ⟨hu, ⟨a, ha, hau, rfl, hopen⟩, hrole⟩
  · rintro ⟨hu, ⟨a, ha, hau, rfl, hopen⟩, hrole⟩
    exact ⟨a, ⟨ha, ⟨hau, hu⟩, hopen, hrole⟩, rfl⟩

theorem mem_groupEdges {ty : PrincipalType} {x g : Uuid} :
    Edge (db.groupEdges ty) x g ↔
      (∃ m ∈ db.groupMemberships, m.memberPrincipalId = x ∧ m.groupPrincipalId = g ∧ m.memberType = ty ∧
        m.removedAt = none) ∧ db.Active .group g := by
  simp only [Edge, groupEdges, List.mem_map, List.mem_filter, decide_eq_true_eq, Prod.mk.injEq]
  constructor
  · rintro ⟨m, ⟨hm, hty, hopen, hg⟩, rfl, rfl⟩
    exact ⟨⟨m, hm, rfl, rfl, hty, hopen⟩, hg⟩
  · rintro ⟨⟨m, hm, rfl, rfl, hty, hopen⟩, hg⟩
    exact ⟨m, ⟨hm, hty, hopen, hg⟩, rfl, rfl⟩

/-- the type column of a membership repeats the type of the member, so the filter on it drops nothing -/
theorem edge_of_active (h : db.Admissible) {ty : PrincipalType} {x g : Uuid} (hx : db.Active ty x) :
    Edge (db.groupEdges ty) x g ↔ db.ActiveMember x g := by
  rw [mem_groupEdges]
  refine and_congr_left fun _ => ?_
  constructor
  · rintro ⟨m, hm, hx', hg, -, hopen⟩
    exact ⟨m, hm, hx', hg, hopen⟩
  · rintro ⟨m, hm, rfl, hg, hopen⟩
    obtain ⟨p, hp, hid, hty, -⟩ := hx
    obtain ⟨-, -, q, hq, hqid, hqty⟩ := h.memberships m hm
    obtain rfl : q = p := List.inj_on_of_nodup_map h.principalIds hq hp (hqid.trans hid.symm)
    exact ⟨m, hm, rfl, hg, hqty.symm.trans hty, hopen⟩

/-- a path of the recursive step between active groups -/
theorem reaches_groups (h : db.Admissible) {x g : Uuid} (hx : db.Active .group x) :
    Reaches (db.groupEdges .group) x g ↔ Relation.ReflTransGen db.ActiveMember x g := by
  constructor
  · intro hr
    have hstep : db.Active .group g ∧ Relation.ReflTransGen db.ActiveMember x g := by
      induction hr with
      | refl => exact ⟨hx, .refl⟩
      | tail _ he ih =>
        have hm := (edge_of_active h ih.1).1 he
        exact ⟨hm.2, ih.2.tail hm⟩
    exact hstep.2
  · intro hr
    have hstep : db.Active .group g ∧ Reaches (db.groupEdges .group) x g := by
      induction hr with
      | refl => exact ⟨hx, .refl⟩
      | tail _ he ih => exact ⟨he.2, ih.2.tail ((edge_of_active h ih.1).2 he)⟩
    exact hstep.2

/-- **The recursive query** ends, with the groups on the paths of the reference closure. -/
theorem effectiveGroups_eq (h : db.Admissible) (u : Uuid) {n : ℕ} (hn : db.groupMemberships.length + 2 ≤ n) :
    ∃ S, db.effectiveGroups u n = some S ∧ ∀ g, g ∈ S ↔ db.ActiveUser u ∧ Relation.TransGen db.ActiveMember u g := by
  have hlen : (db.groupEdges .group).length ≤ db.groupMemberships.length := by
    rw [groupEdges, List.length_map]; exact List.length_filter_le _ _
  obtain ⟨S, hS, hmem⟩ := Closure.recursiveUnion (db.groupEdges .group) (image (db.groupEdges .user) (db.activeUser u))
    (n := n) (by omega)
  refine ⟨S, hS, fun g => (hmem g).trans ?_⟩
  constructor
  · rintro ⟨x, hx, hxg⟩
    obtain ⟨y, hy, he⟩ := mem_image.1 hx
    obtain ⟨rfl, hu⟩ := mem_activeUser.1 hy
    have hm := (edge_of_active h hu.2).1 he
    exact ⟨hu, Relation.TransGen.head' hm ((reaches_groups h hm.2).1 hxg)⟩
  · rintro ⟨hu, hug⟩
    obtain ⟨x, hux, hxg⟩ := Relation.TransGen.head'_iff.1 hug
    exact ⟨x, mem_image.2 ⟨u, mem_activeUser.2 ⟨rfl, hu⟩, (edge_of_active h hu.2).2 hux⟩, (reaches_groups h hux.2).2 hxg⟩

/-- With enough rounds the recursive query ends with the reference closure. -/
theorem find_eq (h : db.Admissible) (u : Uuid) {n : ℕ} (hn : db.groupMemberships.length + 2 ≤ n) :
    ∃ S, db.findEffectivePrincipalIds u n = some S ∧ ∀ p, p ∈ S ↔ db.Effective u p := by
  obtain ⟨groups, hg, hmem⟩ := effectiveGroups_eq h u hn
  refine ⟨_, by rw [findEffectivePrincipalIds, hg]; rfl, fun p => ?_⟩
  rw [Finset.mem_union, Finset.mem_union, mem_activeUser, mem_activeRoles, hmem, Effective]
  tauto

/-! ## Other databases -/

/-- the reference closure grows with the open memberships -/
theorem Effective.mono {db db' : Iam} {p : Uuid} (h : db.Effective u p) (hp : db'.principals = db.principals)
    (hu : db'.users = db.users) (hr : db'.userRoles = db.userRoles)
    (hm : ∀ x g, db.ActiveMember x g → db'.ActiveMember x g) : db'.Effective u p := by
  have hactive : ∀ ty x, db.Active ty x → db'.Active ty x := fun ty x hx => by unfold Active; rw [hp]; exact hx
  have hassigned : ∀ x r, db.Assigned x r → db'.Assigned x r := fun x r hx => by unfold Assigned; rw [hr]; exact hx
  obtain ⟨⟨huser, hact⟩, hcase⟩ := h
  refine ⟨⟨hu ▸ huser, hactive _ _ hact⟩, hcase.imp_right (Or.imp ?_ ?_)⟩
  · exact fun ⟨h1, h2⟩ => ⟨hassigned _ _ h1, hactive _ _ h2⟩
  · exact Relation.TransGen.mono hm _ _

theorem withoutGroup_admissible (h : db.Admissible) (g : Uuid) : (db.withoutGroup g).Admissible := by
  refine { h with memberships := fun m hm => h.memberships m (List.mem_filter.1 hm).1, openMembers := ?_ }
  have hsub : (db.withoutGroup g).openMemberships.Sublist db.openMemberships :=
    (List.filter_sublist.filter _).map _
  exact hsub.nodup h.openMembers

/-- **An unusable group contributes nothing**: the closure is the same without every membership through it. -/
theorem effective_withoutGroup (h : db.Admissible) {g : Uuid} (hg : ¬ db.Active .group g) (p : Uuid) :
    (db.withoutGroup g).Effective u p ↔ db.Effective u p := by
  constructor
  · intro h'
    refine h'.mono rfl rfl rfl ?_
    rintro x y ⟨⟨m, hm, hx, hy, hopen⟩, hact⟩
    exact ⟨⟨m, (List.mem_filter.1 hm).1, hx, hy, hopen⟩, hact⟩
  · rintro ⟨hu, hcase⟩
    refine ⟨hu, hcase.imp_right (Or.imp_right fun hpath => ?_)⟩
    -- along the path the present principal is the user or an active group, hence not `g` as a group
    have hstep : ∀ y, Relation.TransGen db.ActiveMember u y →
        Relation.TransGen (db.withoutGroup g).ActiveMember u y ∧ db.Active .group y := by
      have hedge : ∀ x y, (∀ q ∈ db.principals, q.id = x → q.type = .group → x ≠ g) → db.ActiveMember x y →
          (db.withoutGroup g).ActiveMember x y := by
        rintro x y hne ⟨⟨m, hm, rfl, rfl, hopen⟩, hact⟩
        refine ⟨⟨m, List.mem_filter.2 ⟨hm, decide_eq_true ?_⟩, rfl, rfl, hopen⟩, hact⟩
        rintro (rfl | ⟨hty, hmem⟩)
        · exact hg hact
        · obtain ⟨-, -, q, hq, hqid, hqty⟩ := h.memberships m hm
          exact hne q hq hqid (hqty.trans hty) hmem
      intro y hy
      induction hy with
      | single he =>
        refine ⟨.single (hedge _ _ ?_ he), he.2⟩
        -- the user is no group
        rintro q hq hid hty -
        obtain ⟨-, r, hr, hrid, hrty, -⟩ := hu
        obtain rfl : q = r := List.inj_on_of_nodup_map h.principalIds hq hr (hid.trans hrid.symm)
        rw [hty] at hrty
        cases hrty
      | tail _ he ih =>
        refine ⟨ih.1.tail (hedge _ _ ?_ he), he.2⟩
        rintro q - - - rfl
        exact hg ih.2
    exact (hstep p hpath).1

/-- one more membership removes nothing -/
theorem effective_withMembership (m : GroupMembership) {p : Uuid} (h : db.Effective u p) :
    (db.withMembership m).Effective u p := by
  refine h.mono rfl rfl rfl ?_
  rintro x g ⟨⟨m', hm', hx, hg, hopen⟩, hact⟩
  exact ⟨⟨m', List.mem_append_left _ hm', hx, hg, hopen⟩, hact⟩

/-- **Effective principals are the reference closure.** For an admissible database, with any fuel from a bound on. -/
theorem effective_principals (db : Iam) (h : db.Admissible) (u : Uuid) (n : ℕ)
    (hn : db.groupMemberships.length + 3 ≤ n) :
    ∃ S, db.findEffectivePrincipalIds u n = some S ∧
      (¬ db.ActiveUser u → S = ∅) ∧
      (∀ p, p ∈ S ↔ db.Effective u p) ∧
      (∀ g, ¬ db.Active .group g → (db.withoutGroup g).findEffectivePrincipalIds u n = some S) ∧
      ∀ m, (db.withMembership m).Admissible →
        ∃ S', (db.withMembership m).findEffectivePrincipalIds u n = some S' ∧ S ⊆ S' := by
  obtain ⟨S, hS, hmem⟩ := find_eq h u (n := n) (by omega)
  refine ⟨S, hS, fun hu => ?_, hmem, fun g hg => ?_, fun m hm => ?_⟩
  · exact Finset.eq_empty_of_forall_notMem fun p hp => hu ((hmem p).1 hp).1
  · have hlen : (db.withoutGroup g).groupMemberships.length ≤ db.groupMemberships.length := List.length_filter_le _ _
    obtain ⟨S', hS', hmem'⟩ := find_eq (withoutGroup_admissible h g) u (n := n) (by omega)
    have heq : S' = S := Finset.ext fun p => (hmem' p).trans ((effective_withoutGroup h hg p).trans (hmem p).symm)
    rw [hS', heq]
  · have hlen : (db.withMembership m).groupMemberships.length = db.groupMemberships.length + 1 := List.length_append
    obtain ⟨S', hS', hmem'⟩ := find_eq hm u (n := n) (by omega)
    exact ⟨S', hS', fun p hp => (hmem' p).2 (effective_withMembership m ((hmem p).1 hp))⟩

/-- user 1 in group 2, which is in group 3 and contains it; group 4, which contains both, is inactive, and 5 contains it -/
def cyclicGroups : Iam where
  principals := [⟨1, .user, true, 0, 0, none⟩, ⟨2, .group, true, 0, 0, none⟩, ⟨3, .group, true, 0, 0, none⟩,
    ⟨4, .group, false, 0, 0, none⟩, ⟨5, .group, true, 0, 0, none⟩]
  users := [1]
  roles := []
  groups := [2, 3, 4, 5]
  userRoles := []
  groupMemberships := [⟨2, 1, .user, 0, none, none, none⟩, ⟨3, 2, .group, 0, none, none, none⟩,
    ⟨2, 3, .group, 0, none, none, none⟩, ⟨4, 3, .group, 0, none, none, none⟩, ⟨5, 4, .group, 0, none, none, none⟩]
  permissions := []
  principalPermissions := []

example : cyclicGroups.findEffectivePrincipalIds 1 8 = some {1, 2, 3} := by decide

theorem effective_principals_cyclic : ∃ S, cyclicGroups.findEffectivePrincipalIds 1 8 = some S ∧
    (∀ p, p ∈ S ↔ cyclicGroups.Effective 1 p) ∧ (cyclicGroups.withoutGroup 4).findEffectivePrincipalIds 1 8 = some S := by
  have hadm : cyclicGroups.Admissible := by constructor <;> decide
  obtain ⟨S, hS, -, hmem, hgroup, -⟩ := effective_principals cyclicGroups hadm 1 8 (by decide)
  exact ⟨S, hS, hmem, hgroup 4 (by decide)⟩

/-- A permission is allowed iff an effective principal of the user has an open grant of it. -/
theorem isAllowed_iff (h : db.Admissible) (u : Uuid) (permission : String) (t : Time) {n : ℕ}
    (hn : db.groupMemberships.length + 2 ≤ n) :
    ∃ b, db.isAllowed u permission t n = some b ∧
      (b = true ↔ ∃ g ∈ db.principalPermissions, db.Effective u g.principalId ∧ g.permissionKey = permission ∧
        g.grantedAt ≤ t ∧ g.revokedAt = none) := by
  obtain ⟨S, hS, hmem⟩ := find_eq h u hn
  refine ⟨_, by rw [isAllowed, hS]; rfl, ?_⟩
  simp only [hasPermission, decide_eq_true_eq]
  constructor
  · rintro ⟨-, g, hg, hin, hkey⟩
    exact ⟨g, hg, (hmem _).1 hin, hkey⟩
  · rintro ⟨g, hg, heff, hkey⟩
    have hin : g.principalId ∈ S := (hmem _).2 heff
    exact ⟨⟨_, hin⟩, g, hg, hin, hkey⟩

end Iam

end AtlasRag.Identity
