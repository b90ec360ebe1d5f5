/-
How the calls of the identity services end.

Results:
- `txn_settles`: a call commits iff it is done, and its answer is to its request;
- `history_eq`: the history of a run is what its log says of the calls that are done.
-/
import AtlasRag.Identity.Safety

namespace AtlasRag.Identity

open AtlasRag.Lib AtlasRag.Lib.RowLock AtlasRag.Lib.Table AtlasRag.Lib.Transaction AtlasRag.Platform

/-- the program answers the request, and commits iff the answer is `done` -/
abbrev Settles (q : Request) (p : Tx) : Prop :=
  p.Ends (fun r => r.request = q ∧ r.outcome = .done) fun r => r.request = q ∧ r.outcome ≠ .done

variable {q : Request}

theorem settles_findById {x : Uuid} {k : Option Principal → Tx} (hk : ∀ p, Settles q (k p)) : Settles q (findById x k) :=
  fun _ => hk _

section Settles

variable {reply : Outcome → Reply} (hreply : ∀ o, (reply o).request = q ∧ (reply o).outcome = o)
include hreply

theorem settles_raise (e : IdentityError) : Settles q (raise reply e) := by
  obtain ⟨hq, ho⟩ := hreply (.raised e)
  refine ⟨hq, ?_⟩
  rw [ho]
  exact Outcome.noConfusion

theorem settles_unchanged : Settles q (.rollback (reply .unchanged)) := by
  obtain ⟨hq, ho⟩ := hreply .unchanged
  refine ⟨hq, ?_⟩
  rw [ho]
  exact Outcome.noConfusion

theorem settles_commit (w : Iam → Iam) : Settles q (.commit w (reply .done)) := hreply .done

theorem settles_updateStatus (x : Uuid) (b : Bool) (del : Option Time) (t : Time) :
    Settles q (updateStatus reply x b del t) := by
  intro d
  beta_reduce
  split
  · exact settles_raise hreply _
  · exact settles_commit hreply _

theorem settles_protectRoleLifecycle {x : Uuid} {operation : String} {k : Tx} (hk : Settles q k) :
    Settles q (protectRoleLifecycle reply x operation k) := by
  intro d
  beta_reduce
  split_ifs
  · exact settles_raise hreply _
  · exact hk

theorem settles_protectUserRemoval {u : Uuid} {operation : String} {k : Tx} (hk : Settles q k) :
    Settles q (protectUserRemoval reply u operation k) := by
  intro d
  beta_reduce
  cases d.superadminRoleId with
  | none => exact settles_raise hreply _
  | some roleId =>
    intro d
    beta_reduce
    cases d.superadminRoleId with
    | none => exact hk
    | some found =>
      intro d
      beta_reduce
      split_ifs
      · intro d
        beta_reduce
        split_ifs
        · exact settles_raise hreply _
        · exact hk
      · exact hk

theorem settles_ensureActive {p : Principal} {role : String} {k : Tx} (hk : Settles q k) :
    Settles q (GroupMembershipService.ensureActive reply p role k) := by
  unfold GroupMembershipService.ensureActive
  split_ifs
  · exact settles_raise hreply _
  · exact settles_raise hreply _
  · exact hk

theorem settles_ensureGroup {p : Principal} {k : Tx} (hk : Settles q k) :
    Settles q (GroupMembershipService.ensureGroup reply p k) := by
  unfold GroupMembershipService.ensureGroup
  split_ifs
  · exact settles_raise hreply _
  · exact hk

theorem settles_getAllowedMemberType {p : Principal} {k : PrincipalType → Tx} (hk : ∀ ty, Settles q (k ty)) :
    Settles q (GroupMembershipService.getAllowedMemberType reply p k) := by
  unfold GroupMembershipService.getAllowedMemberType
  split_ifs
  · exact hk _
  · exact settles_raise hreply _

theorem settles_addMembership (g m actor : Uuid) (ty : PrincipalType) (at' : Time) :
    Settles q (GroupMembershipService.addMembership reply g m ty actor at') := by
  intro d
  beta_reduce
  split
  · exact settles_commit hreply _
  · split_ifs
    · exact settles_raise hreply _
    · exact settles_raise hreply _

theorem settles_addGroupMember (g m actor : Uuid) (at' : Time) :
    Settles q (GroupMembershipService.addGroupMember reply g m actor at') := by
  unfold GroupMembershipService.addGroupMember
  split_ifs
  · exact settles_raise hreply _
  · refine settles_findById fun group => ?_
    cases group with
    | none => exact settles_raise hreply _
    | some group =>
      refine settles_ensureActive hreply (settles_ensureGroup hreply (settles_findById fun member => ?_))
      cases member with
      | none => exact settles_raise hreply _
      | some member =>
        refine settles_ensureActive hreply (settles_getAllowedMemberType hreply fun ty d => ?_)
        beta_reduce
        split_ifs
        · exact settles_raise hreply _
        · intro d
          beta_reduce
          split_ifs
          · exact settles_raise hreply _
          · exact settles_addMembership hreply _ _ _ _ _
        · exact settles_addMembership hreply _ _ _ _ _

theorem settles_removeGroupMember (g m actor : Uuid) (at' : Time) :
    Settles q (GroupMembershipService.removeGroupMember reply g m actor at') := by
  refine settles_findById fun group => ?_
  cases group with
  | none => exact settles_raise hreply _
  | some group =>
    refine settles_ensureGroup hreply (settles_findById fun member => ?_)
    cases member with
    | none => exact settles_raise hreply _
    | some member =>
      refine settles_getAllowedMemberType hreply fun ty d => ?_
      beta_reduce
      split
      · exact settles_raise hreply _
      · split_ifs
        · exact settles_commit hreply _
        · exact settles_raise hreply _

theorem settles_ensureTargetsExist {u r : Uuid} {k : Tx} (hk : Settles q k) :
    Settles q (RoleAssignmentService.ensureTargetsExist reply u r k) := by
  intro d
  beta_reduce
  split_ifs
  · intro d
    beta_reduce
    split_ifs
    · exact hk
    · exact settles_raise hreply _
  · exact settles_raise hreply _

theorem settles_assignRole (u r actor : Uuid) (at' : Time) :
    Settles q (RoleAssignmentService.assignRole reply u r actor at') := by
  refine settles_ensureTargetsExist hreply fun d => ?_
  beta_reduce
  split_ifs
  · exact settles_raise hreply _
  · intro d
    beta_reduce
    split
    · exact settles_commit hreply _
    · exact settles_raise hreply _

theorem settles_closeActiveAssignment (u r actor : Uuid) (at' : Time) :
    Settles q (RoleAssignmentService.closeActiveAssignment reply u r actor at') := by
  intro d
  beta_reduce
  split
  · exact settles_raise hreply _
  · split_ifs
    · exact settles_commit hreply _
    · exact settles_raise hreply _

theorem settles_revokeRole (u r actor : Uuid) (at' : Time) :
    Settles q (RoleAssignmentService.revokeRole reply u r actor at') := by
  refine settles_ensureTargetsExist hreply fun d => ?_
  beta_reduce
  split_ifs
  · intro d
    beta_reduce
    split_ifs
    · exact settles_protectUserRemoval hreply (settles_closeActiveAssignment hreply _ _ _ _)
    · exact settles_closeActiveAssignment hreply _ _ _ _
  · exact settles_raise hreply _

theorem settles_getPrincipal {x : Uuid} {k : Principal → Tx} (hk : ∀ p, Settles q (k p)) :
    Settles q (PrincipalLifecycle.getPrincipal reply x k) := by
  refine settles_findById fun p => ?_
  cases p with
  | none => exact settles_raise hreply _
  | some p =>
    show Settles q (if _ then _ else _)
    split_ifs
    · exact settles_raise hreply _
    · exact hk p

theorem settles_grantPermission (x actor : Uuid) (permission : String) (at' : Time) :
    Settles q (PermissionManagementService.grantPermission reply x permission actor at') := by
  unfold PermissionManagementService.grantPermission
  refine settles_findById fun p => ?_
  cases p with
  | none => exact settles_raise hreply _
  | some p =>
    show Settles q (if _ then _ else _)
    split_ifs
    · exact settles_raise hreply _
    · exact settles_raise hreply _
    · intro d
      beta_reduce
      split_ifs
      · intro d
        beta_reduce
        split_ifs
        · exact settles_raise hreply _
        · intro d
          beta_reduce
          split
          · exact settles_commit hreply _
          · exact settles_raise hreply _
      · exact settles_raise hreply _

theorem settles_revokePermission (x actor : Uuid) (permission : String) (at' : Time) :
    Settles q (PermissionManagementService.revokePermission reply x permission actor at') := by
  intro d
  beta_reduce
  split_ifs
  · refine settles_protectRoleLifecycle hreply fun d => ?_
    beta_reduce
    split
    · exact settles_raise hreply _
    · split_ifs
      · exact settles_commit hreply _
      · exact settles_raise hreply _
  · exact settles_raise hreply _

end Settles

/-- **A call commits iff it is done**, and answers its request. -/
theorem txn_settles (q : Request) (t : Time) : Settles q (q.txn t) := by
  have hreply : ∀ o, (⟨q, t, o⟩ : Reply).request = q ∧ (⟨q, t, o⟩ : Reply).outcome = o := fun _ => ⟨rfl, rfl⟩
  cases q with
  | addGroupMember => exact settles_addGroupMember hreply _ _ _ _
  | removeGroupMember => exact settles_removeGroupMember hreply _ _ _ _
  | assignRole => exact settles_assignRole hreply _ _ _ _
  | revokeRole => exact settles_revokeRole hreply _ _ _ _
  | activatePrincipal x =>
    refine settles_getPrincipal hreply fun p => ?_
    split_ifs
    · exact settles_unchanged hreply
    · exact settles_updateStatus hreply _ _ _ _
  | deactivatePrincipal x =>
    refine settles_getPrincipal hreply fun p => ?_
    split_ifs
    · exact settles_unchanged hreply
    · exact settles_protectRoleLifecycle hreply (settles_protectUserRemoval hreply (settles_updateStatus hreply _ _ _ _))
  | retirePrincipal x =>
    refine settles_getPrincipal hreply fun p => ?_
    exact settles_protectRoleLifecycle hreply (settles_protectUserRemoval hreply (settles_updateStatus hreply _ _ _ _))
  | grantPermission => exact settles_grantPermission hreply _ _ _ _
  | revokePermission => exact settles_revokePermission hreply _ _ _ _

/-- **The history of a run** is the list of the calls of its log that are done. -/
theorem history_eq {db : Iam} {ops : List (Op Tx)} (hops : Admissible (step next) (Starts Begins) (Sys.init db) ops) :
    history (Sys.init db) ops =
      ((run (step next) (Sys.init db) ops).log.map (·.2)).filter fun r => r.outcome = .done := by
  have hends : ∀ (s : State) i (p : Tx), Starts Begins s (.start i p) →
      p.Ends (fun r => r.outcome = .done) fun r => ¬ r.outcome = .done := by
    intro s i p ⟨q, t, hp⟩
    rw [hp]
    exact (txn_settles q t).mono (fun _ h => h.2) fun _ h => h.2
  exact history_eq_log hends hops

end AtlasRag.Identity
