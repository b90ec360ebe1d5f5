/-
Retirement is final.

Activation and deactivation write NULL into `deleted_at`, whatever is there. That no retired principal comes back rests on
the lock under which they have read that it is not retired, and which they keep to their commit.

Results:
- `Change.keepsRetired`: no commit touches the row of a retired principal;
- `retirement_final`: in every run such a row stays as it is, inactive, and the only one of its principal.
-/
import AtlasRag.Identity.Safety

namespace AtlasRag.Identity

open AtlasRag.Lib AtlasRag.Lib.RowLock AtlasRag.Lib.Table AtlasRag.Lib.Transaction AtlasRag.Platform

variable {secured : Prop} {reply : Reply} {L : Set IamRow} {db db' : Iam} {p : Principal}

/-- the row of an identifier -/
theorem findById_of_mem (hadm : db.Admissible) (hp : p ∈ db.principals) : db.findById p.id = some p := by
  have hsome : (db.findById p.id).isSome := List.find?_isSome.2 ⟨p, hp, by simp⟩
  obtain ⟨q, hq⟩ := Option.isSome_iff_exists.1 hsome
  obtain ⟨hmem, hid⟩ := findById_some hq
  rw [hq, List.inj_on_of_nodup_map hadm.principalIds hmem hp hid]

/-- the status of a principal that lives -/
theorem mem_setStatus_of_retired (hadm : db.Admissible) (hp : p ∈ db.principals) (hdel : p.deletedAt ≠ none) {x : Uuid}
    (hlives : Lives x L db) (b : Bool) (del : Option Time) (t : Time) : p ∈ (db.setStatus x b del t).principals := by
  have hne : p.id ≠ x := by
    intro hx
    obtain ⟨-, q, hq, hlive⟩ := hlives
    rw [← hx, findById_of_mem hadm hp] at hq
    exact hdel (Option.some.inj hq ▸ hlive)
  exact mem_mapWhere.2 (.inr ⟨hp, hne⟩)

/-- **A commit** does not touch the row of a retired principal. -/
theorem Change.keepsRetired (h : Change secured reply L db db') (hadm : db.Admissible) (hp : p ∈ db.principals)
    (hdel : p.deletedAt ≠ none) : p ∈ db'.principals := by
  obtain ⟨request, t, o⟩ := reply
  cases request with
  | activatePrincipal x =>
    obtain ⟨hlives, rfl⟩ := h
    exact mem_setStatus_of_retired hadm hp hdel hlives true none t
  | deactivatePrincipal x =>
    obtain ⟨⟨q, hq, husable⟩, -, -, rfl⟩ := h
    exact mem_setStatus_of_retired hadm hp hdel (hq.lives husable.2) false none t
  | retirePrincipal x =>
    obtain ⟨hlives, -, -, rfl⟩ := h
    exact mem_setStatus_of_retired hadm hp hdel hlives false (some t) t
  | addGroupMember => obtain ⟨-, q, -, -, rfl⟩ := h; exact hp
  | removeGroupMember => obtain ⟨-, rfl⟩ := h; exact hp
  | assignRole => obtain ⟨-, rfl⟩ := h; exact hp
  | revokeRole => obtain ⟨-, -, rfl⟩ := h; exact hp
  | grantPermission => obtain ⟨-, rfl⟩ := h; exact hp
  | revokePermission => obtain ⟨-, -, rfl⟩ := h; exact hp

/-- **Retirement is final.** In every run of identity transactions, whatever their interleaving, a retired principal is
inactive; and from any state of the run on its row stays as it is, `deleted_at` and `is_active` included, and remains the
only row of the principal. -/
theorem retirement_final (db : Iam) (hadm : db.Admissible) (s : State) (hs : IamRun db s) (s' : State)
    (hs' : Run (step next) (Starts Begins) s s') (p : Principal) (hp : p ∈ s.db.principals) (hdel : p.deletedAt ≠ none) :
    p.isActive = false ∧ p ∈ s'.db.principals ∧ ∀ q ∈ s'.db.principals, q.id = p.id → q = p := by
  have hgood : Good False db := ⟨hadm, fun h => h.elim, fun h => h.elim⟩
  have hlater : p ∈ s'.db.principals := by
    induction hs' with
    | refl => exact hp
    | @tail t ht o ho ih =>
      have hrun : IamRun db t := hs.trans ht
      cases hc : committing t o with
      | none => rw [step_db_none hc]; exact ih
      | some c =>
        obtain ⟨L, hchange⟩ := commit_change hgood hrun hc
        rw [step_db_some hc]
        exact hchange.keepsRetired (run_good hgood hrun).admissible ih hdel
  refine ⟨?_, hlater, fun q hq hid => ?_⟩
  · have hdefects := (run_good hgood hs).admissible.principals p hp
    simp only [Principal.defects, List.append_eq_nil_iff, checkThat_eq_nil] at hdefects
    exact hdefects.1.resolve_left hdel
  · exact List.inj_on_of_nodup_map (run_good hgood (hs.trans hs')).admissible.principalIds hq hlater hid

/-- the superadmin role 1, held by user 2, and user 3, who is inactive -/
def inactiveUser : Iam where
  principals := [⟨1, .role, true, 0, 0, none⟩, ⟨2, .user, true, 0, 0, none⟩, ⟨3, .user, false, 0, 0, none⟩]
  users := [2, 3]
  roles := [⟨1, SUPERADMIN_ROLE_KEY⟩]
  groups := []
  userRoles := [⟨2, 1, 0, none, none, none⟩]
  groupMemberships := []
  permissions := []
  principalPermissions := []

/-- an activation waits for the retirement of its principal -/
def activationRace : List (Op Tx) :=
  schedule [(Request.retirePrincipal 3).txn 5, (Request.activatePrincipal 3).txn 6] [0, 1, 0, 0, 1, 0, 0, 0, 0, 0]

/-- the activation goes on after the commit of the retirement, and is refused -/
theorem retirement_final_race :
    let s := run (step next) (Sys.init inactiveUser) activationRace
    let s' := run (step next) s [.exec 1, .exec 1]
    s'.log.map (fun e => (e.1, e.2.outcome)) = [(0, .done), (1, .raised (.principalRetired 3 "principal"))] ∧
    ⟨3, .user, false, 0, 5, some 5⟩ ∈ s'.db.principals := by
  have hrun : IamRun inactiveUser (run (step next) (Sys.init inactiveUser) activationRace) := by
    refine run_of_admissible (schedule_admissible (fun p hp => ?_) _ _)
    simp only [List.mem_cons, List.not_mem_nil, or_false] at hp
    rcases hp with rfl | rfl <;> exact ⟨_, _, rfl⟩
  have hlater : Run (step next) (Starts Begins) (run (step next) (Sys.init inactiveUser) activationRace)
      (run (step next) (run (step next) (Sys.init inactiveUser) activationRace) [.exec 1, .exec 1]) :=
    run_of_admissible ⟨trivial, trivial, trivial⟩
  refine ⟨by decide, (retirement_final inactiveUser ?_ _ hrun _ hlater ⟨3, .user, false, 0, 5, some 5⟩ ?_ ?_).2.1⟩
  · constructor <;> decide
  · decide
  · decide

end AtlasRag.Identity
