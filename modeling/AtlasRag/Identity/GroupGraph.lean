/-
The graph of the open memberships of groups in groups.

`add_group_member` asks `would_create_cycle` whether the member reaches the group, and raises if it does. It locks the rows
of the two groups, and no others: what it has asked may have changed when it commits. An addition is `Overtaken` if, between
its check and its commit, others have committed a membership that is on a path from its member to its group.

Results:
- `wouldCreateCycle_iff`: what the check decides, on any graph;
- `Change.memberGroups`: what a commit does to the graph;
- `fresh_iff`: at the commit of an addition, the answer of its check still stands iff the addition is not overtaken;
- `groups_acyclic_iff`: in a run the graph stays acyclic iff no addition commits that is overtaken;
- `crossing_additions_close_cycle`: two additions on four different groups close a cycle.
-/
import AtlasRag.Identity.Conclusions
import AtlasRag.Lib.Since

namespace AtlasRag.Identity

open AtlasRag.Lib AtlasRag.Lib.Closure AtlasRag.Lib.RowLock AtlasRag.Lib.Since AtlasRag.Lib.Table AtlasRag.Lib.Transaction
open AtlasRag.Platform
open Relation (TransGen)

variable {secured : Prop} {reply : Reply} {L : Set IamRow} {db db' : Iam}

/-! ## The check -/

theorem mem_reachableGroups (db : Iam) (m : Uuid) :
    ∃ S, db.reachableGroups m = some S ∧ ∀ g, g ∈ S ↔ TransGen (Edge db.memberGroups) m g := by
  obtain ⟨S, hS, hmem⟩ := recursiveUnion db.memberGroups (image db.memberGroups {m}) (n := db.memberGroups.length + 2) le_rfl
  refine ⟨S, hS, fun g => (hmem g).trans ?_⟩
  rw [Relation.TransGen.head'_iff]
  refine exists_congr fun x => and_congr_left fun _ => ?_
  simp [mem_image]

/-- **The check is exact** on the database that it reads: a path leads from the member to the group. -/
theorem wouldCreateCycle_iff {g m : Uuid} : db.wouldCreateCycle g m = true ↔ TransGen (Edge db.memberGroups) m g := by
  obtain ⟨S, hS, hmem⟩ := mem_reachableGroups db m
  simp [Iam.wouldCreateCycle, hS, hmem]

/-! ## What a commit does to the graph -/

/-- the edge that a request adds: its pair, if the member is a group -/
def Iam.addedEdge (db : Iam) : Request → Option (Uuid × Uuid)
  | .addGroupMember g m _ _ =>
    if (m, PrincipalType.group) ∈ db.principals.map fun p => (p.id, p.type) then some (g, m) else none
  | _ => none

theorem memberGroups_addMembership (m : GroupMembership) (hopen : m.removedAt = none) :
    (db.addMembership m).memberGroups =
      if m.memberType = .group then db.memberGroups ++ [(m.groupPrincipalId, m.memberPrincipalId)] else db.memberGroups := by
  simp only [Iam.memberGroups, Iam.addMembership, List.filter_append, List.map_append]
  split_ifs with hty <;> simp [hty, hopen]

theorem memberGroups_closeMembership (g m actor : Uuid) (at' : Time) :
    (db.closeMembership g m actor at').memberGroups ⊆ db.memberGroups := by
  refine List.map_subset _ (List.Sublist.subset (filter_mapWhere_sublist fun x _ _ => ?_))
  simp [GroupMembership.close]

/-- the member's type is the one that its principal has -/
theorem addedEdge_type (hids : (db.principals.map (·.id)).Nodup) {p : Principal} (hp : p ∈ db.principals) {g actor : Uuid}
    {at' : Time} : db.addedEdge (.addGroupMember g p.id actor at') = if p.type = .group then some (g, p.id) else none := by
  have hiff : (p.id, PrincipalType.group) ∈ db.principals.map (fun p => (p.id, p.type)) ↔ p.type = .group := by
    constructor
    · intro hmem
      obtain ⟨q, hq, he⟩ := List.mem_map.1 hmem
      obtain ⟨hid, hty⟩ := Prod.mk.inj he
      obtain rfl : q = p := List.inj_on_of_nodup_map hids hq hp hid
      exact hty
    · intro hty
      exact List.mem_map.2 ⟨p, hp, by rw [hty]⟩
  simp only [Iam.addedEdge, hiff]

/-- **What a commit does to the graph**: an addition appends its edge, nothing else adds one. -/
theorem Change.memberGroups (h : Change secured reply L db db') (hids : (db.principals.map (·.id)).Nodup) :
    (∀ e, db.addedEdge reply.request = some e → db'.memberGroups = db.memberGroups ++ [e]) ∧
      (db.addedEdge reply.request = none → db'.memberGroups ⊆ db.memberGroups) := by
  obtain ⟨request, t, o⟩ := reply
  have quiet (hsub : db'.memberGroups ⊆ db.memberGroups) (hnone : db.addedEdge request = none) :
      (∀ e, db.addedEdge request = some e → db'.memberGroups = db.memberGroups ++ [e]) ∧
        (db.addedEdge request = none → db'.memberGroups ⊆ db.memberGroups) := by
    refine ⟨fun e he => ?_, fun _ => hsub⟩
    rw [hnone] at he
    cases he
  cases request with
  | addGroupMember g m actor at' =>
    obtain ⟨-, p, hp, rfl, rfl⟩ := h
    have hedge : db.addedEdge (.addGroupMember g p.id actor at') = if p.type = .group then some (g, p.id) else none :=
      addedEdge_type hids hp
    have hgraph : (db.addMembership ⟨g, p.id, p.type, at', some actor, none, none⟩).memberGroups =
        if p.type = .group then db.memberGroups ++ [(g, p.id)] else db.memberGroups := memberGroups_addMembership _ rfl
    by_cases hty : p.type = .group
    · rw [if_pos hty] at hedge hgraph
      rw [hedge, hgraph]
      exact ⟨fun e he => by rw [← Option.some.inj he], fun he => by cases he⟩
    · rw [if_neg hty] at hedge hgraph
      exact quiet (hgraph ▸ List.Subset.refl _) hedge
  | removeGroupMember g m actor at' =>
    obtain ⟨-, rfl⟩ := h
    exact quiet (memberGroups_closeMembership g m actor at') rfl
  | assignRole => obtain ⟨-, rfl⟩ := h; exact quiet (List.Subset.refl _) rfl
  | revokeRole => obtain ⟨-, -, rfl⟩ := h; exact quiet (List.Subset.refl _) rfl
  | activatePrincipal => obtain ⟨-, rfl⟩ := h; exact quiet (List.Subset.refl _) rfl
  | deactivatePrincipal => obtain ⟨-, -, -, rfl⟩ := h; exact quiet (List.Subset.refl _) rfl
  | retirePrincipal => obtain ⟨-, -, -, rfl⟩ := h; exact quiet (List.Subset.refl _) rfl
  | grantPermission => obtain ⟨-, rfl⟩ := h; exact quiet (List.Subset.refl _) rfl
  | revokePermission => obtain ⟨-, -, rfl⟩ := h; exact quiet (List.Subset.refl _) rfl

/-! ## Fresh commits -/

/-- the edge that a step of the run commits, if it commits one -/
def committedEdge (s : State) (o : Op Tx) : Option (Uuid × Uuid) :=
  (committing s o).bind fun c => s.db.addedEdge c.2.request

/-- **The check still stands**: if the step commits the membership of a group in a group, then the check would still pass
on the database as it is committed now. -/
def Fresh (s : State) (o : Op Tx) : Prop := ∀ e ∈ committedEdge s o, s.db.wouldCreateCycle e.1 e.2 = false

instance (s : State) (o : Op Tx) : Decidable (Fresh s o) :=
  inferInstanceAs (Decidable (∀ e ∈ committedEdge s o, _))

/-- an edge of the graph is no loop -/
theorem memberGroups_ne (hadm : db.Admissible) {e : Uuid × Uuid} (he : e ∈ db.memberGroups) : e.1 ≠ e.2 := by
  obtain ⟨m, hm, rfl⟩ := List.mem_map.1 he
  have hdef := (hadm.memberships m (List.mem_filter.1 hm).1).1
  simp only [GroupMembership.defects, List.append_eq_nil_iff, checkThat_eq_nil] at hdef
  exact hdef.1.2

/-- A step keeps the graph acyclic iff it commits no addition whose edge closes a cycle by then. -/
theorem step_acyclic_iff (hdb : db.Admissible) {s : State} (hs : IamRun db s) {o : Op Tx} (ho : Starts Begins s o)
    (hacyc : Acyclic s.db.memberGroups) : Acyclic (step next s o).db.memberGroups ↔ Fresh s o := by
  have hG : Good False db := ⟨hdb, False.elim, False.elim⟩
  cases hc : committing s o with
  | none =>
    rw [step_db_none hc]
    simp [Fresh, committedEdge, hc, hacyc]
  | some c =>
    obtain ⟨w, r⟩ := c
    obtain ⟨L, hchange⟩ := commit_change hG hs hc
    have hgraph := hchange.memberGroups (run_good hG hs).admissible.principalIds
    have hadm' : (w s.db).Admissible := step_db_some hc ▸ (run_good hG (hs.tail o ho)).admissible
    rw [step_db_some hc]
    cases he : s.db.addedEdge r.request with
    | none =>
      simp only [Fresh, committedEdge, hc, Option.bind_some, he, Option.mem_def, reduceCtorEq, false_imp_iff,
        implies_true, iff_true]
      exact hacyc.subset (hgraph.2 he)
    | some e =>
      obtain ⟨g, m⟩ := e
      have happend : (w s.db).memberGroups = s.db.memberGroups ++ [(g, m)] := hgraph.1 _ he
      have hne : g ≠ m := memberGroups_ne hadm' (e := (g, m)) (happend ▸ List.mem_append_right _ (List.mem_singleton_self _))
      have hfresh : Fresh s o ↔ ¬ TransGen (Edge s.db.memberGroups) m g := by
        rw [← wouldCreateCycle_iff, Bool.not_eq_true]
        simp [Fresh, committedEdge, hc, he]
      rw [happend, acyclic_append, hfresh, Reaches, Relation.reflTransGen_iff_eq_or_transGen]
      simp [hacyc, hne]

/-! ## Overtaken additions -/

/-- what an addition knows at its commit: if a path leads from the member to the group by now, then a membership committed
since its check is on such a path. The check is the statement before the last, the INSERT. -/
def Warned (d : Iam) (notes : List (List Reply)) : Tx → Prop
  | .commit _ r => ∀ e ∈ d.addedEdge r.request, d.wouldCreateCycle e.1 e.2 = true →
      ∃ r' ∈ notes.getD 1 [], ∃ f ∈ d.addedEdge r'.request, OnPath d.memberGroups e.2 e.1 f
  | _ => True

abbrev WarnedThroughout (p : Tx) (d : Iam) (notes : List (List Reply)) : Prop :=
  Throughout (Good False) (Change False) Warned p d notes

theorem Change.addedEdge (h : Change secured reply L db db') (q : Request) : db'.addedEdge q = db.addedEdge q := by
  have hty : db'.principals.map (fun p => (p.id, p.type)) = db.principals.map fun p => (p.id, p.type) :=
    h.static.map_principals fun x => (x.1, x.2.1)
  cases q with
  | addGroupMember => simp only [Iam.addedEdge, hty]
  | _ => rfl

/-- **Commits between a check and now**: a membership of the graph was there, or has been committed since. -/
theorem chain_memberGroups {h : List Reply} (hc : Chain (Good False) (Change False) db h db') :
    (∀ q, db'.addedEdge q = db.addedEdge q) ∧
      ∀ e ∈ db'.memberGroups, e ∈ db.memberGroups ∨ ∃ r ∈ h, e ∈ db.addedEdge r.request := by
  rw [← List.nil_append h]
  refine hc.inv (H := fun d h => (∀ q, d.addedEdge q = db.addedEdge q) ∧
    ∀ e ∈ d.memberGroups, e ∈ db.memberGroups ∨ ∃ r ∈ h, e ∈ db.addedEdge r.request) ?_ ⟨fun _ => rfl, fun e he => .inl he⟩
  rintro d h r L d' hG - hchange ⟨hedges, hold⟩
  refine ⟨fun q => ?_, fun e he => ?_⟩
  · rw [← hedges q]
    exact hchange.addedEdge q
  · have hgraph := hchange.memberGroups hG.admissible.principalIds
    have holds : e ∈ d.memberGroups → e ∈ db.memberGroups ∨ ∃ r' ∈ h ++ [r], e ∈ db.addedEdge r'.request := by
      intro hd
      rcases hold e hd with hdb | ⟨r', hr', hadd⟩
      · exact .inl hdb
      · exact .inr ⟨r', List.mem_append_left _ hr', hadd⟩
    cases hadd : d.addedEdge r.request with
    | none => exact holds (hgraph.2 hadd he)
    | some f =>
      rw [hgraph.1 f hadd] at he
      rcases List.mem_append.1 he with he | he
      · exact holds he
      · obtain rfl : e = f := List.mem_singleton.1 he
        refine .inr ⟨r, List.mem_append_right _ (List.mem_singleton_self _), ?_⟩
        rw [← hedges]
        exact hadd

section Programs

variable {q : Request} {reply : Outcome → Reply} {notes : List (List Reply)}

theorem warned_raise (e : IdentityError) : WarnedThroughout (raise reply e) db notes := fun _ _ _ _ => trivial

theorem warned_findById {x : Uuid} {k : Option Principal → Tx}
    (hk : ∀ d notes, Good False d → WarnedThroughout (k (d.findById x)) d notes) :
    WarnedThroughout (findById x k) db notes := fun _ _ _ hG => ⟨trivial, hk _ _ hG⟩

theorem warned_ensureActive {p : Principal} {role : String} {k : Tx} (hk : WarnedThroughout k db notes) :
    WarnedThroughout (GroupMembershipService.ensureActive reply p role k) db notes := by
  unfold GroupMembershipService.ensureActive
  split_ifs
  · exact warned_raise _
  · exact warned_raise _
  · exact hk

theorem warned_ensureGroup {p : Principal} {k : Tx} (hk : WarnedThroughout k db notes) :
    WarnedThroughout (GroupMembershipService.ensureGroup reply p k) db notes := by
  unfold GroupMembershipService.ensureGroup
  split_ifs
  · exact warned_raise _
  · exact hk

theorem warned_getAllowedMemberType {p : Principal} {k : PrincipalType → Tx} (hk : WarnedThroughout (k p.type) db notes) :
    WarnedThroughout (GroupMembershipService.getAllowedMemberType reply p k) db notes := by
  unfold GroupMembershipService.getAllowedMemberType
  split_ifs
  · exact hk
  · exact warned_raise _

/-- **After the check**: a path to the group that is there at the commit uses a membership committed since. -/
theorem warned_addMembership {g m actor : Uuid} {at' : Time} {ty : PrincipalType}
    (hreq : ∀ o, (reply o).request = .addGroupMember g m actor at')
    (hcheck : ∀ e ∈ db.addedEdge (.addGroupMember g m actor at'), db.wouldCreateCycle g m = false) :
    WarnedThroughout (GroupMembershipService.addMembership reply g m ty actor at') db ([] :: notes) := by
  intro h d hc hG
  refine ⟨trivial, ?_⟩
  beta_reduce
  split
  · intro h' d' hc' hG' e he hpath
    obtain ⟨hedges, hold⟩ := chain_memberGroups (hc.trans hc')
    rw [hreq, hedges] at he
    have hpair : e = (g, m) := by
      simp only [Iam.addedEdge, Option.mem_def] at he
      split_ifs at he
      exact (Option.some.inj he).symm
    have hnot : ¬ TransGen (Edge db.memberGroups) e.2 e.1 := by
      rw [← wouldCreateCycle_iff, hpair, hcheck e he]
      exact Bool.false_ne_true
    obtain ⟨f, ⟨r, hr, hadd⟩, hon⟩ := (path_iff_new hold hnot).1 (wouldCreateCycle_iff.1 hpath)
    refine ⟨r, by simpa using hr, f, ?_, hon⟩
    rw [hedges]
    exact hadd
  · split_ifs
    · exact warned_raise _
    · exact warned_raise _

theorem warned_addGroupMember {g m actor : Uuid} {at' : Time} (hreq : ∀ o, (reply o).request = .addGroupMember g m actor at') :
    WarnedThroughout (GroupMembershipService.addGroupMember reply g m actor at') db notes := by
  unfold GroupMembershipService.addGroupMember
  split_ifs
  · exact warned_raise _
  · refine warned_findById fun d₁ notes₁ _ => ?_
    cases d₁.findById g with
    | none => exact warned_raise _
    | some group =>
      refine warned_ensureActive (warned_ensureGroup (warned_findById fun d₂ notes₂ hG₂ => ?_))
      cases hm : d₂.findById m with
      | none => exact warned_raise _
      | some member =>
        obtain ⟨hmem, rfl⟩ := findById_some hm
        refine warned_ensureActive (warned_getAllowedMemberType fun h₃ d₃ hc₃ _ => ⟨trivial, ?_⟩)
        beta_reduce
        split_ifs with hopen hgroup
        · exact warned_raise _
        · -- a group: the check
          refine fun h₄ d₄ _ _ => ⟨trivial, ?_⟩
          beta_reduce
          split_ifs with hcycle
          · exact warned_raise _
          · exact warned_addMembership hreq fun _ _ => Bool.eq_false_iff.2 hcycle
        · -- no group: no edge
          have hnone : d₃.addedEdge (.addGroupMember g member.id actor at') = none := by
            rw [(chain_memberGroups hc₃).1, addedEdge_type hG₂.admissible.principalIds hmem, if_neg hgroup]
          refine warned_addMembership hreq fun e he => ?_
          rw [hnone] at he
          cases he

end Programs

theorem txn_warned (q : Request) (t : Time) (d : Iam) (notes : List (List Reply)) : WarnedThroughout (q.txn t) d notes := by
  have hother (hq : ∀ d : Iam, d.addedEdge q = none) : WarnedThroughout (q.txn t) d notes := by
    refine throughout_of_ends (txn_settles q t) (fun _ _ _ _ => trivial) (fun d notes w r hr e he => ?_) fun _ _ _ _ => trivial
    rw [hr.1, hq] at he
    cases he
  cases q with
  | addGroupMember => exact warned_addGroupMember fun _ => rfl
  | _ => exact hother fun _ => rfl

abbrev WatchedState := Watched Iam IamRow Reply

instance (db : Iam) (x y : Uuid) : Decidable (Reaches db.memberGroups x y) :=
  decidable_of_iff (x = y ∨ db.wouldCreateCycle y x = true) <| by
    rw [wouldCreateCycle_iff, Reaches, Relation.reflTransGen_iff_eq_or_transGen, eq_comm]

instance (db : Iam) (x y : Uuid) (e : Uuid × Uuid) : Decidable (OnPath db.memberGroups x y e) :=
  inferInstanceAs (Decidable (_ ∧ _ ∧ _))

/-- **The addition that the step commits is overtaken**: since its check, the statement before its INSERT, another has
committed a membership that is on a path from its member to its group. -/
def Overtaken (w : WatchedState) : Op Tx → Prop
  | .exec i => ∃ e ∈ committedEdge w.sys (.exec i), ∃ r ∈ w.since i 1, ∃ f ∈ w.sys.db.addedEdge r.request,
      OnPath w.sys.db.memberGroups e.2 e.1 f
  | _ => False

instance (w : WatchedState) (o : Op Tx) : Decidable (Overtaken w o) :=
  match o with
  | .exec _ => inferInstanceAs (Decidable (∃ e ∈ committedEdge _ _, _))
  | .start _ _ => .isFalse id
  | .abort _ => .isFalse id

/-- a run of identity transactions from the database `db`, with its notes -/
abbrev WatchedRun (db : Iam) (w : WatchedState) : Prop := Run watch (fun w o => Starts Begins w.sys o) (Watched.init db) w

/-- **When the answer of the check still stands** at the commit of an addition. -/
theorem fresh_iff (hdb : db.Admissible) {w : WatchedState} (hw : WatchedRun db w) (o : Op Tx) :
    Fresh w.sys o ↔ ¬ Overtaken w o := by
  have hG : Good False db := ⟨hdb, False.elim, False.elim⟩
  constructor
  · intro hfresh hover
    cases o with
    | exec i =>
      obtain ⟨e, he, r, -, f, -, hto, hmem, hfrom⟩ := hover
      have hedge : Edge w.sys.db.memberGroups f.1 f.2 := hmem
      have hpath : w.sys.db.wouldCreateCycle e.1 e.2 = true :=
        wouldCreateCycle_iff.2 (TransGen.trans_right hto (TransGen.head' hedge hfrom))
      rw [hfresh e he] at hpath
      cases hpath
    | start => exact hover
    | abort => exact hover
  · intro hno e he
    by_contra hpath
    obtain ⟨⟨wr, r⟩, hc, hadd⟩ := Option.bind_eq_some_iff.1 he
    obtain ⟨i, rfl, hi⟩ := committing_some hc
    have hthrough : ∀ s i p, Starts Begins s (.start i p) → Good False s.db → WarnedThroughout p s.db [] := by
      rintro s i p ⟨q, t, rfl⟩ -
      exact txn_warned q t _ _
    have hwarned := throughout_rule (fun s _ p => begins_safe p s.db) hthrough hG hw i _ hi
    obtain ⟨r', hr', f, hf, hon⟩ := hwarned.here (run_good hG (run_sys hw)) e hadd (Bool.not_eq_false _ ▸ hpath)
    exact hno ⟨e, he, r', hr', f, hf, hon⟩

/-- **The group graph stays acyclic exactly where no addition is overtaken.** For any schedule of identity transactions, from
an admissible database with an acyclic graph: the graph is acyclic in every state if and only if no step commits the
addition of a group to a group after others have, since its cycle check, committed a membership on a path from the member
to the group. -/
theorem groups_acyclic_iff (db : Iam) (hadm : db.Admissible) (hacyc : Acyclic db.memberGroups) (ops : List (Op Tx))
    (hops : Admissible (step next) (Starts Begins) (Sys.init db) ops) :
    (∀ k, Acyclic (run (step next) (Sys.init db) (ops.take k)).db.memberGroups) ↔
      Admissible watch (fun w o => ¬ Overtaken w o) (Watched.init db) ops := by
  have hwatch : Admissible watch (fun w o => Starts Begins w.sys o) (Watched.init db) ops := admissible_watch hops
  have hiff := forall_take_iff (I := WatchedRun db) (P := fun w => Acyclic w.sys.db.memberGroups)
    (fun _ o ho hw => hw.tail o ho)
    (fun w o ho hw hacyc => (step_acyclic_iff hadm (run_sys hw) ho hacyc).trans (fresh_iff hadm hw o)) hwatch .refl hacyc
  simpa only [run_watch_sys, Watched.init_sys] using hiff

/-- the groups 1 to 4: 3 is a member of 2, and 1 of 4 -/
def fourGroups : Iam where
  principals := [⟨1, .group, true, 0, 0, none⟩, ⟨2, .group, true, 0, 0, none⟩, ⟨3, .group, true, 0, 0, none⟩,
    ⟨4, .group, true, 0, 0, none⟩, ⟨9, .user, true, 0, 0, none⟩]
  users := [9]
  roles := []
  groups := [1, 2, 3, 4]
  userRoles := []
  groupMemberships := [⟨2, 3, .group, 0, some 9, none, none⟩, ⟨4, 1, .group, 0, some 9, none, none⟩]
  permissions := []
  principalPermissions := []

theorem fourGroups_admissible : fourGroups.Admissible := by constructor <;> decide

theorem fourGroups_acyclic : Acyclic fourGroups.memberGroups :=
  acyclic_of_rank (fun x => x % 4) (by decide)

/-- 2 becomes a member of 1, and `m` of `g`; the first runs up to its check, then the second, then the first goes on -/
def crossing (g m : Uuid) : List (Op Tx) :=
  schedule [(Request.addGroupMember 1 2 9 5).txn 5, (Request.addGroupMember g m 9 5).txn 5]
    (List.replicate 4 0 ++ List.replicate 6 1 ++ List.replicate 2 0)

theorem crossing_starts (g m : Uuid) : Admissible (step next) (Starts Begins) (Sys.init fourGroups) (crossing g m) := by
  refine schedule_admissible (fun p hp => ?_) _ _
  simp only [List.mem_cons, List.not_mem_nil, or_false] at hp
  rcases hp with rfl | rfl <;> exact ⟨_, _, rfl⟩

/-- 3 becomes a member of 4 meanwhile: no path from 2 to 1 uses that -/
theorem groups_acyclic_crossing :
    (run (step next) (Sys.init fourGroups) (crossing 4 3)).log.map (fun e => (e.1, e.2.outcome)) = [(1, .done), (0, .done)] ∧
      ∀ k, Acyclic (run (step next) (Sys.init fourGroups) ((crossing 4 3).take k)).db.memberGroups :=
  ⟨by decide, (groups_acyclic_iff fourGroups fourGroups_admissible fourGroups_acyclic (crossing 4 3)
    (crossing_starts 4 3)).2 (by decide +kernel)⟩

/-- **Two additions on four different groups close a cycle**: neither waits for the other, and each check passes. -/
theorem crossing_additions_close_cycle :
    let s := run (step next) (Sys.init fourGroups) (crossing 3 4)
    fourGroups.Admissible ∧ Acyclic fourGroups.memberGroups ∧ IamRun fourGroups s ∧
      s.log.map (fun e => (e.1, e.2.outcome)) = [(1, .done), (0, .done)] ∧ ¬ Acyclic s.db.memberGroups := by
  intro s
  refine ⟨fourGroups_admissible, fourGroups_acyclic, run_of_admissible (crossing_starts 3 4), by decide, fun h => ?_⟩
  have hedge : ∀ e ∈ [(1, 2), (2, 3), (3, 4), (4, 1)], e ∈ s.db.memberGroups := by decide
  apply h 1
  calc TransGen (Edge s.db.memberGroups) 1 2 := .single (hedge (1, 2) (by decide))
    TransGen (Edge s.db.memberGroups) _ 3 := .single (hedge (2, 3) (by decide))
    TransGen (Edge s.db.memberGroups) _ 4 := .single (hedge (3, 4) (by decide))
    TransGen (Edge s.db.memberGroups) _ 1 := .single (hedge (4, 1) (by decide))

end AtlasRag.Identity
