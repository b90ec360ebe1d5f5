/-
How the transitions of a version fail.

`set_published` translates a violation of the exclusion constraint, `set_withdrawn` does not. A version that its successor
has closed can still be withdrawn, and where the time given lies after the end that it has, the longer period overlaps the
successor's: the `IntegrityError` reaches the caller. That is the only way in which a constraint escapes.

Results:
- `transition_settles_iff`: on every reachable database a transition commits, or raises an error of the module and leaves the
  database, unless it withdraws a version after its end;
- `withdraw_after_end_escapes`: such a withdrawal.
-/
import AtlasRag.Knowledge.Timeline

namespace AtlasRag.Knowledge

open AtlasRag.Lib AtlasRag.Lib.Lists AtlasRag.Lib.Table AtlasRag.Lib.LockMode AtlasRag.Platform
open KnowledgeDb DocumentVersionManagementService

/-- the class is one of `DocumentVersion…` -/
def KnowledgeError.OfVersion : KnowledgeError → Prop
  | .documentVersionNotFound .. | .documentVersionConflict .. | .documentVersionInvalidTransition .. => True
  | .documentVersionOverlap .. | .documentVersionInvalidEffectiveRange .. | .documentVersionDocumentNotFound .. => True
  | _ => False

/-- the transitions of versions -/
inductive Request.Transition : Request → Prop where
  | publish (d v : Uuid) (f at' : Time) : Transition (.publishVersion d v f at')
  | withdraw (d v : Uuid) (e at' : Time) : Transition (.withdrawVersion d v e at')
  | archive (d v : Uuid) (at' : Time) : Transition (.archiveVersion d v at')

/-- the request commits its change, or raises an error of the module and leaves the database -/
def Settles (settings : UploadSettings) (q : Request) (db : KnowledgeDb) : Prop :=
  ∃ db' o, (q.txn settings).alone db = (db', .knowledge ⟨q, o⟩) ∧
    ((∃ L x, o = .version x ∧ Change settings ∅ q o L db db') ∨ ∃ e, o = .raised e ∧ e.OfVersion ∧ db' = db)

/-- a published version is withdrawn from a time on that lies after its end -/
def WithdrawsAfterEnd (q : Request) (db : KnowledgeDb) : Prop :=
  match q with
  | .withdrawVersion d v e _ => ∃ x ∈ db.versions, x.id = v ∧ x.documentId = d ∧ x.status = .published ∧
      ∃ y ∈ x.effectiveTo, y < e
  | _ => False

variable {settings : UploadSettings} {q : Request} {reply : Outcome → Answer} {db : KnowledgeDb} {d v : Uuid}

/-! ## Statements, alone -/

theorem alone_findOpenEffectiveVersion (h : Good db) (k : Option DocumentVersion → Tx) :
    (findOpenEffectiveVersion reply d k).alone db = (k (db.openVersions d).head?).alone db := by
  have hlen := h.openVersions_le_one d
  have hself : (db.openVersions d).filter (·.id ∈ (db.openVersions d).map (·.id)) = db.openVersions d :=
    List.filter_eq_self.2 fun x hx => decide_eq_true (List.mem_map_of_mem hx)
  simp only [findOpenEffectiveVersion, Transaction.Txn.read, Transaction.Txn.alone, hself]
  rcases hopen : db.openVersions d with _ | ⟨x, _ | ⟨y, l⟩⟩
  · rfl
  · rfl
  · rw [hopen] at hlen; simp at hlen

/-- an UPDATE of a version that is there -/
theorem alone_updateVersion (sofar : KnowledgeDb → KnowledgeDb) {set : DocumentVersion → DocumentVersion} (hset : Sets set)
    {refused : List Violation → KnowledgeError} {k : Option DocumentVersion → Tx} {x : DocumentVersion}
    (hk : (sofar db).keys.Nodup) (hx : x ∈ (sofar db).versions) :
    (updateVersion reply sofar x.documentId x.id set refused k).alone db =
      match (sofar db).versionViolations (set x) with
      | [] => (k (some (set x))).alone db
      | es => (db, reply (.raised (refused es))) := by
  have hrow : (sofar db).versions.filter (fun y => y.id = x.id ∧ y.documentId = x.documentId) = [x] := by
    have hmem : x ∈ (sofar db).versions.filter fun y => y.id = x.id ∧ y.documentId = x.documentId :=
      List.mem_filter.2 ⟨hx, decide_eq_true ⟨rfl, rfl⟩⟩
    have hlen : ((sofar db).versions.filter fun y => y.id = x.id ∧ y.documentId = x.documentId).length ≤ 1 := by
      refine length_le_one ((versions_nodup hk).filter _) fun y hy z hz => ?_
      obtain ⟨hy, hyp⟩ := List.mem_filter.1 hy
      obtain ⟨hz, hzp⟩ := List.mem_filter.1 hz
      exact version_eq hk hy hz ((of_decide_eq_true hyp).1.trans (of_decide_eq_true hzp).1.symm)
    rcases hl : (sofar db).versions.filter _ with _ | ⟨y, _ | ⟨z, l⟩⟩
    · rw [hl] at hmem; cases hmem
    · rw [hl] at hmem; rw [List.mem_singleton.1 hmem]
    · rw [hl] at hlen; simp at hlen
  have hdefects : updateDefects (sofar db).versionViolations (fun y => y.id = x.id ∧ y.documentId = x.documentId) set
      (sofar db).versions = (sofar db).versionViolations (set x) := by
    rw [updateDefects, hrow, List.flatMap_singleton]
  have hfind : ((sofar db).setVersion x.documentId x.id set).findVersion x.documentId x.id = some (set x) := by
    have hkeys' : ((sofar db).setVersion x.documentId x.id set).keys.Nodup := by
      rw [keys_setVersion hset]; exact hk
    have hf := findVersion_eq hkeys' ((mem_setVersion hk hx).2 (.inl rfl))
    rwa [hset.id, hset.document] at hf
  cases hv : (sofar db).versionViolations (set x) with
  | nil => simp only [updateVersion, Transaction.Txn.alone, updateWhere, hdefects, hv, hfind]
  | cons e es => simp only [updateVersion, Transaction.Txn.alone, updateWhere, hdefects, hv]; rfl

/-! ## Which constraints can fire -/

/-- a period within another one overlaps nothing else -/
theorem overlaps_of_within {z x y : DocumentVersion} (hfrom : y.effectiveFrom = x.effectiveFrom)
    (hto : ∀ e ∈ x.effectiveTo, ∃ e' ∈ y.effectiveTo, e' ≤ e) (h : z.Overlaps y) : z.Overlaps x := by
  obtain ⟨f, hf, g, hg, hfy, hgz⟩ := h
  refine ⟨f, hf, g, hfrom ▸ hg, fun e he => ?_, hgz⟩
  obtain ⟨e', he', hle⟩ := hto e he
  exact (hfy e' he').trans_le hle

/-- an UPDATE that does not lengthen the period violates no constraint but CHECKs -/
theorem versionViolations_of_within (h : db.Admissible) {set : DocumentVersion → DocumentVersion} (hset : Sets set)
    {x : DocumentVersion} (hx : x ∈ db.versions) (hdef : (set x).defects = [])
    (hfrom : (set x).effectiveFrom = x.effectiveFrom)
    (hto : ∀ e ∈ x.effectiveTo, ∃ e' ∈ (set x).effectiveTo, e' ≤ e) : db.versionViolations (set x) = [] := by
  simp only [versionViolations, List.append_eq_nil_iff, exclusionConstraint_eq_nil]
  refine ⟨hdef, ?_⟩
  rintro ⟨z, hz, hne, hd, hov⟩
  rw [hset.id] at hne
  rw [hset.document] at hd
  exact h.periods z hz x hx hne hd (overlaps_of_within hfrom hto hov)

section Defects

variable {x : DocumentVersion} (hx : x.defects = [])
include hx

theorem defects_publish (hto : x.effectiveTo = none) (at' f : Time) : (x.publish at' f).defects = [] := by
  simp only [DocumentVersion.defects, List.append_eq_nil_iff, checkThat_eq_nil] at hx ⊢
  simp [DocumentVersion.publish, hto, hx.1.1.1]

theorem defects_closeAt (hst : x.status = .published) {f : Time} (hf : ∀ g ∈ x.effectiveFrom, g < f) (at' : Time) :
    (x.closeAt f at').defects = [] := by
  simp only [DocumentVersion.defects, List.append_eq_nil_iff, checkThat_eq_nil] at hx ⊢
  refine ⟨⟨⟨hx.1.1.1, ?_⟩, hx.1.2⟩, ?_⟩
  · intro e he g hg
    obtain rfl : f = e := Option.some.inj he
    exact hf g hg
  · intro hcl
    rw [DocumentVersion.closeAt, hst] at hcl
    simp at hcl

theorem defects_withdraw (hst : x.status = .published) {e : Time} (he : ∀ f ∈ x.effectiveFrom, f < e) (at' : Time) :
    (x.withdraw e at').defects = [] := by
  simp only [DocumentVersion.defects, List.append_eq_nil_iff, checkThat_eq_nil] at hx ⊢
  refine ⟨⟨⟨hx.1.1.1, ?_⟩, fun hp => by cases hp⟩, fun _ => ?_⟩
  · intro e' he' f hf
    obtain rfl : e = e' := Option.some.inj he'
    exact he f hf
  · exact ⟨(hx.1.2 hst).1, (hx.1.2 hst).2, by simp [DocumentVersion.withdraw]⟩

theorem defects_archive (hst : x.status = .withdrawn) (at' : Time) : (x.archive at').defects = [] := by
  simp only [DocumentVersion.defects, List.append_eq_nil_iff, checkThat_eq_nil] at hx ⊢
  exact ⟨⟨⟨hx.1.1.1, hx.1.1.2⟩, fun hp => by cases hp⟩, fun _ => hx.2 (.inl hst)⟩

end Defects

/-- the only constraint that a publication can violate -/
theorem versionViolations_publish (db : KnowledgeDb) {x : DocumentVersion} (hx : x.defects = [])
    (hto : x.effectiveTo = none) (at' f : Time) :
    db.versionViolations (x.publish at' f) = [] ∨
      db.versionViolations (x.publish at' f) = [.exclusion DOCUMENT_VERSION_OVERLAP_CONSTRAINT] := by
  rw [versionViolations, defects_publish hx hto, List.nil_append]
  unfold exclusionConstraint
  split_ifs
  · exact .inr rfl
  · exact .inl rfl

/-! ## The transitions, alone -/

theorem settles_raised {e : KnowledgeError} (h : (q.txn settings).alone db = (db, .knowledge ⟨q, .raised e⟩))
    (he : e.OfVersion) : Settles settings q db :=
  ⟨db, .raised e, h, .inr ⟨e, rfl, he, rfl⟩⟩

theorem written {x : DocumentVersion} (hx : x ∈ db.versions) (set : DocumentVersion → DocumentVersion) :
    Written (fun _ => True) db x.documentId x.id x.status set x :=
  ⟨hx, rfl, rfl, rfl, trivial, fun _ _ => trivial⟩

/-- the program after the check of the status, for a version that is there -/
theorem alone_lockVersion {k : Option DocumentVersion → Tx} :
    (lockVersion d v k).alone db = (k (db.findVersion d v)).alone db := alone_selectForUpdate _ _ k _

theorem alone_setStatus {set : DocumentVersion → DocumentVersion} (hset : Sets set) {x : DocumentVersion}
    (hk : db.keys.Nodup) (hx : x ∈ db.versions) (hv : db.versionViolations (set x) = []) :
    (setStatus reply x.documentId x.id set).alone db =
      (db.setVersion x.documentId x.id set, reply (.version (set x))) := by
  rw [setStatus, alone_updateVersion id hset hk hx]
  simp only [id_eq, hv]
  rfl

theorem archive_settles (h : Good db) (at' : Time) : Settles settings (.archiveVersion d v at') db := by
  have hrun : (Request.txn settings (.archiveVersion d v at')).alone db =
      (archiveVersion (fun o => .knowledge ⟨.archiveVersion d v at', o⟩) d v at').alone db := rfl
  rw [archiveVersion, alone_lockVersion] at hrun
  cases hf : db.findVersion d v with
  | none => rw [hf] at hrun; exact settles_raised hrun trivial
  | some x =>
    rw [hf] at hrun
    obtain ⟨hx, rfl, rfl⟩ := findVersion_some hf
    dsimp only at hrun
    by_cases hst : x.status = .withdrawn
    · have hdef := defects_archive (h.admissible.versions x hx).1 hst at'
      have hv := versionViolations_of_within h.admissible (sets_archive at') hx hdef rfl fun e he => ⟨e, he, le_refl e⟩
      rw [if_neg (not_not.2 hst), alone_setStatus (sets_archive at') h.admissible.keys hx hv] at hrun
      exact ⟨_, _, hrun, .inl ⟨fun _ => True, _, rfl, x, hst ▸ written hx _, hv, rfl, rfl⟩⟩
    · rw [if_pos hst] at hrun
      exact settles_raised hrun trivial

/-- a published version has a first instant -/
theorem Good.published_from (h : Good db) {x : DocumentVersion} (hx : x ∈ db.versions) (hst : x.status = .published) :
    ∃ f, x.effectiveFrom = some f := by
  have hdef := (h.admissible.versions x hx).1
  simp only [DocumentVersion.defects, List.append_eq_nil_iff, checkThat_eq_nil] at hdef
  exact Option.ne_none_iff_exists'.1 (hdef.1.2 hst).2

/-- `set_withdrawn` of a published version, at a time after its first instant -/
theorem setWithdrawn_settles_iff (h : Good db) {x : DocumentVersion} (hx : x ∈ db.versions) (hst : x.status = .published)
    {e at' f : Time} (hf : x.effectiveFrom = some f) (hfe : f < e)
    (hrun : (Request.txn settings (.withdrawVersion x.documentId x.id e at')).alone db =
      (setStatus (fun o => .knowledge ⟨.withdrawVersion x.documentId x.id e at', o⟩) x.documentId x.id
        (.withdraw e at')).alone db) :
    Settles settings (.withdrawVersion x.documentId x.id e at') db ↔ ¬ ∃ y ∈ x.effectiveTo, y < e := by
  have hk := h.admissible.keys
  have hdef := defects_withdraw (h.admissible.versions x hx).1 hst (e := e) (fun g hg => by
    obtain rfl : f = g := Option.some.inj (hf.symm.trans hg)
    exact hfe) at'
  by_cases hend : ∃ y ∈ x.effectiveTo, y < e
  · -- the longer period overlaps the successor's, and the violation is raised as it is
    refine iff_of_false ?_ (not_not.2 hend)
    obtain ⟨y, hy, hye⟩ := hend
    cases hv : db.versionViolations (x.withdraw e at') with
    | nil => exact absurd (withdraw_le h hx hst hv y hy) (not_le.2 hye)
    | cons z zs =>
      rw [setStatus, alone_updateVersion id (sets_withdraw e at') hk hx] at hrun
      simp only [id_eq, hv] at hrun
      rintro ⟨db', o, hres, hcase⟩
      obtain ⟨-, ho⟩ := Prod.mk.inj (hrun.symm.trans hres)
      obtain rfl : Outcome.raised (.integrity (z :: zs)) = o := (Reply.mk.inj (Answer.knowledge.inj ho)).2
      rcases hcase with ⟨L, v, hov, -⟩ | ⟨err, herr, hof, -⟩
      · cases hov
      · cases herr; exact hof
  · have hle : ∀ y ∈ x.effectiveTo, ∃ e' ∈ (x.withdraw e at').effectiveTo, e' ≤ y := fun y hy =>
      ⟨e, rfl, not_lt.1 fun hlt => hend ⟨y, hy, hlt⟩⟩
    have hv := versionViolations_of_within h.admissible (sets_withdraw e at') hx hdef rfl hle
    rw [alone_setStatus (sets_withdraw e at') hk hx hv] at hrun
    refine iff_of_true ⟨_, _, hrun, .inl ⟨fun _ => True, _, rfl, x, hst ▸ written hx _, ⟨f, hf, hfe⟩, hv, rfl, rfl⟩⟩ hend

/-- **A withdrawal** settles iff it does not lie after the end of a published version. -/
theorem withdraw_settles_iff (h : Good db) (e at' : Time) :
    Settles settings (.withdrawVersion d v e at') db ↔ ¬ WithdrawsAfterEnd (.withdrawVersion d v e at') db := by
  have hrun : (Request.txn settings (.withdrawVersion d v e at')).alone db =
      (withdrawVersion (fun o => .knowledge ⟨.withdrawVersion d v e at', o⟩) d v e at').alone db := rfl
  rw [withdrawVersion, alone_lockVersion] at hrun
  have hk := h.admissible.keys
  cases hfind : db.findVersion d v with
  | none =>
    rw [hfind] at hrun
    refine iff_of_true (settles_raised hrun trivial) ?_
    rintro ⟨x, hx, rfl, rfl, -⟩
    rw [findVersion_eq hk hx] at hfind
    cases hfind
  | some x =>
    rw [hfind] at hrun
    obtain ⟨hx, rfl, rfl⟩ := findVersion_some hfind
    have hafter : WithdrawsAfterEnd (.withdrawVersion x.documentId x.id e at') db ↔
        x.status = .published ∧ ∃ y ∈ x.effectiveTo, y < e := by
      constructor
      · rintro ⟨z, hz, hid, -, hst, hend⟩
        rw [version_eq hk hz hx hid] at hst hend
        exact ⟨hst, hend⟩
      · exact fun hend => ⟨x, hx, rfl, rfl, hend⟩
    rw [hafter]
    dsimp only at hrun
    by_cases hst : x.status = .published
    · rw [if_neg (not_not.2 hst)] at hrun
      obtain ⟨f, hf⟩ := h.published_from hx hst
      rw [hf, Option.filter_some] at hrun
      by_cases hfe : e ≤ f
      · rw [if_pos (decide_eq_true hfe)] at hrun
        refine iff_of_true (settles_raised hrun trivial) ?_
        rintro ⟨-, y, hy, hye⟩
        have hdef := (h.admissible.versions x hx).1
        simp only [DocumentVersion.defects, List.append_eq_nil_iff, checkThat_eq_nil] at hdef
        exact absurd ((hdef.1.1.2 y hy f hf).trans hye) (not_lt.2 hfe)
      · rw [if_neg (by simpa using hfe)] at hrun
        rw [setWithdrawn_settles_iff h hx hst hf (not_le.1 hfe) hrun, not_and]
        exact (imp_iff_right hst).symm
    · rw [if_pos hst] at hrun
      exact iff_of_true (settles_raised hrun trivial) fun hc => hst hc.1

/-- `set_published`: it is accepted, or the overlap is raised as an error of the module -/
theorem setPublished_settles {x : DocumentVersion} (sofar : KnowledgeDb → KnowledgeDb) {f at' : Time}
    (hk : (sofar db).keys.Nodup) (hx : x ∈ (sofar db).versions) (hdef : x.defects = []) (hto : x.effectiveTo = none)
    (hrun : (Request.txn settings (.publishVersion x.documentId x.id f at')).alone db =
      (setPublished (fun o => .knowledge ⟨.publishVersion x.documentId x.id f at', o⟩) sofar x.documentId x.id at'
        f).alone db)
    (hchange : (sofar db).versionViolations (x.publish at' f) = [] →
      Change settings ∅ (.publishVersion x.documentId x.id f at') (.version (x.publish at' f)) (fun _ => True) db
        ((sofar db).setVersion x.documentId x.id (.publish at' f))) :
    Settles settings (.publishVersion x.documentId x.id f at') db := by
  rw [setPublished, alone_updateVersion sofar (sets_publish at' f) hk hx] at hrun
  rcases versionViolations_publish (sofar db) hdef hto at' f with hv | hv
  · rw [hv] at hrun
    exact ⟨_, _, hrun, .inl ⟨fun _ => True, _, rfl, hchange hv⟩⟩
  · rw [hv] at hrun
    exact settles_raised hrun trivial

/-- **A publication** always settles. -/
theorem publish_settles (h : Good db) (f at' : Time) : Settles settings (.publishVersion d v f at') db := by
  have hrun : (Request.txn settings (.publishVersion d v f at')).alone db =
      (publishVersion (fun o => .knowledge ⟨.publishVersion d v f at', o⟩) d v f at').alone db := rfl
  rw [publishVersion, alone_lockVersion] at hrun
  have hk := h.admissible.keys
  cases hfind : db.findVersion d v with
  | none => rw [hfind] at hrun; exact settles_raised hrun trivial
  | some x =>
    rw [hfind] at hrun
    obtain ⟨hx, rfl, rfl⟩ := findVersion_some hfind
    dsimp only at hrun
    by_cases hst : x.status = .draft
    · rw [if_neg (not_not.2 hst), alone_findOpenEffectiveVersion h] at hrun
      have hdef := (h.admissible.versions x hx).1
      have hto := (h.drafts x hx hst).2
      cases hopen : (db.openVersions x.documentId).head? with
      | none =>
        rw [hopen] at hrun
        exact setPublished_settles id hk hx hdef hto hrun fun hv =>
          ⟨x, hst ▸ written hx _, rfl, .inl ⟨hv, rfl⟩⟩
      | some w =>
        rw [hopen] at hrun
        dsimp only at hrun
        obtain ⟨hw, hwp⟩ := List.mem_filter.1 (List.mem_of_mem_head? hopen)
        obtain ⟨hwd, hwf, hwto⟩ := of_decide_eq_true hwp
        have hpub := h.open_published hw hwf hwto
        obtain ⟨g, hg⟩ := Option.ne_none_iff_exists'.1 hwf
        rw [hg, Option.filter_some] at hrun
        by_cases hfg : f ≤ g
        · rw [if_pos (decide_eq_true hfg)] at hrun
          exact settles_raised hrun trivial
        · rw [if_neg (by simpa using hfg), ← hwd] at hrun
          have hdefw := defects_closeAt (h.admissible.versions w hw).1 hpub (f := f) (fun g' hg' => by
            obtain rfl : g = g' := Option.some.inj (hg.symm.trans hg')
            exact not_le.1 hfg) at'
          have hv := versionViolations_of_within h.admissible (sets_closeAt f at') hw hdefw rfl fun e he => by
            rw [hwto] at he; cases he
          dsimp only at hrun
          rw [alone_updateVersion id (sets_closeAt f at') hk hw] at hrun
          simp only [id_eq, hv] at hrun
          rw [hwd] at hrun
          have hne : x ≠ w := fun hxw => by rw [hxw, hpub] at hst; cases hst
          have hk' : (db.setVersion x.documentId w.id (.closeAt f at')).keys.Nodup := by
            rw [keys_setVersion (sets_closeAt f at')]; exact hk
          have hx' : x ∈ (db.setVersion x.documentId w.id (.closeAt f at')).versions := by
            rw [← hwd]; exact (mem_setVersion hk hw).2 (.inr ⟨hx, hne⟩)
          refine setPublished_settles (·.setVersion x.documentId w.id (.closeAt f at')) hk' hx' hdef hto hrun fun hv' => ?_
          exact ⟨x, hst ▸ written hx _, rfl, .inr ⟨w, ⟨hw, rfl, hwd, hpub, trivial, fun _ _ => trivial⟩, hwto,
            ⟨g, hg, not_le.1 hfg⟩, hv, hv', rfl⟩⟩
    · rw [if_pos hst] at hrun
      exact settles_raised hrun trivial

/-- **How transitions fail.** On every database that a run reaches, a transition of a version commits its change, or raises
an error of the module and leaves the database, iff it does not withdraw a published version after its end. -/
theorem transition_settles_iff (settings : UploadSettings) (db : KnowledgeDb) (hadm : db.Admissible)
    (hversions : db.versions = []) (s : State) (hs : KnowledgeRun settings db s) (q : Request) (hq : q.Transition) :
    Settles settings q s.db ↔ ¬ WithdrawsAfterEnd q s.db := by
  have hG := run_good (good_of_no_versions hadm hversions) hs
  cases hq with
  | publish d v f at' => exact iff_of_true (publish_settles hG f at') id
  | withdraw d v e at' => exact withdraw_settles_iff hG e at'
  | archive d v at' => exact iff_of_true (archive_settles hG at') id

theorem transition_settles_withdrawn : Settles textUploads (.withdrawVersion 1 2 30 30) beforeWithdrawal.db := by
  refine (transition_settles_iff textUploads oneDocument oneDocument_admissible rfl beforeWithdrawal beforeWithdrawal_run
    (.withdrawVersion 1 2 30 30) (.withdraw 1 2 30 30)).2 ?_
  rintro ⟨x, hx, -, -, -, y, hy, -⟩
  have hopen : ∀ x ∈ beforeWithdrawal.db.versions, x.effectiveTo = none := by decide +kernel
  rw [hopen x hx] at hy
  cases hy

/-- version 2 is published from 10 on, and version 3 from 20 on -/
def succession : State :=
  run (step Lock.Conflicts) (Sys.init oneDocument) (Transaction.schedule
    [(Request.createVersion ⟨2, 1, "1.0", none, [], 5⟩).txn textUploads, (Request.publishVersion 1 2 10 6).txn textUploads,
      (Request.createVersion ⟨3, 1, "2.0", none, [], 15⟩).txn textUploads,
      (Request.publishVersion 1 3 20 16).txn textUploads]
    (List.replicate 3 0 ++ List.replicate 6 1 ++ List.replicate 3 2 ++ List.replicate 8 3))

/-- **Version 2 is withdrawn from 25 on**: the exclusion constraint fires, and nobody translates its error. -/
theorem withdraw_after_end_escapes :
    KnowledgeRun textUploads oneDocument succession ∧
      (((Request.withdrawVersion 1 2 25 26).txn textUploads).alone succession.db).2 = .knowledge
        ⟨.withdrawVersion 1 2 25 26, .raised (.integrity [.exclusion DOCUMENT_VERSION_OVERLAP_CONSTRAINT])⟩ ∧
      ¬ Settles textUploads (.withdrawVersion 1 2 25 26) succession.db := by
  have hrun : KnowledgeRun textUploads oneDocument succession := by
    refine run_of_admissible (schedule_admissible (fun p hp => ?_) _ _)
    simp only [List.mem_cons, List.not_mem_nil, or_false] at hp
    rcases hp with rfl | rfl | rfl | rfl <;> exact .inl ⟨_, trivial, rfl⟩
  have hres : (((Request.withdrawVersion 1 2 25 26).txn textUploads).alone succession.db).2 = .knowledge
      ⟨.withdrawVersion 1 2 25 26, .raised (.integrity [.exclusion DOCUMENT_VERSION_OVERLAP_CONSTRAINT])⟩ := rfl
  refine ⟨hrun, hres, ?_⟩
  rintro ⟨db', o, halone, hcase⟩
  rw [halone] at hres
  obtain rfl := (Reply.mk.inj (Answer.knowledge.inj hres)).2
  rcases hcase with ⟨L, x, hx, -⟩ | ⟨e, he, hof, -⟩
  · cases hx
  · cases he; exact hof

end AtlasRag.Knowledge
