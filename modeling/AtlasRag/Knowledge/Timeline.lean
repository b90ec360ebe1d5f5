/-
The effective version of a document at an instant, and what the transitions of the versions do to it.

The exclusion constraint keeps the effective periods of a document apart, so a query for one meets at most one row. A
withdrawal writes the end of a period. It cannot lengthen it: where a published version has an end, another version begins
there (`Good.successors`), and the constraint refuses a longer period.

Results:
- `effective_timeline`: the claims on the timeline in every run, for the answer of `find_effective_at` at every instant.
-/
import AtlasRag.Knowledge.Conclusions
import AtlasRag.Lib.Lists

namespace AtlasRag.Knowledge

open AtlasRag.Lib AtlasRag.Lib.Lists AtlasRag.Lib.Table AtlasRag.Lib.LockMode AtlasRag.Platform
open KnowledgeDb

/-! ## The queries -/

def oneOrNone {α : Type} : List α → Except KnowledgeError (Option α)
  | [] => .ok none
  | [x] => .ok (some x)
  | _ => .error .multipleResultsFound

namespace KnowledgeDb

def findEffectiveAt (db : KnowledgeDb) (d : Uuid) (t : Time) : Except KnowledgeError (Option DocumentVersion) :=
  oneOrNone (db.effectiveVersions d t)

/-- which version the answer is -/
def effectiveId (db : KnowledgeDb) (d : Uuid) (t : Time) : Except KnowledgeError (Option Uuid) :=
  (db.findEffectiveAt d t).map (Option.map (·.id))

/-- the version is effective for the document at the instant -/
def EffectiveIn (db : KnowledgeDb) (d : Uuid) (t : Time) (v : Uuid) : Prop :=
  ∃ x ∈ db.versions, x.id = v ∧ x.documentId = d ∧ x.EffectiveAt t

end KnowledgeDb

variable {settings : UploadSettings} {protect : Set Row} {q : Request} {o : Outcome} {L : Set Lock} {db db' : KnowledgeDb}

/-! ## At most one row -/

theorem versions_nodup (h : db.keys.Nodup) : db.versions.Nodup := by
  refine (List.nodup_flatMap.1 (nodup_tables h).2.2.1).2.imp fun {x y} hdisj hxy => ?_
  have hkey : Key.versionId x.id ∈ x.keys := List.mem_cons_self
  exact hdisj hkey (hxy ▸ hkey)

/-- effective versions of one document at one instant are one -/
theorem Good.effective_eq (h : Good db) {x y : DocumentVersion} (hx : x ∈ db.versions) (hy : y ∈ db.versions)
    (hd : x.documentId = y.documentId) {t : Time} (hxt : x.EffectiveAt t) (hyt : y.EffectiveAt t) : x = y := by
  by_contra hne
  refine h.admissible.periods x hx y hy (fun hid => hne (version_eq h.admissible.keys hx hy hid)) hd ?_
  exact DocumentVersion.overlaps_of_effectiveAt hxt hyt

theorem mem_effectiveVersions {d : Uuid} {t : Time} {x : DocumentVersion} :
    x ∈ db.effectiveVersions d t ↔ x ∈ db.versions ∧ x.documentId = d ∧ x.EffectiveAt t := by
  simp [effectiveVersions]

theorem Good.effectiveVersions_le_one (h : Good db) (d : Uuid) (t : Time) : (db.effectiveVersions d t).length ≤ 1 := by
  refine length_le_one ((versions_nodup h.admissible.keys).filter _) fun x hx y hy => ?_
  obtain ⟨hx, hxd, hxt⟩ := mem_effectiveVersions.1 hx
  obtain ⟨hy, hyd, hyt⟩ := mem_effectiveVersions.1 hy
  exact h.effective_eq hx hy (hxd.trans hyd.symm) hxt hyt

/-- two open periods overlap at the later of their first instants -/
theorem Good.openVersions_le_one (h : Good db) (d : Uuid) : (db.openVersions d).length ≤ 1 := by
  refine length_le_one ((versions_nodup h.admissible.keys).filter _) fun x hx y hy => ?_
  obtain ⟨hx, hxp⟩ := List.mem_filter.1 hx
  obtain ⟨hy, hyp⟩ := List.mem_filter.1 hy
  obtain ⟨hxd, hxf, hxt⟩ := of_decide_eq_true hxp
  obtain ⟨hyd, hyf, hyt⟩ := of_decide_eq_true hyp
  obtain ⟨f, hf⟩ := Option.ne_none_iff_exists'.1 hxf
  obtain ⟨g, hg⟩ := Option.ne_none_iff_exists'.1 hyf
  refine h.effective_eq hx hy (hxd.trans hyd.symm) (t := max f g) ⟨⟨f, hf, le_max_left f g⟩, ?_⟩
    ⟨⟨g, hg, le_max_right f g⟩, ?_⟩
  · rw [hxt]; exact fun e he => by cases he
  · rw [hyt]; exact fun e he => by cases he

theorem oneOrNone_ok {α : Type} {l : List α} (h : l.length ≤ 1) : oneOrNone l = .ok l.head? := by
  rcases l with _ | ⟨x, _ | ⟨y, l⟩⟩
  · rfl
  · rfl
  · simp at h

/-- **The answer**: there is one, and it is the version that is effective. -/
theorem Good.effectiveId_ok (h : Good db) (d : Uuid) (t : Time) :
    ∃ a, db.effectiveId d t = .ok a ∧ ∀ v, a = some v ↔ db.EffectiveIn d t v := by
  have hlen := h.effectiveVersions_le_one d t
  refine ⟨(db.effectiveVersions d t).head?.map (·.id), ?_, fun v => ?_⟩
  · rw [effectiveId, findEffectiveAt, oneOrNone_ok hlen]; rfl
  · rw [Option.map_eq_some_iff]
    simp only [head?_eq_some_iff hlen, mem_effectiveVersions]
    constructor
    · rintro ⟨x, ⟨hx, hd, ht⟩, hid⟩; exact ⟨x, hx, hid, hd, ht⟩
    · rintro ⟨x, hx, hid, hd, ht⟩; exact ⟨x, ⟨hx, hd, ht⟩, hid⟩

/-- answers are told apart by the version that they name -/
theorem Good.effectiveId_eq (h : Good db) (h' : Good db') {d : Uuid} {t : Time}
    (hiff : ∀ v, db'.EffectiveIn d t v ↔ db.EffectiveIn d t v) : db'.effectiveId d t = db.effectiveId d t := by
  obtain ⟨a, ha, hav⟩ := h.effectiveId_ok d t
  obtain ⟨b, hb, hbv⟩ := h'.effectiveId_ok d t
  have hab : b = a := Option.ext fun v => ((hbv v).trans (hiff v)).trans (hav v).symm
  rw [ha, hb, hab]

theorem Good.effectiveId_some (h : Good db) {d : Uuid} {t : Time} {v : Uuid} :
    db.effectiveId d t = .ok (some v) ↔ db.EffectiveIn d t v := by
  obtain ⟨a, ha, hav⟩ := h.effectiveId_ok d t
  rw [ha, ← hav, Except.ok.injEq]

theorem Good.effectiveId_none (h : Good db) {d : Uuid} {t : Time} :
    db.effectiveId d t = .ok none ↔ ∀ v, ¬ db.EffectiveIn d t v := by
  obtain ⟨a, ha, hav⟩ := h.effectiveId_ok d t
  rw [ha, Except.ok.injEq, Option.eq_none_iff_forall_ne_some]
  exact forall_congr' fun v => not_congr (hav v)

/-! ## The transitions -/

/-- what a request does to the answers, for every document and at every instant -/
def Retimes (q : Request) (db db' : KnowledgeDb) : Prop :=
  match q with
  | .publishVersion d v f _ => ∀ d' t, (d' = d ∧ f ≤ t → db'.effectiveId d' t = .ok (some v)) ∧
      (¬ (d' = d ∧ f ≤ t) → db'.effectiveId d' t = db.effectiveId d' t)
  | .withdrawVersion _ v e _ => ∀ d' t,
      (e ≤ t ∧ db.effectiveId d' t = .ok (some v) → db'.effectiveId d' t = .ok none) ∧
      (¬ (e ≤ t ∧ db.effectiveId d' t = .ok (some v)) → db'.effectiveId d' t = db.effectiveId d' t)
  | _ => ∀ d' t, db'.effectiveId d' t = db.effectiveId d' t

theorem effectiveIn_self (hk : db.keys.Nodup) {x : DocumentVersion} (hx : x ∈ db.versions) {d : Uuid} {t : Time} :
    db.EffectiveIn d t x.id ↔ x.documentId = d ∧ x.EffectiveAt t := by
  constructor
  · rintro ⟨y, hy, hid, hd, ht⟩
    rw [version_eq hk hy hx hid] at hd ht
    exact ⟨hd, ht⟩
  · exact fun h => ⟨x, hx, rfl, h⟩

/-- after an UPDATE, the new row counts for its version -/
theorem effectiveIn_setVersion (hk : db.keys.Nodup) {set : DocumentVersion → DocumentVersion} (hset : Sets set)
    {x : DocumentVersion} (hx : x ∈ db.versions) {d v : Uuid} {t : Time} :
    (db.setVersion x.documentId x.id set).EffectiveIn d t v ↔
      (v = x.id ∧ x.documentId = d ∧ (set x).EffectiveAt t) ∨ (v ≠ x.id ∧ db.EffectiveIn d t v) := by
  constructor
  · rintro ⟨y, hy, rfl, rfl, ht⟩
    rcases (mem_setVersion hk hx).1 hy with rfl | ⟨hy, hne⟩
    · exact .inl ⟨hset.id x, (hset.document x).symm, ht⟩
    · exact .inr ⟨fun hid => hne (version_eq hk hy hx hid), y, hy, rfl, rfl, ht⟩
  · rintro (⟨rfl, rfl, ht⟩ | ⟨hne, y, hy, rfl, rfl, ht⟩)
    · exact ⟨set x, (mem_setVersion hk hx).2 (.inl rfl), hset.id x, hset.document x, ht⟩
    · exact ⟨y, (mem_setVersion hk hx).2 (.inr ⟨hy, fun hyx => hne (hyx ▸ rfl)⟩), rfl, rfl, ht⟩

/-- an UPDATE that leaves the version effective or not, as it was, leaves the answer -/
theorem effectiveIn_same (hk : db.keys.Nodup) {set : DocumentVersion → DocumentVersion} (hset : Sets set)
    {x : DocumentVersion} (hx : x ∈ db.versions) {d : Uuid} {t : Time}
    (hsame : x.documentId = d → ((set x).EffectiveAt t ↔ x.EffectiveAt t)) (v : Uuid) :
    (db.setVersion x.documentId x.id set).EffectiveIn d t v ↔ db.EffectiveIn d t v := by
  rw [effectiveIn_setVersion hk hset hx]
  by_cases hv : v = x.id
  · subst hv
    rw [effectiveIn_self hk hx]
    simp only [true_and, ne_eq, not_true_eq_false, false_and, or_false]
    exact and_congr_right hsame
  · simp [hv]

theorem not_effectiveAt_draft (h : Good db) {x : DocumentVersion} (hx : x ∈ db.versions) (hst : x.status = .draft)
    (t : Time) : ¬ x.EffectiveAt t := by
  rintro ⟨⟨f, hf, -⟩, -⟩
  rw [(h.drafts x hx hst).1] at hf
  cases hf

/-- a published version is effective from its first instant on -/
theorem effectiveAt_publish {x : DocumentVersion} (hto : x.effectiveTo = none) (f at' t : Time) :
    (x.publish at' f).EffectiveAt t ↔ f ≤ t := by
  simp [DocumentVersion.EffectiveAt, DocumentVersion.publish, hto]

theorem retimes_publish (h : Good db) (h' : Good db') {d v : Uuid} {f at' : Time}
    (hc : Change settings protect (.publishVersion d v f at') o L db db') : Retimes (.publishVersion d v f at') db db' := by
  obtain ⟨x, hx, -, hcase⟩ := hc
  have hk := h.admissible.keys
  have hpub : ∀ t, (x.publish at' f).EffectiveAt t ↔ f ≤ t :=
    effectiveAt_publish (h.drafts x hx.mem hx.status).2 f at'
  have hdraft : ∀ t, ¬ x.EffectiveAt t := not_effectiveAt_draft h hx.mem hx.status
  obtain ⟨hnew, hold⟩ : x.publish at' f ∈ db'.versions ∧
      ∀ d' t, ¬ (d' = d ∧ f ≤ t) → ∀ u, db'.EffectiveIn d' t u ↔ db.EffectiveIn d' t u := by
    rcases hcase with ⟨-, rfl⟩ | ⟨w, hw, hwto, -, -, -, rfl⟩
    · obtain ⟨hm, rfl, rfl, -, -, -⟩ := hx
      refine ⟨(mem_setVersion hk hm).2 (.inl rfl), fun d' t hnt => effectiveIn_same hk (sets_publish at' f) hm fun hd => ?_⟩
      rw [hpub]
      exact iff_of_false (fun hft => hnt ⟨hd.symm, hft⟩) (hdraft t)
    · have hm' := hx.mem_setVersion hk hw (by decide)
      obtain ⟨-, rfl, rfl, -, -, -⟩ := hx
      have hk' : (db.setVersion x.documentId w.id (.closeAt f at')).keys.Nodup := by
        rw [keys_setVersion (sets_closeAt f at')]; exact hk
      refine ⟨(mem_setVersion hk' hm').2 (.inl rfl), fun d' t hnt u => ?_⟩
      refine (effectiveIn_same hk' (sets_publish at' f) hm' (fun hd => ?_) u).trans ?_
      · rw [hpub]
        exact iff_of_false (fun hft => hnt ⟨hd.symm, hft⟩) (hdraft t)
      · rw [← hw.document]
        refine effectiveIn_same hk (sets_closeAt f at') hw.mem (fun hd => ?_) u
        -- before the new version begins, its predecessor is effective as it was
        have hlt : t < f := not_le.1 fun hft => hnt ⟨hd.symm.trans hw.document, hft⟩
        simp [DocumentVersion.EffectiveAt, DocumentVersion.closeAt, hwto, hlt]
  intro d' t
  refine ⟨?_, fun hnt => h.effectiveId_eq h' (hold d' t hnt)⟩
  rintro ⟨rfl, hft⟩
  exact h'.effectiveId_some.2 ⟨_, hnew, hx.id, hx.document, (hpub t).2 hft⟩

/-- **A withdrawal lengthens no period**: where the version had an end, it is not before the new one. -/
theorem withdraw_le (h : Good db) {x : DocumentVersion} (hx : x ∈ db.versions) (hst : x.status = .published)
    {e at' : Time} (hv : db.versionViolations (x.withdraw e at') = []) : ∀ y ∈ x.effectiveTo, e ≤ y := by
  intro y hy
  by_contra hlt
  have hye : y < e := not_le.1 hlt
  obtain ⟨w, hw, hwd, hwf⟩ := h.successors x hx hst y hy
  simp only [versionViolations, List.append_eq_nil_iff, exclusionConstraint_eq_nil] at hv
  have hdefx := (h.admissible.versions x hx).1
  have hdefw := (h.admissible.versions w hw).1
  simp only [DocumentVersion.defects, List.append_eq_nil_iff, checkThat_eq_nil] at hdefx hdefw
  obtain ⟨f, hf⟩ := Option.ne_none_iff_exists'.1 (hdefx.1.2 hst).2
  have hfy : f < y := hdefx.1.1.2 y hy f hf
  refine hv.2 ⟨w, hw, fun hid => ?_, hwd, y, hwf, f, hf, fun e' he' => ?_, fun z hz => ?_⟩
  · have hwx : w = x := version_eq h.admissible.keys hw hx hid
    rw [hwx, hf] at hwf
    exact hfy.ne (Option.some.inj hwf)
  · obtain rfl : e = e' := Option.some.inj he'
    exact hye
  · exact hfy.trans (hdefw.1.1.2 z hz y hwf)

theorem retimes_withdraw (h : Good db) (h' : Good db') {d v : Uuid} {e at' : Time}
    (hc : Change settings protect (.withdrawVersion d v e at') o L db db') : Retimes (.withdrawVersion d v e at') db db' := by
  obtain ⟨x, ⟨hm, rfl, rfl, hst, -, -⟩, -, hv, -, rfl⟩ := hc
  have hk := h.admissible.keys
  have hle := withdraw_le h hm hst hv
  -- the new period is the part of the old one before `e`
  have hcut : ∀ t, (x.withdraw e at').EffectiveAt t ↔ x.EffectiveAt t ∧ t < e := by
    intro t
    simp only [DocumentVersion.EffectiveAt, DocumentVersion.withdraw, Option.mem_def, Option.some.injEq, forall_eq']
    exact ⟨fun ht => ⟨⟨ht.1, fun y hy => ht.2.trans_le (hle y hy)⟩, ht.2⟩, fun ht => ⟨ht.1.1, ht.2⟩⟩
  intro d' t
  refine ⟨fun ht => ?_, fun ht => ?_⟩
  · refine h'.effectiveId_none.2 fun u hu => ?_
    obtain ⟨a, ha, hav⟩ := h.effectiveId_ok d' t
    have hax : a = some x.id := Except.ok.inj (ha.symm.trans ht.2)
    rcases (effectiveIn_setVersion hk (sets_withdraw e at') hm).1 hu with ⟨-, -, heff⟩ | ⟨hne, heff⟩
    · exact absurd ht.1 (not_le.2 ((hcut t).1 heff).2)
    · exact hne (Option.some.inj (((hav u).2 heff).symm.trans hax))
  · refine h.effectiveId_eq h' (effectiveIn_same hk (sets_withdraw e at') hm fun hd => ?_)
    rw [hcut]
    refine and_iff_left_of_imp fun heff => not_le.1 fun het => ht ⟨het, ?_⟩
    exact h.effectiveId_some.2 ((effectiveIn_self hk hm).2 ⟨hd, heff⟩)

/-- **One commit**, and the answers after it. -/
theorem change_retimes (h : Good db) (hc : Change settings protect q o L db db') : Retimes q db db' := by
  have h' := hc.good h
  cases q with
  | publishVersion d v f at' => exact retimes_publish h h' hc
  | withdrawVersion d v e at' => exact retimes_withdraw h h' hc
  | archiveVersion d v at' =>
    obtain ⟨x, ⟨hm, rfl, rfl, -, -, -⟩, -, -, rfl⟩ := hc
    exact fun d' t => h.effectiveId_eq h' (effectiveIn_same h.admissible.keys (sets_archive at') hm fun _ => Iff.rfl)
  | createVersion c =>
    obtain ⟨-, -, -, -, rfl⟩ := hc
    refine fun d' t => h.effectiveId_eq h' fun u => ⟨?_, fun ⟨x, hx, hu⟩ => ⟨x, List.mem_append_left _ hx, hu⟩⟩
    rintro ⟨x, hx, hid, hd, ht⟩
    rcases List.mem_append.1 hx with hx | hx
    · exact ⟨x, hx, hid, hd, ht⟩
    · obtain ⟨f, hf, -⟩ := ht.1
      rw [List.mem_singleton.1 hx] at hf
      cases hf
  | createDocument => obtain ⟨-, -, -, rfl⟩ := hc; exact fun _ _ => rfl
  | deleteDocument => obtain ⟨-, -, -, rfl⟩ := hc; exact fun _ _ => rfl
  | createArtifact => obtain ⟨-, -, -, -, rfl⟩ := hc; exact fun _ _ => rfl
  | upload => obtain ⟨-, -, -, -, -, rfl⟩ := hc; exact fun _ _ => rfl
  | grantAcl => obtain ⟨-, -, -, -, rfl⟩ := hc; exact fun _ _ => rfl
  | revokeAcl => obtain ⟨x, -, -, -, -, -, rfl⟩ := hc; exact fun _ _ => rfl

/-- **The timeline of effective versions.** In every run, from a database without versions:
- at every instant at most one version of a document is effective, and at most one is open;
- so the two queries never meet two rows;
- a step that answers a call with a result, and no exception, commits;
- a version that is published becomes the answer from its first instant on, and the answer before that stays;
- a version that is withdrawn is the answer no more from then on, and no other answer changes;
- no other request changes an answer. -/
theorem effective_timeline (settings : UploadSettings) (db : KnowledgeDb) (hadm : db.Admissible)
    (hversions : db.versions = []) (s : State) (hs : KnowledgeRun settings db s) :
    (∀ d t, (s.db.effectiveVersions d t).length ≤ 1) ∧ (∀ d, (s.db.openVersions d).length ≤ 1) ∧
    (∀ d t, ∃ a, s.db.effectiveId d t = .ok a) ∧
    (∀ o' a, ending s o' = some a → a.success = true → ∃ w, committing s o' = some (w, a)) ∧
    ∀ o' w reply, committing s o' = some (w, .knowledge reply) →
      Retimes reply.request s.db (step Lock.Conflicts s o').db := by
  have hG := good_of_no_versions hadm hversions
  have hGs := run_good hG hs
  refine ⟨hGs.effectiveVersions_le_one, hGs.openVersions_le_one, fun d t => ?_,
    fun o' a ha hsuccess => answered_commits hs ha hsuccess, fun o' w reply hc => ?_⟩
  · obtain ⟨a, ha, -⟩ := hGs.effectiveId_ok d t
    exact ⟨a, ha⟩
  · obtain ⟨L, hchange⟩ := (safe_rule run_obligations hG hs).2 o' w _ hc
    rw [step_db_some hc]
    exact change_retimes hGs hchange.2

/-- a document without versions, and the limits of an upload -/
def oneDocument : KnowledgeDb where
  iam := ⟨[⟨9, .user, true, 0, 0, none⟩], [9], [], [], [], [], [], []⟩
  documents := [⟨1, some 9, "handbook", "Handbook", none, none, none, none, [], 0, 0, none⟩]
  acl := []
  versions := []
  artifacts := []

theorem oneDocument_admissible : oneDocument.Admissible where
  iam := by constructor <;> decide
  keys := by decide
  documents := by decide +kernel
  acl := by decide
  versions := by decide
  artifacts := by decide
  periods := by decide

/-- version 2 is created and published from 10 on; its withdrawal at 30 is about to commit -/
def beforeWithdrawal : State :=
  run (step Lock.Conflicts) (Sys.init oneDocument) (Transaction.schedule
    [(Request.createVersion ⟨2, 1, "1.0", none, [], 5⟩).txn textUploads, (Request.publishVersion 1 2 10 6).txn textUploads,
      (Request.withdrawVersion 1 2 30 30).txn textUploads]
    (List.replicate 3 0 ++ List.replicate 6 1 ++ List.replicate 3 2))

theorem beforeWithdrawal_run : KnowledgeRun textUploads oneDocument beforeWithdrawal := by
  refine run_of_admissible (schedule_admissible (fun p hp => ?_) _ _)
  simp only [List.mem_cons, List.not_mem_nil, or_false] at hp
  rcases hp with rfl | rfl | rfl <;> exact .inl ⟨_, trivial, rfl⟩

theorem effective_timeline_withdrawn :
    beforeWithdrawal.db.effectiveId 1 30 = .ok (some 2) ∧
      (step Lock.Conflicts beforeWithdrawal (.exec 2)).db.effectiveId 1 30 = .ok none := by
  have hbefore : beforeWithdrawal.db.effectiveId 1 30 = .ok (some 2) := by decide +kernel
  obtain ⟨-, -, -, hcommits, hretime⟩ := effective_timeline textUploads oneDocument oneDocument_admissible rfl beforeWithdrawal
    beforeWithdrawal_run
  obtain ⟨o, ho, hsuccess⟩ : ∃ o, ending beforeWithdrawal (.exec 2) = some (.knowledge ⟨.withdrawVersion 1 2 30 30, o⟩) ∧
      (Answer.knowledge ⟨.withdrawVersion 1 2 30 30, o⟩).success = true := ⟨_, rfl, rfl⟩
  obtain ⟨w, hc⟩ := hcommits _ _ ho hsuccess
  have hretimes := hretime _ w _ hc
  exact ⟨hbefore, (hretimes 1 30).1 ⟨le_refl 30, hbefore⟩⟩

end AtlasRag.Knowledge
