/-
Pending rows that nobody is about to mark: what a publisher step can do to a row that no live run has dispatched under
the row's present claim.

Such a row stays pending and undispatched until a dispatch of it succeeds, which puts its message in the broker. A row
that a run has dispatched and not yet marked is pending as well, but its next step may publish it.

Results:
- `step_tracked`: every job of a run is a job of its row, under an attempt number that the row has handed out;
- `step_pending`: a pending undispatched row survives every step of a publisher but its own dispatch.
-/
import AtlasRag.Jobs.Publisher

namespace AtlasRag.Jobs.Publisher

open AtlasRag.Lib AtlasRag.Lib.Table AtlasRag.Platform

/-- no live run has dispatched the row under its present claim -/
def Undispatched (s : St) (x : JobOutbox) : Prop :=
  ∀ i r j js, s.runs i = some r → r.phase = .dispatched → r.jobs = j :: js → j.id = x.id →
    j.attemptNumber ≠ x.attemptCount

/-- the job that a dispatch step of run `i` sends -/
def headJob (s : St) (i : ℕ) : Option ClaimedOutboxJob :=
  match s.runs i with
  | some ⟨j :: _, .look, _⟩ => if (taskByJobType j.jobType).isSome then some j else none
  | _ => none

/-- the row a job was claimed from, with an attempt number it has handed out -/
def Tracks (o : Outbox) (j : ClaimedOutboxJob) : Prop :=
  ∃ x ∈ o, x.id = j.id ∧ x.aggregateId = j.aggregateId ∧ x.jobType = j.jobType ∧ x.payload = j.payload ∧
    j.attemptNumber ≤ x.attemptCount

def Tracked (s : St) : Prop := ∀ i r, s.runs i = some r → ∀ j ∈ r.jobs, Tracks s.outbox j

/-- every row is still there, under a later attempt or the same -/
def Extends (o o' : Outbox) : Prop :=
  ∀ x ∈ o, ∃ x' ∈ o', x'.id = x.id ∧ x'.aggregateId = x.aggregateId ∧ x'.jobType = x.jobType ∧ x'.payload = x.payload ∧
    x.attemptCount ≤ x'.attemptCount

theorem Tracks.extends {o o' : Outbox} {j : ClaimedOutboxJob} (h : Tracks o j) (he : Extends o o') : Tracks o' j := by
  obtain ⟨x, hx, h1, h2, h3, h4, h5⟩ := h
  obtain ⟨y, hy, k1, k2, k3, k4, k5⟩ := he x hx
  exact ⟨y, hy, k1.trans h1, k2.trans h2, k3.trans h3, k4.trans h4, h5.trans k5⟩

theorem Extends.mapWhere {p : JobOutbox → Prop} [DecidablePred p] {f : JobOutbox → JobOutbox}
    (hf : ∀ x, (f x).id = x.id ∧ (f x).aggregateId = x.aggregateId ∧ (f x).jobType = x.jobType ∧
      (f x).payload = x.payload ∧ x.attemptCount ≤ (f x).attemptCount) (o : Outbox) : Extends o (mapWhere p f o) := by
  intro x hx
  by_cases hp : p x
  · exact ⟨f x, mem_mapWhere.2 (.inl ⟨x, hx, hp, rfl⟩), hf x⟩
  · exact ⟨x, mem_mapWhere.2 (.inr ⟨hx, hp⟩), rfl, rfl, rfl, rfl, le_rfl⟩

theorem Extends.append (o o' : Outbox) : Extends o (o ++ o') := fun x hx =>
  ⟨x, List.mem_append_left _ hx, rfl, rfl, rfl, rfl, le_rfl⟩

theorem Extends.trans {o o' o'' : Outbox} (h : Extends o o') (h' : Extends o' o'') : Extends o o'' := by
  intro x hx
  obtain ⟨y, hy, h1, h2, h3, h4, h5⟩ := h x hx
  obtain ⟨z, hz, k1, k2, k3, k4, k5⟩ := h' y hy
  exact ⟨z, hz, k1.trans h1, k2.trans h2, k3.trans h3, k4.trans h4, h5.trans k5⟩

/-- a change of the outbox alone keeps the runs tracked -/
theorem Tracked.outbox {s : St} (h : Tracked s) {o : Outbox} (he : Extends s.outbox o) :
    Tracked { s with outbox := o } := fun i r hi j hj => (h i r hi j hj).extends he

/-- Jobs keep track of their rows. -/
theorem step_tracked (d : Time) {s : St} (h : Tracked s) (hid : (s.outbox.map (·.id)).Nodup) {o : Op}
    (hen : o.isEnqueue = false) : Tracked (step d s o) := by
  have hc := step_cases d s o
  cases o with
  | enqueue => cases hen
  | _ =>
    generalize step d s _ = s' at hc ⊢
    cases hc with
    | same ho _ _ _ hrun =>
      intro i r hi j hj
      rw [ho]
      rcases hrun i r hi with h0 | ⟨r₀, e, h0, -, rfl⟩
      · exact h i r h0 j hj
      · exact h i r₀ h0 j hj
    | enqueue he =>
      obtain ⟨-, -, rfl⟩ := enqueue_ok.1 he
      exact h.outbox (.append _ _)
    | @claim i limit now t locked o jobs _ hcl =>
      obtain ⟨rfl, -, hjobs⟩ := claimBatch_row hid hcl
      have hext := Extends.mapWhere (p := fun r => r.id ∈ claimCandidates limit t locked s.outbox)
        (f := JobOutbox.claimedUntil now (now + d)) (fun _ => ⟨rfl, rfl, rfl, rfl, Nat.le_succ _⟩) s.outbox
      intro i r hi j hj
      simp only [Function.update_apply] at hi
      split_ifs at hi
      · cases hi
        obtain ⟨x, hx, hxc, rfl⟩ := (hjobs j).1 hj
        exact ⟨_, mem_mapWhere.2 (.inl ⟨x, hx, hxc, rfl⟩), rfl, rfl, rfl, rfl, le_rfl⟩
      · exact (h i r hi j hj).extends hext
    | @dispatched i j js report task hi ht =>
      intro k r hr j' hj'
      simp only [Function.update_apply] at hr
      split_ifs at hr
      · cases hr; exact h i _ hi j' hj'
      · exact h k r hr j' hj'
    | @record i j js r now t o report hi hj hr =>
      obtain ⟨⟨f, rfl, hf, -⟩, -, -⟩ := record_ok hid hr
      have hext := Extends.mapWhere (p := fun x => x.id = j.id ∧ x.OwnedBy j.attemptNumber t) (f := f)
        (fun x => ⟨(hf x).1, (hf x).2.2.2.1, (hf x).2.1, (hf x).2.2.1, (hf x).2.2.2.2.ge⟩) s.outbox
      intro k r' hr' j' hj'
      simp only [Function.update_apply] at hr'
      split_ifs at hr'
      · cases hr'
        have hmem : j' ∈ r.jobs := by rw [hj]; exact List.mem_cons_of_mem j (by simpa [PublishRun.next, hj] using hj')
        exact (h i r hi j' hmem).extends hext
      · exact (h k r' hr' j' hj').extends hext
    | finish => intro k r hr j hj; exact h k r (runs_setRun_none hr) j hj

/-- recording an outcome: a pending row that is not the dispatched one stays pending -/
theorem record_pending {r : PublishRun} {j : ClaimedOutboxJob} {now t : Time} {o o' : Outbox}
    {report : OutboxPublishReport} (hid : (o.map (·.id)).Nodup) (h : r.record j now t o = .ok (o', report))
    (hlook : r.phase ≠ .look) {x : JobOutbox} (hx : x ∈ o) (hp : x.Pending)
    (hother : r.phase = .dispatched → ¬ (x.id = j.id ∧ x.attemptCount = j.attemptNumber)) :
    ∃ x' ∈ o', x'.id = x.id ∧ x'.aggregateId = x.aggregateId ∧ x'.attemptCount = x.attemptCount ∧ x'.Pending := by
  unfold PublishRun.record at h
  split at h
  · next hph =>
    have hnot : ¬ (x.id = j.id ∧ x.OwnedBy j.attemptNumber t) := fun hm => hother hph ⟨hm.1, hm.2.2.1⟩
    have key : ∀ f b, updateOwned j.id j.attemptNumber t f o = .ok (o', b) → x ∈ o' := fun f b hu => by
      rw [(updateOwned_ok hid hu).1]
      exact mem_mapWhere.2 (.inr ⟨hx, hnot⟩)
    split at h
    · cases h
    · next hm => cases h; exact ⟨x, key _ _ hm, rfl, rfl, rfl, hp⟩
    · next hm => cases h; exact ⟨x, key _ _ hm, rfl, rfl, rfl, hp⟩
  · split at h
    · cases h
    · next hm =>
      cases h
      rw [(updateOwned_ok hid hm).1]
      by_cases howned : x.id = j.id ∧ x.OwnedBy j.attemptNumber t
      · exact ⟨_, mem_mapWhere.2 (.inl ⟨x, hx, howned, rfl⟩), rfl, rfl, rfl, hp⟩
      · exact ⟨x, mem_mapWhere.2 (.inr ⟨hx, howned⟩), rfl, rfl, rfl, hp⟩
  · next hph => exact absurd hph hlook

/-- **A pending undispatched row** survives every step of a publisher but a successful dispatch of it. -/
theorem step_pending (d : Time) {s : St} (ht : Tracked s) (hid : (s.outbox.map (·.id)).Nodup)
    (hty : ∀ x ∈ s.outbox, x.jobType = PROCESS_INGESTION_ITEM) {o : Op} (hen : o.isEnqueue = false) {x : JobOutbox}
    (hx : x ∈ s.outbox) (hp : x.Pending) (hu : Undispatched s x) :
    (∃ x' ∈ (step d s o).outbox, x'.aggregateId = x.aggregateId ∧ x'.Pending ∧ Undispatched (step d s o) x') ∨
      ∃ i j, o = .dispatch i none ∧ headJob s i = some j ∧ j.id = x.id := by
  -- the runs that a step leaves in place or ends keep the row undispatched
  have hend : ∀ i, Undispatched (s.setRun i none) x := fun i k r j js hk =>
    hu k r j js (runs_setRun_none hk)
  cases o with
  | enqueue => cases hen
  | claim i limit now t locked =>
    left
    simp only [step]
    split
    · exact ⟨x, hx, rfl, hp, hu⟩
    · split
      · exact ⟨x, hx, rfl, hp, hu⟩
      · next hc =>
        obtain ⟨rfl, -, -⟩ := claimBatch_row hid hc
        by_cases hcl : x.id ∈ claimCandidates limit t locked s.outbox
        · refine ⟨_, mem_mapWhere.2 (.inl ⟨x, hx, hcl, rfl⟩), rfl, hp, fun k r j js hk hph hj hjid hatt => ?_⟩
          simp only [Function.update_apply] at hk
          split_ifs at hk
          · cases hk; cases hph
          · -- an older dispatch carries an attempt that the row has handed out before
            obtain ⟨y, hy, hyid, -, -, -, hle⟩ := ht k r hk j (hj ▸ List.mem_cons_self)
            obtain rfl : y = x := List.inj_on_of_nodup_map hid hy hx (hyid.trans hjid)
            have hlt : j.attemptNumber = y.attemptCount + 1 := hatt
            omega
        · refine ⟨x, mem_mapWhere.2 (.inr ⟨hx, hcl⟩), rfl, hp, fun k r j js hk hph hj hjid => ?_⟩
          simp only [Function.update_apply] at hk
          split_ifs at hk
          · cases hk; cases hph
          · exact hu k r j js hk hph hj hjid
  | dispatch i error =>
    simp only [step]
    split
    · next j js report hi =>
      split
      · exact .inl ⟨x, hx, rfl, hp, hu⟩
      · next task htask =>
        by_cases hjx : j.id = x.id
        · exact .inr ⟨i, j, rfl, by simp [headJob, hi, htask], hjx⟩
        · refine .inl ⟨x, hx, rfl, hp, fun k r j' js' hk hph hj hjid => ?_⟩
          simp only [Function.update_apply] at hk
          split_ifs at hk
          · cases hk
            obtain ⟨rfl, -⟩ := List.cons.inj hj
            exact absurd hjid hjx
          · exact hu k r j' js' hk hph hj hjid
      · refine .inl ⟨x, hx, rfl, hp, fun k r j' js' hk hph hj hjid => ?_⟩
        simp only [St.setRun, Function.update_apply] at hk
        split_ifs at hk
        · cases hk; cases hph
        · exact hu k r j' js' hk hph hj hjid
    · exact .inl ⟨x, hx, rfl, hp, hu⟩
  | record i now t =>
    left
    simp only [step]
    split
    · next j js phase report hi =>
      split_ifs with hmay
      · split
        · exact ⟨x, hx, rfl, hp, hend i⟩
        · next o' report' hr =>
          have hlook : phase ≠ .look := by
            -- a job of a known type is dispatched, not marked failed
            rintro rfl
            obtain ⟨y, hy, -, -, hyty, -⟩ := ht i _ hi j List.mem_cons_self
            have hknown : taskByJobType j.jobType = some INGESTION_PROCESS_TASK_NAME := by
              rw [← hyty, hty y hy]; rfl
            simp [PublishRun.mayRecord, hknown] at hmay
          obtain ⟨x', hx', hid', hagg, hatt, hp'⟩ := record_pending hid hr hlook hx hp fun hph hsame =>
            hu i _ j js hi hph rfl hsame.1.symm hsame.2.symm
          refine ⟨x', hx', hagg, hp', fun k r j' js' hk hph hj hjid => ?_⟩
          simp only [Function.update_apply] at hk
          split_ifs at hk
          · cases hk; cases hph
          · rw [hatt]; exact hu k r j' js' hk hph hj (hjid.trans hid')
      · exact ⟨x, hx, rfl, hp, hu⟩
    · exact ⟨x, hx, rfl, hp, hu⟩
  | finish i =>
    left
    simp only [step]
    split
    · exact ⟨x, hx, rfl, hp, hend i⟩
    · exact ⟨x, hx, rfl, hp, hu⟩
  | crash i => exact .inl ⟨x, hx, rfl, hp, hend i⟩

end AtlasRag.Jobs.Publisher
