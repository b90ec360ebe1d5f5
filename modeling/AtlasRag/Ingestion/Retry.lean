/-
The retry hand-over: an ingestion item and its outbox rows, while publishers work on the same rows.

The state is the ingestion database, whose outbox is the one the publisher machine runs on. Service operations and
publisher steps interleave in any order; every operation reads an application time and a database time of its own.

`schedule_retry` releases the item, discards the item's pending outbox rows and enqueues a new one. Discarding sets
`failed_at` and leaves the lease of the row in place, so a row that a publisher has claimed and not yet marked cannot be
discarded: its CHECK refuses it and the whole retry is rolled back.

Results:
- `schedule_retry_commits_iff`: in every reachable state, a retry of an owned attempt below the limit commits, and hands
  the item over as intended, iff no pending outbox row of the item carries a lease (and the error texts are storable);
- `schedule_retry_refused`: a worker that fails before the publisher marks the row cannot hand its item over.
-/
import AtlasRag.Lib.Run
import AtlasRag.Ingestion.Lifecycle
import AtlasRag.Jobs.Publisher

namespace AtlasRag.Ingestion.Retry

open AtlasRag.Lib AtlasRag.Lib.LeasedJob AtlasRag.Lib.Table AtlasRag.Platform AtlasRag.Jobs

/-! ## Model -/

structure St where
  items : List IngestionItem
  chunks : List Chunk
  runs : List Uuid
  artifacts : List Uuid
  /-- the outbox, and the publisher runs at work on it -/
  publisher : Publisher.St

def St.db (s : St) : Db := ⟨s.items, s.chunks, s.publisher.outbox, s.runs, s.artifacts⟩

def St.withDb (s : St) (db : Db) : St :=
  ⟨db.items, db.chunks, db.runs, db.artifacts, { s.publisher with outbox := db.outbox }⟩

def init (runs artifacts : List Uuid) : St := ⟨[], [], runs, artifacts, Publisher.init []⟩

inductive Op where
  | service (o : Ingestion.Op)
  | publisher (o : Publisher.Op)

/-- rows enter the outbox through the service only -/
def ok (_ : St) : Op → Prop
  | .service _ => True
  | .publisher o => o.isEnqueue = false

instance (s : St) (o : Op) : Decidable (ok s o) := by cases o <;> unfold ok <;> infer_instance

/-- `d` is the lease duration of the publisher -/
def step (cfg : Config) (d : Time) (s : St) : Op → St
  | .service o => s.withDb (o.run cfg s.db)
  | .publisher o => { s with publisher := Publisher.step d s.publisher o }

variable {cfg : Config} {d : Time} {s : St}

theorem init_ok (runs artifacts : List Uuid) : (init runs artifacts).db.Ok := by
  refine ⟨List.nodup_nil, ?_, List.nodup_nil, ?_⟩ <;> simp [init, St.db, Publisher.init]

theorem step_ok (o : Op) (ho : ok s o) (h : s.db.Ok) : (step cfg d s o).db.Ok := by
  cases o with
  | service o => exact Op.run_ok h o
  | publisher o =>
    have hv : ∀ x ∈ s.publisher.outbox, x.defects = [] := fun x hx => (h.outbox x hx).1
    obtain ⟨hmap, hv'⟩ := Publisher.step_rows d o ho h.jobIds hv
    refine ⟨h.itemIds, h.items, ?_, fun r hr => ⟨hv' r hr, ?_⟩⟩
    · have hids := congrArg (List.map Prod.fst) hmap
      simp only [List.map_map, Function.comp_def, Publisher.fixedColumns] at hids
      exact hids.symm ▸ h.jobIds
    · have hr' : Publisher.fixedColumns r ∈ s.publisher.outbox.map Publisher.fixedColumns := by
        rw [← hmap]; exact List.mem_map_of_mem hr
      obtain ⟨x, hx, he⟩ := List.mem_map.1 hr'
      have hty : x.jobType = r.jobType := congrArg (·.2.1) he
      exact hty ▸ (h.outbox x hx).2

/-- Every reachable database is admissible. -/
theorem run_ok {runs artifacts : List Uuid} (hs : Run (step cfg d) ok (init runs artifacts) s) : s.db.Ok :=
  hs.inv (I := fun s => s.db.Ok) (fun _ o ho h => step_ok o ho h) (init_ok runs artifacts)

/-! ## The hand-over -/

/-- what a retry is to leave behind: the item is pending without a lease, its earlier unpublished jobs are failed, and
exactly one of its jobs is pending, which can be claimed at any time -/
structure HandedOver (itemId : Uuid) (db db' : Db) : Prop where
  item : ∃ it ∈ db'.items, it.id = itemId ∧ it.status = .pending ∧ it.leaseExpiresAt = none
  earlier : ∀ r ∈ db.outbox, r.aggregateId = itemId → r.publishedAt = none → ∃ r' ∈ db'.outbox, r'.id = r.id ∧
    r'.failedAt ≠ none
  next : ∃ r ∈ db'.outbox, r.aggregateId = itemId ∧ (∀ t, r.Claimable t) ∧
    ∀ r' ∈ db'.outbox, r'.aggregateId = itemId → r'.Pending → r' = r
  valid : db'.Ok

/-- a running row whose texts are storable can be released, whatever the clocks say -/
theorem released_defects {it : IngestionItem} {a : ℕ} {code : String} {msg : Option String} {t : Time}
    (h : it.defects = []) (hown : it.toJob.OwnedBy a t) :
    (it.set (.release a (some code) msg t) none).defects = [] ↔
      FitsText (some 150) code ∧ ∀ m ∈ msg, FitsText none m := by
  obtain ⟨hchecks, ⟨hact, hdeact⟩, htexts⟩ := IngestionItem.defects_eq_nil.1 h
  rw [IngestionItem.defects_eq_nil]
  constructor
  · rintro ⟨-, -, -, hcode, hmsg⟩
    exact ⟨hcode code rfl, hmsg⟩
  · rintro ⟨hcode, hmsg⟩
    have hnotact : it.activatedAt = none := by
      rcases hact with h | h
      · exact h
      · rw [hown.1] at h; cases h
    have hopen : Checks (it.set (.release a (some code) msg t) none).toJob := by
      refine ⟨fun hr => ?_, .inr rfl, fun l hl => ?_, fun ht => ?_, hchecks.completedNotBeforeStarted⟩
      · cases hr
      · cases hl
      · rcases ht with ht | ht <;> cases ht
    refine ⟨hopen, ⟨.inl hnotact, hdeact⟩, htexts.1, ?_, hmsg⟩
    intro x hx
    obtain rfl : code = x := Option.some.inj hx
    exact hcode

/-- the outbox after a retry: exactly one pending job of the item -/
theorem handedOver_outbox {db : Db} (h : db.Ok) (itemId jobId : Uuid) (now t : Time) :
    (∀ r ∈ db.outbox, r.aggregateId = itemId → r.publishedAt = none →
      ∃ r' ∈ superseded itemId now db.outbox ++ [itemJob jobId itemId t], r'.id = r.id ∧ r'.failedAt ≠ none) ∧
    ∃ r ∈ superseded itemId now db.outbox ++ [itemJob jobId itemId t], r.aggregateId = itemId ∧ (∀ t, r.Claimable t) ∧
      ∀ r' ∈ superseded itemId now db.outbox ++ [itemJob jobId itemId t], r'.aggregateId = itemId → r'.Pending →
        r' = r := by
  constructor
  · intro r hr hagg hpub
    by_cases hp : r.Pending
    · have hfor : PendingFor itemId r := ⟨(h.outbox r hr).2, hagg, hp⟩
      exact ⟨_, List.mem_append_left _ (mem_mapWhere.2 (.inl ⟨r, hr, hfor, rfl⟩)), rfl, by simp⟩
    · have hfailed : r.failedAt ≠ none := fun hf => hp ⟨hpub, hf⟩
      have hsame : r ∈ superseded itemId now db.outbox := mem_mapWhere.2 (.inr ⟨hr, fun hfor => hp hfor.2.2⟩)
      exact ⟨r, List.mem_append_left _ hsame, rfl, hfailed⟩
  · refine ⟨itemJob jobId itemId t, by simp, rfl, fun _ => ⟨⟨rfl, rfl⟩, .inl rfl⟩, fun r' hr' hagg hp => ?_⟩
    rcases List.mem_append.1 hr' with hr' | hr'
    · rcases mem_mapWhere.1 hr' with ⟨r₀, -, -, rfl⟩ | ⟨h₀, hnot⟩
      · cases hp.2
      · exact absurd ⟨(h.outbox r' h₀).2, hagg, hp⟩ hnot
    · exact List.mem_singleton.1 hr'

/-- **When a retry commits.** In every reachable state, for an attempt that owns its item and is below the limit. -/
theorem schedule_retry_commits_iff (cfg : Config) (d : Time) (runs artifacts : List Uuid) (s : St)
    (hs : Run (step cfg d) ok (init runs artifacts) s) (it : IngestionItem) (hit : it ∈ s.db.items) (a : ℕ)
    (now t : Time) (hown : it.toJob.OwnedBy a t) (ha : a < cfg.maxAttempts) (code : String) (msg : Option String)
    (jobId : Uuid) (hj : jobId ∉ s.db.outbox.map (·.id)) :
    (∃ db', Lifecycle.scheduleRetry cfg it.id a code msg jobId now t s.db = .ok (db', true) ∧
        HandedOver it.id s.db db') ↔
      (∀ r ∈ s.db.outbox, r.aggregateId = it.id → r.Pending → r.leaseExpiresAt = none) ∧
      FitsText (some 150) code ∧ ∀ m ∈ msg, FitsText none m := by
  have h := run_ok hs
  have hdef : ∀ r ∈ s.db.outbox, r.defects = [] := fun r hr => (h.outbox r hr).1
  have hbelow : ¬ cfg.maxAttempts ≤ a := not_le.2 ha
  constructor
  · rintro ⟨db', hexec, -⟩
    have heff := Call.exec_true (c := .scheduleRetry a code msg jobId) hexec
    obtain ⟨n, -, hu⟩ := heff.update
    rw [stmt_release hbelow] at hu
    have hset := (updateWhere_ok.1 hu).1 it hit ⟨rfl, hown⟩
    refine ⟨fun r hr hagg hp => ?_, (released_defects (h.items it hit) hown).1 hset⟩
    simp only [Lifecycle.scheduleRetry, if_neg hbelow] at hexec
    split at hexec
    · cases hexec
    · split_ifs at hexec
      · split at hexec
        · cases hexec
        · next hq => exact (requeue_row hq hdef).2.1 r hr ⟨(h.outbox r hr).2, hagg, hp⟩
      · cases hexec
  · rintro ⟨hlease, htexts⟩
    have hset : ∀ x ∈ s.db.items, x.id = it.id ∧ (Stmt.release a (some code) msg t).Matches x.toJob →
        (x.set (.release a (some code) msg t) none).defects = [] := fun x hx hm =>
      (released_defects (h.items x hx) hm.2).2 htexts
    have hcount : s.db.items.countP (fun x => x.id = it.id ∧ (Stmt.release a (some code) msg t).Matches x.toJob) = 1 :=
      countP_eq_one h.itemIds (fun x _ hm => hm.1) hit ⟨rfl, hown⟩
    have hu : IngestionRepository.releaseForRetry it.id a (some code) msg t s.db.items = .ok (_, 1) :=
      updateWhere_ok.2 ⟨hset, rfl, hcount.symm⟩
    have hq : Lifecycle.requeue it.id jobId now t s.db.outbox = .ok _ :=
      (requeue_ok it.id now t hdef hj).2 ⟨fun r hr hp => hlease r hr hp.2.1 hp.2.2, rfl⟩
    have hexec := scheduleRetry_commits hbelow hu hq
    obtain ⟨hearlier, hnext⟩ := handedOver_outbox h it.id jobId now t
    refine ⟨_, hexec, ⟨_, mem_mapWhere.2 (.inl ⟨it, hit, ⟨rfl, hown⟩, rfl⟩), rfl, rfl, rfl⟩, hearlier, hnext, ?_⟩
    exact Op.exec_ok (o := .call it.id (.scheduleRetry a code msg jobId) now t) h hexec

/-- the publisher marked the row before the worker failed: the retry commits -/
theorem schedule_retry_commits_published :
    let s := run (step ⟨60, 3⟩ 60) (init [5] [6]) [.service (.addItem 1 10 5 6 0), .publisher (.claim 0 10 1 1 []),
      .publisher (.dispatch 0 none), .publisher (.record 0 2 2), .service (.call 1 .claim 3 3)]
    ∃ db', Lifecycle.scheduleRetry ⟨60, 3⟩ 1 1 "e" none 11 4 4 s.db = .ok (db', true) ∧ HandedOver 1 s.db db' := by
  intro s
  have hs : Run (step ⟨60, 3⟩ 60) ok (init [5] [6]) s := run_of_admissible (by decide)
  obtain ⟨it, hit, hid, hown⟩ : ∃ it ∈ s.db.items, it.id = 1 ∧ it.toJob.OwnedBy 1 4 := by decide
  have h := schedule_retry_commits_iff ⟨60, 3⟩ 60 [5] [6] s hs it hit 1 4 4 hown (by decide) "e" none 11 (by decide)
  rw [hid] at h
  exact h.2 (by decide)

/-- **The retry refused.** The publisher has dispatched the row and not yet marked it; the worker claims the item, fails
and cannot hand it over. -/
theorem schedule_retry_refused :
    let s := run (step ⟨60, 3⟩ 60) (init [5] [6]) [.service (.addItem 1 10 5 6 0), .publisher (.claim 0 10 1 1 []),
      .publisher (.dispatch 0 none), .service (.call 1 .claim 2 2)]
    Run (step ⟨60, 3⟩ 60) ok (init [5] [6]) s ∧ (∃ it ∈ s.db.items, it.id = 1 ∧ it.toJob.OwnedBy 1 3) ∧
      Lifecycle.scheduleRetry ⟨60, 3⟩ 1 1 "e" none 11 3 3 s.db =
        .error (.refused "job_outbox" [.check "failed_job_has_no_lease"]) := by
  intro s
  exact ⟨run_of_admissible (by decide), by decide, rfl⟩

end AtlasRag.Ingestion.Retry
