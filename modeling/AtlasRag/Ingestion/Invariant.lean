/-
The representation invariant of ingestion items, over every sequence of service calls.

Each operation is one atomic step at one instant of a clock that the application and the database share and that never
goes back. The attempt limit is at least 1, the lease is positive, texts are not longer than their columns and the
identifiers drawn for new rows are fresh (`ok`). No publisher runs here, so no outbox row is ever leased.

Results:
- `representation_invariant`: attempts never exceed the limit, a pending item is below it and can be claimed, every row
  meets every constraint after every step, and after a reap no running item is both expired and at the limit;
- what can still be refused: a new item whose run or artifact is missing or already paired, drafts that the `chunks`
  table refuses, and a text with a NUL character;
- `addItem_twice_refused`: the same artifact twice in one run is such a refusal.
-/
import AtlasRag.Lib.Run
import AtlasRag.Ingestion.Lifecycle

namespace AtlasRag.Ingestion.Atomic

open AtlasRag.Lib AtlasRag.Lib.LeasedJob AtlasRag.Lib.Table AtlasRag.Platform AtlasRag.Jobs

/-! ## Model -/

structure St where
  db : Db
  /-- the instant of the last step -/
  clock : Time

/-- no items yet, over existing runs and artifacts -/
def init (runs artifacts : List Uuid) (t₀ : Time) : St := ⟨⟨[], [], [], runs, artifacts⟩, t₀⟩

def now : Op → Time
  | .addItem _ _ _ _ t => t
  | .call _ _ now _ => now
  | .reap now _ => now

def dbTime : Op → Time
  | .addItem _ _ _ _ t => t
  | .call _ _ _ t => t
  | .reap _ t => t

/-- the texts of the operation are not longer than their columns -/
def LengthsOk (cfg : Config) : Op → Prop
  | .call _ c now t => LengthsFit (c.stmt cfg now t) c.hash?
  | _ => True

/-- the identifiers drawn by `uuid4` are not in use -/
def Fresh (db : Db) : Op → Prop
  | .addItem itemId jobId _ _ _ => itemId ∉ db.items.map (·.id) ∧ jobId ∉ db.outbox.map (·.id)
  | .call _ (.scheduleRetry _ _ _ jobId) _ _ => jobId ∉ db.outbox.map (·.id)
  | _ => True

def ok (cfg : Config) (s : St) (o : Op) : Prop :=
  s.clock ≤ now o ∧ dbTime o = now o ∧ LengthsOk cfg o ∧ Fresh s.db o

instance (cfg : Config) (o : Op) : Decidable (LengthsOk cfg o) := by
  cases o <;> unfold LengthsOk <;> infer_instance

instance (db : Db) (o : Op) : Decidable (Fresh db o) := by
  rcases o with _ | ⟨_, _ | _ | _ | _ | _ | _, _, _⟩ | _ <;> unfold Fresh <;> infer_instance

instance (cfg : Config) (s : St) (o : Op) : Decidable (ok cfg s o) := inferInstanceAs (Decidable (_ ∧ _ ∧ _ ∧ _))

def step (cfg : Config) (s : St) (o : Op) : St := ⟨o.run cfg s.db, now o⟩

/-! ## The invariant -/

structure Inv (cfg : Config) (s : St) : Prop where
  items : ∀ it ∈ s.db.items, ItemInv cfg.maxAttempts s.clock it
  outbox : ∀ r ∈ s.db.outbox, r.defects = [] ∧ r.leaseExpiresAt = none

theorem inv_init (cfg : Config) (runs artifacts : List Uuid) (t₀ : Time) : Inv cfg (init runs artifacts t₀) :=
  ⟨fun _ h => absurd h (by simp [init]), fun _ h => absurd h (by simp [init])⟩

variable {cfg : Config} {s : St}

theorem Inv.later (h : Inv cfg s) {c : Time} (hc : s.clock ≤ c) : Inv cfg ⟨s.db, c⟩ :=
  ⟨fun it hit => (h.items it hit).later hc, h.outbox⟩

/-- the UPDATE of a call is a statement at that instant -/
theorem stmt_at (hd : 0 < cfg.leaseDuration) (c : Call) (n : Time) : (c.stmt cfg n n).At cfg.maxAttempts n := by
  have hlt : n < n + cfg.leaseDuration := lt_add_of_pos_right n hd
  cases c with
  | claim => exact ⟨rfl, rfl, hlt, rfl⟩
  | heartbeat => exact ⟨rfl, hlt⟩
  | scheduleRetry a code msg jobId =>
    by_cases ha : cfg.maxAttempts ≤ a
    · rw [stmt_lastAttempt ha]; exact ⟨rfl, rfl⟩
    · rw [stmt_release ha]; exact ⟨rfl, not_le.1 ha⟩
  | markFailed => exact ⟨rfl, rfl⟩
  | markCompleted => exact ⟨rfl, rfl⟩
  | replaceChunksAndMarkCompleted => exact ⟨rfl, rfl⟩

/-- an accepted update of items by one statement keeps their invariants -/
theorem rows_updated {p : IngestionItem → Prop} [DecidablePred p] {st : ItemStmt} {hash : Option String} {max n : ℕ}
    {c now : Time} {items items' : List IngestionItem} (hp : ∀ it, p it → st.Matches it.toJob)
    (h : updateWhere IngestionItem.defects p (IngestionItem.set st hash) items = .ok (items', n))
    (hi : ∀ it ∈ items, ItemInv max c it) (hc : c ≤ now) (hs : st.At max now) : ∀ it ∈ items', ItemInv max now it := by
  obtain ⟨hd, rfl, -⟩ := updateWhere_ok.1 h
  intro it hit
  rcases mem_mapWhere.1 hit with ⟨it₀, h₀, hp₀, rfl⟩ | ⟨h₀, -⟩
  · exact (hi it₀ h₀).update hc hs (hp it₀ hp₀) (hd it₀ h₀ hp₀)
  · exact (hi it h₀).later hc

/-- no row is leased, so a retry finds an outbox that accepts it, and leaves one -/
theorem requeue_unleased (itemId : Uuid) (now t : Time) {jobId : Uuid} {outbox : Outbox}
    (ho : ∀ r ∈ outbox, r.defects = [] ∧ r.leaseExpiresAt = none) (hj : jobId ∉ outbox.map (·.id)) :
    ∃ outbox', Lifecycle.requeue itemId jobId now t outbox = .ok outbox' ∧
      ∀ r ∈ outbox', r.defects = [] ∧ r.leaseExpiresAt = none := by
  have hdef : ∀ r ∈ outbox, r.defects = [] := fun r hr => (ho r hr).1
  have hq := (requeue_ok itemId now t hdef hj).2 ⟨fun r hr _ => (ho r hr).2, rfl⟩
  refine ⟨_, hq, fun r hr => ⟨requeue_defects hq hdef r hr, ?_⟩⟩
  rcases List.mem_append.1 hr with hr | hr
  · obtain ⟨r₀, h₀, -, -, -, hl, -⟩ := mem_superseded hr
    exact hl ▸ (ho r₀ h₀).2
  · rw [List.mem_singleton.1 hr]; rfl

theorem Inv.addItem (hmax : 1 ≤ cfg.maxAttempts) (h : Inv cfg s) {itemId jobId run art : Uuid} {t : Time} {db' : Db}
    {b : Bool} (he : Lifecycle.addItem itemId jobId run art t s.db = .ok (db', b)) : Inv cfg ⟨db', s.clock⟩ := by
  unfold Lifecycle.addItem at he
  split at he
  · cases he
  · next items hitems =>
    split at he
    · cases he
    · next outbox hq =>
      cases he
      unfold IngestionRepository.addItem at hitems
      split at hitems
      · obtain ⟨-, rfl⟩ := insertRow_ok.1 hitems
        obtain ⟨-, -, rfl⟩ := enqueue_ok.1 hq
        refine ⟨fun it hit => ?_, fun r hr => ?_⟩
        · rcases List.mem_append.1 hit with hit | hit
          · exact h.items it hit
          · rw [List.mem_singleton.1 hit]; exact .new hmax _ _ _ _ _
        · rcases List.mem_append.1 hr with hr | hr
          · exact h.outbox r hr
          · rw [List.mem_singleton.1 hr]; exact ⟨itemJob_defects jobId itemId t, rfl⟩
      · cases hitems

/-- One step of the lifecycle keeps the invariant. -/
theorem step_inv (hmax : 1 ≤ cfg.maxAttempts) (hd : 0 < cfg.leaseDuration) (o : Op) (ho : ok cfg s o)
    (h : Inv cfg s) : Inv cfg (step cfg s o) := by
  obtain ⟨hc, ht, -, hfresh⟩ := ho
  have hlater : Inv cfg ⟨s.db, now o⟩ := h.later hc
  cases he : o.exec cfg s.db with
  | error e =>
    have hrun : step cfg s o = ⟨s.db, now o⟩ := by simp only [step, Op.run, he]
    exact hrun ▸ hlater
  | ok p =>
    obtain ⟨db', b⟩ := p
    have hrun : step cfg s o = ⟨db', now o⟩ := by simp only [step, Op.run, he]
    rw [hrun]
    cases o with
    | addItem itemId jobId run art t => exact hlater.addItem hmax he
    | reap n t =>
      simp only [Op.exec, Lifecycle.reapExpiredItems] at he
      split at he
      · cases he
      · next items count hu =>
        obtain rfl : t = n := ht
        have hitems := rows_updated (fun _ hm => hm) hu h.items hc ⟨rfl, rfl, rfl⟩
        split_ifs at he
        · cases he; exact ⟨hitems, h.outbox⟩
        · cases he; exact hlater
    | call itemId c n t =>
      obtain rfl : t = n := ht
      cases b with
      | false =>
        obtain rfl := Call.exec_false he
        exact hlater
      | true =>
        have heff := Call.exec_true he
        obtain ⟨k, -, hu⟩ := heff.update
        refine ⟨rows_updated (fun _ hm => hm.2) hu h.items hc (stmt_at hd c t), ?_⟩
        rcases heff.outbox with hob | ⟨a, code, msg, jobId, rfl, -, hq⟩
        · rw [hob]; exact h.outbox
        · obtain ⟨outbox', hq', hall⟩ := requeue_unleased itemId t t h.outbox hfresh
          rw [hq'] at hq
          cases hq
          exact hall

theorem run_inv (hmax : 1 ≤ cfg.maxAttempts) (hd : 0 < cfg.leaseDuration) {runs artifacts : List Uuid} {t₀ : Time}
    (hs : Run (step cfg) (ok cfg) (init runs artifacts t₀) s) : Inv cfg s :=
  hs.inv (fun _ o ho h => step_inv hmax hd o ho h) (inv_init cfg runs artifacts t₀)

/-! ## Main results -/

/-- a key or reference constraint -/
def IsKey : Violation → Prop
  | .unique _ => True
  | .foreignKey _ => True
  | _ => False

/-- a text with a character that no text column stores -/
def IsInvalidText : Violation → Prop
  | .invalidText _ => True
  | _ => False

/-- the refusals that remain: a new item's keys and references, the drafts of a chunk set, and unstorable characters -/
def Remaining (o : Op) (table : String) (es : List Violation) : Prop :=
  (table = "ingestion_items" ∧ (∃ itemId jobId run art t, o = .addItem itemId jobId run art t) ∧ ∀ v ∈ es, IsKey v) ∨
  (table = "ingestion_items" ∧ ∀ v ∈ es, IsInvalidText v) ∨
  (table = "chunks" ∧ ∃ itemId a drafts hash metadata ids n t,
    o = .call itemId (.replaceChunksAndMarkCompleted a drafts hash metadata ids) n t)

theorem keyDefects_isKey {itemId run art : Uuid} {runs artifacts : List Uuid} {items : List IngestionItem}
    {v : Violation} (hv : v ∈ IngestionRepository.keyDefects itemId run art runs artifacts items) : IsKey v := by
  have key : ∀ (p : Prop) [Decidable p] (x : Violation), IsKey x → v ∈ (if p then [x] else []) → IsKey v := by
    intro p _ x hx hv
    split_ifs at hv
    · exact List.mem_singleton.1 hv ▸ hx
    · cases hv
  unfold IngestionRepository.keyDefects at hv
  simp only [← ite_not (_ ∈ runs), ← ite_not (_ ∈ artifacts), List.mem_append] at hv
  rcases hv with ((hv | hv) | hv) | hv
  all_goals exact key _ _ (by trivial) hv

/-- No CHECK refuses a step. -/
theorem refused_remaining (hmax : 1 ≤ cfg.maxAttempts) (hd : 0 < cfg.leaseDuration) (h : Inv cfg s) {o : Op}
    (ho : ok cfg s o) {table : String} {es : List Violation} (he : o.exec cfg s.db = .error (.refused table es)) :
    Remaining o table es := by
  obtain ⟨hc, ht, hlen, hfresh⟩ := ho
  cases o with
  | addItem itemId jobId run art t =>
    simp only [Op.exec, Lifecycle.addItem] at he
    split at he
    · next hitems =>
      cases he
      refine .inl ⟨rfl, ⟨itemId, jobId, run, art, t, rfl⟩, ?_⟩
      unfold IngestionRepository.addItem at hitems
      split at hitems
      · have hnew : (IngestionItem.new itemId run art t).defects = [] :=
          (ItemInv.new hmax t itemId run art t).defects
        rw [insertRow_ok.2 ⟨hnew, rfl⟩] at hitems
        cases hitems
      · cases hitems
        exact fun v hv => keyDefects_isKey hv
    · split at he
      · next hq =>
        cases he
        have hty : FitsText (some 100) PROCESS_INGESTION_ITEM := by decide
        rw [enqueue_ok.2 ⟨hfresh.2, hty, rfl⟩] at hq
        cases hq
      · cases he
  | call itemId c n t =>
    obtain rfl : t = n := ht
    rcases Call.exec_refused he with ⟨rfl, hu⟩ | ⟨rfl, a, code, msg, jobId, rfl, hq⟩ | ⟨rfl, a, drafts, hash, md, ids, rfl⟩
    · refine .inr (.inl ⟨rfl, fun v hv => ?_⟩)
      obtain ⟨it, hit, hm, hv⟩ := updateWhere_error hu hv
      obtain ⟨column, rfl⟩ := (h.items it hit).set_defects hc (stmt_at hd c t) hlen hm.2 hv
      trivial
    · obtain ⟨outbox', hq', -⟩ := requeue_unleased itemId t t h.outbox hfresh
      rw [hq'] at hq
      cases hq
    · exact .inr (.inr ⟨rfl, itemId, a, drafts, hash, md, ids, t, t, rfl⟩)
  | reap n t =>
    obtain rfl : t = n := ht
    simp only [Op.exec, Lifecycle.reapExpiredItems] at he
    split at he
    · next hu =>
      cases he
      refine .inr (.inl ⟨rfl, fun v hv => ?_⟩)
      obtain ⟨it, hit, hm, hv⟩ := updateWhere_error hu hv
      have hcode : MAX_ATTEMPTS_EXCEEDED.toList.length ≤ 150 := by decide
      have hfit : LengthsFit (.failExhausted t cfg.maxAttempts MAX_ATTEMPTS_EXCEEDED t) none := ⟨by simp, hcode⟩
      have hat : (Stmt.failExhausted t cfg.maxAttempts MAX_ATTEMPTS_EXCEEDED t : ItemStmt).At cfg.maxAttempts t :=
        ⟨rfl, rfl, rfl⟩
      obtain ⟨column, rfl⟩ := (h.items it hit).set_defects hc hat hfit hm hv
      trivial
    · split_ifs at he

/-- a pending item below the limit can be claimed -/
theorem claim_pending (hd : 0 < cfg.leaseDuration) (h : Inv cfg s) {it : IngestionItem} (hit : it ∈ s.db.items)
    (hp : it.status = .pending) (hlt : it.attemptCount < cfg.maxAttempts) {n : Time} (hn : s.clock ≤ n) :
    ∃ db', Call.claim.exec cfg it.id n n s.db = .ok (db', true) := by
  have hacc : ∀ x ∈ s.db.items, x.id = it.id ∧ (Call.claim.stmt cfg n n).Matches x.toJob →
      (x.set (Call.claim.stmt cfg n n) none).defects = [] := fun x hx hm =>
    (h.items x hx).accepted hn (stmt_at hd .claim n) hm.2 ⟨by simp, trivial⟩
  have hu := updateWhere_ok.2 ⟨hacc, rfl, rfl⟩
  have hmatch : it.toJob.Claimable cfg.maxAttempts n := ⟨hlt, .inl hp⟩
  have hfind : (s.db.items.find? fun x => x.id = it.id ∧ x.toJob.Claimable cfg.maxAttempts n).isSome := by
    rw [List.find?_isSome]; exact ⟨it, hit, by simpa using hmatch⟩
  obtain ⟨x, hx⟩ := Option.isSome_iff_exists.1 hfind
  have hu' : IngestionRepository.claimItem it.id n (n + cfg.leaseDuration) cfg.maxAttempts n s.db.items = .ok _ := hu
  simp only [Call.exec, Lifecycle.claim, hu', hx, Except.map]
  exact ⟨_, rfl⟩

/-- after a reap no running item is both expired and at the limit -/
theorem reap_exhausted (h : Inv cfg s) {n : Time} (hn : s.clock ≤ n) :
    ∀ it ∈ ((Op.reap n n).run cfg s.db).items, ¬ it.toJob.Exhausted cfg.maxAttempts n := by
  have hfit : FitsText (some 150) MAX_ATTEMPTS_EXCEEDED := by decide
  have hacc : ∀ it ∈ s.db.items, (Stmt.failExhausted n cfg.maxAttempts MAX_ATTEMPTS_EXCEEDED n).Matches it.toJob →
      (it.set (.failExhausted n cfg.maxAttempts MAX_ATTEMPTS_EXCEEDED n) none).defects = [] := fun it hit hm =>
    (h.items it hit).accepted hn ⟨rfl, rfl, rfl⟩ hm ⟨by simp, hfit⟩
  have hu : IngestionRepository.failExhaustedExpiredItems n cfg.maxAttempts n s.db.items = .ok _ :=
    updateWhere_ok.2 ⟨hacc, rfl, rfl⟩
  intro it hit
  simp only [Op.run, Op.exec, Lifecycle.reapExpiredItems, hu] at hit
  split_ifs at hit with hcount
  · rcases mem_mapWhere.1 hit with ⟨it₀, -, -, rfl⟩ | ⟨-, hne⟩
    · intro hex; cases hex.1
    · exact hne
  · -- no row matched: the items are as they were
    have hnone := List.countP_eq_zero.1 (Nat.eq_zero_of_not_pos hcount)
    intro hex
    exact hnone it hit (decide_eq_true hex)

/-- **The representation invariant**, over every sequence of operations. -/
theorem representation_invariant (cfg : Config) (hmax : 1 ≤ cfg.maxAttempts) (hd : 0 < cfg.leaseDuration)
    (runs artifacts : List Uuid) (t₀ : Time) (s : St) (hs : Run (step cfg) (ok cfg) (init runs artifacts t₀) s) :
    (∀ it ∈ s.db.items, it.attemptCount ≤ cfg.maxAttempts ∧ it.defects = [] ∧
      (it.status = .pending → it.attemptCount < cfg.maxAttempts ∧
        ∀ n, s.clock ≤ n → ∃ db', Call.claim.exec cfg it.id n n s.db = .ok (db', true))) ∧
    (∀ o, ok cfg s o → ∀ table es, o.exec cfg s.db = .error (.refused table es) → Remaining o table es) ∧
    (∀ n, s.clock ≤ n → ∀ it ∈ ((Op.reap n n).run cfg s.db).items, ¬ it.toJob.Exhausted cfg.maxAttempts n) := by
  have h := run_inv hmax hd hs
  refine ⟨fun it hit => ?_, fun o ho table es he => refused_remaining hmax hd h ho he, fun n hn => reap_exhausted h hn⟩
  have hi := h.items it hit
  refine ⟨hi.job.bound, hi.defects, fun hp => ⟨hi.job.pending hp, fun n hn => ?_⟩⟩
  exact claim_pending hd h hit hp (hi.job.pending hp) hn

/-- an item added, claimed, retried, claimed again and failed at the limit of two attempts -/
theorem representation_invariant_two_attempts :
    let ops : List Op := [.addItem 1 10 5 6 0, .call 1 .claim 1 1, .call 1 (.scheduleRetry 1 "e" none 11) 2 2,
      .call 1 .claim 3 3, .call 1 (.scheduleRetry 2 "e" none 12) 4 4]
    let s := run (step ⟨60, 2⟩) (init [5] [6] 0) ops
    s.db.items.map (fun it => (it.status, it.attemptCount)) = [(.failed, 2)] ∧
      ∀ it ∈ s.db.items, it.attemptCount ≤ 2 ∧ it.defects = [] := by
  intro ops s
  have hops : Admissible (step ⟨60, 2⟩) (ok ⟨60, 2⟩) (init [5] [6] 0) ops := by decide
  have h := representation_invariant ⟨60, 2⟩ (by decide) (by decide) [5] [6] 0 s (run_of_admissible hops)
  refine ⟨by decide, fun it hit => ?_⟩
  exact ⟨(h.1 it hit).1, (h.1 it hit).2.1⟩

/-- adding the same artifact to a run twice: an admissible step that a constraint refuses -/
theorem addItem_twice_refused :
    ¬ ∀ s, Run (step ⟨60, 2⟩) (ok ⟨60, 2⟩) (init [5] [6] 0) s → ∀ o, ok ⟨60, 2⟩ s o → ∀ table es,
      o.exec ⟨60, 2⟩ s.db ≠ .error (.refused table es) := by
  intro h
  have hadd : Admissible (step ⟨60, 2⟩) (ok ⟨60, 2⟩) (init [5] [6] 0) [.addItem 1 10 5 6 0] := by decide
  have hagain : ok ⟨60, 2⟩ (run (step ⟨60, 2⟩) (init [5] [6] 0) [.addItem 1 10 5 6 0]) (.addItem 2 11 5 6 1) := by decide
  have hrefused : (Op.addItem 2 11 5 6 1).exec ⟨60, 2⟩ (run (step ⟨60, 2⟩) (init [5] [6] 0) [.addItem 1 10 5 6 0]).db =
      .error (.refused "ingestion_items" [.unique "uq_ingestion_items_run_artifact"]) := rfl
  exact h _ (run_of_admissible hadd) _ hagain _ _ hrefused

end AtlasRag.Ingestion.Atomic
