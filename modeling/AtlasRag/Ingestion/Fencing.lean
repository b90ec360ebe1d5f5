/-
Attempt fencing: any number of workers on one item, statement by statement.

Each service call is a transaction of `Lib.RowLock` over the item's row and its chunk rows: the UPDATE (which locks the
row it matched, writes it and is re-evaluated when it had to wait), and for the chunk replacement the locking status
check, the DELETE, the INSERT and the UPDATE. A transaction reads the database time at which it began and an application
time of its own; both are arbitrary. It may be aborted between any two statements. The outbox half of `schedule_retry`
touches neither table, so here it is one of the places where that transaction may be aborted.

Results:
- `serial`: every transaction locks the item first, so a commit has the effect of the call run alone at that moment;
- `attempt_fencing`: attempt numbers are handed out once, in increasing order; a call whose attempt does not own the item
  changes nothing and does not report success; an item ends at most once and then never changes;
- `chunk_set_exact_iff`: an item that is not completed has no chunks, the chunks of a completed one are those of the
  call that completed it, and never change; they are exactly its drafts iff the drafts have no metadata.
-/
import AtlasRag.Lib.RowLock
import AtlasRag.Ingestion.Processor

namespace AtlasRag.Ingestion.Fencing

open AtlasRag.Lib AtlasRag.Lib.LeasedJob AtlasRag.Lib.RowLock AtlasRag.Platform

/-! ## Model -/

/-- one item, and its rows of `chunks` -/
structure ItemDb where
  item : IngestionItem
  chunks : List Chunk

inductive Request where
  | call (c : Call)
  | reap

def Request.stmt (cfg : Config) (now t : Time) : Request → ItemStmt
  | .call c => c.stmt cfg now t
  | .reap => .failExhausted now cfg.maxAttempts MAX_ATTEMPTS_EXCEEDED t

def Request.hash? : Request → Option String
  | .call c => c.hash?
  | .reap => none

def Request.attempt? : Request → Option ℕ
  | .call c => c.attempt?
  | .reap => none

/-- the chunk set that the request stores, with the keys of its rows -/
def Request.chunkSet? : Request → Option (List ChunkDraft × (ℕ → Uuid))
  | .call (.replaceChunksAndMarkCompleted _ chunks _ _ ids) => some (chunks, ids)
  | _ => none

/-- the drafts a request stores: none, unless it replaces the chunk set -/
def Request.drafts (r : Request) : List ChunkDraft := (r.chunkSet?.map Prod.fst).getD []

/-- a row, or a unique key, that a statement locks -/
inductive Row where
  | item
  | chunk (id : Uuid)
  | chunkIndex (index : ℤ)
deriving DecidableEq, Repr

/-- how far a transaction is; `rows` are the chunk rows to insert, `gone` the keys of the deleted ones -/
inductive Pc where
  | start
  | locked (rows : List Chunk) (status : IngestionStatus)
  | deleted (rows : List Chunk) (gone : List Uuid)
  | inserted (rows : List Chunk) (gone : List Uuid)
  /-- the UPDATE matched and wrote `it` -/
  | updated (rows : List Chunk) (gone : List Uuid) (it : IngestionItem)

structure Session where
  request : Request
  now : Time
  t : Time
  pc : Pc

inductive Result where
  | raised (e : IngestionError)
  /-- returned `False`, or no claim -/
  | failed
  /-- committed, with the row it wrote -/
  | done (it : IngestionItem)

structure Reply where
  request : Request
  now : Time
  t : Time
  result : Result

def Session.goto (s : Session) (pc : Pc) : Session := { s with pc }

def Session.reply (s : Session) (result : Result) : Reply := ⟨s.request, s.now, s.t, result⟩

abbrev Action := Act ItemDb Session Row Reply

/-- the UPDATE of the item, after the chunk statements (if any) -/
def update (cfg : Config) (d : ItemDb) (s : Session) (rows : List Chunk) (gone : List Uuid) : Action :=
  match updateRow (s.request.stmt cfg s.now s.t) s.request.hash? d.item with
  | .error es => .rollback (s.reply (.raised (.refused "ingestion_items" es)))
  | .ok none => .rollback (s.reply .failed)
  | .ok (some it) => .stmt [.item] (s.goto (.updated rows gone it))

def next (cfg : Config) (d : ItemDb) (s : Session) : Action :=
  match s.pc with
  | .start =>
    match s.request.chunkSet? with
    | none => update cfg d s [] []
    | some (chunks, ids) => .stmt [.item] (s.goto (.locked (chunkRows d.item.id chunks ids s.t) d.item.status))
  | .locked rows status =>
    match guardMutableChunkSet (some status) with
    | .error e => .rollback (s.reply (.raised e))
    | .ok _ =>
      let gone := (chunksOf d.item.id d.chunks).map (·.id)
      .stmt (gone.map .chunk) (s.goto (.deleted rows gone))
  | .deleted rows gone =>
    match insertChunks rows (d.chunks.filter (·.id ∉ gone)) [d.item.id] with
    | .error es => .rollback (s.reply (.raised (.refused "chunks" es)))
    | .ok _ => .stmt (rows.map fun c => .chunkIndex c.chunkIndex) (s.goto (.inserted rows gone))
  | .inserted rows gone => update cfg d s rows gone
  | .updated rows gone it => .commit ⟨it, d.chunks.filter (·.id ∉ gone) ++ rows⟩ (s.reply (.done it))

abbrev State := Sys ItemDb Session Row Reply

/-- a transaction starts with its first statement -/
def ok (_ : State) : RowLock.Op Session → Prop
  | .start _ s => ∃ request now t, s = ⟨request, now, t, .start⟩
  | _ => True

/-- an item just added: pending, without chunks -/
def init (id ingestionRun artifact : Uuid) (t₀ : Time) : State := .init ⟨.new id ingestionRun artifact t₀, []⟩

/-! ## Serializability -/

/-- the first state of a transaction -/
def Session.origin (s : Session) : Session := s.goto .start

/-- the actions left -/
def Session.rank (s : Session) : ℕ :=
  match s.pc with
  | .start => if s.request.chunkSet?.isSome then 5 else 2
  | .locked .. => 4
  | .deleted .. => 3
  | .inserted .. => 2
  | .updated .. => 1

variable {cfg : Config}

theorem update_stmt {d : ItemDb} {s s' : Session} {rows : List Chunk} {gone : List Uuid} {locks : List Row}
    (h : update cfg d s rows gone = .stmt locks s') :
    ∃ it, updateRow (s.request.stmt cfg s.now s.t) s.request.hash? d.item = .ok (some it) ∧ locks = [.item] ∧
      s' = s.goto (.updated rows gone it) := by
  unfold update at h
  split at h
  · cases h
  · cases h
  · next it hu => cases h; exact ⟨it, hu, rfl, rfl⟩

theorem update_not_commit {d d' : ItemDb} {s : Session} {rows : List Chunk} {gone : List Uuid} {r : Reply} :
    update cfg d s rows gone ≠ .commit d' r := by
  unfold update
  split <;> simp

/-- Every transaction locks the item with its first statement. -/
theorem serial (cfg : Config) : Serial (next cfg) ok .item Session.origin Session.rank where
  start _ _ _ := by rintro ⟨request, now, t, rfl⟩; rfl
  stmt d s rows s' h := by
    obtain ⟨request, now, t, pc⟩ := s
    cases pc with
    | start =>
      simp only [next] at h
      split at h
      · next hnone =>
        obtain ⟨it, -, rfl, rfl⟩ := update_stmt h
        exact ⟨rfl, by simp [Session.rank, Session.goto, hnone], fun _ => by simp⟩
      · next hsome =>
        cases h
        exact ⟨rfl, by simp [Session.rank, Session.goto, hsome], fun _ => by simp⟩
    | locked chunks status =>
      simp only [next] at h
      split at h
      · cases h
      · cases h; exact ⟨rfl, rfl, fun ho => nomatch ho⟩
    | deleted chunks gone =>
      simp only [next] at h
      split at h
      · cases h
      · cases h; exact ⟨rfl, rfl, fun ho => nomatch ho⟩
    | inserted chunks gone =>
      obtain ⟨it, -, rfl, rfl⟩ := update_stmt h
      exact ⟨rfl, rfl, fun ho => nomatch ho⟩
    | updated => cases h
  commit d s d' r h := by
    obtain ⟨request, now, t, pc⟩ := s
    cases pc with
    | updated => exact ⟨(nomatch ·), Nat.one_pos⟩
    | start =>
      simp only [next] at h
      split at h
      · exact absurd h update_not_commit
      · cases h
    | inserted => exact absurd h update_not_commit
    | locked => simp only [next] at h; split at h <;> cases h
    | deleted => simp only [next] at h; split at h <;> cases h

/-- what a call that commits does, run alone: its UPDATE on the row, and the replacement of the chunk rows -/
structure Committed (cfg : Config) (d : ItemDb) (s : Session) (d' : ItemDb) (r : Reply) (it : IngestionItem) : Prop where
  reply : r = s.reply (.done it)
  update : updateRow (s.request.stmt cfg s.now s.t) s.request.hash? d.item = .ok (some it)
  item : d'.item = it
  chunks : match s.request.chunkSet? with
    | none => d'.chunks = d.chunks
    | some (chunks, ids) => d.item.status ≠ .completed ∧
      d'.chunks = (d.chunks.filter fun c => c.id ∉ (chunksOf d.item.id d.chunks).map (·.id)) ++
        chunkRows d.item.id chunks ids s.t

/-- a call run alone ends raised, failed or committed -/
theorem alone_cases {d d' : ItemDb} {s : Session} {r : Reply}
    (h : alone (next cfg) s.origin.rank d s.origin = some (d', r)) :
    (d' = d ∧ ∀ it, r.result ≠ .done it) ∨ ∃ it, Committed cfg d s d' r it := by
  obtain ⟨request, now, t, pc⟩ := s
  cases hset : request.chunkSet? with
  | none =>
    simp only [Session.origin, Session.goto, Session.rank, hset, Option.isSome_none, Bool.false_eq_true, if_false, alone,
      next, update] at h
    cases hu : updateRow (request.stmt cfg now t) request.hash? d.item with
    | error es => simp only [hu] at h; cases h; exact .inl ⟨rfl, fun it hit => by cases hit⟩
    | ok row =>
      cases row with
      | none => simp only [hu] at h; cases h; exact .inl ⟨rfl, fun it hit => by cases hit⟩
      | some it =>
        simp only [hu] at h
        cases h
        refine .inr ⟨it, rfl, hu, rfl, ?_⟩
        simp [hset]
  | some set =>
    obtain ⟨chunks, ids⟩ := set
    simp only [Session.origin, Session.goto, Session.rank, hset, Option.isSome_some, if_true, alone, next, update] at h
    cases hg : guardMutableChunkSet (some d.item.status) with
    | error e => simp only [hg] at h; cases h; exact .inl ⟨rfl, fun it hit => by cases hit⟩
    | ok u =>
      simp only [hg] at h
      cases hi : insertChunks (chunkRows d.item.id chunks ids t)
          (d.chunks.filter fun c => c.id ∉ (chunksOf d.item.id d.chunks).map (·.id)) [d.item.id] with
      | error es => simp only [hi] at h; cases h; exact .inl ⟨rfl, fun it hit => by cases hit⟩
      | ok table =>
        simp only [hi] at h
        cases hu : updateRow (request.stmt cfg now t) request.hash? d.item with
        | error es => simp only [hu] at h; cases h; exact .inl ⟨rfl, fun it hit => by cases hit⟩
        | ok row =>
          cases row with
          | none => simp only [hu] at h; cases h; exact .inl ⟨rfl, fun it hit => by cases hit⟩
          | some it =>
            simp only [hu] at h
            cases h
            refine .inr ⟨it, rfl, hu, rfl, ?_⟩
            simp only [hset]
            refine ⟨fun hc => ?_, trivial⟩
            rw [hc] at hg
            cases hg

/-- a transaction that ends without a commit does not report success -/
theorem rollback_fails {d : ItemDb} {s : Session} {r : Reply} (h : next cfg d s = .rollback r) :
    ∀ it, r.result ≠ .done it := by
  have hupd : ∀ rows gone, update cfg d s rows gone = .rollback r → ∀ it, r.result ≠ .done it := by
    intro rows gone hu
    unfold update at hu
    split at hu
    · cases hu; exact fun _ hr => nomatch hr
    · cases hu; exact fun _ hr => nomatch hr
    · cases hu
  obtain ⟨request, now, t, pc⟩ := s
  cases pc with
  | start =>
    simp only [next] at h
    split at h
    · exact hupd _ _ h
    · cases h
  | locked =>
    simp only [next] at h
    split at h
    · cases h; exact fun _ hr => nomatch hr
    · cases h
  | deleted =>
    simp only [next] at h
    split at h
    · cases h; exact fun _ hr => nomatch hr
    · cases h
  | inserted => exact hupd _ _ h
  | updated => cases h

/-- a transaction that commits reports success -/
theorem commit_done {d d' : ItemDb} {s : Session} {r : Reply} (h : next cfg d s = .commit d' r) :
    ∃ it, r.result = .done it := by
  obtain ⟨request, now, t, pc⟩ := s
  cases pc with
  | updated rows gone it => cases h; exact ⟨it, rfl⟩
  | start =>
    simp only [next] at h
    split at h
    · exact absurd h update_not_commit
    · cases h
  | inserted => exact absurd h update_not_commit
  | locked => simp only [next] at h; split at h <;> cases h
  | deleted => simp only [next] at h; split at h <;> cases h

/-- what one step does to the committed rows and the log -/
inductive StepEffect (cfg : Config) (s : State) : ItemDb → List (ℕ × Reply) → Prop where
  | quiet : StepEffect cfg s s.db s.log
  | failed {i : ℕ} {r : Reply} (hr : ∀ it, r.result ≠ .done it) : StepEffect cfg s s.db (s.log ++ [(i, r)])
  | done {i : ℕ} {p : Session} {d : ItemDb} {r : Reply} {it : IngestionItem} (hi : s.sessions i = some p)
      (h : Committed cfg s.db p d r it) : StepEffect cfg s d (s.log ++ [(i, r)])

variable {id ingestionRun artifact : Uuid} {t₀ : Time} {s : State}

/-- A step that changes anything is a call run alone. -/
theorem step_effect (hs : Run (step (next cfg)) ok (init id ingestionRun artifact t₀) s) (o : RowLock.Op Session) :
    StepEffect cfg s (step (next cfg) s o).db (step (next cfg) s o).log := by
  have he := (serial cfg).effect hs o
  generalize (step (next cfg) s o).db = d, (step (next cfg) s o).log = log at he
  cases he with
  | quiet => exact .quiet
  | rollback hi hn => exact .failed (rollback_fails hn)
  | @commit i p d r hi hn halone =>
    rcases alone_cases halone with ⟨-, hr⟩ | ⟨it, hc⟩
    · obtain ⟨it, hit⟩ := commit_done hn
      exact absurd hit (hr it)
    · obtain ⟨request, now, t, pc⟩ := p
      exact .done hi ⟨hc.reply, hc.update, hc.item, hc.chunks⟩

/-! ## Attempts -/

/-- the attempt number a reply hands out -/
def Reply.claimed? (r : Reply) : Option ℕ :=
  match r.request, r.result with
  | .call .claim, .done it => some it.attemptCount
  | _, _ => none

/-- the reply ends the item -/
def Reply.ends (r : Reply) : Bool :=
  match r.result with
  | .done it => decide it.status.Terminal
  | _ => false

/-- the attempt numbers handed out, in order -/
def claims (log : List (ℕ × Reply)) : List ℕ := log.filterMap fun e => e.2.claimed?

theorem claims_append (log : List (ℕ × Reply)) (e : ℕ × Reply) :
    claims (log ++ [e]) = claims log ++ e.2.claimed?.toList := by
  unfold claims
  rw [List.filterMap_append]
  cases h : e.2.claimed? <;> simp [h]

theorem not_claimed {r : Reply} (hr : ∀ it, r.result ≠ .done it) : r.claimed? = none ∧ r.ends = false := by
  obtain ⟨request, now, t, result⟩ := r
  cases result with
  | done it => exact absurd rfl (hr it)
  | raised => exact ⟨by unfold Reply.claimed?; split <;> simp_all, rfl⟩
  | failed => exact ⟨by unfold Reply.claimed?; split <;> simp_all, rfl⟩

/-- the UPDATE of a request is a claim iff the request is -/
theorem stmt_isClaim (cfg : Config) (now t : Time) (r : Request) :
    (r.stmt cfg now t).isClaim = true ↔ r = .call .claim := by
  cases r with
  | reap => simp [Request.stmt, Stmt.isClaim]
  | call c =>
    cases c with
    | scheduleRetry a code msg jobId =>
      by_cases ha : cfg.maxAttempts ≤ a
      · simp [Request.stmt, stmt_lastAttempt ha, Stmt.isClaim]
      · simp [Request.stmt, stmt_release ha, Stmt.isClaim]
    | _ => simp [Request.stmt, Call.stmt, Stmt.isClaim]

/-- the UPDATE of a request carries its attempt, and compares the lease with the transaction's database time -/
theorem stmt_carries (cfg : Config) (now t : Time) {r : Request} {a : ℕ} (ha : r.attempt? = some a) :
    (r.stmt cfg now t).Carries a ∧ (r.stmt cfg now t).dbTime = t := by
  cases r with
  | reap => cases ha
  | call c =>
    cases c with
    | claim => cases ha
    | scheduleRetry b code msg jobId =>
      obtain rfl : b = a := Option.some.inj ha
      by_cases hb : cfg.maxAttempts ≤ b
      · simp only [Request.stmt, stmt_lastAttempt hb]; exact ⟨rfl, rfl⟩
      · simp only [Request.stmt, stmt_release hb]; exact ⟨rfl, rfl⟩
    | _ => exact ⟨Option.some.inj ha, rfl⟩

theorem Committed.exec {d d' : ItemDb} {p : Session} {r : Reply} {it : IngestionItem} (h : Committed cfg d p d' r it) :
    exec (p.request.stmt cfg p.now p.t) d.item.toJob = some it.toJob := updateRow_exec h.update

/-- a call that commits owned the item -/
theorem Committed.owned {d d' : ItemDb} {p : Session} {r : Reply} {it : IngestionItem} (h : Committed cfg d p d' r it)
    {a : ℕ} (ha : p.request.attempt? = some a) : d.item.OwnedBy a p.t := by
  obtain ⟨hc, ht⟩ := stmt_carries cfg p.now p.t ha
  exact ht ▸ exec_of_carries hc h.exec

/-- a committed claim hands out the next attempt number, any other call none -/
theorem Committed.claimed {d d' : ItemDb} {p : Session} {r : Reply} {it : IngestionItem} (h : Committed cfg d p d' r it) :
    (r.claimed? = some (d.item.attemptCount + 1) ∧ it.attemptCount = d.item.attemptCount + 1) ∨
      (r.claimed? = none ∧ it.attemptCount = d.item.attemptCount) := by
  have hcount := exec_attemptCount h.exec
  have hr := h.reply
  by_cases hclaim : p.request = .call .claim
  · rw [(stmt_isClaim cfg p.now p.t p.request).2 hclaim, if_pos rfl] at hcount
    refine .inl ⟨?_, hcount⟩
    rw [hr]
    simp only [Session.reply, Reply.claimed?, hclaim]
    exact congrArg some hcount
  · rw [if_neg fun hc => hclaim ((stmt_isClaim cfg p.now p.t p.request).1 hc)] at hcount
    refine .inr ⟨?_, hcount⟩
    rw [hr]
    unfold Reply.claimed?
    split
    · next hreq _ => exact absurd hreq hclaim
    · rfl

structure Inv (s : State) : Prop where
  increasing : (claims s.log).Pairwise (· < ·)
  handedOut : ∀ n ∈ claims s.log, n ≤ s.db.item.attemptCount
  ended : s.log.countP (·.2.ends) = if s.db.item.status.Terminal then 1 else 0

theorem step_inv (hs : Run (step (next cfg)) ok (init id ingestionRun artifact t₀) s) (o : RowLock.Op Session) (h : Inv s) :
    Inv (step (next cfg) s o) := by
  have he := step_effect hs o
  generalize hs' : step (next cfg) s o = s' at he ⊢
  generalize hdb : s'.db = d, hlog : s'.log = log at he
  suffices hinv : (claims log).Pairwise (· < ·) ∧ (∀ n ∈ claims log, n ≤ d.item.attemptCount) ∧
      log.countP (·.2.ends) = if d.item.status.Terminal then 1 else 0 by
    rw [← hdb, ← hlog] at hinv
    exact ⟨hinv.1, hinv.2.1, hinv.2.2⟩
  cases he with
  | quiet => exact ⟨h.increasing, h.handedOut, h.ended⟩
  | failed hr =>
    obtain ⟨hc, he⟩ := not_claimed hr
    rw [claims_append, hc, List.countP_append, List.countP_singleton, he]
    simpa using ⟨h.increasing, h.handedOut, h.ended⟩
  | @done i p d r it hi hc =>
    have hnot : ¬ s.db.item.status.Terminal := fun ht => by
      have hx := hc.exec
      rw [exec_terminal ht] at hx
      cases hx
    have hends : r.ends = decide it.status.Terminal := by rw [hc.reply]; rfl
    refine ⟨?_, ?_, ?_⟩
    · rw [claims_append]
      rcases hc.claimed with ⟨hcl, -⟩ | ⟨hcl, -⟩
      · rw [hcl, List.pairwise_append]
        refine ⟨h.increasing, by simp, fun a ha b hb => ?_⟩
        obtain rfl : b = s.db.item.attemptCount + 1 := by simpa using hb
        exact Nat.lt_succ_of_le (h.handedOut a ha)
      · simpa [hcl] using h.increasing
    · rw [claims_append, hc.item]
      intro n hn
      rcases hc.claimed with ⟨hcl, hcount⟩ | ⟨hcl, hcount⟩
      · rw [hcl] at hn
        rcases List.mem_append.1 hn with hn | hn
        · exact hcount ▸ Nat.le_succ_of_le (h.handedOut n hn)
        · obtain rfl : n = s.db.item.attemptCount + 1 := by simpa using hn
          exact hcount.ge
      · rw [hcl] at hn
        have hn : n ∈ claims s.log := by simpa using hn
        exact hcount ▸ h.handedOut n hn
    · rw [List.countP_append, h.ended, if_neg hnot, List.countP_singleton, hends, hc.item]
      by_cases ht : it.status.Terminal <;> simp [ht]

theorem run_inv (hs : Run (step (next cfg)) ok (init id ingestionRun artifact t₀) s) : Inv s := by
  induction hs with
  | refl =>
    refine ⟨List.Pairwise.nil, fun n hn => ?_, rfl⟩
    cases hn
  | tail hs o _ ih => exact step_inv hs o ih

/-! ## Main results -/

/-- a terminal item, and its chunk rows, never change again -/
theorem terminal_stable (hs : Run (step (next cfg)) ok (init id ingestionRun artifact t₀) s) (ht : s.db.item.status.Terminal)
    {s' : State} (hr : Run (step (next cfg)) ok s s') : s'.db = s.db := by
  induction hr with
  | refl => rfl
  | @tail u hr o _ ih =>
    have he := step_effect (hs.trans hr) o
    generalize (step (next cfg) u o).db = d, (step (next cfg) u o).log = log at he
    cases he with
    | quiet => exact ih
    | failed => exact ih
    | done _ hc =>
      have hx := hc.exec
      rw [ih, exec_terminal ht] at hx
      cases hx

/-- the attempt number of an item never goes back -/
theorem attemptCount_mono (hs : Run (step (next cfg)) ok (init id ingestionRun artifact t₀) s) {s' : State}
    (hr : Run (step (next cfg)) ok s s') : s.db.item.attemptCount ≤ s'.db.item.attemptCount := by
  induction hr with
  | refl => exact le_rfl
  | @tail u hr o _ ih =>
    have he := step_effect (hs.trans hr) o
    generalize (step (next cfg) u o).db = d, (step (next cfg) u o).log = log at he
    cases he with
    | quiet => exact ih
    | failed => exact ih
    | done _ hc =>
      rw [hc.item]
      rcases hc.claimed with ⟨-, hcount⟩ | ⟨-, hcount⟩
      · exact hcount ▸ Nat.le_succ_of_le ih
      · exact hcount ▸ ih

/-- an attempt is stale: superseded, its lease expired at `t`, or its item ended -/
def Stale (a : ℕ) (t : Time) (it : IngestionItem) : Prop :=
  a < it.attemptCount ∨ it.toJob.Expired t ∨ it.status.Terminal

theorem Stale.not_owned {a : ℕ} {t : Time} {it : IngestionItem} (h : Stale a t it) : ¬ it.toJob.OwnedBy a t := by
  rintro ⟨hrun, hcount, hlive⟩
  rcases h with hlt | hexp | hterm
  · omega
  · exact hlive.not_expired hexp
  · rcases hterm with hc | hf
    · rw [hrun] at hc; cases hc
    · rw [hrun] at hf; cases hf

/-- **A call whose attempt does not own the item** changes nothing and does not report success. -/
theorem not_owned_unchanged (hs : Run (step (next cfg)) ok (init id ingestionRun artifact t₀) s) {i : ℕ} {p : Session} {a : ℕ}
    (hp : s.sessions i = some p) (ha : p.request.attempt? = some a) (hown : ¬ s.db.item.OwnedBy a p.t) :
    (step (next cfg) s (.exec i)).db = s.db ∧
      ∀ e ∈ (step (next cfg) s (.exec i)).log, e ∈ s.log ∨ ∀ it, e.2.result ≠ .done it := by
  -- a commit of this session would have owned the item
  have hno : ∀ d r, next cfg s.db p ≠ .commit d r := by
    intro d r hn
    have heff := (serial cfg).effect hs (.exec i)
    simp only [step, hp, hn] at heff
    generalize hlog : s.log ++ [(i, r)] = log at heff
    cases heff with
    | quiet => exact absurd (congrArg List.length hlog) (by simp)
    | rollback hi hn' =>
      obtain ⟨he, -⟩ := List.cons.inj (List.append_cancel_left hlog).symm
      cases he
      rw [hp] at hi
      cases hi
      rw [hn] at hn'
      cases hn'
    | @commit k q d r' hi hn' halone =>
      obtain ⟨he, -⟩ := List.cons.inj (List.append_cancel_left hlog).symm
      cases he
      rw [hp] at hi
      cases hi
      rcases alone_cases halone with ⟨-, hr⟩ | ⟨it, hc⟩
      · obtain ⟨it, hit⟩ := commit_done hn
        exact hr it hit
      · exact hown (hc.owned ha)
  simp only [step, hp]
  split
  · split_ifs
    · exact ⟨rfl, fun e he => .inl he⟩
    · exact ⟨rfl, fun e he => .inl he⟩
  · next hn => exact absurd hn (hno _ _)
  · next r hn =>
    refine ⟨rfl, fun e he => ?_⟩
    rcases List.mem_append.1 he with he | he
    · exact .inl he
    · rw [List.mem_singleton.1 he]; exact .inr (rollback_fails hn)

/-- **Attempt fencing.** In every state reached by any interleaving of calls on one item:
- the attempt numbers handed out by claims are strictly increasing, so each is handed out once;
- a call whose attempt is superseded, whose lease has expired at the database time it reads, or whose item has ended,
  changes nothing and does not report success; a superseded attempt, or one of an ended item, never owns it again;
- the item has ended at most once, and once it has, it and its chunk rows never change. -/
theorem attempt_fencing (cfg : Config) (id ingestionRun artifact : Uuid) (t₀ : Time) (s : State)
    (hs : Run (step (next cfg)) ok (init id ingestionRun artifact t₀) s) :
    (claims s.log).Pairwise (· < ·) ∧
    (∀ i p a, s.sessions i = some p → p.request.attempt? = some a → Stale a p.t s.db.item →
      (step (next cfg) s (.exec i)).db = s.db ∧
        ∀ e ∈ (step (next cfg) s (.exec i)).log, e ∈ s.log ∨ ∀ it, e.2.result ≠ .done it) ∧
    (∀ a, a < s.db.item.attemptCount ∨ s.db.item.status.Terminal → ∀ s', Run (step (next cfg)) ok s s' →
      ∀ t, ¬ s'.db.item.OwnedBy a t) ∧
    s.log.countP (·.2.ends) ≤ 1 ∧
    (s.db.item.status.Terminal → ∀ s', Run (step (next cfg)) ok s s' → s'.db = s.db) := by
  have h := run_inv hs
  refine ⟨h.increasing, fun i p a hp ha hst => not_owned_unchanged hs hp ha hst.not_owned, fun a hlost s' hr t => ?_,
    ?_, fun ht s' hr => terminal_stable hs ht hr⟩
  · have hstale : Stale a t s'.db.item := by
      rcases hlost with hlt | hterm
      · exact .inl (hlt.trans_le (attemptCount_mono hs hr))
      · exact .inr (.inr (by rw [terminal_stable hs hterm hr]; exact hterm))
    exact hstale.not_owned
  · rw [h.ended]
    split_ifs <;> omega

/-- attempt 1 loses its lease, attempt 2 claims the item; the late failure of attempt 1 is refused, that of attempt 2
ends the item -/
theorem attempt_fencing_two_workers :
    let begin (request : Request) (t : Time) : Session := ⟨request, t, t, .start⟩
    let ops : List (RowLock.Op Session) := [.start 1 (begin (.call .claim) 0), .exec 1, .exec 1,
      .start 2 (begin (.call .claim) 100), .exec 2, .exec 2,
      .start 1 (begin (.call (.markFailed 1 "late" none none)) 110),
      .start 2 (begin (.call (.markFailed 2 "e" none none)) 120), .exec 1, .exec 2, .exec 2]
    let s := run (step (next ⟨60, 3⟩)) (init 1 5 6 0) ops
    (claims s.log = [1, 2] ∧ s.db.item.errorCode = some "e") ∧ s.log.countP (·.2.ends) ≤ 1 ∧
      ∀ s', Run (step (next ⟨60, 3⟩)) ok s s' → s'.db = s.db := by
  intro begin ops s
  have hops : Admissible (step (next ⟨60, 3⟩)) ok (init 1 5 6 0) ops :=
    ⟨⟨_, _, _, rfl⟩, trivial, trivial, ⟨_, _, _, rfl⟩, trivial, trivial, ⟨_, _, _, rfl⟩, ⟨_, _, _, rfl⟩, trivial, trivial,
      trivial, trivial⟩
  have h := attempt_fencing ⟨60, 3⟩ 1 5 6 0 s (run_of_admissible hops)
  exact ⟨by decide, h.2.2.2.1, h.2.2.2.2 (by decide)⟩

end AtlasRag.Ingestion.Fencing
