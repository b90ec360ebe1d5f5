/-
A leased job row: one row of a table whose workers claim it for an attempt, renew a lease on it, and end the attempt by
releasing, failing or completing it.

The row counts the claims made on it (`attemptCount`), and every statement of an attempt repeats its number in the WHERE
clause, together with the status and an unexpired lease (`ownedBy`). `Stmt` lists the UPDATE statements; `matches` is
the WHERE clause of each one and `set` its SET clause; `exec` runs one on a row (`none`: the row did not match).
Time is any linear order `T`; the recorded metadata is any type `μ`.

Results:
- `exec_attemptCount`: a claim adds one to the attempt count, every other statement keeps it;
- `exec_of_carries`: a statement that carries an attempt only matches a row that this attempt owns;
- `exec_terminal`: no statement matches a terminal row;
- `Inv.exec`: with a single clock, an attempt limit and positive leases, the representation invariant (the CHECKs of
  the table among it) is kept by every statement.
-/
import Mathlib

namespace AtlasRag.Lib.LeasedJob

inductive Status where
  | pending
  | running
  | completed
  | failed
deriving DecidableEq, Repr

/-- a status that no statement leaves -/
def Status.Terminal (s : Status) : Prop := s = .completed ∨ s = .failed

instance (s : Status) : Decidable s.Terminal := inferInstanceAs (Decidable (_ ∨ _))

structure Job (T μ : Type) where
  status : Status
  attemptCount : ℕ
  claimedAt : Option T
  leaseExpiresAt : Option T
  startedAt : Option T
  completedAt : Option T
  errorCode : Option String
  errorMessage : Option String
  executionMetadata : μ
deriving Repr

variable {T μ : Type} [LinearOrder T]

/-- a freshly inserted row -/
def Job.new (m : μ) : Job T μ := ⟨.pending, 0, none, none, none, none, none, none, m⟩

/-! ## WHERE clauses -/

/-- `lease_expires_at > t`; a missing lease compares as unknown, hence not true -/
def Job.Live (t : T) (j : Job T μ) : Prop := ∃ l ∈ j.leaseExpiresAt, t < l

/-- `lease_expires_at <= t` -/
def Job.Expired (t : T) (j : Job T μ) : Prop := ∃ l ∈ j.leaseExpiresAt, l ≤ t

/-- the running attempt `a` owns the row at time `t` -/
def Job.OwnedBy (a : ℕ) (t : T) (j : Job T μ) : Prop := j.status = .running ∧ j.attemptCount = a ∧ j.Live t

def Job.Claimable (max : ℕ) (t : T) (j : Job T μ) : Prop :=
  j.attemptCount < max ∧ (j.status = .pending ∨ (j.status = .running ∧ j.Expired t))

/-- an expired running row with no attempt left -/
def Job.Exhausted (max : ℕ) (t : T) (j : Job T μ) : Prop :=
  j.status = .running ∧ j.Expired t ∧ max ≤ j.attemptCount

instance (t : T) (j : Job T μ) : Decidable (j.Live t) := inferInstanceAs (Decidable (∃ l ∈ j.leaseExpiresAt, t < l))
instance (t : T) (j : Job T μ) : Decidable (j.Expired t) := inferInstanceAs (Decidable (∃ l ∈ j.leaseExpiresAt, l ≤ t))
instance (a : ℕ) (t : T) (j : Job T μ) : Decidable (j.OwnedBy a t) := inferInstanceAs (Decidable (_ ∧ _))
instance (m : ℕ) (t : T) (j : Job T μ) : Decidable (j.Claimable m t) := inferInstanceAs (Decidable (_ ∧ _))
instance (m : ℕ) (t : T) (j : Job T μ) : Decidable (j.Exhausted m t) := inferInstanceAs (Decidable (_ ∧ _))

theorem Job.Live.not_expired {t : T} {j : Job T μ} (h : j.Live t) : ¬ j.Expired t := by
  rintro ⟨l, hl, hle⟩
  obtain ⟨l', hl', hlt⟩ := h
  rw [Option.mem_def.1 hl] at hl'
  cases hl'
  exact absurd hlt (not_lt.2 hle)

/-! ## Statements -/

/-- the UPDATE statements on a job row; `t` is the database time a statement reads -/
inductive Stmt (T μ : Type) where
  | claim (now lease : T) (max : ℕ) (t : T)
  | heartbeat (a : ℕ) (lease : T) (t : T)
  | release (a : ℕ) (errorCode errorMessage : Option String) (t : T)
  | fail (a : ℕ) (now : T) (errorCode : String) (errorMessage : Option String) (meta? : Option μ) (t : T)
  | complete (a : ℕ) (now : T) (metadata : μ) (t : T)
  | failExhausted (now : T) (max : ℕ) (errorCode : String) (t : T)

def Stmt.Matches : Stmt T μ → Job T μ → Prop
  | .claim _ _ max t, j => j.Claimable max t
  | .heartbeat a _ t, j => j.OwnedBy a t
  | .release a _ _ t, j => j.OwnedBy a t
  | .fail a _ _ _ _ t, j => j.OwnedBy a t
  | .complete a _ _ t, j => j.OwnedBy a t
  | .failExhausted _ max _ t, j => j.Exhausted max t

instance (s : Stmt T μ) (j : Job T μ) : Decidable (s.Matches j) := by
  cases s <;> unfold Stmt.Matches <;> infer_instance

def Stmt.set : Stmt T μ → Job T μ → Job T μ
  | .claim now lease _ _, j =>
    { j with status := .running, attemptCount := j.attemptCount + 1, claimedAt := some now,
             leaseExpiresAt := some lease, startedAt := j.startedAt.or (some now) }
  | .heartbeat _ lease _, j => { j with leaseExpiresAt := some lease }
  | .release _ code msg _, j =>
    { j with status := .pending, claimedAt := none, leaseExpiresAt := none, errorCode := code, errorMessage := msg }
  | .fail _ now code msg meta? _, j =>
    { j with status := .failed, completedAt := some now, claimedAt := none, leaseExpiresAt := none,
             errorCode := some code, errorMessage := msg, executionMetadata := meta?.getD j.executionMetadata }
  | .complete _ now metadata _, j =>
    { j with status := .completed, completedAt := some now, claimedAt := none, leaseExpiresAt := none,
             executionMetadata := metadata, errorCode := none, errorMessage := none }
  | .failExhausted now _ code _, j =>
    { j with status := .failed, completedAt := some now, claimedAt := none, leaseExpiresAt := none,
             errorCode := some code }

/-- run a statement on one row; `none` is row count 0 -/
def exec (s : Stmt T μ) (j : Job T μ) : Option (Job T μ) := if s.Matches j then some (s.set j) else none

theorem exec_some {s : Stmt T μ} {j j' : Job T μ} : exec s j = some j' ↔ s.Matches j ∧ j' = s.set j := by
  unfold exec
  split_ifs with h
  · simp [h, eq_comm]
  · simp [h]

/-- the attempt number a statement carries -/
def Stmt.Carries : Stmt T μ → ℕ → Prop
  | .claim .., _ => False
  | .heartbeat a _ _, b => a = b
  | .release a _ _ _, b => a = b
  | .fail a _ _ _ _ _, b => a = b
  | .complete a _ _ _, b => a = b
  | .failExhausted .., _ => False

/-- the database time a statement reads -/
def Stmt.dbTime : Stmt T μ → T
  | .claim _ _ _ t => t
  | .heartbeat _ _ t => t
  | .release _ _ _ t => t
  | .fail _ _ _ _ _ t => t
  | .complete _ _ _ t => t
  | .failExhausted _ _ _ t => t

def Stmt.isClaim : Stmt T μ → Bool
  | .claim .. => true
  | _ => false

/-! ## Fencing -/

/-- A statement that carries an attempt matches only a row owned by it. -/
theorem exec_of_carries {s : Stmt T μ} {a : ℕ} {j j' : Job T μ} (hc : s.Carries a) (h : exec s j = some j') :
    j.OwnedBy a s.dbTime := by
  obtain ⟨hm, -⟩ := exec_some.1 h
  cases s with
  | claim => exact hc.elim
  | failExhausted => exact hc.elim
  | _ => cases hc; exact hm

/-- A terminal row matches no statement. -/
theorem exec_terminal {s : Stmt T μ} {j : Job T μ} (h : j.status.Terminal) : exec s j = none := by
  unfold exec
  refine if_neg fun hm => ?_
  cases s with
  | claim =>
    rcases hm.2 with hp | ⟨hr, -⟩
    · rcases h with h | h <;> simp [h] at hp
    · rcases h with h | h <;> simp [h] at hr
  | _ =>
    have hr : j.status = .running := hm.1
    rcases h with h | h <;> simp [h] at hr

/-- a claim adds one to the attempt count, every other statement keeps it -/
theorem exec_attemptCount {s : Stmt T μ} {j j' : Job T μ} (h : exec s j = some j') :
    j'.attemptCount = if s.isClaim then j.attemptCount + 1 else j.attemptCount := by
  obtain ⟨-, rfl⟩ := exec_some.1 h
  cases s <;> rfl

/-- the status a successful statement leaves behind -/
theorem exec_status {s : Stmt T μ} {j j' : Job T μ} (h : exec s j = some j') :
    j'.status = match s with
      | .claim .. => .running
      | .heartbeat .. => .running
      | .release .. => .pending
      | .fail .. => .failed
      | .complete .. => .completed
      | .failExhausted .. => .failed := by
  obtain ⟨hm, rfl⟩ := exec_some.1 h
  cases s with
  | heartbeat => exact hm.1
  | _ => rfl

/-! ## CHECK constraints -/

/-- the CHECK constraints a job table declares on these columns -/
structure Checks (j : Job T μ) : Prop where
  runningRequiresClaim : j.status = .running → j.startedAt.isSome ∧ j.claimedAt.isSome ∧ j.leaseExpiresAt.isSome
  leaseOnlyWhileRunning : j.status = .running ∨ j.leaseExpiresAt = none
  validLease : ∀ l ∈ j.leaseExpiresAt, ∃ c ∈ j.claimedAt, c < l
  terminalRequiresCompletedAt : j.status.Terminal → j.completedAt.isSome
  completedNotBeforeStarted : ∀ c ∈ j.completedAt, ∃ s ∈ j.startedAt, s ≤ c

/-- the representation invariant of a row with attempt limit `max`, at time `c` of a clock that every writer shares -/
structure Inv (max : ℕ) (c : T) (j : Job T μ) : Prop where
  checks : Checks j
  bound : j.attemptCount ≤ max
  pending : j.status = .pending → j.attemptCount < max
  /-- what the row records happened no later than now -/
  claimed : ∀ x ∈ j.claimedAt, x ≤ c
  started : ∀ x ∈ j.startedAt, x ≤ c
  open' : ¬ j.status.Terminal → j.completedAt = none

/-- the statement is executed at the instant `now`: it reads, writes and compares that time, its lease is positive, its
attempt limit is `max`, and a release is only made by an attempt below the limit -/
def Stmt.At (max : ℕ) (now : T) : Stmt T μ → Prop
  | .claim n l m t => n = now ∧ t = now ∧ now < l ∧ m = max
  | .heartbeat _ l t => t = now ∧ now < l
  | .release a _ _ t => t = now ∧ a < max
  | .fail _ n _ _ _ t => n = now ∧ t = now
  | .complete _ n _ t => n = now ∧ t = now
  | .failExhausted n m _ t => n = now ∧ t = now ∧ m = max

theorem Inv.later {max : ℕ} {c now : T} {j : Job T μ} (h : Inv max c j) (hc : c ≤ now) : Inv max now j :=
  { h with claimed := fun x hx => (h.claimed x hx).trans hc, started := fun x hx => (h.started x hx).trans hc }

theorem Inv.new {max : ℕ} (hmax : 1 ≤ max) (c : T) (m : μ) : Inv max c (Job.new m) := by
  refine ⟨⟨?_, ?_, ?_, ?_, ?_⟩, ?_, ?_, ?_, ?_, ?_⟩ <;> simp [Job.new, Status.Terminal]; omega

/-- the statement records nothing later than `c`, its attempt limit is `max`, and a release is only made by an attempt
below the limit -/
def Stmt.Within (max : ℕ) (c : T) : Stmt T μ → Prop
  | .claim n _ m _ => n ≤ c ∧ m = max
  | .release a _ _ _ => a < max
  | _ => True

/-- **A statement whose row meets the CHECKs** keeps the invariant, whatever the clocks that it reads. -/
theorem Inv.set {max : ℕ} {c : T} {s : Stmt T μ} {j : Job T μ} (h : Inv max c j) (hs : s.Within max c)
    (hm : s.Matches j) (hc : Checks (s.set j)) : Inv max c (s.set j) := by
  cases s with
  | claim n l m t =>
    obtain ⟨hn, rfl⟩ := hs
    have hopen : j.completedAt = none := h.open' <| by
      rcases hm.2 with hp | ⟨hr, -⟩ <;> simp [Status.Terminal, *]
    refine ⟨hc, hm.1, fun hp => ?_, fun x hx => ?_, fun x hx => ?_, fun _ => hopen⟩
    · simp [Stmt.set] at hp
    · obtain rfl : n = x := by simpa [Stmt.set] using hx
      exact hn
    · cases hst : j.startedAt with
      | none =>
        obtain rfl : n = x := by simpa [Stmt.set, hst] using hx
        exact hn
      | some s0 =>
        obtain rfl : s0 = x := by simpa [Stmt.set, hst] using hx
        exact h.started _ hst
  | heartbeat => exact { h with checks := hc }
  | release a code msg t =>
    have hopen : j.completedAt = none := h.open' (by simp [Status.Terminal, hm.1])
    exact ⟨hc, h.bound, fun _ => hm.2.1 ▸ hs, by simp [Stmt.set], h.started, fun _ => hopen⟩
  | fail => exact ⟨hc, h.bound, by simp [Stmt.set], by simp [Stmt.set], h.started, by simp [Stmt.set, Status.Terminal]⟩
  | complete => exact ⟨hc, h.bound, by simp [Stmt.set], by simp [Stmt.set], h.started, by simp [Stmt.set, Status.Terminal]⟩
  | failExhausted =>
    exact ⟨hc, h.bound, by simp [Stmt.set], by simp [Stmt.set], h.started, by simp [Stmt.set, Status.Terminal]⟩

/-- an owned row has started: what the two terminal statements of an attempt need -/
theorem Inv.startedAt_of_running {max : ℕ} {c : T} {j : Job T μ} (h : Inv max c j) (hr : j.status = .running) :
    ∃ s ∈ j.startedAt, s ≤ c := by
  obtain ⟨hs, -, -⟩ := h.checks.runningRequiresClaim hr
  obtain ⟨s, hs⟩ := Option.isSome_iff_exists.1 hs
  exact ⟨s, hs, h.started s hs⟩

/-- ending a running row with a completion time not before the start keeps the CHECKs -/
theorem Checks.ended {j : Job T μ} {now : T} (hs : ∃ s ∈ j.startedAt, s ≤ now) (st : Status) (hst : st.Terminal)
    (code msg : Option String) (m : μ) :
    Checks { j with status := st, completedAt := some now, claimedAt := none, leaseExpiresAt := none,
                    errorCode := code, errorMessage := msg, executionMetadata := m } := by
  refine ⟨?_, .inr rfl, by simp, fun _ => rfl, ?_⟩
  · intro hr
    rcases hst with h | h <;> · rw [h] at hr; cases hr
  · intro c hc
    obtain rfl : now = c := by simpa using hc
    exact hs

/-- Every statement keeps the representation invariant. -/
theorem Inv.exec {max : ℕ} {c now : T} {s : Stmt T μ} {j j' : Job T μ} (h : Inv max c j) (hc : c ≤ now)
    (hs : s.At max now) (he : exec s j = some j') : Inv max now j' := by
  obtain ⟨hm, rfl⟩ := exec_some.1 he
  have h := h.later hc
  cases s with
  | claim n l m t =>
    obtain ⟨rfl, rfl, hl, rfl⟩ := hs
    have hopen : j.completedAt = none := h.open' <| by
      rcases hm.2 with hp | ⟨hr, -⟩ <;> simp [Status.Terminal, *]
    refine ⟨⟨?_, .inl rfl, ?_, ?_, ?_⟩, hm.1, ?_, ?_, ?_, fun _ => hopen⟩
    · intro _; simp [Stmt.set]
    · intro l' hl'
      obtain rfl : l = l' := by simpa [Stmt.set] using hl'
      exact ⟨_, rfl, hl⟩
    · intro ht; simp [Stmt.set, Status.Terminal] at ht
    · intro c' hc'; simp [Stmt.set, hopen] at hc'
    · intro hp; simp [Stmt.set] at hp
    · intro x hx
      obtain rfl : _ = x := by simpa [Stmt.set] using hx
      exact le_rfl
    · intro x hx
      cases hst : j.startedAt with
      | none =>
        obtain rfl : _ = x := by simpa [Stmt.set, hst] using hx
        exact le_rfl
      | some s0 =>
        obtain rfl : s0 = x := by simpa [Stmt.set, hst] using hx
        exact h.started _ hst
  | heartbeat a l t =>
    obtain ⟨rfl, hl⟩ := hs
    obtain ⟨hst, hcl, -⟩ := h.checks.runningRequiresClaim hm.1
    refine { h with checks := { h.checks with runningRequiresClaim := ?_, leaseOnlyWhileRunning := .inl hm.1,
                                              validLease := ?_ } }
    · intro _; exact ⟨hst, hcl, rfl⟩
    · intro l' hl'
      obtain rfl : l = l' := by simpa [Stmt.set] using hl'
      obtain ⟨cl, hcl⟩ := Option.isSome_iff_exists.1 hcl
      exact ⟨cl, hcl, (h.claimed cl hcl).trans_lt hl⟩
  | release a code msg t =>
    obtain ⟨rfl, ha⟩ := hs
    have hopen : j.completedAt = none := h.open' (by simp [Status.Terminal, hm.1])
    refine ⟨⟨?_, .inr rfl, by simp [Stmt.set], ?_, ?_⟩, h.bound, ?_, by simp [Stmt.set], h.started, fun _ => hopen⟩
    · intro hr; simp [Stmt.set] at hr
    · intro ht; simp [Stmt.set, Status.Terminal] at ht
    · intro c' hc'; simp [Stmt.set, hopen] at hc'
    · intro _; exact hm.2.1 ▸ ha
  | fail a n code msg meta? t =>
    obtain ⟨rfl, rfl⟩ := hs
    refine ⟨Checks.ended (h.startedAt_of_running hm.1) _ (.inr rfl) _ _ _, h.bound, ?_, by simp [Stmt.set], h.started,
      ?_⟩
    · intro hp; simp [Stmt.set] at hp
    · intro hn; simp [Stmt.set, Status.Terminal] at hn
  | complete a n md t =>
    obtain ⟨rfl, rfl⟩ := hs
    refine ⟨Checks.ended (h.startedAt_of_running hm.1) _ (.inl rfl) _ _ _, h.bound, ?_, by simp [Stmt.set], h.started,
      ?_⟩
    · intro hp; simp [Stmt.set] at hp
    · intro hn; simp [Stmt.set, Status.Terminal] at hn
  | failExhausted n m code t =>
    obtain ⟨rfl, rfl, rfl⟩ := hs
    refine ⟨Checks.ended (h.startedAt_of_running hm.1) _ (.inr rfl) _ _ _, h.bound, ?_, by simp [Stmt.set], h.started,
      ?_⟩
    · intro hp; simp [Stmt.set] at hp
    · intro hn; simp [Stmt.set, Status.Terminal] at hn

end AtlasRag.Lib.LeasedJob
