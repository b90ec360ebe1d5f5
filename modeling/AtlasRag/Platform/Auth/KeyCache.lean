/-
The cache of keys under interleaved calls of `verify`.

A call reads the clock before the lock and again under it; while it fetches it holds the lock, and other calls read the clock
and wait. What a call does after a reading or an answer, up to its next one, is one event. Readings never go back: one that does
changes nothing, nor does an event for which the call is not ready. Each fetch is recorded as an attempt, the last one first.

Results:
- `change`: what an event can do;
- `Inv.step`, `inv`: the cache is that of the last fetch, whose keys no call has outlived;
- `runs_alone`: a call with no other does what `verify` does.
-/
import AtlasRag.Lib.Lists
import AtlasRag.Lib.Run
import AtlasRag.Platform.Auth.Keycloak

namespace AtlasRag.Platform.Auth

open AtlasRag.Lib AtlasRag.Lib.Lists

variable {RsaKey : Type}

/-! ## The machine -/

/-- a call of `verify`, with PyJWT as it finds it -/
structure Call (RsaKey : Type) where
  token : Str
  jwt : Jwt RsaKey

inductive Phase where
  /-- about to read the clock before the lock -/
  | refreshing (force : Bool)
  /-- for the lock -/
  | queued (force : Bool)
  /-- since its reading under the lock -/
  | fetching (force : Bool) (now : ℚ)
  /-- with the key that the token was checked with -/
  | ended (key : Option Dict) (outcome : Except VerifyError AuthenticatedIdentity)

structure Task (RsaKey : Type) where
  call : Call RsaKey
  algorithm : Str
  keyId : Str
  phase : Phase
  /-- the last reading at which it found the cache fresh -/
  freshAt : Option ℚ

/-- a fetch, with its reading under the lock; it has no result while it goes on -/
structure Attempt where
  caller : ℕ
  forced : Bool
  started : ℚ
  result : Option (Except VerifyError Keys)

structure State (RsaKey : Type) where
  cache : Cache
  clock : ℚ
  lock : Option ℕ
  tasks : List (Task RsaKey)
  attempts : List Attempt

inductive Event (RsaKey : Type) where
  | begin (call : Call RsaKey)
  /-- task `i` reads the clock before the lock -/
  | read (i : ℕ) (now : ℚ)
  /-- task `i` gets the lock, and reads the clock -/
  | acquire (i : ℕ) (now : ℚ)
  /-- the server has answered task `i`, or failed to -/
  | respond (i : ℕ) (server : Server)

def State.init (RsaKey : Type) (clock : ℚ) : State RsaKey := ⟨Cache.init, clock, none, [], []⟩

namespace KeycloakTokenVerifier

/-- `verify` up to its first reading of the clock -/
def newTask (v : KeycloakTokenVerifier) (call : Call RsaKey) : Task RsaKey :=
  match v.readHeader call.jwt call.token with
  | .ok (algorithm, keyId) => ⟨call, algorithm, keyId, .refreshing false, none⟩
  | .error e => ⟨call, [], [], .ended none (.error e), none⟩

/-- what follows in `_key_for_id` and `verify` when `_refresh_jwks` has returned -/
def lookedUp (v : KeycloakTokenVerifier) (cache : Cache) (force : Bool) (task : Task RsaKey) : Task RsaKey :=
  match cache.keys.lookup task.keyId with
  | some key =>
    { task with phase := .ended (some key) (v.validate task.call.jwt task.call.token task.algorithm key) }
  | none =>
    { task with phase :=
        if force then .ended none (.error (.tokenVerificationError "Token signing key is not trusted")) else .refreshing true }

/-- `_refresh_jwks` returns without a fetch -/
def skipped (v : KeycloakTokenVerifier) (cache : Cache) (force : Bool) (now : ℚ) (task : Task RsaKey) : Task RsaKey :=
  v.lookedUp cache force (if force then task else { task with freshAt := some now })

/-- the result of the attempt that goes on -/
def answered (result : Except VerifyError Keys) : List Attempt → List Attempt
  | a :: attempts => { a with result := some result } :: attempts
  | [] => []

def step (v : KeycloakTokenVerifier) (s : State RsaKey) : Event RsaKey → State RsaKey
  | .begin call => { s with tasks := s.tasks ++ [v.newTask call] }
  | .read i now =>
    match s.tasks[i]? with
    | some ⟨call, algorithm, keyId, .refreshing force, freshAt⟩ =>
      let task := ⟨call, algorithm, keyId, .refreshing force, freshAt⟩
      if now < s.clock then s
      else if v.Skips s.cache force now then
        { s with clock := now, tasks := s.tasks.set i (v.skipped s.cache force now task) }
      else { s with clock := now, tasks := s.tasks.set i { task with phase := .queued force } }
    | _ => s
  | .acquire i now =>
    match s.tasks[i]?, s.lock with
    | some ⟨call, algorithm, keyId, .queued force, freshAt⟩, none =>
      let task := ⟨call, algorithm, keyId, .queued force, freshAt⟩
      if now < s.clock then s
      else if v.Skips s.cache force now then
        { s with clock := now, tasks := s.tasks.set i (v.skipped s.cache force now task) }
      else
        { s with clock := now, lock := some i, tasks := s.tasks.set i { task with phase := .fetching force now }
                 attempts := ⟨i, force, now, none⟩ :: s.attempts }
    | _, _ => s
  | .respond i server =>
    match s.tasks[i]? with
    | some ⟨call, algorithm, keyId, .fetching force now, freshAt⟩ =>
      let task := ⟨call, algorithm, keyId, .fetching force now, freshAt⟩
      match v.fetchKeys server with
      | .error e =>
        { s with lock := none, tasks := s.tasks.set i { task with phase := .ended none (.error e) }
                 attempts := answered (.error e) s.attempts }
      | .ok keys =>
        { s with cache := v.refreshed keys now, lock := none
                 tasks := s.tasks.set i (v.lookedUp (v.refreshed keys now) force task)
                 attempts := answered (.ok keys) s.attempts }
    | _ => s

end KeycloakTokenVerifier

/-! ## What an event can do -/

/-- the steps of the machine -/
inductive Change (v : KeycloakTokenVerifier) (s : State RsaKey) : Event RsaKey → State RsaKey → Prop where
  | idle (e : Event RsaKey) : Change v s e s
  | begun (call : Call RsaKey) : Change v s (.begin call) { s with tasks := s.tasks ++ [v.newTask call] }
  | skipped {e : Event RsaKey} {i : ℕ} {task : Task RsaKey} {force : Bool} {now : ℚ} (hi : s.tasks[i]? = some task)
      (hphase : task.phase = .refreshing force ∨ task.phase = .queued force) (hclock : s.clock ≤ now)
      (hskips : v.Skips s.cache force now) :
      Change v s e { s with clock := now, tasks := s.tasks.set i (v.skipped s.cache force now task) }
  | queued {e : Event RsaKey} {i : ℕ} {task : Task RsaKey} {force : Bool} {now : ℚ} (hi : s.tasks[i]? = some task)
      (hphase : task.phase = .refreshing force) (hclock : s.clock ≤ now) (hskips : ¬ v.Skips s.cache force now) :
      Change v s e { s with clock := now, tasks := s.tasks.set i { task with phase := .queued force } }
  | started {i : ℕ} {task : Task RsaKey} {force : Bool} {now : ℚ} (hi : s.tasks[i]? = some task)
      (hphase : task.phase = .queued force) (hlock : s.lock = none) (hclock : s.clock ≤ now)
      (hskips : ¬ v.Skips s.cache force now) :
      Change v s (.acquire i now)
        { s with clock := now, lock := some i, tasks := s.tasks.set i { task with phase := .fetching force now }
                 attempts := ⟨i, force, now, none⟩ :: s.attempts }
  | failed {i : ℕ} {server : Server} {task : Task RsaKey} {force : Bool} {now : ℚ} {error : VerifyError}
      (hi : s.tasks[i]? = some task) (hphase : task.phase = .fetching force now) (hkeys : v.fetchKeys server = .error error) :
      Change v s (.respond i server)
        { s with lock := none, tasks := s.tasks.set i { task with phase := .ended none (.error error) }
                 attempts := KeycloakTokenVerifier.answered (.error error) s.attempts }
  | fetched {i : ℕ} {server : Server} {task : Task RsaKey} {force : Bool} {now : ℚ} {keys : Keys}
      (hi : s.tasks[i]? = some task) (hphase : task.phase = .fetching force now) (hkeys : v.fetchKeys server = .ok keys) :
      Change v s (.respond i server)
        { s with cache := v.refreshed keys now, lock := none
                 tasks := s.tasks.set i (v.lookedUp (v.refreshed keys now) force task)
                 attempts := KeycloakTokenVerifier.answered (.ok keys) s.attempts }

variable {v : KeycloakTokenVerifier} {s : State RsaKey} {e : Event RsaKey} {i : ℕ} {task : Task RsaKey} {force : Bool}
  {now : ℚ}

/-- An event leaves the state as it is, or is one of the steps of the machine. -/
theorem change (v : KeycloakTokenVerifier) (s : State RsaKey) (e : Event RsaKey) : Change v s e (v.step s e) := by
  cases e with
  | begin call => exact .begun call
  | read i now =>
    rw [KeycloakTokenVerifier.step]
    split
    · next call algorithm keyId force freshAt hi =>
      dsimp only
      split_ifs with hclock hskips
      · exact .idle _
      · exact .skipped hi (.inl rfl) (not_lt.1 hclock) hskips
      · exact .queued hi rfl (not_lt.1 hclock) hskips
    · exact .idle _
  | acquire i now =>
    rw [KeycloakTokenVerifier.step]
    split
    · next call algorithm keyId force freshAt hi hlock =>
      dsimp only
      split_ifs with hclock hskips
      · exact .idle _
      · exact .skipped hi (.inr rfl) (not_lt.1 hclock) hskips
      · exact .started hi rfl hlock (not_lt.1 hclock) hskips
    · exact .idle _
  | respond i server =>
    rw [KeycloakTokenVerifier.step]
    split
    · next call algorithm keyId force now freshAt hi =>
      dsimp only
      split
      · next hkeys => exact .failed hi rfl hkeys
      · next hkeys => exact .fetched hi rfl hkeys
    · exact .idle _

/-! ## The invariant -/

/-- a fetch that succeeded -/
structure Fetch where
  caller : ℕ
  started : ℚ
  keys : Keys

def Attempt.fetch? (a : Attempt) : Option Fetch :=
  match a.result with
  | some (.ok keys) => some ⟨a.caller, a.started, keys⟩
  | _ => none

/-- the fetches that succeeded, the last one first -/
def fetches (attempts : List Attempt) : List Fetch := attempts.filterMap Attempt.fetch?

/-- the cache after these fetches -/
def cacheOf (v : KeycloakTokenVerifier) : List Fetch → Cache
  | [] => Cache.init
  | f :: _ => v.refreshed f.keys f.started

/-- the call is past its first lookup -/
def Phase.forced : Phase → Bool
  | .refreshing force => force
  | .queued force => force
  | .fetching force _ => force
  | .ended _ _ => false

/-- what holds of a task -/
structure TaskInv (v : KeycloakTokenVerifier) (lock : Option ℕ) (attempts : List Attempt) (i : ℕ) (task : Task RsaKey) :
    Prop where
  /-- it fetches under the lock -/
  fetching : ∀ force now, task.phase = .fetching force now → lock = some i ∧ ∃ older, attempts = ⟨i, force, now, none⟩ :: older
  /-- the keys are no older than it found them -/
  fresh : ∀ now, task.freshAt = some now → ∃ f ∈ (fetches attempts).head?, now < f.started + v.jwksCacheTtlSeconds
  /-- it has found the cache fresh, or fetched the keys -/
  anchored : task.phase.forced = true → task.freshAt ≠ none ∨ ∃ f ∈ fetches attempts, f.caller = i

structure Inv (v : KeycloakTokenVerifier) (s : State RsaKey) : Prop where
  cache : s.cache = cacheOf v (fetches s.attempts)
  started : ∀ a ∈ s.attempts, a.started ≤ s.clock
  sorted : s.attempts.Pairwise fun b a => a.started ≤ b.started
  tasks : ∀ i task, s.tasks[i]? = some task → TaskInv v s.lock s.attempts i task

theorem Inv.init (v : KeycloakTokenVerifier) (clock : ℚ) : Inv v (State.init RsaKey clock) where
  cache := rfl
  started := fun a ha => by cases ha
  sorted := .nil
  tasks := fun i task hi => by cases hi

variable {lock : Option ℕ} {attempts older : List Attempt} {keys : Keys} {error : VerifyError}

/-- a fetch is an attempt -/
theorem exists_attempt {f : Fetch} (h : f ∈ fetches attempts) :
    ∃ a ∈ attempts, a.caller = f.caller ∧ a.started = f.started ∧ a.result = some (.ok f.keys) := by
  obtain ⟨a, ha, hf⟩ := List.mem_filterMap.1 h
  unfold Attempt.fetch? at hf
  split at hf
  · next keys hkeys =>
    obtain rfl := Option.some.inj hf
    exact ⟨a, ha, rfl, rfl, hkeys⟩
  · cases hf

/-- what a task comes to when its refresh returns -/
theorem lookedUp_cases (v : KeycloakTokenVerifier) (cache : Cache) (force : Bool) (task : Task RsaKey) :
    (∃ key, cache.keys.lookup task.keyId = some key ∧ v.lookedUp cache force task =
      { task with phase := .ended (some key) (v.validate task.call.jwt task.call.token task.algorithm key) }) ∨
    (cache.keys.lookup task.keyId = none ∧ force = true ∧ v.lookedUp cache force task =
      { task with phase := .ended none (.error (.tokenVerificationError "Token signing key is not trusted")) }) ∨
    (cache.keys.lookup task.keyId = none ∧ force = false ∧ v.lookedUp cache force task =
      { task with phase := .refreshing true }) := by
  unfold KeycloakTokenVerifier.lookedUp
  cases hkey : cache.keys.lookup task.keyId with
  | some key => exact .inl ⟨key, rfl, rfl⟩
  | none =>
    cases force with
    | true => exact .inr (.inl ⟨rfl, rfl, rfl⟩)
    | false => exact .inr (.inr ⟨rfl, rfl, rfl⟩)

theorem lookedUp_freshAt (v : KeycloakTokenVerifier) (cache : Cache) (force : Bool) (task : Task RsaKey) :
    (v.lookedUp cache force task).freshAt = task.freshAt := by
  rcases lookedUp_cases v cache force task with ⟨key, -, h⟩ | ⟨-, -, h⟩ | ⟨-, -, h⟩
  · rw [h]
  · rw [h]
  · rw [h]

/-- it does not fetch, and is forced only if it was not -/
theorem lookedUp_phase (v : KeycloakTokenVerifier) (cache : Cache) (force : Bool) (task : Task RsaKey) :
    (∀ force' now, (v.lookedUp cache force task).phase ≠ .fetching force' now) ∧
      ((v.lookedUp cache force task).phase.forced = true → force = false) := by
  rcases lookedUp_cases v cache force task with ⟨key, -, h⟩ | ⟨-, -, h⟩ | ⟨-, hforce, h⟩
  · rw [h]
    exact ⟨fun _ _ heq => (by cases heq), fun heq => (by cases heq)⟩
  · rw [h]
    exact ⟨fun _ _ heq => (by cases heq), fun heq => (by cases heq)⟩
  · rw [h]
    exact ⟨fun _ _ heq => (by cases heq), fun _ => hforce⟩

theorem newTask_inv (call : Call RsaKey) : TaskInv v lock attempts i (v.newTask call) := by
  unfold KeycloakTokenVerifier.newTask
  split
  · exact ⟨fun _ _ h => (by cases h), fun _ h => (by cases h), fun h => (by cases h)⟩
  · exact ⟨fun _ _ h => (by cases h), fun _ h => (by cases h), fun h => (by cases h)⟩

variable {lock' : Option ℕ} {attempts' : List Attempt} {cache : Cache}

/-- one that does not fetch, when there are more fetches -/
theorem TaskInv.mono (h : TaskInv v lock attempts i task) (hnot : ∀ force now, task.phase ≠ .fetching force now)
    (hhead : ∀ f ∈ (fetches attempts).head?, ∃ f' ∈ (fetches attempts').head?, f.started ≤ f'.started)
    (hsub : fetches attempts ⊆ fetches attempts') : TaskInv v lock' attempts' i task where
  fetching force now hphase := absurd hphase (hnot force now)
  fresh now hnow := by
    obtain ⟨f, hf, hlt⟩ := h.fresh now hnow
    obtain ⟨f', hf', hle⟩ := hhead f hf
    exact ⟨f', hf', hlt.trans_le (by gcongr)⟩
  anchored hforced := (h.anchored hforced).imp_right fun ⟨f, hf, hcaller⟩ => ⟨f, hsub hf, hcaller⟩

/-- a task that is not further on than it was, and does not fetch -/
theorem TaskInv.move (h : TaskInv v lock attempts i task) {phase : Phase} (hnot : ∀ force now, phase ≠ .fetching force now)
    (hforced : phase.forced = true → task.phase.forced = true) : TaskInv v lock attempts i { task with phase := phase } where
  fetching force now hphase := absurd hphase (hnot force now)
  fresh := h.fresh
  anchored hphase := h.anchored (hforced hphase)

/-- a cache that is fresh has been fetched -/
theorem fresh_of_skips {fs : List Fetch} (h : v.Skips (cacheOf v fs) false now) :
    ∃ f ∈ fs.head?, now < f.started + v.jwksCacheTtlSeconds := by
  rcases h with ⟨-, hne, hlt⟩ | ⟨hforce, -⟩
  · cases fs with
    | nil => exact absurd rfl hne
    | cons f fs => exact ⟨f, rfl, hlt⟩
  · cases hforce

theorem TaskInv.skipped (h : TaskInv v lock attempts i task)
    (hskips : v.Skips (cacheOf v (fetches attempts)) force now) :
    TaskInv v lock attempts i (v.skipped (cacheOf v (fetches attempts)) force now task) where
  fetching force' now' hphase := absurd hphase ((lookedUp_phase v _ force _).1 force' now')
  fresh now' hnow' := by
    rw [KeycloakTokenVerifier.skipped, lookedUp_freshAt] at hnow'
    cases force with
    | true => exact h.fresh now' hnow'
    | false =>
      obtain rfl : now = now' := Option.some.inj hnow'
      exact fresh_of_skips hskips
  anchored hphase := by
    rw [KeycloakTokenVerifier.skipped] at hphase ⊢
    obtain rfl := (lookedUp_phase v _ force _).2 hphase
    rw [lookedUp_freshAt]
    exact .inl fun heq => by cases heq

/-- the keys that have been fetched last are as fresh as those before -/
theorem head_fetched (hsorted : ∀ f ∈ fetches older, f.started ≤ now) (i : ℕ) (keys : Keys) :
    ∀ f ∈ (fetches older).head?, ∃ f' ∈ (⟨i, now, keys⟩ :: fetches older).head?, f.started ≤ f'.started :=
  fun f hf => ⟨_, rfl, hsorted f (List.mem_of_mem_head? hf)⟩

theorem TaskInv.fetched (h : TaskInv v lock (⟨i, force, now, none⟩ :: older) i task)
    (hsorted : ∀ f ∈ fetches older, f.started ≤ now) (cache : Cache) :
    TaskInv v lock' (KeycloakTokenVerifier.answered (.ok keys) (⟨i, force, now, none⟩ :: older)) i
      (v.lookedUp cache force task) where
  fetching force' now' hphase := absurd hphase ((lookedUp_phase v _ force _).1 force' now')
  fresh now' hnow' := by
    rw [lookedUp_freshAt] at hnow'
    obtain ⟨f, hf, hlt⟩ := h.fresh now' hnow'
    obtain ⟨f', hf', hle⟩ := head_fetched hsorted i keys f hf
    exact ⟨f', hf', hlt.trans_le (by gcongr)⟩
  anchored _ := .inr ⟨_, List.mem_cons_self, rfl⟩

/-- An event keeps the cache that of the last fetch, and the keys no older than the calls have found them. -/
theorem Inv.step (h : Inv v s) (e : Event RsaKey) : Inv v (v.step s e) := by
  have hchange := change v s e
  generalize v.step s e = s' at hchange
  cases hchange with
  | idle => exact h
  | begun call =>
    refine { h with tasks := fun j task hj => ?_ }
    rcases getElem?_snoc_cases hj with ⟨-, rfl⟩ | ⟨-, hj⟩
    · exact newTask_inv call
    · exact h.tasks j task hj
  | @skipped _ i task force now hi hphase hclock hskips =>
    refine { h with started := fun a ha => (h.started a ha).trans hclock, tasks := fun j task' hj => ?_ }
    rcases getElem?_set_cases hj with ⟨rfl, rfl⟩ | ⟨-, hj⟩
    · rw [h.cache] at hskips ⊢
      exact (h.tasks j task hi).skipped hskips
    · exact h.tasks j task' hj
  | @queued _ i task force now hi hphase hclock hskips =>
    refine { h with started := fun a ha => (h.started a ha).trans hclock, tasks := fun j task' hj => ?_ }
    rcases getElem?_set_cases hj with ⟨rfl, rfl⟩ | ⟨-, hj⟩
    · exact (h.tasks j task hi).move (fun _ _ heq => by cases heq) (fun hforced => by rw [hphase]; exact hforced)
    · exact h.tasks j task' hj
  | @started i task force now hi hphase hlock hclock hskips =>
    refine ⟨h.cache, ?_, ?_, ?_⟩
    · exact List.forall_mem_cons.2 ⟨le_refl now, fun a ha => (h.started a ha).trans hclock⟩
    · exact List.pairwise_cons.2 ⟨fun a ha => (h.started a ha).trans hclock, h.sorted⟩
    · intro j task' hj
      rcases getElem?_set_cases hj with ⟨rfl, rfl⟩ | ⟨-, hj⟩
      · have hinv := h.tasks j task hi
        refine ⟨fun force' now' heq => ?_, hinv.fresh, fun hforced => hinv.anchored (by rw [hphase]; exact hforced)⟩
        obtain ⟨rfl, rfl⟩ := Phase.fetching.inj heq
        exact ⟨rfl, _, rfl⟩
      · -- no other task fetches, as the lock was free
        have hinv := h.tasks j task' hj
        refine hinv.mono (fun force' now' heq => ?_) (fun f hf => ⟨f, hf, le_rfl⟩) fun f hf => hf
        have hheld := (hinv.fetching force' now' heq).1
        rw [hlock] at hheld
        cases hheld
  | @failed i server task force now error hi hphase hkeys =>
    obtain ⟨hlock, older, hattempts⟩ := (h.tasks i task hi).fetching force now hphase
    obtain ⟨hcache, hstarted, hsorted, htasks⟩ := h
    rw [hattempts] at hcache hstarted hsorted htasks ⊢
    refine ⟨hcache, ?_, ?_, ?_⟩
    · exact List.forall_mem_cons.2 (List.forall_mem_cons.1 hstarted)
    · exact List.pairwise_cons.2 (List.pairwise_cons.1 hsorted)
    · intro j task' hj
      rcases getElem?_set_cases hj with ⟨rfl, rfl⟩ | ⟨hne, hj⟩
      · refine ((htasks j task hi).move (fun _ _ heq => by cases heq) fun heq => by cases heq).mono
          (fun _ _ heq => by cases heq) (fun f hf => ⟨f, hf, le_rfl⟩) fun f hf => hf
      · refine (htasks j task' hj).mono (fun force' now' heq => ?_) (fun f hf => ⟨f, hf, le_rfl⟩) fun f hf => hf
        have hheld := ((htasks j task' hj).fetching force' now' heq).1
        rw [hlock] at hheld
        exact hne (Option.some.inj hheld).symm
  | @fetched i server task force now keys hi hphase hkeys =>
    obtain ⟨hlock, older, hattempts⟩ := (h.tasks i task hi).fetching force now hphase
    obtain ⟨hcache, hstarted, hsorted, htasks⟩ := h
    rw [hattempts] at hcache hstarted hsorted htasks ⊢
    have hle : ∀ f ∈ fetches older, f.started ≤ now := by
      intro f hf
      obtain ⟨a, ha, -, hstart, -⟩ := exists_attempt hf
      exact hstart ▸ (List.pairwise_cons.1 hsorted).1 a ha
    refine ⟨rfl, ?_, ?_, ?_⟩
    · exact List.forall_mem_cons.2 (List.forall_mem_cons.1 hstarted)
    · exact List.pairwise_cons.2 (List.pairwise_cons.1 hsorted)
    · intro j task' hj
      rcases getElem?_set_cases hj with ⟨rfl, rfl⟩ | ⟨hne, hj⟩
      · exact (htasks j task hi).fetched hle _
      · refine (htasks j task' hj).mono (fun force' now' heq => ?_) (head_fetched hle i keys) (List.subset_cons_self _ _)
        have hheld := ((htasks j task' hj).fetching force' now' heq).1
        rw [hlock] at hheld
        exact hne (Option.some.inj hheld).symm

/-- In every run the cache is that of the last fetch, and the keys are no older than the calls have found them. -/
theorem inv (v : KeycloakTokenVerifier) (clock : ℚ) (events : List (Event RsaKey)) :
    Inv v (run v.step (State.init RsaKey clock) events) :=
  (run_always _ events).inv (fun _ e _ h => h.step e) (Inv.init v clock)

/-! ## One call alone -/

variable {round : Round} {rounds : Bool → Round} {call : Call RsaKey}

theorem step_read (hi : s.tasks[i]? = some task) (hphase : task.phase = .refreshing force) (hclock : s.clock ≤ now) :
    v.step s (.read i now) =
      if v.Skips s.cache force now then { s with clock := now, tasks := s.tasks.set i (v.skipped s.cache force now task) }
      else { s with clock := now, tasks := s.tasks.set i { task with phase := .queued force } } := by
  obtain ⟨call, algorithm, keyId, phase, freshAt⟩ := task
  subst hphase
  simp only [KeycloakTokenVerifier.step, hi, if_neg (not_lt.2 hclock)]

theorem step_acquire (hi : s.tasks[i]? = some task) (hphase : task.phase = .queued force) (hlock : s.lock = none)
    (hclock : s.clock ≤ now) :
    v.step s (.acquire i now) =
      if v.Skips s.cache force now then { s with clock := now, tasks := s.tasks.set i (v.skipped s.cache force now task) }
      else
        { s with clock := now, lock := some i, tasks := s.tasks.set i { task with phase := .fetching force now }
                 attempts := ⟨i, force, now, none⟩ :: s.attempts } := by
  obtain ⟨call, algorithm, keyId, phase, freshAt⟩ := task
  subst hphase
  simp only [KeycloakTokenVerifier.step, hi, hlock, if_neg (not_lt.2 hclock)]

theorem step_respond (hi : s.tasks[i]? = some task) (hphase : task.phase = .fetching force now) (server : Server) :
    v.step s (.respond i server) =
      match v.fetchKeys server with
      | .error e =>
        { s with lock := none, tasks := s.tasks.set i { task with phase := .ended none (.error e) }
                 attempts := KeycloakTokenVerifier.answered (.error e) s.attempts }
      | .ok keys =>
        { s with cache := v.refreshed keys now, lock := none
                 tasks := s.tasks.set i (v.lookedUp (v.refreshed keys now) force task)
                 attempts := KeycloakTokenVerifier.answered (.ok keys) s.attempts } := by
  obtain ⟨call, algorithm, keyId, phase, freshAt⟩ := task
  subst hphase
  simp only [KeycloakTokenVerifier.step, hi]

/-- no event for a task in another phase -/
theorem step_read_idle (hi : s.tasks[i]? = some task) (h : ∀ force, task.phase ≠ .refreshing force) (now : ℚ) :
    v.step s (.read i now) = s := by
  rw [KeycloakTokenVerifier.step]
  split
  · next hi' =>
    obtain rfl := Option.some.inj (hi.symm.trans hi')
    exact absurd rfl (h _)
  · rfl

theorem step_acquire_idle (hi : s.tasks[i]? = some task) (h : ∀ force, task.phase ≠ .queued force) (now : ℚ) :
    v.step s (.acquire i now) = s := by
  rw [KeycloakTokenVerifier.step]
  split
  · next hi' _ =>
    obtain rfl := Option.some.inj (hi.symm.trans hi')
    exact absurd rfl (h _)
  · rfl

theorem step_respond_idle (hi : s.tasks[i]? = some task) (h : ∀ force now, task.phase ≠ .fetching force now)
    (server : Server) : v.step s (.respond i server) = s := by
  rw [KeycloakTokenVerifier.step]
  split
  · next hi' =>
    obtain rfl := Option.some.inj (hi.symm.trans hi')
    exact absurd rfl (h _ _)
  · rfl

/-- the events of one refresh -/
def roundEvents (i : ℕ) (round : Round) : List (Event RsaKey) :=
  [.read i round.before, .acquire i round.locked, .respond i round.server]

/-- the task when its refresh is over -/
def afterRefresh (v : KeycloakTokenVerifier) (force : Bool) (task : Task RsaKey) :
    Except VerifyError Unit × Cache → Task RsaKey
  | (.ok (), cache) => v.lookedUp cache force task
  | (.error e, _) => { task with phase := .ended none (.error e) }

/-- what a refresh has come to -/
structure Refreshed (v : KeycloakTokenVerifier) (s : State RsaKey) (i : ℕ) (force : Bool) (task : Task RsaKey) (latest : ℚ)
    (result : Except VerifyError Unit × Cache) : Prop where
  cache : s.cache = result.2
  lock : s.lock = none
  clock : s.clock ≤ latest
  task : ∃ freshAt, s.tasks[i]? = some (afterRefresh v force { task with freshAt := freshAt } result)

theorem lookedUp_ne_queued (v : KeycloakTokenVerifier) (cache : Cache) (force : Bool) (task : Task RsaKey) (force' : Bool) :
    (v.lookedUp cache force task).phase ≠ .queued force' := by
  rcases lookedUp_cases v cache force task with ⟨key, -, h⟩ | ⟨-, -, h⟩ | ⟨-, -, h⟩
  · exact h ▸ fun heq => by cases heq
  · exact h ▸ fun heq => by cases heq
  · exact h ▸ fun heq => by cases heq

theorem skipped_eq (v : KeycloakTokenVerifier) (cache : Cache) (force : Bool) (now : ℚ) (task : Task RsaKey) :
    ∃ freshAt, v.skipped cache force now task = v.lookedUp cache force { task with freshAt := freshAt } := by
  cases force with
  | true => exact ⟨task.freshAt, rfl⟩
  | false => exact ⟨some now, rfl⟩

theorem lookedUp_phase_eq (v : KeycloakTokenVerifier) (cache : Cache) (force : Bool) (task : Task RsaKey) (phase : Phase) :
    v.lookedUp cache force { task with phase := phase } = v.lookedUp cache force task := by
  unfold KeycloakTokenVerifier.lookedUp
  cases cache.keys.lookup task.keyId with
  | some key => rfl
  | none => rfl

theorem afterRefresh_phase_eq (v : KeycloakTokenVerifier) (force : Bool) (task : Task RsaKey) (phase : Phase)
    (result : Except VerifyError Unit × Cache) :
    afterRefresh v force { task with phase := phase } result = afterRefresh v force task result := by
  rcases result with ⟨e | u, cache⟩
  · rfl
  · exact lookedUp_phase_eq v cache force task phase

/-- a refresh that skips under the lock, or fetches -/
theorem run_locked (hi : s.tasks[i]? = some task) (hphase : task.phase = .queued force) (hlock : s.lock = none)
    (hclock : s.clock ≤ round.locked) :
    Refreshed v (run v.step s [.acquire i round.locked, .respond i round.server]) i force task round.locked
      (if v.Skips s.cache force round.locked then (.ok (), s.cache) else v.fetchInto round s.cache) := by
  rw [run_cons, run_cons, run_nil, step_acquire hi hphase hlock hclock]
  by_cases hskips : v.Skips s.cache force round.locked
  · rw [if_pos hskips, if_pos hskips]
    obtain ⟨freshAt, hskipped⟩ := skipped_eq v s.cache force round.locked task
    rw [hskipped, step_respond_idle (getElem?_set_self hi _) (lookedUp_phase v _ force _).1]
    exact ⟨rfl, hlock, le_refl _, freshAt, getElem?_set_self hi _⟩
  · rw [if_neg hskips, if_neg hskips, step_respond (getElem?_set_self hi _) rfl, KeycloakTokenVerifier.fetchInto]
    cases v.fetchKeys round.server with
    | error e => exact ⟨rfl, rfl, le_refl _, task.freshAt, getElem?_set_self (getElem?_set_self hi _) _⟩
    | ok keys =>
      refine ⟨rfl, rfl, le_refl _, task.freshAt, (getElem?_set_self (getElem?_set_self hi _) _).trans ?_⟩
      exact congrArg some (lookedUp_phase_eq v _ force task _)

/-- The events of one refresh do what `_refresh_jwks` does. -/
theorem run_round (hi : s.tasks[i]? = some task) (hphase : task.phase = .refreshing force) (hlock : s.lock = none)
    (hbefore : s.clock ≤ round.before) (hlocked : round.before ≤ round.locked) :
    Refreshed v (run v.step s (roundEvents i round)) i force task round.locked (v.refreshJwks round force s.cache) := by
  rw [roundEvents, run_cons, step_read hi hphase hbefore, KeycloakTokenVerifier.refreshJwks_run]
  by_cases hskips : v.Skips s.cache force round.before
  · obtain ⟨freshAt, hskipped⟩ := skipped_eq v s.cache force round.before task
    rw [if_pos hskips, if_neg fun h : v.Due round force s.cache => h.1 hskips, hskipped, run_cons, run_cons, run_nil,
      step_acquire_idle (getElem?_set_self hi _) (lookedUp_ne_queued v _ force _),
      step_respond_idle (getElem?_set_self hi _) (lookedUp_phase v _ force _).1]
    exact ⟨rfl, hlock, hlocked, freshAt, getElem?_set_self hi _⟩
  · rw [if_neg hskips]
    obtain ⟨hcache, hfree, hclock, freshAt, htask⟩ := run_locked (v := v)
      (s := { s with clock := round.before, tasks := s.tasks.set i { task with phase := .queued force } })
      (getElem?_set_self hi _) rfl hlock hlocked
    have hresult : (if v.Due round force s.cache then v.fetchInto round s.cache else (.ok (), s.cache)) =
        if v.Skips s.cache force round.locked then (.ok (), s.cache) else v.fetchInto round s.cache := by
      by_cases hskips' : v.Skips s.cache force round.locked
      · rw [if_pos hskips', if_neg fun h : v.Due round force s.cache => h.2 hskips']
      · rw [if_neg hskips', if_pos (show v.Due round force s.cache from ⟨hskips, hskips'⟩)]
    rw [hresult]
    exact ⟨hcache, hfree, hclock, freshAt,
      htask.trans (congrArg some (afterRefresh_phase_eq v force { task with freshAt := freshAt } _ _))⟩

/-- the events of one call -/
def callEvents (i : ℕ) (call : Call RsaKey) (rounds : Bool → Round) : List (Event RsaKey) :=
  .begin call :: (roundEvents i (rounds false) ++ roundEvents i (rounds true))

/-- nothing happens to a call that has ended -/
theorem run_ended {key : Option Dict} {outcome : Except VerifyError AuthenticatedIdentity} (hi : s.tasks[i]? = some task)
    (hphase : task.phase = .ended key outcome) (round : Round) : run v.step s (roundEvents i round) = s := by
  rw [roundEvents, run_cons, step_read_idle hi fun force h => by (rw [hphase] at h; cases h), run_cons,
    step_acquire_idle hi fun force h => by (rw [hphase] at h; cases h), run_cons,
    step_respond_idle hi fun force now h => by (rw [hphase] at h; cases h), run_nil]

/-- the call has ended with the outcome -/
def EndedWith (s : State RsaKey) (i : ℕ) (result : Except VerifyError AuthenticatedIdentity × Cache) : Prop :=
  s.cache = result.2 ∧ ∃ task key, s.tasks[i]? = some task ∧ task.phase = .ended key result.1

/-- after its first lookup, without the key -/
theorem runs_unknown {algorithm keyId : Str} {freshAt : Option ℚ} {cache cache' : Cache}
    (hi : s.tasks[i]? = some ⟨call, algorithm, keyId, .refreshing true, freshAt⟩) (hlock : s.lock = none)
    (hbefore : s.clock ≤ (rounds true).before) (hlocked : (rounds true).before ≤ (rounds true).locked)
    (hcache : s.cache = cache') (hread : v.readHeader call.jwt call.token = .ok (algorithm, keyId))
    (hrefresh : v.refreshJwks (rounds false) false cache = (.ok (), cache')) (hkey : cache'.keys.lookup keyId = none) :
    EndedWith (run v.step s (roundEvents i (rounds true))) i (v.verify call.jwt rounds call.token cache) := by
  obtain ⟨hcache', -, -, freshAt', htask⟩ := run_round hi rfl hlock hbefore hlocked
  rw [hcache] at hcache' htask
  rcases hsecond : v.refreshJwks (rounds true) true cache' with ⟨e | u, cache''⟩
  · rw [hsecond] at hcache' htask
    rw [KeycloakTokenVerifier.verify_error hread (KeycloakTokenVerifier.keyForId_unknown_error hrefresh hkey hsecond)]
    exact ⟨hcache', _, _, htask, rfl⟩
  · rw [hsecond] at hcache' htask
    have hfound := KeycloakTokenVerifier.keyForId_unknown hrefresh hkey hsecond
    rcases lookedUp_cases v cache'' true ⟨call, algorithm, keyId, .refreshing true, freshAt'⟩ with
      ⟨key, hlookup, h⟩ | ⟨hlookup, -, h⟩ | ⟨-, hforce, -⟩
    · rw [KeycloakTokenVerifier.verify_found hread (hfound.trans (by rw [hlookup]))]
      exact ⟨hcache', _, _, htask.trans (congrArg some h), rfl⟩
    · rw [KeycloakTokenVerifier.verify_untrusted hread (hfound.trans (by rw [hlookup]))]
      exact ⟨hcache', _, _, htask.trans (congrArg some h), rfl⟩
    · cases hforce

/-- **One call alone** does what `verify` does. -/
theorem runs_alone (s : State RsaKey) (call : Call RsaKey) (rounds : Bool → Round) (hlock : s.lock = none)
    (hclock : s.clock ≤ (rounds false).before) (hfirst : (rounds false).before ≤ (rounds false).locked)
    (hbetween : (rounds false).locked ≤ (rounds true).before) (hsecond : (rounds true).before ≤ (rounds true).locked) :
    EndedWith (run v.step s (callEvents s.tasks.length call rounds)) s.tasks.length
      (v.verify call.jwt rounds call.token s.cache) := by
  have hi : (v.step s (.begin call)).tasks[s.tasks.length]? = some (v.newTask call) := List.getElem?_concat_length
  rw [callEvents, run_cons, run_append]
  cases hread : v.readHeader call.jwt call.token with
  | error e =>
    have htask : (v.newTask call).phase = .ended none (.error e) := by simp only [KeycloakTokenVerifier.newTask, hread]
    rw [run_ended hi htask, run_ended hi htask, KeycloakTokenVerifier.verify_malformed hread]
    exact ⟨rfl, _, _, hi, htask⟩
  | ok names =>
    obtain ⟨algorithm, keyId⟩ := names
    have htask : v.newTask call = ⟨call, algorithm, keyId, .refreshing false, none⟩ := by
      simp only [KeycloakTokenVerifier.newTask, hread]
    rw [htask] at hi
    obtain ⟨hcache, hfree, hlate, freshAt, hrest⟩ := run_round hi rfl hlock hclock hfirst
    rcases hrefresh : v.refreshJwks (rounds false) false s.cache with ⟨e | u, cache⟩
    · have hresult : v.refreshJwks (rounds false) false (v.step s (.begin call)).cache = (.error e, cache) := hrefresh
      rw [hresult] at hcache hrest
      rw [run_ended hrest rfl, KeycloakTokenVerifier.verify_error hread (KeycloakTokenVerifier.keyForId_error hrefresh)]
      exact ⟨hcache, _, _, hrest, rfl⟩
    · have hresult : v.refreshJwks (rounds false) false (v.step s (.begin call)).cache = (.ok (), cache) := hrefresh
      rw [hresult] at hcache hrest
      rcases lookedUp_cases v cache false ⟨call, algorithm, keyId, .refreshing false, freshAt⟩ with
        ⟨key, hlookup, h⟩ | ⟨-, hforce, -⟩ | ⟨hlookup, -, h⟩
      · have hended := hrest.trans (congrArg some h)
        rw [run_ended hended rfl, KeycloakTokenVerifier.verify_found hread (KeycloakTokenVerifier.keyForId_known hrefresh hlookup)]
        exact ⟨hcache, _, _, hended, rfl⟩
      · cases hforce
      · exact runs_unknown (hrest.trans (congrArg some h)) hfree (hlate.trans hbetween) hsecond hcache hread hrefresh hlookup

end AtlasRag.Platform.Auth
