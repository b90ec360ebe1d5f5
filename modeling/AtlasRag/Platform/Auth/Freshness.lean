/-
How old the key is that a token is checked with.

A call goes by the reading at which it found the cache fresh, or by a fetch of its own. If it overlaps with another call, this
one may refresh the cache while the first waits for the lock after that, and the key is then one of the other's.

Results:
- `accepted`: what the event that ends a call with an identity has found;
- `Turned.run`: while the cache is stale and no fetch succeeds, no call is accepted that could not be served before;
- `Single.step`: what holds when no two calls overlap;
- `keys_fresh`: all of it, for calls that overlap and for calls that do not;
- `keys_overtaken`: a call whose key another call has fetched; it does not even notice that this key has expired.
-/
import AtlasRag.Platform.Auth.Cooldown

namespace AtlasRag.Platform.Auth

open AtlasRag.Lib AtlasRag.Lib.Lists

variable {RsaKey : Type}

/-- the event ends call `i`, and its token is accepted, which was checked with the key -/
structure Accepts (v : KeycloakTokenVerifier) (s : State RsaKey) (e : Event RsaKey) (i : ℕ) (task : Task RsaKey) (key : Dict)
    (identity : AuthenticatedIdentity) : Prop where
  before : ∀ task, s.tasks[i]? = some task → ∀ key outcome, task.phase ≠ .ended key outcome
  after : (v.step s e).tasks[i]? = some task
  phase : task.phase = .ended (some key) (.ok identity)

variable {v : KeycloakTokenVerifier} {s : State RsaKey} {e : Event RsaKey} {i : ℕ} {task : Task RsaKey} {key : Dict}
  {identity : AuthenticatedIdentity}

/-! ## The key -/

/-- what a lookup finds -/
theorem lookedUp_accepted {cache : Cache} {force : Bool} {task' : Task RsaKey} (h : v.lookedUp cache force task = task')
    (hphase : task'.phase = .ended (some key) (.ok identity)) : cache.keys.lookup task'.keyId = some key ∧
      v.validate task'.call.jwt task'.call.token task'.algorithm key = .ok identity := by
  subst h
  rcases lookedUp_cases v cache force task with ⟨key', hlookup, h⟩ | ⟨-, -, h⟩ | ⟨-, -, h⟩
  · rw [h] at hphase ⊢
    obtain ⟨hkey, houtcome⟩ := Phase.ended.inj hphase
    obtain rfl := Option.some.inj hkey
    exact ⟨hlookup, houtcome⟩
  · rw [h] at hphase
    cases hphase
  · rw [h] at hphase
    cases hphase

/-- **An accepted token** was checked with a key of the cache, which the call has found fresh or fetched itself. -/
theorem accepted (hinv : Inv v s) (h : Accepts v s e i task key identity) :
    (v.step s e).cache.keys.lookup task.keyId = some key ∧
      v.validate task.call.jwt task.call.token task.algorithm key = .ok identity ∧
      (task.freshAt ≠ none ∨ ∃ g ∈ fetches (v.step s e).attempts, g.caller = i) := by
  obtain ⟨hbefore, hafter, hphase⟩ := h
  have hchange := change v s e
  generalize v.step s e = s' at hchange hafter
  cases hchange with
  | idle => exact absurd hphase (hbefore task hafter _ _)
  | begun call =>
    rcases getElem?_snoc_cases hafter with ⟨-, rfl⟩ | ⟨-, hold⟩
    · unfold KeycloakTokenVerifier.newTask at hphase
      split at hphase
      · cases hphase
      · cases hphase
    · exact absurd hphase (hbefore task hold _ _)
  | @skipped _ j task₀ force now hj hphase₀ hclock hskips =>
    rcases getElem?_set_cases hafter with ⟨rfl, rfl⟩ | ⟨-, hold⟩
    · obtain ⟨hlookup, hvalid⟩ := lookedUp_accepted rfl hphase
      refine ⟨hlookup, hvalid, ?_⟩
      rw [KeycloakTokenVerifier.skipped, lookedUp_freshAt]
      cases force with
      | false => exact .inl fun heq => by cases heq
      | true =>
        have hforced : task₀.phase.forced = true := by
          rcases hphase₀ with h | h
          · rw [h, Phase.forced]
          · rw [h, Phase.forced]
        exact (hinv.tasks i task₀ hj).anchored hforced
    · exact absurd hphase (hbefore task hold _ _)
  | @queued _ j task₀ force now hj hphase₀ hclock hskips =>
    rcases getElem?_set_cases hafter with ⟨rfl, rfl⟩ | ⟨-, hold⟩
    · cases hphase
    · exact absurd hphase (hbefore task hold _ _)
  | @started j task₀ force now hj hphase₀ hlock hclock hskips =>
    rcases getElem?_set_cases hafter with ⟨rfl, rfl⟩ | ⟨-, hold⟩
    · cases hphase
    · exact absurd hphase (hbefore task hold _ _)
  | @failed j server task₀ force now error hj hphase₀ hkeys =>
    rcases getElem?_set_cases hafter with ⟨rfl, rfl⟩ | ⟨-, hold⟩
    · cases hphase
    · exact absurd hphase (hbefore task hold _ _)
  | @fetched j server task₀ force now keys hj hphase₀ hkeys =>
    rcases getElem?_set_cases hafter with ⟨rfl, rfl⟩ | ⟨-, hold⟩
    · obtain ⟨hlookup, hvalid⟩ := lookedUp_accepted rfl hphase
      obtain ⟨-, older, hattempts⟩ := (hinv.tasks i task₀ hj).fetching force now hphase₀
      refine ⟨hlookup, hvalid, .inr ?_⟩
      rw [hattempts]
      exact ⟨_, List.mem_cons_self, rfl⟩
    · exact absurd hphase (hbefore task hold _ _)

theorem Attempt.fetch?_eq {a : Attempt} {f : Fetch} (h : f ∈ a.fetch?) : f.started = a.started ∧ f.caller = a.caller := by
  unfold Attempt.fetch? at h
  split at h
  · obtain rfl := Option.some.inj h
    exact ⟨rfl, rfl⟩
  · cases h

theorem fetches_sorted {attempts : List Attempt} (h : attempts.Pairwise fun b a => a.started ≤ b.started) :
    (fetches attempts).Pairwise fun g f => f.started ≤ g.started := by
  refine h.filterMap _ fun b a hle g hg f hf => ?_
  rw [(Attempt.fetch?_eq hg).1, (Attempt.fetch?_eq hf).1]
  exact hle

/-- if the attempts are in the order of the calls, the last fetch is of the last call that has fetched -/
theorem fetches_head_caller {attempts : List Attempt} (h : attempts.Pairwise fun b a => a.caller ≤ b.caller) {f g : Fetch}
    (hhead : (fetches attempts).head? = some f) (hg : g ∈ fetches attempts) : g.caller ≤ f.caller := by
  have hordered : (fetches attempts).Pairwise fun g f => f.caller ≤ g.caller := by
    refine h.filterMap _ fun b a hle g hg f hf => ?_
    rw [(Attempt.fetch?_eq hg).2, (Attempt.fetch?_eq hf).2]
    exact hle
  cases hfetches : fetches attempts with
  | nil =>
    rw [hfetches] at hg
    cases hg
  | cons f' fs =>
    rw [hfetches] at hhead hg hordered
    obtain rfl := Option.some.inj hhead
    rcases List.mem_cons.1 hg with rfl | hg
    · exact le_rfl
    · exact (List.pairwise_cons.1 hordered).1 g hg

/-- the key is one of the last fetch -/
theorem exists_fetch (hinv : Inv v s) {keyId : Str} (hkey : s.cache.keys.lookup keyId = some key) :
    ∃ f, (fetches s.attempts).head? = some f ∧ f.keys.lookup keyId = some key ∧
      ∀ g ∈ fetches s.attempts, g.started ≤ f.started := by
  have hsorted := fetches_sorted hinv.sorted
  rw [hinv.cache] at hkey
  cases hfetches : fetches s.attempts with
  | nil =>
    rw [hfetches] at hkey
    cases hkey
  | cons f fs =>
    rw [hfetches] at hkey hsorted
    refine ⟨f, rfl, hkey, List.forall_mem_cons.2 ⟨le_refl _, fun g hg => ?_⟩⟩
    exact (List.pairwise_cons.1 hsorted).1 g hg

/-! ## An expired cache -/

/-- at its last reading of the clock the cache has expired, or is empty -/
def Stale (s : State RsaKey) : Prop := s.cache.keys = [] ∨ s.cache.jwksExpiresAt ≤ s.clock

def Phase.isEnded : Phase → Bool
  | .ended _ _ => true
  | _ => false

theorem Phase.of_refresh {phase : Phase} {force : Bool} (h : phase = .refreshing force ∨ phase = .queued force) :
    phase.isEnded = false ∧ phase.forced = force := by
  rcases h with rfl | rfl
  · exact ⟨rfl, rfl⟩
  · exact ⟨rfl, rfl⟩

/-- in its first refresh -/
def Phase.first (phase : Phase) : Prop := phase.isEnded = false ∧ phase.forced = false

/-- in its first refresh, or its key id is unknown -/
def Unserved (keys : Keys) (task : Task RsaKey) : Prop :=
  task.phase.first ∨ task.phase.isEnded = false ∧ keys.lookup task.keyId = none

def Phase.Rejected (phase : Phase) : Prop := ∃ key error, phase = .ended key (.error error)

theorem Stale.not_skips (h : Stale s) {now : ℚ} (hclock : s.clock ≤ now) : ¬ v.Skips s.cache false now := by
  intro hskips
  rcases hskips with ⟨-, hne, hlt⟩ | ⟨hforce, -⟩
  · rcases h with hnil | hle
    · exact hne hnil
    · exact absurd (hle.trans hclock) (not_le.2 hlt)
  · cases hforce

/-- no fetch succeeds -/
def Fails (v : KeycloakTokenVerifier) (e : Event RsaKey) : Prop :=
  ∀ i server, e = .respond i server → ∃ error, v.fetchKeys server = .error error

/-- the cache is stale, and the calls in `P` are rejected, or cannot be served from it -/
structure Turned (P : ℕ → Prop) (s : State RsaKey) : Prop where
  stale : Stale s
  tasks : ∀ i task, s.tasks[i]? = some task → P i → task.phase.Rejected ∨ Unserved s.cache.keys task

variable {P : ℕ → Prop}

theorem newTask_turned (v : KeycloakTokenVerifier) (call : Call RsaKey) (keys : Keys) :
    (v.newTask call).phase.Rejected ∨ Unserved keys (v.newTask call) := by
  unfold KeycloakTokenVerifier.newTask
  split
  · exact .inr (.inl ⟨rfl, rfl⟩)
  · exact .inl ⟨_, _, rfl⟩

/-- a call that goes on cannot be served -/
theorem Turned.unserved (h : Turned P s) {j : ℕ} {task : Task RsaKey} (hj : s.tasks[j]? = some task)
    (hrunning : task.phase.isEnded = false) (hP : P j) : Unserved s.cache.keys task := by
  rcases h.tasks j task hj hP with ⟨key, error, hphase⟩ | hunserved
  · rw [hphase] at hrunning
    cases hrunning
  · exact hunserved

/-- a call in `P` that goes on -/
theorem Turned.set (h : Turned P s) {now : ℚ} (hclock : s.clock ≤ now) {j : ℕ} {task : Task RsaKey}
    (hturned : P j → task.phase.Rejected ∨ Unserved s.cache.keys task) (s' : State RsaKey) (hcache : s'.cache = s.cache)
    (hnow : s'.clock = now) (htasks : s'.tasks = s.tasks.set j task) : Turned P s' where
  stale := by
    rw [Stale, hcache, hnow]
    exact h.stale.imp_right fun hle => hle.trans hclock
  tasks i task' hi hP := by
    rw [htasks] at hi
    rw [hcache]
    rcases getElem?_set_cases hi with ⟨rfl, rfl⟩ | ⟨-, hi⟩
    · exact hturned hP
    · exact h.tasks i task' hi hP

/-- in a stale cache no first refresh finds anything, and a second one finds what the first has found -/
theorem Unserved.skipped {task : Task RsaKey} {force : Bool} {now : ℚ} (h : Unserved s.cache.keys task) (hstale : Stale s)
    (hforced : task.phase.forced = force) (hclock : s.clock ≤ now) (hskips : v.Skips s.cache force now) :
    (v.skipped s.cache force now task).phase.Rejected := by
  cases force with
  | false => exact absurd hskips (hstale.not_skips hclock)
  | true =>
    have hunknown : s.cache.keys.lookup task.keyId = none := by
      rcases h with ⟨-, hfirst⟩ | ⟨-, hnone⟩
      · rw [hforced] at hfirst
        cases hfirst
      · exact hnone
    rcases lookedUp_cases v s.cache true task with ⟨key, hkey, -⟩ | ⟨-, -, hended⟩ | ⟨-, hforce, -⟩
    · rw [hunknown] at hkey
      cases hkey
    · exact ⟨_, _, congrArg Task.phase hended⟩
    · cases hforce

theorem Turned.step (h : Turned P s) (hfails : Fails v e) : Turned P (v.step s e) := by
  have hchange := change v s e
  generalize v.step s e = s' at hchange
  cases hchange with
  | idle => exact h
  | begun call =>
    refine ⟨h.stale, fun i task hi hP => ?_⟩
    rcases getElem?_snoc_cases hi with ⟨-, rfl⟩ | ⟨-, hi⟩
    · exact newTask_turned v call _
    · exact h.tasks i task hi hP
  | @skipped _ j task force now hj hphase hclock hskips =>
    have hrefresh := Phase.of_refresh hphase
    refine h.set hclock (fun hP => .inl ?_) _ rfl rfl rfl
    exact (h.unserved hj hrefresh.1 hP).skipped h.stale hrefresh.2 hclock hskips
  | @queued _ j task force now hj hphase hclock hskips =>
    have hrefresh := Phase.of_refresh (.inl hphase)
    refine h.set hclock (fun hP => .inr ?_) _ rfl rfl rfl
    exact (h.unserved hj hrefresh.1 hP).imp (fun hfirst => ⟨rfl, hrefresh.2.symm.trans hfirst.2⟩) fun hnone => ⟨rfl, hnone.2⟩
  | @started j task force now hj hphase hlock hclock hskips =>
    have hrefresh := Phase.of_refresh (.inr hphase)
    refine h.set hclock (fun hP => .inr ?_) _ rfl rfl rfl
    exact (h.unserved hj hrefresh.1 hP).imp (fun hfirst => ⟨rfl, hrefresh.2.symm.trans hfirst.2⟩) fun hnone => ⟨rfl, hnone.2⟩
  | @failed j server task force now error hj hphase hkeys =>
    exact h.set (le_refl _) (fun _ => .inl ⟨_, _, rfl⟩) _ rfl rfl rfl
  | @fetched j server task force now keys hj hphase hkeys =>
    obtain ⟨error, herror⟩ := hfails j server rfl
    rw [hkeys] at herror
    cases herror

/-- While no fetch succeeds, a call that the stale cache cannot serve is not accepted. -/
theorem Turned.run (h : Turned P s) {events : List (Event RsaKey)} (hfails : ∀ e ∈ events, Fails v e) :
    Turned P (run v.step s events) := by
  have hrun : Run v.step (fun _ e => Fails v e) s (Lib.run v.step s events) :=
    run_of_admissible (.of_forall (fun e he _ => hfails e he) s)
  exact hrun.inv (fun _ _ he hs => hs.step he) h

/-- a refresh that fails leaves the cache as it is -/
theorem failed_cache (s : State RsaKey) (i : ℕ) {server : Server} {error : VerifyError}
    (h : v.fetchKeys server = .error error) :
    (v.step s (.respond i server)).cache = s.cache := by
  have hchange := change v s (.respond i server)
  generalize v.step s (.respond i server) = s' at hchange
  cases hchange with
  | fetched hi hphase hkeys =>
    rw [h] at hkeys
    cases hkeys
  | _ => rfl

/-! ## One call after another -/

/-- a call begins when all others have ended -/
def Alone (s : State RsaKey) (e : Event RsaKey) : Prop :=
  ∀ call, e = .begin call → ∀ (i : ℕ) (task : Task RsaKey), s.tasks[i]? = some task → task.phase.isEnded = true

/-- no two calls of the run overlap -/
def Sequential (v : KeycloakTokenVerifier) (clock : ℚ) (events : List (Event RsaKey)) : Prop :=
  Admissible v.step Alone (State.init RsaKey clock) events

/-- only the last call goes on, and its first lookup is not out of date -/
structure Single (s : State RsaKey) : Prop where
  last : ∀ (i : ℕ) (task : Task RsaKey), s.tasks[i]? = some task → task.phase.isEnded = false → i + 1 = s.tasks.length
  callers : ∀ a ∈ s.attempts, a.caller < s.tasks.length
  ordered : s.attempts.Pairwise fun b a => a.caller ≤ b.caller
  unknown : ∀ (i : ℕ) (task : Task RsaKey), s.tasks[i]? = some task → task.phase.forced = true →
    s.cache.keys.lookup task.keyId = none

theorem Single.init (clock : ℚ) : Single (State.init RsaKey clock) where
  last i task hi := by cases hi
  callers a ha := by cases ha
  ordered := .nil
  unknown i task hi := by cases hi

theorem Phase.running_of_forced {phase : Phase} (h : phase.forced = true) : phase.isEnded = false := by
  cases phase with
  | ended key outcome => cases h
  | _ => rfl

theorem lookedUp_forced {cache : Cache} {force : Bool} (h : (v.lookedUp cache force task).phase.forced = true) :
    cache.keys.lookup (v.lookedUp cache force task).keyId = none := by
  rcases lookedUp_cases v cache force task with ⟨key, -, heq⟩ | ⟨-, -, heq⟩ | ⟨hnone, -, heq⟩
  · rw [heq] at h
    cases h
  · rw [heq] at h
    cases h
  · rw [heq]
    exact hnone

/-- the last call goes on -/
theorem Single.set (h : Single s) (hi : s.tasks[i]? = some task) (hrunning : task.phase.isEnded = false) (s' : State RsaKey)
    {task' : Task RsaKey} (htasks : s'.tasks = s.tasks.set i task')
    (hcallers : s'.attempts.map (·.caller) = s.attempts.map (·.caller) ∨
      s'.attempts.map (·.caller) = i :: s.attempts.map (·.caller))
    (hunknown : task'.phase.forced = true → s'.cache.keys.lookup task'.keyId = none) : Single s' := by
  have hlast : i + 1 = s.tasks.length := h.last i task hi hrunning
  have hlength : s'.tasks.length = s.tasks.length := by rw [htasks, List.length_set]
  have hbound : ∀ j ∈ s.attempts.map (·.caller), j ≤ i := by
    intro j hj
    obtain ⟨a, ha, rfl⟩ := List.mem_map.1 hj
    have hlt := h.callers a ha
    omega
  have hordered : (s.attempts.map (·.caller)).Pairwise fun b a => a ≤ b := List.pairwise_map.2 h.ordered
  have hcallers' : (∀ j ∈ s'.attempts.map (·.caller), j ≤ i) ∧ (s'.attempts.map (·.caller)).Pairwise fun b a => a ≤ b := by
    rcases hcallers with heq | heq
    · rw [heq]
      exact ⟨hbound, hordered⟩
    · rw [heq]
      exact ⟨List.forall_mem_cons.2 ⟨le_refl i, hbound⟩, List.pairwise_cons.2 ⟨hbound, hordered⟩⟩
  refine ⟨fun j task₁ hj hphase => ?_, fun a ha => ?_, List.pairwise_map.1 hcallers'.2, fun j task₁ hj hforced => ?_⟩
  · rw [htasks] at hj
    rw [hlength]
    rcases getElem?_set_cases hj with ⟨rfl, -⟩ | ⟨-, hj⟩
    · exact hlast
    · exact h.last j task₁ hj hphase
  · have hle := hcallers'.1 a.caller (List.mem_map_of_mem ha)
    omega
  · rw [htasks] at hj
    rcases getElem?_set_cases hj with ⟨-, rfl⟩ | ⟨hne, hj⟩
    · exact hunknown hforced
    · -- another call that goes on would be the last one too
      have hother := h.last j task₁ hj (Phase.running_of_forced hforced)
      omega

theorem answered_callers (result : Except VerifyError Keys) (attempts : List Attempt) :
    (KeycloakTokenVerifier.answered result attempts).map (·.caller) = attempts.map (·.caller) := by
  cases attempts with
  | nil => rfl
  | cons a attempts => rfl

theorem Single.step (h : Single s) (halone : Alone s e) : Single (v.step s e) := by
  have hchange := change v s e
  generalize v.step s e = s' at hchange
  cases hchange with
  | idle => exact h
  | begun call =>
    have hended := halone call rfl
    refine ⟨fun j task hj hphase => ?_, fun a ha => ?_, h.ordered, fun j task hj hforced => ?_⟩
    · rw [List.length_append]
      rcases getElem?_snoc_cases hj with ⟨rfl, -⟩ | ⟨-, hj⟩
      · rfl
      · rw [hended j task hj] at hphase
        cases hphase
    · rw [List.length_append]
      exact (h.callers a ha).trans_le (Nat.le_add_right _ _)
    · rcases getElem?_snoc_cases hj with ⟨-, rfl⟩ | ⟨-, hj⟩
      · unfold KeycloakTokenVerifier.newTask at hforced
        split at hforced
        · cases hforced
        · cases hforced
      · exact h.unknown j task hj hforced
  | @skipped _ j task force now hj hphase hclock hskips =>
    exact h.set hj (Phase.of_refresh hphase).1 _ rfl (.inl rfl) lookedUp_forced
  | @queued _ j task force now hj hphase hclock hskips =>
    have hrefresh := Phase.of_refresh (.inl hphase)
    exact h.set hj hrefresh.1 _ rfl (.inl rfl) fun hforced => h.unknown j task hj (hrefresh.2.trans hforced)
  | @started j task force now hj hphase hlock hclock hskips =>
    have hrefresh := Phase.of_refresh (.inr hphase)
    exact h.set hj hrefresh.1 _ rfl (.inr rfl) fun hforced => h.unknown j task hj (hrefresh.2.trans hforced)
  | @failed j server task force now error hj hphase hkeys =>
    have hrunning : task.phase.isEnded = false := by
      rw [hphase]
      rfl
    exact h.set hj hrunning _ rfl (.inl (answered_callers _ _)) fun hforced => by cases hforced
  | @fetched j server task force now keys hj hphase hkeys =>
    have hrunning : task.phase.isEnded = false := by
      rw [hphase]
      rfl
    exact h.set hj hrunning _ rfl (.inl (answered_callers _ _)) lookedUp_forced

theorem Sequential.single {clock : ℚ} {events : List (Event RsaKey)} (h : Sequential v clock events) :
    Single (run v.step (State.init RsaKey clock) events) :=
  (run_of_admissible h).inv (fun _ _ halone hs => hs.step halone) (Single.init clock)

/-- the call that is accepted has been going on -/
theorem Accepts.running (h : Accepts v s e i task key identity) :
    (∃ old, s.tasks[i]? = some old ∧ old.phase.isEnded = false) ∧ (v.step s e).tasks.length = s.tasks.length := by
  obtain ⟨hbefore, hafter, hphase⟩ := h
  have hold : ∀ old, s.tasks[i]? = some old → old.phase.isEnded = false := by
    intro old hi
    cases hended : old.phase with
    | ended key outcome => exact absurd hended (hbefore old hi key outcome)
    | _ => rfl
  have hset : ∀ {j : ℕ} {task' : Task RsaKey}, (s.tasks.set j task')[i]? = some task →
      (∃ old, s.tasks[i]? = some old ∧ old.phase.isEnded = false) ∧ (s.tasks.set j task').length = s.tasks.length := by
    intro j task' hi
    have hlt : i < s.tasks.length := by
      have := (List.getElem?_eq_some_iff.1 hi).1
      rwa [List.length_set] at this
    exact ⟨⟨_, List.getElem?_eq_getElem hlt, hold _ (List.getElem?_eq_getElem hlt)⟩, List.length_set⟩
  have hchange := change v s e
  generalize v.step s e = s' at hchange hafter
  cases hchange with
  | idle => exact absurd hphase (hbefore task hafter _ _)
  | begun call =>
    rcases getElem?_snoc_cases hafter with ⟨-, rfl⟩ | ⟨-, hi⟩
    · rcases newTask_turned v call [] with ⟨key', error, hrejected⟩ | hrunning | hrunning
      · rw [hphase] at hrejected
        cases hrejected
      · rw [hphase] at hrunning
        cases hrunning.1
      · rw [hphase] at hrunning
        cases hrunning.1
    · exact absurd hphase (hbefore task hi _ _)
  | skipped => exact hset hafter
  | queued => exact hset hafter
  | started => exact hset hafter
  | failed => exact hset hafter
  | fetched => exact hset hafter

/-- after a fetch of the last call the last fetch is its own -/
theorem Accepts.caller_eq (hsingle : Single s) (h : Accepts v s e i task key identity) {f g : Fetch}
    (hhead : (fetches (v.step s e).attempts).head? = some f) (hg : g ∈ fetches (v.step s e).attempts)
    (hcaller : g.caller = i) :
    f.caller = i := by
  obtain ⟨⟨old, hold, hrunning⟩, hlength⟩ := h.running
  have halone : Alone s e := by
    intro call hbegin
    rw [hbegin, KeycloakTokenVerifier.step, List.length_append] at hlength
    exact absurd hlength (Nat.succ_ne_self _)
  have hsingle' : Single (v.step s e) := hsingle.step halone
  have hlast : i + 1 = s.tasks.length := hsingle.last i old hold hrunning
  obtain ⟨a, ha, hf, -⟩ := exists_attempt (List.mem_of_mem_head? hhead)
  have hlt := hsingle'.callers a ha
  have hle := fetches_head_caller hsingle'.ordered hhead hg
  omega

/-! ## Freshness -/

/-- the last fetch started less than the lifetime before the call last found the cache fresh, or is the call's own -/
def Timely (v : KeycloakTokenVerifier) (i : ℕ) (task : Task RsaKey) (f : Fetch) : Prop :=
  (∃ t, task.freshAt = some t ∧ t < f.started + v.jwksCacheTtlSeconds) ∨ f.caller = i

/-- **Freshness.** In every run, a token that is accepted was checked with a key of the last fetch that succeeded. If no two
calls overlap, that fetch started less than the lifetime before the reading at which the call last found the cache fresh, or is
the call's own; else it may also be one of another call after the call's own. While the cache is stale and no fetch succeeds,
a call that has not ended is rejected, or never ends, if no two calls overlap until then, or it is in its first refresh, or its
key id is unknown. A fetch that fails changes nothing of the cache. -/
theorem keys_fresh (v : KeycloakTokenVerifier) (clock : ℚ) (events : List (Event RsaKey)) :
    let s := run v.step (State.init RsaKey clock) events
    (∀ e i task key identity, Accepts v s e i task key identity →
      v.validate task.call.jwt task.call.token task.algorithm key = .ok identity ∧
      ∃ f, (fetches (v.step s e).attempts).head? = some f ∧ f.keys.lookup task.keyId = some key ∧
        (Sequential v clock events → Timely v i task f) ∧
        (Timely v i task f ∨ ∃ g ∈ fetches (v.step s e).attempts, g.caller = i ∧ g.started ≤ f.started)) ∧
    (Stale s → ∀ events', (∀ e ∈ events', Fails v e) → ∀ (i : ℕ) (task : Task RsaKey),
      (run v.step s events').tasks[i]? = some task →
      (∀ task, s.tasks[i]? = some task → task.phase.isEnded = false ∧
        (Sequential v clock events ∨ task.phase.first ∨ s.cache.keys.lookup task.keyId = none)) →
      ∀ key outcome, task.phase = .ended key outcome → ∃ error, outcome = .error error) ∧
    ∀ i server error, v.fetchKeys server = .error error → (v.step s (.respond i server)).cache = s.cache := by
  intro s
  have hinv : Inv v s := inv v clock events
  refine ⟨?_, ?_, fun i server error h => failed_cache s i h⟩
  · intro e i task key identity haccepts
    obtain ⟨hlookup, hvalid, hanchor⟩ := accepted hinv haccepts
    have hinv' := hinv.step e
    obtain ⟨f, hhead, hkey, hlast⟩ := exists_fetch hinv' hlookup
    have hfound : (Timely v i task f) ∨ ∃ g ∈ fetches (v.step s e).attempts, g.caller = i ∧ g.started ≤ f.started := by
      rcases hanchor with hfresh | ⟨g, hg, hcaller⟩
      · obtain ⟨t, ht⟩ := Option.ne_none_iff_exists'.1 hfresh
        obtain ⟨f', hf', hlt⟩ := (hinv'.tasks i task haccepts.after).fresh t ht
        obtain rfl : f = f' := Option.some.inj (hhead.symm.trans hf')
        exact .inl (.inl ⟨t, ht, hlt⟩)
      · exact .inr ⟨g, hg, hcaller, hlast g hg⟩
    refine ⟨hvalid, f, hhead, hkey, fun hsequential => ?_, hfound⟩
    rcases hfound with htimely | ⟨g, hg, hcaller, -⟩
    · exact htimely
    · exact .inr (haccepts.caller_eq hsequential.single hhead hg hcaller)
  · intro hstale events' hfails i task hi hearlier key outcome hphase
    have hturned : Turned (fun j => j = i) s := by
      refine ⟨hstale, fun j task' hj heq => .inr ?_⟩
      subst heq
      obtain ⟨hrunning, hcase⟩ := hearlier task' hj
      rcases hcase with hsequential | hfirst | hnone
      · cases hforced : task'.phase.forced with
        | true => exact .inr ⟨hrunning, hsequential.single.unknown j task' hj hforced⟩
        | false => exact .inl ⟨hrunning, hforced⟩
      · exact .inl hfirst
      · exact .inr ⟨hrunning, hnone⟩
    rcases (hturned.run hfails).tasks i task hi rfl with ⟨key', error, hrejected⟩ | hfirst | hunknown
    · rw [hphase] at hrejected
      exact ⟨error, (Phase.ended.inj hrejected).2⟩
    · rw [hphase] at hfirst
      cases hfirst.1
    · rw [hphase] at hunknown
      cases hunknown.1

/-! ## Runs -/

/-- with which key which identity has been accepted -/
def Phase.acceptance : Phase → Option (Dict × AuthenticatedIdentity)
  | .ended (some key) (.ok identity) => some (key, identity)
  | _ => none

theorem Phase.eq_of_acceptance {phase : Phase} (h : phase.acceptance = some (key, identity)) :
    phase = .ended (some key) (.ok identity) := by
  unfold Phase.acceptance at h
  split at h
  · cases h
    rfl
  · cases h

theorem exists_accepts (hbefore : (s.tasks[i]?.any fun task => !task.phase.isEnded) = true)
    (hafter : ((v.step s e).tasks[i]?.any fun task => task.phase.acceptance.isSome) = true) :
    ∃ task key identity, Accepts v s e i task key identity := by
  obtain ⟨old, hold, hrunning⟩ := (Option.any_eq_true _ _).1 hbefore
  obtain ⟨task, htask, hsome⟩ := (Option.any_eq_true _ _).1 hafter
  obtain ⟨⟨key, identity⟩, haccepted⟩ := Option.isSome_iff_exists.1 hsome
  refine ⟨task, key, identity, fun task' htask' key' outcome hended => ?_, htask, Phase.eq_of_acceptance haccepted⟩
  obtain rfl := Option.some.inj (hold.symm.trans htask')
  rw [hended] at hrunning
  cases hrunning

theorem Accepts.not_rejected (h : Accepts v s e i task key identity) :
    ¬ ∀ (i : ℕ) (task : Task RsaKey), (run v.step s [e]).tasks[i]? = some task →
      (∀ task, s.tasks[i]? = some task → task.phase.isEnded = false) →
      ∀ key outcome, task.phase = .ended key outcome → ∃ error, outcome = .error error := by
  intro hall
  obtain ⟨⟨old, hold, hrunning⟩, -⟩ := h.running
  obtain ⟨error, herror⟩ := hall i task h.after (fun old' hold' => by
    obtain rfl := Option.some.inj (hold.symm.trans hold')
    exact hrunning) _ _ h.phase
  cases herror

/-- a verifier whose cache lives for a second, with a cooldown -/
def shortVerifier (cooldown : ℕ) : KeycloakTokenVerifier :=
  { realmVerifier with
    jwksCacheTtlSeconds := 1, jwksRefreshCooldownSeconds := cooldown
    jwksCacheTtlSeconds_pos := by decide, jwksRefreshCooldownSeconds_nonneg := Nat.cast_nonneg cooldown }

/-- call 0 fetches for four seconds, without finding its key; call 1, which has waited, fetches again -/
def overtaken : List (Event (Str × Str)) :=
  [.begin (realmCall (str "k2")), .begin (realmCall (str "k2")), .read 0 1, .acquire 0 1, .read 1 2,
    .respond 0 (realmKeys [str "k1"]), .read 0 5, .acquire 1 5, .respond 1 (realmKeys [str "k2"])]

/-- these keys have expired when call 2 begins -/
def outlasted : List (Event (Str × Str)) := overtaken ++ [.begin (realmCall (str "k2")), .read 2 6]

/-- Call 0 is then accepted with the key that call 1 has fetched; and, with a longer cooldown, still when this key has expired
and nothing more is fetched. -/
theorem keys_overtaken :
    (¬ ∀ (v : KeycloakTokenVerifier) (clock : ℚ) (events : List (Event (Str × Str))) (e : Event (Str × Str)) (i : ℕ)
      (task : Task (Str × Str)) (key : Dict) (identity : AuthenticatedIdentity),
      let s := run v.step (State.init (Str × Str) clock) events
      Accepts v s e i task key identity →
        ∃ f, (fetches (v.step s e).attempts).head? = some f ∧ f.keys.lookup task.keyId = some key ∧ Timely v i task f) ∧
    ¬ ∀ (v : KeycloakTokenVerifier) (clock : ℚ) (events events' : List (Event (Str × Str))),
      let s := run v.step (State.init (Str × Str) clock) events
      s.cache.jwksExpiresAt ≤ s.clock → (∀ e ∈ events', Fails v e) → ∀ (i : ℕ) (task : Task (Str × Str)),
        (run v.step s events').tasks[i]? = some task → (∀ task, s.tasks[i]? = some task → task.phase.isEnded = false) →
        ∀ key outcome, task.phase = .ended key outcome → ∃ error, outcome = .error error := by
  refine ⟨fun hall => ?_, fun hall => ?_⟩
  · let s : State (Str × Str) := run (shortVerifier 1).step (State.init (Str × Str) 1) overtaken
    let s' : State (Str × Str) := (shortVerifier 1).step s (.acquire 0 (11 / 2))
    obtain ⟨task, key, identity, haccepts⟩ : ∃ task key identity,
        Accepts (shortVerifier 1) s (.acquire 0 (11 / 2)) 0 task key identity :=
      exists_accepts (by decide +kernel) (by decide +kernel)
    have hcaller : ((fetches s'.attempts).head?.map (·.caller)) = some 1 := by decide +kernel
    have hfreshAt : (s'.tasks[0]?.map (·.freshAt)) = some none := by decide +kernel
    obtain ⟨f, hhead, -, hanchor⟩ := hall (shortVerifier 1) 1 overtaken _ 0 task key identity haccepts
    have htask : s'.tasks[0]? = some task := haccepts.after
    rcases hanchor with ⟨t, ht, -⟩ | hown
    · rw [htask, Option.map_some, ht] at hfreshAt
      cases hfreshAt
    · have hhead' : (fetches s'.attempts).head? = some f := hhead
      rw [hhead', Option.map_some, hown] at hcaller
      cases hcaller
  · obtain ⟨task, key, identity, haccepts⟩ : ∃ task key identity,
        Accepts (shortVerifier 2) (run (shortVerifier 2).step (State.init (Str × Str) 1) outlasted) (.acquire 0 (13 / 2)) 0
          task key identity :=
      exists_accepts (by decide +kernel) (by decide +kernel)
    refine haccepts.not_rejected (hall (shortVerifier 2) 1 outlasted [.acquire 0 (13 / 2)] (by decide +kernel) ?_)
    intro e he i server heq
    rw [List.mem_singleton.1 he] at heq
    cases heq

/-- a call that has begun to fetch -/
def realmFetching : List (Event (Str × Str)) := [.begin (realmCall (str "k1")), .read 0 100, .acquire 0 100]

theorem realmFetching_sequential : Sequential realmVerifier 100 realmFetching :=
  ⟨fun _ _ i task hi => (by cases hi), fun _ h => (by cases h), fun _ h => (by cases h), trivial⟩

/-- the keys are fetched, and the token is accepted with one of them; with the server down it is not -/
theorem keys_fresh_realm :
    (∃ task key identity f, Accepts realmVerifier (run realmVerifier.step (State.init (Str × Str) 100) realmFetching)
        (.respond 0 (realmKeys [str "k1"])) 0 task key identity ∧
      realmVerifier.validate task.call.jwt task.call.token task.algorithm key = .ok identity ∧
      f.keys.lookup task.keyId = some key ∧ Timely realmVerifier 0 task f) ∧
    ∀ task key outcome,
      (run realmVerifier.step (run realmVerifier.step (State.init (Str × Str) 100) realmFetching)
        [.respond 0 downServer]).tasks[0]? = some task →
      task.phase = .ended key outcome → ∃ error, outcome = .error error := by
  refine ⟨?_, ?_⟩
  · obtain ⟨task, key, identity, haccepts⟩ : ∃ task key identity, Accepts realmVerifier
        (run realmVerifier.step (State.init (Str × Str) 100) realmFetching)
        (.respond 0 (realmKeys [str "k1"])) 0 task key identity := exists_accepts (by decide +kernel) (by decide +kernel)
    obtain ⟨hvalid, f, -, hkey, htimely, -⟩ :=
      (keys_fresh realmVerifier 100 realmFetching).1 _ 0 task key identity haccepts
    exact ⟨task, key, identity, f, haccepts, hvalid, hkey, htimely realmFetching_sequential⟩
  · intro task key outcome htask hphase
    refine (keys_fresh realmVerifier 100 realmFetching).2.1 (.inl (by decide +kernel)) _ ?_ 0 task htask ?_ key outcome hphase
    · intro e he i server heq
      rw [List.mem_singleton.1 he] at heq
      obtain ⟨rfl, rfl⟩ := Event.respond.inj heq
      exact ⟨_, rfl⟩
    · intro old hold
      have hrunning : ((run realmVerifier.step (State.init (Str × Str) 100) realmFetching).tasks[0]?.all
          fun task => !task.phase.isEnded) = true := by decide +kernel
      rw [hold, Option.all_some, Bool.not_eq_true'] at hrunning
      exact ⟨hrunning, .inl realmFetching_sequential⟩

end AtlasRag.Platform.Auth
