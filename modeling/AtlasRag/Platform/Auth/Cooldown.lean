/-
The cooldown of forced fetches. A forced fetch asks how long ago the last refresh was; a fetch that failed is no refresh, and
one that was started at the reading 0 counts as none.

Results:
- `Spaced.step`: what one event keeps;
- `forced_fetches_spaced`: runs in which no forced fetch follows such an attempt;
- `failed_fetch_forgotten`: one in which it does.
-/
import AtlasRag.Platform.Auth.KeyCache

namespace AtlasRag.Platform.Auth

open AtlasRag.Lib

variable {RsaKey : Type}

/-- the attempt has succeeded, and `_last_refresh_at` tells so -/
def Attempt.recorded (a : Attempt) : Bool :=
  match a.result with
  | some (.ok _) => a.started ≠ 0
  | _ => false

/-- the event starts a forced fetch -/
def startsForced (v : KeycloakTokenVerifier) (s : State RsaKey) : Event RsaKey → Bool
  | .acquire i now =>
    match s.tasks[i]?, s.lock with
    | some ⟨_, _, _, .queued true, _⟩, none => s.clock ≤ now ∧ ¬ v.Skips s.cache true now
    | _, _ => false
  | _ => false

/-- a forced fetch follows an attempt that is recorded, or none -/
def Counted (v : KeycloakTokenVerifier) (s : State RsaKey) (e : Event RsaKey) : Prop :=
  startsForced v s e = true → s.attempts.head?.all (·.recorded) = true

instance (v : KeycloakTokenVerifier) (s : State RsaKey) (e : Event RsaKey) : Decidable (Counted v s e) :=
  inferInstanceAs (Decidable (_ → _))

/-- each forced fetch starts a cooldown after all attempts before it -/
def Spaced (v : KeycloakTokenVerifier) (attempts : List Attempt) : Prop :=
  attempts.Pairwise fun b a => b.forced = true → a.started + v.jwksRefreshCooldownSeconds ≤ b.started

instance (v : KeycloakTokenVerifier) (attempts : List Attempt) : Decidable (Spaced v attempts) :=
  inferInstanceAs (Decidable (List.Pairwise _ _))

variable {v : KeycloakTokenVerifier} {s : State RsaKey} {e : Event RsaKey}

/-- a result does not change when the attempt was made -/
theorem Spaced.answered {attempts : List Attempt} (h : Spaced v attempts) (result : Except VerifyError Keys) :
    Spaced v (KeycloakTokenVerifier.answered result attempts) := by
  cases attempts with
  | nil => exact h
  | cons a attempts => exact List.pairwise_cons.2 (List.pairwise_cons.1 h)

/-- what the check under the lock says, where the last attempt is recorded -/
theorem spaced_of_recorded (hinv : Inv v s) {now : ℚ} (hskips : ¬ v.Skips s.cache true now)
    (hhead : s.attempts.head?.all (·.recorded) = true) {a : Attempt} (ha : a ∈ s.attempts) :
    a.started + v.jwksRefreshCooldownSeconds ≤ now := by
  obtain ⟨hcache, -, hsorted, -⟩ := hinv
  cases hattempts : s.attempts with
  | nil =>
    rw [hattempts] at ha
    cases ha
  | cons last attempts =>
    rw [hattempts] at hcache hsorted hhead ha
    have hlast : ∃ keys, last.result = some (.ok keys) ∧ last.started ≠ 0 := by
      have hrecorded : last.recorded = true := hhead
      unfold Attempt.recorded at hrecorded
      split at hrecorded
      · next keys hkeys => exact ⟨keys, hkeys, of_decide_eq_true hrecorded⟩
      · cases hrecorded
    obtain ⟨keys, hresult, hne⟩ := hlast
    have hrefreshed : s.cache = v.refreshed keys last.started := by
      have hfetch : last.fetch? = some ⟨last.caller, last.started, keys⟩ := by simp only [Attempt.fetch?, hresult]
      rw [hcache, fetches, List.filterMap_cons_some hfetch, cacheOf]
    have hcooldown : last.started + v.jwksRefreshCooldownSeconds ≤ now := by
      by_contra hlt
      refine hskips (.inr ⟨rfl, ?_, ?_⟩)
      · rw [hrefreshed]
        exact hne
      · rw [hrefreshed]
        show now - last.started < _
        linarith
    rcases List.mem_cons.1 ha with rfl | ha
    · exact hcooldown
    · have hle := (List.pairwise_cons.1 hsorted).1 a ha
      linarith

/-- An event that starts no forced fetch after an unrecorded attempt keeps the attempts spaced. -/
theorem Spaced.step (h : Spaced v s.attempts) (hinv : Inv v s) (hcounted : Counted v s e) :
    Spaced v (v.step s e).attempts := by
  have hchange := change v s e
  generalize v.step s e = s' at hchange
  cases hchange with
  | idle => exact h
  | begun call => exact h
  | skipped hi hphase hclock hskips => exact h
  | queued hi hphase hclock hskips => exact h
  | @started i task force now hi hphase hlock hclock hskips =>
    refine List.pairwise_cons.2 ⟨fun a ha hforced => ?_, h⟩
    obtain rfl : force = true := hforced
    have hstarts : startsForced v s (.acquire i now) = true := by
      obtain ⟨call, algorithm, keyId, phase, freshAt⟩ := task
      subst hphase
      simp only [startsForced, hi, hlock]
      exact decide_eq_true ⟨hclock, hskips⟩
    exact spaced_of_recorded hinv hskips (hcounted hstarts) ha
  | failed hi hphase hkeys => exact h.answered _
  | fetched hi hphase hkeys => exact h.answered _

/-- **Forced fetches.** In every run in which each fetch that is forced by an unknown key id directly follows an attempt that
succeeded and did not start at the reading 0, or none, it starts a cooldown after all attempts before it. -/
theorem forced_fetches_spaced (v : KeycloakTokenVerifier) (clock : ℚ) (events : List (Event RsaKey))
    (h : Admissible v.step (Counted v) (State.init RsaKey clock) events) :
    Spaced v (run v.step (State.init RsaKey clock) events).attempts := by
  have hrun : Inv v (run v.step (State.init RsaKey clock) events) ∧
      Spaced v (run v.step (State.init RsaKey clock) events).attempts :=
    (run_of_admissible h).inv (I := fun s => Inv v s ∧ Spaced v s.attempts)
      (fun s e he hs => ⟨hs.1.step e, hs.2.step hs.1 he⟩) ⟨Inv.init v clock, .nil⟩
  exact hrun.2

/-! ## Runs -/

/-- a call with a token signed under the key id -/
def realmCall (keyId : Str) : Call (Str × Str) := ⟨str "token", realmJwt keyId⟩

def realmKeys (ids : List Str) : Server := realmServer (str "https://id.example/jwks") (ids.map rsaKey)

def downServer : Server := ⟨fun _ => .error .httpError, fun _ => .error .httpError⟩

/-- an unknown key id, a hundred seconds after the first fetch -/
def knownThenUnknown (answer : Server) : List (Event (Str × Str)) :=
  [.begin (realmCall (str "k1")), .read 0 100, .acquire 0 100, .respond 0 (realmKeys [str "k1"]),
    .begin (realmCall (str "k2")), .read 1 200, .read 1 200, .acquire 1 200, .respond 1 answer]

/-- the key has been rotated -/
theorem forced_fetches_spaced_rotation :
    ((run realmVerifier.step (State.init (Str × Str) 100) (knownThenUnknown (realmKeys [str "k2"]))).attempts.map
      fun a => (a.forced, a.started)) = [(true, 200), (false, 100)] ∧
    Spaced realmVerifier (run realmVerifier.step (State.init (Str × Str) 100) (knownThenUnknown (realmKeys [str "k2"]))).attempts :=
  ⟨by decide +kernel, forced_fetches_spaced realmVerifier 100 _ (by decide +kernel)⟩

/-- the forced fetch at 200 fails; the next unknown key id forces another at 201 -/
theorem failed_fetch_forgotten : ¬ ∀ (v : KeycloakTokenVerifier) (clock : ℚ) (events : List (Event (Str × Str))),
    Spaced v (run v.step (State.init (Str × Str) clock) events).attempts := by
  intro hall
  have hspaced := hall realmVerifier 100 (knownThenUnknown downServer ++
    [.begin (realmCall (str "k3")), .read 2 201, .read 2 201, .acquire 2 201])
  revert hspaced
  decide +kernel

end AtlasRag.Platform.Auth
