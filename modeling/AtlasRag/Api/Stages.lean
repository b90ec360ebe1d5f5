/-
The stages of a call of the gateway.

What a run establishes of a call is a family of `Facts`, in the order of the dependencies of a route: it was received
with a token, its identity has a principal, this acts for others, one of these holds the permission. The stages say which
facts stand behind the phase of a call, the program of its session and what its service has committed. A step of any
call keeps every call at a stage, if it allows the facts to be carried on.

Results:
- `stage_next`: the next action of the session of a call;
- `holds_step`: every call stays at a stage;
- `Stage.commits`: which facts stand behind a commit.
-/
import AtlasRag.Api.Gateway

namespace AtlasRag.Api

open AtlasRag.Lib AtlasRag.Lib.LockMode AtlasRag.Platform AtlasRag.Identity
open AtlasRag.Identity.Provisioning (AuthenticatedIdentity)

/-- the principal, the route and the reply, if the answer is that of the service of the call `c` -/
def Answer.service (c : ℕ) : Answer → Option (Uuid × Endpoint × Reply)
  | .served k x e r => if k = c then some (x, e, r) else none
  | .resolved _ => none

def servedBy (c : ℕ) (answers : List Answer) : List (Uuid × Endpoint × Reply) := answers.filterMap (Answer.service c)

/-! ## Facts -/

/-- what can be said of a call, its route and its caller in a state -/
structure Facts where
  received : ℕ → Endpoint → AuthenticatedIdentity → St → Prop
  identified : ℕ → Endpoint → AuthenticatedIdentity → Uuid → St → Prop
  actsFor : ℕ → Endpoint → AuthenticatedIdentity → Uuid → Finset Uuid → St → Prop
  permitted : ℕ → Endpoint → AuthenticatedIdentity → Uuid → St → Prop
  /-- the service has found nothing to change -/
  unchanged : ℕ → Endpoint → St → Prop

namespace Facts

variable (F : Facts)

/-- each fact follows from the one before, and from what is read then -/
structure Closed (s : St) : Prop where
  identified : ∀ {c : ℕ} {e : Endpoint} {identity : AuthenticatedIdentity} {x : Uuid}, F.received c e identity s →
    s.db.provisioning.Linked identity.key ⟨x, true, none⟩ → F.identified c e identity x s
  actsFor : ∀ {c : ℕ} {e : Endpoint} {identity : AuthenticatedIdentity} {x : Uuid} {ids : Finset Uuid},
    F.identified c e identity x s → effectivePrincipalIds s.db.iam x = some ids → F.actsFor c e identity x ids s
  permitted : ∀ {c : ℕ} {e : Endpoint} {identity : AuthenticatedIdentity} {x : Uuid} {ids : Finset Uuid} {P : Permission}
    {now : Time}, F.actsFor c e identity x ids s → e.permission = some P →
    s.db.iam.hasPermission ids P.value now = true → servedBy c s.committed = [] → F.permitted c e identity x s

/-- the facts hold on -/
structure Later (s s' : St) : Prop where
  received : ∀ {c : ℕ} {e : Endpoint} {identity : AuthenticatedIdentity}, F.received c e identity s →
    F.received c e identity s'
  identified : ∀ {c : ℕ} {e : Endpoint} {identity : AuthenticatedIdentity} {x : Uuid}, F.identified c e identity x s →
    F.identified c e identity x s'
  actsFor : ∀ {c : ℕ} {e : Endpoint} {identity : AuthenticatedIdentity} {x : Uuid} {ids : Finset Uuid},
    F.actsFor c e identity x ids s → F.actsFor c e identity x ids s'
  permitted : ∀ {c : ℕ} {e : Endpoint} {identity : AuthenticatedIdentity} {x : Uuid}, F.permitted c e identity x s →
    F.permitted c e identity x s'
  unchanged : ∀ {c : ℕ} {e : Endpoint}, F.unchanged c e s → F.unchanged c e s'

/-- what is to be shown of a step -/
structure Allows (settings : Settings) (s : St) (o : Op) : Prop where
  closed : F.Closed s
  closed' : F.Closed (gatewayStep settings s o)
  later : F.Later s (gatewayStep settings s o)
  receive : ∀ c e verifier authorization principalId identifierId now identity,
    o = .receive c e verifier authorization principalId identifierId now → s.calls c = none →
    getAuthenticatedIdentity settings verifier authorization = .ok identity →
    F.received c e identity (gatewayStep settings s o)
  unchanged : ∀ {e : Endpoint} {identity : AuthenticatedIdentity} {x : Uuid} (c : ℕ), o = .exec c →
    F.permitted c e identity x s → ending s.base (.exec c) = some (.served c x e (.identity .unchanged)) →
    F.unchanged c e (gatewayStep settings s o)

end Facts

/-! ## The stages of a call -/

section Stages

variable {settings : Settings} {F : Facts} {c k : ℕ} {s s' : St} {call : Option Call} {session : Option Tx}
  {l : List (Uuid × Endpoint × Reply)}

/-- the services of the route have committed with these replies, for `x` -/
structure Served (x : Uuid) (e : Endpoint) (replies : List Reply) (l : List (Uuid × Endpoint × Reply)) : Prop where
  eq : l = replies.map fun r => (x, e, r)
  done : ∀ r ∈ replies, ¬ r.Raised
  le : replies.length ≤ e.services

theorem Served.nil (x : Uuid) (e : Endpoint) : Served x e [] [] := ⟨rfl, fun _ hr => (by cases hr), Nat.zero_le _⟩

/-- one more -/
theorem Served.snoc {x : Uuid} {e : Endpoint} {replies : List Reply} {r : Reply} (h : Served x e replies l)
    (hlt : replies.length < e.services) (hr : ¬ r.Raised) : Served x e (replies ++ [r]) (l ++ [(x, e, r)]) where
  eq := by rw [h.eq, List.map_append, List.map_singleton]
  done r' hr' := by
    rcases List.mem_append.1 hr' with hr' | hr'
    · exact h.done r' hr'
    · rw [List.mem_singleton.1 hr']
      exact hr
  le := by
    rw [List.length_append, List.length_singleton]
    exact hlt

/-- the response to a call whose services have committed `n` times -/
def Endpoint.Answers (e : Endpoint) (n : ℕ) (response : Response) : Prop :=
  n < e.services ∧ 400 ≤ response.status ∨
    n = e.services ∧ (response.status = e.statusCode ∨ response = internalServerError)

/-- 500 may answer any call -/
theorem Served.failed {x : Uuid} {e : Endpoint} {replies : List Reply} (h : Served x e replies l) :
    e.Answers replies.length internalServerError := by
  rcases Nat.lt_or_eq_of_le h.le with hlt | heq
  · exact .inl ⟨hlt, by decide⟩
  · exact .inr ⟨heq, .inr rfl⟩

variable (F c s) in
/-- a call, the program of its session, and what its services have committed -/
inductive Stage : Option Call → Option Tx → List (Uuid × Endpoint × Reply) → Prop where
  | absent : Stage none none []
  | resolving {e : Endpoint} {login : Provisioning.Call} {rs : List Provisioning.Outcome} {session : Option Tx}
      (h : F.received c e login.identity s)
      (hp : ∀ p, session = some p → ∃ p₀, p = resolveTxn p₀ ∧
        Finds login.identity.key (fun x => F.identified c e login.identity x s) p₀) :
      Stage (some ⟨e, .resolving login rs⟩) session []
  | authorizing {e : Endpoint} {identity : AuthenticatedIdentity} {x : Uuid}
      (h : F.identified c e identity x s) : Stage (some ⟨e, .authorizing identity x⟩) none []
  | permitting {e : Endpoint} {identity : AuthenticatedIdentity} {x : Uuid} {ids : Finset Uuid}
      (h : F.actsFor c e identity x ids s) : Stage (some ⟨e, .permitting identity x ids⟩) none []
  | serving {e : Endpoint} {identity : AuthenticatedIdentity} {x : Uuid} {replies : List Reply} {session : Option Tx}
      {l : List (Uuid × Endpoint × Reply)} (h : F.permitted c e identity x s) (hs : Served x e replies l)
      (hlt : replies.length < e.services) (hp : ∀ p, session = some p → Serves c x e p) :
      Stage (some ⟨e, .serving identity x replies⟩) session l
  /-- the call has failed in a transaction that is still open -/
  | failedResolving {e : Endpoint} {identity : AuthenticatedIdentity} {p : Provisioning.Tx}
      (h : F.received c e identity s) : Stage (some ⟨e, .answered internalServerError⟩) (some (resolveTxn p)) []
  | failedServing {e : Endpoint} {identity : AuthenticatedIdentity} {x : Uuid} {replies : List Reply} {p : Tx}
      {l : List (Uuid × Endpoint × Reply)} (h : F.permitted c e identity x s) (hs : Served x e replies l)
      (hlt : replies.length < e.services) (hp : Serves c x e p) :
      Stage (some ⟨e, .answered internalServerError⟩) (some p) l
  | refused {e : Endpoint} {r : Response} (hr : 400 ≤ r.status ∨ e.permission = none) :
      Stage (some ⟨e, .answered r⟩) none []
  | unchanged {e : Endpoint} {r : Response} (h : F.unchanged c e s) (hone : e.services = 1) :
      Stage (some ⟨e, .answered r⟩) none []
  | served {e : Endpoint} {identity : AuthenticatedIdentity} {x : Uuid} {replies : List Reply} {response : Response}
      {l : List (Uuid × Endpoint × Reply)} (h : F.permitted c e identity x s) (hs : Served x e replies l)
      (hresponse : e.Answers replies.length response) : Stage (some ⟨e, .answered response⟩) none l

theorem Stage.later (h : Stage F c s call session l) (hs : F.Later s s') :
    Stage F c s' call session l := by
  cases h with
  | absent => exact .absent
  | resolving h hp =>
    refine .resolving (hs.received h) fun p hsession => ?_
    obtain ⟨p₀, hp₀, hfinds⟩ := hp p hsession
    exact ⟨p₀, hp₀, hfinds.mono fun x hx => hs.identified hx⟩
  | authorizing h => exact .authorizing (hs.identified h)
  | permitting h => exact .permitting (hs.actsFor h)
  | serving h hserved hlt hp => exact .serving (hs.permitted h) hserved hlt hp
  | failedResolving h => exact .failedResolving (hs.received h)
  | failedServing h hserved hlt hp => exact .failedServing (hs.permitted h) hserved hlt hp
  | refused hr => exact .refused hr
  | unchanged h hone => exact .unchanged (hs.unchanged h) hone
  | served h hserved hresponse => exact .served (hs.permitted h) hserved hresponse

/-- the answers of the session of the call `c` -/
def Answer.Own (c : ℕ) : Answer → Prop
  | .served k .. => k = c
  | .resolved _ => True

theorem Answer.Own.service {a : Answer} (h : a.Own c) (hk : k ≠ c) : a.service k = none := by
  cases a with
  | resolved o => rfl
  | served j x e r =>
    obtain rfl : j = c := h
    exact if_neg hk.symm

theorem own_resolveTxn (p₀ : Provisioning.Tx) : Outcomes (fun _ a => a.Own c) (fun a => a.Own c) (resolveTxn p₀) := by
  induction p₀ with
  | stmt rows k ih => exact fun d => ih _
  | commit w o => trivial
  | rollback o => trivial

theorem Serves.own {x : Uuid} {e : Endpoint} {p : Tx} (h : Serves c x e p) :
    Outcomes (fun _ a => a.Own c) (fun a => a.Own c) p := by
  refine h.outcomes.mono (fun w a ha => ?_) fun a ha => ?_
  · obtain ⟨r, rfl, -⟩ := ha
    rfl
  · obtain ⟨r, rfl, -⟩ := ha
    rfl

theorem Stage.own {p : Tx} (h : Stage F c s call (some p) l) :
    Outcomes (fun _ a => a.Own c) (fun a => a.Own c) p := by
  generalize hsession : some p = session at h
  cases h with
  | resolving h hp =>
    obtain ⟨p₀, rfl, -⟩ := hp p hsession.symm
    exact own_resolveTxn p₀
  | serving h hs hlt hp => exact (hp p hsession.symm).own
  | failedResolving =>
    rw [Option.some.inj hsession]
    exact own_resolveTxn _
  | failedServing h hs hlt hp =>
    rw [Option.some.inj hsession]
    exact hp.own
  | _ => cases hsession

/-! ## What the steps do -/

theorem resolutionResponse_error (error : Provisioning.ResolutionError) : 400 ≤ (resolutionResponse error).status := by
  cases error <;> simp [resolutionResponse]

/-- after a transaction of `resolve` -/
theorem stage_resolved {e : Endpoint} {login : Provisioning.Call} {rs : List Provisioning.Outcome}
    {o : Provisioning.Outcome} (hreceived : F.received c e login.identity s)
    (hfound : ∀ x, o = .returned x → F.identified c e login.identity x s) :
    Stage F c s (some ⟨e, Phase.next e (.resolving login rs) (.resolved o)⟩) none [] := by
  cases o with
  | absent => exact .resolving hreceived (by simp)
  | alreadyProvisioned => exact .resolving hreceived (by simp)
  | returned x =>
    simp only [Phase.next]
    split_ifs with hperm
    · exact .refused (.inr hperm)
    · exact .authorizing (hfound x rfl)
  | raised error => exact .refused (.inl (resolutionResponse_error error))

section Served

variable {e : Endpoint} {identity : AuthenticatedIdentity} {x : Uuid} {replies : List Reply} {r : Reply}
  (hpermitted : F.permitted c e identity x s) (hs : Served x e replies l) (hlt : replies.length < e.services)
include hpermitted hs hlt

/-- after a service that has committed -/
theorem stage_served (hr : ¬ r.Raised) :
    Stage F c s (some ⟨e, Phase.next e (.serving identity x replies) (.served c x e r)⟩) none
      (l ++ [Answer.served c x e r].filterMap (Answer.service c)) := by
  have hserved : [Answer.served c x e r].filterMap (Answer.service c) = [(x, e, r)] := by simp [Answer.service]
  have hlength : (replies ++ [r]).length = replies.length + 1 := List.length_append
  rw [hserved, Phase.next]
  split_ifs with hmore
  · exact .serving hpermitted (hs.snoc hlt hr) (hlength ▸ hmore.2) fun p hp => by cases hp
  · refine .served hpermitted (hs.snoc hlt hr) (.inr ⟨?_, .inl ?_⟩)
    · have hnot : ¬ replies.length + 1 < e.services := fun hlt' => hmore ⟨hr, hlt'⟩
      omega
    · rw [Endpoint.response, not_not.1 hr, Option.getD_none]

/-- after one that has raised, or has found nothing to change -/
theorem stage_rolledBack (hr : r.Raised ∨ r = .identity .unchanged ∧ e.services = 1)
    (hunchanged : r = .identity .unchanged → F.unchanged c e s) :
    Stage F c s (some ⟨e, Phase.next e (.serving identity x replies) (.served c x e r)⟩) none l := by
  have hlast : ¬ (¬ r.Raised ∧ replies.length + 1 < e.services) := by
    rintro ⟨hnot, hmore⟩
    rcases hr with hr | ⟨-, hone⟩
    · exact hnot hr
    · omega
  rw [Phase.next, if_neg hlast]
  rcases hr with hr | ⟨rfl, hone⟩
  · exact .served hpermitted hs (.inl ⟨hlt, (e.response_raised r).2 hr⟩)
  · have hnil : replies = [] := List.length_eq_zero_iff.1 (by omega)
    rw [hs.eq, hnil]
    exact .unchanged (hunchanged rfl) hone

end Served

/-- **The next action** of the session of a call. -/
theorem stage_next {call : Call} {p : Tx} {next : Option Tx} {a : Option Answer}
    {w : Option ((Database → Database) × Answer)} (h : Stage F c s (some call) (some p) l)
    (hc : ExecCase s.db p next a w) (ha : ending s.base (.exec c) = a) (hF : F.Allows settings s (.exec c))
    (hdb : (gatewayStep settings s (.exec c)).db = (w.map fun x => x.1 s.db).getD s.db) :
    Stage F c (gatewayStep settings s (.exec c))
      (some ⟨call.endpoint, a.elim call.phase (call.phase.next call.endpoint)⟩) next
      (l ++ (w.toList.map (·.2)).filterMap (Answer.service c)) := by
  have hunchanged : ∀ {e : Endpoint} {identity : AuthenticatedIdentity} {x : Uuid}, F.permitted c e identity x s →
      ending s.base (.exec c) = some (.served c x e (.identity .unchanged)) →
      F.unchanged c e (gatewayStep settings s (.exec c)) := hF.unchanged c rfl
  obtain ⟨hlater, hclosed, hclosed'⟩ : F.Later s _ ∧ F.Closed s ∧ F.Closed _ := ⟨hF.later, hF.closed, hF.closed'⟩
  generalize gatewayStep settings s (.exec c) = s' at hdb hlater hclosed' hunchanged ⊢
  -- a step that commits nothing adds nothing to what the call's services have committed
  have hkept : ∀ {call' : Option Call} {session' : Option Tx} {l : List (Uuid × Endpoint × Reply)},
      Stage F c s' call' session' l → Stage F c s' call' session' (l ++ []) := fun h => by rwa [List.append_nil]
  generalize hsession : some p = session at h
  cases h with
  | @resolving e login rs _ hreceived hp =>
    obtain ⟨p₀, rfl, hfinds⟩ := hp p hsession.symm
    cases p₀ with
    | stmt rows k =>
      have hc : ExecCase s.db (.stmt _ fun d : Database => resolveTxn (k d.provisioning)) next a w := hc
      cases hc with
      | waits =>
        refine .resolving (hlater.received hreceived) fun q hq => ⟨.stmt rows k, (Option.some.inj hq).symm, ?_⟩
        exact hfinds.mono fun x hx => hlater.identified hx
      | reads =>
        refine .resolving (hlater.received hreceived) fun q hq => ⟨_, (Option.some.inj hq).symm, ?_⟩
        refine (hfinds s.db.provisioning).mono fun x hx => ?_
        rcases hx with hx | hx
        · exact hlater.identified hx
        · exact hlater.identified (hclosed.identified hreceived hx)
    | commit w₀ o =>
      have hc : ExecCase s.db (.commit (fun d : Database => d.setProvisioning (w₀ d.provisioning)) (.resolved o))
        next a w := hc
      cases hc with
      | commits =>
        refine stage_resolved (hlater.received hreceived) fun x hx => ?_
        have hprovisioning : s'.db.provisioning = w₀ s.db.provisioning := by rw [hdb]; rfl
        refine hclosed'.identified (hlater.received hreceived) ?_
        rw [hprovisioning]
        exact hfinds x hx _
    | rollback o =>
      have hc : ExecCase s.db (.rollback (.resolved o)) next a w := hc
      cases hc with
      | rollsBack => exact stage_resolved (hlater.received hreceived) fun x hx => hlater.identified (hfinds x hx)
  | @serving e identity x replies _ _ hpermitted hs hlt hp =>
    have hserves := hp p hsession.symm
    have hpermitted' := hlater.permitted hpermitted
    cases hc with
    | waits => exact hkept (.serving hpermitted' hs hlt fun q hq => Option.some.inj hq ▸ hserves)
    | reads => exact hkept (.serving hpermitted' hs hlt fun q hq => Option.some.inj hq ▸ ⟨hserves.outcomes _⟩)
    | commits =>
      obtain ⟨r, rfl, hr, -⟩ := hserves.outcomes
      exact stage_served hpermitted' hs hlt hr
    | rollsBack =>
      obtain ⟨r, rfl, hr⟩ := hserves.outcomes
      exact hkept (stage_rolledBack hpermitted' hs hlt hr fun heq => hunchanged hpermitted (heq ▸ ha))
  | @failedResolving e identity p₀ hreceived =>
    obtain rfl := Option.some.inj hsession
    cases p₀ with
    | stmt rows k =>
      have hc : ExecCase s.db (.stmt _ fun d : Database => resolveTxn (k d.provisioning)) next a w := hc
      cases hc with
      | waits => exact .failedResolving (p := .stmt rows k) (hlater.received hreceived)
      | reads => exact .failedResolving (hlater.received hreceived)
    | commit w₀ o =>
      have hc : ExecCase s.db (.commit (fun d : Database => d.setProvisioning (w₀ d.provisioning)) (.resolved o))
        next a w := hc
      cases hc with
      | commits => exact .refused (.inl (by decide))
    | rollback o =>
      have hc : ExecCase s.db (.rollback (.resolved o)) next a w := hc
      cases hc with
      | rollsBack => exact .refused (.inl (by decide))
  | @failedServing e identity x replies q _ hpermitted hs hlt hserves =>
    obtain rfl := Option.some.inj hsession
    have hpermitted' := hlater.permitted hpermitted
    cases hc with
    | waits => exact hkept (.failedServing hpermitted' hs hlt hserves)
    | reads => exact hkept (.failedServing hpermitted' hs hlt ⟨hserves.outcomes _⟩)
    | commits =>
      obtain ⟨r, rfl, hr, -⟩ := hserves.outcomes
      have hs' := hs.snoc hlt hr
      simpa [Answer.service, Phase.next] using Stage.served hpermitted' hs' hs'.failed
    | rollsBack => exact hkept (.served hpermitted' hs hs.failed)
  | _ => cases hsession

/-- the call is at a stage -/
def Holds (F : Facts) (s : St) (c : ℕ) : Prop :=
  Stage F c s (s.calls c) (s.base.sessions c) (servedBy c s.committed)

theorem Holds.frame (h : Holds F s k) (hs : F.Later s s') (hcalls : s'.calls k = s.calls k)
    (hsession : s'.base.sessions k = s.base.sessions k) (hserved : servedBy k s'.committed = servedBy k s.committed) :
    Holds F s' k := by
  unfold Holds
  rw [hcalls, hsession, hserved]
  exact h.later hs

@[simp] theorem exec_base : (gatewayStep settings s (.exec c)).base = step Lock.Conflicts s.base (.exec c) := by
  simp only [gatewayStep]
  split <;> rfl

theorem exec_served : servedBy k (gatewayStep settings s (.exec c)).committed =
    servedBy k s.committed ++ ((committing s.base (.exec c)).toList.map (·.2)).filterMap (Answer.service k) := by
  simp only [gatewayStep, servedBy]
  split <;> exact List.filterMap_append

theorem exec_calls {call : Call} (hcall : s.calls c = some call) : (gatewayStep settings s (.exec c)).calls c =
    some ⟨call.endpoint, (ending s.base (.exec c)).elim call.phase (call.phase.next call.endpoint)⟩ := by
  simp only [gatewayStep, hcall]
  cases ending s.base (.exec c) with
  | none => exact hcall
  | some a => simp [St.setPhase, St.setCall]

theorem exec_calls_ne (hk : k ≠ c) : (gatewayStep settings s (.exec c)).calls k = s.calls k := by
  simp only [gatewayStep]
  split
  · exact Function.update_of_ne hk _ _
  · rfl

theorem holds_exec (h : ∀ k, Holds F s k) (c k : ℕ) (hF : F.Allows settings s (.exec c)) :
    Holds F (gatewayStep settings s (.exec c)) k := by
  have hstep := hF.later
  have hc := h c
  unfold Holds at hc
  cases hsession : s.base.sessions c with
  | none =>
    obtain ⟨hbase, hending, hcommitting⟩ := exec_none Lock.Conflicts hsession
    refine (h k).frame hstep ?_ ?_ ?_
    · simp only [gatewayStep, hending]
      rfl
    · rw [exec_base, hbase]
    · simp [exec_served, hcommitting]
  | some p =>
    rw [hsession] at hc
    have hexec := exec_cases Lock.Conflicts hsession
    by_cases hk : k = c
    · subst hk
      cases hcall : s.calls k with
      | none =>
        rw [hcall] at hc
        cases hc
      | some call =>
        rw [hcall] at hc
        unfold Holds
        rw [exec_calls hcall, exec_base, exec_served]
        refine stage_next hc hexec rfl hF ?_
        rw [St.db, exec_base]
        exact step_db _ _
    · refine (h k).frame hstep (exec_calls_ne hk) ?_ ?_
      · rw [exec_base]
        exact (sessions_of_ne Lock.Conflicts (p := p) hk).2.1
      · rw [exec_served]
        cases hcommitting : committing s.base (.exec c) with
        | none => simp
        | some w =>
          have hown := (hexec.outcomes hc.own).2.1 w.1 w.2 hcommitting
          simp [hown.service hk]

/-- an operation that leaves the transactions as they are -/
theorem holds_setCall {call : Call} (h : ∀ k, Holds F s k)
    (hstep : F.Later s (s.setCall c call))
    (hc : Stage F c (s.setCall c call) (some call) (s.base.sessions c) (servedBy c s.committed)) (k : ℕ) :
    Holds F (s.setCall c call) k := by
  by_cases hk : k = c
  · subst hk
    unfold Holds
    simpa [St.setCall] using hc
  · exact (h k).frame hstep (Function.update_of_ne hk _ _) rfl rfl

theorem authentication_error {verifier : Option (Str → Verdict)} {authorization : Option Str} {r : Response}
    (h : getAuthenticatedIdentity settings verifier authorization = .error r) : 400 ≤ r.status := by
  unfold getAuthenticatedIdentity at h
  split_ifs at h
  split at h
  · cases h
    decide
  · split at h
    · next r' htoken =>
      cases h
      unfold bearerToken at htoken
      split at htoken
      · cases htoken
        decide
      · dsimp only at htoken
        split_ifs at htoken
        cases htoken
        decide
    · split at h <;> cases h <;> decide

theorem Stage.of_none {session : Option Tx} (h : Stage F c s none session l) : session = none ∧ l = [] := by
  cases h
  exact ⟨rfl, rfl⟩

theorem holds_receive (h : ∀ k, Holds F s k) {c : ℕ} {e : Endpoint} {verifier : Option (Str → Verdict)}
    {authorization : Option Str} {principalId identifierId : Uuid} {now : Time}
    (hF : F.Allows settings s (.receive c e verifier authorization principalId identifierId now)) (k : ℕ) :
    Holds F (gatewayStep settings s (.receive c e verifier authorization principalId identifierId now)) k := by
  have hstep := hF.later
  have hreceive := hF.receive c e verifier authorization principalId identifierId now
  have hc := h c
  unfold Holds at hc
  generalize hs' : gatewayStep settings s _ = s' at hstep ⊢
  simp only [gatewayStep] at hs'
  split at hs'
  · subst hs'
    exact h k
  · next hnone =>
    rw [hnone] at hc
    obtain ⟨hsession, hserved⟩ := hc.of_none
    subst hs'
    refine holds_setCall h hstep ?_ k
    rw [hsession, hserved]
    unfold authenticated
    split
    · next herror => exact .refused (.inl (authentication_error herror))
    · next identity hok =>
      have hreceived := hreceive identity rfl hnone hok
      simp only [gatewayStep, hnone, authenticated, hok] at hreceived
      exact .resolving hreceived (by simp)

/-- a transaction that begins -/
theorem holds_start {call : Call} {p : Tx} (h : ∀ k, Holds F s k) (hcall : s.calls c = some call)
    (hstep : F.Later s (s.start c p))
    (hc : s.base.sessions c = none → Stage F c (s.start c p) (some call) (some p) (servedBy c s.committed))
    (k : ℕ) : Holds F (s.start c p) k := by
  by_cases hk : k = c
  · subst hk
    unfold Holds
    cases hsession : s.base.sessions k with
    | none =>
      have hstart : (s.start k p).base.sessions k = some p := by simp [St.start, step, hsession]
      rw [hstart]
      exact hcall ▸ hc hsession
    | some q =>
      have hsame : s.start k p = s := by simp [St.start, step, hsession]
      rw [hsame]
      exact h k
  · exact (h k).frame hstep rfl (sessions_of_ne Lock.Conflicts (p := p) hk).1 rfl

theorem holds_begin (h : ∀ k, Holds F s k) {c : ℕ} {id : Uuid} {now t : Time}
    (hF : F.Allows settings s (.begin c id now t)) (k : ℕ) : Holds F (gatewayStep settings s (.begin c id now t)) k := by
  have hstep := hF.later
  have hc := h c
  unfold Holds at hc
  generalize hs' : gatewayStep settings s _ = s' at hstep ⊢
  simp only [gatewayStep] at hs'
  split at hs'
  · next e login rs hcall =>
    split at hs'
    · next p hp =>
      subst hs'
      refine holds_start h hcall hstep (fun hsession => ?_) k
      rw [hcall, hsession] at hc
      generalize servedBy c s.committed = l at hc
      cases hc with
      | resolving hreceived =>
        exact .resolving (hstep.received hreceived) fun q hq => ⟨p, (Option.some.inj hq).symm, finds_resolve hp⟩
    · subst hs'
      exact h k
  · next e identity x replies hcall =>
    split at hs'
    · next q hq =>
      subst hs'
      refine holds_start h hcall hstep (fun hsession => ?_) k
      rw [hcall, hsession] at hc
      generalize servedBy c s.committed = l at hc
      cases hc with
      | serving hpermitted hserved hlt =>
        exact .serving (hstep.permitted hpermitted) hserved hlt fun p hp => Option.some.inj hp ▸ serves_command hq
    · subst hs'
      exact h k
  · subst hs'
    exact h k

theorem holds_effective (h : ∀ k, Holds F s k) {c : ℕ} (hF : F.Allows settings s (.resolveEffectivePrincipals c)) (k : ℕ) :
    Holds F (gatewayStep settings s (.resolveEffectivePrincipals c)) k := by
  have hstep := hF.later
  have hc := h c
  unfold Holds at hc
  generalize hs' : gatewayStep settings s _ = s' at hstep ⊢
  simp only [gatewayStep] at hs'
  split at hs'
  · next e identity x hcall =>
    split at hs'
    · next ids hids =>
      subst hs'
      refine holds_setCall h hstep ?_ k
      rw [hcall] at hc
      generalize s.base.sessions c = session, servedBy c s.committed = l at hc
      cases hc with
      | authorizing hidentified => exact .permitting (hstep.actsFor (hF.closed.actsFor hidentified hids))
    · subst hs'
      exact h k
  · subst hs'
    exact h k

theorem holds_permission (h : ∀ k, Holds F s k) {c : ℕ} {now : Time} (hF : F.Allows settings s (.hasPermission c now))
    (k : ℕ) : Holds F (gatewayStep settings s (.hasPermission c now)) k := by
  have hstep := hF.later
  have hc := h c
  unfold Holds at hc
  generalize hs' : gatewayStep settings s _ = s' at hstep ⊢
  simp only [gatewayStep] at hs'
  split at hs'
  · next e identity x ids hcall =>
    rw [hcall] at hc
    split at hs'
    · next P hP =>
      split_ifs at hs' with hhas
      · subst hs'
        refine holds_setCall h hstep ?_ k
        generalize s.base.sessions c = session, hl : servedBy c s.committed = l at hc
        cases hc with
        | permitting hacts =>
          exact .serving (hstep.permitted (hF.closed.permitted hacts hP hhas hl)) (Served.nil x e) (Endpoint.services_pos hP)
            fun p hp => by cases hp
      · subst hs'
        refine holds_setCall h hstep ?_ k
        generalize s.base.sessions c = session, servedBy c s.committed = l at hc
        cases hc with
        | permitting hacts => exact .refused (.inl (by decide))
    · subst hs'
      exact h k
  · subst hs'
    exact h k

/-- whatever a call is at, it can fail -/
theorem Stage.fail {call : Call} {session : Option Tx} (h : Stage F c s (some call) session l) :
    Stage F c s (some { call with phase := call.phase.fail }) session l := by
  have hfail : 400 ≤ internalServerError.status := by decide
  cases h with
  | @resolving e login rs _ hreceived hp =>
    cases session with
    | none => exact .refused (.inl hfail)
    | some p =>
      obtain ⟨p₀, rfl, -⟩ := hp p rfl
      exact .failedResolving hreceived
  | authorizing => exact .refused (.inl hfail)
  | permitting => exact .refused (.inl hfail)
  | serving hpermitted hs hlt hp =>
    cases session with
    | none => exact .served hpermitted hs hs.failed
    | some p => exact .failedServing hpermitted hs hlt (hp p rfl)
  | failedResolving h => exact .failedResolving h
  | failedServing h hs hlt hp => exact .failedServing h hs hlt hp
  | refused hr => exact .refused hr
  | unchanged h hone => exact .unchanged h hone
  | served h hs hresponse => exact .served h hs hresponse

theorem holds_fail (h : ∀ k, Holds F s k) {c : ℕ} (hF : F.Allows settings s (.fail c)) (k : ℕ) :
    Holds F (gatewayStep settings s (.fail c)) k := by
  have hstep := hF.later
  have hc := h c
  unfold Holds at hc
  generalize hs' : gatewayStep settings s _ = s' at hstep ⊢
  simp only [gatewayStep, St.fail] at hs'
  split at hs'
  · subst hs'
    exact h k
  · next call hcall =>
    subst hs'
    refine holds_setCall h hstep ?_ k
    rw [hcall] at hc
    exact hc.fail.later hstep

/-- a session that is rolled back -/
theorem Stage.abort {call : Call} {session : Option Tx} (h : Stage F c s (some call) session l) :
    Stage F c s (some { call with phase := call.phase.fail }) none l := by
  have hfail : 400 ≤ internalServerError.status := by decide
  cases h with
  | resolving => exact .refused (.inl hfail)
  | authorizing => exact .refused (.inl hfail)
  | permitting => exact .refused (.inl hfail)
  | serving h hs => exact .served h hs hs.failed
  | failedResolving => exact .refused (.inl hfail)
  | failedServing h hs => exact .served h hs hs.failed
  | refused hr => exact .refused hr
  | unchanged h hone => exact .unchanged h hone
  | served h hs hresponse => exact .served h hs hresponse

theorem holds_abort (h : ∀ k, Holds F s k) {c : ℕ} (hF : F.Allows settings s (.abort c)) (k : ℕ) :
    Holds F (gatewayStep settings s (.abort c)) k := by
  have hstep := hF.later
  have hc := h c
  unfold Holds at hc
  have hsessions : (gatewayStep settings s (.abort c)).base = s.base.close c := by
    simp only [gatewayStep, St.fail]
    split <;> rfl
  have hcommitted : (gatewayStep settings s (.abort c)).committed = s.committed := by
    simp only [gatewayStep, St.fail]
    split <;> rfl
  have hcalls : (gatewayStep settings s (.abort c)).calls =
      (St.fail { s with base := step Lock.Conflicts s.base (.abort c) } c).calls := rfl
  by_cases hk : k = c
  · subst hk
    unfold Holds
    rw [hsessions, hcommitted, hcalls]
    simp only [St.fail, Sys.close, Function.update_self]
    cases hcall : s.calls k with
    | none =>
      rw [hcall] at hc
      obtain ⟨-, hserved⟩ := hc.of_none
      rw [hserved]
      simp only [hcall]
      exact .absent
    | some call =>
      rw [hcall] at hc
      simp only [St.setPhase, St.setCall, Function.update_self]
      exact hc.abort.later hstep
  · refine (h k).frame hstep ?_ ?_ (by rw [hcommitted])
    · rw [hcalls]
      simp only [St.fail]
      split
      · rfl
      · exact Function.update_of_ne hk _ _
    · rw [hsessions]
      exact Function.update_of_ne hk _ _

/-- Whatever a step does, every call stays at a stage. -/
theorem holds_step (h : ∀ k, Holds F s k) {o : Op} (hF : F.Allows settings s o) (k : ℕ) :
    Holds F (gatewayStep settings s o) k := by
  cases o with
  | receive => exact holds_receive h hF k
  | begin => exact holds_begin h hF k
  | exec c => exact holds_exec h c k hF
  | resolveEffectivePrincipals => exact holds_effective h hF k
  | hasPermission => exact holds_permission h hF k
  | abort => exact holds_abort h hF k
  | fail => exact holds_fail h hF k

/-- the session of a call that commits -/
theorem Stage.commits {call : Option Call} {w : Database → Database} {a : Answer} {l : List (Uuid × Endpoint × Reply)}
    (h : Stage F c s call (some (.commit w a)) l) :
    (∃ o e identity, a = .resolved o ∧ F.received c e identity s) ∨
      ∃ x e r identity, a = .served c x e r ∧ ¬ r.Raised ∧ F.permitted c e identity x s := by
  have hresolve : ∀ {p₀ : Provisioning.Tx}, .commit w a = resolveTxn p₀ → ∃ o, a = .resolved o := by
    intro p₀ hp₀
    cases p₀ with
    | stmt => cases hp₀
    | commit w₀ o => exact ⟨o, (Transaction.Txn.commit.inj hp₀).2⟩
    | rollback => cases hp₀
  have hserve : ∀ {x : Uuid} {e : Endpoint}, Serves c x e (.commit w a) → ∃ r, a = .served c x e r ∧ ¬ r.Raised := by
    intro x e hserves
    obtain ⟨r, ha, hr, -⟩ := hserves.outcomes
    exact ⟨r, ha, hr⟩
  generalize hsession : some (Transaction.Txn.commit w a) = session at h
  cases h with
  | @resolving e login _ _ hreceived hp =>
    obtain ⟨p₀, hp₀, -⟩ := hp _ hsession.symm
    obtain ⟨o, ho⟩ := hresolve hp₀
    exact .inl ⟨o, e, login.identity, ho, hreceived⟩
  | @serving e identity x _ _ _ hpermitted _ _ hp =>
    obtain ⟨r, ha, hr⟩ := hserve (hp _ hsession.symm)
    exact .inr ⟨x, e, r, identity, ha, hr, hpermitted⟩
  | @failedResolving e identity p₀ hreceived =>
    obtain ⟨o, ho⟩ := hresolve (Option.some.inj hsession)
    exact .inl ⟨o, e, identity, ho, hreceived⟩
  | @failedServing e identity x _ p _ hpermitted _ _ hserves =>
    obtain rfl := Option.some.inj hsession
    obtain ⟨r, ha, hr⟩ := hserve hserves
    exact .inr ⟨x, e, r, identity, ha, hr, hpermitted⟩
  | _ => cases hsession

/-- what the services of a call have committed was permitted to its caller -/
theorem Stage.permitted_of_mem {x : Uuid} {e : Endpoint} {r : Reply} (h : Stage F c s call session l) (hr : (x, e, r) ∈ l) :
    ∃ identity, F.permitted c e identity x s := by
  have hmem : ∀ {y : Uuid} {e' : Endpoint} {replies : List Reply}, Served y e' replies l → y = x ∧ e' = e := by
    intro y e' replies hs
    rw [hs.eq] at hr
    obtain ⟨r', -, heq⟩ := List.mem_map.1 hr
    cases heq
    exact ⟨rfl, rfl⟩
  cases h with
  | serving h hs =>
    obtain ⟨rfl, rfl⟩ := hmem hs
    exact ⟨_, h⟩
  | failedServing h hs =>
    obtain ⟨rfl, rfl⟩ := hmem hs
    exact ⟨_, h⟩
  | served h hs =>
    obtain ⟨rfl, rfl⟩ := hmem hs
    exact ⟨_, h⟩
  | _ => cases hr

end Stages

end AtlasRag.Api
