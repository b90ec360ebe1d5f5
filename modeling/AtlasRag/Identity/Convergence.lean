/-
Just-in-time provisioning converges.

Any number of calls of `resolve`, whatever their identities, are interleaved statement by statement, and nothing else
writes. The UUIDs that they draw are new and distinct.

Results:
- `valid`: between its transactions and within them, what a call may rely on;
- `not_waiting`: a call for which another waits does not wait;
- `returned_usable`: a transaction, run alone in any database, returns no disabled or retired principal;
- `provisioning_converges`: every call returns the one principal of its identity.
-/
import AtlasRag.Identity.Provisioning

namespace AtlasRag.Identity.Provisioning

open AtlasRag.Lib AtlasRag.Lib.RowLock AtlasRag.Lib.Transaction AtlasRag.Lib.Workflow AtlasRag.Platform

/-- the UUIDs that the calls draw are new, and no two are the same -/
structure Fresh (db : Database) (calls : List Call) : Prop where
  unborn : ∀ c ∈ calls, c.Unborn db
  principalIds : (calls.map (·.principalId)).Nodup
  identifierIds : (calls.map (·.identifierId)).Nodup

variable {db d : Database} {calls : List Call} {c c' : Call} {rs : List Outcome} {L : Set Row} {o : Outcome}

/-! ## Assertions -/

/-- what a call ends with: the principal of its identity, if it is usable -/
def Settled (c : Call) (d : Database) (o : Outcome) : Prop := ∃ l, d.Linked c.identity.key l ∧ o = ensureUsable l

/-- a call after these results -/
def After (c : Call) (d : Database) : List Outcome → Prop
  | [] => c.Unborn d
  | [.absent] => c.Unborn d
  | [.absent, .alreadyProvisioned] => d.Taken c.identity.key
  | [o] => Settled c d o
  | [.absent, o] => Settled c d o
  | [.absent, .alreadyProvisioned, o] => Settled c d o
  | _ => False

/-- an open transaction of the call, after these results, that holds the rows `L` -/
inductive Stage (c : Call) (d : Database) (L : Set Row) : List Outcome → Tx → Prop where
  | lookup (h : c.Unborn d) : Stage c d L [] (lookup true c.identity)
  | provision (h : c.Unborn d) : Stage c d L [.absent] (provision c)
  | insertPrincipal (h : c.Unborn d) : Stage c d L [.absent] (provisionUser c)
  | insertUser (h : c.Unborn d) : Stage c d L [.absent] (insertUser c)
  | insertIdentifier (h : c.Unborn d) : Stage c d L [.absent] (insertIdentifier c)
  | commit (h : c.Unborn d) (hfree : ¬ d.Taken c.identity.key) (hlock : L (.activeIdentity c.identifier.indexKey)) :
      Stage c d L [.absent] (.commit c.write (.returned c.principalId))
  | resolveAfterConflict (h : d.Taken c.identity.key) :
      Stage c d L [.absent, .alreadyProvisioned] (resolveAfterConflict c.identity)
  | rollback {rs : List Outcome} {o : Outcome} (h : After c d (rs ++ [o])) : Stage c d L rs (.rollback o)

/-- the database holds what it held at the start, and what the calls have written, each all of it or nothing -/
structure Grown (db : Database) (calls : List Call) (d : Database) : Prop where
  keys : d.Keys
  linked : ∀ key l, db.Linked key l → d.Linked key l
  identifiers : ∀ x ∈ d.identifiers, x ∈ db.identifiers ∨ ∃ c ∈ calls, x = c.identifier
  principals : ∀ p ∈ d.iam.principals, p ∈ db.iam.principals ∨ ∃ c ∈ calls, p = c.principal ∧ c.identifier ∈ d.identifiers

/-- the call between its transactions -/
def Idle (calls : List Call) (i : ℕ) (rs : List Outcome) (d : Database) : Prop := ∀ c, calls[i]? = some c → After c d rs

/-- a key that no other call needs -/
def Own (c : Call) (x : Row) : Prop := x = .principal c.principalId ∨ x = .user c.principalId ∨ x = .identifier c.identifierId

/-- a key of the identity is held only by a transaction that is about to end -/
def Mine (c : Call) (L : Set Row) (p : Tx) : Prop :=
  ∀ x, L x → Own c x ∨ (x = .activeIdentity c.identifier.indexKey ∧ Within p 0)

/-- the call within one -/
def Busy (calls : List Call) (i : ℕ) (rs : List Outcome) (d : Database) (L : Set Row) (p : Tx) : Prop :=
  ∃ c, calls[i]? = some c ∧ Stage c d L rs p ∧ Mine c L p

/-- a call goes on or has settled -/
theorem settled_of_mem (h : After c d rs) (ho : o ∈ rs) : o = .absent ∨ o = .alreadyProvisioned ∨ Settled c d o := by
  unfold After at h
  split at h
  · cases ho
  · exact .inl (List.mem_singleton.1 ho)
  · rcases List.mem_cons.1 ho with ho | ho
    · exact .inl ho
    · exact .inr (.inl (List.mem_singleton.1 ho))
  · rw [List.mem_singleton.1 ho]
    exact .inr (.inr h)
  · rcases List.mem_cons.1 ho with ho | ho
    · exact .inl ho
    · rw [List.mem_singleton.1 ho]
      exact .inr (.inr h)
  · rcases List.mem_cons.1 ho with ho | ho
    · exact .inl ho
    · rcases List.mem_cons.1 ho with ho | ho
      · exact .inr (.inl ho)
      · rw [List.mem_singleton.1 ho]
        exact .inr (.inr h)
  · exact h.elim

/-- a call that starts nothing more has settled -/
theorem settled_of_finished (h : After c d rs) (hfinished : resolve true c rs = none) : ∃ o ∈ rs, Settled c d o := by
  unfold After at h
  split at h
  · cases hfinished
  · cases hfinished
  · cases hfinished
  · exact ⟨_, List.mem_singleton.2 rfl, h⟩
  · exact ⟨_, List.mem_cons_of_mem _ (List.mem_singleton.2 rfl), h⟩
  · exact ⟨_, List.mem_cons_of_mem _ (List.mem_cons_of_mem _ (List.mem_singleton.2 rfl)), h⟩
  · exact h.elim

theorem after_of_settled (h : Settled c d o) (hrs : rs = [] ∨ rs = [.absent] ∨ rs = [.absent, .alreadyProvisioned]) :
    After c d (rs ++ [o]) := by
  have ho : o ≠ .absent ∧ o ≠ .alreadyProvisioned := by
    obtain ⟨l, -, rfl⟩ := h
    unfold ensureUsable
    split_ifs <;> exact ⟨Outcome.noConfusion, Outcome.noConfusion⟩
  obtain ⟨habsent, halready⟩ := ho
  rcases hrs with rfl | rfl | rfl
  · cases o with
    | absent => exact absurd rfl habsent
    | _ => exact h
  · cases o with
    | alreadyProvisioned => exact absurd rfl halready
    | _ => exact h
  · exact h

/-! ## The calls keep their assertions -/

/-- a statement of the lookup -/
theorem Stage.find (hd : d.Keys) (hrs : rs = [] ∨ rs = [.absent] ∨ rs = [.absent, .alreadyProvisioned])
    {none' : Tx} (hnone : ¬ d.Taken c.identity.key → Stage c d L rs none') :
    Stage c d L rs (match d.oidcRows c.identity.key with
      | [] => none'
      | [l] => .rollback (ensureUsable l)
      | _ => .rollback (.raised .multipleResultsFound)) := by
  rcases hd.rows c.identity.key with ⟨l, hl, hrows⟩ | ⟨hfree, hrows⟩
  · rw [hrows]
    exact .rollback (after_of_settled ⟨l, hl, rfl⟩ hrs)
  · rw [hrows]
    exact hnone hfree

/-- … of a creator: the identity is free, or has been provisioned meanwhile -/
theorem Stage.inserted (hfit : c.Fits) (h : c.Unborn d) (hlock : L (.activeIdentity c.identifier.indexKey)) :
    Stage c d L [.absent]
      (identifierInserted c (identifierViolations ((d.addPrincipal c.principal).addUser c.principalId) c.identifier)) := by
  rw [identifierViolations_eq hfit h]
  by_cases htaken : d.Taken c.identity.key
  · have hindex : c.identifier.validTo = none ∧ c.identifier.indexKey ∈ d.activeKeys := ⟨rfl, taken_iff.1 htaken⟩
    rw [uniqueIndex, if_pos hindex]
    exact .rollback htaken
  · have hindex : ¬ (c.identifier.validTo = none ∧ c.identifier.indexKey ∈ d.activeKeys) :=
      fun hmem => htaken (taken_iff.2 hmem.2)
    rw [uniqueIndex, if_neg hindex]
    exact .commit h htaken hlock

/-- A statement takes a call from one stage to the next. -/
theorem Stage.stmt {rows : Database → List Row} {k : Database → Tx} (h : Stage c d L rs (.stmt rows k)) (hd : d.Keys)
    (hfit : c.Fits) : Stage c d (fun x => x ∈ rows d ∨ L x) rs (k d) := by
  generalize hp : Txn.stmt rows k = p at h
  cases h with
  | lookup h =>
    cases hp
    exact Stage.find hd (.inl rfl) fun _ => .rollback h
  | provision h =>
    cases hp
    exact Stage.find hd (.inr (.inl rfl)) fun _ => .insertPrincipal h
  | insertPrincipal h =>
    cases hp
    simp only [principalViolations_eq_nil h]
    exact .insertUser h
  | insertUser h =>
    cases hp
    simp only [userViolations_eq_nil hfit h hd]
    exact .insertIdentifier h
  | insertIdentifier h =>
    cases hp
    exact Stage.inserted hfit h (.inl (List.mem_cons_of_mem _ (List.mem_singleton.2 rfl)))
  | resolveAfterConflict h =>
    cases hp
    exact Stage.find hd (.inr (.inr rfl)) fun hfree => absurd h hfree
  | commit => cases hp
  | rollback => cases hp

theorem within_identifierInserted (c : Call) (es : List Violation) : Within (identifierInserted c es) 0 := by
  unfold identifierInserted
  split
  · trivial
  · split_ifs <;> trivial
  · trivial

/-- the keys that it needs -/
theorem Stage.rows {rows : Database → List Row} {k : Database → Tx} (h : Stage c d L rs (.stmt rows k)) :
    ∀ x ∈ rows d, Own c x ∨ (x = .activeIdentity c.identifier.indexKey ∧ Within (k d) 0) := by
  generalize hp : Txn.stmt rows k = p at h
  intro x hx
  cases h with
  | insertPrincipal h =>
    cases hp
    exact .inl (.inl (List.mem_singleton.1 hx))
  | insertUser h =>
    cases hp
    exact .inl (.inr (.inl (List.mem_singleton.1 hx)))
  | insertIdentifier h =>
    cases hp
    rcases List.mem_cons.1 hx with hx | hx
    · exact .inl (.inr (.inr hx))
    · exact .inr ⟨List.mem_singleton.1 hx, within_identifierInserted c _⟩
  | commit => cases hp
  | rollback => cases hp
  | _ => cases hp; cases hx

theorem Mine.stmt {rows : Database → List Row} {k : Database → Tx} (hmine : Mine c L (.stmt rows k))
    (h : Stage c d L rs (.stmt rows k)) : Mine c (fun x => x ∈ rows d ∨ L x) (k d) := by
  intro x hx
  rcases hx with hx | hx
  · exact h.rows x hx
  · rcases hmine x hx with hown | ⟨-, hending⟩
    · exact .inl hown
    · exact absurd hending not_within_zero

theorem Stage.start {p : Tx} (h : After c d rs) (hp : resolve true c rs = some p) : Stage c d L rs p := by
  unfold resolve at hp
  split at hp
  · cases hp; exact .lookup h
  · cases hp; exact .provision h
  · cases hp; exact .resolveAfterConflict h
  · cases hp

/-- … and **the commits** of another call -/
theorem After.write (h : After c d rs) (hid : c.principalId ≠ c'.principalId) (hid' : c.identifierId ≠ c'.identifierId) :
    After c (c'.write d) rs := by
  have hsettled : ∀ o, Settled c d o → Settled c (c'.write d) o := fun o ⟨l, hl, ho⟩ => ⟨l, hl.write c', ho⟩
  unfold After at h ⊢
  split at h
  · exact h.write hid hid'
  · exact h.write hid hid'
  · exact taken_write.2 (.inl h)
  · exact hsettled _ h
  · exact hsettled _ h
  · exact hsettled _ h
  · exact h.elim

theorem Stage.write {p : Tx} (h : Stage c d L rs p) (hid : c.principalId ≠ c'.principalId)
    (hid' : c.identifierId ≠ c'.identifierId) (hother : ¬ L (.activeIdentity c'.identifier.indexKey)) :
    Stage c (c'.write d) L rs p := by
  cases h with
  | lookup h => exact .lookup (h.write hid hid')
  | provision h => exact .provision (h.write hid hid')
  | insertPrincipal h => exact .insertPrincipal (h.write hid hid')
  | insertUser h => exact .insertUser (h.write hid hid')
  | insertIdentifier h => exact .insertIdentifier (h.write hid hid')
  | commit h hfree hlock =>
    refine .commit (h.write hid hid') (fun htaken => ?_) hlock
    rcases taken_write.1 htaken with htaken | hkey
    · exact hfree htaken
    · have hindex : c'.identifier.indexKey = c.identifier.indexKey := by
        rw [c'.identifier_of.indexKey, c.identifier_of.indexKey, hkey]
      exact hother (hindex ▸ hlock)
  | resolveAfterConflict h => exact .resolveAfterConflict (taken_write.2 (.inl h))
  | rollback h => exact .rollback (h.write hid hid')

theorem Grown.write (h : Grown db calls d) (hc : c ∈ calls) (hunborn : c.Unborn d) (hfree : ¬ d.Taken c.identity.key) :
    Grown db calls (c.write d) where
  keys := h.keys.write hunborn hfree
  linked key l hl := (h.linked key l hl).write c
  identifiers x hx := by
    rcases List.mem_append.1 hx with hx | hx
    · exact h.identifiers x hx
    · exact .inr ⟨c, hc, List.mem_singleton.1 hx⟩
  principals p hp := by
    rcases List.mem_append.1 hp with hp | hp
    · rcases h.principals p hp with hp | ⟨c', hc', hpc, hx⟩
      · exact .inl hp
      · exact .inr ⟨c', hc', hpc, List.mem_append_left _ hx⟩
    · exact .inr ⟨c, hc, List.mem_singleton.1 hp, List.mem_append_right _ (List.mem_singleton.2 rfl)⟩

/-- two calls draw different UUIDs -/
theorem Fresh.ne (h : Fresh db calls) {i j : ℕ} (hi : calls[i]? = some c) (hj : calls[j]? = some c') (hij : i ≠ j) :
    c.principalId ≠ c'.principalId ∧ c.identifierId ≠ c'.identifierId :=
  ⟨Table.ne_of_nodup_map h.principalIds hi hj hij, Table.ne_of_nodup_map h.identifierIds hi hj hij⟩

/-- what a committing call writes -/
theorem Stage.of_commit {w : Database → Database} (h : Stage c d L rs (.commit w o)) :
    c.Unborn d ∧ ¬ d.Taken c.identity.key ∧ L (.activeIdentity c.identifier.indexKey) ∧ w = c.write ∧
      o = .returned c.principalId ∧ rs = [.absent] := by
  generalize hp : Txn.commit w o = p at h
  cases h with
  | commit h hfree hlock =>
    cases hp
    exact ⟨h, hfree, hlock, rfl, rfl, rfl⟩
  | _ => cases hp

/-- **The assertions** are kept by the calls and by the commits of the others. -/
theorem valid (hfit : ∀ c ∈ calls, c.Fits) (hfresh : Fresh db calls) :
    Valid (resolves true calls) (Grown db calls) (Idle calls) (Busy calls) where
  start d i rs p _ hidle hp := by
    obtain ⟨c, hc, hp⟩ := Option.bind_eq_some_iff.1 hp
    exact ⟨c, hc, .start (hidle c hc) hp, fun x hx => hx.elim⟩
  stmt d i rs L rows k hd hbusy := by
    obtain ⟨c, hc, hstage, hmine⟩ := hbusy
    exact ⟨c, hc, hstage.stmt hd.keys (hfit c (List.mem_of_getElem? hc)), hmine.stmt hstage⟩
  commit d i rs L w o hd hbusy := by
    obtain ⟨c, hc, hstage, -⟩ := hbusy
    obtain ⟨hunborn, hfree, -, rfl, rfl, rfl⟩ := hstage.of_commit
    refine ⟨hd.write (List.mem_of_getElem? hc) hunborn hfree, fun c' hc' => ?_⟩
    obtain rfl : c = c' := Option.some.inj (hc.symm.trans hc')
    exact ⟨_, linked_write c d, rfl⟩
  rollback d i rs L o _ hbusy := by
    obtain ⟨c, hc, hstage, -⟩ := hbusy
    generalize hp : Txn.rollback o = p at hstage
    cases hstage with
    | rollback h =>
      cases hp
      intro c' hc'
      obtain rfl : c = c' := Option.some.inj (hc.symm.trans hc')
      exact h
    | _ => cases hp
  idle_stable d i rs L w o j rs' _ hbusy hji hidle := by
    obtain ⟨c, hc, hstage, -⟩ := hbusy
    obtain ⟨-, -, -, rfl, -, -⟩ := hstage.of_commit
    intro c' hc'
    obtain ⟨hid, hid'⟩ := hfresh.ne hc' hc hji
    exact (hidle c' hc').write hid hid'
  busy_stable d i rs L w o j rs' L' p _ hbusy hji hdisj hother := by
    obtain ⟨c, hc, hstage, -⟩ := hbusy
    obtain ⟨-, -, hlock, rfl, -, -⟩ := hstage.of_commit
    obtain ⟨c', hc', hstage', hmine⟩ := hother
    obtain ⟨hid, hid'⟩ := hfresh.ne hc' hc hji
    exact ⟨c', hc', hstage'.write hid hid' fun hlock' => Set.disjoint_left.1 hdisj hlock hlock', hmine⟩

/-- the assertions hold in every state that the calls reach -/
theorem holds (hdb : db.Keys) (hfit : ∀ c ∈ calls, c.Fits) (hfresh : Fresh db calls) (turns : List ℕ) :
    Holds (Grown db calls) (Idle calls) (Busy calls) (run (turn (resolves true calls)) (Sys.init db) turns) :=
  (valid hfit hfresh).rule ⟨hdb, fun _ _ hl => hl, fun _ hx => .inl hx, fun _ hp => .inl hp⟩
    (fun _ c hc => hfresh.unborn c (List.mem_of_getElem? hc)) turns

/-! ## Every call ends -/

theorem within_find {identity : AuthenticatedIdentity} {k : Option LocalUserIdentity → Tx} {n : ℕ}
    (hk : ∀ l, Within (k l) n) : Within (findByOidcSubject identity k) (n + 1) := by
  refine ⟨n, Nat.lt_succ_self n, fun d => ?_⟩
  beta_reduce
  split
  · exact hk none
  · exact hk _
  · trivial

theorem within_provisionUser (c : Call) : Within (provisionUser c) 3 := by
  refine ⟨2, by decide, fun d => ?_⟩
  beta_reduce
  split
  · refine ⟨1, by decide, fun d => ?_⟩
    beta_reduce
    split
    · exact ⟨0, by decide, fun d => within_identifierInserted c _⟩
    · trivial
  · trivial

/-- at most three transactions, each of at most four statements -/
theorem bounded (calls : List Call) : Bounded (resolves true calls) calls.length 3 4 where
  within i rs p hp := by
    obtain ⟨c, hc, hp⟩ := Option.bind_eq_some_iff.1 hp
    refine ⟨(List.getElem?_eq_some_iff.1 hc).1, ?_⟩
    unfold resolve at hp
    split at hp
    · cases hp
      refine ⟨by decide, (within_find (n := 0) fun l => ?_).mono (by decide)⟩
      cases l <;> trivial
    · cases hp
      refine ⟨by decide, within_find fun l => ?_⟩
      cases l with
      | none => exact within_provisionUser c
      | some l => trivial
    · cases hp
      refine ⟨by decide, (within_find (n := 0) fun l => ?_).mono (by decide)⟩
      cases l <;> trivial
    · cases hp

theorem Own.inj {x : Row} (h : Own c x) (h' : Own c' x) : c.principalId = c'.principalId ∨ c.identifierId = c'.identifierId := by
  rcases h with rfl | rfl | rfl
  · rcases h' with h' | h' | h'
    · exact .inl (Row.principal.inj h')
    · cases h'
    · cases h'
  · rcases h' with h' | h' | h'
    · cases h'
    · exact .inl (Row.user.inj h')
    · cases h'
  · rcases h' with h' | h' | h'
    · cases h'
    · cases h'
    · exact .inr (Row.identifier.inj h')

/-- **No deadlock**: a call for which another waits is about to end. -/
theorem not_waiting (hfresh : Fresh db calls) {s : State} (hs : Holds (Grown db calls) (Idle calls) (Busy calls) s)
    {i j : ℕ} (h : WaitsFor s i j) (k : ℕ) : ¬ WaitsFor s j k := by
  obtain ⟨rows, cont, x, hi, hx, hheld, hji⟩ := h
  obtain ⟨c, hc, hstage, -⟩ := hs.busy i _ hi
  obtain ⟨q, hq⟩ := Option.ne_none_iff_exists'.1 (hs.open' x j hheld)
  obtain ⟨c', hc', -, hmine⟩ := hs.busy j q hq
  have hending : Within q 0 := by
    rcases hmine x hheld with hown' | ⟨hkey, hending⟩
    · rcases hstage.rows x hx with hown | ⟨hkey, -⟩
      · obtain ⟨hid, hid'⟩ := hfresh.ne hc hc' hji.symm
        rcases hown.inj hown' with heq | heq
        · exact absurd heq hid
        · exact absurd heq hid'
      · rw [hkey] at hown'
        rcases hown' with hown' | hown' | hown' <;> cases hown'
    · exact hending
  intro ⟨rows', cont', y, hj, _⟩
  rw [Option.some.inj (hq.symm.trans hj)] at hending
  exact not_within_zero hending

/-! ## What a call returns -/

theorem usable_of_returned {l : LocalUserIdentity} {x : Uuid} (h : .returned x = ensureUsable l) :
    l.principalId = x ∧ l.isActive = true ∧ l.deletedAt = none := by
  unfold ensureUsable at h
  split_ifs at h with hdeleted hactive
  exact ⟨(Outcome.returned.inj h).symm, by simpa using hactive, not_not.1 hdeleted⟩

/-- the principals that `resolve` may return -/
def Database.UsablePrincipal (d : Database) (x : Uuid) : Prop := ∃ p ∈ d.iam.principals, p.id = x ∧ p.Usable

theorem usable_of_row {key : String × String} {l : LocalUserIdentity} (hl : l ∈ d.oidcRows key) {x : Uuid}
    (h : .returned x = ensureUsable l) : d.UsablePrincipal x := by
  obtain ⟨hid, hactive, hdeleted⟩ := usable_of_returned h
  simp only [Database.oidcRows, List.mem_flatMap, List.mem_map, List.mem_filter] at hl
  obtain ⟨y, -, u, -, p, ⟨hp, -⟩, rfl⟩ := hl
  exact ⟨p, hp, hid, hactive, hdeleted⟩

theorem find_returned {identity : AuthenticatedIdentity} {k : Option LocalUserIdentity → Tx} {x : Uuid}
    (hsome : ∀ l, k (some l) = .rollback (ensureUsable l))
    (hnone : ((k none).alone d).2 = .returned x → ((k none).alone d).1.UsablePrincipal x)
    (h : ((findByOidcSubject identity k).alone d).2 = .returned x) :
    ((findByOidcSubject identity k).alone d).1.UsablePrincipal x := by
  simp only [findByOidcSubject, Txn.read, Txn.alone] at h ⊢
  cases hrows : d.oidcRows identity.key with
  | nil =>
    simp only [hrows] at h ⊢
    exact hnone h
  | cons l ls =>
    cases ls with
    | nil =>
      simp only [hrows, hsome, Txn.alone] at h ⊢
      exact usable_of_row (hrows ▸ List.mem_singleton.2 rfl) h.symm
    | cons _ _ =>
      simp only [hrows, Txn.alone] at h
      cases h

theorem provisionUser_returned {x : Uuid} (h : ((provisionUser c).alone d).2 = .returned x) :
    ((provisionUser c).alone d).1.UsablePrincipal x := by
  simp only [provisionUser, Txn.alone] at h ⊢
  split at h
  · simp only [insertUser, Txn.alone] at h ⊢
    split at h
    · simp only [insertIdentifier, Txn.alone] at h ⊢
      generalize identifierViolations _ _ = es at h ⊢
      unfold identifierInserted at h ⊢
      split at h
      · refine ⟨c.principal, List.mem_append_right _ (List.mem_singleton.2 rfl), Outcome.returned.inj h, rfl, rfl⟩
      · split_ifs at h <;> cases h
      · cases h
    · cases h
  · cases h

/-- **No disabled or retired principal** is returned, whatever the database. -/
theorem returned_usable {p : Tx} (hp : resolve true c rs = some p) {x : Uuid} (h : (p.alone d).2 = .returned x) :
    (p.alone d).1.UsablePrincipal x := by
  unfold resolve at hp
  split at hp
  · cases hp
    exact find_returned (fun _ => rfl) (fun h => by cases h) h
  · cases hp
    exact find_returned (fun _ => rfl) provisionUser_returned h
  · cases hp
    exact find_returned (fun _ => rfl) (fun h => by cases h) h
  · cases hp

/-- what a call has replied, if it has not to go on -/
theorem settled_of_log {s : State} (hs : Holds (Grown db calls) (Idle calls) (Busy calls) s) {i : ℕ}
    (hc : calls[i]? = some c) (ho : (i, o) ∈ s.log) : o = .absent ∨ o = .alreadyProvisioned ∨ Settled c s.db o := by
  have hmem := mem_results.2 ho
  cases hi : s.sessions i with
  | none => exact settled_of_mem (hs.idle i hi c hc) hmem
  | some p =>
    obtain ⟨c', hc', hstage, -⟩ := hs.busy i p hi
    obtain rfl : c' = c := Option.some.inj (hc'.symm.trans hc)
    generalize results s i = rs at hmem hstage
    have hgoing : ∀ rs : List Outcome, (∀ o ∈ rs, o = .absent ∨ o = .alreadyProvisioned) → o ∈ rs →
        o = .absent ∨ o = .alreadyProvisioned ∨ Settled c' s.db o := fun rs h ho => (h o ho).imp_right .inl
    cases hstage with
    | rollback h => exact settled_of_mem h (List.mem_append_left _ hmem)
    | resolveAfterConflict => exact hgoing _ (by decide) hmem
    | _ => exact hgoing _ (by decide) hmem

/-- the user of an identifier that a call has written -/
theorem linked_of_identifier (hd : d.Keys) (hx : c.identifier ∈ d.identifiers) :
    ∃ l, d.Linked c.identity.key l ∧ l.principalId = c.principalId := by
  obtain ⟨p, hp, hid⟩ := hd.userRefs _ (hd.identifierRefs _ hx)
  exact ⟨_, ⟨c.identifier, hx, c.identifier_of, p, hp, hid, rfl⟩, hid⟩

/-- the principal of a call is in the database with its identifier, or not at all -/
theorem Grown.unborn (h : Grown db calls d) (hfresh : Fresh db calls) (hc : c ∈ calls)
    (hx : c.identifier ∉ d.identifiers) : c.Unborn d := by
  refine ⟨fun hmem => ?_, fun hmem => ?_⟩
  · obtain ⟨p, hp, hid⟩ := List.mem_map.1 hmem
    rcases h.principals p hp with hp | ⟨c', hc', rfl, hx'⟩
    · exact (hfresh.unborn c hc).1 (List.mem_map.2 ⟨p, hp, hid⟩)
    · rw [List.inj_on_of_nodup_map hfresh.principalIds hc' hc hid] at hx'
      exact hx hx'
  · obtain ⟨y, hy, hid⟩ := List.mem_map.1 hmem
    rcases h.identifiers y hy with hy' | ⟨c', hc', rfl⟩
    · exact (hfresh.unborn c hc).2 (List.mem_map.2 ⟨y, hy', hid⟩)
    · rw [List.inj_on_of_nodup_map hfresh.identifierIds hc' hc hid] at hy
      exact hx hy

/-- an identity that is not usable was there from the start -/
theorem Grown.raised (h : Grown db calls d) (hdb : db.Keys) (hfresh : Fresh db calls) {key : String × String}
    {l : LocalUserIdentity} (hl : d.Linked key l) {e : ResolutionError} (he : .raised e = ensureUsable l) :
    l ∈ db.oidcRows key := by
  obtain ⟨x, hx, hof, p, hp, hid, hlp⟩ := hl
  rcases h.identifiers x hx with hx' | ⟨c, hc, rfl⟩
  · obtain ⟨l', hl'⟩ := hdb.linked_of_taken ⟨x, hx', hof⟩
    have heq : l = l' := h.keys.linked_unique ⟨x, hx, hof, p, hp, hid, hlp⟩ (h.linked key l' hl')
    rw [heq, hdb.rows_of_linked hl']
    exact List.mem_singleton.2 rfl
  · rcases h.principals p hp with hp' | ⟨c', -, rfl, -⟩
    · exact absurd (List.mem_map.2 ⟨p, hp', hid⟩) (hfresh.unborn c hc).1
    · rw [hlp] at he
      cases he

/-! ## Convergence -/

/-- what the calls that started on the database `db` have come to -/
structure Converged (db : Database) (calls : List Call) (s : State) : Prop where
  /-- one principal for each identity -/
  agree : ∀ i j c c' x y, calls[i]? = some c → calls[j]? = some c' → (i, .returned x) ∈ s.log →
    (j, .returned y) ∈ s.log → (x = y ↔ c.identity.key = c'.identity.key)
  usable : ∀ i c x, calls[i]? = some c → (i, .returned x) ∈ s.log → s.db.UsablePrincipal x
  /-- with one row in each table -/
  rows : ∀ i c x, calls[i]? = some c → (i, .returned x) ∈ s.log →
    (∃ y, s.db.identifiers.filter (·.Of c.identity.key) = [y] ∧ y.userPrincipalId = x) ∧
      s.db.iam.users.count x = 1 ∧ s.db.iam.principals.countP (·.id = x) = 1
  /-- of a call that has lost nothing remains -/
  rolledBack : ∀ i c x, calls[i]? = some c → (i, .returned x) ∈ s.log → x ≠ c.principalId →
    c.Unborn s.db ∧ c.principalId ∉ s.db.iam.users
  /-- a call is refused only if its identity was disabled or retired from the start -/
  raised : ∀ i c e, calls[i]? = some c → (i, .raised e) ∈ s.log →
    ∃ l ∈ db.oidcRows c.identity.key, ensureUsable l = .raised e

theorem converged (hdb : db.Keys) (hfresh : Fresh db calls) {s : State}
    (hs : Holds (Grown db calls) (Idle calls) (Busy calls) s) : Converged db calls s := by
  have hkeys := hs.global.keys
  have hreturned : ∀ {i : ℕ} {c : Call} {x : Uuid}, calls[i]? = some c → (i, .returned x) ∈ s.log →
      ∃ l, s.db.Linked c.identity.key l ∧ .returned x = ensureUsable l := by
    intro i c x hc hx
    rcases settled_of_log hs hc hx with h | h | h
    · cases h
    · cases h
    · exact h
  refine ⟨?_, ?_, ?_, ?_, ?_⟩
  · intro i j c c' x y hc hc' hx hy
    obtain ⟨l, hl, hxl⟩ := hreturned hc hx
    obtain ⟨l', hl', hyl⟩ := hreturned hc' hy
    have hidx := (usable_of_returned hxl).1
    have hidy := (usable_of_returned hyl).1
    constructor
    · intro hxy
      exact hkeys.linked_injective hl hl' (hidx.trans (hxy.trans hidy.symm))
    · intro hkey
      rw [hkey] at hl
      rw [hkeys.linked_unique hl hl'] at hidx
      exact hidx.symm.trans hidy
  · intro i c x hc hx
    obtain ⟨l, hl, hxl⟩ := hreturned hc hx
    exact usable_of_row (hkeys.rows_of_linked hl ▸ List.mem_singleton.2 rfl) hxl
  · intro i c x hc hx
    obtain ⟨l, ⟨y, hy, hof, p, hp, hid, hlp⟩, hxl⟩ := hreturned hc hx
    have hpx : p.id = x := by
      have h := (usable_of_returned hxl).1
      rw [hlp] at h
      exact h
    have hyx : y.userPrincipalId = x := hid.symm.trans hpx
    refine ⟨⟨y, hkeys.filter_of hy hof, hyx⟩, ?_, ?_⟩
    · exact List.count_eq_one_of_mem hkeys.users (hyx ▸ hkeys.identifierRefs y hy)
    · exact Table.countP_eq_one hkeys.principalIds (fun q _ hq => hq) hp hpx
  · intro i c x hc hx hne
    obtain ⟨l, hl, hxl⟩ := hreturned hc hx
    have hunborn : c.Unborn s.db := by
      refine hs.global.unborn hfresh (List.mem_of_getElem? hc) fun hmem => hne ?_
      obtain ⟨l', hl', hid⟩ := linked_of_identifier hkeys hmem
      rw [hkeys.linked_unique hl' hl] at hid
      exact (usable_of_returned hxl).1.symm.trans hid
    exact ⟨hunborn, hunborn.user hkeys⟩
  · intro i c e hc he
    rcases settled_of_log hs hc he with h | h | ⟨l, hl, hel⟩
    · cases h
    · cases h
    · exact ⟨l, hs.global.raised hdb hfresh hl hel, hel.symm⟩

/-- **Provisioning converges.** With just-in-time provisioning, any number of calls whose identities fit their columns, and
no other writer:
- in every state that an interleaving reaches, the calls that have returned have returned the same principal if and only if
  they are about the same identity; it is usable, and it, its user and its active identifier are one row each; nothing
  remains of a call that has lost; a call is refused only if its identity was linked to a disabled or retired principal;
- in every fair interleaving all calls come to an end, and those whose identity was not linked to such a principal return;
- no transaction of a call, in any database, returns a disabled or retired principal. -/
theorem provisioning_converges (db : Database) (hdb : db.Keys) (calls : List Call) (hfit : ∀ c ∈ calls, c.Fits)
    (hfresh : Fresh db calls) :
    (∀ turns, Converged db calls (run (turn (resolves true calls)) (Sys.init db) turns)) ∧
    (∀ turns, Fair (· < calls.length) turns → ∃ k, ∀ i c, calls[i]? = some c →
      let s := run (turn (resolves true calls)) (Sys.init db) (firstOf turns k)
      Finished (resolves true calls) s i ∧
        ((∀ l ∈ db.oidcRows c.identity.key, l.isActive = true ∧ l.deletedAt = none) → ∃ x, (i, .returned x) ∈ s.log)) ∧
    ∀ c rs p d x, resolve true c rs = some p → (p.alone d).2 = .returned x → (p.alone d).1.UsablePrincipal x := by
  refine ⟨fun turns => converged hdb hfresh (holds hdb hfit hfresh turns), fun turns hfair => ?_,
    fun c rs p d x hp hx => returned_usable hp hx⟩
  have hwait : ∀ turns i j k, let s := run (turn (resolves true calls)) (Sys.init db) turns
      WaitsFor s i j → ¬ WaitsFor s j k := fun turns i j k h => not_waiting hfresh (holds hdb hfit hfresh turns) h k
  obtain ⟨k, hk⟩ := finish_rule (bounded calls) hwait hfair
  refine ⟨k, fun i c hc => ⟨hk i, fun husable => ?_⟩⟩
  have hs := holds hdb hfit hfresh (firstOf turns k)
  generalize run (turn (resolves true calls)) (Sys.init db) (firstOf turns k) = s at hk hs ⊢
  obtain ⟨hsession, hflow⟩ := hk i
  rw [resolves, hc] at hflow
  obtain ⟨o, ho, l, hl, hol⟩ := settled_of_finished (hs.idle i hsession c hc) hflow
  cases o with
  | returned x => exact ⟨x, mem_results.1 ho⟩
  | raised e =>
    obtain ⟨hactive, hdeleted⟩ := husable l (hs.global.raised hdb hfresh hl hol)
    simp [ensureUsable, hactive, hdeleted] at hol
  | absent => unfold ensureUsable at hol; split_ifs at hol
  | alreadyProvisioned => unfold ensureUsable at hol; split_ifs at hol

/-- the schema `iam` without a row -/
def noUsers : Database where
  iam := ⟨[], [], [], [], [], [], [], []⟩
  identifiers := []

/-- two first logins of the user -/
def firstLogins : List Call :=
  let identity : AuthenticatedIdentity := ⟨"https://auth.example.com/realms/atlas", "user-123", some "Integration User"⟩
  [⟨identity, 10, 20, 5⟩, ⟨identity, 11, 21, 6⟩]

/-- the two in turns: the second creator waits for the first, and looks again -/
theorem provisioning_converges_race :
    let s := run (turn (resolves true firstLogins)) (Sys.init noUsers) (firstOf (· % 2) 26)
    s.log = [(0, .absent), (1, .absent), (0, .returned 10), (1, .alreadyProvisioned), (1, .returned 10)] ∧
      Converged noUsers firstLogins s := by
  have hkeys : noUsers.Keys := by constructor <;> decide
  have hfresh : Fresh noUsers firstLogins := ⟨fun c _ => ⟨List.not_mem_nil, List.not_mem_nil⟩, by decide, by decide⟩
  exact ⟨by decide, (provisioning_converges noUsers hkeys firstLogins (by decide) hfresh).1 _⟩

end AtlasRag.Identity.Provisioning
