/-
Confinement: what callers can do to the schema `iam` if none of them has one of its permissions.

However their calls interleave, they are provisioned and nothing else happens to the schema: nobody comes to have a
permission that he did not have, or loses one, and every service that commits was permitted to its caller from the start.

A newcomer's UUID could be that of another principal, if the insert did not hold its key until the commit; so the proof
goes through the locks. That no service of the schema `iam` commits follows from what the permissions are, and what they
are from that no service commits; the induction over the run carries both.

Results:
- `entitled_grown`: newcomers change nobody's permissions;
- `confined_step`: one step;
- `confinement`: every run (`confinement_intrusion`: a newcomer who asks for a permission).

Premises (`Confinable`): the first database meets the constraints of the schema `iam` and the foreign key of the identifiers,
and no identity of the callers is linked to a user with a permission of the schema.
-/
import AtlasRag.Api.Mediation

namespace AtlasRag.Api

open AtlasRag.Lib AtlasRag.Lib.LockMode AtlasRag.Platform AtlasRag.Identity
open AtlasRag.Lib.Transaction (Txn)
open AtlasRag.Identity.Provisioning (AuthenticatedIdentity)

/-- `x` acts for a principal with an open grant of the permission -/
def Entitled (db : Iam) (x : Uuid) (key : String) : Prop := ∃ p, db.Effective x p ∧ db.Granted p key

/-! ## Newcomers -/

/-- the database after the provisionings of `calls` -/
def grown (db : Provisioning.Database) (calls : List Provisioning.Call) : Provisioning.Database where
  iam := { db.iam with
    principals := db.iam.principals ++ calls.map (·.principal)
    users := db.iam.users ++ calls.map (·.principalId) }
  identifiers := db.identifiers ++ calls.map (·.identifier)

/-- they have identities of `K`, and UUIDs of their own -/
structure Newcomers (db : Provisioning.Database) (K : Set (String × String)) (calls : List Provisioning.Call) : Prop where
  keys : ∀ c ∈ calls, c.identity.key ∈ K
  fresh : ∀ c ∈ calls, c.principalId ∉ db.iam.principals.map (·.id)
  nodup : (calls.map (·.principalId)).Nodup

section Newcomers

variable {db : Provisioning.Database} {K : Set (String × String)} {calls : List Provisioning.Call} {x y p : Uuid}

theorem write_grown (c : Provisioning.Call) : c.write (grown db calls) = grown db (calls ++ [c]) := by
  simp [Provisioning.Call.write, Provisioning.Database.addPrincipal, Provisioning.Database.addUser,
    Provisioning.Database.addIdentifier, grown]

theorem ids_grown : (grown db calls).iam.principals.map (·.id) =
    db.iam.principals.map (·.id) ++ calls.map (·.principalId) := by
  simp [grown, Provisioning.Call.principal, Function.comp_def]

theorem Newcomers.write (h : Newcomers db K calls) {c : Provisioning.Call} (hkey : c.identity.key ∈ K)
    (hfresh : c.principalId ∉ (grown db calls).iam.principals.map (·.id)) : Newcomers db K (calls ++ [c]) := by
  rw [ids_grown, List.mem_append, not_or] at hfresh
  refine ⟨fun c' hc' => ?_, fun c' hc' => ?_, ?_⟩
  · rcases List.mem_append.1 hc' with hc' | hc'
    · exact h.keys c' hc'
    · rw [List.mem_singleton.1 hc']
      exact hkey
  · rcases List.mem_append.1 hc' with hc' | hc'
    · exact h.fresh c' hc'
    · rw [List.mem_singleton.1 hc']
      exact hfresh.1
  · rw [List.map_append]
    exact Table.nodup_concat h.nodup hfresh.2

theorem mem_principals_grown (h : Newcomers db K calls) {q : Principal} (hq : q ∈ (grown db calls).iam.principals)
    (hid : q.id ∈ db.iam.principals.map (·.id)) : q ∈ db.iam.principals := by
  rcases List.mem_append.1 hq with hq | hq
  · exact hq
  · obtain ⟨c, hc, rfl⟩ := List.mem_map.1 hq
    exact absurd hid (h.fresh c hc)

/-- nothing changes for a principal of the first database -/
theorem active_grown (h : Newcomers db K calls) {ty : PrincipalType} (hx : x ∈ db.iam.principals.map (·.id)) :
    (grown db calls).iam.Active ty x ↔ db.iam.Active ty x := by
  constructor
  · intro ⟨q, hq, hid, hty, husable⟩
    exact ⟨q, mem_principals_grown h hq (hid ▸ hx), hid, hty, husable⟩
  · intro ⟨q, hq, hid, hty, husable⟩
    exact ⟨q, List.mem_append_left _ hq, hid, hty, husable⟩

theorem mem_ids {db : Iam} (hq : ∃ q ∈ db.principals, q.id = x) : x ∈ db.principals.map (·.id) := by
  obtain ⟨q, hq, hid⟩ := hq
  exact List.mem_map.2 ⟨q, hq, hid⟩

/-- the schema's constraints hold on -/
theorem admissible_grown (hadm : db.iam.Admissible) (h : Newcomers db K calls) : (grown db calls).iam.Admissible where
  principalIds := by
    rw [ids_grown]
    refine List.Nodup.append hadm.principalIds h.nodup fun x hx hx' => ?_
    obtain ⟨c, hc, rfl⟩ := List.mem_map.1 hx'
    exact h.fresh c hc hx
  principals q hq := by
    rcases List.mem_append.1 hq with hq | hq
    · exact hadm.principals q hq
    · obtain ⟨c, -, rfl⟩ := List.mem_map.1 hq
      simp [Principal.defects, Provisioning.Call.principal]
  users u hu := by
    rcases List.mem_append.1 hu with hu | hu
    · obtain ⟨q, hq, hid⟩ := hadm.users u hu
      exact ⟨q, List.mem_append_left _ hq, hid⟩
    · obtain ⟨c, hc, rfl⟩ := List.mem_map.1 hu
      exact ⟨c.principal, List.mem_append_right _ (List.mem_map_of_mem hc), rfl⟩
  roles r hr := by
    obtain ⟨q, hq, hid⟩ := hadm.roles r hr
    exact ⟨q, List.mem_append_left _ hq, hid⟩
  roleKeys := hadm.roleKeys
  groups g hg := by
    obtain ⟨q, hq, hid⟩ := hadm.groups g hg
    exact ⟨q, List.mem_append_left _ hq, hid⟩
  userRoles a ha := by
    obtain ⟨hdefects, huser, hrole⟩ := hadm.userRoles a ha
    exact ⟨hdefects, List.mem_append_left _ huser, hrole⟩
  assignments := hadm.assignments
  memberships m hm := by
    obtain ⟨hdefects, hgroup, q, hq, hid⟩ := hadm.memberships m hm
    exact ⟨hdefects, hgroup, q, List.mem_append_left _ hq, hid⟩
  openMembers := hadm.openMembers
  grants g hg := by
    obtain ⟨hdefects, hkey, q, hq, hid⟩ := hadm.grants g hg
    exact ⟨hdefects, hkey, q, List.mem_append_left _ hq, hid⟩
  openGranted := hadm.openGranted

theorem activeMember_grown (hadm : db.iam.Admissible) (h : Newcomers db K calls) {g : Uuid} :
    (grown db calls).iam.ActiveMember x g ↔ db.iam.ActiveMember x g := by
  refine and_congr_right fun hm => active_grown h ?_
  obtain ⟨m, hm, -, rfl, -⟩ := hm
  exact mem_ids (hadm.groups _ (hadm.memberships m hm).2.1)

theorem effective_grown (hadm : db.iam.Admissible) (h : Newcomers db K calls) (hx : x ∈ db.iam.principals.map (·.id)) :
    (grown db calls).iam.Effective x p ↔ db.iam.Effective x p := by
  have hmember : (grown db calls).iam.ActiveMember = db.iam.ActiveMember := by
    funext y g
    exact propext (activeMember_grown hadm h)
  have huser : x ∈ (grown db calls).iam.users ↔ x ∈ db.iam.users := by
    refine ⟨fun hu => ?_, fun hu => List.mem_append_left _ hu⟩
    rcases List.mem_append.1 hu with hu | hu
    · exact hu
    · obtain ⟨c, hc, rfl⟩ := List.mem_map.1 hu
      exact absurd hx (h.fresh c hc)
  have hrole : (grown db calls).iam.Assigned x p ∧ (grown db calls).iam.Active .role p ↔
      db.iam.Assigned x p ∧ db.iam.Active .role p := by
    refine and_congr_right fun ha => active_grown h ?_
    obtain ⟨a, ha, -, rfl, -⟩ := ha
    obtain ⟨r, hr, hid⟩ := List.mem_map.1 (hadm.userRoles a ha).2.2
    exact hid ▸ mem_ids (hadm.roles r hr)
  unfold Iam.Effective Iam.ActiveUser
  rw [huser, active_grown h hx, hrole, hmember]

/-- who has a permission is a principal of the first database -/
theorem mem_of_entitled (hadm : db.iam.Admissible) {key : String}
    (hx : Entitled (grown db calls).iam x key) : x ∈ db.iam.principals.map (·.id) := by
  obtain ⟨p, ⟨-, hp⟩, g, hg, rfl, -⟩ := hx
  rcases hp with hp | ⟨⟨a, ha, rfl, -⟩, -⟩ | hp
  · exact hp ▸ mem_ids (hadm.grants g hg).2.2
  · exact mem_ids (hadm.users _ (hadm.userRoles a ha).2.1)
  · obtain ⟨y, ⟨⟨m, hm, rfl, -⟩, -⟩, -⟩ := Relation.TransGen.head'_iff.1 hp
    obtain ⟨q, hq, hid, -⟩ := (hadm.memberships m hm).2.2
    exact mem_ids ⟨q, hq, hid⟩

theorem mem_of_entitled_first (hadm : db.iam.Admissible) {key : String} (hx : Entitled db.iam x key) :
    x ∈ db.iam.principals.map (·.id) := by
  have hdb : (grown db []).iam = db.iam := by simp [grown]
  rw [← hdb] at hx
  exact mem_of_entitled hadm hx

/-- **Newcomers** change nobody's permissions. -/
theorem entitled_grown (hadm : db.iam.Admissible) (h : Newcomers db K calls) {key : String} :
    Entitled (grown db calls).iam x key ↔ Entitled db.iam x key := by
  constructor
  · intro hx
    have hmem := mem_of_entitled hadm hx
    obtain ⟨p, hp, hg⟩ := hx
    exact ⟨p, (effective_grown hadm h hmem).1 hp, hg⟩
  · intro hx
    have hmem := mem_of_entitled_first hadm hx
    obtain ⟨p, hp, hg⟩ := hx
    exact ⟨p, (effective_grown hadm h hmem).2 hp, hg⟩

/-- the principal of an identity is that of the first database, or a newcomer -/
theorem linked_grown (hadm : db.iam.Admissible) (hrefs : ∀ y ∈ db.identifiers, y.userPrincipalId ∈ db.iam.users)
    (h : Newcomers db K calls) {key : String × String} {l : Provisioning.LocalUserIdentity}
    (hl : (grown db calls).Linked key l) : db.Linked key l ∨ l.principalId ∉ db.iam.principals.map (·.id) := by
  obtain ⟨y, hy, hof, q, hq, hid, rfl⟩ := hl
  rcases List.mem_append.1 hy with hy | hy
  · have hmem : q.id ∈ db.iam.principals.map (·.id) := hid ▸ mem_ids (hadm.users _ (hrefs y hy))
    exact .inl ⟨y, hy, hof, q, mem_principals_grown h hq hmem, hid, rfl⟩
  · obtain ⟨c, hc, rfl⟩ := List.mem_map.1 hy
    have hid : q.id = c.principalId := hid
    exact .inr fun hmem => h.fresh c hc (hid ▸ hmem)

end Newcomers

/-! ## Sessions -/

section Sessions

variable {db : Database} {K : Set (String × String)}

/-- only newcomers have been added -/
def Good (db : Database) (K : Set (String × String)) (d : Provisioning.Database) : Prop :=
  ∃ calls, Newcomers db.provisioning K calls ∧ d = grown db.provisioning calls

/-- the commit of a provisioning: its UUID is locked, and is that of nobody -/
def Joins (K : Set (String × String)) (L : Set Provisioning.Row) (d d' : Provisioning.Database) : Prop :=
  d' = d ∨ ∃ c : Provisioning.Call, c.identity.key ∈ K ∧ L (.principal c.principalId) ∧
    c.principalId ∉ d.iam.principals.map (·.id) ∧ d' = c.write d

variable {L L' : Set Provisioning.Row} {d d' : Provisioning.Database}

theorem Good.write (h : Good db K d) {c : Provisioning.Call} (hkey : c.identity.key ∈ K)
    (hfresh : c.principalId ∉ d.iam.principals.map (·.id)) : Good db K (c.write d) := by
  obtain ⟨calls, hnew, rfl⟩ := h
  exact ⟨calls ++ [c], hnew.write hkey hfresh, write_grown c⟩

/-- a session that runs a transaction of `resolve` -/
abbrev SafeLogin (db : Database) (K : Set (String × String)) (p : Provisioning.Tx) (L : Set Provisioning.Row)
    (d : Provisioning.Database) : Prop := Transaction.Safe (Good db K) (fun _ L => Joins K L) p L d

/-- nobody else takes a UUID whose key is locked -/
theorem fresh_later {x : Uuid}
    (hd : Transaction.Interference (Good db K) (fun (_ : Provisioning.Outcome) L => Joins K L) L d d')
    (hL : L (.principal x)) (hfresh : x ∉ d.iam.principals.map (·.id)) : x ∉ d'.iam.principals.map (·.id) := by
  refine hd.preserves (P := fun d => x ∉ d.iam.principals.map (·.id)) (fun a b _ M _ hdisj hjoins ha => ?_) hfresh
  rcases hjoins with rfl | ⟨c, -, hM, -, rfl⟩
  · exact ha
  · have hids : (c.write a).iam.principals.map (·.id) = a.iam.principals.map (·.id) ++ [c.principalId] := by
      simp [Provisioning.Call.write, Provisioning.Database.addPrincipal, Provisioning.Database.addUser,
        Provisioning.Database.addIdentifier, Provisioning.Call.principal]
    rw [hids, List.mem_append, List.mem_singleton, not_or]
    refine ⟨ha, ?_⟩
    rintro rfl
    exact Set.disjoint_left.1 hdisj hM hL

theorem safe_lookup {identity : AuthenticatedIdentity} {k : Option Provisioning.LocalUserIdentity → Provisioning.Tx}
    (hsome : ∀ l, k (some l) = .rollback (Provisioning.ensureUsable l)) (hnone : ∀ L d, SafeLogin db K (k none) L d) :
    SafeLogin db K (Provisioning.findByOidcSubject identity k) L d := by
  refine Transaction.safe_read fun L' d' _ => ?_
  split
  · exact hnone L' d'
  · rw [hsome]
    exact Transaction.safe_rollback _
  · exact Transaction.safe_rollback _

theorem safe_identifierInserted {c : Provisioning.Call} (hkey : c.identity.key ∈ K) (hL : L (.principal c.principalId))
    (hfresh : c.principalId ∉ d.iam.principals.map (·.id)) (es : List Violation) :
    SafeLogin db K (Provisioning.identifierInserted c es) L d := by
  unfold Provisioning.identifierInserted
  split
  · refine Transaction.safe_of_commit fun d' hd hgood => ?_
    have hfresh' := fresh_later hd hL hfresh
    exact ⟨hgood.write hkey hfresh', .inr ⟨c, hkey, hL, hfresh', rfl⟩⟩
  · split_ifs <;> exact Transaction.safe_rollback _
  · exact Transaction.safe_rollback _

theorem safe_provisionUser {c : Provisioning.Call} (hkey : c.identity.key ∈ K) :
    SafeLogin db K (Provisioning.provisionUser c) L d := by
  refine Transaction.safe_stmt fun L₁ d₁ h₁ hrows => ?_
  have hlock₁ : L₁ (.principal c.principalId) := hrows _ List.mem_cons_self
  split
  · next hviolations =>
    have hfresh₁ : c.principalId ∉ d₁.iam.principals.map (·.id) := by
      unfold Provisioning.principalViolations at hviolations
      exact uniqueIndex_eq_nil.1 (List.append_eq_nil_iff.1 hviolations).2
    refine Transaction.safe_stmt fun L₂ d₂ h₂ _ => ?_
    split
    · refine Transaction.safe_stmt fun L₃ d₃ h₃ _ => ?_
      have hlater := h₂.trans h₃
      exact safe_identifierInserted hkey (hlater.locks hlock₁) (fresh_later hlater.meanwhile hlock₁ hfresh₁) _
    · exact Transaction.safe_rollback _
  · exact Transaction.safe_rollback _

/-- **The transactions of `resolve`** are safe. -/
theorem safe_resolve {jitEnabled : Bool} {login : Provisioning.Call} {rs : List Provisioning.Outcome}
    {p : Provisioning.Tx} (hkey : login.identity.key ∈ K) (hp : Provisioning.resolve jitEnabled login rs = some p) :
    SafeLogin db K p L d := by
  unfold Provisioning.resolve at hp
  split at hp
  · cases hp
    exact safe_lookup (fun _ => rfl) fun _ _ => Transaction.safe_rollback _
  · cases hp
    exact safe_lookup (fun _ => rfl) fun _ _ => safe_provisionUser hkey
  · cases hp
    exact safe_lookup (fun _ => rfl) fun _ _ => Transaction.safe_rollback _
  · cases hp

/-- a session of the gateway -/
abbrev SafeTx (db : Database) (K : Set (String × String)) (p : Tx) (L : Set Lock) (e : Database) : Prop :=
  Safe Lock.Conflicts (fun e => Good db K e.provisioning)
    (fun _ L e e' => Joins K (fun x => L (.provisioning x)) e.provisioning e'.provisioning) p L e

/-- every session is safe -/
abbrev SafeSessions (db : Database) (K : Set (String × String)) (b : Sys Database Lock Answer) : Prop :=
  Inv Lock.Conflicts (fun e => Good db K e.provisioning)
    (fun _ L e e' => Joins K (fun x => L (.provisioning x)) e.provisioning e'.provisioning) b

theorem safe_resolveTxn {p : Provisioning.Tx} {L : Set Lock} {e : Database}
    (h : SafeLogin db K p (fun x => L (.provisioning x)) e.provisioning) : SafeTx db K (resolveTxn p) L e := by
  unfold SafeTx resolveTxn
  refine safe_zoom ?_ ?_ ?_ ?_ h
  · exact fun x y h => Lock.provisioning.inj h
  · exact fun e h => h
  · intro a b r M L hG hM hjoins
    refine .single ⟨hG, .absent, fun x => M (.provisioning x), ?_, hjoins⟩
    exact Set.disjoint_left.2 fun x hx hy => hM _ _ hx hy (decide_eq_true rfl)
  · exact fun r L e d hG hd hjoins => ⟨hd, hjoins⟩

theorem safe_serves {c : ℕ} {x : Uuid} {e : Endpoint} {p : Tx} (h : Serves c x e p) (hiam : ¬ e.ChangesIam) {L : Set Lock}
    {d : Database} : SafeTx db K p L d := by
  refine safe_of_outcomes h.outcomes fun w a ha d L hgood => ?_
  obtain ⟨r, -, -, hw⟩ := ha
  rw [hw hiam]
  exact ⟨hgood, .inl rfl⟩

end Sessions

/-! ## Every run -/

/-- the callers have identities of `K` -/
def Callers (settings : Settings) (K : Set (String × String)) (_ : St) : Op → Prop
  | .receive _ _ verifier authorization _ _ _ =>
    ∀ identity, getAuthenticatedIdentity settings verifier authorization = .ok identity → identity.key ∈ K
  | _ => True

/-- the principal has no permission of the schema `iam` -/
def Harmless (db : Iam) (x : Uuid) : Prop := ∀ P : Permission, P.Iam → ¬ Entitled db x P.value

/-- constraints of the schema, and callers without a permission on it -/
structure Confinable (db : Database) (K : Set (String × String)) : Prop where
  admissible : db.iam.Admissible
  /-- the foreign key of the identifiers -/
  identifierRefs : ∀ y ∈ db.identifiers, y.userPrincipalId ∈ db.iam.users
  harmless : ∀ key ∈ K, ∀ l, db.provisioning.Linked key l → Harmless db.iam l.principalId

section Runs

variable {settings : Settings} {db : Database} {K : Set (String × String)} {s : St}

variable (db K) in
/-- the facts that do not depend on the time -/
def standing : Facts where
  received _ _ identity _ := identity.key ∈ K
  identified _ _ _ x _ := Harmless db.iam x
  actsFor _ _ _ x ids _ := Harmless db.iam x ∧ ∀ p ∈ ids, ∀ key, db.iam.Granted p key → Entitled db.iam x key
  permitted _ e _ x _ := ∃ P, e.permission = some P ∧ ¬ P.Iam ∧ Entitled db.iam x P.value
  unchanged _ _ _ := True

theorem standing_closed (hdb : Confinable db K) (hgood : Good db K s.db.provisioning) : (standing db K).Closed s := by
  obtain ⟨calls, hnew, heq⟩ := hgood
  have hiam : s.db.iam = (grown db.provisioning calls).iam := congrArg (·.iam) heq
  constructor
  · intro c e identity x hkey hl P hP hx
    rw [heq] at hl
    rcases linked_grown hdb.admissible hdb.identifierRefs hnew hl with hl | hnot
    · exact hdb.harmless _ hkey _ hl P hP hx
    · exact hnot (mem_of_entitled_first hdb.admissible hx)
  · intro c e identity x ids hharmless hids
    refine ⟨hharmless, fun p hp key hg => (entitled_grown hdb.admissible hnew).1 ⟨p, ?_, hg⟩⟩
    rw [hiam] at hids
    obtain ⟨S, hS, hmem⟩ := Iam.find_eq (admissible_grown hdb.admissible hnew) x le_rfl
    obtain rfl : S = ids := Option.some.inj (hS.symm.trans hids)
    exact (hmem p).1 hp
  · intro c e identity x ids P now hacts hP hhas _
    rw [hiam] at hhas
    obtain ⟨-, g, hg, hmem, hkey, -, hopen⟩ := of_decide_eq_true hhas
    have hentitled : Entitled db.iam x P.value := hacts.2 _ hmem _ ⟨g, hg, rfl, hkey, hopen⟩
    exact ⟨P, hP, fun hP => hacts.1 P hP hentitled, hentitled⟩

theorem standing_later (s s' : St) : (standing db K).Later s s' := ⟨fun h => h, fun h => h, fun h => h, fun h => h, fun h => h⟩

/-- what a run keeps: every session is safe, and what stands behind a call does not depend on the time -/
structure Confined (db : Database) (K : Set (String × String)) (s : St) : Prop where
  sessions : SafeSessions db K s.base
  compatible : Compatible Lock.Conflicts s.base
  holds : ∀ c, Holds (standing db K) s c

theorem Lock.conflicts_symm (x y : Lock) (h : x.Conflicts y) : y.Conflicts x := by
  cases x <;> cases y <;> simp only [Lock.Conflicts, Lock.conflicts, Bool.false_eq_true, decide_eq_true_eq] at h ⊢
  case knowledge.knowledge => exact Knowledge.Lock.conflicts_symm _ _ h
  case provisioning.provisioning => exact h.symm

theorem login_obligations : Obligations Lock.Conflicts Lock.Conflicts
    (fun (b : Sys Database Lock Answer) o => ∀ c p, o = .start c p → SafeTx db K p (fun _ => False) b.db)
    (fun e => Good db K e.provisioning)
    (fun _ L e e' => Joins K (fun x => L (.provisioning x)) e.provisioning e'.provisioning) where
  symm := Lock.conflicts_symm
  start _ c p hok _ := hok c p rfl
  apart _ i _ _ hcompatible _ _ k hk x y hx hy := hcompatible i k hk.symm x y hx hy

/-- a step of the sessions -/
theorem Confined.step (h : Confined db K s) (o : RowLock.Op Tx)
    (ho : ∀ c p, o = .start c p → SafeTx db K p (fun _ => False) s.db) :
    SafeSessions db K (LockMode.step Lock.Conflicts s.base o) ∧
      Compatible Lock.Conflicts (LockMode.step Lock.Conflicts s.base o) :=
  ⟨step_inv login_obligations h.compatible o ho h.sessions, compatible_step Lock.conflicts_symm o h.compatible⟩

/-- One step of a run in which no caller has a permission of the schema `iam` keeps what the run has kept. -/
theorem confined_step (hdb : Confinable db K) (h : Confined db K s) (o : Op) (ho : Callers settings K s o) :
    Confined db K (gatewayStep settings s o) := by
  have hbase : SafeSessions db K (gatewayStep settings s o).base ∧
      Compatible Lock.Conflicts (gatewayStep settings s o).base := by
    have hc := step_cases settings s o
    generalize (gatewayStep settings s o).base = base, (gatewayStep settings s o).committed = committed at hc ⊢
    cases hc with
    | same => exact ⟨h.sessions, h.compatible⟩
    | @resolve c id now t e login results p hcall hp =>
      refine h.step _ fun c' p' hstart => ?_
      cases hstart
      have hc := h.holds c
      unfold Holds at hc
      rw [hcall] at hc
      generalize s.base.sessions c = session, servedBy c s.committed = l at hc
      cases hc with
      | resolving hkey => exact safe_resolveTxn (safe_resolve hkey hp)
    | @serve c id now t e identity x replies q hcall hq =>
      refine h.step _ fun c' p' hstart => ?_
      cases hstart
      have hc := h.holds c
      unfold Holds at hc
      rw [hcall] at hc
      generalize s.base.sessions c = session, servedBy c s.committed = l at hc
      cases hc with
      | serving hpermitted =>
        obtain ⟨P, hP, hiam, -⟩ := hpermitted
        refine safe_serves (serves_command hq) ?_
        rintro ⟨P', hP', hiam'⟩
        obtain rfl : P = P' := Option.some.inj (hP.symm.trans hP')
        exact hiam hiam'
    | exec c => exact h.step _ fun c p hstart => by cases hstart
    | abort c => exact h.step _ fun c p hstart => by cases hstart
  refine ⟨hbase.1, hbase.2, holds_step h.holds ?_⟩
  refine ⟨standing_closed hdb h.sessions.good, standing_closed hdb hbase.1.good, standing_later _ _, ?_,
    fun _ _ _ _ => trivial⟩
  rintro c e verifier authorization principalId identifierId now identity rfl - hok
  exact ho identity hok

theorem confined_run (hdb : Confinable db K) (hs : Run (gatewayStep settings) (Callers settings K) (St.init db) s) :
    Confined db K s := by
  refine hs.inv (fun s o ho h => confined_step hdb h o ho) ⟨⟨?_, ?_, ?_⟩, ?_, fun c => .absent⟩
  · exact ⟨[], ⟨by simp, by simp, List.nodup_nil⟩, by simp [grown]; rfl⟩
  · exact fun x hx => absurd hx (by simp [St.init, Sys.init])
  · exact fun i p hp => by cases hp
  · exact fun _ _ _ _ _ hx => absurd hx (by simp [Sys.holds, St.init, Sys.init])

end Runs

/-- **Confinement.** If no caller acts for a principal with a permission of the schema `iam`, then in every run the schema only
gets newcomers with identities of the callers, nobody gains or loses a permission, and each service that commits is that of a
route whose permission, none of the schema `iam`, its caller has had from the start. -/
theorem confinement (settings : Settings) (db : Database) (K : Set (String × String)) (hdb : Confinable db K) (s : St)
    (hs : Run (gatewayStep settings) (Callers settings K) (St.init db) s) :
    (∃ calls, Newcomers db.provisioning K calls ∧ s.db.provisioning = grown db.provisioning calls) ∧
      (∀ x key, Entitled s.db.iam x key ↔ Entitled db.iam x key) ∧
      ∀ c x e r, (x, e, r) ∈ servedBy c s.committed →
        ∃ P, e.permission = some P ∧ ¬ P.Iam ∧ Entitled db.iam x P.value := by
  have h := confined_run hdb hs
  obtain ⟨calls, hnew, heq⟩ := h.sessions.good
  refine ⟨⟨calls, hnew, heq⟩, fun x key => ?_, fun c x e r hr => ?_⟩
  · have hiam : s.db.iam = (grown db.provisioning calls).iam := congrArg (·.iam) heq
    rw [hiam]
    exact entitled_grown hdb.admissible hnew
  · have hc := h.holds c
    unfold Holds at hc
    generalize s.calls c = call, s.base.sessions c = session, servedBy c s.committed = l at hc hr
    obtain ⟨identity, hpermitted⟩ := hc.permitted_of_mem hr
    exact hpermitted

def bob : AuthenticatedIdentity := ⟨"https://issuer", "bob", none⟩

def tokenOfBob (token : Str) : Verdict := if token = str "token" then .identity bob else .untrusted

/-- bob, whom nobody knows, asks to be granted a permission -/
def intrusion : List Op :=
  [.receive 0 (.grantPrincipalPermission 7 .iamGroupsManage) (some tokenOfBob) (some (str "Bearer token")) 7 8 5,
    .begin 0 9 5 5, .exec 0, .exec 0, .begin 0 9 5 5, .exec 0, .exec 0, .exec 0, .exec 0, .exec 0,
    .resolveEffectivePrincipals 0, .hasPermission 0 5]

theorem confinement_intrusion :
    (run (gatewayStep withTokens) (St.init staff) intrusion).db.iam.users = [1, 7] ∧
      ∀ key, ¬ Entitled (run (gatewayStep withTokens) (St.init staff) intrusion).db.iam 7 key := by
  have hdb : Confinable staff {bob.key} := by
    refine ⟨by constructor <;> decide, by decide, ?_⟩
    rintro key rfl l ⟨x, hx, hof, -⟩
    obtain rfl := List.mem_singleton.1 hx
    exact absurd hof (by decide)
  have hs : Run (gatewayStep withTokens) (Callers withTokens {bob.key}) (St.init staff)
      (run (gatewayStep withTokens) (St.init staff) intrusion) := by
    refine run_of_admissible (.of_forall (fun o ho s => ?_) _)
    simp only [intrusion, List.mem_cons, List.not_mem_nil, or_false] at ho
    rcases ho with rfl | rfl | rfl | rfl | rfl | rfl | rfl | rfl | rfl | rfl | rfl | rfl
    · intro identity hidentity
      have hbob : getAuthenticatedIdentity withTokens (some tokenOfBob) (some (str "Bearer token")) = .ok bob := by rfl
      cases hbob.symm.trans hidentity
      rfl
    all_goals trivial
  refine ⟨by decide +kernel, fun key hkey => ?_⟩
  have hfirst := ((confinement withTokens staff {bob.key} hdb _ hs).2.1 7 key).1 hkey
  have hmem : 7 ∈ staff.provisioning.iam.principals.map (·.id) := mem_of_entitled_first hdb.admissible hfirst
  exact absurd hmem (by decide)

end AtlasRag.Api
