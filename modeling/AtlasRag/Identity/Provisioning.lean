/-
Just-in-time provisioning: `resolve` finds the principal of an authenticated identity, or creates it.

A call runs up to three transactions: the lookup; `_provision`, which looks again and inserts a principal, its user and
its identifier; and, when the identifier conflicts with one that has been committed meanwhile, `_resolve_after_conflict`.
An INSERT holds its keys to the end of its transaction, so one that conflicts with an uncommitted row waits for its
outcome. The two UUIDs that a call may draw are part of the call.

Results:
- `Keys.rows`: what the lookup finds;
- `identifierViolations_eq`: why the identifier of a creator can be refused;
- `Keys.write`: the three inserts keep what the lookup rests on.
-/
import AtlasRag.Identity.Tables
import AtlasRag.Lib.Table
import AtlasRag.Lib.Workflow

namespace AtlasRag.Identity.Provisioning

open AtlasRag.Lib AtlasRag.Lib.RowLock AtlasRag.Lib.Table AtlasRag.Lib.Transaction AtlasRag.Lib.Workflow AtlasRag.Platform

/-- the claims that nothing here reads are left out -/
structure AuthenticatedIdentity where
  issuer : String
  subject : String
  displayName : Option String
deriving DecidableEq, Repr

/-- what the unique index `uq_user_identifiers_active_identity` and the lookup tell apart -/
def AuthenticatedIdentity.key (identity : AuthenticatedIdentity) : String × String := (identity.issuer, identity.subject)

/-- `display_name or subject` -/
def AuthenticatedIdentity.name (identity : AuthenticatedIdentity) : String :=
  match identity.displayName with
  | none => identity.subject
  | some name => if name = "" then identity.subject else name

/-! ## Tables -/

structure UserIdentifier where
  id : Uuid
  userPrincipalId : Uuid
  identifierType : String
  identifierValue : String
  normalizedValue : String
  issuer : String
  verifiedAt : Option Time
  validFrom : Option Time
  validTo : Option Time
deriving DecidableEq, Repr

def OIDC_SUBJECT : String := "oidc_subject"

namespace UserIdentifier

def indexKey (x : UserIdentifier) : String × String × String := (x.identifierType, x.issuer, x.normalizedValue)

/-- the active identifier of the identity -/
def Of (key : String × String) (x : UserIdentifier) : Prop :=
  x.identifierType = OIDC_SUBJECT ∧ x.issuer = key.1 ∧ x.normalizedValue = key.2 ∧ x.validTo = none

instance (key : String × String) (x : UserIdentifier) : Decidable (x.Of key) := inferInstanceAs (Decidable (_ ∧ _ ∧ _ ∧ _))

def defects (x : UserIdentifier) : List Violation :=
  textColumn "identifier_type" (some 100) (some x.identifierType) ++
  textColumn "identifier_value" (some 500) (some x.identifierValue) ++
  textColumn "normalized_value" (some 500) (some x.normalizedValue) ++
  textColumn "issuer" (some 500) (some x.issuer) ++
  checkThat "valid_to_after_valid_from" (∀ t ∈ x.validTo, ∀ f ∈ x.validFrom, f < t)

end UserIdentifier

structure Database where
  iam : Iam
  identifiers : List UserIdentifier
deriving DecidableEq, Repr

namespace Database

def activeKeys (db : Database) : List (String × String × String) :=
  (db.identifiers.filter (·.validTo = none)).map (·.indexKey)

def addPrincipal (db : Database) (p : Principal) : Database :=
  { db with iam := { db.iam with principals := db.iam.principals ++ [p] } }

def addUser (db : Database) (u : Uuid) : Database := { db with iam := { db.iam with users := db.iam.users ++ [u] } }

def addIdentifier (db : Database) (x : UserIdentifier) : Database := { db with identifiers := db.identifiers ++ [x] }

end Database

structure LocalUserIdentity where
  principalId : Uuid
  isActive : Bool
  deletedAt : Option Time
deriving DecidableEq, Repr

/-- the join of `find_by_oidc_subject` -/
def Database.oidcRows (db : Database) (key : String × String) : List LocalUserIdentity :=
  (db.identifiers.filter (·.Of key)).flatMap fun x =>
    (db.iam.users.filter (· = x.userPrincipalId)).flatMap fun u =>
      (db.iam.principals.filter (·.id = u)).map fun p => ⟨p.id, p.isActive, p.deletedAt⟩

def ACTIVE_IDENTITY_CONSTRAINT : String := "uq_user_identifiers_active_identity"

def principalViolations (db : Database) (p : Principal) : List Violation :=
  p.defects ++ uniqueIndex "pk_principals" (p.id ∈ db.iam.principals.map (·.id))

def userViolations (db : Database) (u : Uuid) (displayName : String) : List Violation :=
  textColumn "display_name" (some 255) (some displayName) ++ uniqueIndex "pk_users" (u ∈ db.iam.users) ++
  reference "principal_id" (u ∈ db.iam.principals.map (·.id))

def identifierViolations (db : Database) (x : UserIdentifier) : List Violation :=
  x.defects ++ uniqueIndex "pk_user_identifier" (x.id ∈ db.identifiers.map (·.id)) ++
  uniqueIndex ACTIVE_IDENTITY_CONSTRAINT (x.validTo = none ∧ x.indexKey ∈ db.activeKeys) ++
  reference "user_principal_id" (x.userPrincipalId ∈ db.iam.users)

/-! ## The transactions of a call -/

inductive ResolutionError where
  | notProvisioned
  | disabled
  | retired
  | provisioningConflict
  | multipleResultsFound
  | database (violations : List Violation)
deriving DecidableEq, Repr

/-- how a transaction of a call ends -/
inductive Outcome where
  /-- the lookup finds no identity, and `resolve` goes on to `_provision` -/
  | absent
  /-- `IdentityAlreadyProvisioned`, on which `_provision` goes on to `_resolve_after_conflict` -/
  | alreadyProvisioned
  | returned (principalId : Uuid)
  | raised (e : ResolutionError)
deriving DecidableEq, Repr

inductive Row where
  | principal (id : Uuid)
  | user (principalId : Uuid)
  | identifier (id : Uuid)
  | activeIdentity (key : String × String × String)
deriving DecidableEq, Repr

abbrev Tx := Txn Database Row Outcome

/-- a call of `resolve`, with the UUIDs that it draws for the principal and the identifier and the database time at which
`_provision` begins -/
structure Call where
  identity : AuthenticatedIdentity
  principalId : Uuid
  identifierId : Uuid
  now : Time
deriving DecidableEq, Repr

namespace Call

variable (c : Call)

def principal : Principal := ⟨c.principalId, .user, true, c.now, c.now, none⟩

def identifier : UserIdentifier :=
  ⟨c.identifierId, c.principalId, OIDC_SUBJECT, c.identity.subject, c.identity.subject, c.identity.issuer, none,
    some c.now, none⟩

/-- the inserts of `provision_user` -/
def write (db : Database) : Database := ((db.addPrincipal c.principal).addUser c.principalId).addIdentifier c.identifier

end Call

/-- `_ensure_usable`, and the principal that is returned -/
def ensureUsable (identity : LocalUserIdentity) : Outcome :=
  if identity.deletedAt ≠ none then .raised .retired
  else if identity.isActive = false then .raised .disabled
  else .returned identity.principalId

/-- `one_or_none` of the join -/
def findByOidcSubject (identity : AuthenticatedIdentity) (k : Option LocalUserIdentity → Tx) : Tx :=
  .read fun db =>
    match db.oidcRows identity.key with
    | [] => k none
    | [l] => k (some l)
    | _ => .rollback (.raised .multipleResultsFound)

/-- `resolve`, up to `_provision`; nothing is written -/
def lookup (jitEnabled : Bool) (identity : AuthenticatedIdentity) : Tx :=
  findByOidcSubject identity fun
  | some l => .rollback (ensureUsable l)
  | none => .rollback (if jitEnabled then .absent else .raised .notProvisioned)

/-- the insert of the identifier has these violations; only the unique index of active identities is translated -/
def identifierInserted (c : Call) : List Violation → Tx
  | [] => .commit c.write (.returned c.principalId)
  | .unique name :: es =>
    if name = ACTIVE_IDENTITY_CONSTRAINT then .rollback .alreadyProvisioned
    else .rollback (.raised (.database (.unique name :: es)))
  | es => .rollback (.raised (.database es))

def insertIdentifier (c : Call) : Tx :=
  .stmt (fun _ => [.identifier c.identifierId, .activeIdentity c.identifier.indexKey]) fun db =>
    identifierInserted c (identifierViolations ((db.addPrincipal c.principal).addUser c.principalId) c.identifier)

def insertUser (c : Call) : Tx :=
  .stmt (fun _ => [.user c.principalId]) fun db =>
    match userViolations (db.addPrincipal c.principal) c.principalId c.identity.name with
    | [] => insertIdentifier c
    | es => .rollback (.raised (.database es))

/-- `provision_user` and the commit -/
def provisionUser (c : Call) : Tx :=
  .stmt (fun _ => [.principal c.principalId]) fun db =>
    match principalViolations db c.principal with
    | [] => insertUser c
    | es => .rollback (.raised (.database es))

/-- `_provision` -/
def provision (c : Call) : Tx :=
  findByOidcSubject c.identity fun
  | some l => .rollback (ensureUsable l)
  | none => provisionUser c

/-- `_resolve_after_conflict` -/
def resolveAfterConflict (identity : AuthenticatedIdentity) : Tx :=
  findByOidcSubject identity fun
  | some l => .rollback (ensureUsable l)
  | none => .rollback (.raised .provisioningConflict)

/-- `resolve`: its transactions, each after the results of those before -/
def resolve (jitEnabled : Bool) (c : Call) : List Outcome → Option Tx
  | [] => some (lookup jitEnabled c.identity)
  | [.absent] => some (provision c)
  | [.absent, .alreadyProvisioned] => some (resolveAfterConflict c.identity)
  | _ => none

def resolves (jitEnabled : Bool) (calls : List Call) : Flow Database Row Outcome := fun i rs =>
  calls[i]?.bind fun c => resolve jitEnabled c rs

abbrev State := Workflow.State Database Row Outcome

/-! ## What the lookup finds -/

/-- what the schema enforces of the three tables; and no user has two active identifiers, since `provision_user` is the
only writer and gives each a user of its own -/
structure Database.Keys (db : Database) : Prop where
  principalIds : (db.iam.principals.map (·.id)).Nodup
  users : db.iam.users.Nodup
  userRefs : ∀ u ∈ db.iam.users, ∃ p ∈ db.iam.principals, p.id = u
  identifierIds : (db.identifiers.map (·.id)).Nodup
  identifierRefs : ∀ x ∈ db.identifiers, x.userPrincipalId ∈ db.iam.users
  activeKeys : db.activeKeys.Nodup
  oneEach : ((db.identifiers.filter (·.validTo = none)).map (·.userPrincipalId)).Nodup

/-- the identity has an active identifier -/
def Database.Taken (db : Database) (key : String × String) : Prop := ∃ x ∈ db.identifiers, x.Of key

/-- … and this is its principal -/
def Database.Linked (db : Database) (key : String × String) (l : LocalUserIdentity) : Prop :=
  ∃ x ∈ db.identifiers, x.Of key ∧ ∃ p ∈ db.iam.principals, p.id = x.userPrincipalId ∧
    l = ⟨p.id, p.isActive, p.deletedAt⟩

variable {db d : Database} {key key' : String × String} {l l' : LocalUserIdentity} {x y : UserIdentifier}

theorem UserIdentifier.Of.indexKey (h : x.Of key) : x.indexKey = (OIDC_SUBJECT, key) := by
  obtain ⟨htype, hissuer, hvalue, -⟩ := h
  simp [UserIdentifier.indexKey, htype, hissuer, hvalue]

namespace Database.Keys

/-- the active identifier of an identity is one -/
theorem filter_of (h : db.Keys) (hx : x ∈ db.identifiers) (hof : x.Of key) : db.identifiers.filter (·.Of key) = [x] := by
  have hactive : ∀ y : UserIdentifier, y.Of key → y.validTo = none := fun y hy => hy.2.2.2
  have hfilter : db.identifiers.filter (·.Of key) = (db.identifiers.filter (·.validTo = none)).filter (·.Of key) := by
    rw [List.filter_filter]
    refine List.filter_congr fun y _ => ?_
    by_cases hy : y.Of key <;> simp [hy, hactive y]
  rw [hfilter]
  refine filter_eq_singleton h.activeKeys (fun y _ hy => hy.indexKey) (List.mem_filter.2 ⟨hx, ?_⟩) hof
  simpa using hactive x hof

theorem rows_of_linked (h : db.Keys) (hl : db.Linked key l) : db.oidcRows key = [l] := by
  obtain ⟨x, hx, hof, p, hp, hid, rfl⟩ := hl
  have husers : db.iam.users.filter (· = x.userPrincipalId) = [x.userPrincipalId] := by
    have hnodup : (db.iam.users.map id).Nodup := by rw [List.map_id]; exact h.users
    exact filter_eq_singleton hnodup (fun u _ hu => hu) (h.identifierRefs x hx) rfl
  have hprincipals : db.iam.principals.filter (·.id = x.userPrincipalId) = [p] :=
    filter_eq_singleton h.principalIds (fun q _ hq => hq) hp hid
  rw [Database.oidcRows, h.filter_of hx hof, List.flatMap_singleton, husers, List.flatMap_singleton, hprincipals]
  rfl

theorem linked_of_taken (h : db.Keys) (ht : db.Taken key) : ∃ l, db.Linked key l := by
  obtain ⟨x, hx, hof⟩ := ht
  obtain ⟨p, hp, hid⟩ := h.userRefs _ (h.identifierRefs x hx)
  exact ⟨_, x, hx, hof, p, hp, hid, rfl⟩

theorem linked_unique (h : db.Keys) (hl : db.Linked key l) (hl' : db.Linked key l') : l = l' := by
  have heq := (h.rows_of_linked hl).symm.trans (h.rows_of_linked hl')
  exact List.head_eq_of_cons_eq heq

/-- two identities have two principals -/
theorem linked_injective (h : db.Keys) (hl : db.Linked key l) (hl' : db.Linked key' l')
    (hid : l.principalId = l'.principalId) : key = key' := by
  obtain ⟨x, hx, hof, p, hp, hpx, rfl⟩ := hl
  obtain ⟨y, hy, hof', q, hq, hqy, rfl⟩ := hl'
  have hxy : x.userPrincipalId = y.userPrincipalId := hpx.symm.trans (hid.trans hqy)
  have hactive : ∀ {z : UserIdentifier} {k : String × String}, z ∈ db.identifiers → z.Of k →
      z ∈ db.identifiers.filter (·.validTo = none) := fun hz hk => List.mem_filter.2 ⟨hz, by simpa using hk.2.2.2⟩
  have heq : x = y := List.inj_on_of_nodup_map h.oneEach (hactive hx hof) (hactive hy hof') hxy
  have hkeys := hof.indexKey.symm.trans (heq ▸ hof'.indexKey)
  exact (Prod.mk.inj hkeys).2

end Database.Keys

theorem rows_eq_nil (h : ¬ db.Taken key) : db.oidcRows key = [] := by
  have hnone : db.identifiers.filter (·.Of key) = [] := by
    refine List.filter_eq_nil_iff.2 fun x hx hof => h ⟨x, hx, ?_⟩
    simpa using hof
  rw [Database.oidcRows, hnone]
  rfl

/-- The lookup of an identity finds the one principal that is linked to it, or nothing if there is none. -/
theorem Database.Keys.rows (h : db.Keys) (key : String × String) :
    (∃ l, db.Linked key l ∧ db.oidcRows key = [l]) ∨ (¬ db.Taken key ∧ db.oidcRows key = []) := by
  by_cases ht : db.Taken key
  · obtain ⟨l, hl⟩ := h.linked_of_taken ht
    exact .inl ⟨l, hl, h.rows_of_linked hl⟩
  · exact .inr ⟨ht, rows_eq_nil ht⟩

theorem taken_iff : db.Taken key ↔ (OIDC_SUBJECT, key) ∈ db.activeKeys := by
  simp only [Database.Taken, Database.activeKeys, List.mem_map, List.mem_filter, decide_eq_true_eq]
  constructor
  · intro ⟨x, hx, hof⟩
    exact ⟨x, ⟨hx, hof.2.2.2⟩, hof.indexKey⟩
  · intro ⟨x, ⟨hx, hactive⟩, hkey⟩
    obtain ⟨htype, hissuer, hvalue⟩ : x.identifierType = OIDC_SUBJECT ∧ x.issuer = key.1 ∧ x.normalizedValue = key.2 := by
      simpa [UserIdentifier.indexKey, Prod.ext_iff] using hkey
    exact ⟨x, hx, htype, hissuer, hvalue, hactive⟩

/-! ## What a creator writes -/

/-- the identity fits the columns -/
def Call.Fits (c : Call) : Prop :=
  FitsText (some 500) c.identity.subject ∧ FitsText (some 500) c.identity.issuer ∧ FitsText (some 255) c.identity.name

instance (c : Call) : Decidable c.Fits := inferInstanceAs (Decidable (_ ∧ _ ∧ _))

/-- no row has an identifier that the call draws -/
def Call.Unborn (c : Call) (db : Database) : Prop :=
  c.principalId ∉ db.iam.principals.map (·.id) ∧ c.identifierId ∉ db.identifiers.map (·.id)

variable {c c' : Call}

theorem Call.identifier_of (c : Call) : c.identifier.Of c.identity.key := ⟨rfl, rfl, rfl, rfl⟩

theorem Call.Unborn.user (h : c.Unborn db) (hdb : db.Keys) : c.principalId ∉ db.iam.users := by
  intro hu
  obtain ⟨p, hp, hid⟩ := hdb.userRefs _ hu
  exact h.1 (List.mem_map.2 ⟨p, hp, hid⟩)

theorem principalViolations_eq_nil (h : c.Unborn db) : principalViolations db c.principal = [] := by
  simp only [principalViolations, List.append_eq_nil_iff, uniqueIndex_eq_nil, Principal.defects, checkThat_eq_nil]
  exact ⟨⟨.inl rfl, le_rfl⟩, h.1⟩

theorem userViolations_eq_nil (hfit : c.Fits) (h : c.Unborn db) (hdb : db.Keys) :
    userViolations (db.addPrincipal c.principal) c.principalId c.identity.name = [] := by
  simp only [userViolations, List.append_eq_nil_iff, textColumn_some, uniqueIndex_eq_nil, reference_eq_nil]
  refine ⟨⟨hfit.2.2, h.user hdb⟩, ?_⟩
  simp [Database.addPrincipal, Call.principal]

/-- the identifier is refused only if its identity has one -/
theorem identifierViolations_eq (hfit : c.Fits) (h : c.Unborn db) :
    identifierViolations ((db.addPrincipal c.principal).addUser c.principalId) c.identifier =
      uniqueIndex ACTIVE_IDENTITY_CONSTRAINT (c.identifier.validTo = none ∧ c.identifier.indexKey ∈ db.activeKeys) := by
  have hoidc : FitsText (some 100) OIDC_SUBJECT := by decide
  have hdefects : c.identifier.defects = [] := by
    simp only [UserIdentifier.defects, List.append_eq_nil_iff, textColumn_some, checkThat_eq_nil]
    exact ⟨⟨⟨⟨hoidc, hfit.1⟩, hfit.1⟩, hfit.2.1⟩, by simp [Call.identifier]⟩
  have hpk : uniqueIndex "pk_user_identifier"
      (c.identifier.id ∈ ((db.addPrincipal c.principal).addUser c.principalId).identifiers.map (·.id)) = [] :=
    uniqueIndex_eq_nil.2 h.2
  have href : reference "user_principal_id"
      (c.identifier.userPrincipalId ∈ ((db.addPrincipal c.principal).addUser c.principalId).iam.users) = [] := by
    rw [reference_eq_nil]
    simp [Database.addUser, Call.identifier]
  rw [identifierViolations, hdefects, hpk, href, List.nil_append, List.nil_append, List.append_nil]
  rfl

/-- the identity of a creator -/
theorem linked_write (c : Call) (db : Database) :
    (c.write db).Linked c.identity.key ⟨c.principalId, true, none⟩ := by
  refine ⟨c.identifier, ?_, c.identifier_of, c.principal, ?_, rfl, rfl⟩
  · exact List.mem_append_right _ (List.mem_singleton.2 rfl)
  · exact List.mem_append_right _ (List.mem_singleton.2 rfl)

theorem Database.Linked.write (h : db.Linked key l) (c : Call) : (c.write db).Linked key l := by
  obtain ⟨x, hx, hof, p, hp, hid, hl⟩ := h
  exact ⟨x, List.mem_append_left _ hx, hof, p, List.mem_append_left _ hp, hid, hl⟩

theorem taken_write : (c.write db).Taken key ↔ db.Taken key ∨ key = c.identity.key := by
  constructor
  · intro ⟨x, hx, hof⟩
    rcases List.mem_append.1 hx with hx | hx
    · exact .inl ⟨x, hx, hof⟩
    · rw [List.mem_singleton.1 hx] at hof
      exact .inr (Prod.ext hof.2.1.symm hof.2.2.1.symm)
  · intro h
    rcases h with ⟨x, hx, hof⟩ | rfl
    · exact ⟨x, List.mem_append_left _ hx, hof⟩
    · exact ⟨c.identifier, List.mem_append_right _ (List.mem_singleton.2 rfl), c.identifier_of⟩

/-- a call that draws other UUIDs -/
theorem Call.Unborn.write (h : c.Unborn db) (hid : c.principalId ≠ c'.principalId)
    (hid' : c.identifierId ≠ c'.identifierId) : c.Unborn (c'.write db) := by
  have hprincipals : (c'.write db).iam.principals.map (·.id) = db.iam.principals.map (·.id) ++ [c'.principalId] := by
    simp [Call.write, Database.addPrincipal, Database.addUser, Database.addIdentifier, Call.principal]
  have hidentifiers : (c'.write db).identifiers.map (·.id) = db.identifiers.map (·.id) ++ [c'.identifierId] := by
    simp [Call.write, Database.addPrincipal, Database.addUser, Database.addIdentifier, Call.identifier]
  refine ⟨?_, ?_⟩
  · rw [hprincipals, List.mem_append, List.mem_singleton, not_or]
    exact ⟨h.1, hid⟩
  · rw [hidentifiers, List.mem_append, List.mem_singleton, not_or]
    exact ⟨h.2, hid'⟩

/-- **The inserts** keep the keys. -/
theorem Database.Keys.write (h : db.Keys) (hunborn : c.Unborn db) (hfree : ¬ db.Taken c.identity.key) :
    (c.write db).Keys where
  principalIds := by
    simp only [Call.write, addPrincipal, addUser, addIdentifier, List.map_append]
    exact nodup_concat h.principalIds hunborn.1
  users := nodup_concat h.users (hunborn.user h)
  userRefs u hu := by
    rcases List.mem_append.1 hu with hu | hu
    · obtain ⟨p, hp, hid⟩ := h.userRefs u hu
      exact ⟨p, List.mem_append_left _ hp, hid⟩
    · rw [List.mem_singleton.1 hu]
      exact ⟨c.principal, List.mem_append_right _ (List.mem_singleton.2 rfl), rfl⟩
  identifierIds := by
    simp only [Call.write, addPrincipal, addUser, addIdentifier, List.map_append]
    exact nodup_concat h.identifierIds hunborn.2
  identifierRefs x hx := by
    rcases List.mem_append.1 hx with hx | hx
    · exact List.mem_append_left _ (h.identifierRefs x hx)
    · rw [List.mem_singleton.1 hx]
      exact List.mem_append_right _ (List.mem_singleton.2 rfl)
  activeKeys := by
    simp only [Database.activeKeys, Call.write, addPrincipal, addUser, addIdentifier, List.filter_append, List.map_append]
    exact nodup_concat h.activeKeys fun hmem => hfree (taken_iff.2 hmem)
  oneEach := by
    simp only [Call.write, addPrincipal, addUser, addIdentifier, List.filter_append, List.map_append]
    refine nodup_concat h.oneEach fun hmem => ?_
    obtain ⟨x, hx, hid⟩ := List.mem_map.1 hmem
    have hid' : x.userPrincipalId = c.principalId := hid
    exact hunborn.user h (hid' ▸ h.identifierRefs x (List.mem_filter.1 hx).1)

end AtlasRag.Identity.Provisioning
