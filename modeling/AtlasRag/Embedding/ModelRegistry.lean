/-
The registry of embedding models.

`register` looks the identity up and, if there is none, inserts it under a new UUID. Between the two statements another
call can commit the same identity. The INSERT then violates the unique index, and nothing handles that.

Two identities are the same if their fields are equal and their configurations have the same canonical text. The table
tells configurations apart by the hash of that text. A call is `Overtaken` if, between its lookup and its INSERT, another has
committed a model with the same identity.

Results:
- `valid`: what a call may rely on between its statements;
- `noted`: an INSERT that meets its key in the table has been overtaken since its lookup;
- `registration_converges`: calls that return have the same model if and only if they have the same identity; exactly if
  no call is overtaken, no call fails;
- `registration_overtaken`: one that is.
-/
import AtlasRag.Embedding.Tables
import AtlasRag.Lib.Workflow
import AtlasRag.Platform.Dumps

namespace AtlasRag.Embedding.Registry

open AtlasRag.Lib AtlasRag.Lib.RowLock AtlasRag.Lib.Since AtlasRag.Lib.Table AtlasRag.Lib.Transaction AtlasRag.Lib.Workflow
open AtlasRag.Platform

inductive AiProvider where
  | openai
  | anthropic
  | cohere
  | gemini
deriving DecidableEq, Repr

inductive VectorDistanceMetric where
  | cosine
  | innerProduct
  | euclidean
deriving DecidableEq, Repr

/-- what `__post_init__` checks is part of the type -/
structure EmbeddingModelIdentity where
  provider : AiProvider
  modelName : Str
  modelRevision : Str
  dimension : ℤ
  distanceMetric : VectorDistanceMetric
  maxInputTokens : Option ℤ
  configuration : Dict
  dimension_pos : 0 < dimension
  modelName_given : modelName.strip ≠ []
  modelRevision_given : modelRevision.strip ≠ []
  maxInputTokens_pos : ∀ n ∈ maxInputTokens, 0 < n

/-! ## The table -/

/-- the columns of `uq_embedding_models_identity`; a missing limit is -1 -/
structure IdentityKey where
  provider : AiProvider
  modelName : Str
  modelRevision : Str
  dimension : ℤ
  distanceMetric : VectorDistanceMetric
  maxInputTokens : ℤ
  configurationHash : String
deriving DecidableEq, Repr

structure EmbeddingModel where
  id : Uuid
  provider : AiProvider
  modelName : Str
  modelRevision : Str
  dimension : ℤ
  distanceMetric : VectorDistanceMetric
  maxInputTokens : Option ℤ
  configuration : Dict
  configurationHash : String

namespace EmbeddingModel

def key (m : EmbeddingModel) : IdentityKey :=
  ⟨m.provider, m.modelName, m.modelRevision, m.dimension, m.distanceMetric, m.maxInputTokens.getD (-1),
    m.configurationHash⟩

/-- `length(btrim(s)) > 0` -/
def NonEmpty (s : Str) : Prop := ∃ c ∈ s, c ≠ 32

instance (s : Str) : Decidable (NonEmpty s) := inferInstanceAs (Decidable (∃ c ∈ s, c ≠ 32))

def defects (m : EmbeddingModel) : List Violation :=
  strColumn "model_name" (some 200) (some m.modelName) ++ strColumn "model_revision" (some 100) (some m.modelRevision) ++
  integerColumn "dimension" (some m.dimension) ++ integerColumn "max_input_tokens" m.maxInputTokens ++
  jsonbColumn "configuration" m.configuration ++ textColumn "configuration_hash" (some 64) (some m.configurationHash) ++
  checkThat "valid_dimension" (0 < m.dimension ∧ m.dimension ≤ MAX_VECTOR_DIMENSION) ++
  checkThat "max_input_tokens_positive" (∀ n ∈ m.maxInputTokens, 0 < n) ++
  checkThat "model_name_non_empty" (NonEmpty m.modelName) ++ checkThat "model_revision_non_empty" (NonEmpty m.modelRevision)

end EmbeddingModel

abbrev Models := List EmbeddingModel

def IDENTITY_INDEX : String := "uq_embedding_models_identity"

def modelViolations (db : Models) (m : EmbeddingModel) : List Violation :=
  m.defects ++ uniqueIndex "pk_embedding_models" (m.id ∈ db.map (·.id)) ++
  uniqueIndex IDENTITY_INDEX (m.key ∈ db.map (·.key))

/-! ## The transaction -/

inductive RegistrationError where
  /-- `json.dumps` raises, `ValueError` or `RecursionError` -/
  | notSerialized
  | multipleResultsFound
  | database (violations : List Violation)
deriving DecidableEq, Repr

inductive Outcome where
  | returned (modelId : Uuid)
  | raised (e : RegistrationError)
deriving DecidableEq, Repr

inductive Row where
  | model (id : Uuid)
  | identity (key : IdentityKey)
deriving DecidableEq, Repr

abbrev Tx := Txn Models Row Outcome

/-- a call of `register`, with the UUID that it draws -/
structure Call where
  identity : EmbeddingModelIdentity
  modelId : Uuid
  /-- the interpreter's, on nesting -/
  limit : ℕ

def Call.configurationHash (c : Call) : Option String := canonicalConfigurationHash c.limit c.identity.configuration

namespace EmbeddingModelIdentity

/-- the WHERE clause of `find_model_by_identity`; a comparison with `None` is `IS NULL` -/
def Matches (x : EmbeddingModelIdentity) (configurationHash : String) (m : EmbeddingModel) : Prop :=
  m.provider = x.provider ∧ m.modelName = x.modelName ∧ m.modelRevision = x.modelRevision ∧ m.dimension = x.dimension ∧
    m.distanceMetric = x.distanceMetric ∧ m.maxInputTokens = x.maxInputTokens ∧ m.configurationHash = configurationHash

instance (x : EmbeddingModelIdentity) (configurationHash : String) (m : EmbeddingModel) :
    Decidable (x.Matches configurationHash m) := inferInstanceAs (Decidable (_ ∧ _ ∧ _ ∧ _ ∧ _ ∧ _ ∧ _))

end EmbeddingModelIdentity

/-- the row that the call inserts -/
def Call.row (c : Call) (configurationHash : String) : EmbeddingModel :=
  ⟨c.modelId, c.identity.provider, c.identity.modelName, c.identity.modelRevision, c.identity.dimension,
    c.identity.distanceMetric, c.identity.maxInputTokens, c.identity.configuration, configurationHash⟩

/-- the INSERT has these violations -/
def modelInserted (c : Call) (configurationHash : String) : List Violation → Tx
  | [] => .commit (fun db => db ++ [c.row configurationHash]) (.returned c.modelId)
  | es => .rollback (.raised (.database es))

/-- `add_model` and the commit -/
def addModel (c : Call) (configurationHash : String) : Tx :=
  .stmt (fun _ => [.model c.modelId, .identity (c.row configurationHash).key]) fun db =>
    modelInserted c configurationHash (modelViolations db (c.row configurationHash))

/-- `find_model_by_identity`, and what `register` does with it -/
def findModel (c : Call) (configurationHash : String) : Tx :=
  .read fun db =>
    match db.filter (c.identity.Matches configurationHash) with
    | [] => addModel c configurationHash
    | [m] => .rollback (.returned m.id)
    | _ => .rollback (.raised .multipleResultsFound)

def register (c : Call) : Tx :=
  match c.configurationHash with
  | none => .rollback (.raised .notSerialized)
  | some configurationHash => findModel c configurationHash

/-- each call runs one transaction -/
def registers (calls : List Call) : Flow Models Row Outcome := fun i rs =>
  match rs with
  | [] => calls[i]?.map register
  | _ => none

abbrev State := Workflow.State Models Row Outcome

/-! ## Keys -/

/-- what the schema enforces -/
structure Keys (db : Models) : Prop where
  ids : (db.map (·.id)).Nodup
  keys : (db.map (·.key)).Nodup
  defects : ∀ m ∈ db, m.defects = []

variable {db d : Models} {m : EmbeddingModel} {c c' : Call} {hash hash' : String} {L : Set Row} {o : Outcome} {x : Uuid}

/-- the lookup finds the key of the index -/
theorem matches_iff (hm : ∀ n ∈ m.maxInputTokens, 0 < n) :
    c.identity.Matches hash m ↔ m.key = (c.row hash).key := by
  have hlimit : m.maxInputTokens.getD (-1) = c.identity.maxInputTokens.getD (-1) ↔
      m.maxInputTokens = c.identity.maxInputTokens := by
    refine ⟨fun h => ?_, fun h => by rw [h]⟩
    have hc := c.identity.maxInputTokens_pos
    cases hmt : m.maxInputTokens with
    | none =>
      cases hct : c.identity.maxInputTokens with
      | none => rfl
      | some n =>
        have hpos := hc n hct
        rw [hmt, hct] at h
        simp only [Option.getD_none, Option.getD_some] at h
        omega
    | some k =>
      have hk := hm k hmt
      cases hct : c.identity.maxInputTokens with
      | none =>
        rw [hmt, hct] at h
        simp only [Option.getD_none, Option.getD_some] at h
        omega
      | some n =>
        rw [hmt, hct] at h
        simpa using h
  simp only [EmbeddingModelIdentity.Matches, EmbeddingModel.key, Call.row, IdentityKey.mk.injEq, hlimit]

theorem Keys.pos (h : Keys db) (hm : m ∈ db) : ∀ n ∈ m.maxInputTokens, 0 < n := by
  have hdefects := h.defects m hm
  simp only [EmbeddingModel.defects, List.append_eq_nil_iff, checkThat_eq_nil] at hdefects
  exact hdefects.1.1.2

/-- **The lookup** finds the one row of the identity, or none. -/
theorem Keys.lookup (h : Keys db) (c : Call) (hash : String) :
    (∃ m ∈ db, m.key = (c.row hash).key ∧ db.filter (c.identity.Matches hash) = [m]) ∨
      ((c.row hash).key ∉ db.map (·.key) ∧ db.filter (c.identity.Matches hash) = []) := by
  by_cases hmem : (c.row hash).key ∈ db.map (·.key)
  · obtain ⟨m, hm, hkey⟩ := List.mem_map.1 hmem
    refine .inl ⟨m, hm, hkey, ?_⟩
    exact filter_eq_singleton h.keys (fun x hx hmatch => (matches_iff (h.pos hx)).1 hmatch) hm
      ((matches_iff (h.pos hm)).2 hkey)
  · refine .inr ⟨hmem, List.filter_eq_nil_iff.2 fun x hx hmatch => hmem ?_⟩
    have hkey := (matches_iff (h.pos hx)).1 (of_decide_eq_true hmatch)
    exact List.mem_map.2 ⟨x, hx, hkey⟩

theorem Keys.insert (h : Keys db) (hm : m.defects = []) (hid : m.id ∉ db.map (·.id)) (hkey : m.key ∉ db.map (·.key)) :
    Keys (db ++ [m]) where
  ids := by
    rw [List.map_append]
    exact nodup_concat h.ids hid
  keys := by
    rw [List.map_append]
    exact nodup_concat h.keys hkey
  defects x hx := by
    rcases List.mem_append.1 hx with hx | hx
    · exact h.defects x hx
    · rw [List.mem_singleton.1 hx]
      exact hm

/-! ## Assertions -/

/-- the identity fits the table: its configuration has a text, and its row no defect -/
def Call.Fits (c : Call) : Prop :=
  ∃ hash, c.configurationHash = some hash ∧ (c.row hash).defects = []

/-- the UUIDs that the calls draw are new, and no two are the same -/
structure Fresh (db : Models) (calls : List Call) : Prop where
  unborn : ∀ c ∈ calls, c.modelId ∉ db.map (·.id)
  ids : (calls.map (·.modelId)).Nodup

/-- the model is the one of the identity -/
def Registered (c : Call) (d : Models) (x : Uuid) : Prop :=
  ∃ hash, c.configurationHash = some hash ∧ ∃ m ∈ d, m.key = (c.row hash).key ∧ m.id = x

/-- a call after these results -/
def After (c : Call) (d : Models) : List Outcome → Prop
  | [] => c.modelId ∉ d.map (·.id)
  | [.returned x] => Registered c d x
  | [.raised _] => True
  | _ => False

/-- the open transaction of the call, that holds the rows `L` -/
inductive Stage (c : Call) (d : Models) (L : Set Row) : Tx → Prop where
  | findModel {hash : String} (hhash : c.configurationHash = some hash)
      (h : c.modelId ∉ d.map (·.id)) : Stage c d L (findModel c hash)
  | addModel {hash : String} (hhash : c.configurationHash = some hash)
      (h : c.modelId ∉ d.map (·.id)) : Stage c d L (addModel c hash)
  | commit {hash : String} (hhash : c.configurationHash = some hash)
      (hdefects : (c.row hash).defects = []) (h : c.modelId ∉ d.map (·.id))
      (hfree : (c.row hash).key ∉ d.map (·.key)) (hlock : L (.identity (c.row hash).key)) :
      Stage c d L (.commit (fun db => db ++ [c.row hash]) (.returned c.modelId))
  | rollback {o : Outcome} (h : After c d [o]) : Stage c d L (.rollback o)

/-- the call before and after its transaction -/
def Idle (calls : List Call) (i : ℕ) (rs : List Outcome) (d : Models) : Prop := ∀ c, calls[i]? = some c → After c d rs

/-- the call within it -/
def Busy (calls : List Call) (i : ℕ) (rs : List Outcome) (d : Models) (L : Set Row) (p : Tx) : Prop :=
  rs = [] ∧ ∃ c, calls[i]? = some c ∧ Stage c d L p

variable {calls : List Call}

theorem registered_append (h : Registered c d x) (m : EmbeddingModel) : Registered c (d ++ [m]) x := by
  obtain ⟨hash, hhash, y, hy, hkey, hid⟩ := h
  exact ⟨hash, hhash, y, List.mem_append_left _ hy, hkey, hid⟩

theorem stage_register (h : c.modelId ∉ d.map (·.id)) : Stage c d L (register c) := by
  unfold register
  cases hhash : c.configurationHash with
  | none => exact .rollback trivial
  | some hash => exact .findModel hhash h

theorem stage_modelInserted (hhash : c.configurationHash = some hash)
    (h : c.modelId ∉ d.map (·.id)) (hlock : L (.identity (c.row hash).key)) :
    Stage c d L (modelInserted c hash (modelViolations d (c.row hash))) := by
  cases hes : modelViolations d (c.row hash) with
  | nil =>
    simp only [modelViolations, List.append_eq_nil_iff, uniqueIndex_eq_nil] at hes
    exact .commit hhash hes.1.1 h hes.2 hlock
  | cons e es => exact .rollback trivial

/-- A statement takes a call from one stage to the next. -/
theorem Stage.stmt {rows : Models → List Row} {k : Models → Tx} (h : Stage c d L (.stmt rows k)) (hd : Keys d) :
    Stage c d (fun x => x ∈ rows d ∨ L x) (k d) := by
  generalize hp : Txn.stmt rows k = p at h
  cases h with
  | @findModel hash hhash h =>
    cases hp
    rcases hd.lookup c hash with ⟨m, hm, hkey, hrows⟩ | ⟨-, hrows⟩
    · simp only [hrows]
      exact .rollback ⟨hash, hhash, m, hm, hkey, rfl⟩
    · simp only [hrows]
      exact .addModel hhash h
  | addModel hhash h =>
    cases hp
    exact stage_modelInserted hhash h (.inl (List.mem_cons_of_mem _ (List.mem_singleton.2 rfl)))
  | commit => cases hp
  | rollback => cases hp

theorem not_mem_ids_append (h : c.modelId ∉ d.map (·.id)) (hne : c.modelId ≠ c'.modelId) :
    c.modelId ∉ (d ++ [c'.row hash']).map (·.id) := by
  rw [List.map_append, List.mem_append, not_or]
  exact ⟨h, fun hmem => hne (List.mem_singleton.1 hmem)⟩

theorem After.append {rs : List Outcome} (h : After c d rs) (hne : c.modelId ≠ c'.modelId) (hash' : String) :
    After c (d ++ [c'.row hash']) rs := by
  unfold After at h ⊢
  split at h
  · exact not_mem_ids_append h hne
  · exact registered_append h _
  · trivial
  · exact h.elim

theorem Stage.append {p : Tx} (h : Stage c d L p) (hne : c.modelId ≠ c'.modelId)
    (hother : ¬ L (.identity (c'.row hash').key)) : Stage c (d ++ [c'.row hash']) L p := by
  cases h with
  | findModel hhash h => exact .findModel hhash (not_mem_ids_append h hne)
  | addModel hhash h => exact .addModel hhash (not_mem_ids_append h hne)
  | commit hhash hdefects h hfree hlock =>
    refine .commit hhash hdefects (not_mem_ids_append h hne) ?_ hlock
    rw [List.map_append, List.mem_append, not_or]
    refine ⟨hfree, fun hmem => hother ?_⟩
    have hkey : (c.row _).key = (c'.row hash').key := List.mem_singleton.1 hmem
    exact hkey ▸ hlock
  | rollback h => exact .rollback (h.append hne hash')

/-- what a committing call writes -/
theorem Stage.of_commit {w : Models → Models} (h : Stage c d L (.commit w o)) :
    ∃ hash, c.configurationHash = some hash ∧ (c.row hash).defects = [] ∧
      c.modelId ∉ d.map (·.id) ∧ (c.row hash).key ∉ d.map (·.key) ∧ L (.identity (c.row hash).key) ∧
      w = (fun db => db ++ [c.row hash]) ∧ o = .returned c.modelId := by
  generalize hp : Txn.commit w o = p at h
  cases h with
  | commit hhash hdefects h hfree hlock =>
    cases hp
    exact ⟨_, hhash, hdefects, h, hfree, hlock, rfl, rfl⟩
  | _ => cases hp

/-- **The assertions** are kept by the calls and by the commits of the others. -/
theorem valid (hfresh : Fresh db calls) : Valid (registers calls) Keys (Idle calls) (Busy calls) where
  start d i rs p _ hidle hp := by
    unfold registers at hp
    split at hp
    · obtain ⟨c, hc, rfl⟩ := Option.map_eq_some_iff.1 hp
      exact ⟨rfl, c, hc, stage_register (hidle c hc)⟩
    · cases hp
  stmt d i rs L rows k hd hbusy := by
    obtain ⟨hrs, c, hc, hstage⟩ := hbusy
    exact ⟨hrs, c, hc, hstage.stmt hd⟩
  commit d i rs L w o hd hbusy := by
    obtain ⟨rfl, c, hc, hstage⟩ := hbusy
    obtain ⟨hash, hhash, hdefects, hid, hfree, -, rfl, rfl⟩ := hstage.of_commit
    refine ⟨hd.insert hdefects hid hfree, fun c' hc' => ?_⟩
    obtain rfl : c = c' := Option.some.inj (hc.symm.trans hc')
    exact ⟨hash, hhash, _, List.mem_append_right _ (List.mem_singleton.2 rfl), rfl, rfl⟩
  rollback d i rs L o _ hbusy := by
    obtain ⟨rfl, c, hc, hstage⟩ := hbusy
    generalize hp : Txn.rollback o = p at hstage
    cases hstage with
    | rollback h =>
      cases hp
      intro c' hc'
      obtain rfl : c = c' := Option.some.inj (hc.symm.trans hc')
      exact h
    | _ => cases hp
  idle_stable d i rs L w o j rs' _ hbusy hji hidle := by
    obtain ⟨-, c, hc, hstage⟩ := hbusy
    obtain ⟨hash, -, -, -, -, -, rfl, -⟩ := hstage.of_commit
    exact fun c' hc' => (hidle c' hc').append (ne_of_nodup_map hfresh.ids hc' hc hji) hash
  busy_stable d i rs L w o j rs' L' p _ hbusy hji hdisj hother := by
    obtain ⟨-, c, hc, hstage⟩ := hbusy
    obtain ⟨hash, -, -, -, -, hlock, rfl, -⟩ := hstage.of_commit
    obtain ⟨hrs', c', hc', hstage'⟩ := hother
    refine ⟨hrs', c', hc', hstage'.append (ne_of_nodup_map hfresh.ids hc' hc hji) fun hlock' => ?_⟩
    exact Set.disjoint_left.1 hdisj hlock hlock'

theorem holds (hdb : Keys db) (hfresh : Fresh db calls) (turns : List ℕ) :
    Holds Keys (Idle calls) (Busy calls) (run (turn (registers calls)) (Sys.init db) turns) :=
  (valid hfresh).rule hdb (fun _ c hc => hfresh.unborn c (List.mem_of_getElem? hc)) turns

/-! ## When no call fails -/

/-- the call fails, or has failed -/
def Fails (s : State) (i : ℕ) (e : RegistrationError) : Prop :=
  (i, .raised e) ∈ s.log ∨ s.sessions i = some (.rollback (.raised e))

def NoneFails (s : State) : Prop := ∀ i e, ¬ Fails s i e

/-- the INSERT that the call runs meets its key in the table -/
def Refused (calls : List Call) (s : State) (i : ℕ) : Prop :=
  ∃ c hash, calls[i]? = some c ∧ c.configurationHash = some hash ∧
    s.sessions i = some (addModel c hash) ∧ (∀ j, ¬ WaitsFor s i j) ∧ (c.row hash).key ∈ s.db.map (·.key)

theorem not_refused_of_session {s : State} {i : ℕ} (h : ∀ c hash, s.sessions i ≠ some (addModel c hash)) :
    ¬ Refused calls s i := by
  intro ⟨c, hash, _, _, hi, _⟩
  exact h c hash hi

theorem findModel_ne (c c' : Call) (hash hash' : String) : findModel c hash ≠ addModel c' hash' := by
  intro h
  have hrows := (Txn.stmt.inj h).1
  have hnil := congrFun hrows []
  cases hnil

theorem addModel_inj {c c' : Call} {hash hash' : String} (h : addModel c hash = addModel c' hash') :
    (c.row hash).key = (c'.row hash').key := by
  have hrows := congrFun (Txn.stmt.inj h).1 []
  simp only [List.cons.injEq, Row.identity.injEq] at hrows
  exact hrows.2.1

/-- what the statement of an INSERT leads to -/
theorem modelInserted_eq (hfit : (c.row hash).defects = []) (h : c.modelId ∉ d.map (·.id)) :
    modelInserted c hash (modelViolations d (c.row hash)) =
      if (c.row hash).key ∈ d.map (·.key) then .rollback (.raised (.database [.unique IDENTITY_INDEX]))
      else .commit (fun db => db ++ [c.row hash]) (.returned c.modelId) := by
  have hid : uniqueIndex "pk_embedding_models" ((c.row hash).id ∈ d.map (·.id)) = [] := uniqueIndex_eq_nil.2 h
  rw [modelViolations, hfit, hid, List.nil_append, List.nil_append, uniqueIndex]
  split_ifs <;> rfl

/-- **One turn** lets a call fail exactly if its INSERT is refused. -/
theorem noneFails_turn (hfit : ∀ c ∈ calls, c.Fits) {s : State} (hs : Holds Keys (Idle calls) (Busy calls) s) (i : ℕ)
    (hnone : NoneFails s) : NoneFails (turn (registers calls) s i) ↔ ¬ Refused calls s i := by
  -- a session that goes on, and does not fail
  have hgoes : ∀ (p : Tx) (held : Row → Option ℕ), (∀ e, p ≠ .rollback (.raised e)) →
      NoneFails { s with sessions := Function.update s.sessions i (some p), held := held } := by
    intro p held hp k e hfails
    rcases hfails with hlog | hsession
    · exact hnone k e (.inl hlog)
    · simp only [Function.update_apply] at hsession
      split_ifs at hsession
      · exact hp e (Option.some.inj hsession)
      · exact hnone k e (.inr hsession)
  -- a session that ends, and has not failed
  have hends : ∀ (db : Models) (o : Outcome), (∀ e, o ≠ .raised e) →
      NoneFails { s.close i with db := db, log := s.log ++ [(i, o)] } := by
    intro db o ho k e hfails
    rcases hfails with hlog | hsession
    · rcases List.mem_append.1 hlog with hlog | hlog
      · exact hnone k e (.inl hlog)
      · exact ho e (Prod.mk.inj (List.mem_singleton.1 hlog)).2.symm
    · exact hnone k e (.inr (Sys.sessions_close hsession).2)
  have hc := turn_cases (registers calls) s i
  generalize turn (registers calls) s i = s' at hc
  cases hc with
  | finished h =>
    refine iff_of_true hnone (not_refused_of_session fun c hash hi => ?_)
    rw [h.1] at hi
    cases hi
  | waits h =>
    refine iff_of_true hnone ?_
    rintro ⟨_, _, _, _, _, hfree, -⟩
    exact hfree _ h
  | @start p hi hp =>
    refine iff_of_true (hgoes p s.held fun e hpe => ?_) (not_refused_of_session fun c hash h => ?_)
    · unfold registers at hp
      split at hp
      · obtain ⟨c, hc, rfl⟩ := Option.map_eq_some_iff.1 hp
        obtain ⟨hash, hhash, -⟩ := hfit c (List.mem_of_getElem? hc)
        rw [register, hhash] at hpe
        cases hpe
      · cases hp
    · rw [hi] at h
      cases h
  | @stmt rows k hi hfree =>
    obtain ⟨-, c, hc, hstage⟩ := hs.busy i _ hi
    generalize hq : Txn.stmt rows k = q at hstage
    cases hstage with
    | @findModel hash hhash h =>
      cases hq
      refine iff_of_true (hgoes _ _ fun e => ?_) (not_refused_of_session fun c' hash' h' => ?_)
      · rcases hs.global.lookup c hash with ⟨m, -, -, hrows⟩ | ⟨-, hrows⟩
        · simp only [hrows]
          exact fun heq => by cases heq
        · simp only [hrows]
          exact fun heq => by cases heq
      · rw [hi] at h'
        exact findModel_ne c c' hash hash' (Option.some.inj h')
    | @addModel hash hhash h =>
      cases hq
      obtain ⟨hash', hhash', hdefects⟩ := hfit c (List.mem_of_getElem? hc)
      obtain rfl : hash' = hash := Option.some.inj (hhash'.symm.trans hhash)
      by_cases hkey : (c.row hash').key ∈ s.db.map (·.key)
      · refine iff_of_false (fun hno => ?_) fun hnot => hnot ⟨c, hash', hc, hhash, hi, fun j hw => ?_, hkey⟩
        · refine hno i (.database [.unique IDENTITY_INDEX]) (.inr ?_)
          simp only [Sys.lock, Function.update_self, modelInserted_eq hdefects h, if_pos hkey]
        · obtain ⟨rows, k', x, hi', hx, hheld, hji⟩ := hw
          cases hi.symm.trans hi'
          rcases hfree x hx with hfree | hfree
          · rw [hfree] at hheld
            cases hheld
          · rw [hfree] at hheld
            exact hji (Option.some.inj hheld).symm
      · refine iff_of_true (hgoes _ _ fun e => ?_) ?_
        · simp only [modelInserted_eq hdefects h, if_neg hkey]
          exact fun heq => by cases heq
        · rintro ⟨c', hash, hc', hhash', hi', -, hkey'⟩
          obtain rfl : c = c' := Option.some.inj (hc.symm.trans hc')
          obtain rfl : hash' = hash := Option.some.inj (hhash.symm.trans hhash')
          exact hkey hkey'
    | commit => cases hq
    | rollback => cases hq
  | @commit w o hi =>
    obtain ⟨-, c, -, hstage⟩ := hs.busy i _ hi
    obtain ⟨hash, -, -, -, -, -, -, rfl⟩ := hstage.of_commit
    refine iff_of_true (hends _ _ fun e heq => by cases heq) (not_refused_of_session fun c' hash' h => ?_)
    rw [hi] at h
    cases h
  | @rollback o hi =>
    refine iff_of_true (hends _ _ fun e heq => hnone i e (.inr (heq ▸ hi))) (not_refused_of_session fun c' hash' h => ?_)
    rw [hi] at h
    cases h

/-! ## Overtaken calls -/

abbrev WatchedState := Watched Models Row Outcome

/-- what has been noted for a call at its INSERT: a model of its identity has been committed since its lookup -/
def Warned (w : WatchedState) : Prop :=
  ∀ i c hash, w.sys.sessions i = some (addModel c hash) →
    ∃ since rest, w.notes i = since :: rest ∧ ∀ m ∈ w.sys.db, m.key = (c.row hash).key → .returned m.id ∈ since

theorem register_ne (c c' : Call) (hash : String) : register c ≠ addModel c' hash := by
  unfold register
  split
  · exact fun h => by cases h
  · exact findModel_ne _ _ _ _

theorem modelInserted_ne (c c' : Call) (hash hash' : String) (es : List Violation) :
    modelInserted c hash es ≠ addModel c' hash' := by
  unfold modelInserted
  split <;> exact fun h => by cases h

/-- **One turn** keeps what has been noted. -/
theorem Warned.turn {w : WatchedState} (hs : Holds Keys (Idle calls) (Busy calls) w.sys) (h : Warned w) (i : ℕ) :
    Warned (watchTurn (registers calls) w i) := by
  intro j c hash hj
  unfold watchTurn at hj ⊢
  cases hi : w.sys.sessions i with
  | none =>
    simp only [hi] at hj ⊢
    cases hp : registers calls i (results w.sys i) with
    | none =>
      simp only [hp] at hj ⊢
      exact h j c hash hj
    | some p =>
      simp only [hp, watch, note, step, hi, if_true] at hj ⊢
      by_cases hji : j = i
      · -- a call starts with its lookup
        subst hji
        simp only [Function.update_self, Option.some.injEq] at hj
        unfold registers at hp
        split at hp
        · obtain ⟨c', -, rfl⟩ := Option.map_eq_some_iff.1 hp
          exact absurd hj (register_ne c' c hash)
        · cases hp
      · simp only [Function.update_of_ne hji] at hj ⊢
        exact h j c hash hj
  | some p =>
    simp only [hi] at hj ⊢
    cases p with
    | stmt rows k =>
      simp only [watch, note, step, hi, next] at hj ⊢
      split_ifs at hj ⊢ with hfree
      · by_cases hji : j = i
        · -- the lookup of the call has found no model
          subst hji
          simp only [Sys.lock, Function.update_self, Option.some.injEq] at hj ⊢
          refine ⟨[], w.notes j, rfl, fun m hm hkey => ?_⟩
          obtain ⟨-, c', -, hstage⟩ := hs.busy j _ hi
          generalize hq : Txn.stmt rows k = q at hstage
          cases hstage with
          | @findModel hash' _ _ =>
            cases hq
            rcases hs.global.lookup c' hash' with ⟨m', -, -, hrows⟩ | ⟨hnone, hrows⟩
            · simp only [hrows] at hj
              cases hj
            · simp only [hrows] at hj
              exact absurd (List.mem_map.2 ⟨m, hm, hkey.trans (addModel_inj hj).symm⟩) hnone
          | addModel =>
            cases hq
            exact absurd hj (modelInserted_ne _ _ _ _ _)
          | commit => cases hq
          | rollback => cases hq
        · simp only [Sys.lock, Function.update_of_ne hji] at hj ⊢
          exact h j c hash hj
      · exact h j c hash hj
    | commit wr o =>
      simp only [watch, note, step, hi, next] at hj ⊢
      obtain ⟨-, hj'⟩ := Sys.sessions_close hj
      obtain ⟨since, rest, hnotes, hsince⟩ := h j c hash hj'
      obtain ⟨-, c', -, hstage⟩ := hs.busy i _ hi
      obtain ⟨hash', -, -, -, -, -, rfl, rfl⟩ := hstage.of_commit
      refine ⟨since ++ [.returned c'.modelId], rest.map (· ++ [.returned c'.modelId]), by rw [hnotes, List.map_cons], ?_⟩
      intro m hm hkey
      rcases List.mem_append.1 hm with hm | hm
      · exact List.mem_append_left _ (hsince m hm hkey)
      · rw [List.mem_singleton.1 hm]
        exact List.mem_append_right _ (List.mem_singleton_self _)
    | rollback o =>
      simp only [watch, note, step, hi, next] at hj ⊢
      exact h j c hash (Sys.sessions_close hj).2

/-- **The call is overtaken**: it runs its INSERT, and since its last statement, the lookup, another call has committed a model
with its identity. -/
def Overtaken (calls : List Call) (w : WatchedState) (i : ℕ) : Prop :=
  ∃ c hash, calls[i]? = some c ∧ c.configurationHash = some hash ∧ w.sys.sessions i = some (addModel c hash) ∧
    (∀ j, ¬ WaitsFor w.sys i j) ∧ ∃ m ∈ w.sys.db, m.key = (c.row hash).key ∧ .returned m.id ∈ w.since i 0

theorem refused_iff {w : WatchedState} (h : Warned w) (i : ℕ) : Refused calls w.sys i ↔ Overtaken calls w i := by
  constructor
  · rintro ⟨c, hash, hc, hhash, hi, hfree, hkey⟩
    obtain ⟨m, hm, hkey⟩ := List.mem_map.1 hkey
    obtain ⟨since, rest, hnotes, hsince⟩ := h i c hash hi
    refine ⟨c, hash, hc, hhash, hi, hfree, m, hm, hkey, ?_⟩
    rw [Watched.since, hnotes]
    exact hsince m hm hkey
  · rintro ⟨c, hash, hc, hhash, hi, hfree, m, hm, hkey, -⟩
    exact ⟨c, hash, hc, hhash, hi, hfree, List.mem_map.2 ⟨m, hm, hkey⟩⟩

/-! ## Convergence -/

/-- the same fields, and the same canonical text of the configurations -/
def EmbeddingModelIdentity.Same (x y : EmbeddingModelIdentity) : Prop :=
  x.provider = y.provider ∧ x.modelName = y.modelName ∧ x.modelRevision = y.modelRevision ∧ x.dimension = y.dimension ∧
    x.distanceMetric = y.distanceMetric ∧ x.maxInputTokens = y.maxInputTokens ∧
    encode (.dict x.configuration) = encode (.dict y.configuration)

/-- no two configurations of the calls collide -/
def NoCollision (calls : List Call) : Prop := ∀ c ∈ calls, ∀ c' ∈ calls,
  c.configurationHash = c'.configurationHash →
    encode (.dict c.identity.configuration) = encode (.dict c'.identity.configuration)

/-- what the calls have come to -/
structure Converged (calls : List Call) (s : State) : Prop where
  /-- one model for each identity -/
  agree : ∀ i j c c' x y, calls[i]? = some c → calls[j]? = some c' → (i, .returned x) ∈ s.log →
    (j, .returned y) ∈ s.log → (x = y ↔ c.identity.Same c'.identity)
  /-- with one row -/
  row : ∀ i c x, calls[i]? = some c → (i, .returned x) ∈ s.log →
    ∃ hash m, c.configurationHash = some hash ∧ m.id = x ∧
      s.db.filter (c.identity.Matches hash) = [m]

theorem registered_of_log {s : State} (hs : Holds Keys (Idle calls) (Busy calls) s) {i : ℕ}
    (hc : calls[i]? = some c) (hx : (i, .returned x) ∈ s.log) : Registered c s.db x := by
  have hmem := mem_results.2 hx
  cases hi : s.sessions i with
  | none =>
    have hafter := hs.idle i hi c hc
    unfold After at hafter
    split at hafter
    · next hrs => rw [hrs] at hmem; cases hmem
    · next hrs =>
      rw [hrs, List.mem_singleton] at hmem
      rw [Outcome.returned.inj hmem]
      exact hafter
    · next hrs =>
      rw [hrs, List.mem_singleton] at hmem
      cases hmem
    · exact hafter.elim
  | some p =>
    rw [(hs.busy i p hi).1] at hmem
    cases hmem

theorem same_of_key (hno : NoCollision calls) (hc : c ∈ calls) (hc' : c' ∈ calls)
    (hhash : c.configurationHash = some hash)
    (hhash' : c'.configurationHash = some hash')
    (hkey : (c.row hash).key = (c'.row hash').key) : c.identity.Same c'.identity := by
  have hmatch : c'.identity.Matches hash' (c.row hash) := (matches_iff c.identity.maxInputTokens_pos).2 hkey
  obtain ⟨hprovider, hname, hrevision, hdimension, hmetric, hlimit, hhashes⟩ := hmatch
  have htext := hno c hc c' hc' (hhash.trans ((congrArg some hhashes).trans hhash'.symm))
  exact ⟨hprovider, hname, hrevision, hdimension, hmetric, hlimit, htext⟩

theorem key_of_same (h : c.identity.Same c'.identity)
    (hhash : c.configurationHash = some hash)
    (hhash' : c'.configurationHash = some hash') :
    (c.row hash).key = (c'.row hash').key := by
  obtain ⟨hprovider, hname, hrevision, hdimension, hmetric, hlimit, htext⟩ := h
  have hhashes : hash = hash' := hash_of_encode htext hhash hhash'
  exact (matches_iff (m := c.row hash) c.identity.maxInputTokens_pos).1
    ⟨hprovider, hname, hrevision, hdimension, hmetric, hlimit, hhashes⟩

theorem converged (hno : NoCollision calls) {s : State} (hs : Holds Keys (Idle calls) (Busy calls) s) :
    Converged calls s := by
  have hkeys := hs.global
  refine ⟨?_, ?_⟩
  · intro i j c c' x y hc hc' hx hy
    obtain ⟨hash, hhash, m, hm, hkey, rfl⟩ := registered_of_log hs hc hx
    obtain ⟨hash', hhash', m', hm', hkey', rfl⟩ := registered_of_log hs hc' hy
    constructor
    · intro hid
      have hmm : m = m' := List.inj_on_of_nodup_map hkeys.ids hm hm' hid
      refine same_of_key hno (List.mem_of_getElem? hc) (List.mem_of_getElem? hc') hhash hhash' ?_
      rw [← hkey, ← hkey', hmm]
    · intro hsame
      have hmm : m.key = m'.key := by rw [hkey, hkey', key_of_same hsame hhash hhash']
      rw [List.inj_on_of_nodup_map hkeys.keys hm hm' hmm]
  · intro i c x hc hx
    obtain ⟨hash, hhash, m, hm, hkey, rfl⟩ := registered_of_log hs hc hx
    refine ⟨hash, m, hhash, rfl, ?_⟩
    exact filter_eq_singleton hkeys.keys (fun y hy hmatch => (matches_iff (hkeys.pos hy)).1 hmatch) hm
      ((matches_iff (hkeys.pos hm)).2 hkey)

/-- **When registration converges.** Any number of calls, whose identities fit the table and whose configurations do not
collide under the hash, are interleaved. In every state the calls that have returned have the same model if and only if
they have the same identity, and its row is one. In every state of the run no call has failed if and only if no turn runs the
INSERT of a call after another has, since its lookup, committed a model of the same identity. -/
theorem registration_converges (db : Models) (hdb : Keys db) (calls : List Call) (hfit : ∀ c ∈ calls, c.Fits)
    (hfresh : Fresh db calls) (hno : NoCollision calls) (turns : List ℕ) :
    (∀ k, Converged calls (run (turn (registers calls)) (Sys.init db) (turns.take k))) ∧
    ((∀ k, NoneFails (run (turn (registers calls)) (Sys.init db) (turns.take k))) ↔
      Admissible (watchTurn (registers calls)) (fun w i => ¬ Overtaken calls w i) (Watched.init db) turns) := by
  refine ⟨fun k => converged hno (holds hdb hfresh _), ?_⟩
  have hinit : Holds Keys (Idle calls) (Busy calls) (Sys.init db : State) := holds hdb hfresh []
  have hwarned : Warned (Watched.init db : WatchedState) := fun i c hash hi => by cases hi
  have hnone : NoneFails (Sys.init db : State) := by
    intro i e hfails
    rcases hfails with hlog | hsession
    · cases hlog
    · cases hsession
  have hstep : ∀ (w : WatchedState) i, always w i → Holds Keys (Idle calls) (Busy calls) w.sys ∧ Warned w → NoneFails w.sys →
      (NoneFails (watchTurn (registers calls) w i).sys ↔ ¬ Overtaken calls w i) := by
    intro w i _ ⟨hs, hw⟩ hnone
    rw [watchTurn_sys, noneFails_turn hfit hs i hnone, refused_iff hw]
  have hiff := forall_take_iff (I := fun w => Holds Keys (Idle calls) (Busy calls) w.sys ∧ Warned w)
    (P := fun w : WatchedState => NoneFails w.sys)
    (fun w i _ h => ⟨watchTurn_sys w i ▸ (valid hfresh).turn h.1 i, h.2.turn h.1 i⟩) hstep (.of_always _ turns)
    ⟨hinit, hwarned⟩ hnone
  simpa only [run_watchTurn_sys, Watched.init_sys] using hiff

def smallModel : EmbeddingModelIdentity where
  provider := .openai
  modelName := str "text-embedding-3-small"
  modelRevision := str "v1"
  dimension := 1536
  distanceMetric := .cosine
  maxInputTokens := none
  configuration := []
  dimension_pos := by decide
  modelName_given := by decide
  modelRevision_given := by decide
  maxInputTokens_pos := by decide

def twoCalls : List Call := [⟨smallModel, 10, 1000⟩, ⟨smallModel, 11, 1000⟩]

/-- one call after the other -/
theorem registration_converges_sequential :
    let s := run (turn (registers twoCalls)) (Sys.init []) [0, 0, 0, 0, 1, 1, 1]
    s.log = [(0, .returned 10), (1, .returned 10)] ∧ Converged twoCalls s := by
  have hfit : ∀ c ∈ twoCalls, c.Fits := by
    intro c hc
    have hidentity : c.identity = smallModel := by
      simp only [twoCalls, List.mem_cons, List.not_mem_nil, or_false] at hc
      rcases hc with rfl | rfl <;> rfl
    have hlimit : c.limit = 1000 := by
      simp only [twoCalls, List.mem_cons, List.not_mem_nil, or_false] at hc
      rcases hc with rfl | rfl <;> rfl
    obtain ⟨identity, modelId, limit⟩ := c
    obtain rfl : identity = smallModel := hidentity
    obtain rfl : limit = 1000 := hlimit
    have hdefects : ((⟨smallModel, 10, 1000⟩ : Call).row (Sha256.hexDigest [123, 125])).defects = [] := by decide +kernel
    exact ⟨_, rfl, hdefects⟩
  have hno : NoCollision twoCalls := by
    intro c hc c' hc' _
    simp only [twoCalls, List.mem_cons, List.not_mem_nil, or_false] at hc hc'
    rcases hc with rfl | rfl <;> rcases hc' with rfl | rfl <;> rfl
  have hkeys : Keys [] := ⟨List.nodup_nil, List.nodup_nil, fun m hm => (by cases hm)⟩
  have hfresh : Fresh [] twoCalls := ⟨fun c _ => List.not_mem_nil, by decide⟩
  exact ⟨by decide +kernel, (registration_converges [] hkeys twoCalls hfit hfresh hno [0, 0, 0, 0, 1, 1, 1]).1 7⟩

/-- both calls look the identity up before either inserts it -/
theorem registration_overtaken : (run (turn (registers twoCalls)) (Sys.init []) [0, 1, 0, 1, 0, 0, 1, 1]).log =
    [(0, .returned 10), (1, .raised (.database [.unique IDENTITY_INDEX]))] := by
  decide +kernel

end AtlasRag.Embedding.Registry
