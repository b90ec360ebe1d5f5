/-
What identifies an embedding model: its configuration counts as a JSON value, up to the order of the keys of its objects.

The calls of `register` come one after the other.

Results:
- `register_alone`: one call;
- `registered_in_turn`: all calls;
- `configuration_identified`: hashes identify configurations, and models identities.
-/
import AtlasRag.Embedding.ModelRegistry
import AtlasRag.Platform.Canonical

namespace AtlasRag.Embedding.Registry

open AtlasRag.Lib AtlasRag.Lib.Table AtlasRag.Lib.Transaction AtlasRag.Platform

/-- one call after the other -/
def registerInTurn : List Call → Models → List Outcome × Models
  | [], db => ([], db)
  | c :: cs, db =>
    let (db, outcome) := (register c).alone db
    let (outcomes, db) := registerInTurn cs db
    (outcome :: outcomes, db)

/-- all that identifies a model; the configurations are JSON values -/
def EmbeddingModelIdentity.Alike (x y : EmbeddingModelIdentity) : Prop :=
  x.provider = y.provider ∧ x.modelName = y.modelName ∧ x.modelRevision = y.modelRevision ∧ x.dimension = y.dimension ∧
    x.distanceMetric = y.distanceMetric ∧ x.maxInputTokens = y.maxInputTokens ∧
    (Value.dict x.configuration).Same (.dict y.configuration)

variable {db d : Models} {c c' : Call} {calls : List Call} {hash hash' : String} {x y : Uuid}

/-! ## One call -/

/-- what one call does -/
structure Done (c : Call) (d : Models) (added : Models) (o : Outcome) : Prop where
  keys : Keys (d ++ added)
  ids : ∀ m ∈ added, m.id = c.modelId
  registered : ∀ x, o = .returned x → Registered c (d ++ added) x
  fits : c.Fits → ∃ x, o = .returned x

theorem Done.raised (hd : Keys d) (hfit : ¬ c.Fits) (e : RegistrationError) : Done c d [] (.raised e) where
  keys := by rwa [List.append_nil]
  ids := fun m hm => by cases hm
  registered := fun x hx => by cases hx
  fits := fun h => absurd h hfit

/-- the INSERT of an identity that the table does not have -/
theorem addModel_alone (hd : Keys d) (hhash : c.configurationHash = some hash)
    (hid : c.modelId ∉ d.map (·.id)) (hkey : (c.row hash).key ∉ d.map (·.key)) :
    ∃ added, ((addModel c hash).alone d).1 = d ++ added ∧ Done c d added ((addModel c hash).alone d).2 := by
  by_cases hdefects : (c.row hash).defects = []
  · have halone : (addModel c hash).alone d = (d ++ [c.row hash], .returned c.modelId) := by
      rw [addModel, Txn.alone, modelInserted_eq hdefects hid, if_neg hkey, Txn.alone]
    rw [halone]
    refine ⟨[c.row hash], rfl, hd.insert hdefects hid hkey, ?_, ?_, fun _ => ⟨_, rfl⟩⟩
    · intro m hm
      rw [List.mem_singleton.1 hm]
      rfl
    · intro x hx
      exact ⟨hash, hhash, _, List.mem_append_right _ (List.mem_singleton.2 rfl), rfl, Outcome.returned.inj hx⟩
  · have hfit : ¬ c.Fits := by
      rintro ⟨hash', hhash', hnone⟩
      obtain rfl : hash' = hash := Option.some.inj (hhash'.symm.trans hhash)
      exact hdefects hnone
    cases hes : modelViolations d (c.row hash) with
    | nil =>
      simp only [modelViolations, List.append_eq_nil_iff] at hes
      exact absurd hes.1.1 hdefects
    | cons e es =>
      have halone : (addModel c hash).alone d = (d, .raised (.database (e :: es))) := by
        rw [addModel, Txn.alone, hes, modelInserted, Txn.alone]
        intro h
        cases h
      rw [halone]
      exact ⟨[], (List.append_nil d).symm, .raised hd hfit _⟩

/-- **One call** leaves the rows that there are, and returns the model of its identity, if that fits the table. -/
theorem register_alone (hd : Keys d) (hid : c.modelId ∉ d.map (·.id)) :
    ∃ added, ((register c).alone d).1 = d ++ added ∧ Done c d added ((register c).alone d).2 := by
  unfold register
  cases hhash : c.configurationHash with
  | none =>
    refine ⟨[], (List.append_nil d).symm, .raised hd ?_ _⟩
    intro ⟨hash, hhash', _⟩
    rw [hhash] at hhash'
    cases hhash'
  | some hash =>
    rcases hd.lookup c hash with ⟨m, hm, hkey, hrows⟩ | ⟨hkey, hrows⟩
    · have halone : (findModel c hash).alone d = (d, .returned m.id) := by
        simp only [findModel, Txn.read, Txn.alone, hrows]
      simp only [halone]
      refine ⟨[], (List.append_nil d).symm, by rwa [List.append_nil], fun m hm => (by cases hm), ?_, fun _ => ⟨_, rfl⟩⟩
      intro x hx
      rw [List.append_nil]
      exact ⟨hash, hhash, m, hm, hkey, Outcome.returned.inj hx⟩
    · have halone : (findModel c hash).alone d = (addModel c hash).alone d := by
        simp only [findModel, Txn.read, Txn.alone, hrows]
      simp only [halone]
      exact addModel_alone hd hhash hid hkey

/-! ## All calls -/

theorem Registered.append (h : Registered c d x) (added : Models) : Registered c (d ++ added) x := by
  obtain ⟨hash, hhash, m, hm, hkey, hid⟩ := h
  exact ⟨hash, hhash, m, List.mem_append_left _ hm, hkey, hid⟩

theorem Fresh.tail (h : Fresh d (c :: calls)) {added : Models} (hids : ∀ m ∈ added, m.id = c.modelId) :
    Fresh (d ++ added) calls where
  unborn c' hc' := by
    rw [List.map_append, List.mem_append, not_or]
    refine ⟨h.unborn c' (List.mem_cons_of_mem c hc'), fun hmem => ?_⟩
    obtain ⟨m, hm, hid⟩ := List.mem_map.1 hmem
    rw [hids m hm] at hid
    exact (List.nodup_cons.1 h.ids).1 (List.mem_map.2 ⟨c', hc', hid.symm⟩)
  ids := (List.nodup_cons.1 h.ids).2

/-- what the calls do in turn -/
structure InTurn (calls : List Call) (d : Models) (outcomes : List Outcome) (d' : Models) : Prop where
  keys : Keys d'
  grows : ∃ added, d' = d ++ added
  registered : ∀ (i : ℕ) (c : Call) x, calls[i]? = some c → outcomes[i]? = some (Outcome.returned x) → Registered c d' x
  fits : ∀ (i : ℕ) (c : Call), calls[i]? = some c → c.Fits → ∃ x, outcomes[i]? = some (Outcome.returned x)

/-- **All calls**: an identity that was registered remains so. -/
theorem registered_in_turn (hd : Keys d) (hfresh : Fresh d calls) :
    InTurn calls d (registerInTurn calls d).1 (registerInTurn calls d).2 := by
  induction calls generalizing d with
  | nil =>
    refine ⟨hd, ⟨[], (List.append_nil d).symm⟩, ?_, ?_⟩
    · intro i c x hc
      cases hc
    · intro i c hc
      cases hc
  | cons c calls ih =>
    obtain ⟨added, hdb, hdone⟩ := register_alone hd (hfresh.unborn c List.mem_cons_self)
    have hrest := ih (hdb ▸ hdone.keys) (hdb ▸ hfresh.tail hdone.ids)
    obtain ⟨later, hlater⟩ := hrest.grows
    refine ⟨hrest.keys, ⟨added ++ later, ?_⟩, ?_, ?_⟩
    · show (registerInTurn calls ((register c).alone d).1).2 = _
      rw [hlater, hdb, List.append_assoc]
    · intro i c' x hc' hx
      cases i with
      | zero =>
        obtain rfl : c = c' := Option.some.inj hc'
        have hregistered := (hdone.registered x (Option.some.inj hx)).append later
        rw [← hdb, ← hlater] at hregistered
        exact hregistered
      | succ i => exact hrest.registered i c' x hc' hx
    · intro i c' hc' hfit
      cases i with
      | zero =>
        obtain rfl : c = c' := Option.some.inj hc'
        obtain ⟨x, hx⟩ := hdone.fits hfit
        exact ⟨x, congrArg some hx⟩
      | succ i => exact hrest.fits i c' hc' hfit

/-! ## Identity -/

/-- the keys of the index are the same iff the identities are -/
theorem key_eq_iff (hc : (Value.dict c.identity.configuration).IsJson) (hc' : (Value.dict c'.identity.configuration).IsJson)
    (hdistinct : Distinct c.identity.configuration c'.identity.configuration)
    (hhash : c.configurationHash = some hash)
    (hhash' : c'.configurationHash = some hash') :
    (c.row hash).key = (c'.row hash').key ↔ c.identity.Alike c'.identity := by
  rw [← matches_iff (m := c.row hash) c.identity.maxInputTokens_pos, EmbeddingModelIdentity.Alike,
    ← canonicalConfigurationHash_eq_iff hc hc' hdistinct hhash hhash']
  rfl

/-- registered models are the same iff their identities are -/
theorem registered_eq_iff (hd : Keys d) (hc : (Value.dict c.identity.configuration).IsJson)
    (hc' : (Value.dict c'.identity.configuration).IsJson)
    (hdistinct : Distinct c.identity.configuration c'.identity.configuration) (hx : Registered c d x)
    (hy : Registered c' d y) : x = y ↔ c.identity.Alike c'.identity := by
  obtain ⟨hash, hhash, m, hm, hkey, rfl⟩ := hx
  obtain ⟨hash', hhash', m', hm', hkey', rfl⟩ := hy
  rw [← key_eq_iff hc hc' hdistinct hhash hhash', ← hkey, ← hkey']
  constructor
  · intro hid
    rw [List.inj_on_of_nodup_map hd.ids hm hm' hid]
  · intro hkeys
    rw [List.inj_on_of_nodup_map hd.keys hm hm' hkeys]

/-- **Configurations** have a hash iff Python writes their integers, of at most 4300 digits, and they are nested no deeper than
the interpreter's limit. Those whose texts do not collide have one hash iff they are the same JSON value up to the order of
keys. Calls of `register`, one after the other, return one model iff all that identifies it is the same; each returns one if
its identity fits the table. -/
theorem configuration_identified :
    (∀ (limit : ℕ) (x : Dict), (Value.dict x).IsJson →
      ((∃ hash, canonicalConfigurationHash limit x = some hash) ↔
        (Value.dict x).All FewDigits ∧ (Value.dict x).depth ≤ limit)) ∧
    (∀ (limit limit' : ℕ) (x y : Dict) (hash hash' : String), (Value.dict x).IsJson → (Value.dict y).IsJson → Distinct x y →
      canonicalConfigurationHash limit x = some hash → canonicalConfigurationHash limit' y = some hash' →
      (hash = hash' ↔ (Value.dict x).Same (.dict y))) ∧
    ∀ (db : Models) (calls : List Call), Keys db → Fresh db calls →
      (∀ c ∈ calls, (Value.dict c.identity.configuration).IsJson) →
      (∀ c ∈ calls, ∀ c' ∈ calls, Distinct c.identity.configuration c'.identity.configuration) →
      let outcomes := (registerInTurn calls db).1
      (∀ (i : ℕ) (c : Call), calls[i]? = some c → c.Fits → ∃ x, outcomes[i]? = some (Outcome.returned x)) ∧
      ∀ (i j : ℕ) (c c' : Call) x y, calls[i]? = some c → calls[j]? = some c' → outcomes[i]? = some (Outcome.returned x) →
        outcomes[j]? = some (Outcome.returned y) → (x = y ↔ c.identity.Alike c'.identity) := by
  refine ⟨fun _ _ hx => exists_hash_iff hx, fun _ _ _ _ _ _ hx hy hdistinct hhash hhash' => ?_, ?_⟩
  · exact canonicalConfigurationHash_eq_iff hx hy hdistinct hhash hhash'
  · intro db calls hdb hfresh hjson hdistinct outcomes
    have hturn := registered_in_turn hdb hfresh
    refine ⟨hturn.fits, ?_⟩
    intro i j c c' x y hc hc' hx hy
    have hmem := List.mem_of_getElem? hc
    have hmem' := List.mem_of_getElem? hc'
    exact registered_eq_iff hturn.keys (hjson c hmem) (hjson c' hmem') (hdistinct c hmem c' hmem')
      (hturn.registered i c x hc hx) (hturn.registered j c' y hc' hy)

/-- `{"a": 1, "b": [true, null]}` -/
def orderedConfiguration : Dict := [(str "a", .int 1), (str "b", .list [.bool true, .null])]

def reorderedConfiguration : Dict := [(str "b", .list [.bool true, .null]), (str "a", .int 1)]

def reorderedCalls : List Call :=
  [⟨{ smallModel with configuration := orderedConfiguration }, 10, 1000⟩,
    ⟨{ smallModel with configuration := reorderedConfiguration }, 11, 1000⟩,
    ⟨{ smallModel with configuration := orderedConfiguration, maxInputTokens := some 512, maxInputTokens_pos := by decide }, 12,
      1000⟩]

/-- the order of the keys does not matter; a limit does -/
theorem configuration_identified_reordered :
    (∃ hash hash', canonicalConfigurationHash 1000 orderedConfiguration = some hash ∧
      canonicalConfigurationHash 1000 reorderedConfiguration = some hash' ∧
        (hash = hash' ↔ (Value.dict orderedConfiguration).Same (.dict reorderedConfiguration))) ∧
    (registerInTurn reorderedCalls []).1 = [.returned 10, .returned 10, .returned 12] ∧
    ∀ (i j : ℕ) (c c' : Call) x y, reorderedCalls[i]? = some c → reorderedCalls[j]? = some c' →
      (registerInTurn reorderedCalls []).1[i]? = some (Outcome.returned x) →
      (registerInTurn reorderedCalls []).1[j]? = some (Outcome.returned y) → (x = y ↔ c.identity.Alike c'.identity) := by
  have hordered : (Value.dict orderedConfiguration).IsJson := by
    simp only [Value.IsJson, Value.All, allEntries, allItems, orderedConfiguration, JsonNode]
    decide
  have hreordered : (Value.dict reorderedConfiguration).IsJson := by
    simp only [Value.IsJson, Value.All, allEntries, allItems, reorderedConfiguration, JsonNode]
    decide
  have hdigits : (Value.dict orderedConfiguration).All FewDigits ∧ (Value.dict reorderedConfiguration).All FewDigits := by
    have hone : Int.natAbs 1 < 10 ^ MAX_STR_DIGITS := Nat.one_lt_pow (by decide) (by decide)
    simp only [Value.All, allEntries, allItems, orderedConfiguration, reorderedConfiguration, FewDigits, hone, and_self]
  have hsame : serialized orderedConfiguration = serialized reorderedConfiguration := by decide +kernel
  have htext : ∀ c ∈ reorderedCalls, serialized c.identity.configuration = serialized orderedConfiguration := by
    simp only [reorderedCalls, List.forall_mem_cons, hsame, List.not_mem_nil, false_implies, implies_true, and_self]
  have hdistinct : ∀ {x y : Dict}, serialized x = serialized y → Distinct x y := by
    intro x y hxy s hs t ht _
    rw [hxy] at hs
    exact Option.mem_unique hs ht
  have hjson : ∀ c ∈ reorderedCalls, (Value.dict c.identity.configuration).IsJson := by
    simp only [reorderedCalls, List.forall_mem_cons, hordered, hreordered, List.not_mem_nil, false_implies, implies_true,
      and_self]
  have hkeys : Keys [] := ⟨List.nodup_nil, List.nodup_nil, fun m hm => (by cases hm)⟩
  have hfresh : Fresh [] reorderedCalls := ⟨fun c _ => List.not_mem_nil, by decide⟩
  obtain ⟨hhashed, hidentified, hregistered⟩ := configuration_identified
  obtain ⟨hash, hhash⟩ := (hhashed 1000 _ hordered).2 ⟨hdigits.1, by decide⟩
  obtain ⟨hash', hhash'⟩ := (hhashed 1000 _ hreordered).2 ⟨hdigits.2, by decide⟩
  refine ⟨⟨hash, hash', hhash, hhash', ?_⟩, by decide +kernel, ?_⟩
  · exact hidentified _ _ _ _ _ _ hordered hreordered (hdistinct hsame) hhash hhash'
  · exact (hregistered [] reorderedCalls hkeys hfresh hjson
      fun c hc c' hc' => hdistinct ((htext c hc).trans (htext c' hc').symm)).2

/-- `{"a": {"a": … {}}}`, nested `n` times -/
def nested : ℕ → Dict
  | 0 => []
  | n + 1 => [(str "a", .dict (nested n))]

theorem nested_isJson (n : ℕ) : (Value.dict (nested n)).IsJson := by
  induction n with
  | zero => exact ⟨by simp [JsonNode, nested], trivial⟩
  | succ n ih =>
    have hkey : ¬ (str "a").HasSurrogate := by decide
    exact ⟨by simp [JsonNode, nested, hkey], ih, trivial⟩

theorem nested_depth (n : ℕ) : (Value.dict (nested n)).depth = n + 1 := by
  induction n with
  | zero => rfl
  | succ n ih =>
    rw [nested, Value.depth, depthEntries, depthEntries, ih]
    simp

theorem same_self_nested (n : ℕ) : (Value.dict (nested n)).Same (.dict (nested n)) := by
  induction n with
  | zero => exact ⟨_, rfl, rfl, trivial⟩
  | succ n ih => exact ⟨_, rfl, rfl, ⟨_, rfl, ih⟩, trivial⟩

def hugeNumber : ℤ := 10 ^ MAX_STR_DIGITS

/-- **Not hashed**: an integer of 4301 digits and, whatever the limit, an object nested deeper. -/
theorem huge_unhashed :
    (¬ ∀ x y : Dict, (Value.dict x).IsJson → (Value.dict y).IsJson → Distinct x y →
      ((∃ hash, canonicalConfigurationHash 1000 x = some hash ∧ canonicalConfigurationHash 1000 y = some hash) ↔
        (Value.dict x).Same (.dict y))) ∧
    ¬ ∃ limit, ∀ x : Dict, (Value.dict x).IsJson → (Value.dict x).All FewDigits →
      ((∃ hash, canonicalConfigurationHash limit x = some hash ∧ canonicalConfigurationHash limit x = some hash) ↔
        (Value.dict x).Same (.dict x)) := by
  constructor
  · have hjson : (Value.dict [(str "a", .int hugeNumber)]).IsJson := by
      simp only [Value.IsJson, Value.All, allEntries, JsonNode]
      decide
    have hsame : (Value.dict [(str "a", .int hugeNumber)]).Same (.dict [(str "a", .int hugeNumber)]) :=
      ⟨_, rfl, rfl, ⟨_, rfl, rfl⟩, trivial⟩
    have habs : hugeNumber.natAbs = 10 ^ MAX_STR_DIGITS := by
      have hten : Int.natAbs 10 = 10 := rfl
      simp only [hugeNumber, Int.natAbs_pow, hten]
    have htext : intText hugeNumber = none := if_pos (le_of_eq habs.symm)
    have hnone : serialized [(str "a", .int hugeNumber)] = none := by
      simp only [serialized, encode, encodeEntries, htext, Option.bind_eq_bind, Option.bind_none, Option.map_none]
    intro hall
    have hdistinct : Distinct [(str "a", .int hugeNumber)] [(str "a", .int hugeNumber)] := by
      intro s hs
      rw [hnone] at hs
      cases hs
    obtain ⟨hash, hhash, -⟩ := (hall _ _ hjson hjson hdistinct).2 hsame
    obtain ⟨text, bytes, -, -, hbytes, -⟩ := text_of_hash hhash
    rw [hnone] at hbytes
    cases hbytes
  · rintro ⟨limit, hall⟩
    have hdigits : ∀ n, (Value.dict (nested n)).All FewDigits := by
      intro n
      induction n with
      | zero => exact ⟨trivial, trivial⟩
      | succ n ih => exact ⟨trivial, ih, trivial⟩
    obtain ⟨hash, hhash, -⟩ := (hall _ (nested_isJson limit) (hdigits limit)).2 (same_self_nested limit)
    obtain ⟨-, hdepth⟩ := (exists_hash_iff (nested_isJson limit)).1 ⟨hash, hhash⟩
    rw [nested_depth] at hdepth
    omega

end AtlasRag.Embedding.Registry
