/-
`build_inputs` and `ordered_vectors`: the inputs of a batch, numbered from 0, and the vectors of a response in the order of
the inputs.

A response is read vector by vector: an index that is none of the inputs', one that was there before, and a vector of the
wrong dimension or with a value that is no finite number are refused where they are met. With as many vectors as inputs
these checks leave only the permutations of the inputs.

Results:
- `buildInputs_ok`: the inputs of a batch;
- `decides_orderedVectors`: what is accepted, and what comes of it;
- `permutations_accepted`: exactly the permutations are, and nothing else is raised.
-/
import AtlasRag.Embedding.Batching.Planner
import AtlasRag.Lib.Assoc
import AtlasRag.Lib.Effect

namespace AtlasRag.Embedding.Batching

open AtlasRag.Lib.Assoc AtlasRag.Platform
open AtlasRag.Lib.Effect (bind_eq_ok)

def EMPTY_INPUT : String := "chunk content is empty"

def INPUT_EXCEEDS_MODEL_LIMIT : String := "chunk content cannot fit the model input limit"

def VECTOR_COUNT_MISMATCH : String := "vector count does not match the input count"

def DUPLICATE_VECTOR_INDEX : String := "provider returned duplicate vector indexes"

def UNKNOWN_VECTOR_INDEX : String := "provider returned an unknown vector index"

def DIMENSION_MISMATCH : String := "vector dimension does not match the model dimension"

def NON_FINITE_VECTOR_VALUE : String := "vector contains a non-finite value"

/-- what embedding a batch may raise -/
inductive BatchError where
  | embeddingInputInvalid (chunkIndex : ℤ) (reason : String)
  | embeddingInputTooLarge (chunkIndex : ℤ) (reason : String)
  | invalidEmbeddingResponse (reason : String)
  | embeddingVectorInvalid (reason : String)
  | embeddingProviderTransient (reason : String) (retryAfterSeconds : Option ℚ)
  /-- any other exception of the provider -/
  | provider (exception : ℕ)
  | overflow
  | keyError
  | valueError
deriving DecidableEq, Repr

/-! ## Inputs -/

/-- the fields of `EmbeddingModelState` that a batch reads -/
structure EmbeddingModelState where
  modelName : Str
  dimension : ℤ
  maxInputTokens : Option ℤ
deriving DecidableEq, Repr

structure EmbeddingInput where
  index : ℤ
  text : Str
deriving DecidableEq, Repr

/-- `_guard_input_size` -/
def guardInputSize (chunk : EmbeddableChunk) (model : EmbeddingModelState) (config : EmbeddingRunConfig) :
    Except BatchError Unit :=
  match model.maxInputTokens with
  | none => .ok ()
  | some maxInputTokens =>
    let minimumTokens := ⌈(chunk.content.length : ℚ) / config.maxCharsPerToken⌉
    if maxInputTokens < minimumTokens then .error (.embeddingInputTooLarge chunk.chunkIndex INPUT_EXCEEDS_MODEL_LIMIT)
    else .ok ()

/-- the inputs of the chunks from `index` on -/
def buildInputsFrom (model : EmbeddingModelState) (config : EmbeddingRunConfig) (index : ℕ) :
    List EmbeddableChunk → Except BatchError (List EmbeddingInput)
  | [] => .ok []
  | chunk :: chunks =>
    if chunk.content.strip = [] then .error (.embeddingInputInvalid chunk.chunkIndex EMPTY_INPUT)
    else do
      guardInputSize chunk model config
      let inputs ← buildInputsFrom model config (index + 1) chunks
      .ok (⟨index, chunk.content⟩ :: inputs)

def buildInputs (chunks : List EmbeddableChunk) (model : EmbeddingModelState) (config : EmbeddingRunConfig) :
    Except BatchError (List EmbeddingInput) := buildInputsFrom model config 0 chunks

/-! ## Vectors -/

inductive Double where
  | finite (x : ℚ)
  | infinity (negative : Bool)
  | nan
deriving DecidableEq, Repr

/-- what may stand in a vector -/
inductive VectorValue where
  | float (x : Double)
  | int (n : ℤ)
  | bool (b : Bool)
  | other
deriving DecidableEq, Repr

structure EmbeddingVector where
  index : ℤ
  values : List VectorValue
deriving DecidableEq, Repr

structure EmbeddingUsage where
  inputTokens : Option ℤ
  totalTokens : Option ℤ
deriving DecidableEq, Repr

structure EmbeddingBatchResult where
  vectors : List EmbeddingVector
  usage : EmbeddingUsage
deriving DecidableEq, Repr

/-- the checks of one value; `math.isfinite` converts an integer -/
def checkValue : VectorValue → Except BatchError Unit
  | .float (.finite _) => .ok ()
  | .int n => if FitsDouble n then .ok () else .error .overflow
  | _ => .error (.embeddingVectorInvalid NON_FINITE_VECTOR_VALUE)

/-- `_validated_values` -/
def validatedValues (values : List VectorValue) (dimension : ℤ) : Except BatchError (List VectorValue) :=
  if (values.length : ℤ) ≠ dimension then .error (.embeddingVectorInvalid DIMENSION_MISMATCH)
  else do
    values.forM checkValue
    .ok values

/-- one round of the loop over the vectors; the state is `by_index` -/
def collect (inputs : List EmbeddingInput) (dimension : ℤ) (byIndex : List (ℤ × List VectorValue)) (vector : EmbeddingVector) :
    Except BatchError (List (ℤ × List VectorValue)) :=
  if vector.index ∉ inputs.map (·.index) then .error (.invalidEmbeddingResponse UNKNOWN_VECTOR_INDEX)
  else if vector.index ∈ byIndex.map Prod.fst then .error (.invalidEmbeddingResponse DUPLICATE_VECTOR_INDEX)
  else do
    let values ← validatedValues vector.values dimension
    .ok (byIndex ++ [(vector.index, values)])

/-- `by_index[item.index]` -/
def item (byIndex : List (ℤ × List VectorValue)) (input : EmbeddingInput) : Except BatchError (List VectorValue) :=
  match byIndex.lookup input.index with
  | none => .error .keyError
  | some values => .ok values

def orderedVectors (result : EmbeddingBatchResult) (inputs : List EmbeddingInput) (dimension : ℤ) :
    Except BatchError (List (List VectorValue)) :=
  if result.vectors.length ≠ inputs.length then .error (.invalidEmbeddingResponse VECTOR_COUNT_MISMATCH)
  else do
    let byIndex ← result.vectors.foldlM (collect inputs dimension) []
    inputs.mapM (item byIndex)

/-! ## The inputs of a batch -/

section

variable {chunks : List EmbeddableChunk} {model : EmbeddingModelState} {config : EmbeddingRunConfig}
  {inputs : List EmbeddingInput}

theorem buildInputsFrom_ok {index : ℕ} (h : buildInputsFrom model config index chunks = .ok inputs) :
    inputs.map (·.index) = (List.range' index chunks.length).map Nat.cast ∧ inputs.map (·.text) = chunks.map (·.content) := by
  induction chunks generalizing index inputs with
  | nil =>
    obtain rfl := Except.ok.inj h
    exact ⟨rfl, rfl⟩
  | cons chunk chunks ih =>
    rw [buildInputsFrom] at h
    split_ifs at h
    obtain ⟨_, -, h⟩ := bind_eq_ok h
    obtain ⟨rest, hrest, h⟩ := bind_eq_ok h
    obtain rfl := Except.ok.inj h
    obtain ⟨hindex, htext⟩ := ih hrest
    rw [List.length_cons, List.range'_succ, List.map_cons, List.map_cons, List.map_cons, List.map_cons, hindex, htext]
    exact ⟨rfl, rfl⟩

/-- **The inputs of a batch** are its texts, numbered from 0. -/
theorem buildInputs_ok (h : buildInputs chunks model config = .ok inputs) :
    inputs.map (·.index) = (List.range chunks.length).map Nat.cast ∧ inputs.map (·.text) = chunks.map (·.content) := by
  rw [List.range_eq_range']
  exact buildInputsFrom_ok h

theorem nodup_index (h : buildInputs chunks model config = .ok inputs) : (inputs.map (·.index)).Nodup := by
  rw [(buildInputs_ok h).1]
  exact List.nodup_range.map Nat.cast_injective

end

/-! ## What is accepted -/

namespace VectorValue

/-- a finite number that is no Boolean -/
def IsFinite : VectorValue → Prop
  | .float (.finite _) => True
  | .int _ => True
  | _ => False

/-- an integer fits a double -/
def Fits : VectorValue → Prop
  | .int n => FitsDouble n
  | _ => True

end VectorValue

/-- the dimension is right, and the values are finite numbers -/
def ValidVector (dimension : ℤ) (values : List VectorValue) : Prop :=
  (values.length : ℤ) = dimension ∧ ∀ x ∈ values, x.IsFinite

/-- what is raised because of a response -/
def BatchError.OfResponse (e : BatchError) : Prop :=
  (∃ reason, e = .invalidEmbeddingResponse reason) ∨ ∃ reason, e = .embeddingVectorInvalid reason

/-- the values of the vector with this index -/
def EmbeddingBatchResult.valuesAt (result : EmbeddingBatchResult) (index : ℤ) : Option (List VectorValue) :=
  (result.vectors.map fun v => (v.index, v.values)).lookup index

section

variable {inputs : List EmbeddingInput} {dimension : ℤ} {values : List VectorValue} {vectors : List EmbeddingVector}
  {byIndex : List (ℤ × List VectorValue)}

/-- a step returns `a` exactly if `p` holds, and otherwise, if all integers fit, raises an error of the response -/
def Decides {α : Type} (step : Except BatchError α) (a : α) (p fits : Prop) : Prop :=
  (p ∧ step = .ok a) ∨ (¬ p ∧ ∃ e, step = .error e ∧ (fits → e.OfResponse))

namespace Decides

variable {α β : Type} {step : Except BatchError α} {next : α → Except BatchError β} {a : α} {b : β} {p p' fits fits' c : Prop}

theorem ok (a : α) (fits : Prop) : Decides (.ok a) a True fits := .inl ⟨trivial, rfl⟩

theorem congr (h : Decides step a p fits) (hp : p ↔ p') : Decides step a p' fits := by
  rwa [Decides, ← hp]

theorem mono (h : Decides step a p fits) (hfits : fits' → fits) : Decides step a p fits' :=
  h.imp id fun ⟨hp, e, he, hof⟩ => ⟨hp, e, he, fun h => hof (hfits h)⟩

theorem bind (h : Decides step a p fits) (hnext : p → Decides (next a) b p' fits) :
    Decides (step >>= next) b (p ∧ p') fits := by
  rcases h with ⟨hp, hok⟩ | ⟨hp, e, he, hof⟩
  · rw [hok]
    rcases hnext hp with ⟨hp', hok'⟩ | ⟨hp', e, he, hof⟩
    · exact .inl ⟨⟨hp, hp'⟩, hok'⟩
    · exact .inr ⟨fun h => hp' h.2, e, he, hof⟩
  · rw [he]
    exact .inr ⟨fun h => hp h.1, e, rfl, hof⟩

/-- a check that raises -/
theorem check [Decidable c] {e : BatchError} (he : e.OfResponse) (h : ¬ c → Decides step a p fits) :
    Decides (if c then .error e else step) a (¬ c ∧ p) fits := by
  by_cases hc : c
  · rw [if_pos hc]
    exact .inr ⟨fun h => h.1 hc, e, rfl, fun _ => he⟩
  · rw [if_neg hc]
    exact (h hc).congr (by simp [hc])

theorem ok_iff (h : Decides step a p fits) {a' : α} : step = .ok a' ↔ p ∧ a' = a := by
  rcases h with ⟨hp, hok⟩ | ⟨hp, e, he, -⟩
  · rw [hok]
    simp [hp, eq_comm]
  · rw [he]
    simp [hp]

end Decides

theorem ofResponse_invalid (reason : String) : (BatchError.invalidEmbeddingResponse reason).OfResponse := .inl ⟨reason, rfl⟩

theorem ofResponse_vector (reason : String) : (BatchError.embeddingVectorInvalid reason).OfResponse := .inr ⟨reason, rfl⟩

theorem decides_checkValue (x : VectorValue) : Decides (checkValue x) () (x.IsFinite ∧ x.Fits) x.Fits := by
  have hrefused : ∀ x : VectorValue, ¬ x.IsFinite →
      checkValue x = .error (.embeddingVectorInvalid NON_FINITE_VECTOR_VALUE) →
      Decides (checkValue x) () (x.IsFinite ∧ x.Fits) x.Fits := by
    intro x hx he
    exact .inr ⟨fun h => hx h.1, _, he, fun _ => ofResponse_vector _⟩
  cases x with
  | float d =>
    cases d with
    | finite x => exact .inl ⟨⟨trivial, trivial⟩, rfl⟩
    | infinity negative => exact hrefused _ id rfl
    | nan => exact hrefused _ id rfl
  | int n =>
    rw [checkValue]
    by_cases hn : FitsDouble n
    · rw [if_pos hn]
      exact .inl ⟨⟨trivial, hn⟩, rfl⟩
    · rw [if_neg hn]
      exact .inr ⟨fun h => hn h.2, _, rfl, fun h => absurd h hn⟩
  | bool b => exact hrefused _ id rfl
  | other => exact hrefused _ id rfl

theorem decides_forM (values : List VectorValue) : Decides (values.forM checkValue) ()
    (∀ x ∈ values, x.IsFinite ∧ x.Fits) (∀ x ∈ values, x.Fits) := by
  induction values with
  | nil => exact (Decides.ok () _).congr (by simp)
  | cons x values ih =>
    show Decides (checkValue x >>= fun _ => values.forM checkValue) () _ _
    have hfirst := (decides_checkValue x).mono fun h : ∀ y ∈ x :: values, y.Fits => h x List.mem_cons_self
    have hrest := ih.mono fun (h : ∀ y ∈ x :: values, y.Fits) y hy => h y (List.mem_cons_of_mem x hy)
    exact (hfirst.bind fun _ => hrest).congr (by simp)

/-- a vector that is accepted -/
def Accepts (dimension : ℤ) (values : List VectorValue) : Prop :=
  (values.length : ℤ) = dimension ∧ ∀ x ∈ values, x.IsFinite ∧ x.Fits

theorem decides_validatedValues (values : List VectorValue) (dimension : ℤ) :
    Decides (validatedValues values dimension) values (Accepts dimension values) (∀ x ∈ values, x.Fits) := by
  have hchecks : Decides (do values.forM checkValue; .ok values) values _ (∀ x ∈ values, x.Fits) :=
    (decides_forM values).bind fun _ => Decides.ok values _
  exact (Decides.check (ofResponse_vector _) fun _ => hchecks).congr (by simp [Accepts])

theorem decides_collect (byIndex : List (ℤ × List VectorValue)) (vector : EmbeddingVector) :
    Decides (collect inputs dimension byIndex vector) (byIndex ++ [(vector.index, vector.values)])
      (vector.index ∈ inputs.map (·.index) ∧ vector.index ∉ byIndex.map Prod.fst ∧ Accepts dimension vector.values)
      (∀ x ∈ vector.values, x.Fits) := by
  have hvalues : Decides (do let values ← validatedValues vector.values dimension; .ok (byIndex ++ [(vector.index, values)]))
      (byIndex ++ [(vector.index, vector.values)]) _ (∀ x ∈ vector.values, x.Fits) :=
    (decides_validatedValues vector.values dimension).bind fun _ => Decides.ok _ _
  have hduplicate := @Decides.check _ _ _ _ _ (vector.index ∈ byIndex.map Prod.fst) _ _
    (ofResponse_invalid DUPLICATE_VECTOR_INDEX) fun _ => hvalues
  exact (Decides.check (ofResponse_invalid _) fun _ => hduplicate).congr (by simp)

/-- the loop over the vectors -/
theorem decides_foldlM (vectors : List EmbeddingVector) (hnodup : (byIndex.map Prod.fst).Nodup) :
    Decides (vectors.foldlM (collect inputs dimension) byIndex) (byIndex ++ vectors.map fun v => (v.index, v.values))
      ((∀ v ∈ vectors, v.index ∈ inputs.map (·.index) ∧ Accepts dimension v.values) ∧
        (byIndex.map Prod.fst ++ vectors.map (·.index)).Nodup)
      (∀ v ∈ vectors, ∀ x ∈ v.values, x.Fits) := by
  induction vectors generalizing byIndex with
  | nil =>
    rw [List.map_nil, List.map_nil, List.append_nil, List.append_nil]
    exact (Decides.ok byIndex _).congr (iff_of_true trivial ⟨by simp, hnodup⟩)
  | cons v vectors ih =>
    rw [List.foldlM_cons]
    have hhead := (@decides_collect inputs dimension byIndex v).mono
      fun h : ∀ w ∈ v :: vectors, ∀ x ∈ w.values, x.Fits => h v List.mem_cons_self
    have hrest : v.index ∈ inputs.map (·.index) ∧ v.index ∉ byIndex.map Prod.fst ∧ Accepts dimension v.values →
        Decides (vectors.foldlM (collect inputs dimension) (byIndex ++ [(v.index, v.values)]))
          (byIndex ++ (v :: vectors).map fun v => (v.index, v.values))
          ((∀ w ∈ vectors, w.index ∈ inputs.map (·.index) ∧ Accepts dimension w.values) ∧
            (byIndex.map Prod.fst ++ (v :: vectors).map (·.index)).Nodup)
          (∀ w ∈ v :: vectors, ∀ x ∈ w.values, x.Fits) := by
      intro ⟨_, hnew, _⟩
      have hnodup' : ((byIndex ++ [(v.index, v.values)]).map Prod.fst).Nodup := by
        rw [List.map_append]
        refine List.nodup_append.2 ⟨hnodup, List.nodup_singleton _, ?_⟩
        intro a ha b hb hab
        rw [hab, List.mem_singleton.1 hb] at ha
        exact hnew ha
      have h := ih hnodup'
      rw [List.map_append, List.append_assoc, List.append_assoc] at h
      exact h.mono fun h w hw => h w (List.mem_cons_of_mem v hw)
    refine (hhead.bind hrest).congr ?_
    rw [List.forall_mem_cons]
    constructor
    · intro ⟨⟨hmem, _, haccepts⟩, hvectors, hkeys⟩
      exact ⟨⟨⟨hmem, haccepts⟩, hvectors⟩, hkeys⟩
    · intro ⟨⟨⟨hmem, haccepts⟩, hvectors⟩, hkeys⟩
      refine ⟨⟨hmem, fun h => ?_, haccepts⟩, hvectors, hkeys⟩
      exact (List.nodup_append.1 hkeys).2.2 _ h _ List.mem_cons_self rfl

/-- a response that is accepted -/
def Accepted (result : EmbeddingBatchResult) (inputs : List EmbeddingInput) (dimension : ℤ) : Prop :=
  (result.vectors.map (·.index)).Perm (inputs.map (·.index)) ∧ ∀ v ∈ result.vectors, Accepts dimension v.values

/-- a vector is found under its index -/
theorem valuesAt_of_mem {result : EmbeddingBatchResult} (hnodup : (result.vectors.map (·.index)).Nodup)
    {v : EmbeddingVector} (hv : v ∈ result.vectors) : result.valuesAt v.index = some v.values := by
  have hkeys : ((result.vectors.map fun v => (v.index, v.values)).map Prod.fst).Nodup := by
    rw [List.map_map]
    exact hnodup
  exact (lookup_eq_some_iff hkeys).2 (List.mem_map.2 ⟨v, hv, rfl⟩)

theorem mapM_item (hsome : ∀ i ∈ inputs, (byIndex.lookup i.index).isSome) :
    inputs.mapM (item byIndex) = .ok (inputs.map fun i => (byIndex.lookup i.index).getD []) := by
  induction inputs with
  | nil => rfl
  | cons i inputs ih =>
    obtain ⟨values, hvalues⟩ := Option.isSome_iff_exists.1 (hsome i List.mem_cons_self)
    have hitem : item byIndex i = .ok values := by rw [item, hvalues]
    rw [List.mapM_cons, hitem, ih fun j hj => hsome j (List.mem_cons_of_mem i hj), List.map_cons, hvalues]
    rfl

/-- the checks leave the permutations -/
theorem perm_iff (hinputs : (inputs.map (·.index)).Nodup) : vectors.length = inputs.length ∧
    (∀ v ∈ vectors, v.index ∈ inputs.map (·.index)) ∧ (vectors.map (·.index)).Nodup ↔
      (vectors.map (·.index)).Perm (inputs.map (·.index)) := by
  constructor
  · intro ⟨hlength, hmem, hnodup⟩
    have hsubset : vectors.map (·.index) ⊆ inputs.map (·.index) := by
      intro k hk
      obtain ⟨v, hv, rfl⟩ := List.mem_map.1 hk
      exact hmem v hv
    apply (List.subperm_of_subset hnodup hsubset).perm_of_length_le
    rw [List.length_map, List.length_map, hlength]
  · intro hperm
    refine ⟨by simpa using hperm.length_eq, fun v hv => ?_, hperm.nodup_iff.2 hinputs⟩
    exact hperm.subset (List.mem_map_of_mem hv)

/-- **What is accepted**, and what comes of it -/
theorem decides_orderedVectors (hinputs : (inputs.map (·.index)).Nodup) (result : EmbeddingBatchResult) (dimension : ℤ) :
    Decides (orderedVectors result inputs dimension) (inputs.map fun i => (result.valuesAt i.index).getD [])
      (Accepted result inputs dimension) (∀ v ∈ result.vectors, ∀ x ∈ v.values, x.Fits) := by
  have hloop := @decides_foldlM inputs dimension [] result.vectors List.nodup_nil
  rw [List.nil_append, List.map_nil, List.nil_append] at hloop
  have hmapM : result.vectors.length = inputs.length →
      Decides (do let byIndex ← result.vectors.foldlM (collect inputs dimension) []; inputs.mapM (item byIndex))
        (inputs.map fun i => (result.valuesAt i.index).getD [])
        (((∀ v ∈ result.vectors, v.index ∈ inputs.map (·.index) ∧ Accepts dimension v.values) ∧
          (result.vectors.map (·.index)).Nodup) ∧ True)
        (∀ v ∈ result.vectors, ∀ x ∈ v.values, x.Fits) := by
    intro hlength
    refine hloop.bind fun ⟨hvectors, hnodup⟩ => ?_
    have hperm := (perm_iff hinputs).1 ⟨hlength, fun v hv => (hvectors v hv).1, hnodup⟩
    rw [mapM_item]
    · exact Decides.ok _ _
    · intro i hi
      obtain ⟨v, hv, hindex⟩ := List.mem_map.1 (hperm.symm.subset (List.mem_map_of_mem hi))
      rw [← hindex]
      exact Option.isSome_iff_exists.2 ⟨_, valuesAt_of_mem hnodup hv⟩
  refine (Decides.check (ofResponse_invalid _) fun hlength => hmapM (not_not.1 hlength)).congr ?_
  rw [not_not, and_true, Accepted, ← perm_iff hinputs]
  constructor
  · intro ⟨hlength, hvectors, hnodup⟩
    exact ⟨⟨hlength, fun v hv => (hvectors v hv).1, hnodup⟩, fun v hv => (hvectors v hv).2⟩
  · intro ⟨⟨hlength, hmem, hnodup⟩, haccepts⟩
    exact ⟨hlength, fun v hv => ⟨hmem v hv, haccepts v hv⟩, hnodup⟩

/-- the order of the vectors does not matter -/
theorem orderedVectors_perm (hinputs : (inputs.map (·.index)).Nodup) {result other : EmbeddingBatchResult}
    (hperm : other.vectors.Perm result.vectors) {ordered : List (List VectorValue)}
    (h : orderedVectors result inputs dimension = .ok ordered) : orderedVectors other inputs dimension = .ok ordered := by
  obtain ⟨⟨hindexes, haccepts⟩, hordered⟩ := (decides_orderedVectors hinputs result dimension).ok_iff.1 h
  refine (decides_orderedVectors hinputs other dimension).ok_iff.2 ⟨⟨(hperm.map _).trans hindexes, fun v hv => ?_⟩, ?_⟩
  · exact haccepts v (hperm.subset hv)
  · have hkeys : ((result.vectors.map fun v => (v.index, v.values)).map Prod.fst).Nodup := by
      rw [List.map_map]
      exact hindexes.nodup_iff.2 hinputs
    have hsame : ∀ k, other.valuesAt k = result.valuesAt k := fun k => (lookup_perm hkeys (hperm.symm.map _) k).symm
    simpa only [hsame] using hordered

/-- each input has the vector under its index -/
theorem forall₂_orderedVectors (hinputs : (inputs.map (·.index)).Nodup) {result : EmbeddingBatchResult}
    {ordered : List (List VectorValue)} (h : orderedVectors result inputs dimension = .ok ordered) :
    List.Forall₂ (fun i values => ⟨i.index, values⟩ ∈ result.vectors) inputs ordered := by
  obtain ⟨⟨hindexes, -⟩, rfl⟩ := (decides_orderedVectors hinputs result dimension).ok_iff.1 h
  rw [List.forall₂_map_right_iff, List.forall₂_same]
  intro i hi
  obtain ⟨v, hv, hindex⟩ := List.mem_map.1 (hindexes.symm.subset (List.mem_map_of_mem hi))
  rw [← hindex, valuesAt_of_mem (hindexes.nodup_iff.2 hinputs) hv]
  exact hv

end

/-- **Exactly the permutations are accepted.** A response is accepted iff its indexes are those of the inputs in some order
and its vectors have the dimension and finite numbers; otherwise an error of the response is raised. The vectors are then
those under the indexes of the inputs, whatever the order in which they came. -/
theorem permutations_accepted {chunks : List EmbeddableChunk} {model : EmbeddingModelState} {config : EmbeddingRunConfig}
    {inputs : List EmbeddingInput} (hinputs : buildInputs chunks model config = .ok inputs) (result : EmbeddingBatchResult)
    (dimension : ℤ) (hfits : ∀ v ∈ result.vectors, ∀ x ∈ v.values, x.Fits) :
    ((∃ ordered, orderedVectors result inputs dimension = .ok ordered) ↔
      (result.vectors.map (·.index)).Perm (inputs.map (·.index)) ∧ ∀ v ∈ result.vectors, ValidVector dimension v.values) ∧
    (∀ e, orderedVectors result inputs dimension = .error e → e.OfResponse) ∧
    ∀ ordered, orderedVectors result inputs dimension = .ok ordered →
      List.Forall₂ (fun i values => ⟨i.index, values⟩ ∈ result.vectors) inputs ordered ∧
      ∀ other : EmbeddingBatchResult, other.vectors.Perm result.vectors →
        orderedVectors other inputs dimension = .ok ordered := by
  have hnodup := nodup_index hinputs
  have hdecides := decides_orderedVectors hnodup result dimension
  have hvalid : Accepted result inputs dimension ↔
      (result.vectors.map (·.index)).Perm (inputs.map (·.index)) ∧ ∀ v ∈ result.vectors, ValidVector dimension v.values := by
    refine and_congr_right fun _ => forall₂_congr fun v hv => and_congr_right fun _ => forall₂_congr fun x hx => ?_
    exact and_iff_left (hfits v hv x hx)
  refine ⟨?_, fun e he => ?_, fun ordered h => ⟨forall₂_orderedVectors hnodup h, fun other hperm => ?_⟩⟩
  · rw [← hvalid]
    constructor
    · intro ⟨ordered, h⟩
      exact (hdecides.ok_iff.1 h).1
    · exact fun h => ⟨_, hdecides.ok_iff.2 ⟨h, rfl⟩⟩
  · rcases hdecides with ⟨-, hok⟩ | ⟨-, e', he', hof⟩
    · rw [hok] at he
      cases he
    · rw [he'] at he
      exact Except.error.inj he ▸ hof hfits
  · exact orderedVectors_perm hnodup hperm h

def twoInputs : List EmbeddingInput := [⟨0, str "a"⟩, ⟨1, str "b"⟩]

/-- their vectors, in reverse -/
def reversed : EmbeddingBatchResult := ⟨[⟨1, [.float (.finite 2)]⟩, ⟨0, [.int 1]⟩], ⟨none, none⟩⟩

theorem permutations_accepted_reversed : ∃ ordered, orderedVectors reversed twoInputs 1 = .ok ordered ∧
    List.Forall₂ (fun i values => ⟨i.index, values⟩ ∈ reversed.vectors) twoInputs ordered := by
  have hinputs : buildInputs [⟨7, 0, str "a", 1⟩, ⟨8, 1, str "b", 1⟩] ⟨str "m", 1, none⟩ DEFAULT_EMBEDDING_RUN_CONFIG =
      .ok twoInputs := rfl
  have hone : FitsDouble 1 := (fitsDouble_two_pow 0).2 (Nat.zero_le _)
  have hfits : ∀ v ∈ reversed.vectors, ∀ x ∈ v.values, x.Fits := by
    simp [reversed, VectorValue.Fits, hone]
  have hvalid : ∀ v ∈ reversed.vectors, ValidVector 1 v.values := by
    simp [reversed, ValidVector, VectorValue.IsFinite]
  obtain ⟨haccepted, -, hordered⟩ := permutations_accepted hinputs reversed 1 hfits
  obtain ⟨ordered, h⟩ := haccepted.2 ⟨by decide, hvalid⟩
  exact ⟨ordered, h, (hordered ordered h).1⟩

end AtlasRag.Embedding.Batching
