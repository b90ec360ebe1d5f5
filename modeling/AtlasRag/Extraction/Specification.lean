/-
What `normalize_extraction_payload` computes: a relation between an entry of the answer and its block, and the text that a
fence holds. `json.loads` is the embedded one; of its errors only `JSONDecodeError` is assumed.

Results:
- `normalizeBlock_iff`: the block that stands for an entry, if any;
- `unfenced_iff`: what a response holds, in a fence or not;
- `stripCodeFence_fenced`: an object in a fence, with any whitespace, is found again;
- `normalization_spec`: what is accepted, what comes of it, and what is raised otherwise.
-/
import AtlasRag.Extraction.Normalization
import AtlasRag.Lib.Assoc

namespace AtlasRag.Extraction

open AtlasRag.Lib.Assoc AtlasRag.Platform AtlasRag.Platform.Str AtlasRag.Ingestion.Chunking

/-! ## Entries -/

/-- the type that an entry names, ignoring case and whitespace around it -/
def NamesType (d : Dict) (type : ExtractedBlockType) : Prop :=
  ∃ rawType, d.get (str "block_type") = some (.str rawType) ∧ (lower rawType.strip, type) ∈ blockTypes

/-- the block stands for the entry `d` -/
structure Describes (d : Dict) (block : ExtractedBlock) : Prop where
  text : d.get (str "text") = some (.str block.text)
  notBlank : ∃ c ∈ block.text, c.isSpace = false
  blockType : NamesType d block.blockType ∨ (∀ type, ¬ NamesType d type) ∧ block.blockType = .other
  pageNumber : ∀ p, block.pageNumber = some p ↔ d.get (str "page_number") = some (.int p) ∧ 0 < p

section

variable {d : Dict} {rawBlock : Value} {block : ExtractedBlock}

theorem get_bind_eq_some {α : Type} {f : Value → Option α} {key : Str} {a : α} {v : Value}
    (hf : ∀ {w : Value}, f w = some a ↔ w = v) : (d.get key).bind f = some a ↔ d.get key = some v := by
  rw [Option.bind_eq_some_iff]
  constructor
  · intro ⟨w, hw, ha⟩
    rw [hw, hf.1 ha]
  · exact fun h => ⟨v, h, hf.2 rfl⟩

theorem strip_ne_nil {s : Str} : s.strip ≠ [] ↔ ∃ c ∈ s, c.isSpace = false := by
  rw [ne_eq, strip_eq_nil, AllSpace]
  push Not
  simp only [ne_eq, Bool.not_eq_true]

theorem namesType_iff {type : ExtractedBlockType} : NamesType d type ↔
    (((d.get (str "block_type")).bind Value.str?).bind fun t => blockTypeOf (lower t.strip)) = some type := by
  have hnames : (blockTypes.map Prod.fst).Nodup := by decide
  simp only [NamesType, Option.bind_eq_some_iff, blockTypeOf, lookup_eq_some_iff hnames]
  constructor
  · intro ⟨rawType, hget, hmem⟩
    exact ⟨rawType, ⟨_, hget, Value.str?_eq_some.2 rfl⟩, hmem⟩
  · intro ⟨rawType, ⟨v, hget, hv⟩, hmem⟩
    exact ⟨rawType, Value.str?_eq_some.1 hv ▸ hget, hmem⟩

theorem getD_eq_iff {α : Type} {x : Option α} {a b : α} : x.getD b = a ↔ x = some a ∨ (∀ c, x ≠ some c) ∧ a = b := by
  cases x with
  | none => simp [eq_comm]
  | some c => simp

/-- An entry stands for a block iff it is an object that describes it. -/
theorem normalizeBlock_iff : normalizeBlock rawBlock = some block ↔ ∃ d, rawBlock = .dict d ∧ Describes d block := by
  obtain ⟨text, type, page⟩ := block
  cases hdict : rawBlock.dict? with
  | none =>
    refine iff_of_false (by simp [normalizeBlock, hdict]) fun ⟨d, hd, _⟩ => ?_
    rw [Value.dict?_eq_some.2 hd] at hdict
    cases hdict
  | some d =>
    obtain rfl := Value.dict?_eq_some.1 hdict
    have htext : ∀ t, (d.get (str "text")).bind Value.str? = some t ↔ d.get (str "text") = some (.str t) :=
      fun t => get_bind_eq_some Value.str?_eq_some
    have hpage : ((d.get (str "page_number")).bind Value.int?).filter (0 < ·) = page ↔
        ∀ p, page = some p ↔ d.get (str "page_number") = some (.int p) ∧ 0 < p := by
      rw [Option.ext_iff]
      refine forall_congr' fun p => ?_
      rw [Option.filter_eq_some_iff, get_bind_eq_some Value.int?_eq_some, decide_eq_true_eq]
      exact iff_comm
    have hsame : (∃ d', Value.dict d = .dict d' ∧ Describes d' ⟨text, type, page⟩) ↔ Describes d ⟨text, type, page⟩ := by
      simp
    rw [hsame, normalizeBlock, hdict]
    dsimp only
    constructor
    · intro h
      split at h
      · cases h
      · next t ht =>
        split_ifs at h with hblank
        obtain ⟨rfl, htype, hp⟩ := ExtractedBlock.mk.inj (Option.some.inj h)
        refine ⟨(htext t).1 ht, strip_ne_nil.1 hblank, ?_, hpage.1 hp⟩
        simpa only [namesType_iff] using getD_eq_iff.1 htype
    · intro h
      have htype := h.blockType
      simp only [namesType_iff] at htype
      rw [(htext text).2 h.text]
      dsimp only
      rw [if_neg (strip_ne_nil.2 h.notBlank), hpage.2 h.pageNumber, getD_eq_iff.2 htype]

end

/-! ## Fences -/

section

variable {s t text before left right after tag : Str}

theorem removePrefix_append (s t : Str) : removePrefix (s ++ t) s = t := by
  rw [removePrefix, if_pos (List.isPrefixOf_iff_prefix.2 (List.prefix_append s t)), List.drop_left]

theorem removeSuffix_append (s t : Str) : removeSuffix (s ++ t) t = s := by
  rw [removeSuffix, if_pos (List.isSuffixOf_iff_suffix.2 (List.suffix_append s t)), List.length_append, Nat.add_sub_cancel,
    List.take_left]

/-- a text that starts with whitespace or a brace is not taken for a tag -/
theorem removePrefix_json (hleft : AllSpace left) (hbrace : s.head? = some 0x7b) :
    removePrefix (left ++ (s ++ t)) (str "json") = left ++ (s ++ t) := by
  rw [removePrefix, if_neg]
  intro hprefix
  obtain ⟨rest, hrest⟩ := List.isPrefixOf_iff_prefix.1 hprefix
  have hhead : (left ++ (s ++ t)).head? = some 0x6a := by
    rw [← hrest]
    rfl
  cases left with
  | nil =>
    rw [List.nil_append, List.head?_append, hbrace, Option.some_or] at hhead
    exact absurd hhead (by decide)
  | cons c left =>
    have hspace := hleft c List.mem_cons_self
    obtain rfl : c = 0x6a := Option.some.inj hhead
    exact absurd hspace (by decide)

theorem removePrefix_cases (s start : Str) :
    ∃ tag, s = tag ++ removePrefix s start ∧ (tag = start ∨ tag = [] ∧ ¬ start <+: removePrefix s start) := by
  rw [removePrefix]
  split_ifs with h
  · obtain ⟨t, rfl⟩ := List.isPrefixOf_iff_prefix.1 h
    rw [List.drop_left]
    exact ⟨start, rfl, .inl rfl⟩
  · exact ⟨[], rfl, .inr ⟨rfl, mt List.isPrefixOf_iff_prefix.2 h⟩⟩

theorem removeSuffix_cases (s ending : Str) :
    ∃ closing, s = removeSuffix s ending ++ closing ∧
      (closing = ending ∨ closing = [] ∧ ¬ ending <:+ removeSuffix s ending) := by
  rw [removeSuffix]
  split_ifs with h
  · obtain ⟨t, rfl⟩ := List.isSuffixOf_iff_suffix.1 h
    rw [List.length_append, Nat.add_sub_cancel, List.take_left]
    exact ⟨ending, rfl, .inl rfl⟩
  · exact ⟨[], (List.append_nil s).symm, .inr ⟨rfl, mt List.isSuffixOf_iff_suffix.2 h⟩⟩

/-- `text` is `s` without whitespace around it -/
def Stripped (s text : Str) : Prop :=
  (text = [] ∨ Trim text) ∧ ∃ before after, AllSpace before ∧ AllSpace after ∧ s = before ++ text ++ after

theorem stripped_iff : Stripped s text ↔ s.strip = text := by
  constructor
  · intro ⟨htext, before, after, hbefore, hafter, hs⟩
    rcases htext with rfl | htrim
    · rw [hs, List.append_nil, strip_eq_nil]
      exact hbefore.append hafter
    · rw [hs, htrim.strip hbefore hafter]
  · rintro rfl
    by_cases hnil : s.strip = []
    · exact ⟨.inl hnil, s, [], strip_eq_nil.1 hnil, fun c hc => (by cases hc), by rw [hnil, List.append_nil, List.append_nil]⟩
    · obtain ⟨before, after, hbefore, hafter, htrim, hs⟩ := exists_strip hnil
      exact ⟨.inr htrim, before, after, hbefore, hafter, hs⟩

/-- What a response holds, without the whitespace around it: all of it, or, if it starts with a fence, what follows this and the
name of the language, up to the fence at the end, if there is one. -/
inductive Unfenced (responseText text : Str) : Prop where
  | plain (h : Stripped responseText text) (hplain : ¬ JSON_FENCE <+: text)
  | fence {tag rest inner closing : Str} (h : Stripped responseText (JSON_FENCE ++ (tag ++ rest)))
      (htag : tag = str "json" ∨ tag = [] ∧ ¬ str "json" <+: rest) (hrest : Stripped rest (inner ++ closing))
      (hclosing : closing = JSON_FENCE ∨ closing = [] ∧ ¬ JSON_FENCE <:+ inner) (hinner : Stripped inner text)

/-- the end of a stripped string has no whitespace at its end -/
theorem rstrip_of_suffix (h : t <:+ s.strip) : rstrip t = t := by
  refine List.rdropWhile_eq_self_iff.2 fun hne => ?_
  rw [h.getLast hne]
  exact List.rdropWhile_last_not _ _ _

theorem lstrip_of_start (h : t <+: s.strip) : lstrip t = t := by
  cases t with
  | nil => rfl
  | cons c t =>
    obtain ⟨rest, hrest⟩ := h
    have hne : s.strip ≠ [] := by
      rw [← hrest]
      exact List.cons_ne_nil _ _
    obtain ⟨-, -, -, -, htrim, -⟩ := exists_strip hne
    rw [← hrest] at htrim
    exact List.dropWhile_cons_of_neg (by
      obtain ⟨c', t', heq, hc⟩ := htrim.head
      rw [(List.cons.inj heq).1, hc]
      exact Bool.false_ne_true)

theorem lstrip_suffix (s : Str) : lstrip s <:+ s := List.dropWhile_suffix _

/-- nothing follows the last character of a stripped string -/
theorem strip_of_suffix (h : t <:+ s.strip) : t.strip = lstrip t := rstrip_of_suffix ((lstrip_suffix t).trans h)

theorem strip_of_start (h : t <+: s.strip) : t.strip = rstrip t := congrArg rstrip (lstrip_of_start h)

theorem removePrefix_eq {start rest : Str} (h : tag = start ∨ tag = [] ∧ ¬ start <+: rest) :
    removePrefix (tag ++ rest) start = rest := by
  rcases h with rfl | ⟨rfl, hnot⟩
  · exact removePrefix_append _ _
  · exact if_neg (mt List.isPrefixOf_iff_prefix.1 hnot)

theorem removeSuffix_eq {inner closing ending : Str} (h : closing = ending ∨ closing = [] ∧ ¬ ending <:+ inner) :
    removeSuffix (inner ++ closing) ending = inner := by
  rcases h with rfl | ⟨rfl, hnot⟩
  · exact removeSuffix_append _ _
  · rw [List.append_nil]
    exact if_neg (mt List.isSuffixOf_iff_suffix.1 hnot)

/-- **Fences.** `_strip_code_fence` gives what the response holds. -/
theorem unfenced_iff {responseText : Str} : Unfenced responseText text ↔ stripCodeFence responseText = text := by
  rw [stripCodeFence]
  dsimp only
  constructor
  · intro h
    cases h with
    | plain h hplain =>
      rw [stripped_iff.1 h, if_neg (mt List.isPrefixOf_iff_prefix.1 hplain)]
    | @fence tag rest inner closing h htag hrest hclosing hinner =>
      have hstrip : responseText.strip = JSON_FENCE ++ (tag ++ rest) := stripped_iff.1 h
      have hrest' : rest.strip = inner ++ closing := stripped_iff.1 hrest
      have hend : rest <:+ responseText.strip := ⟨JSON_FENCE ++ tag, by rw [hstrip, List.append_assoc]⟩
      rw [hstrip, if_pos (List.isPrefixOf_iff_prefix.2 (List.prefix_append _ _)), List.drop_left, removePrefix_eq htag,
        ← strip_of_suffix hend, hrest', removeSuffix_eq hclosing,
        ← strip_of_start (hrest' ▸ List.prefix_append inner closing), stripped_iff.1 hinner]
  · intro h
    split_ifs at h with hfence
    · obtain ⟨u, hu⟩ := List.isPrefixOf_iff_prefix.1 hfence
      rw [← hu, List.drop_left] at h
      obtain ⟨tag, htag, hcase⟩ := removePrefix_cases u (str "json")
      obtain ⟨closing, hclosing, hcase'⟩ := removeSuffix_cases (lstrip (removePrefix u (str "json"))) JSON_FENCE
      have hend : removePrefix u (str "json") <:+ responseText.strip :=
        ⟨JSON_FENCE ++ tag, by rw [← hu, List.append_assoc, ← htag]⟩
      have hrest : (removePrefix u (str "json")).strip =
          removeSuffix (lstrip (removePrefix u (str "json"))) JSON_FENCE ++ closing := by rw [strip_of_suffix hend, ← hclosing]
      refine .fence (stripped_iff.2 ?_) hcase (stripped_iff.2 hrest) hcase' (stripped_iff.2 ?_)
      · rw [← hu, ← htag]
      · rw [strip_of_start (hrest ▸ List.prefix_append _ closing), h]
    · exact .plain (stripped_iff.2 h) (h ▸ mt List.isPrefixOf_iff_prefix.2 hfence)

/-- a text in a fence, with whitespace around both -/
def fenced (before tag left text right after : Str) : Str :=
  before ++ JSON_FENCE ++ tag ++ left ++ text ++ right ++ JSON_FENCE ++ after

/-- **A fence** is taken off an object. -/
theorem stripCodeFence_fenced (htag : tag = [] ∨ tag = str "json") (hbefore : AllSpace before) (hleft : AllSpace left)
    (hright : AllSpace right) (hafter : AllSpace after) (hs : Trim s) (hbrace : s.head? = some 0x7b) :
    stripCodeFence (fenced before tag left s right after) = s := by
  have htrim : Trim (JSON_FENCE ++ (tag ++ (left ++ (s ++ (right ++ JSON_FENCE))))) := by
    refine ⟨⟨0x60, _, rfl, by decide⟩, ⟨JSON_FENCE ++ (tag ++ (left ++ (s ++ (right ++ str "``")))), 0x60, ?_, by decide⟩⟩
    simp only [List.append_assoc]
    rfl
  have hstrip : Str.strip (fenced before tag left s right after) =
      JSON_FENCE ++ (tag ++ (left ++ (s ++ (right ++ JSON_FENCE)))) := by
    rw [← htrim.strip hbefore hafter, fenced]
    simp only [List.append_assoc]
  have hopen : removePrefix (tag ++ (left ++ (s ++ (right ++ JSON_FENCE)))) (str "json") =
      left ++ (s ++ (right ++ JSON_FENCE)) := by
    rcases htag with rfl | rfl
    · rw [List.nil_append]
      exact removePrefix_json hleft hbrace
    · exact removePrefix_append _ _
  rw [stripCodeFence, hstrip]
  dsimp only
  rw [if_pos (List.isPrefixOf_iff_prefix.2 (List.prefix_append _ _)), List.drop_left, hopen, lstrip_append hleft, hs.lstrip,
    ← List.append_assoc, removeSuffix_append, rstrip_append hright]
  exact hs.rstrip []

/-- a text that is read as a dict is not in a fence, and starts with a brace -/
theorem trim_of_dict {limit : ℕ} {d : Dict} (h : loads limit s.strip = .ok (.dict d)) :
    s.strip ≠ [] ∧ s.strip.head? = some 0x7b := by
  have hhead := head_of_loads_dict h
  have hne : s.strip ≠ [] := by
    intro hnil
    rw [hnil] at hhead
    cases hhead
  obtain ⟨-, -, -, -, htrim, -⟩ := exists_strip hne
  obtain ⟨c, m, hcm, hc⟩ := htrim.head
  refine ⟨hne, ?_⟩
  rw [hcm] at hhead ⊢
  rwa [Loads.skip, List.dropWhile_cons_of_neg] at hhead
  -- what is whitespace to `loads` is whitespace
  intro hspace
  have hjson : c.isSpace = true := by
    simp only [Loads.isWhitespace, Bool.or_eq_true, decide_eq_true_eq] at hspace
    simp only [CodePoint.isSpace, Bool.or_eq_true, Bool.and_eq_true, decide_eq_true_eq, beq_iff_eq]
    omega
  rw [hc] at hjson
  cases hjson

end

/-! ## Answers -/

section

variable {limit : ℕ} {method : ExtractionMethod} {responseText : Str}

theorem normalize_ok_iff {document : ExtractedDocument} :
    normalizeExtractionPayload (loads limit) method responseText = .ok document ↔
      ∃ (payload : Dict) (rawBlocks : List Value), loads limit (stripCodeFence responseText) = .ok (.dict payload) ∧
        payload.get BLOCKS_KEY = some (.list rawBlocks) ∧ document = ⟨rawBlocks.filterMap normalizeBlock⟩ := by
  rw [normalizeExtractionPayload, parsePayload]
  cases hloads : loads limit (stripCodeFence responseText) with
  | error e =>
    refine iff_of_false ?_ ?_
    · cases e <;> exact fun h => (by cases h)
    · rintro ⟨_, _, h, -⟩
      cases h
  | ok payload =>
    cases hdict : payload.dict? with
    | none =>
      refine iff_of_false (fun h => by simp [hdict, bind, Except.bind] at h) ?_
      rintro ⟨d, _, h, -⟩
      obtain rfl := Except.ok.inj h
      cases hdict
    | some d =>
      obtain rfl := Value.dict?_eq_some.1 hdict
      have hblocks : ∀ xs, (d.get BLOCKS_KEY).bind Value.list? = some xs ↔ d.get BLOCKS_KEY = some (.list xs) :=
        fun xs => get_bind_eq_some Value.list?_eq_some
      simp only [Value.dict?, bind, Except.bind, Except.ok.injEq, Value.dict.injEq]
      cases hlist : (d.get BLOCKS_KEY).bind Value.list? with
      | none =>
        refine iff_of_false (fun h => by cases h) ?_
        rintro ⟨d', xs, h, hxs, -⟩
        rw [← h, ← hblocks, hlist] at hxs
        cases hxs
      | some xs =>
        constructor
        · intro h
          exact ⟨d, xs, rfl, (hblocks xs).1 hlist, (Except.ok.inj h).symm⟩
        · rintro ⟨d', xs', h, hxs, hdocument⟩
          rw [← h, ← hblocks, hlist] at hxs
          obtain rfl := Option.some.inj hxs
          rw [hdocument]

/-- what is raised, if `json.loads` raises no other error than `JSONDecodeError` -/
theorem normalize_error (hloads : ∀ e, loads limit (stripCodeFence responseText) = .error e → e = .decode)
    {e : NormalizationError} (h : normalizeExtractionPayload (loads limit) method responseText = .error e) :
    ∃ reason, e = .permanent method reason := by
  rw [normalizeExtractionPayload, parsePayload] at h
  cases hvalue : loads limit (stripCodeFence responseText) with
  | error e' =>
    obtain rfl := hloads e' hvalue
    rw [hvalue] at h
    exact ⟨MALFORMED_PROVIDER_RESPONSE, (Except.error.inj h).symm⟩
  | ok payload =>
    rw [hvalue] at h
    cases hdict : payload.dict? with
    | none =>
      simp only [hdict] at h
      exact ⟨MALFORMED_PROVIDER_RESPONSE, (Except.error.inj h).symm⟩
    | some d =>
      simp only [hdict, bind, Except.bind] at h
      split at h
      · exact ⟨MISSING_BLOCKS, (Except.error.inj h).symm⟩
      · cases h

/-- an object in a fence gives the same -/
theorem normalize_fenced {document : ExtractedDocument} (hplain : ¬ JSON_FENCE <+: responseText.strip)
    (h : normalizeExtractionPayload (loads limit) method responseText = .ok document) {before tag left right after : Str}
    (htag : tag = [] ∨ tag = str "json") (hbefore : AllSpace before) (hleft : AllSpace left) (hright : AllSpace right)
    (hafter : AllSpace after) :
    normalizeExtractionPayload (loads limit) method (fenced before tag left responseText right after) = .ok document := by
  have hstrip : stripCodeFence responseText = responseText.strip := if_neg (mt List.isPrefixOf_iff_prefix.1 hplain)
  obtain ⟨payload, rawBlocks, hloads, hblocks, hdocument⟩ := normalize_ok_iff.1 h
  rw [hstrip] at hloads
  obtain ⟨hne, hbrace⟩ := trim_of_dict hloads
  obtain ⟨inner, outer, hinner, houter, htrim, hsplit⟩ := exists_strip hne
  have hsame : fenced before tag left responseText right after =
      fenced before tag (left ++ inner) responseText.strip (outer ++ right) after := by
    rw [fenced, fenced]
    conv_lhs => rw [hsplit]
    simp only [List.append_assoc]
  rw [hsame, normalize_ok_iff,
    stripCodeFence_fenced htag hbefore (hleft.append hinner) (houter.append hright) hafter htrim hbrace]
  exact ⟨payload, rawBlocks, hloads, hblocks, hdocument⟩

/-- **Normalization.** A response holds one text. It is accepted iff this is an object with a list of blocks, which is then
filtered and mapped in order; a response without a fence gives the same in a fence; and any other is refused with the one
error. -/
theorem normalization_spec (limit : ℕ) (method : ExtractionMethod) (responseText : Str)
    (hloads : ∀ text e, Unfenced responseText text → loads limit text = .error e → e = .decode) :
    ∃ text, (∀ text', Unfenced responseText text' ↔ text' = text) ∧
    (∃ describe : Value → Option ExtractedBlock,
      (∀ rawBlock block, describe rawBlock = some block ↔ ∃ d, rawBlock = .dict d ∧ Describes d block) ∧
      ∀ document, normalizeExtractionPayload (loads limit) method responseText = .ok document ↔
        ∃ (payload : Dict) (rawBlocks : List Value), loads limit text = .ok (.dict payload) ∧
          payload.get BLOCKS_KEY = some (.list rawBlocks) ∧ document.blocks = rawBlocks.filterMap describe) ∧
    (∀ e, normalizeExtractionPayload (loads limit) method responseText = .error e → ∃ reason, e = .permanent method reason) ∧
    (¬ JSON_FENCE <+: responseText.strip →
      ∀ document, normalizeExtractionPayload (loads limit) method responseText = .ok document →
      ∀ before tag left right after, (tag = [] ∨ tag = str "json") → AllSpace before → AllSpace left → AllSpace right →
        AllSpace after →
        normalizeExtractionPayload (loads limit) method (fenced before tag left responseText right after) = .ok document) := by
  have hdecode : ∀ e, loads limit (stripCodeFence responseText) = .error e → e = .decode :=
    fun e he => hloads _ e (unfenced_iff.2 rfl) he
  refine ⟨stripCodeFence responseText, fun text' => unfenced_iff.trans eq_comm,
    ⟨normalizeBlock, fun rawBlock block => normalizeBlock_iff, fun document => ?_⟩, fun e h => normalize_error hdecode h,
    fun hplain document h before tag left right after htag hbefore hleft hright hafter =>
      normalize_fenced hplain h htag hbefore hleft hright hafter⟩
  rw [normalize_ok_iff]
  obtain ⟨blocks⟩ := document
  simp only [ExtractedDocument.mk.injEq]

/-- an answer with a heading, an entry without a text, and a page that is none -/
def answer : Str :=
  str "\x7b\"blocks\": [\x7b\"text\": \"A\", \"block_type\": \" Heading \"\x7d, 1, " ++
    str "\x7b\"text\": \"b\", \"page_number\": 0\x7d]\x7d"

theorem normalization_spec_answer : normalizeExtractionPayload (loads 1000) .vlm
    (fenced [] (str "json") (str "\n") answer (str "\n") (str " ")) =
      .ok ⟨[⟨str "A", .heading, none⟩, ⟨str "b", .other, none⟩]⟩ := by
  have hok : (loads 1000 (stripCodeFence answer)).isOk = true := by decide +kernel
  have hloads : ∀ text e, Unfenced answer text → loads 1000 text = .error e → e = .decode := by
    intro text e htext he
    rw [← unfenced_iff.1 htext] at he
    rw [he] at hok
    cases hok
  obtain ⟨-, -, -, -, hfenced⟩ := normalization_spec 1000 .vlm answer hloads
  exact hfenced (by decide +kernel) _ (by decide +kernel) [] _ _ _ _ (.inr rfl) (by decide) (by decide) (by decide) (by decide)

end

end AtlasRag.Extraction
