/-
`normalize_extraction_payload`: the blocks in the JSON text that a model answers with, in a code fence or not.

An entry without a text is dropped. A type that is not known is `other`, and a page number that is no positive integer is
left out. `json.loads` is an argument: only its `JSONDecodeError` is translated.

Result:
- `normalized_block`: the blocks of an accepted text are not blank, and have positive page numbers.
-/
import AtlasRag.Ingestion.Chunking.Chunkers
import AtlasRag.Platform.Loads

namespace AtlasRag.Extraction

open AtlasRag.Platform AtlasRag.Ingestion.Chunking

def MALFORMED_PROVIDER_RESPONSE : String := "malformed_provider_response"

def MISSING_BLOCKS : String := "missing_blocks"

def BLOCKS_KEY : Str := str "blocks"

def JSON_FENCE : Str := str "```"

inductive ExtractionMethod where
  | openaiOcr
  | vlm
deriving DecidableEq, Repr

inductive NormalizationError where
  /-- `ExtractionProviderPermanentError` -/
  | permanent (method : ExtractionMethod) (reason : String)
  /-- any other error of `json.loads` -/
  | loads (e : LoadsError)
deriving DecidableEq, Repr

deriving instance DecidableEq for ExtractedDocument

/-! ## Strings -/

def removePrefix (s start : Str) : Str := if start.isPrefixOf s then s.drop start.length else s

def removeSuffix (s ending : Str) : Str := if ending.isSuffixOf s then s.take (s.length - ending.length) else s

/-- `str.lower`, as far as it makes ASCII: of capital letters, and of the Kelvin sign -/
def lower (s : Str) : Str :=
  s.map fun c => if 0x41 ≤ c.val ∧ c.val ≤ 0x5a then .ofNat (c.val + 0x20) else if c.val = 0x212a then 0x6b else c

/-- `_strip_code_fence` -/
def stripCodeFence (responseText : Str) : Str :=
  let text := responseText.strip
  if JSON_FENCE.isPrefixOf text then
    let withoutOpen := removePrefix (text.drop JSON_FENCE.length) (str "json") |>.lstrip
    (removeSuffix withoutOpen JSON_FENCE).rstrip
  else text

/-! ## Blocks -/

def blockTypes : List (Str × ExtractedBlockType) :=
  [(str "heading", .heading), (str "paragraph", .paragraph), (str "table", .table), (str "list", .list), (str "code", .code),
    (str "other", .other)]

/-- `ExtractedBlockType(value)` -/
def blockTypeOf (value : Str) : Option ExtractedBlockType := blockTypes.lookup value

/-- `_normalize_block` -/
def normalizeBlock (rawBlock : Value) : Option ExtractedBlock :=
  match rawBlock.dict? with
  | none => none
  | some rawBlock =>
    match (Dict.get rawBlock (str "text")).bind Value.str? with
    | none => none
    | some text =>
      if text.strip = [] then none
      else
        let rawType := (Dict.get rawBlock (str "block_type")).bind Value.str?
        let blockType := (rawType.bind fun t => blockTypeOf (lower t.strip)).getD .other
        let rawPage := (Dict.get rawBlock (str "page_number")).bind Value.int?
        some ⟨text, blockType, rawPage.filter (0 < ·)⟩

/-! ## Payloads -/

section

variable (loads : Str → Except LoadsError Value) (method : ExtractionMethod)

/-- `_parse_payload` -/
def parsePayload (responseText : Str) : Except NormalizationError Dict :=
  match loads (stripCodeFence responseText) with
  | .error .decode => .error (.permanent method MALFORMED_PROVIDER_RESPONSE)
  | .error e => .error (.loads e)
  | .ok payload =>
    match payload.dict? with
    | none => .error (.permanent method MALFORMED_PROVIDER_RESPONSE)
    | some payload => .ok payload

def normalizeExtractionPayload (responseText : Str) : Except NormalizationError ExtractedDocument := do
  let payload ← parsePayload loads method responseText
  match (Dict.get payload BLOCKS_KEY).bind Value.list? with
  | none => .error (.permanent method MISSING_BLOCKS)
  | some rawBlocks => .ok ⟨rawBlocks.filterMap normalizeBlock⟩

variable {loads method}

theorem normalizeBlock_some {rawBlock : Value} {block : ExtractedBlock} (h : normalizeBlock rawBlock = some block) :
    block.text.strip ≠ [] ∧ ∀ p ∈ block.pageNumber, 0 < p := by
  rw [normalizeBlock] at h
  split at h
  · cases h
  · split at h
    · cases h
    · next text htext =>
      split_ifs at h with hblank
      obtain rfl := Option.some.inj h
      refine ⟨hblank, fun p hp => ?_⟩
      exact of_decide_eq_true (Option.filter_eq_some_iff.1 hp).2

/-- The blocks of an accepted text are not blank, and their page numbers are positive. -/
theorem normalized_block {responseText : Str} {document : ExtractedDocument}
    (h : normalizeExtractionPayload loads method responseText = .ok document) :
    ∀ b ∈ document.blocks, b.text.strip ≠ [] ∧ ∀ p ∈ b.pageNumber, 0 < p := by
  rw [normalizeExtractionPayload] at h
  cases hpayload : parsePayload loads method responseText with
  | error e =>
    rw [hpayload] at h
    cases h
  | ok payload =>
    rw [hpayload] at h
    simp only [bind, Except.bind] at h
    split at h
    · cases h
    · cases h
      intro b hb
      obtain ⟨rawBlock, -, hblock⟩ := List.mem_filterMap.1 hb
      exact normalizeBlock_some hblock

end

end AtlasRag.Extraction
