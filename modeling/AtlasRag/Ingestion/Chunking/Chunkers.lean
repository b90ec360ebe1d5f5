/-
`FixedTokenChunker` and `HeadingAwareChunker`, the builder of their drafts, and `ChunkerResolver`.

A chunker adds drafts one by one; adding one raises where its content cannot be encoded for the hash. The blocks between
two headings are a section. A section that is too long is split, its tables apart from the rest, a markdown table between
its rows with the first two lines repeated.
-/
import AtlasRag.Ingestion.Chunking.Tokenizer
import AtlasRag.Ingestion.Chunk
import AtlasRag.Platform.Sha256

namespace AtlasRag.Ingestion.Chunking

open AtlasRag.Platform

inductive ExtractedBlockType where
  | heading
  | paragraph
  | table
  | list
  | code
  | other
deriving DecidableEq, Repr

structure ExtractedBlock where
  text : Str
  blockType : ExtractedBlockType
  pageNumber : Option ℤ
deriving DecidableEq, Repr

structure ExtractedDocument where
  blocks : List ExtractedBlock

structure ChunkDraft where
  chunkIndex : ℕ
  content : Str
  contentType : ChunkContentType
  sectionTitle : Option Str
  sectionPath : List Str
  pageStart : Option ℤ
  pageEnd : Option ℤ
  languageCode : Option String
  tokenCount : ℕ
  contentHash : String
deriving DecidableEq, Repr

/-- `normalized_content_hash` -/
def normalizedContentHash (content : Str) : Except ValueError String :=
  match (Str.join (str "\n") (content.strip.splitlines.map Str.rstrip)).utf8 with
  | none => .error .unicodeEncode
  | some bytes => .ok (Sha256.hexDigest bytes)

/-- `"\n\n".join(block.text.strip() for block in blocks)` -/
def joined (blocks : List ExtractedBlock) : Str := Str.join (str "\n\n") (blocks.map (·.text.strip))

/-- `_content_type` -/
def contentType (blocks : List ExtractedBlock) : ChunkContentType :=
  let types := blocks.map (·.blockType)
  if types ≠ [] ∧ ∀ t ∈ types, t = .table then .table
  else if types ≠ [] ∧ ∀ t ∈ types, t = .code then .code
  else if .table ∈ types ∨ .code ∈ types then .mixed
  else .text

/-- `_is_markdown_table` -/
def isMarkdownTable (first second : Str) : Bool :=
  (str "|").all (· ∈ first) && (str "-|").all (· ∈ second)

section

variable (tokenizer : ReferenceTokenizer) (config : ChunkingConfig) (languageCode : Option String)

/-- `_DraftBuilder.add`; the builder is the drafts so far -/
def add (drafts : List ChunkDraft) (content : Str) (blocks : List ExtractedBlock) (sectionTitle : Option Str)
    (sectionPath : List Str) (contentType : ChunkContentType) : Except ValueError (List ChunkDraft) :=
  let cleanContent := content.strip
  if cleanContent = [] then .ok drafts
  else do
    let pages := blocks.filterMap (·.pageNumber)
    let contentHash ← normalizedContentHash cleanContent
    .ok (drafts ++ [⟨drafts.length, cleanContent, contentType, sectionTitle, sectionPath, pages.min?, pages.max?, languageCode,
      tokenizer.count cleanContent, contentHash⟩])

namespace FixedTokenChunker

def chunk (document : ExtractedDocument) : Except ValueError (List ChunkDraft) :=
  let blocks := document.blocks.filter (·.text.strip ≠ [])
  if blocks = [] then .ok []
  else do
    let pieces ← tokenizer.split (joined blocks) config.maxTokens config.overlapTokens
    pieces.foldlM (fun drafts piece => add tokenizer languageCode drafts piece blocks none [] (contentType blocks)) []

end FixedTokenChunker

namespace HeadingAwareChunker

/-- `_emit_text_blocks` -/
def emitTextBlocks (sectionTitle : Option Str) (sectionPath : List Str) (drafts : List ChunkDraft)
    (blocks : List ExtractedBlock) : Except ValueError (List ChunkDraft) :=
  if blocks = [] then .ok drafts
  else do
    let pieces ← tokenizer.split (joined blocks) config.maxTokens config.overlapTokens
    pieces.foldlM
      (fun drafts piece => add tokenizer languageCode drafts piece blocks sectionTitle sectionPath (contentType blocks)) drafts

/-- one round of the loop over the rows of a table; the state is the drafts and `current_rows` -/
def emitRow (sectionTitle : Option Str) (sectionPath : List Str) (block : ExtractedBlock) (header : List Str)
    (state : List ChunkDraft × List Str) (row : Str) : Except ValueError (List ChunkDraft × List Str) := do
  let (drafts, currentRows) := state
  let candidate := Str.join (str "\n") (header ++ currentRows ++ [row])
  if currentRows = [] ∧ config.maxTokens < tokenizer.count candidate then
    let pieces ← tokenizer.split candidate config.maxTokens 0
    let drafts ← pieces.foldlM
      (fun drafts piece => add tokenizer languageCode drafts piece [block] sectionTitle sectionPath .table) drafts
    pure (drafts, currentRows)
  else if currentRows ≠ [] ∧ config.maxTokens < tokenizer.count candidate then
    let drafts ← add tokenizer languageCode drafts (Str.join (str "\n") (header ++ currentRows)) [block] sectionTitle sectionPath
      .table
    pure (drafts, [row])
  else pure (drafts, currentRows ++ [row])

/-- `_emit_table` -/
def emitTable (sectionTitle : Option Str) (sectionPath : List Str) (drafts : List ChunkDraft) (block : ExtractedBlock) :
    Except ValueError (List ChunkDraft) :=
  match (block.text.splitlines.filter (·.strip ≠ [])).map Str.rstrip with
  | first :: second :: row :: rows =>
    if isMarkdownTable first second then do
      let header := [first, second]
      let (drafts, currentRows) ← (row :: rows).foldlM
        (emitRow tokenizer config languageCode sectionTitle sectionPath block header) (drafts, [])
      if currentRows ≠ [] then
        add tokenizer languageCode drafts (Str.join (str "\n") (header ++ currentRows)) [block] sectionTitle sectionPath .table
      else .ok drafts
    else emitTextBlocks tokenizer config languageCode sectionTitle sectionPath drafts [block]
  | _ => emitTextBlocks tokenizer config languageCode sectionTitle sectionPath drafts [block]

/-- one round of the loop over the blocks of a section that is split; the state is the drafts and `pending` -/
def emitBlock (sectionTitle : Option Str) (sectionPath : List Str) (state : List ChunkDraft × List ExtractedBlock)
    (block : ExtractedBlock) : Except ValueError (List ChunkDraft × List ExtractedBlock) := do
  let (drafts, pending) := state
  if config.preserveTables ∧ block.blockType = .table then
    let drafts ← emitTextBlocks tokenizer config languageCode sectionTitle sectionPath drafts pending
    let drafts ← emitTable tokenizer config languageCode sectionTitle sectionPath drafts block
    pure (drafts, [])
  else pure (drafts, pending ++ [block])

/-- `_emit_section` -/
def emitSection (sectionTitle : Option Str) (sectionPath : List Str) (drafts : List ChunkDraft)
    (blocks : List ExtractedBlock) : Except ValueError (List ChunkDraft) :=
  if blocks = [] then .ok drafts
  else if tokenizer.count (joined blocks) ≤ config.maxTokens then
    add tokenizer languageCode drafts (joined blocks) blocks sectionTitle sectionPath (contentType blocks)
  else do
    let (drafts, pending) ← blocks.foldlM (emitBlock tokenizer config languageCode sectionTitle sectionPath) (drafts, [])
    emitTextBlocks tokenizer config languageCode sectionTitle sectionPath drafts pending

structure State where
  drafts : List ChunkDraft
  sectionBlocks : List ExtractedBlock
  sectionTitle : Option Str
  sectionPath : List Str

/-- one round of the loop over the blocks of the document -/
def chunkBlock (s : State) (block : ExtractedBlock) : Except ValueError State :=
  if block.blockType = .heading then do
    let drafts ← emitSection tokenizer config languageCode s.sectionTitle s.sectionPath s.drafts s.sectionBlocks
    let sectionTitle := if block.text.strip = [] then none else some block.text.strip
    pure ⟨drafts, [], sectionTitle, sectionTitle.toList⟩
  else if block.text.strip ≠ [] then .ok { s with sectionBlocks := s.sectionBlocks ++ [block] }
  else .ok s

def chunk (document : ExtractedDocument) : Except ValueError (List ChunkDraft) := do
  let s ← document.blocks.foldlM (chunkBlock tokenizer config languageCode) ⟨[], [], none, []⟩
  emitSection tokenizer config languageCode s.sectionTitle s.sectionPath s.drafts s.sectionBlocks

end HeadingAwareChunker

end

/-! ## Resolver -/

/-- a chunker, as the worker calls it -/
abbrev Chunker := Option String → ExtractedDocument → Except ValueError (List ChunkDraft)

/-- `ChunkerResolver.resolve` -/
def ChunkerResolver.resolve (tokenizers : List ((Str × Str) × ReferenceTokenizer)) (config : ChunkingConfig) :
    Except ValueError Chunker :=
  match tokenizers.lookup (config.referenceTokenizer, config.referenceTokenizerVersion) with
  | none => .error (.text "configured reference tokenizer is unavailable")
  | some tokenizer =>
    match config.strategy with
    | .fixedTokenV1 => .ok (FixedTokenChunker.chunk tokenizer config)
    | .headingAwareV1 => .ok (HeadingAwareChunker.chunk tokenizer config)

/-- the tokenizers that the worker task wires -/
def workerTokenizers : List ((Str × Str) × ReferenceTokenizer) :=
  [((WhitespaceReferenceTokenizer.name, WhitespaceReferenceTokenizer.version), WhitespaceReferenceTokenizer.tokenizer)]

end AtlasRag.Ingestion.Chunking
