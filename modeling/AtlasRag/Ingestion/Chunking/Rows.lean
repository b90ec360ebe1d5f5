/-
The rows of drafts: a draft has one iff its texts have an encoding, and `replace_for_item` inserts the rows iff the drafts
are storable.

Results:
- `row_defects`: the table refuses no row of a storable draft, and each of one that is not;
- `persisted_iff`: the chunks of an item are replaced by drafts iff these are storable;
- `accepted_storable_iff`: the drafts of an accepted extraction are storable iff its blocks, and the headings over them, are;
- `extraction_unstorable`: an accepted extraction with a NUL, and what becomes of it.
-/
import AtlasRag.Extraction.Normalization
import AtlasRag.Ingestion.Chunking.Bound
import AtlasRag.Ingestion.Chunking.Storable

namespace AtlasRag.Ingestion.Chunking

open AtlasRag.Platform AtlasRag.Extraction

/-! ## Rows -/

namespace ChunkDraft

/-- the row of a draft; `none`: a text has no encoding -/
def row? (d : ChunkDraft) : Option Ingestion.ChunkDraft :=
  if d.content.HasSurrogate ∨ (∃ s ∈ d.sectionTitle, s.HasSurrogate) ∨ ∃ s ∈ d.sectionPath, s.HasSurrogate then none
  else some ⟨d.chunkIndex, d.content.text, d.contentType, d.sectionTitle.map Str.text, d.sectionPath.map Str.text, d.pageStart,
    d.pageEnd, d.languageCode, d.tokenCount, d.contentHash, []⟩

/-- index and number of tokens are INTEGERs, and the language fits its column -/
structure Fits (d : ChunkDraft) : Prop where
  chunkIndex : d.chunkIndex < 2 ^ 31
  tokenCount : d.tokenCount < 2 ^ 31
  languageCode : ∀ c ∈ d.languageCode, FitsText (some 35) c

end ChunkDraft

section

variable {d : ChunkDraft} {row : Ingestion.ChunkDraft}

theorem storablePage_iff {p : ℤ} : StorablePage p ↔ 0 < p ∧ p < 2 ^ 31 := by
  unfold StorablePage
  omega

theorem exists_row (h : d.Storable) : ∃ row, d.row? = some row := by
  refine ⟨_, if_neg ?_⟩
  intro hsurrogate
  rcases hsurrogate with hs | ⟨s, hs, hsurrogate⟩ | ⟨s, hs, hsurrogate⟩
  · exact h.content.2 hs
  · exact (h.sectionTitle s hs).2 hsurrogate
  · exact (h.sectionPath s hs).2 hsurrogate

theorem exists_rows {drafts : List ChunkDraft} (h : ∀ d ∈ drafts, ∃ row, d.row? = some row) :
    ∃ rows : List Ingestion.ChunkDraft, drafts.map ChunkDraft.row? = rows.map some := by
  induction drafts with
  | nil => exact ⟨[], rfl⟩
  | cons d drafts ih =>
    obtain ⟨row, hrow⟩ := h d List.mem_cons_self
    obtain ⟨rows, hrows⟩ := ih fun d hd => h d (List.mem_cons_of_mem _ hd)
    refine ⟨row :: rows, ?_⟩
    rw [List.map_cons, List.map_cons, hrow, hrows]

theorem chunkIndex_row (hrow : d.row? = some row) : row.chunkIndex = d.chunkIndex := by
  rw [ChunkDraft.row?] at hrow
  split_ifs at hrow
  rw [← Option.some.inj hrow]

/-- **The table takes the row** of a draft iff it is storable. -/
theorem row_defects (hrow : d.row? = some row) (hblank : d.content.strip ≠ []) (hhash : FitsText (some 64) d.contentHash)
    (hfits : d.Fits) (id itemId : Uuid) (t : Time) :
    (⟨row.stored, id, itemId, t⟩ : Chunk).defects = [] ↔ d.Storable := by
  rw [ChunkDraft.row?] at hrow
  split_ifs at hrow with hsurrogate
  push Not at hsurrogate
  obtain ⟨hcontent, htitle, hpath⟩ := hsurrogate
  obtain rfl := Option.some.inj hrow
  rw [Chunk.defects_eq_nil]
  dsimp only [Ingestion.ChunkDraft.stored]
  constructor
  · intro ⟨_, ⟨_, hcontentText⟩, _, hstart, hend, hrange, htitleText, hpathText, _, _⟩
    refine ⟨hblank, (Str.fitsText_text hcontent).1 hcontentText, fun s hs => ?_, fun s hs => ?_, Int.natCast_nonneg _,
      fun p hp => storablePage_iff.2 (hstart p hp), fun p hp => storablePage_iff.2 (hend p hp), hrange⟩
    · exact (Str.fitsText_text (htitle s hs)).1 (htitleText _ (Option.mem_map_of_mem _ hs))
    · exact (Str.fitsText_text (hpath s hs)).1 (hpathText _ (List.mem_map_of_mem hs))
  · intro h
    have hindex : (d.chunkIndex : ℤ) < 2 ^ 31 := by exact_mod_cast hfits.chunkIndex
    have htokens : (d.tokenCount : ℤ) < 2 ^ 31 := by exact_mod_cast hfits.tokenCount
    refine ⟨⟨Int.natCast_nonneg _, hindex⟩, ⟨Str.nonBlank_text hcontent hblank, (Str.fitsText_text hcontent).2 h.content⟩,
      ⟨Int.natCast_nonneg _, htokens⟩, fun p hp => storablePage_iff.1 (h.pageStart p hp),
      fun p hp => storablePage_iff.1 (h.pageEnd p hp), h.pageRange, fun x hx => ?_, fun x hx => ?_, hfits.languageCode, hhash⟩
    · obtain ⟨s, hs, rfl⟩ := Option.mem_map.1 hx
      exact (Str.fitsText_text (htitle s hs)).2 (h.sectionTitle s hs)
    · obtain ⟨s, hs, rfl⟩ := List.mem_map.1 hx
      exact (Str.fitsText_text (hpath s hs)).2 (h.sectionPath s hs)

end

section

variable {drafts : List ChunkDraft} {placed : List Placed} {itemId : Uuid} {ids : ℕ → Uuid} {t : Time}
  {items : List IngestionItem} {table : List Chunk}

/-- **Drafts are persisted** iff they are storable. -/
theorem persisted_iff (h : DraftsOf drafts placed) (hindexes : drafts.map (·.chunkIndex) = List.range drafts.length)
    (hfits : ∀ d ∈ drafts, d.Fits) (hreplaceable : Replaceable itemId drafts.length ids items table) :
    (∃ rows, drafts.map ChunkDraft.row? = rows.map some ∧
      ∃ table', replaceForItem itemId rows ids t items table = .ok table') ↔ ∀ d ∈ drafts, d.Storable := by
  have hreplace : ∀ rows, drafts.map ChunkDraft.row? = rows.map some →
      ((∃ table', replaceForItem itemId rows ids t items table = .ok table') ↔ ∀ d ∈ drafts, d.Storable) := by
    intro rows hrows
    have hlength : drafts.length = rows.length := by simpa using congrArg List.length hrows
    have hrow : ∀ d ∈ drafts, ∃ row ∈ rows, d.row? = some row := by
      intro d hd
      have hmem : d.row? ∈ rows.map some := hrows ▸ List.mem_map_of_mem hd
      obtain ⟨row, hmem, hrow⟩ := List.mem_map.1 hmem
      exact ⟨row, hmem, hrow.symm⟩
    have hdraft : ∀ row ∈ rows, ∃ d ∈ drafts, d.row? = some row := by
      intro row hmem
      have hmem : some row ∈ drafts.map ChunkDraft.row? := hrows ▸ List.mem_map_of_mem hmem
      exact List.mem_map.1 hmem
    have hnodup : (rows.map (·.chunkIndex)).Nodup := by
      have hcast : (rows.map (·.chunkIndex)).map some = ((drafts.map (·.chunkIndex)).map Nat.cast).map some := by
        calc (rows.map (·.chunkIndex)).map some
            = (drafts.map ChunkDraft.row?).map (Option.map (·.chunkIndex)) := by simp [hrows]
          _ = ((drafts.map (·.chunkIndex)).map Nat.cast).map some := by
            rw [List.map_map, List.map_map, List.map_map]
            refine List.map_congr_left fun d hd => ?_
            obtain ⟨row, -, hrow⟩ := hrow d hd
            simp [hrow, chunkIndex_row hrow]
      rw [List.map_injective_iff.2 (Option.some_injective _) hcast, hindexes]
      exact List.nodup_range.map Nat.cast_injective
    rw [replaceForItem_iff (hlength ▸ hreplaceable) hnodup]
    have hiff : ∀ d ∈ drafts, ∀ row, d.row? = some row → ∀ k,
        ((⟨row.stored, ids k, itemId, t⟩ : Chunk).defects = [] ↔ d.Storable) :=
      fun d hd row hrow k => row_defects hrow (h.content_ne_nil d hd) (h.hash d hd) (hfits d hd) (ids k) itemId t
    constructor
    · intro hdefects d hd
      obtain ⟨row, hmem, hrow⟩ := hrow d hd
      obtain ⟨k, hk, rfl⟩ := List.mem_iff_getElem.1 hmem
      exact (hiff d hd _ hrow k).1 (hdefects _ (List.mem_mapIdx.2 ⟨k, hk, rfl⟩))
    · intro hstorable c hc
      obtain ⟨k, hk, rfl⟩ := List.mem_mapIdx.1 hc
      obtain ⟨d, hd, hrow⟩ := hdraft _ (List.getElem_mem hk)
      exact (hiff d hd _ hrow k).2 (hstorable d hd)
  constructor
  · intro ⟨rows, hrows, htable⟩
    exact (hreplace rows hrows).1 htable
  · intro hstorable
    obtain ⟨rows, hrows⟩ := exists_rows fun d hd => exists_row (hstorable d hd)
    exact ⟨rows, hrows, (hreplace rows hrows).2 hstorable⟩

end

/-! ## Documents of one block -/

/-- an item that is not completed, and a table without rows -/
theorem replaceable_empty (n : ℕ) : Replaceable 1 n id [IngestionItem.new 1 2 3 0] [] where
  item := by decide
  unfrozen := by decide
  ids := by simpa using List.nodup_range
  keys := List.nodup_nil

/-- a document of one block -/
def oneBlock (text : Str) (page : Option ℤ) : ExtractedDocument := ⟨[⟨text, .other, page⟩]⟩

/-- its emission -/
def oneEmission (text : Str) (page : Option ℤ) : Emission := ⟨text, (oneBlock text page).blocks, none, .text⟩

theorem chunk_oneBlock {text : Str} {page : Option ℤ} (hsurrogate : ¬ text.HasSurrogate)
    (h : headingEmissions DEFAULT_CHUNKING_CONFIG (oneBlock text page) = [oneEmission text page]) :
    HeadingAwareChunker.chunk whitespace DEFAULT_CHUNKING_CONFIG none (oneBlock text page) =
      .ok [(oneEmission text page).draft none 0] := by
  rw [heading_chunk, if_neg, h]
  · rfl
  · intro ⟨p, hp, hp'⟩
    have hmem := @mem_blocks_of_mem_placed (oneBlock text page) .headingAwareV1 p hp
    rw [List.mem_singleton.1 hmem] at hp'
    exact hsurrogate hp'

/-! ## Accepted extractions -/

/-- **Which extractions can be stored.** The resolved chunker makes storable drafts of an accepted extraction, numbered from
0, iff the blocks that it uses, and the headings over them, are storable; and just then the chunks of an item can be
replaced by its drafts. -/
theorem accepted_storable_iff {limit : ℕ} {method : ExtractionMethod} {responseText : Str} {document : ExtractedDocument}
    (haccepted : normalizeExtractionPayload (loads limit) method responseText = .ok document) {config : ChunkingConfig}
    {chunker : Chunker} (hresolved : ChunkerResolver.resolve workerTokenizers config = .ok chunker)
    (languageCode : Option String) :
    ((∃ drafts, chunker languageCode document = .ok drafts ∧ drafts.map (·.chunkIndex) = List.range drafts.length ∧
        ∀ d ∈ drafts, d.Storable) ↔ ∀ p ∈ document.placed config.strategy, p.Storable) ∧
    ∀ drafts, chunker languageCode document = .ok drafts → (∀ d ∈ drafts, d.Fits) → ∀ itemId ids t items table,
      Replaceable itemId drafts.length ids items table →
        ((∃ rows, drafts.map ChunkDraft.row? = rows.map some ∧
          ∃ table', replaceForItem itemId rows ids t items table = .ok table') ↔
        ∀ p ∈ document.placed config.strategy, p.Storable) := by
  have hpages : ∀ p ∈ document.placed config.strategy, ∀ n ∈ p.block.pageNumber, 0 < n :=
    fun p hp => (normalized_block haccepted p.block (mem_blocks_of_mem_placed hp)).2
  rcases resolved_chunk hresolved languageCode document with
    ⟨⟨p, hp, hsurrogate⟩, hraised⟩ | ⟨-, drafts, hdrafts, hindexes, hof⟩
  · constructor
    · refine iff_of_false ?_ fun h => (h p hp).text.2 hsurrogate
      intro ⟨drafts, hdrafts, _⟩
      rw [hraised] at hdrafts
      cases hdrafts
    · intro drafts hdrafts
      rw [hraised] at hdrafts
      cases hdrafts
  · have hstorable := storable_drafts_iff hof hpages
    constructor
    · rw [← hstorable]
      constructor
      · intro ⟨drafts', hdrafts', _, hall⟩
        rw [hdrafts] at hdrafts'
        rwa [Except.ok.inj hdrafts']
      · exact fun hall => ⟨drafts, hdrafts, hindexes, hall⟩
    · intro drafts' hdrafts' hfits itemId ids t items table hreplaceable
      rw [hdrafts] at hdrafts'
      obtain rfl := Except.ok.inj hdrafts'
      rw [persisted_iff hof hindexes hfits hreplaceable, hstorable]

/-- a heading over a body that is too long for one draft -/
def headedText : Str :=
  str "\x7b\"blocks\": [\x7b\"text\": \"Scope\", \"block_type\": \"Heading\"\x7d, " ++
    str "\x7b\"text\": \"a b c d e\", \"page_number\": 7\x7d]\x7d"

def headed : ExtractedDocument where
  blocks := [⟨str "Scope", .heading, none⟩, ⟨str "a b c d e", .other, some 7⟩]

/-- the body is split with an overlap, and both rows are inserted -/
theorem accepted_storable_iff_headed : ∃ drafts rows table',
    normalizeExtractionPayload (loads 1000) .vlm headedText = .ok headed ∧
      HeadingAwareChunker.chunk whitespace fourTokenConfig none headed = .ok drafts ∧
      drafts.map (fun d => (d.content, d.sectionTitle)) =
        [(str "a b c d", some (str "Scope")), (str "d e", some (str "Scope"))] ∧
      (∀ d ∈ drafts, d.Storable) ∧ drafts.map ChunkDraft.row? = rows.map some ∧
      replaceForItem 1 rows id 0 [IngestionItem.new 1 2 3 0] [] = .ok table' := by
  have haccepted : normalizeExtractionPayload (loads 1000) .vlm headedText = .ok headed := by decide +kernel
  have hresolved : ChunkerResolver.resolve workerTokenizers fourTokenConfig =
      .ok (HeadingAwareChunker.chunk whitespace fourTokenConfig) := rfl
  have hstorable : ∀ p ∈ headed.placed fourTokenConfig.strategy, p.Storable := by
    intro p hp
    obtain rfl : p = ⟨⟨str "a b c d e", .other, some 7⟩, [⟨str "Scope", .heading, none⟩]⟩ := List.mem_singleton.1 hp
    exact ⟨by decide, by decide, by decide⟩
  obtain ⟨hdrafts, hrows⟩ := accepted_storable_iff haccepted hresolved none
  obtain ⟨drafts, hchunk, hindexes, hall⟩ := hdrafts.2 hstorable
  have hcontents : drafts.map (fun d => (d.content, d.sectionTitle, d.tokenCount, d.languageCode)) =
      [(str "a b c d", some (str "Scope"), 4, none), (str "d e", some (str "Scope"), 2, none)] := by
    rw [heading_chunk, if_neg (by decide)] at hchunk
    rw [← Except.ok.inj hchunk]
    decide +kernel
  have hlength : drafts.length = 2 := by simpa using congrArg List.length hcontents
  have hfits : ∀ d ∈ drafts, d.Fits := by
    intro d hd
    have hindex : d.chunkIndex < 2 := by
      have hmem : d.chunkIndex ∈ List.range drafts.length := hindexes ▸ List.mem_map_of_mem hd
      rwa [hlength, List.mem_range] at hmem
    have hmem := List.mem_map_of_mem (f := fun d => (d.content, d.sectionTitle, d.tokenCount, d.languageCode)) hd
    rw [hcontents] at hmem
    have hcount : d.tokenCount ≤ 4 ∧ d.languageCode = none := by
      simp only [List.mem_cons, Prod.mk.injEq, List.not_mem_nil, or_false] at hmem
      rcases hmem with ⟨-, -, h, hlanguage⟩ | ⟨-, -, h, hlanguage⟩
      · exact ⟨h.le, hlanguage⟩
      · exact ⟨h.le.trans (by decide), hlanguage⟩
    exact ⟨hindex.trans (by decide), hcount.1.trans_lt (by decide), by simp [hcount.2]⟩
  obtain ⟨rows, hrows, table', htable⟩ :=
    (hrows drafts hchunk hfits 1 id 0 _ [] (replaceable_empty _)).2 hstorable
  refine ⟨drafts, rows, table', haccepted, hchunk, ?_, hall, hrows, htable⟩
  simpa [List.map_map, Function.comp_def] using congrArg (List.map fun q => (q.1, q.2.1)) hcontents

def nulText : Str := str "\x7b\"blocks\": [\x7b\"text\": \"a\\u0000b\"\x7d]\x7d"

def surrogateText : Str := str "\x7b\"blocks\": [\x7b\"text\": \"a\\ud800b\"\x7d]\x7d"

def pageText : Str := str "\x7b\"blocks\": [\x7b\"text\": \"a\", \"page_number\": 2147483648\x7d]\x7d"

/-- nothing is inserted for it -/
def Refused (drafts : List ChunkDraft) : Prop :=
  ¬ ∃ rows, drafts.map ChunkDraft.row? = rows.map some ∧
    ∃ table', replaceForItem 1 rows id 0 [IngestionItem.new 1 2 3 0] [] = .ok table'

theorem refused_oneBlock {text : Str} {page : Option ℤ}
    (h : headingEmissions DEFAULT_CHUNKING_CONFIG (oneBlock text page) = [oneEmission text page])
    (hcount : whitespace.count text.strip < 2 ^ 31) (hnot : ¬ ((oneEmission text page).draft none 0).Storable) :
    Refused [(oneEmission text page).draft none 0] := by
  have hof := @draftsOf_heading DEFAULT_CHUNKING_CONFIG none (oneBlock text page)
  rw [h] at hof
  intro hpersisted
  apply hnot
  refine (persisted_iff hof rfl ?_ (replaceable_empty 1)).1 hpersisted _ (List.mem_singleton_self _)
  intro d hd
  rw [List.mem_singleton.1 hd]
  exact ⟨(by decide : 0 < 2 ^ 31), hcount, fun c hc => by cases hc⟩

/-- A NUL and a page beyond INTEGER reach the table, which refuses them; a surrogate makes the chunker raise. -/
theorem extraction_unstorable :
    (∃ document drafts, normalizeExtractionPayload (loads 1000) .vlm nulText = .ok document ∧
      HeadingAwareChunker.chunk whitespace DEFAULT_CHUNKING_CONFIG none document = .ok drafts ∧
      (∃ d ∈ drafts, 0 ∈ d.content) ∧ Refused drafts) ∧
    (∃ document drafts, normalizeExtractionPayload (loads 1000) .vlm pageText = .ok document ∧
      HeadingAwareChunker.chunk whitespace DEFAULT_CHUNKING_CONFIG none document = .ok drafts ∧
      (∃ d ∈ drafts, d.pageEnd = some 2147483648) ∧ Refused drafts) ∧
    ∃ document, normalizeExtractionPayload (loads 1000) .vlm surrogateText = .ok document ∧
      HeadingAwareChunker.chunk whitespace DEFAULT_CHUNKING_CONFIG none document = .error .unicodeEncode := by
  refine ⟨⟨oneBlock [0x61, 0, 0x62] none, _, by decide +kernel, chunk_oneBlock (by decide) rfl, ?_, ?_⟩,
    ⟨oneBlock [0x61] (some 2147483648), _, by decide +kernel, chunk_oneBlock (by decide) rfl, ?_, ?_⟩,
    oneBlock [0x61, 0xd800, 0x62] none, by decide +kernel, rfl⟩
  · exact ⟨_, List.mem_singleton_self _, by decide⟩
  · exact refused_oneBlock rfl (by decide) fun h => h.content.1 (by decide)
  · exact ⟨_, List.mem_singleton_self _, rfl⟩
  · exact refused_oneBlock rfl (by decide) fun h => absurd (storablePage_iff.1 (h.pageEnd 2147483648 rfl)).2 (by decide)

end AtlasRag.Ingestion.Chunking
