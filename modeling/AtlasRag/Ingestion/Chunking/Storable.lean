/-
What the table of chunks stores of the drafts that are made of an extraction.

The chunkers keep every token and every page number. So a draft holds a NUL, a lone surrogate or a page that is no INTEGER
iff a block that it is made of does, or the heading over it; a surrogate in a block makes the chunker raise.

Results:
- `storable_drafts_iff`: drafts are storable iff what they are made of is;
- `resolved_chunk`: a chunker raises iff a block has a surrogate, and otherwise makes its drafts of the blocks.
-/
import AtlasRag.Ingestion.Chunking.Cuts
import AtlasRag.Platform.Dumps

namespace AtlasRag.Ingestion.Chunking

open AtlasRag.Platform AtlasRag.Lib.Windows

/-! ## What can be stored -/

/-- a page that the column takes -/
def StorablePage (p : ℤ) : Prop := 1 ≤ p ∧ p ≤ 2 ^ 31 - 1

structure ChunkDraft.Storable (d : ChunkDraft) : Prop where
  content_ne_nil : d.content.strip ≠ []
  content : d.content.Storable
  sectionTitle : ∀ t ∈ d.sectionTitle, t.Storable
  sectionPath : ∀ t ∈ d.sectionPath, t.Storable
  tokenCount : (0 : ℤ) ≤ d.tokenCount
  pageStart : ∀ p ∈ d.pageStart, StorablePage p
  pageEnd : ∀ p ∈ d.pageEnd, StorablePage p
  pageRange : ∀ p ∈ d.pageStart, ∀ q ∈ d.pageEnd, p ≤ q

/-- a block that can be stored, under the title of a heading that can -/
structure Placed.Storable (p : Placed) : Prop where
  text : p.block.text.Storable
  page : ∀ n ∈ p.block.pageNumber, n ≤ 2 ^ 31 - 1
  title : ∀ t ∈ p.title, t.Storable

/-- what a strategy makes drafts of: all blocks without a title, or the body -/
def ExtractedDocument.placed (document : ExtractedDocument) : ChunkingStrategy → List Placed
  | .fixedTokenV1 => (document.blocks.filter (·.text.strip ≠ [])).map (⟨·, []⟩)
  | .headingAwareV1 => document.body

/-! ## Drafts of blocks -/

/-- the drafts are made of these blocks, and keep their tokens, pages and titles -/
structure DraftsOf (drafts : List ChunkDraft) (placed : List Placed) : Prop where
  content_ne_nil : ∀ d ∈ drafts, d.content.strip ≠ []
  hash : ∀ d ∈ drafts, FitsText (some 64) d.contentHash
  path : ∀ d ∈ drafts, d.sectionPath = d.sectionTitle.toList
  /-- each draft is from some of the blocks, all under its title -/
  made : ∀ d ∈ drafts, ∃ blocks : List Placed, blocks ≠ [] ∧ (∀ p ∈ blocks, p ∈ placed ∧ d.sectionTitle = p.title) ∧
    d.From (blocks.map (·.block)) ∧ ∀ t ∈ d.content.tokens, ∃ p ∈ blocks, t ∈ p.block.text.tokens
  /-- each token of a block is in a draft with its title, and its page -/
  kept : ∀ p ∈ placed, ∀ t ∈ p.block.text.tokens, ∃ d ∈ drafts, t ∈ d.content.tokens ∧ d.sectionTitle = p.title ∧
    ∀ n ∈ p.block.pageNumber, ∃ m ∈ d.pageEnd, n ≤ m
  not_blank : ∀ p ∈ placed, p.block.text.tokens ≠ []

section

variable {drafts : List ChunkDraft} {placed : List Placed}

theorem mem_pages {blocks : List Placed} {n : ℤ} :
    n ∈ (blocks.map (·.block)).filterMap (·.pageNumber) ↔ ∃ p ∈ blocks, n ∈ p.block.pageNumber := by
  simp [List.mem_filterMap]

/-- the greatest page of a draft -/
theorem le_pageEnd {d : ChunkDraft} {blocks : List ExtractedBlock} (hd : d.From blocks) {b : ExtractedBlock} (hb : b ∈ blocks)
    {n : ℤ} (hn : n ∈ b.pageNumber) : ∃ m ∈ d.pageEnd, n ≤ m := by
  have hmem : n ∈ blocks.filterMap (·.pageNumber) := List.mem_filterMap.2 ⟨b, hb, hn⟩
  have hsome : (blocks.filterMap (·.pageNumber)).max? ≠ none := fun h => List.ne_nil_of_mem hmem (List.max?_eq_none_iff.1 h)
  obtain ⟨m, hm⟩ := Option.ne_none_iff_exists'.1 hsome
  exact ⟨m, hd.pageEnd.trans hm, (List.max?_eq_some_iff.1 hm).2 n hmem⟩

/-- **Drafts are storable** iff what they are made of is. -/
theorem storable_drafts_iff (h : DraftsOf drafts placed) (hpages : ∀ p ∈ placed, ∀ n ∈ p.block.pageNumber, 0 < n) :
    (∀ d ∈ drafts, d.Storable) ↔ ∀ p ∈ placed, p.Storable := by
  constructor
  · intro hdrafts p hp
    refine ⟨(Str.storable_iff _).2 fun t ht => ?_, fun n hn => ?_, fun title htitle => ?_⟩
    · obtain ⟨d, hd, htd, -, -⟩ := h.kept p hp t ht
      exact (Str.storable_iff _).1 (hdrafts d hd).content t htd
    · obtain ⟨t, ht⟩ := List.exists_mem_of_ne_nil _ (h.not_blank p hp)
      obtain ⟨d, hd, -, -, hpage⟩ := h.kept p hp t ht
      obtain ⟨m, hm, hle⟩ := hpage n hn
      exact hle.trans ((hdrafts d hd).pageEnd m hm).2
    · obtain ⟨t, ht⟩ := List.exists_mem_of_ne_nil _ (h.not_blank p hp)
      obtain ⟨d, hd, -, hsame, -⟩ := h.kept p hp t ht
      exact (hdrafts d hd).sectionTitle title (hsame ▸ htitle)
  · intro hplaced d hd
    obtain ⟨blocks, hne, hblocks, hfrom, htokens⟩ := h.made d hd
    have htitle : ∀ t ∈ d.sectionTitle, t.Storable := by
      intro t ht
      obtain ⟨p, hp⟩ := List.exists_mem_of_ne_nil _ hne
      exact (hplaced p (hblocks p hp).1).title t ((hblocks p hp).2 ▸ ht)
    have hpage : ∀ n, n ∈ (blocks.map (·.block)).filterMap (·.pageNumber) → StorablePage n := by
      intro n hn
      obtain ⟨p, hp, hn⟩ := mem_pages.1 hn
      exact ⟨hpages p (hblocks p hp).1 n hn, (hplaced p (hblocks p hp).1).page n hn⟩
    refine ⟨h.content_ne_nil d hd, (Str.storable_iff _).2 fun t ht => ?_, htitle, fun t ht => ?_, Int.natCast_nonneg _,
      fun n hn => ?_, fun n hn => ?_, fun n hn m hm => ?_⟩
    · obtain ⟨p, hp, ht⟩ := htokens t ht
      exact (Str.storable_iff _).1 (hplaced p (hblocks p hp).1).text t ht
    · rw [h.path d hd] at ht
      exact htitle t (Option.mem_toList.1 ht)
    · rw [hfrom.pageStart] at hn
      exact hpage n (List.min?_mem hn)
    · rw [hfrom.pageEnd] at hn
      exact hpage n (List.max?_mem hn)
    · rw [hfrom.pageStart] at hn
      rw [hfrom.pageEnd] at hm
      exact (List.min?_eq_some_iff.1 hn).2 m (List.max?_mem hm)

end

/-! ## What the chunkers return -/

section

variable {config : ChunkingConfig} {languageCode : Option String} {document : ExtractedDocument}

theorem mem_drafts {es : List Emission} {d : ChunkDraft} (hd : d ∈ es.mapIdx (Emission.draft languageCode)) :
    ∃ e ∈ es, ∃ i, d = e.draft languageCode i := by
  obtain ⟨i, hi, rfl⟩ := List.mem_mapIdx.1 hd
  exact ⟨es[i], List.getElem_mem hi, i, rfl⟩

theorem fits_contentHash (e : Emission) (i : ℕ) : FitsText (some 64) (e.draft languageCode i).contentHash := by
  show FitsText (some 64) ((normalizedContentHash e.content.strip).toOption.getD "")
  rw [normalizedContentHash]
  split
  · decide
  · next bytes _ =>
    refine ⟨fun n hn => ?_, Sha256.nul_not_mem_hexDigest bytes⟩
    rw [← Option.mem_some_iff.1 hn]
    exact (Sha256.hexDigest_length bytes).le

theorem drafts_content_ne_nil {es : List Emission} (hes : ∀ e ∈ es, e.content.tokens ≠ []) :
    ∀ d ∈ es.mapIdx (Emission.draft languageCode), d.content.strip ≠ [] := by
  intro d hd
  obtain ⟨e, he, i, rfl⟩ := mem_drafts hd
  intro hnil
  apply hes e he
  rw [← @Emission.draft_tokens languageCode e i, Str.tokens_eq_nil.2 hnil]

theorem strip_of_mem_tokens {s t : Str} (ht : t ∈ s.tokens) : s.strip ≠ [] := by
  intro hblank
  rw [Str.tokens_eq_nil.2 hblank] at ht
  cases ht

theorem map_block_placed_fixed :
    (document.placed .fixedTokenV1).map (·.block) = document.blocks.filter (·.text.strip ≠ []) := by
  rw [ExtractedDocument.placed, List.map_map]
  exact List.map_id _

theorem mem_blocks_of_mem_placed {strategy : ChunkingStrategy} {p : Placed} (hp : p ∈ document.placed strategy) :
    p.block ∈ document.blocks := by
  have hmem : p.block ∈ (document.placed strategy).map (·.block) := List.mem_map_of_mem hp
  cases strategy with
  | fixedTokenV1 =>
    rw [map_block_placed_fixed] at hmem
    exact (List.mem_filter.1 hmem).1
  | headingAwareV1 =>
    rw [ExtractedDocument.placed, map_block_body] at hmem
    exact (List.mem_filter.1 hmem).1

theorem sectionTitle_of_mem_fixedEmissions {e : Emission} (he : e ∈ fixedEmissions config document) :
    e.sectionTitle = none := by
  obtain ⟨g, -, he⟩ := List.mem_flatMap.1 he
  obtain ⟨r, -, he⟩ := List.mem_flatMap.1 he
  obtain ⟨content, -, rfl⟩ := List.mem_map.1 he
  rfl

/-- the drafts of `FixedTokenChunker` -/
theorem draftsOf_fixed : DraftsOf ((fixedEmissions config document).mapIdx (Emission.draft languageCode))
    (document.placed .fixedTokenV1) := by
  have htokens := tokens_fixedEmissions config document
  have hpiece : ∀ e ∈ fixedEmissions config document, e.content.tokens ∈
      pieces config.size config.overlap config.overlap_lt_size (document.blocks.flatMap (·.text.tokens)) := by
    intro e he
    rw [← htokens]
    exact List.mem_map_of_mem he
  have hplaced : ∀ {b : ExtractedBlock} {t : Str}, b ∈ document.blocks → t ∈ b.text.tokens →
      ⟨b, []⟩ ∈ document.placed .fixedTokenV1 := by
    intro b t hb ht
    exact List.mem_map_of_mem (List.mem_filter.2 ⟨hb, decide_eq_true (strip_of_mem_tokens ht)⟩)
  have hfrom : ∀ e ∈ fixedEmissions config document, ∀ i,
      (e.draft languageCode i).From ((document.placed .fixedTokenV1).map (·.block)) := by
    intro e he i
    rw [map_block_placed_fixed]
    exact draft_from_fixed he i
  refine ⟨drafts_content_ne_nil fun e he => (pieces_length (hpiece e he)).1, ?_, ?_, ?_, ?_, ?_⟩
  · intro d hd
    obtain ⟨e, -, i, rfl⟩ := mem_drafts hd
    exact fits_contentHash e i
  · intro d hd
    obtain ⟨e, -, i, rfl⟩ := mem_drafts hd
    rfl
  · intro d hd
    obtain ⟨e, he, i, rfl⟩ := mem_drafts hd
    have htoken : ∀ t ∈ e.content.tokens, ∃ p ∈ document.placed .fixedTokenV1, t ∈ p.block.text.tokens := by
      intro t ht
      obtain ⟨b, hb, ht⟩ := List.mem_flatMap.1 (pieces_subset (hpiece e he) t ht)
      exact ⟨⟨b, []⟩, hplaced hb ht, ht⟩
    refine ⟨document.placed .fixedTokenV1, ?_, fun p hp => ⟨hp, ?_⟩, hfrom e he i, ?_⟩
    · obtain ⟨t, ht⟩ := List.exists_mem_of_ne_nil _ (pieces_length (hpiece e he)).1
      obtain ⟨p, hp, -⟩ := htoken t ht
      exact List.ne_nil_of_mem hp
    · obtain ⟨b, -, rfl⟩ := List.mem_map.1 hp
      exact sectionTitle_of_mem_fixedEmissions he
    · rwa [Emission.draft_tokens]
  · intro p hp t ht
    have hmerge : t ∈ merge config.overlap ((fixedEmissions config document).map (·.content.tokens)) := by
      rw [htokens, merge_pieces]
      obtain ⟨b, hb, rfl⟩ := List.mem_map.1 hp
      exact List.mem_flatMap.2 ⟨b, (List.mem_filter.1 hb).1, ht⟩
    obtain ⟨part, hpart, ht⟩ := List.mem_flatten.1 (merge_subset hmerge)
    obtain ⟨e, he, rfl⟩ := List.mem_map.1 hpart
    obtain ⟨i, hi, rfl⟩ := List.mem_iff_getElem.1 he
    refine ⟨_, List.mem_mapIdx.2 ⟨i, hi, rfl⟩, ?_, ?_, fun n hn => ?_⟩
    · rwa [Emission.draft_tokens]
    · obtain ⟨b, -, rfl⟩ := List.mem_map.1 hp
      exact sectionTitle_of_mem_fixedEmissions he
    · exact le_pageEnd (hfrom _ he i) (List.mem_map_of_mem hp) hn
  · intro p hp
    obtain ⟨b, hb, rfl⟩ := List.mem_map.1 hp
    exact fun h => of_decide_eq_true (List.mem_filter.1 hb).2 (Str.tokens_eq_nil.1 h)

/-- the drafts of `HeadingAwareChunker` -/
theorem draftsOf_heading : DraftsOf ((headingEmissions config document).mapIdx (Emission.draft languageCode))
    (document.placed .headingAwareV1) := by
  obtain ⟨cuts, hdrafts, hbody, -, hexact⟩ := @exists_cuts config languageCode document.sections 0
  have hchunk : (headingEmissions config document).mapIdx (Emission.draft languageCode) = cuts.flatMap Cut.drafts := by
    simp only [hdrafts, numbered, Nat.zero_add]
    rfl
  rw [placed_sections] at hbody
  refine ⟨drafts_content_ne_nil (tokens_of_mem_headingEmissions config document), ?_, ?_, ?_, ?_, ?_⟩
  · intro d hd
    obtain ⟨e, -, i, rfl⟩ := mem_drafts hd
    exact fits_contentHash e i
  · intro d hd
    obtain ⟨e, -, i, rfl⟩ := mem_drafts hd
    rfl
  · intro d hd
    rw [hchunk] at hd
    obtain ⟨cut, hcut, hd⟩ := List.mem_flatMap.1 hd
    obtain ⟨hcutExact, hfrom⟩ := hexact cut hcut
    refine ⟨cut.blocks, hcutExact.blocks_ne_nil, fun p hp => ⟨?_, hcutExact.title d hd p hp⟩, hfrom d hd,
      hcutExact.tokens d hd⟩
    show p ∈ document.body
    rw [← hbody]
    exact List.mem_flatMap.2 ⟨cut, hcut, hp⟩
  · intro p hp t ht
    have hmem : p ∈ cuts.flatMap Cut.blocks := by
      rw [hbody]
      exact hp
    obtain ⟨cut, hcut, hp⟩ := List.mem_flatMap.1 hmem
    obtain ⟨hcutExact, hfrom⟩ := hexact cut hcut
    have hrestored : t ∈ cut.restored config.overlap := by
      rw [hcutExact.restored]
      exact List.mem_flatMap.2 ⟨p, hp, ht⟩
    obtain ⟨d, hd, htd⟩ := Cut.mem_of_mem_restored hrestored
    refine ⟨d, ?_, htd, hcutExact.title d hd p hp, fun n hn => le_pageEnd (hfrom d hd) (List.mem_map_of_mem hp) hn⟩
    rw [hchunk]
    exact List.mem_flatMap.2 ⟨cut, hcut, hd⟩
  · intro p hp
    exact fun h => strip_of_mem_body hp (Str.tokens_eq_nil.1 h)

/-- a surrogate in the blocks of a document is in a block that is not blank -/
theorem surrogate_placed_fixed : (∃ p ∈ document.placed .fixedTokenV1, p.block.text.HasSurrogate) ↔
    ∃ b ∈ document.blocks, b.text.HasSurrogate := by
  constructor
  · intro ⟨p, hp, h⟩
    obtain ⟨b, hb, rfl⟩ := List.mem_map.1 hp
    exact ⟨b, (List.mem_filter.1 hb).1, h⟩
  · intro ⟨b, hb, h⟩
    obtain ⟨t, ht, -⟩ := (Str.hasSurrogate_iff _).1 h
    exact ⟨⟨b, []⟩, List.mem_map_of_mem (List.mem_filter.2 ⟨hb, decide_eq_true (strip_of_mem_tokens ht)⟩), h⟩

theorem resolve_eq {chunker : Chunker} (h : ChunkerResolver.resolve workerTokenizers config = .ok chunker) :
    chunker = match config.strategy with
      | .fixedTokenV1 => FixedTokenChunker.chunk whitespace config
      | .headingAwareV1 => HeadingAwareChunker.chunk whitespace config := by
  rw [ChunkerResolver.resolve, workerTokenizers, List.lookup_cons] at h
  split at h
  · cases h
  · next tokenizer hlookup =>
    split at hlookup
    · obtain rfl := Option.some.inj hlookup
      cases hstrategy : config.strategy with
      | fixedTokenV1 =>
        rw [hstrategy] at h
        exact (Except.ok.inj h).symm
      | headingAwareV1 =>
        rw [hstrategy] at h
        exact (Except.ok.inj h).symm
    · cases hlookup

/-- **The resolved chunker** raises iff a block has a surrogate, and otherwise returns drafts of the blocks, in order. -/
theorem resolved_chunk {chunker : Chunker} (h : ChunkerResolver.resolve workerTokenizers config = .ok chunker)
    (languageCode : Option String) (document : ExtractedDocument) :
    (∃ p ∈ document.placed config.strategy, p.block.text.HasSurrogate) ∧ chunker languageCode document = .error .unicodeEncode ∨
      (¬ ∃ p ∈ document.placed config.strategy, p.block.text.HasSurrogate) ∧
      ∃ drafts, chunker languageCode document = .ok drafts ∧ drafts.map (·.chunkIndex) = List.range drafts.length ∧
        DraftsOf drafts (document.placed config.strategy) := by
  rw [resolve_eq h]
  cases config.strategy with
  | fixedTokenV1 =>
    rw [surrogate_placed_fixed]
    dsimp only
    rw [fixed_chunk]
    by_cases hsurrogate : ∃ b ∈ document.blocks, b.text.HasSurrogate
    · exact .inl ⟨hsurrogate, if_pos hsurrogate⟩
    · refine .inr ⟨hsurrogate, _, if_neg hsurrogate, ?_, draftsOf_fixed⟩
      rw [map_index_drafts, List.length_mapIdx]
  | headingAwareV1 =>
    dsimp only
    rw [heading_chunk]
    by_cases hsurrogate : ∃ p ∈ document.body, p.block.text.HasSurrogate
    · exact .inl ⟨hsurrogate, if_pos hsurrogate⟩
    · refine .inr ⟨hsurrogate, _, if_neg hsurrogate, ?_, draftsOf_heading⟩
      rw [map_index_drafts, List.length_mapIdx]

end

end AtlasRag.Ingestion.Chunking
