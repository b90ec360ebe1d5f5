/-
The drafts of the chunkers: one for each emission, in order, numbered from 0. A chunker raises only where the text of a
block has a surrogate, since the hash is over UTF-8.

Results:
- `addAll_eq`: the drafts of emissions that have a token each;
- `heading_chunk`, `fixed_chunk`: what the two chunkers return;
- `fixed_windows`: the drafts of `FixedTokenChunker` are windows over the tokens of the document.
-/
import AtlasRag.Ingestion.Chunking.Runs

namespace AtlasRag.Ingestion.Chunking

open AtlasRag.Platform AtlasRag.Lib.Windows AtlasRag.Lib.Words

/-! ## One emission -/

theorem hasSurrogate_congr {s s' : Str} (h : s.tokens = s'.tokens) : s.HasSurrogate ↔ s'.HasSurrogate := by
  rw [Str.hasSurrogate_iff, Str.hasSurrogate_iff, h]

/-- normalizing keeps the tokens -/
theorem tokens_normalized (content : Str) :
    (Str.join (str "\n") (content.strip.splitlines.map Str.rstrip)).tokens = content.tokens := by
  rw [tokens_lines, List.flatMap_map]
  simp only [Str.tokens_rstrip]
  rw [Str.tokens_splitlines, Str.tokens_strip]

/-- **The hash** of a content with a surrogate raises, that of any other does not. -/
theorem normalizedContentHash_eq (content : Str) :
    (content.HasSurrogate ∧ normalizedContentHash content = .error .unicodeEncode) ∨
      ¬ content.HasSurrogate ∧ ∃ hash, normalizedContentHash content = .ok hash := by
  rw [← hasSurrogate_congr (tokens_normalized content), ← Str.utf8_eq_none_iff, normalizedContentHash]
  split
  · next h => exact .inl ⟨h, rfl⟩
  · next bytes h => exact .inr ⟨by rw [h]; exact Option.some_ne_none bytes, _, rfl⟩

/-- the draft of an emission, at an index -/
def Emission.draft (languageCode : Option String) (index : ℕ) (e : Emission) : ChunkDraft where
  chunkIndex := index
  content := e.content.strip
  contentType := e.contentType
  sectionTitle := e.sectionTitle
  sectionPath := e.sectionTitle.toList
  pageStart := (e.blocks.filterMap (·.pageNumber)).min?
  pageEnd := (e.blocks.filterMap (·.pageNumber)).max?
  languageCode := languageCode
  tokenCount := whitespace.count e.content.strip
  contentHash := (normalizedContentHash e.content.strip).toOption.getD ""

section

variable {languageCode : Option String} {drafts : List ChunkDraft} {e : Emission} {es : List Emission}

@[simp] theorem Emission.draft_tokens (k : ℕ) : (e.draft languageCode k).content.tokens = e.content.tokens :=
  Str.tokens_strip e.content

@[simp] theorem Emission.draft_tokenCount (k : ℕ) : (e.draft languageCode k).tokenCount = e.content.tokens.length :=
  congrArg List.length (Str.tokens_strip e.content)

theorem addEmission_eq (hne : e.content.tokens ≠ []) : addEmission languageCode drafts e =
    if e.content.HasSurrogate then .error .unicodeEncode else .ok (drafts ++ [e.draft languageCode drafts.length]) := by
  have hstrip : e.content.strip ≠ [] := fun h => hne (Str.tokens_eq_nil.2 h)
  have hsurrogate : e.content.strip.HasSurrogate ↔ e.content.HasSurrogate := hasSurrogate_congr (Str.tokens_strip _)
  rw [addEmission, add]
  dsimp only
  rw [if_neg hstrip]
  rcases normalizedContentHash_eq e.content.strip with ⟨h, hhash⟩ | ⟨h, hash, hhash⟩
  · rw [if_pos (hsurrogate.1 h), hhash]
    rfl
  · rw [if_neg fun hs => h (hsurrogate.2 hs), Emission.draft, hhash]
    rfl

/-- The drafts of emissions are numbered on from those before, unless one cannot be encoded. -/
theorem addAll_eq (hne : ∀ e ∈ es, e.content.tokens ≠ []) : addAll languageCode drafts es =
    if ∃ e ∈ es, e.content.HasSurrogate then .error .unicodeEncode
    else .ok (drafts ++ es.mapIdx fun k e => e.draft languageCode (drafts.length + k)) := by
  induction es generalizing drafts with
  | nil => simp [addAll, pure, Except.pure]
  | cons e es ih =>
    have hrest : ∀ e ∈ es, e.content.tokens ≠ [] := fun e he => hne e (List.mem_cons_of_mem _ he)
    rw [addAll, List.foldlM_cons, addEmission_eq (hne e List.mem_cons_self)]
    by_cases hfirst : e.content.HasSurrogate
    · rw [if_pos hfirst, if_pos ⟨e, List.mem_cons_self, hfirst⟩]
      rfl
    · rw [if_neg hfirst, ok_bind]
      refine (ih hrest).trans ?_
      by_cases hlater : ∃ e ∈ es, e.content.HasSurrogate
      · rw [if_pos hlater, if_pos (by simpa [hfirst] using hlater)]
      · rw [if_neg hlater, if_neg (by simpa [hfirst] using hlater)]
        simp [List.mapIdx_cons, Nat.add_assoc, Nat.add_comm 1]

end

/-! ## What the chunkers return -/

section

variable (config : ChunkingConfig) (languageCode : Option String) (document : ExtractedDocument)

/-- a part has only tokens of the blocks of its group -/
theorem mem_of_mem_part {blocks : List ExtractedBlock} {g : Group} (hg : g ∈ sectionGroups config blocks) {r : Run}
    (hr : r ∈ g.runs) {part : List Str} (hpart : part ∈ r.parts config) {t : Str} (ht : t ∈ part) :
    ∃ b ∈ g.blocks, t ∈ b.text.tokens := by
  have hjoined : ∀ bs : List ExtractedBlock, t ∈ (joined bs).tokens → ∃ b ∈ bs, t ∈ b.text.tokens := by
    intro bs h
    rw [tokens_joined] at h
    exact List.mem_flatMap.1 h
  have htext : ∀ bs, r ∈ (Group.plain (.text bs)).runs → ∃ b ∈ bs, t ∈ b.text.tokens := by
    intro bs hr
    rw [List.mem_singleton.1 hr] at hpart
    exact hjoined bs (pieces_subset hpart t ht)
  rw [sectionGroups] at hg
  split_ifs at hg
  · cases hg
  · rw [List.mem_singleton.1 hg] at hr ⊢
    rw [List.mem_singleton.1 hr] at hpart
    rw [List.mem_singleton.1 hpart] at ht
    exact hjoined blocks ht
  · rcases mem_splitGroups hg with ⟨bs, -, -, rfl⟩ | ⟨b, -, -, rfl⟩
    · exact htext bs hr
    · rw [blocks_tableGroup]
      rw [tableGroup] at hr
      split at hr
      · rename_i header rows hlines
        refine ⟨b, List.mem_singleton_self b, ?_⟩
        have hflat : t ∈ (r.parts config).flatten := List.mem_flatten_of_mem hpart ht
        rw [(parts_of_rowRuns hr).1] at hflat
        rw [← (tokens_tableLines hlines).1]
        rcases List.mem_append.1 hflat with h | h
        · exact List.mem_append_left _ h
        · obtain ⟨row, hrow, ht⟩ := List.mem_flatMap.1 h
          have hrows : row ∈ (rowRuns config b header [] rows).flatMap Run.rowLines := List.mem_flatMap.2 ⟨r, hr, hrow⟩
          rw [rowLines_rowRuns, List.nil_append] at hrows
          exact List.mem_append_right _ (List.mem_flatMap.2 ⟨row, hrows, ht⟩)
      · exact htext [b] hr

/-- the tokens of the blocks of a group are in its parts -/
theorem exists_part {blocks : List ExtractedBlock} {g : Group} (hg : g ∈ sectionGroups config blocks) {b : ExtractedBlock}
    (hb : b ∈ g.blocks) {t : Str} (ht : t ∈ b.text.tokens) : ∃ r ∈ g.runs, ∃ part ∈ r.parts config, t ∈ part := by
  have hrestored : t ∈ g.restored config := by
    rw [restored_of_mem hg]
    exact List.mem_flatMap.2 ⟨b, hb, ht⟩
  cases g with
  | plain run =>
    obtain ⟨part, hpart, ht⟩ := List.mem_flatten.1 (merge_subset hrestored)
    exact ⟨run, List.mem_singleton_self run, part, hpart, ht⟩
  | table block header runs =>
    obtain ⟨whole, hwhole, ht⟩ := List.mem_flatten.1 (merge_subset hrestored)
    obtain ⟨r, hr, rfl⟩ := List.mem_map.1 hwhole
    obtain ⟨part, hpart, ht⟩ := List.mem_flatten.1 ht
    exact ⟨r, hr, part, hpart, ht⟩

/-- the emissions of a group have the tokens of its parts -/
theorem tokens_emissions (g : Group) (title : Option Str) :
    (g.emissions config title).map (·.content.tokens) = g.runs.flatMap (Run.parts config) := by
  rw [Group.emissions, List.map_flatMap]
  refine List.flatMap_congr fun r _ => ?_
  rw [Run.emissions, List.map_map]
  exact tokens_contents r

theorem mem_emissions_iff {g : Group} {title : Option Str} {ts : List Str} :
    (∃ e ∈ g.emissions config title, e.content.tokens = ts) ↔ ∃ r ∈ g.runs, ts ∈ r.parts config := by
  have h := congrArg (ts ∈ ·) (tokens_emissions config g title)
  simpa only [List.mem_map, List.mem_flatMap, eq_iff_iff] using h

/-- a surrogate of the emissions of a section is one of its blocks -/
theorem surrogate_emissions_iff (s : Section) :
    (∃ e ∈ s.emissions config, e.content.HasSurrogate) ↔ ∃ b ∈ s.blocks, b.text.HasSurrogate := by
  have hblocks : (sectionGroups config s.blocks).flatMap Group.blocks = s.blocks := blocks_sectionGroups s.blocks
  constructor
  · intro ⟨e, he, hsurrogate⟩
    obtain ⟨g, hg, he⟩ := List.mem_flatMap.1 he
    obtain ⟨r, hr, hpart⟩ := (mem_emissions_iff config).1 ⟨e, he, rfl⟩
    obtain ⟨t, ht, hsurrogate⟩ := (Str.hasSurrogate_iff _).1 hsurrogate
    obtain ⟨b, hb, ht⟩ := mem_of_mem_part config hg hr hpart ht
    refine ⟨b, ?_, (Str.hasSurrogate_iff _).2 ⟨t, ht, hsurrogate⟩⟩
    rw [← hblocks]
    exact List.mem_flatMap.2 ⟨g, hg, hb⟩
  · intro ⟨b, hb, hsurrogate⟩
    obtain ⟨t, ht, hsurrogate⟩ := (Str.hasSurrogate_iff _).1 hsurrogate
    rw [← hblocks] at hb
    obtain ⟨g, hg, hb⟩ := List.mem_flatMap.1 hb
    obtain ⟨r, hr, part, hpart, ht⟩ := exists_part config hg hb ht
    obtain ⟨e, he, rfl⟩ := (mem_emissions_iff config).2 ⟨r, hr, hpart⟩
    exact ⟨e, List.mem_flatMap.2 ⟨g, hg, he⟩, (Str.hasSurrogate_iff _).2 ⟨t, ht, hsurrogate⟩⟩

/-- the sections cover the body -/
theorem placed_sectionsFrom (headings blocks rest : List ExtractedBlock) :
    (sectionsFrom headings blocks rest).flatMap Section.placed = blocks.map (⟨·, headings⟩) ++ bodyFrom headings rest := by
  induction rest generalizing headings blocks with
  | nil => simp [sectionsFrom, bodyFrom, Section.placed]
  | cons block rest ih =>
    rw [sectionsFrom, bodyFrom]
    by_cases hheading : block.blockType = .heading
    · rw [if_pos hheading, if_pos hheading, List.flatMap_cons, ih]
      rfl
    rw [if_neg hheading, if_neg hheading]
    by_cases hblank : block.text.strip ≠ []
    · rw [if_pos hblank, if_pos hblank, ih, List.map_append, List.append_assoc]
      rfl
    · rw [if_neg hblank, if_neg hblank, ih]

theorem placed_sections : document.sections.flatMap Section.placed = document.body :=
  placed_sectionsFrom [] [] document.blocks

theorem map_block_bodyFrom (headings blocks : List ExtractedBlock) : (bodyFrom headings blocks).map (·.block) =
    blocks.filter fun b => b.blockType ≠ .heading ∧ b.text.strip ≠ [] := by
  induction blocks generalizing headings with
  | nil => rfl
  | cons block blocks ih =>
    rw [bodyFrom]
    by_cases hheading : block.blockType = .heading
    · rw [if_pos hheading, ih, List.filter_cons_of_neg (by simp [hheading])]
    by_cases hblank : block.text.strip ≠ []
    · rw [if_neg hheading, if_pos hblank, List.map_cons, ih, List.filter_cons_of_pos (by simp [hheading, hblank])]
    · rw [if_neg hheading, if_neg hblank, ih, List.filter_cons_of_neg (by simp [hblank])]

/-- **The body** of a document -/
theorem map_block_body : document.body.map (·.block) =
    document.blocks.filter fun b => b.blockType ≠ .heading ∧ b.text.strip ≠ [] := map_block_bodyFrom [] document.blocks

variable {document}

theorem mem_body_of_mem_sections {s : Section} (hs : s ∈ document.sections) {b : ExtractedBlock} (hb : b ∈ s.blocks) :
    ⟨b, s.headings⟩ ∈ document.body := by
  rw [← placed_sections]
  exact List.mem_flatMap.2 ⟨s, hs, List.mem_map_of_mem hb⟩

theorem strip_of_mem_body {p : Placed} (hp : p ∈ document.body) : p.block.text.strip ≠ [] := by
  have hmem : p.block ∈ document.body.map (·.block) := List.mem_map_of_mem hp
  rw [map_block_body] at hmem
  exact (of_decide_eq_true (List.mem_filter.1 hmem).2).2

variable (document)

/-- each emission has a token -/
theorem tokens_of_mem_headingEmissions : ∀ e ∈ headingEmissions config document, e.content.tokens ≠ [] := by
  intro e he
  obtain ⟨s, hs, he⟩ := List.mem_flatMap.1 he
  obtain ⟨g, hg, he⟩ := List.mem_flatMap.1 he
  obtain ⟨r, hr, hpart⟩ := (mem_emissions_iff config).1 ⟨e, he, rfl⟩
  exact part_ne_nil (fun b hb => strip_of_mem_body (mem_body_of_mem_sections hs hb)) hg hr hpart

/-- **`HeadingAwareChunker`** returns the drafts of its emissions. -/
theorem heading_chunk : HeadingAwareChunker.chunk whitespace config languageCode document =
    if ∃ p ∈ document.body, p.block.text.HasSurrogate then .error .unicodeEncode
    else .ok ((headingEmissions config document).mapIdx (Emission.draft languageCode)) := by
  have hsurrogate : (∃ e ∈ headingEmissions config document, e.content.HasSurrogate) ↔
      ∃ p ∈ document.body, p.block.text.HasSurrogate := by
    constructor
    · intro ⟨e, he, h⟩
      obtain ⟨s, hs, he⟩ := List.mem_flatMap.1 he
      obtain ⟨b, hb, h⟩ := (surrogate_emissions_iff config s).1 ⟨e, he, h⟩
      exact ⟨_, mem_body_of_mem_sections hs hb, h⟩
    · intro ⟨p, hp, h⟩
      rw [← placed_sections] at hp
      obtain ⟨s, hs, hp⟩ := List.mem_flatMap.1 hp
      obtain ⟨b, hb, rfl⟩ := List.mem_map.1 hp
      obtain ⟨e, he, h⟩ := (surrogate_emissions_iff config s).2 ⟨b, hb, h⟩
      exact ⟨e, List.mem_flatMap.2 ⟨s, hs, he⟩, h⟩
  rw [heading_chunk_eq, addAll_eq (tokens_of_mem_headingEmissions config document)]
  simp only [hsurrogate, List.nil_append, List.length_nil, Nat.zero_add]

/-! ## Fixed windows -/

theorem tokens_fixedEmissions : (fixedEmissions config document).map (·.content.tokens) =
    pieces config.size config.overlap config.overlap_lt_size (document.blocks.flatMap (·.text.tokens)) := by
  have hblank : (document.blocks.filter (·.text.strip ≠ [])).flatMap (·.text.tokens) =
      document.blocks.flatMap (·.text.tokens) := by
    induction document.blocks with
    | nil => rfl
    | cons b bs ih =>
      by_cases hb : b.text.strip = []
      · rw [List.filter_cons_of_neg (by simpa using hb), ih, List.flatMap_cons, Str.tokens_eq_nil.2 hb, List.nil_append]
      · rw [List.filter_cons_of_pos (by simpa using hb), List.flatMap_cons, List.flatMap_cons, ih]
  rw [fixedEmissions, textGroups, ← hblank]
  split_ifs with hne
  · rw [hne]
    rfl
  · rw [List.flatMap_singleton, tokens_emissions, Group.runs, List.flatMap_singleton, Run.parts, tokens_joined]

/-- **`FixedTokenChunker`** returns the drafts of its emissions. -/
theorem fixed_chunk : FixedTokenChunker.chunk whitespace config languageCode document =
    if ∃ b ∈ document.blocks, b.text.HasSurrogate then .error .unicodeEncode
    else .ok ((fixedEmissions config document).mapIdx (Emission.draft languageCode)) := by
  have htokens := tokens_fixedEmissions config document
  have hne : ∀ e ∈ fixedEmissions config document, e.content.tokens ≠ [] := by
    intro e he
    have hpart : e.content.tokens ∈ (fixedEmissions config document).map (·.content.tokens) := List.mem_map_of_mem he
    rw [htokens] at hpart
    exact (pieces_length hpart).1
  have hsurrogate : (∃ e ∈ fixedEmissions config document, e.content.HasSurrogate) ↔
      ∃ b ∈ document.blocks, b.text.HasSurrogate := by
    constructor
    · intro ⟨e, he, h⟩
      obtain ⟨t, ht, h⟩ := (Str.hasSurrogate_iff _).1 h
      have hpart : e.content.tokens ∈ (fixedEmissions config document).map (·.content.tokens) := List.mem_map_of_mem he
      rw [htokens] at hpart
      obtain ⟨b, hb, ht⟩ := List.mem_flatMap.1 (pieces_subset hpart t ht)
      exact ⟨b, hb, (Str.hasSurrogate_iff _).2 ⟨t, ht, h⟩⟩
    · intro ⟨b, hb, h⟩
      obtain ⟨t, ht, h⟩ := (Str.hasSurrogate_iff _).1 h
      have hmerge : t ∈ merge config.overlap ((fixedEmissions config document).map (·.content.tokens)) := by
        rw [htokens, merge_pieces]
        exact List.mem_flatMap.2 ⟨b, hb, ht⟩
      obtain ⟨part, hpart, ht⟩ := List.mem_flatten.1 (merge_subset hmerge)
      obtain ⟨e, he, rfl⟩ := List.mem_map.1 hpart
      exact ⟨e, he, (Str.hasSurrogate_iff _).2 ⟨t, ht, h⟩⟩
  rw [fixed_chunk_eq, addAll_eq hne]
  simp only [hsurrogate, List.nil_append, List.length_nil, Nat.zero_add]

theorem pieces_chain (tokens : List Str) :
    (pieces config.size config.overlap config.overlap_lt_size tokens).IsChain (Follows config.overlap) := by
  rw [pieces]
  split_ifs
  · exact List.isChain_nil
  · exact windows_chain

/-- the tokens of numbered drafts -/
theorem map_tokens_drafts (es : List Emission) :
    (es.mapIdx (Emission.draft languageCode)).map (·.content.tokens) = es.map (·.content.tokens) := by
  apply List.ext_getElem
  · simp
  · intro k hk hk'
    simp

theorem map_index_drafts (es : List Emission) :
    (es.mapIdx (Emission.draft languageCode)).map (·.chunkIndex) = List.range es.length := by
  apply List.ext_getElem
  · simp
  · intro k hk hk'
    simp [Emission.draft]

theorem tokenCount_drafts {es : List Emission} {d : ChunkDraft} (hd : d ∈ es.mapIdx (Emission.draft languageCode)) :
    d.tokenCount = d.content.tokens.length := by
  obtain ⟨k, hk, rfl⟩ := List.mem_mapIdx.1 hd
  rfl

end

/-- **Windows of a document.** The loop of the split ends; `FixedTokenChunker` raises only for a surrogate, and otherwise
its drafts hold between 1 and `max_tokens` tokens, repeat exactly the last `overlap_tokens` of their predecessor and add
at least one, restore the tokens of the document, and are numbered from 0. -/
theorem fixed_windows (config : ChunkingConfig) (languageCode : Option String) (document : ExtractedDocument) :
    (∀ tokens : List Str, (scan config.size config.overlap tokens (tokens.length + 1) 0).isSome) ∧
    ((∃ b ∈ document.blocks, b.text.HasSurrogate) ∧
        FixedTokenChunker.chunk whitespace config languageCode document = .error .unicodeEncode ∨
      ∃ drafts, FixedTokenChunker.chunk whitespace config languageCode document = .ok drafts ∧
        (∀ d ∈ drafts, 1 ≤ d.content.tokens.length ∧ (d.content.tokens.length : ℤ) ≤ config.maxTokens) ∧
        (drafts.map (·.content.tokens)).IsChain (Follows config.overlap) ∧
        merge config.overlap (drafts.map (·.content.tokens)) = document.blocks.flatMap (·.text.tokens) ∧
        drafts.map (·.chunkIndex) = List.range drafts.length ∧
        ∀ d ∈ drafts, d.tokenCount = d.content.tokens.length) := by
  constructor
  · intro tokens
    by_cases hne : tokens = []
    · rw [hne]
      rfl
    · rw [scan_eq (h := config.overlap_lt_size) _ 0 (List.length_pos_iff.2 hne) (by omega)]
      rfl
  rw [fixed_chunk config languageCode document]
  by_cases hsurrogate : ∃ b ∈ document.blocks, b.text.HasSurrogate
  · exact .inl ⟨hsurrogate, if_pos hsurrogate⟩
  right
  have htokens := (map_tokens_drafts languageCode _).trans (tokens_fixedEmissions config document)
  refine ⟨_, if_neg hsurrogate, ?_, ?_, ?_, ?_, fun d hd => tokenCount_drafts languageCode hd⟩
  · intro d hd
    have hpart : d.content.tokens ∈ pieces config.size config.overlap config.overlap_lt_size
        (document.blocks.flatMap (·.text.tokens)) := by
      rw [← htokens]
      exact List.mem_map_of_mem hd
    obtain ⟨hne, hle⟩ := pieces_length hpart
    exact ⟨List.length_pos_iff.2 hne, (config.le_size_iff _).1 hle⟩
  · rw [htokens]
    exact pieces_chain config _
  · rw [htokens, merge_pieces]
  · rw [map_index_drafts, List.length_mapIdx]

/-- a paragraph of one code point, which UTF-8 does not encode -/
def loneSurrogate : ExtractedDocument where
  blocks := [⟨[.ofNat 0xd800], .paragraph, none⟩]

/-- A document with a surrogate has a token, but no drafts. -/
theorem windows_of_surrogate :
    FixedTokenChunker.chunk whitespace { DEFAULT_CHUNKING_CONFIG with strategy := .fixedTokenV1 } none loneSurrogate =
        .error .unicodeEncode ∧
      loneSurrogate.blocks.flatMap (·.text.tokens) = [[.ofNat 0xd800]] := by
  decide

end AtlasRag.Ingestion.Chunking
