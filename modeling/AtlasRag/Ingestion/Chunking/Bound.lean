/-
The size of drafts. `FixedTokenChunker` stays within `max_tokens`. So does `HeadingAwareChunker`, but for one kind of table:
a row that is too long with the header is split only while no row is collected; after a shorter row it becomes the next
collected row unsplit, and with the header exceeds the bound.

Results:
- `fit_rowRuns_iff`: the drafts of a table fit iff no row that is too long comes after one that is not;
- `chunk_size_bound`: all drafts of both chunkers are within `max_tokens` iff this holds of each table that is split;
- `oversized_row`: a table that exceeds the bound.
-/
import AtlasRag.Ingestion.Chunking.Drafts

namespace AtlasRag.Ingestion.Chunking

open AtlasRag.Platform AtlasRag.Lib.Windows

section

variable {config : ChunkingConfig} {block : ExtractedBlock} {blocks pending : List ExtractedBlock} {header lines lines' : List Str}

/-- all parts are within the bound -/
def Run.Fits (config : ChunkingConfig) (r : Run) : Prop := ∀ part ∈ r.parts config, part.length ≤ config.size

/-- no row that is too long with the header comes after one that is not -/
def RowsFit (config : ChunkingConfig) (header rows : List Str) : Prop :=
  rows.Pairwise fun earlier later => TooLong config (header ++ [later]) → TooLong config (header ++ [earlier])

theorem TooLong.mono (h : TooLong config lines) (hsub : lines.Sublist lines') : TooLong config lines' := by
  rw [tooLong_iff] at h ⊢
  exact lt_of_lt_of_le h (hsub.flatMap Str.tokens).length_le

theorem fits_rows_iff (rows : List Str) : (Run.rows block header rows).Fits config ↔ ¬ TooLong config (header ++ rows) := by
  simp [Run.Fits, Run.parts, TooLong]

theorem fits_row (row : Str) : (Run.row block header row).Fits config := fun _ hpart => (pieces_length hpart).2

/-- once a row is collected, a row that is too long is not split any more -/
theorem fit_rowRuns_of_ne_nil {currentRows : List Str} (hcur : currentRows ≠ []) (rows : List Str) :
    (∀ r ∈ rowRuns config block header currentRows rows, r.Fits config) ↔
      ¬ TooLong config (header ++ currentRows) ∧ ∀ row ∈ rows, ¬ TooLong config (header ++ [row]) := by
  induction rows generalizing currentRows with
  | nil =>
    rw [rowRuns, if_neg hcur]
    simp [fits_rows_iff]
  | cons row rows ih =>
    rw [rowRuns]
    by_cases hlong : TooLong config (header ++ currentRows ++ [row])
    · rw [if_pos hlong, if_neg hcur, List.forall_mem_cons, ih (List.cons_ne_nil _ _), fits_rows_iff, List.forall_mem_cons]
    · have hcurrent : ¬ TooLong config (header ++ currentRows) :=
        fun h => hlong (h.mono (List.sublist_append_left _ _))
      have hrow : ¬ TooLong config (header ++ [row]) := by
        intro h
        apply hlong
        apply h.mono
        rw [List.append_assoc]
        exact (List.sublist_append_right currentRows [row]).append_left header
      rw [if_neg hlong, ih (List.append_ne_nil_of_right_ne_nil _ (List.cons_ne_nil _ _)), List.forall_mem_cons]
      rw [List.append_assoc] at hlong
      simp [hlong, hcurrent, hrow]

/-- The parts of a table are within the bound iff each row is, with the header. -/
theorem fit_rowRuns_iff (rows : List Str) :
    (∀ r ∈ rowRuns config block header [] rows, r.Fits config) ↔ RowsFit config header rows := by
  induction rows with
  | nil => simp [rowRuns, RowsFit]
  | cons row rows ih =>
    rw [rowRuns, RowsFit, List.pairwise_cons, List.append_nil]
    by_cases hlong : TooLong config (header ++ [row])
    · rw [if_pos hlong, if_pos rfl, List.forall_mem_cons, ih, RowsFit]
      simp [hlong, fits_row]
    · rw [if_neg hlong, List.nil_append, fit_rowRuns_of_ne_nil (List.cons_ne_nil _ _)]
      simp only [hlong, not_false_eq_true, true_and, imp_false]
      constructor
      · intro h
        refine ⟨h, List.pairwise_of_forall_mem_list ?_⟩
        intro earlier _ later hlater hlong
        exact absurd hlong (h later hlater)
      · exact And.left

/-- the table, if it is split between its rows, fits -/
def TableFits (config : ChunkingConfig) (block : ExtractedBlock) : Prop :=
  ∀ header rows, tableLines block = some (header, rows) → RowsFit config header rows

theorem fit_text (blocks : List ExtractedBlock) : ∀ r ∈ (Group.plain (.text blocks)).runs, r.Fits config := by
  intro r hr part hpart
  rw [List.mem_singleton.1 hr] at hpart
  exact (pieces_length hpart).2

theorem fit_tableGroup_iff (b : ExtractedBlock) :
    (∀ r ∈ (tableGroup config b).runs, r.Fits config) ↔ TableFits config b := by
  rw [tableGroup, TableFits]
  split
  · rename_i header rows hlines
    rw [Group.runs, fit_rowRuns_iff, hlines]
    constructor
    · intro h header' rows' heq
      cases heq
      exact h
    · exact fun h => h header rows rfl
  · rename_i hlines
    rw [hlines]
    exact ⟨fun _ _ _ h => (by cases h), fun _ => fit_text [b]⟩

theorem tableGroup_mem_splitGroups {b : ExtractedBlock} (hb : b ∈ blocks) (hpreserve : config.preserveTables = true)
    (htype : b.blockType = .table) : tableGroup config b ∈ splitGroups config pending blocks := by
  induction blocks generalizing pending with
  | nil => cases hb
  | cons block blocks ih =>
    rw [splitGroups]
    rcases List.mem_cons.1 hb with rfl | hb
    · rw [if_pos ⟨hpreserve, htype⟩]
      exact List.mem_append_right _ List.mem_cons_self
    · split_ifs
      · exact List.mem_append_right _ (List.mem_cons_of_mem _ (ih hb))
      · exact ih hb

theorem splitGroups_of_not_preserve (hpreserve : ¬ config.preserveTables = true) :
    splitGroups config pending blocks = textGroups (pending ++ blocks) := by
  induction blocks generalizing pending with
  | nil => rw [splitGroups, List.append_nil]
  | cons block blocks ih =>
    rw [splitGroups, if_neg fun h => hpreserve h.1, ih, List.append_assoc]
    rfl

/-- the parts of a section -/
theorem fit_sectionGroups_iff (blocks : List ExtractedBlock) :
    (∀ g ∈ sectionGroups config blocks, ∀ r ∈ g.runs, r.Fits config) ↔
      (config.preserveTables = true → config.size < (joined blocks).tokens.length →
        ∀ b ∈ blocks, b.blockType = .table → TableFits config b) := by
  rw [sectionGroups]
  by_cases hne : blocks = []
  · simp [hne]
  by_cases hsize : (joined blocks).tokens.length ≤ config.size
  · rw [if_neg hne, if_pos hsize]
    refine ⟨fun _ _ hlong => absurd hsize (not_le.2 hlong), fun _ g hg r hr part hpart => ?_⟩
    rw [List.mem_singleton.1 hg] at hr
    rw [List.mem_singleton.1 hr] at hpart
    rw [List.mem_singleton.1 hpart]
    exact hsize
  rw [if_neg hne, if_neg hsize]
  constructor
  · intro h hpreserve _ b hb htype
    exact (fit_tableGroup_iff b).1 (h _ (tableGroup_mem_splitGroups hb hpreserve htype))
  · intro h g hg
    by_cases hpreserve : config.preserveTables = true
    · rcases mem_splitGroups hg with ⟨bs, -, -, rfl⟩ | ⟨b, hb, htype, rfl⟩
      · exact fit_text bs
      · exact (fit_tableGroup_iff b).2 (h hpreserve (not_le.1 hsize) b hb htype)
    · rw [splitGroups_of_not_preserve hpreserve, textGroups] at hg
      split_ifs at hg
      · cases hg
      · rw [List.mem_singleton.1 hg]
        exact fit_text _

end

/-- each table that the chunker splits between its rows fits -/
def ExtractedDocument.RowsFit (config : ChunkingConfig) (document : ExtractedDocument) : Prop :=
  config.preserveTables = true → ∀ s ∈ document.sections, config.size < (joined s.blocks).tokens.length →
    ∀ b ∈ s.blocks, b.blockType = .table → TableFits config b

/-- the bound on the drafts, by the emissions -/
theorem tokenCount_le_iff (config : ChunkingConfig) (languageCode : Option String) (es : List Emission) :
    (∀ d ∈ es.mapIdx (Emission.draft languageCode), (d.tokenCount : ℤ) ≤ config.maxTokens) ↔
      ∀ e ∈ es, e.content.tokens.length ≤ config.size := by
  simp only [config.le_size_iff]
  constructor
  · intro h e he
    obtain ⟨k, hk, rfl⟩ := List.mem_iff_getElem.1 he
    have hd : (es[k]).draft languageCode k ∈ es.mapIdx (Emission.draft languageCode) := List.mem_mapIdx.2 ⟨k, hk, rfl⟩
    simpa using h _ hd
  · intro h d hd
    obtain ⟨k, hk, rfl⟩ := List.mem_mapIdx.1 hd
    simpa using h _ (List.getElem_mem hk)

theorem heading_bound_iff (config : ChunkingConfig) (document : ExtractedDocument) :
    (∀ e ∈ headingEmissions config document, e.content.tokens.length ≤ config.size) ↔ document.RowsFit config := by
  have hsections : (∀ e ∈ headingEmissions config document, e.content.tokens.length ≤ config.size) ↔
      ∀ s ∈ document.sections, ∀ g ∈ sectionGroups config s.blocks, ∀ r ∈ g.runs, r.Fits config := by
    constructor
    · intro h s hs g hg r hr part hpart
      obtain ⟨e, he, rfl⟩ : ∃ e ∈ g.emissions config (titleAfter s.headings), e.content.tokens = part :=
        (mem_emissions_iff config).2 ⟨r, hr, hpart⟩
      exact h e (List.mem_flatMap.2 ⟨s, hs, List.mem_flatMap.2 ⟨g, hg, he⟩⟩)
    · intro h e he
      obtain ⟨s, hs, he⟩ := List.mem_flatMap.1 he
      obtain ⟨g, hg, he⟩ := List.mem_flatMap.1 he
      obtain ⟨r, hr, hpart⟩ := (mem_emissions_iff config).1 ⟨e, he, rfl⟩
      exact h s hs g hg r hr _ hpart
  rw [hsections]
  simp only [fit_sectionGroups_iff]
  exact ⟨fun h hpreserve s hs => h s hs hpreserve, fun h s hs hpreserve => h hpreserve s hs⟩

/-- **The bound** on all drafts of both chunkers: it holds iff the heading-aware chunker raises, or each table that it splits
between its rows has no row that is too long with the header after a row that is not. -/
theorem chunk_size_bound (config : ChunkingConfig) (languageCode : Option String) (document : ExtractedDocument) :
    ((∀ drafts, FixedTokenChunker.chunk whitespace config languageCode document = .ok drafts →
        ∀ d ∈ drafts, (d.tokenCount : ℤ) ≤ config.maxTokens) ∧
      ∀ drafts, HeadingAwareChunker.chunk whitespace config languageCode document = .ok drafts →
        ∀ d ∈ drafts, (d.tokenCount : ℤ) ≤ config.maxTokens) ↔
    (∃ p ∈ document.body, p.block.text.HasSurrogate) ∨ document.RowsFit config := by
  have hfixed : ∀ drafts, FixedTokenChunker.chunk whitespace config languageCode document = .ok drafts →
      ∀ d ∈ drafts, (d.tokenCount : ℤ) ≤ config.maxTokens := by
    intro drafts hchunk
    rw [fixed_chunk] at hchunk
    split_ifs at hchunk
    rw [← Except.ok.inj hchunk, tokenCount_le_iff]
    intro e he
    have hpart : e.content.tokens ∈ (fixedEmissions config document).map (·.content.tokens) := List.mem_map_of_mem he
    rw [tokens_fixedEmissions] at hpart
    exact (pieces_length hpart).2
  rw [heading_chunk]
  by_cases hsurrogate : ∃ p ∈ document.body, p.block.text.HasSurrogate
  · rw [if_pos hsurrogate]
    exact ⟨fun _ => .inl hsurrogate, fun _ => ⟨hfixed, fun drafts h => (by cases h)⟩⟩
  · rw [if_neg hsurrogate, ← heading_bound_iff, ← tokenCount_le_iff config languageCode]
    constructor
    · exact fun h => .inr (h.2 _ rfl)
    · intro h
      refine ⟨hfixed, fun drafts hdrafts => ?_⟩
      rw [← Except.ok.inj hdrafts]
      exact h.resolve_left hsurrogate

theorem fourTokens_pos : (0 : ℤ) < 4 := by decide

/-- four tokens a draft -/
def fourTokenConfig : ChunkingConfig :=
  { DEFAULT_CHUNKING_CONFIG with
    maxTokens := 4, overlapTokens := 1, maxTokens_pos := fourTokens_pos, overlapTokens_lt := by decide }

/-- a table with a short row and a long one -/
def shortThenLong : ExtractedDocument where
  blocks := [⟨str "|a|\n|-|\n|x|\n|y y y y y|", .table, none⟩]

/-- A draft of seven tokens, where four are allowed. -/
theorem oversized_row : ∃ drafts,
    HeadingAwareChunker.chunk whitespace fourTokenConfig none shortThenLong = .ok drafts ∧
      ∃ d ∈ drafts, fourTokenConfig.maxTokens < d.tokenCount ∧ d.tokenCount = 7 :=
  ⟨_, rfl, _, List.mem_cons_of_mem _ List.mem_cons_self, by decide, rfl⟩

end AtlasRag.Ingestion.Chunking
