/-
What the chunkers add, apart from how: runs of drafts, each from consecutive blocks.

A run is a section that fits, a text that is split, or a part of a markdown table with the header lines repeated; the parts
of one table are a group. The groups of a document are computed without drafts or errors; the chunkers add exactly the
contents of their runs, and raise only for a surrogate.

Results:
- `fixed_chunk_eq`, `heading_chunk_eq`: the chunkers add the emissions of the runs, in order;
- `blocks_sectionGroups`: the groups of a section cover its blocks, in order;
- `restored_of_mem`: without what its drafts repeat, a group has the tokens of its blocks.
-/
import AtlasRag.Ingestion.Chunking.Chunkers

namespace AtlasRag.Ingestion.Chunking

open AtlasRag.Platform AtlasRag.Lib.Windows AtlasRag.Lib.Words

/-- the arguments of `add` -/
structure Emission where
  content : Str
  blocks : List ExtractedBlock
  sectionTitle : Option Str
  contentType : ChunkContentType

inductive Run where
  /-- blocks that are not split -/
  | whole (blocks : List ExtractedBlock)
  /-- blocks that are split, with overlap -/
  | text (blocks : List ExtractedBlock)
  /-- rows of a table -/
  | rows (block : ExtractedBlock) (header rows : List Str)
  /-- a row of a table that is split -/
  | row (block : ExtractedBlock) (header : List Str) (row : Str)

namespace Run

variable (config : ChunkingConfig)

def blocks : Run → List ExtractedBlock
  | whole blocks | text blocks => blocks
  | rows block _ _ | row block _ _ => [block]

def type : Run → ChunkContentType
  | whole blocks | text blocks => contentType blocks
  | rows .. | row .. => .table

/-- the tokens of the contents -/
def parts : Run → List (List Str)
  | whole blocks => [(joined blocks).tokens]
  | text blocks => pieces config.size config.overlap config.overlap_lt_size (joined blocks).tokens
  | rows _ header rs => [(Str.join (str "\n") (header ++ rs)).tokens]
  | row _ header r => pieces config.size 0 config.size_pos (Str.join (str "\n") (header ++ [r])).tokens

def contents : Run → List Str
  | whole blocks => [joined blocks]
  | rows _ header rs => [Str.join (str "\n") (header ++ rs)]
  | r => (r.parts config).map (Str.join (str " "))

def emissions (sectionTitle : Option Str) (r : Run) : List Emission :=
  (r.contents config).map fun content => ⟨content, r.blocks, sectionTitle, r.type⟩

end Run

section

variable (config : ChunkingConfig)

/-- more tokens than a chunk takes -/
def TooLong (lines : List Str) : Prop := config.size < (Str.join (str "\n") lines).tokens.length

instance (lines : List Str) : Decidable (TooLong config lines) := inferInstanceAs (Decidable (_ < _))

/-- one run, or the runs of one table; `header` are its first two lines -/
inductive Group where
  | plain (run : Run)
  | table (block : ExtractedBlock) (header : List Str) (runs : List Run)

namespace Group

def runs : Group → List Run
  | plain run => [run]
  | table _ _ runs => runs

def blocks : Group → List ExtractedBlock
  | plain run => run.blocks
  | table block _ _ => [block]

end Group

def Group.emissions (sectionTitle : Option Str) (g : Group) : List Emission :=
  g.runs.flatMap (Run.emissions config sectionTitle)

def textGroups (blocks : List ExtractedBlock) : List Group := if blocks = [] then [] else [.plain (.text blocks)]

/-- the runs of the remaining rows; `currentRows` are collected -/
def rowRuns (block : ExtractedBlock) (header : List Str) : List Str → List Str → List Run
  | currentRows, [] => if currentRows = [] then [] else [.rows block header currentRows]
  | currentRows, row :: rows =>
    if TooLong config (header ++ currentRows ++ [row]) then
      if currentRows = [] then .row block header row :: rowRuns block header [] rows
      else .rows block header currentRows :: rowRuns block header [row] rows
    else rowRuns block header (currentRows ++ [row]) rows

/-- the lines of a table: the header and the rows -/
def tableLines (block : ExtractedBlock) : Option (List Str × List Str) :=
  match (block.text.splitlines.filter (·.strip ≠ [])).map Str.rstrip with
  | first :: second :: row :: rows => if isMarkdownTable first second then some ([first, second], row :: rows) else none
  | _ => none

def tableGroup (block : ExtractedBlock) : Group :=
  match tableLines block with
  | some (header, rows) => .table block header (rowRuns config block header [] rows)
  | none => .plain (.text [block])

/-- the groups of a section that is split; `pending` are collected -/
def splitGroups : List ExtractedBlock → List ExtractedBlock → List Group
  | pending, [] => textGroups pending
  | pending, block :: blocks =>
    if config.preserveTables ∧ block.blockType = .table then
      textGroups pending ++ tableGroup config block :: splitGroups [] blocks
    else splitGroups (pending ++ [block]) blocks

def sectionGroups (blocks : List ExtractedBlock) : List Group :=
  if blocks = [] then []
  else if (joined blocks).tokens.length ≤ config.size then [.plain (.whole blocks)]
  else splitGroups config [] blocks

end

/-! ## Sections -/

/-- the title that a heading gives -/
def ExtractedBlock.title (block : ExtractedBlock) : Option Str :=
  if block.text.strip = [] then none else some block.text.strip

/-- the title after these headings: that of the last -/
def titleAfter (headings : List ExtractedBlock) : Option Str := headings.getLast?.bind ExtractedBlock.title

/-- the blocks between two headings that are not blank, and the headings before them -/
structure Section where
  headings : List ExtractedBlock
  blocks : List ExtractedBlock

/-- the sections of the remaining blocks; `blocks` are collected -/
def sectionsFrom (headings blocks : List ExtractedBlock) : List ExtractedBlock → List Section
  | [] => [⟨headings, blocks⟩]
  | block :: rest =>
    if block.blockType = .heading then ⟨headings, blocks⟩ :: sectionsFrom (headings ++ [block]) [] rest
    else if block.text.strip ≠ [] then sectionsFrom headings (blocks ++ [block]) rest
    else sectionsFrom headings blocks rest

def ExtractedDocument.sections (document : ExtractedDocument) : List Section := sectionsFrom [] [] document.blocks

/-- a block of the body, and the headings before it -/
structure Placed where
  block : ExtractedBlock
  headings : List ExtractedBlock

/-- the stripped text of the nearest heading before the block -/
def Placed.title (p : Placed) : Option Str := titleAfter p.headings

def bodyFrom (headings : List ExtractedBlock) : List ExtractedBlock → List Placed
  | [] => []
  | block :: rest =>
    if block.blockType = .heading then bodyFrom (headings ++ [block]) rest
    else if block.text.strip ≠ [] then ⟨block, headings⟩ :: bodyFrom headings rest
    else bodyFrom headings rest

/-- the blocks that are neither headings nor blank -/
def ExtractedDocument.body (document : ExtractedDocument) : List Placed := bodyFrom [] document.blocks

def Section.placed (s : Section) : List Placed := s.blocks.map (⟨·, s.headings⟩)

def Section.emissions (config : ChunkingConfig) (s : Section) : List Emission :=
  (sectionGroups config s.blocks).flatMap (Group.emissions config (titleAfter s.headings))

/-- what the chunkers add -/
def headingEmissions (config : ChunkingConfig) (document : ExtractedDocument) : List Emission :=
  document.sections.flatMap (Section.emissions config)

def fixedEmissions (config : ChunkingConfig) (document : ExtractedDocument) : List Emission :=
  (textGroups (document.blocks.filter (·.text.strip ≠ []))).flatMap (Group.emissions config none)

/-! ## The chunkers add them -/

section

variable (config : ChunkingConfig) (languageCode : Option String)

abbrev whitespace : ReferenceTokenizer := WhitespaceReferenceTokenizer.tokenizer

def addEmission (drafts : List ChunkDraft) (e : Emission) : Except ValueError (List ChunkDraft) :=
  add whitespace languageCode drafts e.content e.blocks e.sectionTitle e.sectionTitle.toList e.contentType

def addAll (drafts : List ChunkDraft) (es : List Emission) : Except ValueError (List ChunkDraft) :=
  es.foldlM (addEmission languageCode) drafts

variable {config languageCode} {drafts : List ChunkDraft} {title : Option Str} {α : Type}

theorem ok_bind {β : Type} (ds : β) (f : β → Except ValueError α) : (Except.ok ds >>= f) = f ds := rfl

theorem addAll_append (es es' : List Emission) :
    addAll languageCode drafts (es ++ es') = addAll languageCode drafts es >>= fun ds => addAll languageCode ds es' :=
  List.foldlM_append

theorem split_config (text : Str) : whitespace.split text config.maxTokens config.overlapTokens =
    .ok ((pieces config.size config.overlap config.overlap_lt_size text.tokens).map (Str.join (str " "))) := by
  have hlt := config.overlapTokens_lt
  have hpos := config.maxTokens_pos
  refine split_eq text ?_ ?_ _
  · simp only [ChunkingConfig.size]
    omega
  · simp only [ChunkingConfig.overlap]
    omega

theorem split_config_zero (text : Str) : whitespace.split text config.maxTokens 0 =
    .ok ((pieces config.size 0 config.size_pos text.tokens).map (Str.join (str " "))) := by
  have hpos := config.maxTokens_pos
  refine split_eq text ?_ rfl _
  simp only [ChunkingConfig.size]
  omega

/-- the drafts of pieces -/
theorem foldlM_pieces (contents : List Str) (blocks : List ExtractedBlock) (type : ChunkContentType) :
    contents.foldlM (fun drafts piece => add whitespace languageCode drafts piece blocks title title.toList type) drafts =
      addAll languageCode drafts (contents.map fun content => ⟨content, blocks, title, type⟩) := by
  rw [addAll, List.foldlM_map]
  rfl

theorem emitTextBlocks_eq (blocks : List ExtractedBlock) :
    HeadingAwareChunker.emitTextBlocks whitespace config languageCode title title.toList drafts blocks =
      addAll languageCode drafts ((textGroups blocks).flatMap (Group.emissions config title)) := by
  rw [HeadingAwareChunker.emitTextBlocks, textGroups]
  split_ifs
  · rfl
  · rw [split_config, ok_bind, foldlM_pieces, List.flatMap_singleton, Group.emissions, Group.runs, List.flatMap_singleton]
    rfl

theorem count_gt_iff (lines : List Str) :
    config.maxTokens < whitespace.count (Str.join (str "\n") lines) ↔ TooLong config lines := by
  rw [TooLong, ← not_le, ← not_le, not_iff_not]
  exact (config.le_size_iff _).symm

/-- the loop over the rows, and what follows it -/
theorem emitRows_eq (block : ExtractedBlock) (header currentRows rows : List Str) :
    ((rows.foldlM (HeadingAwareChunker.emitRow whitespace config languageCode title title.toList block header)
        (drafts, currentRows)) >>= fun x =>
      if x.2 ≠ [] then
        add whitespace languageCode x.1 (Str.join (str "\n") (header ++ x.2)) [block] title title.toList .table
      else .ok x.1) =
    addAll languageCode drafts ((rowRuns config block header currentRows rows).flatMap (Run.emissions config title)) := by
  induction rows generalizing drafts currentRows with
  | nil =>
    show (if currentRows ≠ [] then _ else _) = _
    rw [rowRuns]
    by_cases hcur : currentRows = []
    · rw [if_neg (not_not.2 hcur), if_pos hcur]
      rfl
    · rw [if_pos hcur, if_neg hcur, List.flatMap_singleton]
      exact (bind_pure _).symm
  | cons row rows ih =>
    rw [List.foldlM_cons, HeadingAwareChunker.emitRow, rowRuns]
    simp only [count_gt_iff]
    by_cases hlong : TooLong config (header ++ currentRows ++ [row])
    · rw [if_pos hlong]
      by_cases hcur : currentRows = []
      · subst hcur
        rw [if_pos ⟨rfl, hlong⟩, if_pos rfl, List.flatMap_cons, addAll_append, split_config_zero, List.append_nil]
        simp only [bind_assoc, pure_bind]
        rw [ok_bind, foldlM_pieces]
        exact bind_congr fun ds => ih []
      · rw [if_neg hcur, if_neg fun h => hcur h.1, if_pos ⟨hcur, hlong⟩, List.flatMap_cons, addAll_append]
        simp only [bind_assoc, pure_bind]
        have hadd : addAll languageCode drafts (Run.emissions config title (.rows block header currentRows)) =
            add whitespace languageCode drafts (Str.join (str "\n") (header ++ currentRows)) [block] title title.toList .table :=
          bind_pure _
        rw [hadd]
        exact bind_congr fun ds => ih [row]
    · rw [if_neg hlong, if_neg fun h => hlong h.2, if_neg fun h => hlong h.2]
      exact ih _

theorem emitTable_eq (block : ExtractedBlock) :
    HeadingAwareChunker.emitTable whitespace config languageCode title title.toList drafts block =
      addAll languageCode drafts ((tableGroup config block).emissions config title) := by
  have htext : HeadingAwareChunker.emitTextBlocks whitespace config languageCode title title.toList drafts [block] =
      addAll languageCode drafts (Group.emissions config title (.plain (.text [block]))) := by
    rw [emitTextBlocks_eq, textGroups, if_neg (List.cons_ne_nil _ _), List.flatMap_singleton]
  rw [HeadingAwareChunker.emitTable, tableGroup, tableLines]
  generalize (block.text.splitlines.filter (·.strip ≠ [])).map Str.rstrip = lines
  rcases lines with _ | ⟨first, _ | ⟨second, _ | ⟨row, rows⟩⟩⟩
  · exact htext
  · exact htext
  · exact htext
  · dsimp only
    by_cases hmarkdown : isMarkdownTable first second = true
    · rw [if_pos hmarkdown, if_pos hmarkdown]
      exact emitRows_eq block _ [] _
    · rw [if_neg hmarkdown, if_neg hmarkdown]
      exact htext

/-- the loop over the blocks of a section, and what follows it -/
theorem emitBlocks_eq (pending blocks : List ExtractedBlock) :
    ((blocks.foldlM (HeadingAwareChunker.emitBlock whitespace config languageCode title title.toList) (drafts, pending)) >>=
      fun x => HeadingAwareChunker.emitTextBlocks whitespace config languageCode title title.toList x.1 x.2) =
    addAll languageCode drafts ((splitGroups config pending blocks).flatMap (Group.emissions config title)) := by
  induction blocks generalizing drafts pending with
  | nil => exact emitTextBlocks_eq pending
  | cons block blocks ih =>
    rw [List.foldlM_cons, HeadingAwareChunker.emitBlock, splitGroups]
    split_ifs
    · simp only [bind_assoc, pure_bind, List.flatMap_append, List.flatMap_cons, addAll_append]
      rw [emitTextBlocks_eq]
      refine bind_congr fun ds => ?_
      rw [emitTable_eq]
      exact bind_congr fun ds => ih []
    · exact ih _

theorem emitSection_eq (blocks : List ExtractedBlock) :
    HeadingAwareChunker.emitSection whitespace config languageCode title title.toList drafts blocks =
      addAll languageCode drafts ((sectionGroups config blocks).flatMap (Group.emissions config title)) := by
  rw [HeadingAwareChunker.emitSection, sectionGroups]
  by_cases hne : blocks = []
  · rw [if_pos hne, if_pos hne]
    rfl
  rw [if_neg hne, if_neg hne]
  by_cases hfits : (whitespace.count (joined blocks) : ℤ) ≤ config.maxTokens
  · have hsize : (joined blocks).tokens.length ≤ config.size := (config.le_size_iff _).2 hfits
    rw [if_pos hfits, if_pos hsize, List.flatMap_singleton]
    exact (bind_pure _).symm
  · have hsize : ¬ (joined blocks).tokens.length ≤ config.size := fun h => hfits ((config.le_size_iff _).1 h)
    rw [if_neg hfits, if_neg hsize]
    exact emitBlocks_eq [] blocks

theorem titleAfter_append (headings : List ExtractedBlock) (block : ExtractedBlock) :
    titleAfter (headings ++ [block]) = block.title := by
  rw [titleAfter, List.getLast?_concat]
  rfl

/-- the loop over the blocks of the document, and what follows it -/
theorem chunkBlocks_eq (headings sectionBlocks blocks : List ExtractedBlock) :
    ((blocks.foldlM (HeadingAwareChunker.chunkBlock whitespace config languageCode)
        ⟨drafts, sectionBlocks, titleAfter headings, (titleAfter headings).toList⟩) >>= fun s =>
      HeadingAwareChunker.emitSection whitespace config languageCode s.sectionTitle s.sectionPath s.drafts s.sectionBlocks) =
    addAll languageCode drafts ((sectionsFrom headings sectionBlocks blocks).flatMap (Section.emissions config)) := by
  induction blocks generalizing drafts headings sectionBlocks with
  | nil =>
    rw [sectionsFrom, List.flatMap_singleton]
    exact emitSection_eq sectionBlocks
  | cons block blocks ih =>
    rw [List.foldlM_cons, HeadingAwareChunker.chunkBlock, sectionsFrom]
    dsimp only
    rw [← ExtractedBlock.title, ← titleAfter_append headings block]
    by_cases hheading : block.blockType = .heading
    · rw [if_pos hheading, if_pos hheading, List.flatMap_cons, addAll_append, emitSection_eq]
      simp only [bind_assoc, pure_bind]
      exact bind_congr fun ds => ih _ _
    rw [if_neg hheading, if_neg hheading]
    by_cases hblank : block.text.strip ≠ []
    · rw [if_pos hblank, if_pos hblank]
      exact ih _ _
    · rw [if_neg hblank, if_neg hblank]
      exact ih _ _

/-- **`HeadingAwareChunker`** adds the emissions of its sections. -/
theorem heading_chunk_eq (document : ExtractedDocument) :
    HeadingAwareChunker.chunk whitespace config languageCode document =
      addAll languageCode [] (headingEmissions config document) := chunkBlocks_eq [] [] document.blocks

/-- **`FixedTokenChunker`** adds the pieces of one text. -/
theorem fixed_chunk_eq (document : ExtractedDocument) :
    FixedTokenChunker.chunk whitespace config languageCode document =
      addAll languageCode [] (fixedEmissions config document) := by
  show HeadingAwareChunker.emitTextBlocks whitespace config languageCode none (none : Option Str).toList [] _ = _
  exact emitTextBlocks_eq (document.blocks.filter (·.text.strip ≠ []))

end

/-! ## The tokens of runs and groups -/

section

variable {config : ChunkingConfig} {block : ExtractedBlock} {blocks pending : List ExtractedBlock} {header lines rows : List Str}

theorem newline_separates : Separates CodePoint.isSpace (str "\n") := by unfold Separates; decide

theorem tokens_lines (lines : List Str) : (Str.join (str "\n") lines).tokens = lines.flatMap Str.tokens :=
  Str.tokens_join (by decide) newline_separates lines

theorem tokens_joined (blocks : List ExtractedBlock) : (joined blocks).tokens = blocks.flatMap (·.text.tokens) := by
  have hsep : Separates CodePoint.isSpace (str "\n\n") := by unfold Separates; decide
  rw [joined, Str.tokens_join (by decide) hsep, List.flatMap_map]
  simp only [Str.tokens_strip]

theorem tooLong_iff : TooLong config lines ↔ config.size < (lines.flatMap Str.tokens).length := by
  rw [TooLong, tokens_lines]

/-- the contents have the tokens of the parts -/
theorem tokens_contents (r : Run) : (r.contents config).map Str.tokens = r.parts config := by
  have hpieces : ∀ ps : List (List Str), (∀ p ∈ ps, (Str.join (str " ") p).tokens = p) →
      (ps.map (Str.join (str " "))).map Str.tokens = ps := by
    intro ps h
    rw [List.map_map]
    exact (List.map_congr_left h).trans (List.map_id ps)
  cases r with
  | whole blocks => rfl
  | rows block header rows => rfl
  | text blocks => exact hpieces _ fun p hp => tokens_of_window hp
  | row block header row => exact hpieces _ fun p hp => tokens_of_window hp

/-- the lines of a table are its tokens -/
theorem tokens_tableLines (h : tableLines block = some (header, rows)) :
    header.flatMap Str.tokens ++ rows.flatMap Str.tokens = block.text.tokens ∧ header.flatMap Str.tokens ≠ [] ∧ rows ≠ [] := by
  have htokens : ((block.text.splitlines.filter (·.strip ≠ [])).map Str.rstrip).flatMap Str.tokens = block.text.tokens := by
    rw [← Str.tokens_splitlines block.text, List.flatMap_map]
    simp only [Str.tokens_rstrip]
    induction block.text.splitlines with
    | nil => rfl
    | cons line lines ih =>
      by_cases hline : line.strip = []
      · rw [List.filter_cons_of_neg (by simpa using hline), ih, List.flatMap_cons, Str.tokens_eq_nil.2 hline, List.nil_append]
      · rw [List.filter_cons_of_pos (by simpa using hline), List.flatMap_cons, List.flatMap_cons, ih]
  have hfirst : ∀ line ∈ (block.text.splitlines.filter (·.strip ≠ [])).map Str.rstrip, line.tokens ≠ [] := by
    intro line hline
    obtain ⟨l, hl, rfl⟩ := List.mem_map.1 hline
    rw [Str.tokens_rstrip]
    exact fun hnil => of_decide_eq_true (List.mem_filter.1 hl).2 (Str.tokens_eq_nil.1 hnil)
  rw [tableLines] at h
  split at h
  · rename_i first second row rest hlines
    split_ifs at h
    obtain ⟨rfl, rfl⟩ := Prod.mk.inj (Option.some.inj h)
    rw [hlines] at htokens hfirst
    refine ⟨by rw [← htokens]; simp, ?_, List.cons_ne_nil _ _⟩
    rw [List.flatMap_cons]
    exact fun hnil => hfirst first List.mem_cons_self (List.append_eq_nil_iff.1 hnil).1
  · cases h

/-- the rows of a run of a table -/
def Run.rowLines : Run → List Str
  | .rows _ _ rs => rs
  | .row _ _ r => [r]
  | _ => []

/-- what the runs of a table are -/
theorem mem_rowRuns {currentRows : List Str} {r : Run} (hr : r ∈ rowRuns config block header currentRows rows) :
    (∃ rs, r = .rows block header rs) ∨ ∃ row ∈ rows, r = .row block header row := by
  induction rows generalizing currentRows with
  | nil =>
    rw [rowRuns] at hr
    split_ifs at hr
    · cases hr
    · exact .inl ⟨currentRows, List.mem_singleton.1 hr⟩
  | cons row rows ih =>
    have hrest : ∀ {currentRows}, r ∈ rowRuns config block header currentRows rows →
        (∃ rs, r = .rows block header rs) ∨ ∃ row' ∈ row :: rows, r = .row block header row' := by
      intro currentRows hr
      rcases ih hr with h | ⟨row', hmem, h⟩
      · exact .inl h
      · exact .inr ⟨row', List.mem_cons_of_mem _ hmem, h⟩
    rw [rowRuns] at hr
    split_ifs at hr
    · rcases List.mem_cons.1 hr with h | hr
      · exact .inr ⟨row, List.mem_cons_self, h⟩
      · exact hrest hr
    · rcases List.mem_cons.1 hr with h | hr
      · exact .inl ⟨currentRows, h⟩
      · exact hrest hr
    · exact hrest hr

theorem flatten_pieces_zero (ts : List Str) : (pieces config.size 0 config.size_pos ts).flatten = ts := by
  rw [pieces]
  split_ifs with hne
  · exact hne.symm
  · rw [← merge_zero, windows_merge]

/-- a run of a table: the header and its rows -/
theorem parts_of_rowRuns {currentRows : List Str} {r : Run} (hr : r ∈ rowRuns config block header currentRows rows) :
    (r.parts config).flatten = header.flatMap Str.tokens ++ r.rowLines.flatMap Str.tokens ∧
      r.blocks = [block] ∧ r.type = .table := by
  rcases mem_rowRuns hr with ⟨rs, rfl⟩ | ⟨row, -, rfl⟩
  · refine ⟨?_, rfl, rfl⟩
    rw [Run.parts, tokens_lines, List.flatMap_append]
    exact List.append_nil _
  · refine ⟨?_, rfl, rfl⟩
    rw [Run.parts, flatten_pieces_zero, tokens_lines, List.flatMap_append]
    rfl

/-- **The rows** are taken over one by one. -/
theorem rowLines_rowRuns (currentRows rows : List Str) :
    (rowRuns config block header currentRows rows).flatMap Run.rowLines = currentRows ++ rows := by
  induction rows generalizing currentRows with
  | nil =>
    rw [rowRuns, List.append_nil]
    split_ifs with h
    · exact h.symm
    · exact List.append_nil _
  | cons row rows ih =>
    rw [rowRuns]
    split_ifs with hlong hcur
    · subst hcur
      rw [List.flatMap_cons, ih]
      rfl
    · rw [List.flatMap_cons, ih]
      rfl
    · rw [ih, List.append_assoc]
      rfl

/-- where a group of a split section comes from -/
theorem mem_splitGroups {g : Group} (hg : g ∈ splitGroups config pending blocks) :
    (∃ bs, bs ≠ [] ∧ (∀ b ∈ bs, b ∈ pending ++ blocks) ∧ g = .plain (.text bs)) ∨
      ∃ b ∈ blocks, b.blockType = .table ∧ g = tableGroup config b := by
  have htext : ∀ pending : List ExtractedBlock, g ∈ textGroups pending → pending ≠ [] ∧ g = .plain (.text pending) := by
    intro pending hg
    rw [textGroups] at hg
    split_ifs at hg with hne
    · cases hg
    · exact ⟨hne, List.mem_singleton.1 hg⟩
  induction blocks generalizing pending with
  | nil => exact .inl ⟨pending, (htext pending hg).1, fun b hb => List.mem_append_left _ hb, (htext pending hg).2⟩
  | cons block blocks ih =>
    rw [splitGroups] at hg
    split_ifs at hg with htable
    · rcases List.mem_append.1 hg with hg | hg
      · exact .inl ⟨pending, (htext pending hg).1, fun b hb => List.mem_append_left _ hb, (htext pending hg).2⟩
      rcases List.mem_cons.1 hg with rfl | hg
      · exact .inr ⟨block, List.mem_cons_self, htable.2, rfl⟩
      · rcases ih hg with ⟨bs, hne, hbs, rfl⟩ | ⟨b, hb, htype, rfl⟩
        · exact .inl ⟨bs, hne, fun b hb => List.mem_append_right _ (List.mem_cons_of_mem _ (hbs b hb)), rfl⟩
        · exact .inr ⟨b, List.mem_cons_of_mem _ hb, htype, rfl⟩
    · rcases ih hg with ⟨bs, hne, hbs, rfl⟩ | ⟨b, hb, htype, rfl⟩
      · exact .inl ⟨bs, hne, fun b hb => by simpa using hbs b hb, rfl⟩
      · exact .inr ⟨b, List.mem_cons_of_mem _ hb, htype, rfl⟩

theorem blocks_tableGroup (b : ExtractedBlock) : (tableGroup config b).blocks = [b] := by
  rw [tableGroup]
  split
  · rfl
  · rfl

/-- **The groups** of a section cover its blocks, in order. -/
theorem blocks_splitGroups (pending blocks : List ExtractedBlock) :
    (splitGroups config pending blocks).flatMap Group.blocks = pending ++ blocks := by
  have htext : ∀ pending, (textGroups pending).flatMap Group.blocks = pending := by
    intro pending
    rw [textGroups]
    split_ifs with h
    · exact h.symm
    · exact List.append_nil _
  induction blocks generalizing pending with
  | nil => rw [splitGroups, htext, List.append_nil]
  | cons block blocks ih =>
    rw [splitGroups]
    split_ifs
    · rw [List.flatMap_append, htext, List.flatMap_cons, blocks_tableGroup, ih]
      rfl
    · rw [ih, List.append_assoc]
      rfl

theorem blocks_sectionGroups (blocks : List ExtractedBlock) :
    (sectionGroups config blocks).flatMap Group.blocks = blocks := by
  rw [sectionGroups]
  split_ifs with hne
  · exact hne.symm
  · exact List.append_nil _
  · exact blocks_splitGroups [] blocks

/-- the tokens of a group, without what its drafts repeat -/
def Group.restored (config : ChunkingConfig) : Group → List Str
  | .plain run => merge config.overlap (run.parts config)
  | .table _ header runs => merge (header.flatMap Str.tokens).length (runs.map fun r => (r.parts config).flatten)

theorem merge_pieces (ts : List Str) : merge config.overlap (pieces config.size config.overlap config.overlap_lt_size ts) = ts := by
  rw [pieces]
  split_ifs with hne
  · exact hne.symm
  · exact windows_merge

theorem restored_text (blocks : List ExtractedBlock) :
    (Group.plain (.text blocks)).restored config = blocks.flatMap (·.text.tokens) := by
  rw [Group.restored, Run.parts, merge_pieces, tokens_joined]

theorem restored_tableGroup (b : ExtractedBlock) : (tableGroup config b).restored config = b.text.tokens := by
  rw [tableGroup]
  split
  · rename_i header rows hlines
    obtain ⟨htokens, -, hrows⟩ := tokens_tableLines hlines
    have hruns : rowRuns config b header [] rows ≠ [] := by
      intro hnil
      have hlost : (rowRuns config b header [] rows).flatMap Run.rowLines = [] ++ rows := rowLines_rowRuns [] rows
      rw [hnil] at hlost
      exact hrows hlost.symm
    have hparts : (rowRuns config b header [] rows).map (fun r => (r.parts config).flatten) =
        (rowRuns config b header [] rows).map fun r => header.flatMap Str.tokens ++ r.rowLines.flatMap Str.tokens :=
      List.map_congr_left fun r hr => (parts_of_rowRuns hr).1
    rw [Group.restored, hparts, merge_prefix hruns, ← List.flatMap_assoc, rowLines_rowRuns, List.nil_append, htokens]
  · rw [restored_text, List.flatMap_singleton]

/-- A group restores the tokens of its blocks. -/
theorem restored_of_mem {g : Group} (hg : g ∈ sectionGroups config blocks) :
    g.restored config = g.blocks.flatMap (·.text.tokens) := by
  rw [sectionGroups] at hg
  split_ifs at hg
  · cases hg
  · rw [List.mem_singleton.1 hg, Group.restored, Run.parts, merge, tokens_joined]
    exact List.append_nil _
  · rcases mem_splitGroups hg with ⟨bs, -, -, rfl⟩ | ⟨b, -, -, rfl⟩
    · exact restored_text bs
    · rw [restored_tableGroup, blocks_tableGroup, List.flatMap_singleton]

/-- no part is empty -/
theorem part_ne_nil (hblocks : ∀ b ∈ blocks, b.text.strip ≠ []) {g : Group} (hg : g ∈ sectionGroups config blocks) {r : Run}
    (hr : r ∈ g.runs) {part : List Str} (hpart : part ∈ r.parts config) : part ≠ [] := by
  have htext : ∀ bs, r ∈ (Group.plain (.text bs)).runs → part ≠ [] := by
    intro bs hr
    rw [List.mem_singleton.1 hr] at hpart
    exact (pieces_length hpart).1
  rw [sectionGroups] at hg
  split_ifs at hg with hne
  · cases hg
  · rw [List.mem_singleton.1 hg] at hr
    rw [List.mem_singleton.1 hr] at hpart
    rw [List.mem_singleton.1 hpart, tokens_joined]
    obtain ⟨b, bs, rfl⟩ := List.exists_cons_of_ne_nil hne
    rw [List.flatMap_cons]
    exact fun hnil => hblocks b List.mem_cons_self (Str.tokens_eq_nil.1 (List.append_eq_nil_iff.1 hnil).1)
  · rcases mem_splitGroups hg with ⟨bs, -, -, rfl⟩ | ⟨b, -, -, rfl⟩
    · exact htext bs hr
    · rw [tableGroup] at hr
      split at hr
      · rename_i header rows hlines
        have hheader := (tokens_tableLines hlines).2.1
        rcases mem_rowRuns hr with ⟨rs, rfl⟩ | ⟨row, -, rfl⟩
        · rw [List.mem_singleton.1 hpart, tokens_lines, List.flatMap_append]
          exact fun hnil => hheader (List.append_eq_nil_iff.1 hnil).1
        · exact (pieces_length hpart).1
      · exact htext _ hr

end

end AtlasRag.Ingestion.Chunking
