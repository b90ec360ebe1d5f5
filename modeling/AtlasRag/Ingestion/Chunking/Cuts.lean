/-
What becomes of the body of a document in `HeadingAwareChunker`: its blocks are cut into runs of consecutive blocks of one
section, and each run into drafts.

A cut is exact: without what its drafts repeat of each other they have the tokens of its blocks, in order, each once. Its
drafts have the title of the section and the page range and content type of all its blocks, also where a draft holds
tokens of only some of them.

Results:
- `heading_cuts`: the drafts are those of exact cuts that cover the body, in order;
- `body_kept`: so no text is lost, doubled, moved or put under another title;
- `provenance_of_runs`: a draft has the pages and the type of its run;
- `titled`: the titles of the drafts are those of the headings with a block of their own.
-/
import AtlasRag.Ingestion.Chunking.Drafts
import Mathlib

namespace AtlasRag.Ingestion.Chunking

open AtlasRag.Platform AtlasRag.Lib.Windows

/-- drafts that are cut from consecutive blocks of the body -/
inductive Cut where
  /-- a run of blocks, as a whole or in windows -/
  | run (blocks : List Placed) (drafts : List ChunkDraft)
  /-- a table whose parts each start with the tokens of its header; a part may be several drafts -/
  | table (block : Placed) (header : List Str) (parts : List (List ChunkDraft))

namespace Cut

def blocks : Cut → List Placed
  | run blocks _ => blocks
  | table block _ _ => [block]

def drafts : Cut → List ChunkDraft
  | run _ drafts => drafts
  | table _ _ parts => parts.flatten

/-- the tokens, without the overlap prefix of each later window and each later repetition of the header -/
def restored (overlap : ℕ) : Cut → List Str
  | run _ drafts => merge overlap (drafts.map (·.content.tokens))
  | table _ header parts => merge header.length (parts.map fun part => part.flatMap (·.content.tokens))

/-- what `restored` leaves out is a repetition: of the end of the window before, or of the two header lines -/
def Repeats (overlap : ℕ) : Cut → Prop
  | run _ drafts => (drafts.map (·.content.tokens)).IsChain (Follows overlap)
  | table block header parts =>
    (∃ lines rows, tableLines block.block = some (lines, rows) ∧ header = lines.flatMap Str.tokens) ∧
      ∀ part ∈ parts, header <+: part.flatMap (·.content.tokens)

/-- each of its blocks in full, once, and nothing else -/
structure Exact (config : ChunkingConfig) (cut : Cut) : Prop where
  blocks_ne_nil : cut.blocks ≠ []
  restored : cut.restored config.overlap = cut.blocks.flatMap (·.block.text.tokens)
  repeats : cut.Repeats config.overlap
  one_section : ∀ p ∈ cut.blocks, ∀ q ∈ cut.blocks, p.headings = q.headings
  title : ∀ d ∈ cut.drafts, ∀ p ∈ cut.blocks, d.sectionTitle = p.title
  tokens : ∀ d ∈ cut.drafts, ∀ t ∈ d.content.tokens, ∃ p ∈ cut.blocks, t ∈ p.block.text.tokens

end Cut

/-- the pages and the type of a draft are those of these blocks -/
structure ChunkDraft.From (d : ChunkDraft) (blocks : List ExtractedBlock) : Prop where
  pageStart : d.pageStart = (blocks.filterMap (·.pageNumber)).min?
  pageEnd : d.pageEnd = (blocks.filterMap (·.pageNumber)).max?
  contentType : d.contentType = Chunking.contentType blocks

/-! ## The cut of a group -/

section

variable {config : ChunkingConfig} {languageCode : Option String} {blocks : List ExtractedBlock} {title : Option Str}

/-- the drafts of emissions, numbered from `k` -/
def numbered (languageCode : Option String) (k : ℕ) (es : List Emission) : List ChunkDraft :=
  es.mapIdx fun i => Emission.draft languageCode (k + i)

theorem numbered_append (k : ℕ) (es es' : List Emission) :
    numbered languageCode k (es ++ es') = numbered languageCode k es ++ numbered languageCode (k + es.length) es' := by
  simp [numbered, List.mapIdx_append, Nat.add_comm, Nat.add_left_comm]

theorem tokens_numbered (k : ℕ) (es : List Emission) :
    (numbered languageCode k es).map (·.content.tokens) = es.map (·.content.tokens) := by
  apply List.ext_getElem
  · simp [numbered]
  · intro i hi hi'
    simp [numbered]

theorem mem_numbered {k : ℕ} {es : List Emission} {d : ChunkDraft} (hd : d ∈ numbered languageCode k es) :
    ∃ e ∈ es, ∃ i, d = e.draft languageCode i := by
  obtain ⟨i, hi, rfl⟩ := List.mem_mapIdx.1 hd
  exact ⟨es[i], List.getElem_mem hi, k + i, rfl⟩

/-- the drafts of runs, run by run -/
theorem exists_parts (runs : List Run) (k : ℕ) : ∃ parts : List (List ChunkDraft),
    parts.flatten = numbered languageCode k (runs.flatMap (Run.emissions config title)) ∧
      parts.map (fun part => part.flatMap (·.content.tokens)) = runs.map fun r => (r.parts config).flatten := by
  induction runs generalizing k with
  | nil => exact ⟨[], rfl, rfl⟩
  | cons r runs ih =>
    obtain ⟨parts, hflatten, htokens⟩ := ih (k + (r.emissions config title).length)
    refine ⟨numbered languageCode k (r.emissions config title) :: parts, ?_, ?_⟩
    · rw [List.flatten_cons, hflatten, List.flatMap_cons, numbered_append]
    · rw [List.map_cons, List.map_cons, htokens]
      congr 1
      rw [List.flatMap_def, tokens_numbered, Run.emissions, List.map_map]
      exact congrArg List.flatten (tokens_contents r)

/-- what an emission of a group is from -/
theorem blocks_of_mem_emissions {g : Group} (hg : g ∈ sectionGroups config blocks) {e : Emission}
    (he : e ∈ g.emissions config title) :
    e.blocks = g.blocks ∧ e.contentType = contentType g.blocks ∧ e.sectionTitle = title := by
  obtain ⟨r, hr, he⟩ := List.mem_flatMap.1 he
  obtain ⟨content, hcontent, rfl⟩ := List.mem_map.1 he
  have hplain : ∀ run : Run, run.type = contentType run.blocks → r ∈ (Group.plain run).runs →
      r.blocks = run.blocks ∧ r.type = contentType run.blocks := by
    intro run htype hr
    rw [List.mem_singleton.1 hr]
    exact ⟨rfl, htype⟩
  suffices h : r.blocks = g.blocks ∧ r.type = contentType g.blocks from ⟨h.1, h.2, rfl⟩
  rw [sectionGroups] at hg
  split_ifs at hg
  · cases hg
  · rw [List.mem_singleton.1 hg] at hr ⊢
    exact hplain _ rfl hr
  · rcases mem_splitGroups hg with ⟨bs, -, -, rfl⟩ | ⟨b, -, htype, rfl⟩
    · exact hplain _ rfl hr
    · rw [blocks_tableGroup]
      rw [tableGroup] at hr
      split at hr
      · obtain ⟨-, hblocks, hr⟩ := parts_of_rowRuns hr
        refine ⟨hblocks, hr.trans ?_⟩
        simp [contentType, htype]
      · exact hplain _ rfl hr

theorem blocks_ne_nil_of_mem {g : Group} (hg : g ∈ sectionGroups config blocks) : g.blocks ≠ [] := by
  rw [sectionGroups] at hg
  split_ifs at hg with hne
  · cases hg
  · rw [List.mem_singleton.1 hg]
    exact hne
  · rcases mem_splitGroups hg with ⟨bs, hbs, -, rfl⟩ | ⟨b, -, -, rfl⟩
    · exact hbs
    · rw [blocks_tableGroup]
      exact List.cons_ne_nil b []

/-- the windows of a run without a table -/
theorem chain_of_plain {run : Run} (hg : Group.plain run ∈ sectionGroups config blocks) :
    (run.parts config).IsChain (Follows config.overlap) := by
  rw [sectionGroups] at hg
  split_ifs at hg
  · cases hg
  · cases List.mem_singleton.1 hg
    exact List.isChain_singleton _
  · rcases mem_splitGroups hg with ⟨bs, -, -, h⟩ | ⟨b, -, -, h⟩
    · cases h
      exact pieces_chain config _
    · rw [tableGroup] at h
      split at h
      · cases h
      · cases h
        exact pieces_chain config _

/-- the header and the runs of a table -/
theorem runs_of_table {block : ExtractedBlock} {header : List Str} {runs : List Run}
    (hg : Group.table block header runs ∈ sectionGroups config blocks) :
    ∃ rows, tableLines block = some (header, rows) ∧ runs = rowRuns config block header [] rows := by
  rw [sectionGroups] at hg
  split_ifs at hg
  · cases hg
  · cases List.mem_singleton.1 hg
  · rcases mem_splitGroups hg with ⟨bs, -, -, h⟩ | ⟨b, -, -, h⟩
    · cases h
    · rw [tableGroup] at h
      split at h
      · rename_i lines rows hlines
        cases h
        exact ⟨rows, hlines, rfl⟩
      · cases h

/-- a cut with the drafts and the blocks of a group -/
theorem exact_of_group {s : Section} {g : Group} (hg : g ∈ sectionGroups config s.blocks) {k : ℕ} {cut : Cut}
    (hdrafts : cut.drafts = numbered languageCode k (g.emissions config (titleAfter s.headings)))
    (hblocks : cut.blocks = g.blocks.map (⟨·, s.headings⟩))
    (hrestored : cut.restored config.overlap = g.restored config) (hrepeats : cut.Repeats config.overlap) :
    cut.Exact config ∧ ∀ d ∈ cut.drafts, d.From (cut.blocks.map (·.block)) := by
  have hplain : cut.blocks.map (·.block) = g.blocks := by
    rw [hblocks, List.map_map]
    exact List.map_id g.blocks
  have hheadings : ∀ p ∈ cut.blocks, p.headings = s.headings := by
    intro p hp
    rw [hblocks] at hp
    obtain ⟨b, -, rfl⟩ := List.mem_map.1 hp
    rfl
  refine ⟨⟨?_, ?_, hrepeats, ?_, ?_, ?_⟩, ?_⟩
  · rw [hblocks]
    exact fun hnil => blocks_ne_nil_of_mem hg (List.map_eq_nil_iff.1 hnil)
  · rw [hrestored, restored_of_mem hg, ← hplain, List.flatMap_map]
  · intro p hp q hq
    rw [hheadings p hp, hheadings q hq]
  · intro d hd p hp
    rw [hdrafts] at hd
    obtain ⟨e, he, i, rfl⟩ := mem_numbered hd
    rw [Placed.title, hheadings p hp]
    exact (blocks_of_mem_emissions hg he).2.2
  · intro d hd t ht
    rw [hdrafts] at hd
    obtain ⟨e, he, i, rfl⟩ := mem_numbered hd
    rw [Emission.draft_tokens] at ht
    obtain ⟨r, hr, hpart⟩ := (mem_emissions_iff config).1 ⟨e, he, rfl⟩
    obtain ⟨b, hb, ht⟩ := mem_of_mem_part config hg hr hpart ht
    refine ⟨⟨b, s.headings⟩, ?_, ht⟩
    rw [hblocks]
    exact List.mem_map_of_mem hb
  · intro d hd
    rw [hdrafts] at hd
    obtain ⟨e, he, i, rfl⟩ := mem_numbered hd
    obtain ⟨heblocks, hetype, -⟩ := blocks_of_mem_emissions hg he
    rw [hplain, ← heblocks]
    exact ⟨rfl, rfl, by rw [heblocks]; exact hetype⟩

/-- The drafts of a group are a cut of its blocks, under the headings of its section. -/
theorem exists_cut {s : Section} {g : Group} (hg : g ∈ sectionGroups config s.blocks) (k : ℕ) : ∃ cut : Cut,
    cut.drafts = numbered languageCode k (g.emissions config (titleAfter s.headings)) ∧
      cut.blocks = g.blocks.map (⟨·, s.headings⟩) ∧
      cut.Exact config ∧ ∀ d ∈ cut.drafts, d.From (cut.blocks.map (·.block)) := by
  cases g with
  | plain run =>
    have htokens : (numbered languageCode k ((Group.plain run).emissions config (titleAfter s.headings))).map
        (·.content.tokens) = run.parts config := by
      rw [tokens_numbered, tokens_emissions, Group.runs, List.flatMap_singleton]
    refine ⟨.run (run.blocks.map (⟨·, s.headings⟩))
      (numbered languageCode k ((Group.plain run).emissions config (titleAfter s.headings))), rfl, rfl,
      exact_of_group hg rfl rfl ?_ ?_⟩
    · rw [Cut.restored, htokens, Group.restored]
    · rw [Cut.Repeats, htokens]
      exact chain_of_plain hg
  | table block header runs =>
    obtain ⟨rows, hlines, hruns⟩ := runs_of_table hg
    obtain ⟨parts, hflatten, htokens⟩ := @exists_parts config languageCode (titleAfter s.headings) runs k
    refine ⟨.table ⟨block, s.headings⟩ (header.flatMap Str.tokens) parts, hflatten, rfl,
      exact_of_group hg hflatten rfl ?_ ⟨⟨header, rows, hlines, rfl⟩, ?_⟩⟩
    · rw [Cut.restored, htokens, Group.restored]
    · intro part hpart
      have hwhole : part.flatMap (·.content.tokens) ∈ runs.map fun r => (r.parts config).flatten := by
        rw [← htokens]
        exact List.mem_map_of_mem hpart
      obtain ⟨r, hr, hwhole⟩ := List.mem_map.1 hwhole
      rw [hruns] at hr
      rw [← hwhole, (parts_of_rowRuns hr).1]
      exact List.prefix_append _ _

/-! ## The cuts of a document -/

/-- the blocks of a run of a section, by the types of its blocks: a section that fits is one run, a table that is kept
apart is one, and so are the blocks between two such tables -/
def runBlocks (config : ChunkingConfig) (blocks : List ExtractedBlock) : List (List ExtractedBlock) :=
  if blocks = [] then []
  else if (joined blocks).tokens.length ≤ config.size then [blocks]
  else
    let isApart (b : ExtractedBlock) : Bool := config.preserveTables ∧ b.blockType = .table
    blocks.splitBy fun a b => !isApart a && !isApart b

theorem map_blocks_splitGroups {isApart : ExtractedBlock → Bool}
    (happart : ∀ b, isApart b = true ↔ config.preserveTables ∧ b.blockType = .table) {pending : List ExtractedBlock}
    (hpending : ∀ b ∈ pending, isApart b = false) (blocks : List ExtractedBlock) :
    (splitGroups config pending blocks).map Group.blocks =
      (pending ++ blocks).splitBy fun a b => !isApart a && !isApart b := by
  have htext : ∀ pending : List ExtractedBlock, (∀ b ∈ pending, isApart b = false) →
      (textGroups pending).map Group.blocks = pending.splitBy fun a b => !isApart a && !isApart b := by
    intro pending hpending
    rw [textGroups]
    split_ifs with hne
    · rw [hne]
      rfl
    · refine (List.splitBy_of_isChain hne ?_).symm
      refine List.Pairwise.isChain (List.pairwise_of_forall_mem_list ?_)
      intro a ha b hb
      simp [hpending a ha, hpending b hb]
  induction blocks generalizing pending with
  | nil => rw [splitGroups, List.append_nil, htext pending hpending]
  | cons block blocks ih =>
    rw [splitGroups]
    by_cases hblock : isApart block = true
    · have hbefore : (pending ++ block :: blocks).splitBy (fun a b => !isApart a && !isApart b) =
          (pending.splitBy fun a b => !isApart a && !isApart b) ++
            (block :: blocks).splitBy fun a b => !isApart a && !isApart b := by
        apply List.splitBy_append
        intro a _ b hb
        rw [List.head?_cons, Option.mem_some_iff] at hb
        simp [← hb, hblock]
      have hafter : ([block] ++ blocks).splitBy (fun a b => !isApart a && !isApart b) =
          ([block].splitBy fun a b => !isApart a && !isApart b) ++
            blocks.splitBy fun a b => !isApart a && !isApart b := by
        apply List.splitBy_append
        intro a ha b _
        rw [List.getLast?_singleton, Option.mem_some_iff] at ha
        simp [← ha, hblock]
      rw [if_pos ((happart block).1 hblock), List.map_append, htext pending hpending, List.map_cons, blocks_tableGroup,
        ih fun b hb => absurd hb List.not_mem_nil, List.nil_append, hbefore]
      exact congrArg _ hafter.symm
    · rw [if_neg fun h => hblock ((happart block).2 h), ih, List.append_assoc]
      · rfl
      · intro b hb
        rcases List.mem_append.1 hb with hb | hb
        · exact hpending b hb
        · rw [List.mem_singleton.1 hb]
          exact Bool.eq_false_iff.2 hblock

/-- the groups of a section are its runs -/
theorem map_blocks_sectionGroups (blocks : List ExtractedBlock) :
    (sectionGroups config blocks).map Group.blocks = runBlocks config blocks := by
  rw [sectionGroups, runBlocks]
  split_ifs
  · rfl
  · rfl
  · exact map_blocks_splitGroups (fun b => by simp) (fun b hb => absurd hb List.not_mem_nil) blocks

/-- the groups of sections, one cut each -/
theorem exists_cuts (sections : List Section) (k : ℕ) : ∃ cuts : List Cut,
    cuts.flatMap Cut.drafts = numbered languageCode k (sections.flatMap (Section.emissions config)) ∧
      cuts.flatMap Cut.blocks = sections.flatMap Section.placed ∧
      cuts.map (fun cut => cut.blocks.map (·.block)) = sections.flatMap (fun s => runBlocks config s.blocks) ∧
      ∀ cut ∈ cuts, cut.Exact config ∧ ∀ d ∈ cut.drafts, d.From (cut.blocks.map (·.block)) := by
  have hsection : ∀ (s : Section) (groups : List Group), (∀ g ∈ groups, g ∈ sectionGroups config s.blocks) → ∀ k,
      ∃ cuts : List Cut,
        cuts.flatMap Cut.drafts =
          numbered languageCode k (groups.flatMap (Group.emissions config (titleAfter s.headings))) ∧
        cuts.map Cut.blocks = groups.map (fun g => g.blocks.map (⟨·, s.headings⟩)) ∧
        ∀ cut ∈ cuts, cut.Exact config ∧ ∀ d ∈ cut.drafts, d.From (cut.blocks.map (·.block)) := by
    intro s groups
    induction groups with
    | nil =>
      intro _ k
      exact ⟨[], rfl, rfl, fun cut hcut => absurd hcut List.not_mem_nil⟩
    | cons g groups ih =>
      intro hmem k
      obtain ⟨cut, hdrafts, hblocks, hexact⟩ := @exists_cut config languageCode s g (hmem g List.mem_cons_self) k
      obtain ⟨cuts, hrest, hrestblocks, hrestexact⟩ := ih (fun g hg => hmem g (List.mem_cons_of_mem _ hg))
        (k + (g.emissions config (titleAfter s.headings)).length)
      refine ⟨cut :: cuts, ?_, ?_, List.forall_mem_cons.2 ⟨hexact, hrestexact⟩⟩
      · rw [List.flatMap_cons, hdrafts, hrest, List.flatMap_cons, numbered_append]
      · rw [List.map_cons, List.map_cons, hblocks, hrestblocks]
  induction sections generalizing k with
  | nil => exact ⟨[], rfl, rfl, rfl, fun cut hcut => absurd hcut List.not_mem_nil⟩
  | cons s sections ih =>
    obtain ⟨cuts, hdrafts, hblocks, hexact⟩ := hsection s (sectionGroups config s.blocks) (fun g hg => hg) k
    obtain ⟨rest, hrest, hrestblocks, hrestruns, hrestexact⟩ := ih (k + (s.emissions config).length)
    refine ⟨cuts ++ rest, ?_, ?_, ?_, List.forall_mem_append.2 ⟨hexact, hrestexact⟩⟩
    · rw [List.flatMap_append, hdrafts, hrest, List.flatMap_cons, numbered_append]
      rfl
    · have hplaced : (sectionGroups config s.blocks).flatMap (fun g => g.blocks.map (⟨·, s.headings⟩ : _ → Placed)) =
          s.placed := by
        rw [← List.map_flatMap, blocks_sectionGroups, Section.placed]
      rw [List.flatMap_append, hrestblocks, List.flatMap_cons, List.flatMap_def, hblocks, ← List.flatMap_def, hplaced]
    · have hruns : cuts.map (fun cut => cut.blocks.map (·.block)) = runBlocks config s.blocks := by
        rw [← map_blocks_sectionGroups]
        have h := congrArg (List.map (List.map Placed.block)) hblocks
        rw [List.map_map, List.map_map] at h
        refine h.trans (List.map_congr_left fun g _ => ?_)
        rw [Function.comp_apply, List.map_map]
        exact List.map_id g.blocks
      rw [List.map_append, hrestruns, List.flatMap_cons, hruns]

end

/-- **What `HeadingAwareChunker` returns**: the drafts of exact cuts, which cover the body in order. -/
theorem heading_cuts (config : ChunkingConfig) (languageCode : Option String) (document : ExtractedDocument) :
    (∃ p ∈ document.body, p.block.text.HasSurrogate) ∧
        HeadingAwareChunker.chunk whitespace config languageCode document = .error .unicodeEncode ∨
      ∃ cuts : List Cut,
        HeadingAwareChunker.chunk whitespace config languageCode document = .ok (cuts.flatMap Cut.drafts) ∧
        cuts.flatMap Cut.blocks = document.body ∧
        cuts.map (fun cut => cut.blocks.map (·.block)) = document.sections.flatMap (fun s => runBlocks config s.blocks) ∧
        (∀ cut ∈ cuts, cut.Exact config ∧ ∀ d ∈ cut.drafts, d.From (cut.blocks.map (·.block))) ∧
        (cuts.flatMap Cut.drafts).map (·.chunkIndex) = List.range (cuts.flatMap Cut.drafts).length := by
  rw [heading_chunk]
  by_cases hsurrogate : ∃ p ∈ document.body, p.block.text.HasSurrogate
  · exact .inl ⟨hsurrogate, if_pos hsurrogate⟩
  right
  obtain ⟨cuts, hdrafts, hblocks, hruns, hexact⟩ := @exists_cuts config languageCode document.sections 0
  have hchunk : cuts.flatMap Cut.drafts = (headingEmissions config document).mapIdx (Emission.draft languageCode) := by
    simp only [hdrafts, numbered, Nat.zero_add]
    rfl
  refine ⟨cuts, ?_, hblocks.trans (placed_sections document), hruns, hexact, ?_⟩
  · rw [if_neg hsurrogate, hchunk]
  · rw [hchunk, map_index_drafts, List.length_mapIdx]

/-- **Body text is kept.** `HeadingAwareChunker` raises only for a surrogate. Otherwise its drafts, numbered in order, are
cut from runs that make up the body: the drafts of a run have its section's title and tokens of its blocks only, and
without overlap prefixes and repeated headers all drafts together have the tokens of all blocks that are neither headings
nor blank. -/
theorem body_kept (config : ChunkingConfig) (languageCode : Option String) (document : ExtractedDocument) :
    (∃ p ∈ document.body, p.block.text.HasSurrogate) ∧
        HeadingAwareChunker.chunk whitespace config languageCode document = .error .unicodeEncode ∨
      ∃ cuts : List Cut,
        HeadingAwareChunker.chunk whitespace config languageCode document = .ok (cuts.flatMap Cut.drafts) ∧
        (cuts.flatMap Cut.drafts).map (·.chunkIndex) = List.range (cuts.flatMap Cut.drafts).length ∧
        cuts.flatMap (Cut.restored config.overlap) =
          (document.blocks.filter fun b => b.blockType ≠ .heading ∧ b.text.strip ≠ []).flatMap (·.text.tokens) ∧
        cuts.flatMap Cut.blocks = document.body ∧
        ∀ cut ∈ cuts, cut.Exact config := by
  rcases heading_cuts config languageCode document with h | ⟨cuts, hchunk, hbody, -, hexact, hindexes⟩
  · exact .inl h
  refine .inr ⟨cuts, hchunk, hindexes, ?_, hbody, fun cut hcut => (hexact cut hcut).1⟩
  calc cuts.flatMap (Cut.restored config.overlap)
      = cuts.flatMap fun cut => cut.blocks.flatMap (·.block.text.tokens) :=
        List.flatMap_congr fun cut hcut => (hexact cut hcut).1.restored
    _ = document.body.flatMap (·.block.text.tokens) := by rw [← hbody, List.flatMap_assoc]
    _ = (document.body.map (·.block)).flatMap (·.text.tokens) := by rw [List.flatMap_map]
    _ = _ := by rw [map_block_body]

/-- The body of a document with a surrogate has a token, but no draft holds it. -/
theorem body_of_surrogate :
    HeadingAwareChunker.chunk whitespace DEFAULT_CHUNKING_CONFIG none loneSurrogate = .error .unicodeEncode ∧
      (loneSurrogate.blocks.filter fun b => b.blockType ≠ .heading ∧ b.text.strip ≠ []).flatMap (·.text.tokens) =
        [[.ofNat 0xd800]] := by
  decide

/-! ## Pages and types -/

/-- a run with one draft -/
theorem Cut.tokens_of_single {config : ChunkingConfig} {cut : Cut} (h : cut.Exact config) {d : ChunkDraft}
    (hd : cut.drafts = [d]) : d.content.tokens = cut.blocks.flatMap (·.block.text.tokens) := by
  rw [← h.restored]
  cases cut with
  | run blocks drafts =>
    have hdrafts : drafts = [d] := hd
    rw [Cut.restored, hdrafts]
    exact (List.append_nil _).symm
  | table block header parts =>
    obtain ⟨⟨lines, rows, hlines, rfl⟩, hprefix⟩ := h.repeats
    have hne : ∀ part ∈ parts, part ≠ [] := by
      intro part hpart hnil
      have hheader := hprefix part hpart
      rw [hnil] at hheader
      exact (tokens_tableLines hlines).2.1 (List.prefix_nil.1 hheader)
    have hparts : parts = [[d]] := by
      have hflatten : parts.flatten = [d] := hd
      cases parts with
      | nil => cases hflatten
      | cons part parts =>
        rw [List.flatten_cons] at hflatten
        obtain ⟨x, part', rfl⟩ := List.exists_cons_of_ne_nil (hne part List.mem_cons_self)
        obtain ⟨rfl, hrest⟩ := List.cons.inj hflatten
        obtain ⟨rfl, hrest⟩ := List.append_eq_nil_iff.1 hrest
        cases parts with
        | nil => rfl
        | cons part parts =>
          have hnil : part = [] := List.flatten_eq_nil_iff.1 hrest part List.mem_cons_self
          exact absurd hnil (hne part (List.mem_cons_of_mem _ List.mem_cons_self))
    rw [Cut.restored, hparts]
    simp [merge]

theorem blocks_of_mem_fixedEmissions {config : ChunkingConfig} {document : ExtractedDocument} {e : Emission}
    (he : e ∈ fixedEmissions config document) :
    e.blocks = document.blocks.filter (·.text.strip ≠ []) ∧ e.contentType = contentType e.blocks := by
  obtain ⟨g, hg, he⟩ := List.mem_flatMap.1 he
  rw [textGroups] at hg
  split_ifs at hg
  · cases hg
  · rw [List.mem_singleton.1 hg] at he
    obtain ⟨r, hr, he⟩ := List.mem_flatMap.1 he
    rw [List.mem_singleton.1 hr] at he
    obtain ⟨content, -, rfl⟩ := List.mem_map.1 he
    exact ⟨rfl, rfl⟩

theorem draft_from_fixed {config : ChunkingConfig} {languageCode : Option String} {document : ExtractedDocument}
    {e : Emission} (he : e ∈ fixedEmissions config document) (i : ℕ) :
    (e.draft languageCode i).From (document.blocks.filter (·.text.strip ≠ [])) := by
  obtain ⟨hblocks, htype⟩ := blocks_of_mem_fixedEmissions he
  rw [← hblocks]
  exact ⟨rfl, rfl, htype⟩

/-- **Pages and types are those of runs.** Each draft of `FixedTokenChunker` has the least and greatest page and the
content type of all blocks that are not blank; each draft of `HeadingAwareChunker` those of its run. The draft of a run
that is not split has the tokens of all blocks of the run. -/
theorem provenance_of_runs (config : ChunkingConfig) (languageCode : Option String) (document : ExtractedDocument) :
    (∀ drafts, FixedTokenChunker.chunk whitespace config languageCode document = .ok drafts →
      ∀ d ∈ drafts, d.From (document.blocks.filter (·.text.strip ≠ []))) ∧
    ∀ drafts, HeadingAwareChunker.chunk whitespace config languageCode document = .ok drafts →
      ∃ cuts : List Cut, drafts = cuts.flatMap Cut.drafts ∧
        cuts.map (fun cut => cut.blocks.map (·.block)) = document.sections.flatMap (fun s => runBlocks config s.blocks) ∧
        ∀ cut ∈ cuts, cut.Exact config ∧ (∀ d ∈ cut.drafts, d.From (cut.blocks.map (·.block))) ∧
          ∀ d, cut.drafts = [d] → d.content.tokens = cut.blocks.flatMap (·.block.text.tokens) := by
  constructor
  · intro drafts hchunk d hd
    rw [fixed_chunk] at hchunk
    split_ifs at hchunk
    rw [← Except.ok.inj hchunk] at hd
    obtain ⟨i, hi, rfl⟩ := List.mem_mapIdx.1 hd
    exact draft_from_fixed (List.getElem_mem hi) i
  · intro drafts hchunk
    rcases heading_cuts config languageCode document with ⟨-, h⟩ | ⟨cuts, h, -, hruns, hexact, -⟩
    · rw [h] at hchunk
      cases hchunk
    · rw [h] at hchunk
      refine ⟨cuts, (Except.ok.inj hchunk).symm, hruns, fun cut hcut => ⟨(hexact cut hcut).1, (hexact cut hcut).2, ?_⟩⟩
      exact fun d hd => Cut.tokens_of_single (hexact cut hcut).1 hd

/-- one token a draft -/
def oneTokenConfig : ChunkingConfig :=
  { DEFAULT_CHUNKING_CONFIG with
    maxTokens := 1, overlapTokens := 0, maxTokens_pos := by decide, overlapTokens_lt := by decide }

/-- a paragraph and code, on two pages -/
def twoPages : ExtractedDocument where
  blocks := [⟨str "a", .paragraph, some 1⟩, ⟨str "b", .code, some 2⟩]

/-- A draft may have a page, and a type, that none of the blocks with a token in it has. -/
theorem provenance_too_wide :
    (∃ drafts, FixedTokenChunker.chunk whitespace oneTokenConfig none twoPages = .ok drafts ∧
      ∃ d ∈ drafts, d.pageEnd = some 2 ∧ d.contentType = .mixed ∧
        ∀ b ∈ twoPages.blocks, (b.pageNumber = some 2 ∨ b.blockType = .code) → ∀ t ∈ b.text.tokens, t ∉ d.content.tokens) ∧
    ∃ drafts, HeadingAwareChunker.chunk whitespace oneTokenConfig none twoPages = .ok drafts ∧
      ∃ d ∈ drafts, d.pageEnd = some 2 ∧ d.contentType = .mixed ∧
        ∀ b ∈ twoPages.blocks, (b.pageNumber = some 2 ∨ b.blockType = .code) →
          ∀ t ∈ b.text.tokens, t ∉ d.content.tokens := by
  have hdraft : ∀ d, d = Emission.draft none 0 ⟨str "a", twoPages.blocks, none, .mixed⟩ →
      d.pageEnd = some 2 ∧ d.contentType = .mixed ∧ ∀ b ∈ twoPages.blocks, (b.pageNumber = some 2 ∨ b.blockType = .code) →
        ∀ t ∈ b.text.tokens, t ∉ d.content.tokens := by
    intro d hd
    rw [hd]
    decide
  exact ⟨⟨_, rfl, _, List.mem_cons_self, hdraft _ rfl⟩, ⟨_, rfl, _, List.mem_cons_self, hdraft _ rfl⟩⟩

/-! ## Headings -/

/-- some block that is not blank comes before the next heading -/
def HasBody (blocks : List ExtractedBlock) : Prop :=
  ∃ between block after, blocks = between ++ block :: after ∧ (∀ b ∈ between, b.blockType ≠ .heading) ∧
    block.blockType ≠ .heading ∧ block.text.strip ≠ []

/-- a heading with a block of its own -/
def Heads (heading : ExtractedBlock) (blocks : List ExtractedBlock) : Prop :=
  ∃ before after, blocks = before ++ heading :: after ∧ heading.blockType = .heading ∧ HasBody after

theorem hasBody_cons {block : ExtractedBlock} {blocks : List ExtractedBlock} :
    HasBody (block :: blocks) ↔ block.blockType ≠ .heading ∧ (block.text.strip ≠ [] ∨ HasBody blocks) := by
  constructor
  · intro ⟨between, b, after, hblocks, hbetween, htype, hblank⟩
    cases between with
    | nil =>
      obtain ⟨rfl, rfl⟩ := List.cons.inj hblocks
      exact ⟨htype, .inl hblank⟩
    | cons x between =>
      obtain ⟨rfl, rfl⟩ := List.cons.inj hblocks
      exact ⟨hbetween _ List.mem_cons_self,
        .inr ⟨between, b, after, rfl, fun y hy => hbetween y (List.mem_cons_of_mem _ hy), htype, hblank⟩⟩
  · intro ⟨htype, h⟩
    rcases h with hblank | ⟨between, b, after, rfl, hbetween, hbtype, hblank⟩
    · exact ⟨[], block, blocks, rfl, fun y hy => absurd hy List.not_mem_nil, htype, hblank⟩
    · exact ⟨block :: between, b, after, rfl, List.forall_mem_cons.2 ⟨htype, hbetween⟩, hbtype, hblank⟩

theorem heads_cons {heading block : ExtractedBlock} {blocks : List ExtractedBlock} : Heads heading (block :: blocks) ↔
    heading = block ∧ block.blockType = .heading ∧ HasBody blocks ∨ Heads heading blocks := by
  constructor
  · intro ⟨before, after, hblocks, htype, hbody⟩
    cases before with
    | nil =>
      obtain ⟨rfl, rfl⟩ := List.cons.inj hblocks
      exact .inl ⟨rfl, htype, hbody⟩
    | cons x before =>
      obtain ⟨rfl, rfl⟩ := List.cons.inj hblocks
      exact .inr ⟨before, after, rfl, htype, hbody⟩
  · intro h
    rcases h with ⟨rfl, htype, hbody⟩ | ⟨before, after, rfl, htype, hbody⟩
    · exact ⟨[], blocks, rfl, htype, hbody⟩
    · exact ⟨block :: before, after, rfl, htype, hbody⟩

/-- the nearest headings of the body -/
theorem exists_mem_bodyFrom {heading : ExtractedBlock} (headings blocks : List ExtractedBlock) :
    (∃ p ∈ bodyFrom headings blocks, p.headings.getLast? = some heading) ↔
      headings.getLast? = some heading ∧ HasBody blocks ∨ Heads heading blocks := by
  induction blocks generalizing headings with
  | nil => simp [bodyFrom, HasBody, Heads]
  | cons block blocks ih =>
    rw [bodyFrom, hasBody_cons, heads_cons]
    by_cases hheading : block.blockType = .heading
    · have hlast : some block = some heading ↔ heading = block := by rw [Option.some_inj, eq_comm]
      rw [if_pos hheading, ih, List.getLast?_concat, hlast]
      tauto
    rw [if_neg hheading]
    by_cases hblank : block.text.strip ≠ []
    · rw [if_pos hblank, List.exists_mem_cons_iff, ih]
      tauto
    · rw [if_neg hblank, ih]
      tauto

/-- what is restored is from the drafts -/
theorem Cut.mem_of_mem_restored {n : ℕ} {cut : Cut} {t : Str} (ht : t ∈ cut.restored n) :
    ∃ d ∈ cut.drafts, t ∈ d.content.tokens := by
  cases cut with
  | run blocks drafts =>
    obtain ⟨tokens, htokens, ht⟩ := List.mem_flatten.1 (merge_subset ht)
    obtain ⟨d, hd, rfl⟩ := List.mem_map.1 htokens
    exact ⟨d, hd, ht⟩
  | table block header parts =>
    obtain ⟨tokens, htokens, ht⟩ := List.mem_flatten.1 (merge_subset ht)
    obtain ⟨part, hpart, rfl⟩ := List.mem_map.1 htokens
    obtain ⟨d, hd, ht⟩ := List.mem_flatMap.1 ht
    exact ⟨d, List.mem_flatten_of_mem hpart hd, ht⟩

theorem sectionPath_eq {config : ChunkingConfig} {languageCode : Option String} {document : ExtractedDocument}
    {drafts : List ChunkDraft} (h : HeadingAwareChunker.chunk whitespace config languageCode document = .ok drafts)
    {d : ChunkDraft} (hd : d ∈ drafts) : d.sectionPath = d.sectionTitle.toList := by
  rw [heading_chunk] at h
  split_ifs at h
  rw [← Except.ok.inj h] at hd
  obtain ⟨i, hi, rfl⟩ := List.mem_mapIdx.1 hd
  rfl

/-- **Titles.** The titles of the drafts of `HeadingAwareChunker`, which are also their paths, are the texts of the
headings that are not blank and have a block of their own. -/
theorem titled (config : ChunkingConfig) (languageCode : Option String) (document : ExtractedDocument) :
    (∃ p ∈ document.body, p.block.text.HasSurrogate) ∧
        HeadingAwareChunker.chunk whitespace config languageCode document = .error .unicodeEncode ∨
      ∃ drafts, HeadingAwareChunker.chunk whitespace config languageCode document = .ok drafts ∧
        ∀ t, (∃ d ∈ drafts, d.sectionTitle = some t ∧ d.sectionPath = [t]) ↔
          ∃ heading, Heads heading document.blocks ∧ heading.text.strip ≠ [] ∧ heading.text.strip = t := by
  rcases heading_cuts config languageCode document with h | ⟨cuts, hchunk, hbody, -, hexact, -⟩
  · exact .inl h
  refine .inr ⟨_, hchunk, fun t => ?_⟩
  have hnearest : ∀ heading, Heads heading document.blocks ↔
      ∃ p ∈ document.body, p.headings.getLast? = some heading := by
    intro heading
    rw [ExtractedDocument.body, exists_mem_bodyFrom]
    simp
  constructor
  · rintro ⟨d, hd, htitle, -⟩
    obtain ⟨cut, hcut, hd⟩ := List.mem_flatMap.1 hd
    obtain ⟨p, hp⟩ := List.exists_mem_of_ne_nil _ (hexact cut hcut).1.blocks_ne_nil
    have hmem : p ∈ document.body := by
      rw [← hbody]
      exact List.mem_flatMap.2 ⟨cut, hcut, hp⟩
    rw [(hexact cut hcut).1.title d hd p hp, Placed.title, titleAfter] at htitle
    obtain ⟨heading, hlast, htitle⟩ := Option.bind_eq_some_iff.1 htitle
    rw [ExtractedBlock.title] at htitle
    split_ifs at htitle with hblank
    exact ⟨heading, (hnearest heading).2 ⟨p, hmem, hlast⟩, hblank, Option.some.inj htitle⟩
  · rintro ⟨heading, hheads, hblank, ht⟩
    obtain ⟨p, hp, hlast⟩ := (hnearest heading).1 hheads
    have htokens : p.block.text.tokens ≠ [] := fun h => strip_of_mem_body hp (Str.tokens_eq_nil.1 h)
    rw [← hbody] at hp
    obtain ⟨cut, hcut, hp⟩ := List.mem_flatMap.1 hp
    obtain ⟨token, htoken⟩ := List.exists_mem_of_ne_nil _ htokens
    have hrestored : token ∈ cut.restored config.overlap := by
      rw [(hexact cut hcut).1.restored]
      exact List.mem_flatMap.2 ⟨p, hp, htoken⟩
    obtain ⟨d, hd, -⟩ := Cut.mem_of_mem_restored hrestored
    have htitle : d.sectionTitle = some t := by
      rw [(hexact cut hcut).1.title d hd p hp, Placed.title, titleAfter, hlast, Option.bind_some, ExtractedBlock.title,
        if_neg hblank, ht]
    have hmem : d ∈ cuts.flatMap Cut.drafts := List.mem_flatMap.2 ⟨cut, hcut, hd⟩
    refine ⟨d, hmem, htitle, ?_⟩
    rw [sectionPath_eq hchunk hmem, htitle]
    rfl

/-- two headings, one after the other -/
def twoHeadings : ExtractedDocument where
  blocks := [⟨str "Part", .heading, none⟩, ⟨str "Chapter", .heading, none⟩, ⟨str "text", .paragraph, none⟩]

/-- A heading without a block of its own is in no draft. -/
theorem heading_lost : ∃ drafts, HeadingAwareChunker.chunk whitespace DEFAULT_CHUNKING_CONFIG none twoHeadings = .ok drafts ∧
    ∀ d ∈ drafts, d.sectionTitle ≠ some (str "Part") ∧ str "Part" ∉ d.sectionPath ∧ ¬ str "Part" <:+: d.content := by
  refine ⟨[Emission.draft none 0 ⟨str "text", [⟨str "text", .paragraph, none⟩], some (str "Chapter"), .text⟩], rfl, ?_⟩
  intro d hd
  rw [List.mem_singleton.1 hd]
  decide

end AtlasRag.Ingestion.Chunking
