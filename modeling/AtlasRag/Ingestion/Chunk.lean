/-
Chunks: the drafts a chunker makes, the table `chunks` with its constraints, and `SqlAlchemyChunkRepository`.

`replace_for_item` locks the owning item and refuses a completed one (`guardMutableChunkSet`), deletes the item's rows
(`deleteChunks`) and inserts one row a draft (`insertChunks`), all in the caller's transaction.

The insert passes each row's values by name. It names the metadata by its column, `metadata`, while a bulk insert looks
values up by mapped attribute, `chunk_metadata`; the entry is not found and the column takes its default, `{}`.

Results:
- `stored_eq`: a draft is stored as it is iff its metadata is empty;
- `replaceForItem_ok`: when the set is replaced, the item's rows are one row for each draft, in order, and no other
  item's row changes;
- `replaceForItem_iff`: with keys that are free, the set is replaced iff the table takes each row.
-/
import AtlasRag.Ingestion.Item

namespace AtlasRag.Ingestion

open AtlasRag.Lib.LeasedJob AtlasRag.Platform

/-! ## Drafts and rows -/

inductive ChunkContentType where
  | text
  | table
  | code
  | mixed
deriving DecidableEq, Repr

structure ChunkDraft where
  chunkIndex : ℤ
  content : String
  contentType : ChunkContentType
  sectionTitle : Option String
  sectionPath : List String
  pageStart : Option ℤ
  pageEnd : Option ℤ
  languageCode : Option String
  tokenCount : ℤ
  contentHash : String
  metadata : JsonObject
deriving Repr

/-- a row: the columns of a draft, as `list_for_item` reads them back, and those of its own -/
structure Chunk extends ChunkDraft where
  id : Uuid
  ingestionItemId : Uuid
  createdAt : Time
deriving Repr

/-- the values for the column `metadata` that `replace_for_item` passes, under the name it passes them -/
def ChunkDraft.metadataValues (d : ChunkDraft) : List (String × JsonObject) := [("metadata", d.metadata)]

/-- the mapped attribute of the column `metadata` -/
def METADATA_ATTRIBUTE : String := "chunk_metadata"

/-- what the bulk insert stores of a draft: the value of the mapped attribute, or the column's default -/
def ChunkDraft.stored (d : ChunkDraft) : ChunkDraft :=
  { d with metadata := (d.metadataValues.lookup METADATA_ATTRIBUTE).getD [] }

theorem ChunkDraft.stored_eq {d : ChunkDraft} : d.stored = d ↔ d.metadata = [] := by
  have hs : d.stored = { d with metadata := [] } := rfl
  constructor
  · intro h; exact (congrArg ChunkDraft.metadata (hs ▸ h)).symm
  · intro h; rw [hs, ← h]

theorem stored_eq_self {drafts : List ChunkDraft} :
    drafts.map ChunkDraft.stored = drafts ↔ ∀ d ∈ drafts, d.metadata = [] := by
  induction drafts with
  | nil => simp
  | cons d drafts ih => rw [List.map_cons, List.cons.injEq, ih, ChunkDraft.stored_eq, List.forall_mem_cons]

/-- the constraints a row violates; `content_type` is an enumeration, so its CHECK holds by type -/
def Chunk.defects (c : Chunk) : List Violation :=
  checkThat "chunk_index_non_negative" (0 ≤ c.chunkIndex) ++ checkThat "content_non_empty" (NonBlank c.content) ++
  checkThat "token_count_non_negative" (0 ≤ c.tokenCount) ++
  checkThat "page_start_positive" (∀ p ∈ c.pageStart, 0 < p) ++
  checkThat "page_end_positive" (∀ p ∈ c.pageEnd, 0 < p) ++
  checkThat "valid_page_range" (∀ p ∈ c.pageStart, ∀ q ∈ c.pageEnd, p ≤ q) ++
  integerColumn "chunk_index" (some c.chunkIndex) ++ integerColumn "token_count" (some c.tokenCount) ++
  integerColumn "page_start" c.pageStart ++ integerColumn "page_end" c.pageEnd ++
  textColumn "content" none (some c.content) ++ textColumn "section_title" none c.sectionTitle ++
  c.sectionPath.flatMap (fun s => textColumn "section_path" none (some s)) ++
  textColumn "language_code" (some 35) c.languageCode ++ textColumn "content_hash" (some 64) (some c.contentHash)

/-- the rows of one item -/
def chunksOf (itemId : Uuid) (table : List Chunk) : List Chunk := table.filter (·.ingestionItemId = itemId)

/-! ## `SqlAlchemyChunkRepository` -/

/-- why a call of the ingestion services raises: the database refuses a row of a table, or a completed chunk set -/
inductive IngestionError where
  | refused (table : String) (violations : List Violation)
  | chunkSetImmutable (reason : String)
deriving DecidableEq, Repr

def COMPLETED_CHUNK_SET_IS_FROZEN : String := "ingestion item is completed"

/-- `_guard_mutable_chunk_set`; an item that does not exist passes -/
def guardMutableChunkSet (status : Option IngestionStatus) : Except IngestionError Unit :=
  if status = some .completed then .error (.chunkSetImmutable COMPLETED_CHUNK_SET_IS_FROZEN) else .ok ()

/-- `DELETE FROM chunks WHERE ingestion_item_id = …` -/
def deleteChunks (itemId : Uuid) (table : List Chunk) : List Chunk := table.filter (·.ingestionItemId ≠ itemId)

/-- the rows to insert; `ids k` is the generated key of the k-th, `created_at` defaults to the database time -/
def chunkRows (itemId : Uuid) (chunks : List ChunkDraft) (ids : ℕ → Uuid) (t : Time) : List Chunk :=
  chunks.mapIdx fun k d => ⟨d.stored, ids k, itemId, t⟩

/-- the bulk INSERT: all rows or none -/
def insertChunks (rows table : List Chunk) (items : List Uuid) : Except (List Violation) (List Chunk) :=
  match rows.flatMap Chunk.defects ++
      (if ((table ++ rows).map (·.id)).Nodup then [] else [.unique "pk_chunks"]) ++
      (if ((table ++ rows).map fun c => (c.ingestionItemId, c.chunkIndex)).Nodup then []
        else [.unique "uq_chunks_item_index"]) ++
      if ∀ c ∈ rows, c.ingestionItemId ∈ items then [] else [.foreignKey "ingestion_item_id"] with
  | [] => .ok (table ++ rows)
  | es => .error es

/-- `replace_for_item`, with no other transaction in between -/
def replaceForItem (itemId : Uuid) (chunks : List ChunkDraft) (ids : ℕ → Uuid) (t : Time) (items : List IngestionItem)
    (table : List Chunk) : Except IngestionError (List Chunk) :=
  match guardMutableChunkSet ((items.find? (·.id = itemId)).map (·.status)) with
  | .error e => .error e
  | .ok _ =>
    match insertChunks (chunkRows itemId chunks ids t) (deleteChunks itemId table) (items.map (·.id)) with
    | .error es => .error (.refused "chunks" es)
    | .ok table' => .ok table'

/-! ## What the statements do -/

theorem insertChunks_ok {rows table table' : List Chunk} {items : List Uuid}
    (h : insertChunks rows table items = .ok table') : table' = table ++ rows := by
  unfold insertChunks at h
  split at h
  · exact (Except.ok.inj h).symm
  · cases h

/-- the rows inserted for the drafts read back as the stored drafts, in order -/
theorem chunkRows_drafts (itemId : Uuid) (chunks : List ChunkDraft) (ids : ℕ → Uuid) (t : Time) :
    (chunkRows itemId chunks ids t).map Chunk.toChunkDraft = chunks.map ChunkDraft.stored := by
  refine List.ext_getElem (by simp [chunkRows]) fun k _ _ => ?_
  simp [chunkRows]

theorem chunkRows_item {itemId : Uuid} {chunks : List ChunkDraft} {ids : ℕ → Uuid} {t : Time} {c : Chunk}
    (h : c ∈ chunkRows itemId chunks ids t) : c.ingestionItemId = itemId := by
  obtain ⟨k, hk, rfl⟩ := List.mem_mapIdx.1 h
  rfl

/-- after the old rows are gone, the item's rows are the new ones -/
theorem chunksOf_replaced (itemId : Uuid) (chunks : List ChunkDraft) (ids : ℕ → Uuid) (t : Time) (table : List Chunk) :
    chunksOf itemId (deleteChunks itemId table ++ chunkRows itemId chunks ids t) = chunkRows itemId chunks ids t := by
  rw [chunksOf, List.filter_append, deleteChunks, List.filter_filter]
  have h1 : table.filter (fun c => decide (c.ingestionItemId = itemId) && decide (c.ingestionItemId ≠ itemId)) = [] :=
    List.filter_eq_nil_iff.2 fun c _ => by simp
  have h2 : (chunkRows itemId chunks ids t).filter (·.ingestionItemId = itemId) = chunkRows itemId chunks ids t :=
    List.filter_eq_self.2 fun c hc => by simpa using chunkRows_item hc
  rw [h1, h2, List.nil_append]

/-- **Replacing a chunk set**: the item was not completed, its rows are the stored drafts in order, and the rows of the
other items stay. -/
theorem replaceForItem_ok {itemId : Uuid} {chunks : List ChunkDraft} {ids : ℕ → Uuid} {t : Time}
    {items : List IngestionItem} {table table' : List Chunk}
    (h : replaceForItem itemId chunks ids t items table = .ok table') :
    (∀ it, items.find? (·.id = itemId) = some it → it.status ≠ .completed) ∧
      (chunksOf itemId table').map Chunk.toChunkDraft = chunks.map ChunkDraft.stored ∧
      ∀ other, other ≠ itemId → chunksOf other table' = chunksOf other table := by
  unfold replaceForItem at h
  split at h
  · cases h
  · next hg =>
    split at h
    · cases h
    · next hi =>
      cases h
      obtain rfl := insertChunks_ok hi
      refine ⟨?_, ?_, ?_⟩
      · intro it hit hc
        rw [hit, Option.map_some, hc] at hg
        cases hg
      · rw [chunksOf_replaced, chunkRows_drafts]
      · intro other hne
        rw [chunksOf, List.filter_append, deleteChunks, List.filter_filter]
        have h2 : (chunkRows itemId chunks ids t).filter (·.ingestionItemId = other) = [] :=
          List.filter_eq_nil_iff.2 fun c hc => by simpa [chunkRows_item hc] using hne.symm
        rw [h2, List.append_nil]
        refine List.filter_congr fun c _ => ?_
        by_cases hc : c.ingestionItemId = other
        · simp [hc, hne]
        · simp [hc]

/-! ## Rows that the table takes -/

/-- The table takes the row iff its numbers are in range and its texts fit. -/
theorem Chunk.defects_eq_nil {c : Chunk} : c.defects = [] ↔
    (0 ≤ c.chunkIndex ∧ c.chunkIndex < 2 ^ 31) ∧ (NonBlank c.content ∧ FitsText none c.content) ∧
    (0 ≤ c.tokenCount ∧ c.tokenCount < 2 ^ 31) ∧ (∀ p ∈ c.pageStart, 0 < p ∧ p < 2 ^ 31) ∧
    (∀ p ∈ c.pageEnd, 0 < p ∧ p < 2 ^ 31) ∧ (∀ p ∈ c.pageStart, ∀ q ∈ c.pageEnd, p ≤ q) ∧
    (∀ s ∈ c.sectionTitle, FitsText none s) ∧ (∀ s ∈ c.sectionPath, FitsText none s) ∧
    (∀ s ∈ c.languageCode, FitsText (some 35) s) ∧ FitsText (some 64) c.contentHash := by
  simp only [defects, List.append_eq_nil_iff, checkThat_eq_nil, integerColumn_eq_nil, IngestionItem.textColumn_eq_nil,
    List.flatMap_eq_nil_iff, Option.mem_some_iff, forall_eq']
  constructor
  · intro ⟨⟨⟨⟨⟨⟨⟨⟨⟨⟨⟨⟨⟨⟨hindex, hcontent⟩, htokens⟩, hstart⟩, hend⟩, hrange⟩, hindexInteger⟩, htokensInteger⟩,
      hstartInteger⟩, hendInteger⟩, hcontentText⟩, htitle⟩, hpath⟩, hlanguage⟩, hhash⟩
    exact ⟨⟨hindex, hindexInteger.2⟩, ⟨hcontent, hcontentText⟩, ⟨htokens, htokensInteger.2⟩,
      fun p hp => ⟨hstart p hp, (hstartInteger p hp).2⟩, fun p hp => ⟨hend p hp, (hendInteger p hp).2⟩, hrange, htitle, hpath,
      hlanguage, hhash⟩
  · intro ⟨hindex, ⟨hcontent, hcontentText⟩, htokens, hstart, hend, hrange, htitle, hpath, hlanguage, hhash⟩
    have hstartInteger : ∀ p ∈ c.pageStart, -2 ^ 31 ≤ p ∧ p < 2 ^ 31 := fun p hp => ⟨by linarith [hstart p hp], (hstart p hp).2⟩
    have hendInteger : ∀ p ∈ c.pageEnd, -2 ^ 31 ≤ p ∧ p < 2 ^ 31 := fun p hp => ⟨by linarith [hend p hp], (hend p hp).2⟩
    exact ⟨⟨⟨⟨⟨⟨⟨⟨⟨⟨⟨⟨⟨⟨hindex.1, hcontent⟩, htokens.1⟩, fun p hp => (hstart p hp).1⟩, fun p hp => (hend p hp).1⟩, hrange⟩,
      by linarith, hindex.2⟩, by linarith, htokens.2⟩, hstartInteger⟩, hendInteger⟩, hcontentText⟩, htitle⟩, hpath⟩, hlanguage⟩,
      hhash⟩

/-! ## When a set is replaced -/

/-- what an insert of `n` chunks of an item needs besides rows that the table takes -/
structure Replaceable (itemId : Uuid) (n : ℕ) (ids : ℕ → Uuid) (items : List IngestionItem) (table : List Chunk) : Prop where
  item : itemId ∈ items.map (·.id)
  unfrozen : (items.find? (·.id = itemId)).map (·.status) ≠ some .completed
  ids : (table.map (·.id) ++ (List.range n).map ids).Nodup
  keys : (table.map fun c => (c.ingestionItemId, c.chunkIndex)).Nodup

section

variable {itemId : Uuid} {ids : ℕ → Uuid} {t : Time} {items : List IngestionItem} {table : List Chunk} {chunks : List ChunkDraft}

theorem map_id_chunkRows : (chunkRows itemId chunks ids t).map (·.id) = (List.range chunks.length).map ids := by
  apply List.ext_getElem
  · simp [chunkRows]
  · intro k hk hk'
    simp [chunkRows]

theorem map_key_chunkRows : (chunkRows itemId chunks ids t).map (fun c => (c.ingestionItemId, c.chunkIndex)) =
    (chunks.map (·.chunkIndex)).map (itemId, ·) := by
  apply List.ext_getElem
  · simp [chunkRows]
  · intro k hk hk'
    simp [chunkRows, ChunkDraft.stored]

theorem nodup_keys_replaced (hkeys : (table.map fun c => (c.ingestionItemId, c.chunkIndex)).Nodup)
    (hindexes : (chunks.map (·.chunkIndex)).Nodup) :
    ((deleteChunks itemId table ++ chunkRows itemId chunks ids t).map fun c => (c.ingestionItemId, c.chunkIndex)).Nodup := by
  rw [List.map_append, List.nodup_append, map_key_chunkRows]
  refine ⟨hkeys.sublist (List.filter_sublist.map _), hindexes.map fun a b h => (Prod.mk.inj h).2, ?_⟩
  intro a ha b hb hab
  obtain ⟨c, hc, rfl⟩ := List.mem_map.1 ha
  obtain ⟨k, -, rfl⟩ := List.mem_map.1 hb
  exact of_decide_eq_true (List.mem_filter.1 hc).2 (Prod.mk.inj hab).1

/-- **The insert** goes through iff the table takes each row. -/
theorem replaceForItem_iff (h : Replaceable itemId chunks.length ids items table)
    (hindexes : (chunks.map (·.chunkIndex)).Nodup) :
    (∃ table', replaceForItem itemId chunks ids t items table = .ok table') ↔
      ∀ c ∈ chunkRows itemId chunks ids t, c.defects = [] := by
  have hids : ((deleteChunks itemId table ++ chunkRows itemId chunks ids t).map (·.id)).Nodup := by
    rw [List.map_append, map_id_chunkRows]
    exact h.ids.sublist ((List.filter_sublist.map _).append_right _)
  have hitem : ∀ c ∈ chunkRows itemId chunks ids t, c.ingestionItemId ∈ items.map (·.id) := by
    intro c hc
    rw [chunkRows_item hc]
    exact h.item
  rw [← List.flatMap_eq_nil_iff, replaceForItem, guardMutableChunkSet, if_neg h.unfrozen]
  dsimp only
  rw [insertChunks, if_pos hids, if_pos (nodup_keys_replaced h.keys hindexes), if_pos hitem]
  simp only [List.append_nil]
  cases (chunkRows itemId chunks ids t).flatMap Chunk.defects with
  | nil => exact iff_of_true ⟨_, rfl⟩ rfl
  | cons e es =>
    refine iff_of_false ?_ (List.cons_ne_nil e es)
    intro ⟨table', htable⟩
    cases htable

end

end AtlasRag.Ingestion
