/-
`list_for_item` after `replace_for_item`.

The writer and the reader name each column by itself. All of them agree but the metadata: what is written under `metadata`
is read under `chunk_metadata`.

Results:
- `listForItem_replaced`: what is read is what was passed, in the order of the indexes, without the metadata;
- `round_trip_iff`: it is exactly what was passed iff no draft has metadata;
- `round_trip_metadata`: a draft that comes back changed.
-/
import AtlasRag.Ingestion.Chunk

namespace AtlasRag.Ingestion

open AtlasRag.Lib.LeasedJob AtlasRag.Platform

/-- `list_for_item` -/
def listForItem (itemId : Uuid) (table : List Chunk) : List ChunkDraft :=
  ((chunksOf itemId table).insertionSort fun a b => a.chunkIndex ≤ b.chunkIndex).map Chunk.toChunkDraft

/-- the drafts in the order of their indexes -/
def inIndexOrder (drafts : List ChunkDraft) : List ChunkDraft := drafts.insertionSort fun a b => a.chunkIndex ≤ b.chunkIndex

section

variable {itemId : Uuid} {chunks : List ChunkDraft} {ids : ℕ → Uuid} {t : Time} {items : List IngestionItem}
  {table table' : List Chunk}

/-- What is read back of a chunk set is what was passed, in the order of the indexes, less the metadata. -/
theorem listForItem_replaced (h : replaceForItem itemId chunks ids t items table = .ok table') :
    listForItem itemId table' = (inIndexOrder chunks).map ChunkDraft.stored := by
  obtain ⟨-, hrows, -⟩ := replaceForItem_ok h
  calc listForItem itemId table' = inIndexOrder ((chunksOf itemId table').map Chunk.toChunkDraft) :=
        List.map_insertionSort _ _ _ _ fun a _ b _ => Iff.rfl
    _ = inIndexOrder (chunks.map ChunkDraft.stored) := by rw [hrows]
    _ = (inIndexOrder chunks).map ChunkDraft.stored :=
        (List.map_insertionSort _ _ ChunkDraft.stored chunks fun a _ b _ => Iff.rfl).symm

/-- **The round trip is exact iff no draft has metadata**: for every item that is not completed, any chunks that it had, and
drafts with distinct indexes that the table takes. -/
theorem round_trip_iff (hreplaceable : Replaceable itemId chunks.length ids items table)
    (hindexes : (chunks.map (·.chunkIndex)).Nodup) (hrows : ∀ c ∈ chunkRows itemId chunks ids t, c.defects = []) :
    (∃ table', replaceForItem itemId chunks ids t items table = .ok table' ∧
      listForItem itemId table' = inIndexOrder chunks) ↔ ∀ d ∈ chunks, d.metadata = [] := by
  have hordered : (∀ d ∈ inIndexOrder chunks, d.metadata = []) ↔ ∀ d ∈ chunks, d.metadata = [] := by
    simp only [inIndexOrder, List.mem_insertionSort]
  obtain ⟨table', htable⟩ := (replaceForItem_iff hreplaceable hindexes).2 hrows
  rw [← hordered, ← stored_eq_self, ← listForItem_replaced htable]
  constructor
  · intro ⟨table'', htable', hread⟩
    rw [htable] at htable'
    exact Except.ok.inj htable' ▸ hread
  · exact fun hread => ⟨table', htable, hread⟩

/-- two chunks, passed in reverse -/
def twoChunks : List ChunkDraft :=
  [⟨1, "b", .text, none, ["s"], some 1, some 2, none, 1, "h", []⟩, ⟨0, "a", .code, some "s", [], none, none, some "en", 1, "h", []⟩]

/-- the chunk that the item had -/
def oldChunk : Chunk := ⟨⟨0, "old", .text, none, [], none, none, none, 1, "h", []⟩, 7, 1, 10⟩

theorem replaceable_oldChunk (n : ℕ) : Replaceable 1 n (· + 8) [.new 1 5 6 0] [oldChunk] where
  item := by decide
  unfrozen := by decide
  ids := by
    refine List.nodup_cons.2 ⟨fun h => ?_, List.nodup_range.map (add_left_injective 8)⟩
    obtain ⟨k, -, hk⟩ := List.mem_map.1 h
    have hseven : k + 8 = 7 := hk
    omega
  keys := List.nodup_singleton _

theorem round_trip_iff_twoChunks :
    ∃ table', replaceForItem 1 twoChunks (· + 8) 20 [.new 1 5 6 0] [oldChunk] = .ok table' ∧
      listForItem 1 table' = inIndexOrder twoChunks :=
  (round_trip_iff (replaceable_oldChunk 2) (by decide) (by decide +kernel)).2 (by simp [twoChunks])

/-- a chunk with metadata -/
def withMetadata : ChunkDraft := ⟨0, "text", .text, none, [], none, none, none, 1, "hash", [("page", .int 1)]⟩

/-- the metadata does not come back -/
theorem round_trip_metadata : ¬ ∀ (itemId : Uuid) (chunks : List ChunkDraft) (ids : ℕ → Uuid) (t : Time)
    (items : List IngestionItem) (table : List Chunk), Replaceable itemId chunks.length ids items table →
    (chunks.map (·.chunkIndex)).Nodup → (∀ c ∈ chunkRows itemId chunks ids t, c.defects = []) →
    ∃ table', replaceForItem itemId chunks ids t items table = .ok table' ∧
      listForItem itemId table' = inIndexOrder chunks := by
  intro h
  obtain ⟨table', htable, hread⟩ := h 1 [withMetadata] (· + 8) 20 [.new 1 5 6 0] [oldChunk] (replaceable_oldChunk 1)
    (List.nodup_singleton _) (by decide +kernel)
  rw [listForItem_replaced htable] at hread
  have hcount : ((inIndexOrder [withMetadata]).map ChunkDraft.stored).map (·.metadata.length) ≠
      (inIndexOrder [withMetadata]).map (·.metadata.length) := by decide
  exact hcount (congrArg (List.map fun d => d.metadata.length) hread)

end

end AtlasRag.Ingestion
