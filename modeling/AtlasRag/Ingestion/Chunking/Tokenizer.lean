/-
Reference tokenizers, and `WhitespaceReferenceTokenizer`, whose tokens are the runs of other characters than whitespace.

Results:
- `split_eq`: a split is the windows over the tokens, each joined with blanks;
- `tokens_of_window`: such a piece has the tokens of its window, and is stripped.
-/
import AtlasRag.Ingestion.Chunking.Config
import AtlasRag.Lib.Windows

namespace AtlasRag.Ingestion.Chunking

open AtlasRag.Platform AtlasRag.Lib.Windows AtlasRag.Lib.Words

structure ReferenceTokenizer where
  count : Str → ℕ
  split : Str → ℤ → ℤ → Except ValueError (List Str)

namespace WhitespaceReferenceTokenizer

def name : Str := str "whitespace"

def version : Str := str "v1"

def count (text : Str) : ℕ := text.tokens.length

theorem scan_isSome {maxTokens overlapTokens : ℤ} (hmax : ¬ maxTokens ≤ 0)
    (hoverlap : ¬ (overlapTokens < 0 ∨ maxTokens ≤ overlapTokens)) {tokens : List Str} (hne : tokens ≠ []) :
    (scan maxTokens.toNat overlapTokens.toNat tokens tokens.length 0).isSome := by
  have hlt : overlapTokens.toNat < maxTokens.toNat := by omega
  rw [scan_eq (h := hlt) _ 0 (List.length_pos_iff.2 hne) (by omega)]
  rfl

/-- the loop ends within as many rounds as there are tokens -/
def split (text : Str) (maxTokens overlapTokens : ℤ) : Except ValueError (List Str) :=
  if hmax : maxTokens ≤ 0 then .error (.text "max_tokens must be positive")
  else if hoverlap : overlapTokens < 0 ∨ maxTokens ≤ overlapTokens then
    .error (.text "overlap_tokens must be non-negative and less than max_tokens")
  else if hne : text.tokens = [] then .ok []
  else
    .ok (((scan maxTokens.toNat overlapTokens.toNat text.tokens text.tokens.length 0).get
      (scan_isSome hmax hoverlap hne)).map (Str.join (str " ")))

def tokenizer : ReferenceTokenizer := ⟨count, split⟩

end WhitespaceReferenceTokenizer

/-! ## What a split is -/

namespace ChunkingConfig

/-- `max_tokens` and `overlap_tokens` as natural numbers -/
def size (c : ChunkingConfig) : ℕ := c.maxTokens.toNat

def overlap (c : ChunkingConfig) : ℕ := c.overlapTokens.toNat

theorem overlap_lt_size (c : ChunkingConfig) : c.overlap < c.size := by
  have hlt := c.overlapTokens_lt
  have hpos := c.maxTokens_pos
  simp only [overlap, size]
  omega

theorem size_pos (c : ChunkingConfig) : 0 < c.size := Nat.zero_lt_of_lt c.overlap_lt_size

theorem le_size_iff (c : ChunkingConfig) (n : ℕ) : n ≤ c.size ↔ (n : ℤ) ≤ c.maxTokens := by
  have hpos := c.maxTokens_pos
  simp only [size]
  omega

end ChunkingConfig

/-- the windows over the tokens of a text; none if there is no token -/
def pieces (size overlap : ℕ) (h : overlap < size) (tokens : List Str) : List (List Str) :=
  if tokens = [] then [] else windows size overlap h tokens

/-- **A split** with a valid number of tokens and overlap -/
theorem split_eq (text : Str) {maxTokens overlapTokens : ℤ} {size overlap : ℕ} (hsize : maxTokens = size)
    (hoverlap : overlapTokens = overlap) (h : overlap < size) :
    WhitespaceReferenceTokenizer.split text maxTokens overlapTokens =
      .ok ((pieces size overlap h text.tokens).map (Str.join (str " "))) := by
  subst hsize hoverlap
  rw [WhitespaceReferenceTokenizer.split, dif_neg (by omega), dif_neg (by omega), pieces]
  by_cases hne : text.tokens = []
  · rw [dif_pos hne, if_pos hne, List.map_nil]
  · have hscan : scan size overlap text.tokens text.tokens.length 0 = some (windows size overlap h text.tokens) :=
      scan_eq _ 0 (List.length_pos_iff.2 hne) (by omega)
    rw [dif_neg hne, if_neg hne]
    simp only [Int.toNat_natCast, hscan, Option.get_some]

section

variable {size overlap : ℕ} {h : overlap < size} {tokens w : List Str}

theorem pieces_subset (hw : w ∈ pieces size overlap h tokens) : ∀ t ∈ w, t ∈ tokens := by
  rw [pieces] at hw
  split_ifs at hw
  · cases hw
  · exact windows_subset w hw

/-- the tokens of a window are words -/
theorem isWord_of_mem_pieces {text : Str} (hw : w ∈ pieces size overlap h text.tokens) :
    ∀ t ∈ w, IsWord CodePoint.isSpace t :=
  fun t ht => Str.isWord_of_mem_tokens (pieces_subset hw t ht)

theorem pieces_length (hw : w ∈ pieces size overlap h tokens) : w ≠ [] ∧ w.length ≤ size := by
  rw [pieces] at hw
  split_ifs at hw with hne
  · cases hw
  · exact windows_length hne w hw

/-- A piece of a text has the tokens that it was joined from. -/
theorem tokens_of_window {text : Str} (hw : w ∈ pieces size overlap h text.tokens) : (Str.join (str " ") w).tokens = w :=
  Str.tokens_join_tokens (isWord_of_mem_pieces hw)

end

end AtlasRag.Ingestion.Chunking
