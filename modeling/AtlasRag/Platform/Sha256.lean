/-
`hashlib.sha256(content).hexdigest()`: the content is padded to blocks of 64 bytes, each block is expanded to 64 words and
mixed into the state, and the state is written in hexadecimal.
-/
import Mathlib

namespace AtlasRag.Platform.Sha256

def initial : List UInt32 :=
  [0x6a09e667, 0xbb67ae85, 0x3c6ef372, 0xa54ff53a, 0x510e527f, 0x9b05688c, 0x1f83d9ab, 0x5be0cd19]

def roundConstants : List UInt32 :=
  [0x428a2f98, 0x71374491, 0xb5c0fbcf, 0xe9b5dba5, 0x3956c25b, 0x59f111f1, 0x923f82a4, 0xab1c5ed5,
   0xd807aa98, 0x12835b01, 0x243185be, 0x550c7dc3, 0x72be5d74, 0x80deb1fe, 0x9bdc06a7, 0xc19bf174,
   0xe49b69c1, 0xefbe4786, 0x0fc19dc6, 0x240ca1cc, 0x2de92c6f, 0x4a7484aa, 0x5cb0a9dc, 0x76f988da,
   0x983e5152, 0xa831c66d, 0xb00327c8, 0xbf597fc7, 0xc6e00bf3, 0xd5a79147, 0x06ca6351, 0x14292967,
   0x27b70a85, 0x2e1b2138, 0x4d2c6dfc, 0x53380d13, 0x650a7354, 0x766a0abb, 0x81c2c92e, 0x92722c85,
   0xa2bfe8a1, 0xa81a664b, 0xc24b8b70, 0xc76c51a3, 0xd192e819, 0xd6990624, 0xf40e3585, 0x106aa070,
   0x19a4c116, 0x1e376c08, 0x2748774c, 0x34b0bcb5, 0x391c0cb3, 0x4ed8aa4a, 0x5b9cca4f, 0x682e6ff3,
   0x748f82ee, 0x78a5636f, 0x84c87814, 0x8cc70208, 0x90befffa, 0xa4506ceb, 0xbef9a3f7, 0xc67178f2]

def rotateRight (x n : UInt32) : UInt32 := (x >>> n) ||| (x <<< (32 - n))

def bigEndian (bytes : List UInt8) : UInt32 := bytes.foldl (fun x b => (x <<< 8) ||| b.toUInt32) 0

/-- the content, the byte 0x80, zeros, and the number of bits in 8 bytes -/
def pad (content : List UInt8) : List UInt8 :=
  let zeros := List.replicate ((119 - content.length % 64) % 64) 0
  let bits := (List.range 8).map fun i => UInt8.ofNat (8 * content.length / 256 ^ (7 - i))
  content ++ 0x80 :: (zeros ++ bits)

/-- one more word of the schedule; the list starts with the last word -/
def nextWord (w : List UInt32) : UInt32 :=
  let x := w.getD 14 0
  let y := w.getD 1 0
  (rotateRight y 17 ^^^ rotateRight y 19 ^^^ (y >>> 10)) + w.getD 6 0 +
    (rotateRight x 7 ^^^ rotateRight x 18 ^^^ (x >>> 3)) + w.getD 15 0

def expand : ℕ → List UInt32 → List UInt32
  | 0, w => w
  | n + 1, w => expand n (nextWord w :: w)

def schedule (block : List UInt8) : List UInt32 := (expand 48 ((block.toChunks 4).map bigEndian).reverse).reverse

def mixRound (s : List UInt32) (kw : UInt32 × UInt32) : List UInt32 :=
  match s with
  | [a, b, c, d, e, f, g, h] =>
    let t₁ := h + (rotateRight e 6 ^^^ rotateRight e 11 ^^^ rotateRight e 25) + ((e &&& f) ^^^ (~~~e &&& g)) + kw.1 + kw.2
    let t₂ := (rotateRight a 2 ^^^ rotateRight a 13 ^^^ rotateRight a 22) + ((a &&& b) ^^^ (a &&& c) ^^^ (b &&& c))
    [t₁ + t₂, a, b, c, d + t₁, e, f, g]
  | s => s

def compress (s : List UInt32) (block : List UInt8) : List UInt32 :=
  List.zipWith (· + ·) s ((roundConstants.zip (schedule block)).foldl mixRound s)

def hexWord (x : UInt32) : List Char := (List.range 8).map fun i => Nat.digitChar (x.toNat / 16 ^ (7 - i) % 16)

/-- `hexdigest` -/
def hexDigest (content : List UInt8) : String :=
  String.ofList (((pad content).toChunks 64).foldl compress initial |>.flatMap hexWord)

example : hexDigest [97, 98, 99] = "ba7816bf8f01cfea414140de5dae2223b00361a396177a9cb410ff61f20015ad" := by
  decide +kernel

/-! ## The digest fits its column -/

theorem mixRound_length {s : List UInt32} (kw : UInt32 × UInt32) (h : s.length = 8) : (mixRound s kw).length = 8 := by
  unfold mixRound
  split
  · rfl
  · exact h

theorem compress_length {s : List UInt32} (block : List UInt8) (h : s.length = 8) : (compress s block).length = 8 := by
  have hmixed : ((roundConstants.zip (schedule block)).foldl mixRound s).length = 8 :=
    List.foldlRecOn (motive := fun s => s.length = 8) _ mixRound h fun _ hs kw _ => mixRound_length kw hs
  rw [compress, List.length_zipWith, h, hmixed, Nat.min_self]

theorem hexDigest_length (content : List UInt8) : (hexDigest content).toList.length = 64 := by
  have hstate : (((pad content).toChunks 64).foldl compress initial).length = 8 :=
    List.foldlRecOn (motive := fun s => s.length = 8) _ compress rfl fun _ hs block _ => compress_length block hs
  rw [hexDigest, String.toList_ofList, List.length_flatMap]
  simp only [hexWord, List.length_map, List.length_range, List.map_const', List.sum_replicate, hstate]
  rfl

theorem nul_not_mem_hexDigest (content : List UInt8) : '\x00' ∉ (hexDigest content).toList := by
  have hchar : ∀ d < 16, '\x00' ≠ Nat.digitChar d := by decide
  intro h
  rw [hexDigest, String.toList_ofList] at h
  obtain ⟨word, -, h⟩ := List.mem_flatMap.1 h
  obtain ⟨i, -, h⟩ := List.mem_map.1 h
  exact hchar _ (Nat.mod_lt _ (by decide)) h.symm

end AtlasRag.Platform.Sha256
