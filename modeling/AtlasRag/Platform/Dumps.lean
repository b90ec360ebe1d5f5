/-
JSON texts of Python values, the hash of a configuration, and what the columns of the database refuse of Python's strings
and values.

`dumps` is `json.dumps(value, sort_keys=True, separators=(",", ":"))`: an ASCII text, in which the keys of an object are
sorted. An integer of more than 4300 digits has none, since Python refuses to write it (`ValueError`), and neither has a
value that is nested deeper than `limit`, the interpreter's (`RecursionError`).

Results:
- `strColumn_eq_nil`, `storable_dict`: what a text column and a JSONB column accept.
-/
import AtlasRag.Platform.Sha256
import AtlasRag.Platform.Value

namespace AtlasRag.Platform

namespace Str

/-- the order of Python's strings -/
def le : Str → Str → Bool
  | [], _ => true
  | _ :: _, [] => false
  | a :: s, b :: t => if a = b then le s t else a.val < b.val

/-- four hexadecimal digits -/
def hex4 (n : ℕ) : Str := (List.range 4).map fun i => .ofNat (Nat.digitChar (n / 16 ^ (3 - i) % 16)).toNat

/-- a character of a JSON text, with `ensure_ascii`; one beyond the basic plane is a pair of surrogates -/
def escape (c : CodePoint) : Str :=
  let n := c.val
  if n = 0x22 then str "\\\""
  else if n = 0x5c then str "\\\\"
  else if n = 10 then str "\\n"
  else if n = 13 then str "\\r"
  else if n = 9 then str "\\t"
  else if n = 12 then str "\\f"
  else if n = 8 then str "\\b"
  else if 0x20 ≤ n ∧ n ≤ 0x7e then [c]
  else if n < 0x10000 then str "\\u" ++ hex4 n
  else str "\\u" ++ hex4 (0xd800 + (n - 0x10000) / 1024) ++ str "\\u" ++ hex4 (0xdc00 + (n - 0x10000) % 1024)

def quote (s : Str) : Str := str "\"" ++ s.flatMap escape ++ str "\""

end Str

/-- `sys.int_info.default_max_str_digits` -/
def MAX_STR_DIGITS : ℕ := 4300

/-- `int.__repr__` -/
def intText (n : ℤ) : Option Str := if 10 ^ MAX_STR_DIGITS ≤ n.natAbs then none else some (str (toString n))

def sortEntries (entries : List (Str × Str)) : List (Str × Str) := entries.insertionSort fun a b => a.1.le b.1 = true

mutual

/-- the text, whatever its nesting -/
def encode : Value → Option Str
  | .null => some (str "null")
  | .bool b => some (str (if b then "true" else "false"))
  | .int n => intText n
  | .float text => some text
  | .str s => some s.quote
  | .list items => (encodeItems items).map fun texts => str "[" ++ Str.join (str ",") texts ++ str "]"
  | .dict entries => (encodeEntries entries).map fun texts =>
    str "\x7b" ++ Str.join (str ",") ((sortEntries texts).map fun e => e.1.quote ++ str ":" ++ e.2) ++ str "\x7d"

def encodeItems : List Value → Option (List Str)
  | [] => some []
  | v :: vs => do
    let text ← encode v
    let texts ← encodeItems vs
    return text :: texts

def encodeEntries : List (Str × Value) → Option (List (Str × Str))
  | [] => some []
  | (k, v) :: es => do
    let text ← encode v
    let texts ← encodeEntries es
    return (k, text) :: texts

end

mutual

/-- how deep lists and dicts are nested -/
def Value.depth : Value → ℕ
  | .list items => depthItems items + 1
  | .dict entries => depthEntries entries + 1
  | _ => 0

def depthItems : List Value → ℕ
  | [] => 0
  | v :: vs => max v.depth (depthItems vs)

def depthEntries : List (Str × Value) → ℕ
  | [] => 0
  | (_, v) :: es => max v.depth (depthEntries es)

end

def dumps (limit : ℕ) (v : Value) : Option Str := if v.depth ≤ limit then encode v else none

/-- `canonical_configuration_hash` -/
def canonicalConfigurationHash (limit : ℕ) (configuration : Dict) : Option String := do
  let serialized ← dumps limit (.dict configuration)
  let bytes ← serialized.utf8
  return Sha256.hexDigest bytes

/-- the hash is that of the text -/
theorem hash_of_encode {limit limit' : ℕ} {x y : Dict} {hash hash' : String} (h : encode (.dict x) = encode (.dict y))
    (hx : canonicalConfigurationHash limit x = some hash) (hy : canonicalConfigurationHash limit' y = some hash') :
    hash = hash' := by
  simp only [canonicalConfigurationHash, dumps] at hx hy
  split_ifs at hx hy
  · rw [h] at hx
    exact Option.some.inj (hx.symm.trans hy)
  all_goals first | cases hx | cases hy

/-! ## Columns -/

/-- Postgres stores the string in a text column: it is encoded in UTF-8 and holds no NUL -/
def Str.Storable (s : Str) : Prop := (0 : CodePoint) ∉ s ∧ ¬ s.HasSurrogate

instance (s : Str) : Decidable s.Storable := inferInstanceAs (Decidable (_ ∧ _))

/-- whitespace is storable -/
theorem Str.storable_iff (s : Str) : s.Storable ↔ ∀ t ∈ s.tokens, t.Storable := by
  constructor
  · intro ⟨hnul, hsurrogate⟩ t ht
    exact ⟨fun h => hnul (Lib.Words.mem_of_mem_words ht h), fun h => hsurrogate ((hasSurrogate_iff s).2 ⟨t, ht, h⟩)⟩
  · intro h
    refine ⟨fun hnul => ?_, fun hsurrogate => ?_⟩
    · obtain ⟨t, ht, hmem⟩ := Lib.Words.exists_word hnul (by decide : CodePoint.isSpace 0 = false)
      exact (h t ht).1 hmem
    · obtain ⟨t, ht, hmem⟩ := (hasSurrogate_iff s).1 hsurrogate
      exact (h t ht).2 hmem

/-- the text of a string without surrogates -/
def Str.text (s : Str) : String := String.ofList (s.map fun c => Char.ofNat c.val)

theorem CodePoint.toNat_char {c : CodePoint} (h : c.isSurrogate = false) : (Char.ofNat c.val).toNat = c.val := by
  have hvalid : c.val.isValidChar := by
    have hlt := c.isLt
    simp only [isSurrogate, Bool.and_eq_false_iff, decide_eq_false_iff_not] at h
    rw [Nat.isValidChar]
    omega
  rw [Char.ofNat, dif_pos hvalid]
  rfl

/-- the text is stored iff the string is -/
theorem Str.fitsText_text {s : Str} (h : ¬ s.HasSurrogate) : FitsText none s.text ↔ s.Storable := by
  have hnul : '\x00' ∈ s.text.toList ↔ (0 : CodePoint) ∈ s := by
    rw [text, String.toList_ofList, List.mem_map]
    constructor
    · intro ⟨c, hc, hchar⟩
      have hsurrogate : c.isSurrogate = false := Bool.eq_false_iff.2 fun hs => h ⟨c, hc, hs⟩
      have hval : c.val = 0 := by rw [← CodePoint.toNat_char hsurrogate, hchar]; rfl
      obtain ⟨n, hn⟩ := c
      obtain rfl : n = 0 := hval
      exact hc
    · intro hc
      exact ⟨0, hc, rfl⟩
  rw [FitsText, Storable, hnul]
  simp [h]

/-- a string that is not blank has a text that is not -/
theorem Str.nonBlank_text {s : Str} (h : ¬ s.HasSurrogate) (hblank : s.strip ≠ []) : NonBlank s.text := by
  obtain ⟨c, hc, hspace⟩ : ∃ c ∈ s, c.isSpace = false := by
    by_contra hall
    push Not at hall
    apply hblank
    rw [← tokens_eq_nil, tokens, Lib.Words.words_eq_nil]
    exact fun c hc => by simpa using hall c hc
  refine ⟨Char.ofNat c.val, ?_, fun hchar => ?_⟩
  · rw [text, String.toList_ofList]
    exact List.mem_map_of_mem hc
  · have hsurrogate : c.isSurrogate = false := Bool.eq_false_iff.2 fun hs => h ⟨c, hc, hs⟩
    have hval : c.val = 32 := by rw [← CodePoint.toNat_char hsurrogate, hchar]; rfl
    rw [CodePoint.isSpace, hval] at hspace
    cases hspace

/-- a text column: VARCHAR(n) for `limit = some n`, TEXT for `none`; NULL always fits -/
def strColumn (column : String) (limit : Option ℕ) : Option Str → List Violation
  | none => []
  | some s =>
    (if ∃ n ∈ limit, n < s.length then [.tooLong column] else []) ++
      if s.Storable then [] else [.invalidText column]

@[simp] theorem strColumn_none (column : String) (limit : Option ℕ) : strColumn column limit none = [] := rfl

theorem strColumn_eq_nil {column : String} {limit : Option ℕ} {s : Str} :
    strColumn column limit (some s) = [] ↔ (∀ n ∈ limit, s.length ≤ n) ∧ s.Storable := by
  unfold strColumn
  by_cases h : s.Storable <;> simp [h]

mutual

/-- Postgres stores the value in a JSONB column: its strings are storable, and its numbers are finite -/
def Value.Storable : Value → Bool
  | .float text => text ∉ [str "NaN", str "Infinity", str "-Infinity"]
  | .str s => decide s.Storable
  | .list items => storableItems items
  | .dict entries => storableEntries entries
  | _ => true

def storableItems : List Value → Bool
  | [] => true
  | v :: vs => v.Storable && storableItems vs

def storableEntries : List (Str × Value) → Bool
  | [] => true
  | (k, v) :: es => decide k.Storable && v.Storable && storableEntries es

end

theorem storable_dict {entries : Dict} :
    (Value.dict entries).Storable = true ↔ ∀ e ∈ entries, e.1.Storable ∧ e.2.Storable = true := by
  rw [Value.Storable]
  induction entries with
  | nil => simp [storableEntries]
  | cons e es ih =>
    obtain ⟨k, v⟩ := e
    simp [storableEntries, ih, and_assoc]

/-- a JSONB column that takes an object -/
def jsonbColumn (column : String) (value : Dict) : List Violation :=
  if (Value.dict value).Storable then [] else [.invalidText column]

theorem jsonbColumn_eq_nil {column : String} {value : Dict} :
    jsonbColumn column value = [] ↔ (Value.dict value).Storable = true := by
  unfold jsonbColumn
  split_ifs with h <;> simp [h]

example : dumps 2 (.dict [(str "b", .list [.null, .int (-1)]), (str "a", .str (str "é\n"))]) =
    some (str "\x7b\"a\":\"\\u00e9\\n\",\"b\":[null,-1]\x7d") := by decide +kernel

end AtlasRag.Platform
