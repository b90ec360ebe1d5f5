/-
`json.loads`: a JSON text, to which Python adds `NaN` and the infinities.

A value starts after whitespace and is read from the front of the text; each scanner returns the rest. Of two entries with
one key the later counts. Two escapes of surrogates that make a pair are one character, any other surrogate is kept. An
integer of more than 4300 digits raises `ValueError`, and nesting beyond `limit`, the interpreter's, raises
`RecursionError`. The scanners take fuel, in which recursion and loops are structural.

Results:
- `loads_ne_fuel`: the fuel is never spent;
- `head_of_loads_dict`: what is read as a dict starts with a brace.
-/
import AtlasRag.Platform.Value

namespace AtlasRag.Platform

/-- what `loads` raises; `fuel` is never raised -/
inductive LoadsError where
  /-- `JSONDecodeError` -/
  | decode
  /-- `ValueError` of `int` -/
  | digits
  | recursion
  | fuel
deriving DecidableEq, Repr

/-- `d[key] = value` -/
def Dict.set (d : Dict) (key : Str) (value : Value) : Dict :=
  if (d.get key).isSome then d.map fun e => if e.1 = key then (key, value) else e else d ++ [(key, value)]

namespace Loads

def isWhitespace (c : CodePoint) : Bool := c.val = 0x20 || c.val = 9 || c.val = 10 || c.val = 13

def skip (s : Str) : Str := s.dropWhile isWhitespace

def isDigit (c : CodePoint) : Bool := 0x30 ≤ c.val && c.val ≤ 0x39

/-! ## Strings -/

def hexDigit (c : CodePoint) : Option ℕ :=
  if 0x30 ≤ c.val ∧ c.val ≤ 0x39 then some (c.val - 0x30)
  else if 0x61 ≤ c.val ∧ c.val ≤ 0x66 then some (c.val - 0x57)
  else if 0x41 ≤ c.val ∧ c.val ≤ 0x46 then some (c.val - 0x37)
  else none

def hex4 : Str → Option (ℕ × Str)
  | a :: b :: c :: d :: s => do
    let a ← hexDigit a
    let b ← hexDigit b
    let c ← hexDigit c
    let d ← hexDigit d
    return (((a * 16 + b) * 16 + c) * 16 + d, s)
  | _ => none

/-- an escape of a low surrogate -/
def lowSurrogate : Str → Option (ℕ × Str)
  | b :: u :: s => if b = 0x5c ∧ u = 0x75 then (hex4 s).filter fun r => 0xdc00 ≤ r.1 ∧ r.1 ≤ 0xdfff else none
  | _ => none

/-- after `\u` -/
def scanUnicode (s : Str) : Except LoadsError (CodePoint × Str) :=
  match hex4 s with
  | none => .error .decode
  | some (n, s) =>
    match if 0xd800 ≤ n ∧ n ≤ 0xdbff then lowSurrogate s else none with
    | some (m, s) => .ok (.ofNat (0x10000 + (n - 0xd800) * 1024 + (m - 0xdc00)), s)
    | none => .ok (.ofNat n, s)

/-- the characters that stand for others after a backslash -/
def ESCAPES : List (CodePoint × CodePoint) :=
  [(0x22, 0x22), (0x5c, 0x5c), (0x2f, 0x2f), (0x62, 8), (0x66, 12), (0x6e, 10), (0x72, 13), (0x74, 9)]

/-- one character of a string, in which control characters are escaped -/
def scanChar : Str → Except LoadsError (CodePoint × Str)
  | [] => .error .decode
  | c :: s =>
    if c.val < 0x20 then .error .decode
    else if c ≠ 0x5c then .ok (c, s)
    else
      match s with
      | [] => .error .decode
      | e :: s =>
        if e = 0x75 then scanUnicode s
        else
          match ESCAPES.lookup e with
          | some c => .ok (c, s)
          | none => .error .decode

/-- after the opening quote -/
def scanString : ℕ → Str → Except LoadsError (Str × Str)
  | 0, _ => .error .fuel
  | fuel + 1, s =>
    if s.head? = some 0x22 then .ok ([], s.tail)
    else do
      let (c, s) ← scanChar s
      let (text, s) ← scanString fuel s
      return (c :: text, s)

/-! ## Numbers -/

def scanFraction : Str → Str
  | p :: s => if p = 0x2e ∧ s.takeWhile isDigit ≠ [] then p :: s.takeWhile isDigit else []
  | [] => []

def scanExponent : Str → Str
  | e :: s =>
    let sign := s.take (if s.head? = some 0x2b ∨ s.head? = some 0x2d then 1 else 0)
    let digits := (s.drop sign.length).takeWhile isDigit
    if (e = 0x65 ∨ e = 0x45) ∧ digits ≠ [] then e :: (sign ++ digits) else []
  | [] => []

def digitsValue (digits : Str) : ℕ := digits.foldl (fun n c => 10 * n + (c.val - 0x30)) 0

def scanNumber (s : Str) : Except LoadsError (Value × Str) :=
  let negative := s.head? = some 0x2d
  let sign := s.take (if negative then 1 else 0)
  let s := s.drop sign.length
  let integer := if s.head? = some 0x30 then s.take 1 else s.takeWhile isDigit
  if integer = [] then .error .decode
  else
    let s := s.drop integer.length
    let fraction := scanFraction s
    let s := s.drop fraction.length
    let exponent := scanExponent s
    let s := s.drop exponent.length
    if fraction = [] ∧ exponent = [] then
      if 4300 < integer.length then .error .digits
      else .ok (.int (if negative then - digitsValue integer else digitsValue integer), s)
    else .ok (.float (sign ++ integer ++ fraction ++ exponent), s)

/-! ## Values -/

def CONSTANTS : List (Str × Value) :=
  [(str "null", .null), (str "true", .bool true), (str "false", .bool false), (str "NaN", .float (str "NaN")),
    (str "Infinity", .float (str "Infinity")), (str "-Infinity", .float (str "-Infinity"))]

mutual

def scanValue (limit : ℕ) : ℕ → Str → Except LoadsError (Value × Str)
  | 0, _ => .error .fuel
  | fuel + 1, s =>
    if s.head? = some 0x22 then do
      let (text, s) ← scanString fuel s.tail
      return (.str text, s)
    else if s.head? = some 0x7b then
      if limit = 0 then .error .recursion
      else if (skip s.tail).head? = some 0x7d then .ok (.dict [], (skip s.tail).tail)
      else do
        let (entries, s) ← scanEntries (limit - 1) fuel [] (skip s.tail)
        return (.dict entries, s)
    else if s.head? = some 0x5b then
      if limit = 0 then .error .recursion
      else if (skip s.tail).head? = some 0x5d then .ok (.list [], (skip s.tail).tail)
      else do
        let (items, s) ← scanItems (limit - 1) fuel (skip s.tail)
        return (.list items, s)
    else
      match CONSTANTS.find? (·.1.isPrefixOf s) with
      | some (name, value) => .ok (value, s.drop name.length)
      | none => scanNumber s

/-- the items of a list, from the first -/
def scanItems (limit : ℕ) : ℕ → Str → Except LoadsError (List Value × Str)
  | 0, _ => .error .fuel
  | fuel + 1, s => do
    let (value, s) ← scanValue limit fuel s
    if (skip s).head? = some 0x5d then return ([value], (skip s).tail)
    else if (skip s).head? = some 0x2c then do
      let (items, s) ← scanItems limit fuel (skip (skip s).tail)
      return (value :: items, s)
    else .error .decode

/-- the entries of a dict, from a key; `entries` are collected -/
def scanEntries (limit : ℕ) : ℕ → Dict → Str → Except LoadsError (Dict × Str)
  | 0, _, _ => .error .fuel
  | fuel + 1, entries, s =>
    if s.head? ≠ some 0x22 then .error .decode
    else do
      let (key, s) ← scanString fuel s.tail
      if (skip s).head? ≠ some 0x3a then .error .decode
      else do
        let (value, s) ← scanValue limit fuel (skip (skip s).tail)
        if (skip s).head? = some 0x7d then return (entries.set key value, (skip s).tail)
        else if (skip s).head? = some 0x2c then scanEntries limit fuel (entries.set key value) (skip (skip s).tail)
        else .error .decode

end

end Loads

/-- `json.loads`; a byte order mark is refused -/
def loads (limit : ℕ) (text : Str) : Except LoadsError Value :=
  if text.head? = some 0xfeff then .error .decode
  else do
    let (value, s) ← Loads.scanValue limit (2 * text.length + 1) (Loads.skip text)
    if Loads.skip s = [] then return value else .error .decode

/-! ## Fuel -/

namespace Loads

/-- a scan that leaves less than `n` characters and has fuel enough -/
def Reads {α : Type} (n : ℕ) : Except LoadsError (α × Str) → Prop
  | .ok (_, rest) => rest.length < n
  | .error e => e ≠ .fuel

variable {α β : Type} {n m : ℕ}

theorem reads_bind {x : Except LoadsError (α × Str)} {f : α × Str → Except LoadsError (β × Str)} (hx : Reads n x)
    (hf : ∀ a rest, rest.length < n → Reads m (f (a, rest))) : Reads m (x >>= f) := by
  rcases x with e | ⟨a, rest⟩
  · exact hx
  · exact hf a rest hx

theorem reads_mono {x : Except LoadsError (α × Str)} (hx : Reads n x) (hle : n ≤ m) : Reads m x := by
  rcases x with e | ⟨a, rest⟩
  · exact hx
  · exact lt_of_lt_of_le hx hle

theorem reads_decode : Reads n (.error .decode : Except LoadsError (α × Str)) := by
  intro h
  cases h

theorem reads_recursion : Reads n (.error .recursion : Except LoadsError (α × Str)) := by
  intro h
  cases h

theorem skip_length (s : Str) : (skip s).length ≤ s.length := (List.dropWhile_sublist _).length_le

/-- a character is taken -/
theorem tail_length {s : Str} {c : CodePoint} (h : s.head? = some c) : s.tail.length + 1 = s.length := by
  cases s with
  | nil => cases h
  | cons c s => rfl

theorem hex4_length {s rest : Str} {k : ℕ} (h : hex4 s = some (k, rest)) : rest.length < s.length := by
  rw [hex4.eq_def] at h
  split at h
  · simp only [Option.bind_eq_bind, Option.pure_def, Option.bind_eq_some_iff, Option.some.injEq, Prod.mk.injEq] at h
    obtain ⟨-, -, -, -, -, -, -, -, -, rfl⟩ := h
    simp only [List.length_cons]
    omega
  · cases h

theorem lowSurrogate_length {s rest : Str} {k : ℕ} (h : lowSurrogate s = some (k, rest)) : rest.length < s.length := by
  rw [lowSurrogate.eq_def] at h
  split at h
  · split_ifs at h
    have hhex := hex4_length (Option.filter_eq_some_iff.1 h).1
    simp only [List.length_cons]
    omega
  · cases h

theorem reads_scanUnicode (s : Str) : Reads s.length (scanUnicode s) := by
  rw [scanUnicode]
  split
  · exact reads_decode
  · next k rest hhex =>
    have hrest := hex4_length hhex
    split
    · next m rest' hlow =>
      split_ifs at hlow
      exact (lowSurrogate_length hlow).trans hrest
    · exact hrest

theorem reads_scanChar (s : Str) : Reads s.length (scanChar s) := by
  rw [scanChar.eq_def]
  split
  · exact reads_decode
  · split_ifs
    · exact reads_decode
    · exact Nat.lt_succ_self _
    · split
      · exact reads_decode
      · split_ifs
        · exact reads_mono (reads_scanUnicode _) (by simp only [List.length_cons]; omega)
        · split
          · simp only [Reads, List.length_cons]
            omega
          · exact reads_decode

theorem reads_scanString {fuel : ℕ} {s : Str} (h : s.length < fuel) : Reads s.length (scanString fuel s) := by
  induction fuel generalizing s with
  | zero => cases h
  | succ fuel ih =>
    rw [scanString]
    split_ifs with hquote
    · have htail := tail_length hquote
      simp only [Reads]
      omega
    · refine reads_bind (reads_scanChar s) fun c rest hrest => ?_
      refine reads_bind (ih (by omega)) fun text rest' hrest' => ?_
      exact hrest'.trans hrest

theorem reads_scanNumber (s : Str) : Reads s.length (scanNumber s) := by
  rw [scanNumber]
  dsimp only
  generalize s.take (if s.head? = some 0x2d then 1 else 0) = sign
  generalize hs : s.drop sign.length = t
  have ht : t.length ≤ s.length := by
    rw [← hs, List.length_drop]
    omega
  generalize hinteger : (if t.head? = some 0x30 then t.take 1 else t.takeWhile isDigit) = integer
  have hprefix : integer.length ≤ t.length := by
    rw [← hinteger]
    split_ifs
    · exact List.length_take_le' 1 t
    · exact (List.takeWhile_sublist _).length_le
  by_cases hnone : integer = []
  · rw [if_pos hnone]
    exact reads_decode
  rw [if_neg hnone]
  have hpos := List.length_pos_iff.2 hnone
  split_ifs
  · exact fun h => (by cases h)
  all_goals
    simp only [Reads, List.length_drop]
    omega

theorem reads_constant {s : Str} {name : Str} {value : Value} (h : CONSTANTS.find? (·.1.isPrefixOf s) = some (name, value)) :
    Reads s.length (.ok (value, s.drop name.length)) := by
  have hnames : ∀ k ∈ CONSTANTS, k.1 ≠ [] := by simp [CONSTANTS, str]
  have hname : 0 < name.length := List.length_pos_iff.2 (hnames _ (List.mem_of_find?_eq_some h))
  have hprefix : name.length ≤ s.length :=
    (List.isPrefixOf_iff_prefix.1 (List.find?_some (p := fun k : Str × Value => k.1.isPrefixOf s) h)).length_le
  simp only [Reads, List.length_drop]
  omega

/-- **Fuel**: a list or a dict takes as much as twice its length, and one more than a value. -/
theorem reads_scanValue (fuel : ℕ) : (∀ limit (s : Str), 2 * s.length < fuel → Reads s.length (scanValue limit fuel s)) ∧
    (∀ limit (s : Str), 2 * s.length + 1 < fuel → Reads s.length (scanItems limit fuel s)) ∧
    ∀ limit entries (s : Str), 2 * s.length + 1 < fuel → Reads s.length (scanEntries limit fuel entries s) := by
  induction fuel with
  | zero => exact ⟨fun _ _ h => (by cases h), fun _ _ h => (by cases h), fun _ _ _ h => (by cases h)⟩
  | succ fuel ih =>
    obtain ⟨ihvalue, ihitems, ihentries⟩ := ih
    refine ⟨fun limit s h => ?_, fun limit s h => ?_, fun limit entries s h => ?_⟩
    · rw [scanValue]
      have hskip := skip_length s.tail
      split_ifs with hstring hdict hlimit hempty hlist hlimit hempty
      · have htail := tail_length hstring
        refine reads_bind (reads_scanString (by omega)) fun text rest hrest => ?_
        simp only [Reads, pure, Except.pure]
        omega
      · exact reads_recursion
      · have htail := tail_length hdict
        have hclose := tail_length hempty
        simp only [Reads]
        omega
      · have htail := tail_length hdict
        refine reads_bind (ihentries _ _ _ (by omega)) fun entries rest hrest => ?_
        simp only [Reads, pure, Except.pure]
        omega
      · exact reads_recursion
      · have htail := tail_length hlist
        have hclose := tail_length hempty
        simp only [Reads]
        omega
      · have htail := tail_length hlist
        refine reads_bind (ihitems _ _ (by omega)) fun items rest hrest => ?_
        simp only [Reads, pure, Except.pure]
        omega
      · split
        · next name value hfind => exact reads_constant hfind
        · exact reads_scanNumber s
    · rw [scanItems]
      refine reads_bind (ihvalue limit s (by omega)) fun value rest hrest => ?_
      have hskip := skip_length rest
      dsimp only
      split_ifs with hclose hcomma
      · have htail := tail_length hclose
        simp only [Reads, pure, Except.pure]
        omega
      · have htail := tail_length hcomma
        have hskip' := skip_length (skip rest).tail
        refine reads_bind (ihitems limit _ (by omega)) fun items rest' hrest' => ?_
        simp only [Reads, pure, Except.pure]
        omega
      · exact reads_decode
    · rw [scanEntries]
      split_ifs with hkey
      · exact reads_decode
      · have htail := tail_length (not_not.1 hkey)
        refine reads_bind (reads_scanString (by omega)) fun key rest hrest => ?_
        dsimp only
        split_ifs with hcolon
        · exact reads_decode
        · have hcolon' := tail_length (not_not.1 hcolon)
          have hskip := skip_length rest
          have hskip' := skip_length (skip rest).tail
          refine reads_bind (ihvalue limit _ (by omega)) fun value rest' hrest' => ?_
          have hskip'' := skip_length rest'
          dsimp only
          split_ifs with hclose hcomma
          · have hclose' := tail_length hclose
            simp only [Reads, pure, Except.pure]
            omega
          · have hcomma' := tail_length hcomma
            have hlast := skip_length (skip rest').tail
            exact reads_mono (ihentries limit _ _ (by omega)) (by omega)
          · exact reads_decode

end Loads

/-- **The fuel of `loads`** is never spent. -/
theorem loads_ne_fuel (limit : ℕ) (text : Str) : loads limit text ≠ .error .fuel := by
  have hskip := Loads.skip_length text
  have hreads := (Loads.reads_scanValue (2 * text.length + 1)).1 limit (Loads.skip text) (by omega)
  rw [loads]
  split_ifs
  · exact fun h => (by cases h)
  · revert hreads
    rcases Loads.scanValue limit (2 * text.length + 1) (Loads.skip text) with e | ⟨value, rest⟩
    · exact fun hreads h => hreads (Except.error.inj h)
    · intro _
      show (if Loads.skip rest = [] then (.ok value : Except LoadsError Value) else .error .decode) ≠ _
      split_ifs <;> exact fun h => (by cases h)

/-! ## Where a dict starts -/

namespace Loads

theorem not_dict_of_scanNumber {s rest : Str} {d : Dict} : scanNumber s ≠ .ok (.dict d, rest) := by
  rw [scanNumber]
  dsimp only
  split_ifs <;> exact fun h => (by cases h)

/-- a dict starts with a brace -/
theorem head_of_dict {limit fuel : ℕ} {s rest : Str} {d : Dict} (h : scanValue limit fuel s = .ok (.dict d, rest)) :
    s.head? = some 0x7b := by
  cases fuel with
  | zero => cases h
  | succ fuel =>
    rw [scanValue] at h
    by_cases hbrace : s.head? = some 0x7b
    · exact hbrace
    exfalso
    rw [if_neg hbrace] at h
    split_ifs at h
    · cases htext : scanString fuel s.tail with
      | error e => rw [htext] at h; cases h
      | ok r => rw [htext] at h; cases h
    · cases h
    · cases hitems : scanItems (limit - 1) fuel (skip s.tail) with
      | error e => rw [hitems] at h; cases h
      | ok r => rw [hitems] at h; cases h
    · split at h
      · next name value hfind =>
        have hmem := List.mem_of_find?_eq_some hfind
        obtain rfl : value = .dict d := congrArg Prod.fst (Except.ok.inj h)
        simp [CONSTANTS] at hmem
      · exact not_dict_of_scanNumber h

end Loads

/-- **A dict** starts, after whitespace, with a brace. -/
theorem head_of_loads_dict {limit : ℕ} {text : Str} {d : Dict} (h : loads limit text = .ok (.dict d)) :
    (Loads.skip text).head? = some 0x7b := by
  rw [loads] at h
  split_ifs at h
  cases hvalue : Loads.scanValue limit (2 * text.length + 1) (Loads.skip text) with
  | error e => rw [hvalue] at h; cases h
  | ok r =>
    obtain ⟨value, rest⟩ := r
    rw [hvalue] at h
    change (if Loads.skip rest = [] then (.ok value : Except LoadsError Value) else .error .decode) = _ at h
    split_ifs at h
    obtain rfl := Except.ok.inj h
    exact Loads.head_of_dict hvalue

end AtlasRag.Platform
