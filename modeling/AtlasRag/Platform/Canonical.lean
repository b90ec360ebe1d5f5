/-
The canonical text of a JSON value identifies it, up to the order of the keys of its objects.

A JSON value is built from objects with distinct keys, arrays, strings without surrogates, integers, Booleans and null. A text
is taken apart from the front, as in `Lib.Codes`; an integer ends where no digit follows.

Results:
- `scanChar_escape`: an escaped character is read back;
- `told`: two texts, before a delimiter, are told apart;
- `encode_eq_iff`: the texts are the same iff the values are, up to the order of keys;
- `exists_hash_iff`: what is hashed;
- `canonicalConfigurationHash_eq_iff`: the hashes are the same iff the values are, unless two texts collide.
-/
import Mathlib
import AtlasRag.Lib.Assoc
import AtlasRag.Lib.Codes
import AtlasRag.Lib.Lists
import AtlasRag.Platform.Dumps
import AtlasRag.Platform.Loads

namespace AtlasRag.Platform

open AtlasRag.Lib.Assoc AtlasRag.Lib.Codes AtlasRag.Lib.Lists

/-! ## Values -/

theorem Value.induct {P : Value → Prop} (null : P .null) (bool : ∀ b, P (.bool b)) (int : ∀ n, P (.int n))
    (float : ∀ text, P (.float text)) (str : ∀ s, P (.str s)) (list : ∀ items, (∀ v ∈ items, P v) → P (.list items))
    (dict : ∀ entries : Dict, (∀ e ∈ entries, P e.2) → P (.dict entries)) (v : Value) : P v :=
  @Value.rec P (fun items => ∀ v ∈ items, P v) (fun entries => ∀ e ∈ entries, P e.2) (fun e => P e.2) null bool int float str
    list dict (fun _ h => (by cases h)) (fun _ _ hv hvs => List.forall_mem_cons.2 ⟨hv, hvs⟩) (fun _ h => (by cases h))
    (fun _ _ he hes => List.forall_mem_cons.2 ⟨he, hes⟩) (fun _ _ hv => hv) v

mutual

/-- `p` holds of the value and of all values in it -/
def Value.All (p : Value → Prop) : Value → Prop
  | .list items => p (.list items) ∧ allItems p items
  | .dict entries => p (.dict entries) ∧ allEntries p entries
  | v => p v

def allItems (p : Value → Prop) : List Value → Prop
  | [] => True
  | v :: vs => v.All p ∧ allItems p vs

def allEntries (p : Value → Prop) : List (Str × Value) → Prop
  | [] => True
  | (_, v) :: es => v.All p ∧ allEntries p es

end

mutual

/-- the same JSON value, up to the order of keys: objects of one length, with the same under each key -/
def Value.Same : Value → Value → Prop
  | .list xs, w => ∃ ys, w = .list ys ∧ sameItems xs ys
  | .dict es, w => ∃ es', w = .dict es' ∧ es.length = es'.length ∧ sameEntries es es'
  | v, w => w = v

def sameItems : List Value → List Value → Prop
  | [], ys => ys = []
  | x :: xs, ys => ∃ y ys', ys = y :: ys' ∧ x.Same y ∧ sameItems xs ys'

def sameEntries : List (Str × Value) → Dict → Prop
  | [], _ => True
  | (k, v) :: es, d => (∃ w, d.get k = some w ∧ v.Same w) ∧ sameEntries es d

end

/-- what is said of one value: no floats, strings of Unicode scalar values, and distinct keys -/
def JsonNode : Value → Prop
  | .float _ => False
  | .str s => ¬ s.HasSurrogate
  | .dict entries => (entries.map Prod.fst).Nodup ∧ ∀ e ∈ entries, ¬ e.1.HasSurrogate
  | _ => True

def Value.IsJson : Value → Prop := Value.All JsonNode

/-- an integer that Python writes -/
def FewDigits : Value → Prop
  | .int n => n.natAbs < 10 ^ MAX_STR_DIGITS
  | _ => True

section

variable {p : Value → Prop} {items : List Value} {entries : Dict}

theorem all_list : (Value.list items).All p ↔ p (.list items) ∧ ∀ v ∈ items, v.All p := by
  have hitems : ∀ items, allItems p items ↔ ∀ v ∈ items, v.All p := by
    intro items
    induction items with
    | nil => simp [allItems]
    | cons v vs ih => rw [allItems, ih, List.forall_mem_cons]
  rw [Value.All, hitems]

theorem all_dict : (Value.dict entries).All p ↔ p (.dict entries) ∧ ∀ e ∈ entries, e.2.All p := by
  have hentries : ∀ entries, allEntries p entries ↔ ∀ e ∈ entries, e.2.All p := by
    intro entries
    induction entries with
    | nil => simp [allEntries]
    | cons e es ih => rw [allEntries, ih, List.forall_mem_cons]
  rw [Value.All, hentries]

theorem sameItems_iff {xs ys : List Value} : sameItems xs ys ↔ List.Forall₂ Value.Same xs ys := by
  induction xs generalizing ys with
  | nil => simp [sameItems]
  | cons x xs ih =>
    rw [sameItems, List.forall₂_cons_left_iff]
    constructor
    · intro ⟨y, ys', hys, hxy, hrest⟩
      exact ⟨y, ys', hxy, ih.1 hrest, hys⟩
    · intro ⟨y, ys', hxy, hrest, hys⟩
      exact ⟨y, ys', hys, hxy, ih.2 hrest⟩

theorem sameEntries_iff {es : Dict} : sameEntries es entries ↔ ∀ e ∈ es, ∃ w, entries.get e.1 = some w ∧ e.2.Same w := by
  induction es with
  | nil => simp [sameEntries]
  | cons e es ih => rw [sameEntries, ih, List.forall_mem_cons]

theorem encodeItems_eq_some {texts : List Str} :
    encodeItems items = some texts ↔ List.Forall₂ (fun v t => encode v = some t) items texts := by
  induction items generalizing texts with
  | nil => simp [encodeItems, eq_comm]
  | cons v vs ih =>
    rw [encodeItems, List.forall₂_cons_left_iff]
    simp only [Option.bind_eq_bind, Option.bind_eq_some_iff, Option.pure_def, Option.some.injEq, ih, @eq_comm _ texts,
      exists_and_left]

theorem encodeEntries_eq_some {texts : List (Str × Str)} :
    encodeEntries entries = some texts ↔ List.Forall₂ (fun e t => e.1 = t.1 ∧ encode e.2 = some t.2) entries texts := by
  induction entries generalizing texts with
  | nil => simp [encodeEntries, eq_comm]
  | cons e es ih =>
    obtain ⟨k, v⟩ := e
    rw [encodeEntries, List.forall₂_cons_left_iff]
    simp only [Option.bind_eq_bind, Option.bind_eq_some_iff, Option.pure_def, Option.some.injEq, ih]
    constructor
    · intro ⟨t, ht, ts, hts, htexts⟩
      exact ⟨(k, t), ts, ⟨rfl, ht⟩, hts, htexts.symm⟩
    · intro ⟨(k', t), ts, ⟨hk, ht⟩, hts, htexts⟩
      obtain rfl : k = k' := hk
      exact ⟨t, ht, ts, hts, htexts.symm⟩

end

/-! ## Strings -/

theorem ofNat_val (c : CodePoint) : CodePoint.ofNat c.val = c := by
  obtain ⟨n, hn⟩ := c
  simp only [CodePoint.ofNat, CodePoint.mk.injEq]
  exact Nat.mod_eq_of_lt hn

theorem hexDigit_digitChar {d : ℕ} (h : d < 16) : Loads.hexDigit (.ofNat (Nat.digitChar d).toNat) = some d := by
  have hall : ∀ d : Fin 16, Loads.hexDigit (.ofNat (Nat.digitChar d).toNat) = some d.val := by decide
  exact hall ⟨d, h⟩

/-- four hexadecimal digits are read back -/
theorem hex4_hex4 {n : ℕ} (h : n < 65536) (r : Str) : Loads.hex4 (Str.hex4 n ++ r) = some (n, r) := by
  have hdigits : Str.hex4 n = [.ofNat (Nat.digitChar (n / 4096 % 16)).toNat, .ofNat (Nat.digitChar (n / 256 % 16)).toNat,
      .ofNat (Nat.digitChar (n / 16 % 16)).toNat, .ofNat (Nat.digitChar (n / 1 % 16)).toNat] := rfl
  have hmod : ∀ k, n / k % 16 < 16 := fun k => Nat.mod_lt _ (by decide)
  have hsum : ((n / 4096 % 16 * 16 + n / 256 % 16) * 16 + n / 16 % 16) * 16 + n / 1 % 16 = n := by omega
  rw [hdigits]
  simp only [List.cons_append, List.nil_append, Loads.hex4, hexDigit_digitChar (hmod _), Option.bind_eq_bind,
    Option.bind_some, Option.pure_def, hsum]

theorem scanChar_unicode (s : Str) : Loads.scanChar (str "\\u" ++ s) = Loads.scanUnicode s := rfl

theorem scanUnicode_hex4 {n : ℕ} (h : n < 65536) (hhigh : ¬ (0xd800 ≤ n ∧ n ≤ 0xdbff)) (r : Str) :
    Loads.scanUnicode (Str.hex4 n ++ r) = .ok (.ofNat n, r) := by
  rw [Loads.scanUnicode, hex4_hex4 h]
  simp only [if_neg hhigh]

theorem lowSurrogate_hex4 {m : ℕ} (h : 0xdc00 ≤ m ∧ m ≤ 0xdfff) (r : Str) :
    Loads.lowSurrogate (str "\\u" ++ Str.hex4 m ++ r) = some (m, r) := by
  rw [List.append_assoc]
  show Option.filter _ (Loads.hex4 (Str.hex4 m ++ r)) = _
  rw [hex4_hex4 (by omega)]
  exact Option.filter_some_pos (by simpa using h)

/-- a pair of surrogates is one character -/
theorem scanUnicode_pair {n m : ℕ} (hn : 0xd800 ≤ n ∧ n ≤ 0xdbff) (hm : 0xdc00 ≤ m ∧ m ≤ 0xdfff) (r : Str) :
    Loads.scanUnicode (Str.hex4 n ++ (str "\\u" ++ Str.hex4 m ++ r)) =
      .ok (.ofNat (0x10000 + (n - 0xd800) * 1024 + (m - 0xdc00)), r) := by
  rw [Loads.scanUnicode, hex4_hex4 (by omega)]
  simp only [if_pos hn, lowSurrogate_hex4 hm]

/-- **An escaped character** is read back. -/
theorem scanChar_escape {c : CodePoint} (h : c.isSurrogate = false) (r : Str) :
    Loads.scanChar (Str.escape c ++ r) = .ok (c, r) := by
  have hval := ofNat_val c
  have hlt := c.isLt
  simp only [CodePoint.isSurrogate, Bool.and_eq_false_iff, decide_eq_false_iff_not] at h
  rw [Str.escape]
  split_ifs with hquote hbackslash hnewline hreturn htab hfeed hback hplain hbasic
  · rw [← hval, hquote]; rfl
  · rw [← hval, hbackslash]; rfl
  · rw [← hval, hnewline]; rfl
  · rw [← hval, hreturn]; rfl
  · rw [← hval, htab]; rfl
  · rw [← hval, hfeed]; rfl
  · rw [← hval, hback]; rfl
  · -- the character itself
    have hne : c ≠ 0x5c := fun heq => hbackslash (by rw [heq]; rfl)
    rw [List.singleton_append, Loads.scanChar.eq_def]
    simp only [if_neg (show ¬ c.val < 0x20 by omega), if_pos hne]
  · -- one unit
    rw [List.append_assoc, scanChar_unicode, scanUnicode_hex4 hbasic (by omega), hval]
  · -- a pair
    generalize hhigh : 0xd800 + (c.val - 0x10000) / 1024 = high
    generalize hlow : 0xdc00 + (c.val - 0x10000) % 1024 = low
    have hsum : 0x10000 + (high - 0xd800) * 1024 + (low - 0xdc00) = c.val := by omega
    rw [List.append_assoc, List.append_assoc, List.append_assoc, scanChar_unicode, ← List.append_assoc (str _),
      scanUnicode_pair (by omega) (by omega), hsum, hval]

/-- no escaped character begins with a quote -/
theorem escape_ne_quote {c : CodePoint} (h : c.isSurrogate = false) (r r' : Str) : 0x22 :: r ≠ Str.escape c ++ r' := by
  intro heq
  have hquote : Loads.scanChar (0x22 :: r) = .ok (0x22, r) := rfl
  rw [heq, scanChar_escape h] at hquote
  obtain rfl : c = 0x22 := congrArg Prod.fst (Except.ok.inj hquote)
  exact absurd (List.cons.inj heq).1 (by decide)

theorem escapes_inj {s t r r' : Str} (hs : ¬ s.HasSurrogate) (ht : ¬ t.HasSurrogate)
    (h : s.flatMap Str.escape ++ 0x22 :: r = t.flatMap Str.escape ++ 0x22 :: r') : s = t ∧ r = r' := by
  have hhead : ∀ {c : CodePoint} {s : Str}, ¬ Str.HasSurrogate (c :: s) → c.isSurrogate = false := fun hc =>
    Bool.eq_false_iff.2 fun hsurrogate => hc ⟨_, List.mem_cons_self, hsurrogate⟩
  have htail : ∀ {c : CodePoint} {s : Str}, ¬ Str.HasSurrogate (c :: s) → ¬ s.HasSurrogate := fun hc ⟨d, hd, hsurrogate⟩ =>
    hc ⟨d, List.mem_cons_of_mem _ hd, hsurrogate⟩
  induction s generalizing t with
  | nil =>
    cases t with
    | nil => exact ⟨rfl, (List.cons.inj h).2⟩
    | cons d t =>
      rw [List.flatMap_cons, List.append_assoc] at h
      exact absurd h (escape_ne_quote (hhead ht) _ _)
  | cons c s ih =>
    cases t with
    | nil =>
      rw [List.flatMap_cons, List.append_assoc] at h
      exact absurd h.symm (escape_ne_quote (hhead hs) _ _)
    | cons d t =>
      rw [List.flatMap_cons, List.flatMap_cons, List.append_assoc, List.append_assoc] at h
      -- the first character is read back from both
      have hscan := congrArg Loads.scanChar h
      rw [scanChar_escape (hhead hs), scanChar_escape (hhead ht)] at hscan
      obtain ⟨rfl, hrest⟩ := Prod.mk.inj (Except.ok.inj hscan)
      obtain ⟨rfl, hr⟩ := ih (htail hs) (htail ht) hrest
      exact ⟨rfl, hr⟩

/-- A quoted string determines the string, and what follows it. -/
theorem quote_inj {s t r r' : Str} (hs : ¬ s.HasSurrogate) (ht : ¬ t.HasSurrogate) (h : s.quote ++ r = t.quote ++ r') :
    s = t ∧ r = r' := by
  have hquote : ∀ (s r : Str), s.quote ++ r = 0x22 :: (s.flatMap Str.escape ++ 0x22 :: r) := by
    intro s r
    rw [Str.quote, List.append_assoc, List.append_assoc]
    rfl
  rw [hquote, hquote] at h
  exact escapes_inj hs ht (List.cons.inj h).2

/-! ## Integers -/

/-- the characters of the text of an integer -/
def NumChar (c : CodePoint) : Prop := c = 0x2d ∨ 0x30 ≤ c.val ∧ c.val ≤ 0x39

instance (c : CodePoint) : Decidable (NumChar c) := inferInstanceAs (Decidable (_ ∨ _))

/-- no integer goes on here -/
def Stop (r : Str) : Prop := ∀ c ∈ r.head?, ¬ NumChar c

theorem takeWhile_num {t r : Str} (ht : ∀ c ∈ t, NumChar c) (hr : Stop r) : (t ++ r).takeWhile NumChar = t := by
  rw [List.takeWhile_append_of_pos (by simpa using ht)]
  cases r with
  | nil => simp
  | cons c r => simp [hr c rfl]

theorem apart_num {t t' : Str} (ht : ∀ c ∈ t, NumChar c) (ht' : ∀ c ∈ t', NumChar c) : Apart Stop t t' := by
  intro r r' hr hr' h
  rw [← takeWhile_num ht hr, h, takeWhile_num ht' hr']

theorem str_injective {s t : String} (h : str s = str t) : s = t := by
  have hchar : ∀ c d : Char, CodePoint.ofNat c.toNat = CodePoint.ofNat d.toNat → c = d := by
    intro c d hcd
    have hlt : ∀ c : Char, c.toNat < 0x110000 := fun c => by
      have hvalid : c.toNat.isValidChar := c.valid
      rw [Nat.isValidChar] at hvalid
      omega
    have hval := CodePoint.mk.inj hcd
    rw [Nat.mod_eq_of_lt (hlt c), Nat.mod_eq_of_lt (hlt d)] at hval
    exact Char.toNat_inj.1 hval
  exact String.toList_inj.1 (List.map_injective_iff.2 (fun c d => hchar c d) h)

theorem num_of_isDigit {d : Char} (h : d.isDigit = true) : NumChar (.ofNat d.toNat) := by
  have hdigit : 0x30 ≤ d.toNat ∧ d.toNat ≤ 0x39 := by
    rw [Char.isDigit, Bool.and_eq_true, decide_eq_true_eq, decide_eq_true_eq] at h
    exact ⟨UInt32.le_iff_toNat_le.1 h.1, UInt32.le_iff_toNat_le.1 h.2⟩
  have hval : (CodePoint.ofNat d.toNat).val = d.toNat := Nat.mod_eq_of_lt (by omega)
  exact .inr (by rw [hval]; exact hdigit)

/-- the text of a natural number -/
theorem num_of_mem_repr {n : ℕ} {c : CodePoint} (h : c ∈ str n.repr) : NumChar c := by
  obtain ⟨d, hd, rfl⟩ := List.mem_map.1 h
  rw [Nat.toList_repr] at hd
  exact num_of_isDigit (Nat.isDigit_of_mem_toDigits (by decide) (by decide) hd)

theorem repr_ne_nil (n : ℕ) : str n.repr ≠ [] := by
  rw [str, Nat.toList_repr]
  exact fun h => Nat.toDigits_ne_nil (List.map_eq_nil_iff.1 h)

theorem intText_eq_some {n : ℤ} {t : Str} (h : intText n = some t) : t = str n.repr := by
  rw [intText] at h
  split at h
  · cases h
  · exact (Option.some.inj h).symm

theorem intText_inj {n m : ℤ} {t : Str} (hn : intText n = some t) (hm : intText m = some t) : n = m :=
  Int.repr_injective (str_injective ((intText_eq_some hn).symm.trans (intText_eq_some hm)))

theorem num_of_mem_intText {n : ℤ} {t : Str} (h : intText n = some t) : ∀ c ∈ t, NumChar c := by
  obtain rfl := intText_eq_some h
  cases n with
  | ofNat n => exact fun c hc => num_of_mem_repr hc
  | negSucc n =>
    have htext : str (Int.negSucc n).repr = 0x2d :: str (n + 1).repr := by
      show str ("-" ++ (n + 1).repr) = _
      rw [str, String.toList_append, List.map_append]
      rfl
    rw [htext]
    exact List.forall_mem_cons.2 ⟨.inl rfl, fun c hc => num_of_mem_repr hc⟩

theorem intText_ne_nil {n : ℤ} : intText n ≠ some [] := by
  intro h
  have hnil := intText_eq_some h
  cases n with
  | ofNat n => exact repr_ne_nil n hnil.symm
  | negSucc n =>
    rw [str, eq_comm, List.map_eq_nil_iff] at hnil
    have happend : ("-" ++ (n + 1).repr).toList = [] := hnil
    rw [String.toList_append] at happend
    cases happend

/-! ## The first character -/

inductive Kind
  | null
  | bool (b : Bool)
  | int
  | float
  | str
  | list
  | dict

def Value.kind : Value → Kind
  | .null => .null
  | .bool b => .bool b
  | .int _ => .int
  | .float _ => .float
  | .str _ => .str
  | .list _ => .list
  | .dict _ => .dict

/-- the kind of the values whose texts begin with the character -/
def kindOf (c : CodePoint) : Option Kind :=
  if NumChar c then some .int
  else if c = 0x6e then some .null
  else if c = 0x74 then some (.bool true)
  else if c = 0x66 then some (.bool false)
  else if c = 0x22 then some .str
  else if c = 0x5b then some .list
  else if c = 0x7b then some .dict
  else none

/-- **The first character** tells the kind of the value. -/
theorem kindOf_encode {v : Value} {t : Str} (hv : JsonNode v) (h : encode v = some t) :
    ∃ c t', t = c :: t' ∧ kindOf c = some v.kind := by
  cases v with
  | null => exact ⟨_, _, (Option.some.inj h).symm, rfl⟩
  | bool b =>
    cases b with
    | false => exact ⟨_, _, (Option.some.inj h).symm, rfl⟩
    | true => exact ⟨_, _, (Option.some.inj h).symm, rfl⟩
  | int n =>
    cases t with
    | nil => exact absurd h intText_ne_nil
    | cons c t => exact ⟨c, t, rfl, if_pos (num_of_mem_intText h c List.mem_cons_self)⟩
  | float text => exact hv.elim
  | str s => exact ⟨_, _, (Option.some.inj h).symm, rfl⟩
  | list items =>
    obtain ⟨texts, -, ht⟩ := Option.map_eq_some_iff.1 h
    exact ⟨_, _, ht.symm, rfl⟩
  | dict entries =>
    obtain ⟨texts, -, ht⟩ := Option.map_eq_some_iff.1 h
    exact ⟨_, _, ht.symm, rfl⟩

/-- texts with a common beginning are of values of one kind -/
theorem kind_eq {v w : Value} {s t r r' : Str} (hv : JsonNode v) (hw : JsonNode w) (hs : encode v = some s)
    (ht : encode w = some t) (h : s ++ r = t ++ r') : v.kind = w.kind := by
  obtain ⟨c, s', rfl, hc⟩ := kindOf_encode hv hs
  obtain ⟨d, t', rfl, hd⟩ := kindOf_encode hw ht
  rw [(List.cons.inj h).1, hd] at hc
  exact (Option.some.inj hc).symm

theorem opens_of_encode {v : Value} {t : Str} {close : CodePoint} (hv : JsonNode v) (h : encode v = some t)
    (hclose : kindOf close = none) : Opens close t := by
  obtain ⟨c, t', rfl, hc⟩ := kindOf_encode hv h
  refine ⟨c, t', rfl, fun heq => ?_⟩
  rw [heq, hclose] at hc
  cases hc

/-! ## Texts -/

theorem Value.All.node {p : Value → Prop} {v : Value} (h : v.All p) : p v := by
  cases v with
  | list items => exact (all_list.1 h).1
  | dict entries => exact (all_dict.1 h).1
  | _ => exact h

theorem stop_comma (r : Str) : Stop (0x2c :: r) := by
  intro c hc
  obtain rfl : 0x2c = c := Option.some.inj hc
  decide

theorem stop_bracket (r : Str) : Stop (0x5d :: r) := by
  intro c hc
  obtain rfl : 0x5d = c := Option.some.inj hc
  decide

theorem stop_brace (r : Str) : Stop (0x7d :: r) := by
  intro c hc
  obtain rfl : 0x7d = c := Option.some.inj hc
  decide

/-- one entry of an object -/
def pieceOf (e : Str × Str) : Str := e.1.quote ++ str ":" ++ e.2

theorem encode_list {items : List Value} {t : Str} (h : encode (.list items) = some t) :
    ∃ texts, List.Forall₂ (fun v t => encode v = some t) items texts ∧
      t = 0x5b :: ([0x2c].intercalate texts ++ [0x5d]) := by
  obtain ⟨texts, htexts, ht⟩ := Option.map_eq_some_iff.1 h
  refine ⟨texts, encodeItems_eq_some.1 htexts, ht.symm⟩

theorem encode_dict {entries : Dict} {t : Str} (h : encode (.dict entries) = some t) :
    ∃ texts, List.Forall₂ (fun e t => e.1 = t.1 ∧ encode e.2 = some t.2) entries texts ∧
      t = 0x7b :: ([0x2c].intercalate ((sortEntries texts).map pieceOf) ++ [0x7d]) := by
  obtain ⟨texts, htexts, ht⟩ := Option.map_eq_some_iff.1 h
  exact ⟨texts, encodeEntries_eq_some.1 htexts, ht.symm⟩

/-- before a stop, the text of the value tells it from all others -/
def Told (v : Value) : Prop :=
  v.IsJson → ∀ w : Value, w.IsJson → ∀ s t, encode v = some s → encode w = some t →
    ∀ r r', Stop r → Stop r' → s ++ r = t ++ r' → s = t ∧ v.Same w

theorem Told.apart {v w : Value} {s t : Str} (h : Told v) (hv : v.IsJson) (hw : w.IsJson) (hs : encode v = some s)
    (ht : encode w = some t) : Apart Stop s t := fun r r' hr hr' heq => (h hv w hw s t hs ht r r' hr hr' heq).1

theorem Told.same {v w : Value} {t : Str} (h : Told v) (hv : v.IsJson) (hw : w.IsJson) (hs : encode v = some t)
    (ht : encode w = some t) : v.Same w :=
  (h hv w hw t t hs ht [] [] (fun c hc => by cases hc) (fun c hc => by cases hc) rfl).2

theorem told_list {items : List Value} (ih : ∀ v ∈ items, Told v) : Told (.list items) := by
  intro hv w hw s t hs ht r r' hr hr' h
  have hkind := kind_eq hv.node hw.node hs ht h
  cases w with
  | list items' =>
    obtain ⟨xs, hxs, rfl⟩ := encode_list hs
    obtain ⟨ys, hys, rfl⟩ := encode_list ht
    obtain ⟨-, hitems⟩ := all_list.1 hv
    obtain ⟨-, hitems'⟩ := all_list.1 hw
    have hopens : ∀ {items : List Value} {texts : List Str}, (∀ v ∈ items, v.IsJson) →
        List.Forall₂ (fun v t => encode v = some t) items texts → ∀ x ∈ texts, Opens 0x5d x := by
      intro items texts hjson htexts x hx
      obtain ⟨v, hv, hvx⟩ := exists_of_mem htexts.flip x hx
      exact opens_of_encode (hjson v hv).node hvx rfl
    have hapart : ∀ x ∈ xs, ∀ y ∈ ys, Apart Stop x y := by
      intro x hx y hy
      obtain ⟨v, hv, hvx⟩ := exists_of_mem hxs.flip x hx
      obtain ⟨w, hw, hwy⟩ := exists_of_mem hys.flip y hy
      exact (ih v hv).apart (hitems v hv) (hitems' w hw) hvx hwy
    obtain ⟨rfl, -⟩ := sequence_inj (by decide) stop_comma stop_bracket (hopens hitems hxs) (hopens hitems' hys) hapart
      (List.cons.inj h).2
    refine ⟨rfl, items', rfl, sameItems_iff.2 ((forall₂_join hxs hys).imp ?_)⟩
    intro v w ⟨hv, hw, text, hvt, hwt⟩
    exact (ih v hv).same (hitems v hv) (hitems' w hw) hvt hwt
  | _ => cases hkind

/-- the entries of an object, from the pieces of its text -/
theorem apart_piece {v w : Value} {k k' s t : Str} (h : Told v) (hv : v.IsJson) (hw : w.IsJson) (hk : ¬ k.HasSurrogate)
    (hk' : ¬ k'.HasSurrogate) (hs : encode v = some s) (ht : encode w = some t) :
    Apart Stop (pieceOf (k, s)) (pieceOf (k', t)) := by
  intro r r' hr hr' heq
  rw [pieceOf, pieceOf, List.append_assoc, List.append_assoc, List.append_assoc, List.append_assoc] at heq
  obtain ⟨rfl, hrest⟩ := quote_inj hk hk' heq
  obtain rfl := h.apart hv hw hs ht r r' hr hr' (List.cons.inj hrest).2
  rfl

theorem pieceOf_inj {e e' : Str × Str} (h : ¬ e.1.HasSurrogate) (h' : ¬ e'.1.HasSurrogate) (heq : pieceOf e = pieceOf e') :
    e = e' := by
  rw [pieceOf, pieceOf, List.append_assoc, List.append_assoc] at heq
  obtain ⟨hkey, hrest⟩ := quote_inj h h' heq
  exact Prod.ext hkey (List.cons.inj hrest).2

theorem map_pieceOf_inj {xs ys : List (Str × Str)} (hxs : ∀ e ∈ xs, ¬ e.1.HasSurrogate) (hys : ∀ e ∈ ys, ¬ e.1.HasSurrogate)
    (h : xs.map pieceOf = ys.map pieceOf) : xs = ys := by
  induction xs generalizing ys with
  | nil => exact (List.map_eq_nil_iff.1 h.symm).symm
  | cons x xs ih =>
    cases ys with
    | nil => cases h
    | cons y ys =>
      obtain ⟨hxy, hrest⟩ := List.cons.inj h
      obtain rfl := pieceOf_inj (hxs x List.mem_cons_self) (hys y List.mem_cons_self) hxy
      rw [ih (fun e he => hxs e (List.mem_cons_of_mem _ he)) (fun e he => hys e (List.mem_cons_of_mem _ he)) hrest]

theorem mem_sortEntries {texts : List (Str × Str)} {x : Str × Str} : x ∈ sortEntries texts ↔ x ∈ texts :=
  (List.perm_insertionSort _ _).mem_iff

theorem length_sortEntries {texts : List (Str × Str)} : (sortEntries texts).length = texts.length :=
  List.length_insertionSort _ _

/-- the keys of the texts are those of the object -/
theorem scalar_keys {entries : Dict} {texts : List (Str × Str)} (hkeys : ∀ e ∈ entries, ¬ e.1.HasSurrogate)
    (h : List.Forall₂ (fun e t => e.1 = t.1 ∧ encode e.2 = some t.2) entries texts) :
    ∀ x ∈ sortEntries texts, ¬ x.1.HasSurrogate := by
  intro x hx
  obtain ⟨e, he, hk, -⟩ := exists_of_mem h.flip x (mem_sortEntries.1 hx)
  exact hk ▸ hkeys e he

theorem told_dict {entries : Dict} (ih : ∀ e ∈ entries, Told e.2) : Told (.dict entries) := by
  intro hv w hw s t hs ht r r' hr hr' h
  have hkind := kind_eq hv.node hw.node hs ht h
  cases w with
  | dict entries' =>
    obtain ⟨xs, hxs, rfl⟩ := encode_dict hs
    obtain ⟨ys, hys, rfl⟩ := encode_dict ht
    obtain ⟨⟨hnodup, hkeys⟩, hentries⟩ := all_dict.1 hv
    obtain ⟨⟨hnodup', hkeys'⟩, hentries'⟩ := all_dict.1 hw
    have hopens : ∀ texts : List (Str × Str), ∀ x ∈ (sortEntries texts).map pieceOf, Opens 0x7d x := by
      intro texts x hx
      obtain ⟨e, -, rfl⟩ := List.mem_map.1 hx
      exact ⟨0x22, _, rfl, by decide⟩
    have hapart : ∀ x ∈ (sortEntries xs).map pieceOf, ∀ y ∈ (sortEntries ys).map pieceOf, Apart Stop x y := by
      intro x hx y hy
      obtain ⟨⟨k, s⟩, he, rfl⟩ := List.mem_map.1 hx
      obtain ⟨⟨k', t⟩, he', rfl⟩ := List.mem_map.1 hy
      obtain ⟨e, hmem, rfl, hs⟩ := exists_of_mem hxs.flip _ (mem_sortEntries.1 he)
      obtain ⟨e', hmem', rfl, ht⟩ := exists_of_mem hys.flip _ (mem_sortEntries.1 he')
      exact apart_piece (ih e hmem) (hentries e hmem) (hentries' e' hmem') (hkeys e hmem) (hkeys' e' hmem') hs ht
    obtain ⟨hpieces, -⟩ := sequence_inj (by decide) stop_comma stop_brace (hopens xs) (hopens ys) hapart (List.cons.inj h).2
    have hsorted : sortEntries xs = sortEntries ys := map_pieceOf_inj (scalar_keys hkeys hxs) (scalar_keys hkeys' hys) hpieces
    have hmem : ∀ x, x ∈ xs ↔ x ∈ ys := fun x => by rw [← mem_sortEntries, hsorted, mem_sortEntries]
    have hlength : xs.length = ys.length := by rw [← length_sortEntries, hsorted, length_sortEntries]
    refine ⟨by rw [hpieces], entries', rfl, hxs.length_eq.trans (hlength.trans hys.length_eq.symm), sameEntries_iff.2 ?_⟩
    intro e he
    obtain ⟨x, hx, hkx, hdx⟩ := exists_of_mem hxs e he
    obtain ⟨e', he', hkx', hdx'⟩ := exists_of_mem hys.flip x ((hmem x).1 hx)
    refine ⟨e'.2, (lookup_eq_some_iff hnodup').2 (by rwa [hkx, ← hkx']), ?_⟩
    exact (ih e he).same (hentries e he) (hentries' e' he') hdx hdx'
  | _ => cases hkind

/-- **The text of a value** tells it, up to the order of keys, from all others. -/
theorem told (v : Value) : Told v := by
  induction v using Value.induct with
  | null =>
    intro hv w hw s t hs ht r r' hr hr' h
    have hkind := kind_eq hv.node hw.node hs ht h
    cases w with
    | null => exact ⟨Option.some.inj (hs.symm.trans ht), rfl⟩
    | _ => cases hkind
  | bool b =>
    intro hv w hw s t hs ht r r' hr hr' h
    have hkind := kind_eq hv.node hw.node hs ht h
    cases w with
    | bool b' =>
      obtain rfl : b = b' := Kind.bool.inj hkind
      exact ⟨Option.some.inj (hs.symm.trans ht), rfl⟩
    | _ => cases hkind
  | int n =>
    intro hv w hw s t hs ht r r' hr hr' h
    have hkind := kind_eq hv.node hw.node hs ht h
    cases w with
    | int m =>
      obtain rfl := apart_num (num_of_mem_intText hs) (num_of_mem_intText ht) r r' hr hr' h
      exact ⟨rfl, by rw [intText_inj hs ht]; rfl⟩
    | _ => cases hkind
  | float text => exact fun hv => hv.elim
  | str s =>
    intro hv w hw s' t hs ht r r' hr hr' h
    have hkind := kind_eq hv.node hw.node hs ht h
    cases w with
    | str s'' =>
      obtain rfl : s.quote = s' := Option.some.inj hs
      obtain rfl : s''.quote = t := Option.some.inj ht
      obtain ⟨rfl, -⟩ := quote_inj hv hw h
      exact ⟨rfl, rfl⟩
    | _ => cases hkind
  | list items ih => exact told_list ih
  | dict entries ih => exact told_dict ih

/-! ## The order of keys -/

namespace Str

protected theorem le_or_le (s t : Str) : s.le t = true ∨ t.le s = true := by
  induction s generalizing t with
  | nil => exact .inl (by rw [le])
  | cons a s ih =>
    cases t with
    | nil => exact .inr (by rw [le])
    | cons b t =>
      rw [le, le]
      by_cases hab : a = b
      · rw [if_pos hab, if_pos hab.symm]
        exact ih t
      · rw [if_neg hab, if_neg (Ne.symm hab)]
        simp only [decide_eq_true_eq]
        have hval : a.val ≠ b.val := fun h => hab (by cases a; cases b; simpa using h)
        omega

protected theorem le_antisymm {s t : Str} (h : s.le t = true) (h' : t.le s = true) : s = t := by
  induction s generalizing t with
  | nil =>
    cases t with
    | nil => rfl
    | cons b t => cases h'
  | cons a s ih =>
    cases t with
    | nil => cases h
    | cons b t =>
      rw [le] at h h'
      by_cases hab : a = b
      · rw [if_pos hab] at h
        rw [if_pos hab.symm] at h'
        rw [hab, ih h h']
      · rw [if_neg hab, decide_eq_true_eq] at h
        rw [if_neg (Ne.symm hab), decide_eq_true_eq] at h'
        omega

protected theorem le_trans {s t u : Str} (h : s.le t = true) (h' : t.le u = true) : s.le u = true := by
  induction s generalizing t u with
  | nil => rw [le]
  | cons a s ih =>
    cases t with
    | nil => cases h
    | cons b t =>
      cases u with
      | nil => cases h'
      | cons c u =>
        rw [le] at h h' ⊢
        by_cases hab : a = b
        · subst hab
          rw [if_pos rfl] at h
          split_ifs at h' ⊢ with hac
          · exact ih h h'
          · exact h'
        · rw [if_neg hab, decide_eq_true_eq] at h
          split_ifs at h' with hbc
          · subst hbc
            rw [if_neg hab, decide_eq_true_eq]
            exact h
          · rw [decide_eq_true_eq] at h'
            have hac : a ≠ c := fun hac => by rw [hac] at h; omega
            rw [if_neg hac, decide_eq_true_eq]
            omega

end Str

/-- entries with distinct keys are sorted in one way -/
theorem sortEntries_perm {xs ys : List (Str × Str)} (hnodup : (xs.map Prod.fst).Nodup) (h : xs.Perm ys) :
    sortEntries xs = sortEntries ys := by
  have htotal : Std.Total fun a b : Str × Str => a.1.le b.1 = true := ⟨fun a b => Str.le_or_le a.1 b.1⟩
  have htrans : IsTrans (Str × Str) fun a b => a.1.le b.1 = true := ⟨fun _ _ _ => Str.le_trans⟩
  have hpairwise : ∀ l : List (Str × Str), (sortEntries l).Pairwise fun a b => a.1.le b.1 = true :=
    fun l => List.pairwise_insertionSort _ l
  have hsame : (sortEntries xs).Perm (sortEntries ys) :=
    (List.perm_insertionSort _ xs).trans (h.trans (List.perm_insertionSort _ ys).symm)
  apply List.Perm.eq_of_pairwise _ (hpairwise xs) (hpairwise ys) hsame
  intro a b ha hb hab hba
  exact List.inj_on_of_nodup_map hnodup (mem_sortEntries.1 ha) (h.mem_iff.2 (mem_sortEntries.1 hb)) (Str.le_antisymm hab hba)

/-- values that are the same, up to the order of keys, have one text -/
def OneText (v : Value) : Prop :=
  v.IsJson → ∀ w : Value, w.IsJson → v.Same w → ∀ s t, encode v = some s → encode w = some t → s = t

theorem oneText_list {items : List Value} (ih : ∀ v ∈ items, OneText v) : OneText (.list items) := by
  intro hv w hw hsame s t hs ht
  obtain ⟨items', rfl, hsame⟩ := hsame
  obtain ⟨xs, hxs, rfl⟩ := encode_list hs
  obtain ⟨ys, hys, rfl⟩ := encode_list ht
  obtain ⟨-, hitems⟩ := all_list.1 hv
  obtain ⟨-, hitems'⟩ := all_list.1 hw
  rw [forall₂_unique hxs (sameItems_iff.1 hsame) hys
    fun v hv w hw hvw s t hs ht => ih v hv (hitems v hv) w (hitems' w hw) hvw s t hs ht]

theorem keys_texts {entries : Dict} {texts : List (Str × Str)}
    (h : List.Forall₂ (fun e t => e.1 = t.1 ∧ encode e.2 = some t.2) entries texts) :
    texts.map Prod.fst = entries.map Prod.fst := by
  induction h with
  | nil => rfl
  | cons hx _ ih => rw [List.map_cons, List.map_cons, ih, hx.1]

theorem oneText_dict {entries : Dict} (ih : ∀ e ∈ entries, OneText e.2) : OneText (.dict entries) := by
  intro hv w hw hsame s t hs ht
  obtain ⟨entries', rfl, hlength, hsame⟩ := hsame
  obtain ⟨xs, hxs, rfl⟩ := encode_dict hs
  obtain ⟨ys, hys, rfl⟩ := encode_dict ht
  obtain ⟨⟨hnodup, -⟩, hentries⟩ := all_dict.1 hv
  obtain ⟨⟨hnodup', -⟩, hentries'⟩ := all_dict.1 hw
  have hkeys : (xs.map Prod.fst).Nodup := by rw [keys_texts hxs]; exact hnodup
  -- each entry has its text among the others
  have hsub : xs ⊆ ys := by
    intro x hx
    obtain ⟨e, he, hkx, hdx⟩ := exists_of_mem hxs.flip x hx
    obtain ⟨w, hget, hw⟩ := sameEntries_iff.1 hsame e he
    have hmem : (e.1, w) ∈ entries' := (lookup_eq_some_iff hnodup').1 hget
    obtain ⟨y, hy, hky, hdy⟩ := exists_of_mem hys _ hmem
    have htext := ih e he (hentries e he) w (hentries' _ hmem) hw x.2 y.2 hdx hdy
    obtain rfl : x = y := Prod.ext (hkx.symm.trans hky) htext
    exact hy
  have hle : ys.length ≤ xs.length := by
    rw [← hys.length_eq, ← hxs.length_eq, hlength]
  have hperm : xs.Perm ys := (List.subperm_of_subset (hkeys.of_map _) hsub).perm_of_length_le hle
  rw [sortEntries_perm hkeys hperm]

/-- Values that are the same up to the order of their keys have one text. -/
theorem oneText (v : Value) : OneText v := by
  induction v using Value.induct with
  | list items ih => exact oneText_list ih
  | dict entries ih => exact oneText_dict ih
  | _ =>
    intro hv w hw hsame s t hs ht
    obtain rfl : w = _ := hsame
    exact Option.some.inj (hs.symm.trans ht)

/-- **The texts** of two values are the same iff they are the same value up to the order of keys. -/
theorem encode_eq_iff {v w : Value} (hv : v.IsJson) (hw : w.IsJson) {s t : Str} (hs : encode v = some s)
    (ht : encode w = some t) :
    s = t ↔ v.Same w := by
  constructor
  · intro hst
    exact (told v).same hv hw hs (hst ▸ ht)
  · intro hsame
    exact oneText v hv w hw hsame s t hs ht

/-! ## ASCII -/

def Ascii (s : Str) : Prop := ∀ c ∈ s, c.val < 0x80

instance (s : Str) : Decidable (Ascii s) := List.decidableBAll _ s

theorem Ascii.append {s t : Str} (hs : Ascii s) (ht : Ascii t) : Ascii (s ++ t) := List.forall_mem_append.2 ⟨hs, ht⟩

theorem ascii_intercalate {sep : Str} {parts : List Str} (hsep : Ascii sep) (h : ∀ t ∈ parts, Ascii t) :
    Ascii (sep.intercalate parts) := by
  induction parts with
  | nil => exact fun c hc => by cases hc
  | cons t parts ih =>
    have hparts := ih fun t' ht' => h t' (List.mem_cons_of_mem t ht')
    by_cases hnil : parts = []
    · rw [hnil, List.intercalate_singleton]
      exact h t List.mem_cons_self
    · rw [List.intercalate_cons_of_ne_nil hnil]
      exact ((h t List.mem_cons_self).append hsep).append hparts

theorem ascii_hex4 (n : ℕ) : Ascii (Str.hex4 n) := by
  intro c hc
  obtain ⟨i, -, rfl⟩ := List.mem_map.1 hc
  have hall : ∀ d : Fin 16, (CodePoint.ofNat (Nat.digitChar d).toNat).val < 0x80 := by decide
  exact hall ⟨n / 16 ^ (3 - i) % 16, Nat.mod_lt _ (by decide)⟩

theorem ascii_escape (c : CodePoint) : Ascii (Str.escape c) := by
  have hunit : ∀ n, Ascii (str "\\u" ++ Str.hex4 n) := fun n => Ascii.append (by decide) (ascii_hex4 n)
  rw [Str.escape]
  split_ifs with hquote hbackslash hnewline hreturn htab hfeed hback hplain hbasic
  · decide
  · decide
  · decide
  · decide
  · decide
  · decide
  · decide
  · exact fun d hd => List.mem_singleton.1 hd ▸ Nat.lt_succ_of_le (hplain.2.trans (by decide))
  · exact hunit _
  · rw [List.append_assoc _ (str "\\u")]
    exact (hunit _).append (hunit _)

theorem ascii_quote (s : Str) : Ascii s.quote := by
  refine (Ascii.append (by decide) fun c hc => ?_).append (by decide)
  obtain ⟨d, -, hd⟩ := List.mem_flatMap.1 hc
  exact ascii_escape d c hd

/-- **The text** of a value is ASCII. -/
theorem ascii_encode {v : Value} (hv : v.IsJson) {t : Str} (h : encode v = some t) : Ascii t := by
  induction v using Value.induct generalizing t with
  | null =>
    obtain rfl := Option.some.inj h
    decide
  | bool b =>
    obtain rfl := Option.some.inj h
    cases b
    · decide
    · decide
  | int n =>
    intro c hc
    rcases num_of_mem_intText h c hc with rfl | hdigit
    · decide
    · exact Nat.lt_succ_of_le (hdigit.2.trans (by decide))
  | float text => exact hv.elim
  | str s =>
    obtain rfl := Option.some.inj h
    exact ascii_quote s
  | list items ih =>
    obtain ⟨texts, htexts, rfl⟩ := encode_list h
    have hall : ∀ t ∈ texts, Ascii t := by
      intro t ht
      obtain ⟨v, hmem, hvt⟩ := exists_of_mem htexts.flip t ht
      exact ih v hmem ((all_list.1 hv).2 v hmem) hvt
    exact Ascii.append (s := [0x5b]) (by decide) ((ascii_intercalate (by decide) hall).append (by decide))
  | dict entries ih =>
    obtain ⟨texts, htexts, rfl⟩ := encode_dict h
    have hall : ∀ t ∈ (sortEntries texts).map pieceOf, Ascii t := by
      intro t ht
      obtain ⟨x, hx, rfl⟩ := List.mem_map.1 ht
      obtain ⟨e, hmem, -, hex⟩ := exists_of_mem htexts.flip x (mem_sortEntries.1 hx)
      exact ((ascii_quote x.1).append (by decide)).append (ih e hmem ((all_dict.1 hv).2 e hmem) hex)
    exact Ascii.append (s := [0x7b]) (by decide) ((ascii_intercalate (by decide) hall).append (by decide))

theorem utf8_ascii {s : Str} (h : Ascii s) : s.utf8 = some (s.map fun c => .ofNat c.val) := by
  have hsurrogate : ¬ ∃ c ∈ s, c.isSurrogate = true := by
    intro ⟨c, hc, hs⟩
    have hlt := h c hc
    simp only [CodePoint.isSurrogate, Bool.and_eq_true, decide_eq_true_eq] at hs
    omega
  rw [Str.utf8, if_neg hsurrogate, List.map_eq_flatMap]
  refine congrArg some (List.flatMap_congr fun c hc => ?_)
  rw [CodePoint.utf8]
  exact if_pos (h c hc)

theorem utf8_inj {s t : Str} (hs : Ascii s) (ht : Ascii t) (h : s.utf8 = t.utf8) : s = t := by
  rw [utf8_ascii hs, utf8_ascii ht] at h
  have hmap := Option.some.inj h
  have hlength : s.length = t.length := by simpa using congrArg List.length hmap
  apply List.ext_getElem hlength
  intro i hi hi'
  have hbyte : UInt8.ofNat s[i].val = UInt8.ofNat t[i].val := by
    have hget := congrArg (fun l => l[i]?) hmap
    simpa [hi, hi'] using hget
  have hsi := hs _ (List.getElem_mem hi)
  have hti := ht _ (List.getElem_mem hi')
  have hval := congrArg UInt8.toNat hbyte
  simp only [UInt8.toNat_ofNat'] at hval
  rw [← ofNat_val s[i], ← ofNat_val t[i]]
  congr 1
  omega

/-! ## Hashes -/

/-- **Whether a value has a text**: if Python writes its integers. -/
theorem exists_encode_iff {v : Value} : (∃ t, encode v = some t) ↔ v.All FewDigits := by
  induction v using Value.induct with
  | int n =>
    show (∃ t, encode (.int n) = some t) ↔ FewDigits (.int n)
    rw [encode, intText, FewDigits]
    split_ifs with h
    · simp [Nat.not_lt.2 h]
    · simp [Nat.not_le.1 h]
  | list items ih =>
    rw [all_list]
    constructor
    · intro ⟨t, ht⟩
      obtain ⟨texts, htexts, -⟩ := encode_list ht
      refine ⟨trivial, fun v hv => (ih v hv).1 ?_⟩
      obtain ⟨x, -, hx⟩ := exists_of_mem htexts v hv
      exact ⟨x, hx⟩
    · intro ⟨_, h⟩
      obtain ⟨texts, htexts⟩ := exists_forall₂ fun v hv => (ih v hv).2 (h v hv)
      exact ⟨_, by rw [encode, encodeItems_eq_some.2 htexts, Option.map_some]⟩
  | dict entries ih =>
    rw [all_dict]
    constructor
    · intro ⟨t, ht⟩
      obtain ⟨texts, htexts, -⟩ := encode_dict ht
      refine ⟨trivial, fun e he => (ih e he).1 ?_⟩
      obtain ⟨x, -, -, hx⟩ := exists_of_mem htexts e he
      exact ⟨x.2, hx⟩
    · intro ⟨_, h⟩
      have hentries : ∀ e ∈ entries, ∃ x : Str × Str, e.1 = x.1 ∧ encode e.2 = some x.2 := by
        intro e he
        obtain ⟨t, ht⟩ := (ih e he).2 (h e he)
        exact ⟨(e.1, t), rfl, ht⟩
      obtain ⟨texts, htexts⟩ := exists_forall₂ hentries
      exact ⟨_, by rw [encode, encodeEntries_eq_some.2 htexts, Option.map_some]⟩
  | _ => exact iff_of_true ⟨_, rfl⟩ trivial

/-- the bytes that are hashed -/
def serialized (configuration : Dict) : Option (List UInt8) := (encode (.dict configuration)).bind Str.utf8

variable {limit limit' : ℕ} {x y : Dict} {hash hash' : String}

theorem hash_eq_serialized (limit : ℕ) (configuration : Dict) : canonicalConfigurationHash limit configuration =
    if (Value.dict configuration).depth ≤ limit then (serialized configuration).map Sha256.hexDigest else none := by
  simp only [canonicalConfigurationHash, dumps, serialized]
  split_ifs
  · simp only [Option.bind_eq_bind, Option.pure_def, Option.map_eq_bind, Option.bind_assoc, Function.comp_def]
  · rfl

/-- neither text collides with the other -/
def Distinct (x y : Dict) : Prop :=
  ∀ s ∈ serialized x, ∀ t ∈ serialized y, Sha256.hexDigest s = Sha256.hexDigest t → s = t

/-- what has been hashed -/
theorem text_of_hash (h : canonicalConfigurationHash limit x = some hash) :
    ∃ text bytes, encode (.dict x) = some text ∧ text.utf8 = some bytes ∧ serialized x = some bytes ∧
      Sha256.hexDigest bytes = hash := by
  rw [hash_eq_serialized] at h
  split_ifs at h
  obtain ⟨bytes, hbytes, hhash⟩ := Option.map_eq_some_iff.1 h
  obtain ⟨text, htext, hutf8⟩ := Option.bind_eq_some_iff.1 hbytes
  exact ⟨text, bytes, htext, hutf8, hbytes, hhash⟩

/-- **What is hashed**: a configuration whose integers Python writes, and that is not nested too deep. -/
theorem exists_hash_iff (hx : (Value.dict x).IsJson) :
    (∃ hash, canonicalConfigurationHash limit x = some hash) ↔
      (Value.dict x).All FewDigits ∧ (Value.dict x).depth ≤ limit := by
  rw [← exists_encode_iff]
  constructor
  · intro ⟨hash, hhash⟩
    obtain ⟨text, bytes, htext, -, -, -⟩ := text_of_hash hhash
    rw [hash_eq_serialized] at hhash
    split_ifs at hhash with hdepth
    exact ⟨⟨text, htext⟩, hdepth⟩
  · intro ⟨⟨text, htext⟩, hdepth⟩
    refine ⟨Sha256.hexDigest (text.map fun c => .ofNat c.val), ?_⟩
    rw [hash_eq_serialized, if_pos hdepth, serialized, htext, Option.bind_some, utf8_ascii (ascii_encode hx htext),
      Option.map_some]

/-- **Hashes** of configurations whose texts do not collide are the same iff the configurations are, up to the order of keys. -/
theorem canonicalConfigurationHash_eq_iff (hx : (Value.dict x).IsJson) (hy : (Value.dict y).IsJson)
    (hdistinct : Distinct x y) (hhash : canonicalConfigurationHash limit x = some hash)
    (hhash' : canonicalConfigurationHash limit' y = some hash') : hash = hash' ↔ (Value.dict x).Same (.dict y) := by
  obtain ⟨s, bytes, hs, hbytes, hsx, rfl⟩ := text_of_hash hhash
  obtain ⟨t, bytes', ht, hbytes', hsy, rfl⟩ := text_of_hash hhash'
  rw [← encode_eq_iff hx hy hs ht]
  constructor
  · intro heq
    obtain rfl := hdistinct bytes hsx bytes' hsy heq
    exact utf8_inj (ascii_encode hx hs) (ascii_encode hy ht) (hbytes.trans hbytes'.symm)
  · intro hst
    rw [hst, hbytes'] at hbytes
    rw [Option.some.inj hbytes]

end AtlasRag.Platform
