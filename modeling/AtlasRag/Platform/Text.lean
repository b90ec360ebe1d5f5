/-
Texts as Python sees them: whitespace, and the canonical text of a UUID.
-/
import AtlasRag.Platform.Postgres

namespace AtlasRag.Platform

/-- `str.isspace` of one character -/
def isSpace (c : Char) : Bool :=
  let n := c.toNat
  (9 ≤ n && n ≤ 13) || (28 ≤ n && n ≤ 32) || n == 0x85 || n == 0xa0 || n == 0x1680 || (0x2000 ≤ n && n ≤ 0x200a) ||
  n == 0x2028 || n == 0x2029 || n == 0x202f || n == 0x205f || n == 0x3000

/-- `not s.strip()` -/
def Blank (s : String) : Prop := ∀ c ∈ s.toList, isSpace c = true

instance (s : String) : Decidable (Blank s) := List.decidableBAll _ s.toList

/-- `str(x)`: 32 hexadecimal digits, in groups of 8, 4, 4, 4 and 12 -/
def uuidText (x : Uuid) : String :=
  let digits := (Nat.toDigits 16 x).leftpad 32 '0'
  String.ofList (digits.take 8 ++ '-' :: (digits.drop 8).take 4 ++ '-' :: (digits.drop 12).take 4 ++
    '-' :: (digits.drop 16).take 4 ++ '-' :: digits.drop 20)

/-! ## UUIDs are told apart by their texts -/

/-- the number that hexadecimal digits stand for -/
def hexValue (digits : List Char) : ℕ :=
  digits.foldl (fun n c => 16 * n + (if c.toNat < 58 then c.toNat - 48 else c.toNat - 87)) 0

theorem hexValue_concat (digits : List Char) (d : ℕ) (hd : d < 16) :
    hexValue (digits ++ [Nat.digitChar d]) = 16 * hexValue digits + d := by
  have hchar : ∀ d < 16, (if (Nat.digitChar d).toNat < 58 then (Nat.digitChar d).toNat - 48
      else (Nat.digitChar d).toNat - 87) = d := by decide
  rw [hexValue, List.foldl_append, List.foldl_cons, List.foldl_nil, hchar d hd]
  rfl

theorem hexValue_toDigits (n : ℕ) : hexValue (Nat.toDigits 16 n) = n := by
  induction n using Nat.strongRecOn with
  | ind n ih =>
    by_cases hn : n < 16
    · rw [Nat.toDigits_of_lt_base hn, ← List.nil_append [Nat.digitChar n], hexValue_concat _ _ hn]
      exact Nat.zero_add n
    · rw [Nat.toDigits_of_base_le (by decide) (not_lt.1 hn), hexValue_concat _ _ (Nat.mod_lt n (by decide)),
        ih (n / 16) (by omega), Nat.div_add_mod]

theorem hexValue_leftpad (k : ℕ) (digits : List Char) : hexValue (digits.leftpad k '0') = hexValue digits := by
  have hzeros : ∀ j, (List.replicate j '0').foldl
      (fun n c => 16 * n + (if c.toNat < 58 then c.toNat - 48 else c.toNat - 87)) 0 = 0 := by
    intro j
    induction j with
    | zero => rfl
    | succ j ih => rw [List.replicate_succ, List.foldl_cons]; exact ih
  rw [List.leftpad, hexValue, List.foldl_append, hzeros]
  rfl

theorem uuidText_injective : Function.Injective uuidText := by
  intro x y h
  simp only [uuidText, String.ofList_inj] at h
  set a := (Nat.toDigits 16 x).leftpad 32 '0'
  set b := (Nat.toDigits 16 y).leftpad 32 '0'
  have ha : 32 ≤ a.length := by simp [a, List.leftpad]; omega
  have hb : 32 ≤ b.length := by simp [b, List.leftpad]; omega
  simp only [List.append_assoc, List.cons_append] at h
  obtain ⟨h₁, h⟩ := List.append_inj h (by simp; omega)
  obtain ⟨h₂, h⟩ := List.append_inj (List.cons.inj h).2 (by simp; omega)
  obtain ⟨h₃, h⟩ := List.append_inj (List.cons.inj h).2 (by simp; omega)
  obtain ⟨h₄, h⟩ := List.append_inj (List.cons.inj h).2 (by simp; omega)
  have h₅ := (List.cons.inj h).2
  -- the groups make up the digits
  have hgroups : ∀ l : List Char, l = l.take 8 ++ ((l.drop 8).take 4 ++ ((l.drop 12).take 4 ++
      ((l.drop 16).take 4 ++ l.drop 20))) := by
    intro l
    have hsplit : ∀ i j, l.drop i = (l.drop i).take j ++ l.drop (i + j) := fun i j => by
      rw [← List.drop_drop, List.take_append_drop]
    rw [← hsplit 16 4, ← hsplit 12 4, ← hsplit 8 4, List.take_append_drop]
  have hab : a = b := by rw [hgroups a, hgroups b, h₁, h₂, h₃, h₄, h₅]
  rw [← hexValue_toDigits x, ← hexValue_toDigits y, ← hexValue_leftpad 32 (Nat.toDigits 16 x),
    ← hexValue_leftpad 32 (Nat.toDigits 16 y)]
  exact congrArg hexValue hab

theorem slash_not_mem_toDigits (n : ℕ) : '/' ∉ Nat.toDigits 16 n := by
  have hchar : ∀ d < 16, '/' ≠ Nat.digitChar d := by decide
  induction n using Nat.strongRecOn with
  | ind n ih =>
    by_cases hn : n < 16
    · rw [Nat.toDigits_of_lt_base hn, List.mem_singleton]
      exact hchar n hn
    · rw [Nat.toDigits_of_base_le (by decide) (not_lt.1 hn), List.mem_append, List.mem_singleton, not_or]
      exact ⟨ih (n / 16) (by omega), hchar _ (Nat.mod_lt n (by decide))⟩

theorem slash_not_mem_uuidText (x : Uuid) : '/' ∉ (uuidText x).toList := by
  have hdigits : '/' ∉ (Nat.toDigits 16 x).leftpad 32 '0' := by
    simp [List.leftpad, slash_not_mem_toDigits]
  simp only [uuidText]
  generalize (Nat.toDigits 16 x).leftpad 32 '0' = digits at hdigits ⊢
  have hpart : ∀ i j, '/' ∉ (digits.drop i).take j := fun i j h => hdigits (List.mem_of_mem_drop (List.mem_of_mem_take h))
  have hrest : '/' ∉ digits.drop 20 := fun h => hdigits (List.mem_of_mem_drop h)
  have hfirst : '/' ∉ digits.take 8 := fun h => hdigits (List.mem_of_mem_take h)
  simp [hpart, hrest, hfirst]

/-- a text is what its last part is -/
theorem eq_of_last_slash {l l' r r' : List Char} (hr : '/' ∉ r) (hr' : '/' ∉ r') (h : l ++ '/' :: r = l' ++ '/' :: r') :
    r = r' := by
  have hlast : ∀ l r : List Char, '/' ∉ r → ((l ++ '/' :: r).reverse.takeWhile (· ≠ '/')).reverse = r := by
    intro l r hr
    have hall : ∀ c ∈ r.reverse, decide (c ≠ '/') = true := fun c hc =>
      decide_eq_true fun hslash => hr (hslash ▸ List.mem_reverse.1 hc)
    rw [List.reverse_append, List.reverse_cons, List.append_assoc, List.takeWhile_append_of_pos hall]
    simp
  rw [← hlast l r hr, h, hlast l' r' hr']

end AtlasRag.Platform
