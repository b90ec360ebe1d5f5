/-
Strings of Python: sequences of code points, surrogates among them, with the methods that the chunkers and the
normalization use, and their UTF-8 encoding, which a surrogate does not have.

Results:
- `tokens_splitlines`: no token crosses a line;
- `tokens_strip`, `tokens_rstrip`, `tokens_join`: stripping and joining with whitespace keep the tokens;
- `utf8_eq_none_iff`: only a string with a surrogate cannot be encoded;
- `hasSurrogate_iff`: a surrogate is never lost with whitespace.
-/
import AtlasRag.Lib.Words
import AtlasRag.Platform.Text

namespace AtlasRag.Platform

open AtlasRag.Lib.Words

structure CodePoint where
  val : ℕ
  isLt : val < 0x110000
deriving DecidableEq, Repr

def CodePoint.ofNat (n : ℕ) : CodePoint := ⟨n % 0x110000, Nat.mod_lt n (by decide)⟩

instance (n : ℕ) : OfNat CodePoint n := ⟨.ofNat n⟩

abbrev Str := List CodePoint

instance : LawfulBEq Str := inferInstance

/-- a literal -/
def str (s : String) : Str := s.toList.map fun c => .ofNat c.toNat

namespace CodePoint

/-- `str.isspace` of one character; also what `\s` matches -/
def isSpace (c : CodePoint) : Bool :=
  let n := c.val
  (9 ≤ n && n ≤ 13) || (28 ≤ n && n ≤ 32) || n == 0x85 || n == 0xa0 || n == 0x1680 || (0x2000 ≤ n && n ≤ 0x200a) ||
  n == 0x2028 || n == 0x2029 || n == 0x202f || n == 0x205f || n == 0x3000

/-- a line boundary of `splitlines` -/
def isLineBreak (c : CodePoint) : Bool :=
  let n := c.val
  (10 ≤ n && n ≤ 13) || (28 ≤ n && n ≤ 30) || n == 0x85 || n == 0x2028 || n == 0x2029

def isSurrogate (c : CodePoint) : Bool := 0xD800 ≤ c.val && c.val ≤ 0xDFFF

theorem isSpace_of_isLineBreak {c : CodePoint} (h : c.isLineBreak = true) : c.isSpace = true := by
  simp only [isLineBreak, isSpace, Bool.or_eq_true, Bool.and_eq_true, decide_eq_true_eq, beq_iff_eq] at h ⊢
  omega

theorem isSpace_of_isSurrogate {c : CodePoint} (h : c.isSurrogate = true) : c.isSpace = false := by
  rw [Bool.eq_false_iff]
  simp only [isSurrogate, isSpace, ne_eq, Bool.or_eq_true, Bool.and_eq_true, decide_eq_true_eq, beq_iff_eq] at h ⊢
  omega

end CodePoint

namespace Str

def strip (s : Str) : Str := (s.dropWhile CodePoint.isSpace).rdropWhile CodePoint.isSpace

def rstrip (s : Str) : Str := s.rdropWhile CodePoint.isSpace

def lstrip (s : Str) : Str := s.dropWhile CodePoint.isSpace

def join (sep : Str) (parts : List Str) : Str := sep.intercalate parts

/-- the lines after `line`, which has been read so far; `\r\n` is one boundary -/
def splitlinesFrom (line : Str) : Str → List Str
  | [] => if line = [] then [] else [line]
  | [c] => if c.isLineBreak then [line] else [line ++ [c]]
  | c :: d :: s =>
    if c = 13 ∧ d = 10 then line :: splitlinesFrom [] s
    else if c.isLineBreak then line :: splitlinesFrom [] (d :: s)
    else splitlinesFrom (line ++ [c]) (d :: s)

def splitlines (s : Str) : List Str := splitlinesFrom [] s

/-- the maximal matches of `\S+` -/
def tokens (s : Str) : List Str := words CodePoint.isSpace s

variable {s : Str}

/-- only whitespace -/
def AllSpace (s : Str) : Prop := ∀ c ∈ s, c.isSpace = true

instance (s : Str) : Decidable s.AllSpace := List.decidableBAll _ s

theorem strip_eq_nil : s.strip = [] ↔ AllSpace s := by
  rw [strip, List.rdropWhile_eq_nil_iff]
  constructor
  · intro h c hc
    rw [← List.takeWhile_append_dropWhile (p := CodePoint.isSpace) (l := s)] at hc
    rcases List.mem_append.1 hc with hc | hc
    · exact List.mem_takeWhile_imp hc
    · exact h c hc
  · intro h c hc
    exact h c ((List.dropWhile_sublist _).subset hc)

/-! ## Tokens -/

@[simp] theorem tokens_nil : tokens [] = [] := rfl

theorem tokens_strip (s : Str) : tokens s.strip = tokens s := by
  rw [tokens, strip, words_rdropWhile, words_dropWhile]
  rfl

theorem tokens_rstrip (s : Str) : tokens s.rstrip = tokens s := words_rdropWhile s

theorem tokens_join {sep : Str} (hne : sep ≠ []) (hsep : Separates CodePoint.isSpace sep) (parts : List Str) :
    tokens (join sep parts) = parts.flatMap tokens := words_intercalate hne hsep parts

/-- tokens joined with a blank are these tokens -/
theorem tokens_join_tokens {ts : List Str} (h : ∀ t ∈ ts, IsWord CodePoint.isSpace t) :
    tokens (join (str " ") ts) = ts := words_join (by decide) (by unfold Separates; decide) h

theorem isWord_of_mem_tokens {t : Str} (h : t ∈ tokens s) : IsWord CodePoint.isSpace t := isWord_of_mem h

theorem tokens_eq_nil : tokens s = [] ↔ s.strip = [] := by
  rw [tokens, words_eq_nil, strip_eq_nil]
  rfl

theorem tokens_splitlinesFrom (line s : Str) : (splitlinesFrom line s).flatMap tokens = tokens (line ++ s) := by
  fun_induction splitlinesFrom line s with
  | case1 => rfl
  | case2 line hline => simp [tokens]
  | case3 line c hc =>
    have hspace : Separates CodePoint.isSpace [c] := fun x hx => by
      rw [List.mem_singleton.1 hx]
      exact CodePoint.isSpace_of_isLineBreak hc
    simp [tokens, words_append hspace]
  | case4 line c hc => simp
  | case5 line c d s hcd ih =>
    obtain ⟨rfl, rfl⟩ := hcd
    rw [List.flatMap_cons, ih, List.nil_append, tokens, tokens, tokens, words_append_sep (by decide),
      words_cons_sep (by decide)]
  | case6 line c d s hcd hc ih =>
    rw [List.flatMap_cons, ih, List.nil_append, tokens, tokens, tokens,
      words_append_sep (CodePoint.isSpace_of_isLineBreak hc)]
  | case7 line c d s hcd hc ih => rw [ih, List.append_assoc, List.singleton_append]

/-- The tokens of a text are those of its lines. -/
theorem tokens_splitlines (s : Str) : (splitlines s).flatMap tokens = tokens s := tokens_splitlinesFrom [] s

/-! ## Whitespace around a string -/

theorem AllSpace.append {s t : Str} (hs : AllSpace s) (ht : AllSpace t) : AllSpace (s ++ t) := List.forall_mem_append.2 ⟨hs, ht⟩

theorem lstrip_append {s t : Str} (h : AllSpace s) : lstrip (s ++ t) = lstrip t := by
  rw [lstrip, List.dropWhile_append_of_pos h]
  rfl

theorem rstrip_append {s t : Str} (h : AllSpace t) : rstrip (s ++ t) = rstrip s := by
  rw [rstrip, rstrip, List.rdropWhile, List.rdropWhile, List.reverse_append, List.dropWhile_append_of_pos]
  intro c hc
  exact h c (List.mem_reverse.1 hc)

/-- a string that is not blank starts and ends with other characters -/
structure Trim (s : Str) : Prop where
  head : ∃ c t, s = c :: t ∧ c.isSpace = false
  last : ∃ t c, s = t ++ [c] ∧ c.isSpace = false

theorem Trim.lstrip (h : Trim s) (t : Str) : Str.lstrip (s ++ t) = s ++ t := by
  obtain ⟨c, m, rfl, hc⟩ := h.head
  exact List.dropWhile_cons_of_neg (by simp [hc])

theorem Trim.rstrip (h : Trim s) (t : Str) : Str.rstrip (t ++ s) = t ++ s := by
  obtain ⟨m, c, rfl, hc⟩ := h.last
  rw [← List.append_assoc]
  exact List.rdropWhile_concat_neg _ _ _ (by simp [hc])

/-- whitespace around a string is stripped -/
theorem Trim.strip (h : Trim s) {before after : Str} (hbefore : AllSpace before) (hafter : AllSpace after) :
    Str.strip (before ++ s ++ after) = s := by
  have hleft : Str.lstrip (before ++ s ++ after) = s ++ after := by
    rw [List.append_assoc, lstrip_append hbefore, h.lstrip]
  calc Str.strip (before ++ s ++ after) = Str.rstrip (Str.lstrip (before ++ s ++ after)) := rfl
    _ = Str.rstrip s := by rw [hleft, rstrip_append hafter]
    _ = s := h.rstrip []

/-- a string is what is stripped of it, with whitespace around it -/
theorem exists_strip (h : s.strip ≠ []) :
    ∃ before after, AllSpace before ∧ AllSpace after ∧ Trim s.strip ∧ s = before ++ s.strip ++ after := by
  have hsplit : s.dropWhile CodePoint.isSpace =
      s.strip ++ (s.dropWhile CodePoint.isSpace).rtakeWhile CodePoint.isSpace := List.rdropWhile_append_rtakeWhile.symm
  obtain ⟨c, m, hcm⟩ := List.exists_cons_of_ne_nil h
  have hhead : c.isSpace = false := by
    have hfirst := List.head?_dropWhile_not CodePoint.isSpace s
    rw [hsplit, hcm] at hfirst
    exact hfirst
  have hlast : (s.strip.getLast h).isSpace = false := Bool.eq_false_iff.2 (List.rdropWhile_last_not _ _ h)
  refine ⟨s.takeWhile CodePoint.isSpace, (s.dropWhile CodePoint.isSpace).rtakeWhile CodePoint.isSpace,
    fun c hc => List.mem_takeWhile_imp hc, fun c hc => List.mem_rtakeWhile_imp hc,
    ⟨⟨c, m, hcm, hhead⟩, ⟨s.strip.dropLast, s.strip.getLast h, (List.dropLast_append_getLast h).symm, hlast⟩⟩, ?_⟩
  rw [List.append_assoc, ← hsplit, List.takeWhile_append_dropWhile]

end Str

/-! ## UTF-8 -/

/-- the bytes of one code point -/
def CodePoint.utf8 (c : CodePoint) : List UInt8 :=
  let n := c.val
  if n < 0x80 then [.ofNat n]
  else if n < 0x800 then [.ofNat (0xC0 + n / 64), .ofNat (0x80 + n % 64)]
  else if n < 0x10000 then [.ofNat (0xE0 + n / 4096), .ofNat (0x80 + n / 64 % 64), .ofNat (0x80 + n % 64)]
  else [.ofNat (0xF0 + n / 262144), .ofNat (0x80 + n / 4096 % 64), .ofNat (0x80 + n / 64 % 64), .ofNat (0x80 + n % 64)]

/-- `encode("utf-8")`; `none` is `UnicodeEncodeError` -/
def Str.utf8 (s : Str) : Option (List UInt8) := if ∃ c ∈ s, c.isSurrogate then none else some (s.flatMap CodePoint.utf8)

namespace Str

def HasSurrogate (s : Str) : Prop := ∃ c ∈ s, c.isSurrogate = true

instance (s : Str) : Decidable s.HasSurrogate := List.decidableBEx _ s

theorem utf8_eq_none_iff {s : Str} : s.utf8 = none ↔ s.HasSurrogate := by
  rw [utf8, HasSurrogate]
  split_ifs with h
  · simp [h]
  · simp [h]

/-- a surrogate is in a token -/
theorem hasSurrogate_iff (s : Str) : s.HasSurrogate ↔ ∃ t ∈ s.tokens, t.HasSurrogate := by
  constructor
  · intro ⟨c, hc, hsurrogate⟩
    obtain ⟨t, ht, hct⟩ := exists_word hc (CodePoint.isSpace_of_isSurrogate hsurrogate)
    exact ⟨t, ht, c, hct, hsurrogate⟩
  · intro ⟨t, ht, c, hct, hsurrogate⟩
    exact ⟨c, mem_of_mem_words ht hct, hsurrogate⟩

end Str

end AtlasRag.Platform
