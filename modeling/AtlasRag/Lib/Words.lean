/-
The words of a list: its longest runs of elements that are no separators.

Results:
- `words_append_sep`: a separator divides the words;
- `words_intercalate`: lists joined by separators have the words of the parts;
- `words_join`: words joined by separators are these words.
-/
import Mathlib

namespace AtlasRag.Lib.Words

variable {α : Type} (sep : α → Bool)

def words (l : List α) : List (List α) := (l.splitOnP sep).filter (· ≠ [])

/-- a list of separators only -/
def Separates (s : List α) : Prop := ∀ c ∈ s, sep c = true

/-- a word -/
structure IsWord (w : List α) : Prop where
  ne_nil : w ≠ []
  no_sep : ∀ c ∈ w, sep c = false

variable {sep} {s l l' w : List α} {c : α}

theorem words_append_sep (hc : sep c = true) (l l' : List α) : words sep (l ++ c :: l') = words sep l ++ words sep l' := by
  rw [words, List.splitOnP_append_cons _ _ hc, List.filter_append]
  rfl

@[simp] theorem words_nil : words sep ([] : List α) = [] := rfl

theorem words_cons_sep (hc : sep c = true) (l : List α) : words sep (c :: l) = words sep l := by
  rw [← List.nil_append (c :: l), words_append_sep hc, words_nil, List.nil_append]

theorem words_self (hw : IsWord sep w) : words sep w = [w] := by
  rw [words, List.splitOnP_eq_singleton hw.no_sep]
  simp [hw.ne_nil]

/-- separators in front add no word -/
theorem words_prepend (hs : Separates sep s) (l : List α) : words sep (s ++ l) = words sep l := by
  induction s with
  | nil => rfl
  | cons c s ih =>
    rw [List.cons_append, words_cons_sep (hs c List.mem_cons_self), ih fun x hx => hs x (List.mem_cons_of_mem _ hx)]

/-- … nor at the end -/
theorem words_append (hs : Separates sep s) (l : List α) : words sep (l ++ s) = words sep l := by
  cases s with
  | nil => rw [List.append_nil]
  | cons c s =>
    have htail : words sep s = [] := by
      rw [← List.append_nil s, words_prepend fun x hx => hs x (List.mem_cons_of_mem _ hx)]
      rfl
    rw [words_append_sep (hs c List.mem_cons_self), htail, List.append_nil]

theorem words_dropWhile (l : List α) : words sep (l.dropWhile sep) = words sep l := by
  conv_rhs => rw [← List.takeWhile_append_dropWhile (p := sep) (l := l)]
  rw [words_prepend fun c hc => List.mem_takeWhile_imp hc]

theorem words_rdropWhile (l : List α) : words sep (l.rdropWhile sep) = words sep l := by
  have hsplit : l.rdropWhile sep ++ l.rtakeWhile sep = l := by
    rw [List.rdropWhile, List.rtakeWhile, ← List.reverse_append, List.takeWhile_append_dropWhile, List.reverse_reverse]
  conv_rhs => rw [← hsplit]
  rw [words_append fun c hc => List.mem_rtakeWhile_imp hc]

/-- parts joined by separators -/
theorem words_intercalate (hne : s ≠ []) (hs : Separates sep s) (ls : List (List α)) :
    words sep (s.intercalate ls) = ls.flatMap (words sep) := by
  obtain ⟨c, t, rfl⟩ := List.exists_cons_of_ne_nil hne
  have ht : Separates sep t := fun x hx => hs x (List.mem_cons_of_mem _ hx)
  induction ls with
  | nil => rfl
  | cons l ls ih =>
    cases ls with
    | nil => rw [List.intercalate_singleton, List.flatMap_cons, List.flatMap_nil, List.append_nil]
    | cons l' ls =>
      rw [List.intercalate_cons_cons, List.append_assoc, List.cons_append, words_append_sep (hs c List.mem_cons_self),
        words_prepend ht, ih, List.flatMap_cons (x := l)]

/-- words joined by separators -/
theorem words_join (hne : s ≠ []) (hs : Separates sep s) {ws : List (List α)} (hws : ∀ w ∈ ws, IsWord sep w) :
    words sep (s.intercalate ws) = ws := by
  rw [words_intercalate hne hs]
  induction ws with
  | nil => rfl
  | cons w ws ih =>
    rw [List.flatMap_cons, words_self (hws w List.mem_cons_self), ih fun x hx => hws x (List.mem_cons_of_mem _ hx)]
    rfl

/-! ## What words are -/

/-- a list without separators in front is a word and what the next separator leaves -/
theorem splitOnP_mem {p : List α} (hp : p ∈ l.splitOnP sep) : (∀ c ∈ p, sep c = false) ∧ ∀ c ∈ p, c ∈ l := by
  induction l generalizing p with
  | nil =>
    rw [List.splitOnP_nil, List.mem_singleton] at hp
    subst hp
    exact ⟨fun _ h => (by cases h), fun _ h => (by cases h)⟩
  | cons a l ih =>
    rw [List.splitOnP_cons_eq_if_modifyHead] at hp
    by_cases ha : sep a = true
    · rw [if_pos ha] at hp
      rcases List.mem_cons.1 hp with rfl | hp
      · exact ⟨fun _ h => (by cases h), fun _ h => (by cases h)⟩
      · exact ⟨(ih hp).1, fun c hc => List.mem_cons_of_mem _ ((ih hp).2 c hc)⟩
    · rw [if_neg ha] at hp
      obtain ⟨q, qs, hq⟩ := List.exists_cons_of_ne_nil (List.splitOnP_ne_nil sep l)
      rw [hq] at hp ih
      rcases List.mem_cons.1 hp with rfl | hp
      · obtain ⟨hsep, hmem⟩ := ih List.mem_cons_self
        refine ⟨fun c hc => ?_, fun c hc => ?_⟩
        · rcases List.mem_cons.1 hc with rfl | hc
          · exact Bool.eq_false_iff.2 ha
          · exact hsep c hc
        · rcases List.mem_cons.1 hc with rfl | hc
          · exact List.mem_cons_self
          · exact List.mem_cons_of_mem _ (hmem c hc)
      · obtain ⟨hsep, hmem⟩ := ih (List.mem_cons_of_mem _ hp)
        exact ⟨hsep, fun c hc => List.mem_cons_of_mem _ (hmem c hc)⟩

theorem isWord_of_mem (hw : w ∈ words sep l) : IsWord sep w := by
  obtain ⟨hp, hne⟩ := List.mem_filter.1 hw
  exact ⟨of_decide_eq_true hne, (splitOnP_mem hp).1⟩

theorem mem_of_mem_words (hw : w ∈ words sep l) (hc : c ∈ w) : c ∈ l :=
  (splitOnP_mem (List.mem_filter.1 hw).1).2 c hc

/-- each element that is no separator is in a word -/
theorem exists_word (hc : c ∈ l) (hsep : sep c = false) : ∃ w ∈ words sep l, c ∈ w := by
  induction l with
  | nil => cases hc
  | cons a l ih =>
    by_cases ha : sep a = true
    · rw [words_cons_sep ha]
      rcases List.mem_cons.1 hc with rfl | hc
      · rw [hsep] at ha
        cases ha
      · exact ih hc
    · obtain ⟨q, qs, hq⟩ := List.exists_cons_of_ne_nil (List.splitOnP_ne_nil sep l)
      have hwords : words sep (a :: l) = (a :: q) :: qs.filter (· ≠ []) := by
        rw [words, List.splitOnP_cons_eq_if_modifyHead, if_neg ha, hq]
        simp
      rw [hwords]
      rcases List.mem_cons.1 hc with rfl | hc
      · exact ⟨_, List.mem_cons_self, List.mem_cons_self⟩
      · obtain ⟨w, hw, hcw⟩ := ih hc
        rw [words, hq] at hw
        obtain ⟨hw, hne⟩ := List.mem_filter.1 hw
        rcases List.mem_cons.1 hw with rfl | hw
        · exact ⟨_, List.mem_cons_self, List.mem_cons_of_mem _ hcw⟩
        · exact ⟨w, List.mem_cons_of_mem _ (List.mem_filter.2 ⟨hw, hne⟩), hcw⟩

/-- no word, nothing but separators -/
theorem words_eq_nil : words sep l = [] ↔ Separates sep l := by
  constructor
  · intro h c hc
    by_contra hsep
    obtain ⟨w, hw, -⟩ := exists_word hc (Bool.eq_false_iff.2 hsep)
    rw [h] at hw
    cases hw
  · intro h
    rw [← List.append_nil l, words_prepend h, words_nil]

end AtlasRag.Lib.Words
