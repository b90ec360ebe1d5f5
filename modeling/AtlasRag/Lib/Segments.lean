/-
Lists in consecutive segments, each of them admissible, and the loop that closes a segment only where the next element
does not fit.

Admissibility is hereditary if it passes from a segment to each part of it that is not empty. Then no list of admissible
segments is shorter than one in which every segment but the last is full: by induction, what the full segments leave of the
list is never longer than what the others leave.

Results:
- `greedy_isPartition`, `greedy_full`: what the loop makes;
- `length_le_of_full`: full segments are as few as possible.
-/
import Mathlib

namespace AtlasRag.Lib.Segments

variable {α : Type}

/-- the list in segments that are admissible and not empty -/
structure IsPartition (ok : List α → Prop) (l : List α) (segments : List (List α)) : Prop where
  flatten : segments.flatten = l
  ne_nil : ∀ s ∈ segments, s ≠ []
  ok : ∀ s ∈ segments, ok s

/-- no segment but the last takes the element after it -/
def Full (ok : List α → Prop) (segments : List (List α)) : Prop :=
  segments.IsChain fun s s' => ∀ x ∈ s'.head?, ¬ ok (s ++ [x])

def Hereditary (ok : List α → Prop) : Prop := ∀ part s : List α, part <:+: s → part ≠ [] → ok s → ok part

section

variable {ok : List α → Prop} {l l' : List α} {s s' : List α} {segments others : List (List α)}

theorem IsPartition.tail (h : IsPartition ok l (s :: segments)) : IsPartition ok segments.flatten segments :=
  ⟨rfl, fun t ht => h.ne_nil t (List.mem_cons_of_mem s ht), fun t ht => h.ok t (List.mem_cons_of_mem s ht)⟩

/-- what is left after a full segment is not longer than what is left after one that starts no later -/
theorem suffix_of_full (hereditary : Hereditary ok) {rest rest' : List α} (hs' : ok s')
    (hfull : ∀ x ∈ rest.head?, ¬ ok (s ++ [x])) (hsuffix : s ++ rest <:+ s' ++ rest') : rest <:+ rest' := by
  have hrest : rest <:+ s' ++ rest' := (List.suffix_append s rest).trans hsuffix
  rcases List.suffix_or_suffix_of_suffix hrest (List.suffix_append s' rest') with h | ⟨between, hbetween⟩
  · exact h
  cases hrest : rest with
  | nil => exact List.nil_suffix
  | cons x xs =>
    -- either the segments end together, or the other one has the next element as well
    obtain ⟨before, hbefore⟩ := hsuffix
    cases between with
    | nil =>
      rw [List.nil_append] at hbetween
      rw [← hrest, hbetween]
    | cons y between =>
      exfalso
      rw [hrest, List.cons_append] at hbetween
      obtain ⟨rfl, hxs⟩ := List.cons.inj hbetween
      have hinfix : s ++ [y] <:+: s' := by
        refine ⟨before, between, ?_⟩
        have happend : before ++ (s ++ [y]) ++ between ++ rest' = s' ++ rest' := by
          rw [← hbefore, hrest, ← hxs]
          simp
        exact List.append_cancel_right happend
      refine hfull y ?_ (hereditary _ s' hinfix (by simp) hs')
      rw [hrest]
      rfl

/-- No partition of the list, or of a longer one that it ends, has fewer segments than full ones. -/
theorem length_le_of_full (hereditary : Hereditary ok) (h : IsPartition ok l segments) (hfull : Full ok segments)
    (hother : IsPartition ok l' others) (hsuffix : l <:+ l') : segments.length ≤ others.length := by
  induction segments generalizing l l' others with
  | nil => exact Nat.zero_le _
  | cons s segments ih =>
    cases others with
    | nil =>
      exfalso
      rw [← hother.flatten, ← h.flatten] at hsuffix
      have hnil := List.suffix_nil.1 hsuffix
      exact h.ne_nil s List.mem_cons_self (List.append_eq_nil_iff.1 hnil).1
    | cons s' others =>
      rw [List.length_cons, List.length_cons]
      apply Nat.succ_le_succ
      refine ih h.tail (List.isChain_cons.1 hfull).2 hother.tail ?_
      have hhead : ∀ x ∈ segments.flatten.head?, ¬ ok (s ++ [x]) := by
        cases segments with
        | nil => simp
        | cons t segments =>
          intro x hx
          rw [List.flatten_cons, List.head?_append_of_ne_nil _ (h.ne_nil t (by simp))] at hx
          exact (List.isChain_cons_cons.1 hfull).1 x hx
      refine suffix_of_full hereditary (hother.ok s' List.mem_cons_self) hhead ?_
      rw [← List.flatten_cons, ← List.flatten_cons, h.flatten, hother.flatten]
      exact hsuffix

end

/-! ## The loop -/

section

variable (ok : List α → Prop) [DecidablePred ok]

/-- the segments from an open one -/
def greedyFrom (current : List α) : List α → List (List α)
  | [] => if current = [] then [] else [current]
  | x :: rest =>
    if current = [] ∨ ok (current ++ [x]) then greedyFrom (current ++ [x]) rest else current :: greedyFrom [x] rest

def greedy (l : List α) : List (List α) := greedyFrom ok [] l

variable {ok} (single : ∀ x, ok [x])
include single

theorem greedyFrom_isPartition {current : List α} (hcurrent : current = [] ∨ ok current) (l : List α) :
    IsPartition ok (current ++ l) (greedyFrom ok current l) := by
  induction l generalizing current with
  | nil =>
    rw [greedyFrom, List.append_nil]
    split_ifs with h
    · rw [h]
      exact ⟨rfl, by simp, by simp⟩
    · refine ⟨by simp, ?_, ?_⟩
      · simpa using h
      · simpa using hcurrent.resolve_left h
  | cons x l ih =>
    rw [greedyFrom]
    split_ifs with h
    · have hnext : ok (current ++ [x]) := by
        rcases h with rfl | h
        · exact single x
        · exact h
      rw [List.append_cons]
      exact ih (.inr hnext)
    · push Not at h
      have hrest := @ih [x] (.inr (single x))
      refine ⟨?_, ?_, ?_⟩
      · rw [List.flatten_cons, hrest.flatten]
        rfl
      · exact List.forall_mem_cons.2 ⟨h.1, hrest.ne_nil⟩
      · exact List.forall_mem_cons.2 ⟨hcurrent.resolve_left h.1, hrest.ok⟩

/-- The greedy loop makes a partition of the list into runs that are allowed. -/
theorem greedy_isPartition (l : List α) : IsPartition ok l (greedy ok l) := greedyFrom_isPartition single (.inl rfl) l

omit single in
/-- the first segment starts with the open one -/
theorem head_greedyFrom {current : List α} (hcurrent : current ≠ []) (l : List α) :
    ∃ s rest, greedyFrom ok current l = s :: rest ∧ s.head? = current.head? := by
  induction l generalizing current with
  | nil =>
    rw [greedyFrom, if_neg hcurrent]
    exact ⟨current, [], rfl, rfl⟩
  | cons x l ih =>
    rw [greedyFrom]
    split_ifs
    · obtain ⟨s, rest, heq, hhead⟩ := @ih (current ++ [x]) (by simp)
      refine ⟨s, rest, heq, hhead.trans ?_⟩
      rw [List.head?_append_of_ne_nil _ hcurrent]
    · exact ⟨current, _, rfl, rfl⟩

omit single in
theorem greedyFrom_full (current l : List α) : Full ok (greedyFrom ok current l) := by
  induction l generalizing current with
  | nil =>
    rw [greedyFrom]
    split_ifs
    · exact List.isChain_nil
    · exact List.isChain_singleton _
  | cons x l ih =>
    rw [greedyFrom]
    split_ifs with h
    · exact ih _
    · push Not at h
      obtain ⟨s, rest, heq, hhead⟩ := @head_greedyFrom α ok _ [x] (List.cons_ne_nil x []) l
      have hrest := ih [x]
      rw [heq] at hrest ⊢
      refine List.IsChain.cons_cons ?_ hrest
      intro y hy
      rw [hhead, List.head?_cons, Option.mem_some_iff] at hy
      rw [← hy]
      exact h.2

omit single in
/-- The greedy loop closes a segment only when the next element does not fit. -/
theorem greedy_full (l : List α) : Full ok (greedy ok l) := greedyFrom_full [] l

end

end AtlasRag.Lib.Segments
