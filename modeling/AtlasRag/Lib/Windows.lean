/-
Windows over a list: runs of `size` elements, each starting `size - overlap` after the one before, up to the first that
reaches the end.

`windows` is the specification, by recursion over the list; `scan` is the loop with an index that a program runs.

Results:
- `scan_eq`: the loop ends, with the windows of the rest of the list;
- `windows_length`: a window is not empty, nor longer than `size`;
- `windows_chain`: a window repeats exactly the last `overlap` elements of the one before, and has more;
- `windows_merge`: without these repetitions the windows are the list.
-/
import Mathlib

namespace AtlasRag.Lib.Windows

variable {α : Type}

/-- the windows of a list that is not empty -/
def windows (size overlap : ℕ) (h : overlap < size) (l : List α) : List (List α) :=
  if l.length ≤ size then [l] else l.take size :: windows size overlap h (l.drop (size - overlap))
termination_by l.length
decreasing_by
  rw [List.length_drop]
  omega

/-- the loop `while index < len(l)`; `none` if it has not ended after so many rounds -/
def scan (size overlap : ℕ) (l : List α) : ℕ → ℕ → Option (List (List α))
  | 0, _ => none
  | rounds + 1, index =>
    if index < l.length then
      let stop := min (index + size) l.length
      let piece := (l.take stop).drop index
      if stop = l.length then some [piece]
      else (scan size overlap l rounds (index + (size - overlap))).map (piece :: ·)
    else some []

variable {size overlap : ℕ} {h : overlap < size} {l : List α}

theorem windows_of_le (hl : l.length ≤ size) : windows size overlap h l = [l] := by
  rw [windows, if_pos hl]

theorem windows_of_lt (hl : size < l.length) :
    windows size overlap h l = l.take size :: windows size overlap h (l.drop (size - overlap)) := by
  rw [windows, if_neg (not_le.2 hl)]

/-- **The loop** ends, after at most as many rounds as there are elements left. -/
theorem scan_eq (rounds index : ℕ) (hindex : index < l.length) (hrounds : l.length - index ≤ rounds) :
    scan size overlap l rounds index = some (windows size overlap h (l.drop index)) := by
  induction rounds generalizing index with
  | zero => omega
  | succ rounds ih =>
    rw [scan, if_pos hindex]
    have hlength : (l.drop index).length = l.length - index := List.length_drop
    by_cases hstop : min (index + size) l.length = l.length
    · have hpiece : (l.take l.length).drop index = l.drop index := by rw [List.take_length]
      simp only [hstop, if_true, hpiece]
      rw [windows_of_le (by omega)]
    · have hmin : min (index + size) l.length = index + size := by omega
      have hpiece : (l.take (index + size)).drop index = (l.drop index).take size := by
        rw [List.drop_take, Nat.add_sub_cancel_left]
      rw [hmin] at hstop ⊢
      simp only [hpiece]
      rw [if_neg hstop, windows_of_lt (by omega), ih (index + (size - overlap)) (by omega) (by omega), List.drop_drop]
      rfl

/-- A window is not empty, and no longer than the size. -/
theorem windows_length (hl : l ≠ []) : ∀ w ∈ windows size overlap h l, w ≠ [] ∧ w.length ≤ size := by
  fun_induction windows size overlap h l with
  | case1 l hle =>
    intro w hw
    rw [List.mem_singleton.1 hw]
    exact ⟨hl, hle⟩
  | case2 l hlt ih =>
    intro w hw
    rcases List.mem_cons.1 hw with rfl | hw
    · refine ⟨fun hnil => ?_, List.length_take_le _ _⟩
      have hzero := congrArg List.length hnil
      rw [List.length_take, List.length_nil] at hzero
      omega
    · refine ih (fun hnil => ?_) w hw
      have hzero := congrArg List.length hnil
      rw [List.length_drop, List.length_nil] at hzero
      omega

theorem windows_subset : ∀ w ∈ windows size overlap h l, ∀ x ∈ w, x ∈ l := by
  fun_induction windows size overlap h l with
  | case1 l hle =>
    intro w hw x hx
    rwa [List.mem_singleton.1 hw] at hx
  | case2 l hlt ih =>
    intro w hw x hx
    rcases List.mem_cons.1 hw with rfl | hw
    · exact List.mem_of_mem_take hx
    · exact List.mem_of_mem_drop (ih w hw x hx)

/-- the first window starts with the list -/
theorem windows_head : ∃ ws, windows size overlap h l = l.take size :: ws := by
  rcases Nat.lt_or_ge size l.length with hl | hl
  · exact ⟨_, windows_of_lt hl⟩
  · exact ⟨[], by rw [windows_of_le hl, List.take_of_length_le hl]⟩

/-- the window `b` repeats exactly the last `overlap` elements of `a`, and goes on -/
def Follows (overlap : ℕ) (a b : List α) : Prop :=
  overlap ≤ a.length ∧ overlap < b.length ∧ a.drop (a.length - overlap) = b.take overlap

/-- Each window follows the one before, and overlaps with it. -/
theorem windows_chain : (windows size overlap h l).IsChain (Follows overlap) := by
  fun_induction windows size overlap h l with
  | case1 l hle => exact List.isChain_singleton _
  | case2 l hlt ih =>
    obtain ⟨ws, hws⟩ := windows_head (h := h) (l := l.drop (size - overlap))
    rw [hws] at ih ⊢
    refine List.isChain_cons_cons.2 ⟨⟨?_, ?_, ?_⟩, ih⟩
    · rw [List.length_take]
      omega
    · rw [List.length_take, List.length_drop]
      omega
    · rw [List.length_take, Nat.min_eq_left (by omega), List.drop_take, List.take_take, Nat.sub_sub_self (le_of_lt h),
        Nat.min_eq_left (le_of_lt h)]

/-- the windows without what they repeat -/
def merge (overlap : ℕ) : List (List α) → List α
  | [] => []
  | w :: ws => w ++ ws.flatMap (List.drop overlap)

/-- The windows, each without what it shares with the one before, make up the list. -/
theorem windows_merge : merge overlap (windows size overlap h l) = l := by
  fun_induction windows size overlap h l with
  | case1 l hle => simp [merge]
  | case2 l hlt ih =>
    obtain ⟨ws, hws⟩ := windows_head (h := h) (l := l.drop (size - overlap))
    rw [hws] at ih ⊢
    rw [merge] at ih ⊢
    rw [List.flatMap_cons]
    have hfirst : l.take size ++ ((l.drop (size - overlap)).take size).drop overlap =
        l.take (size - overlap) ++ (l.drop (size - overlap)).take size := by
      have hrest : (l.drop (size - overlap)).take overlap = ((l.drop (size - overlap)).take size).take overlap := by
        rw [List.take_take, Nat.min_eq_left (le_of_lt h)]
      have hsize : size - overlap + overlap = size := Nat.sub_add_cancel (le_of_lt h)
      calc l.take size ++ ((l.drop (size - overlap)).take size).drop overlap
          = l.take (size - overlap + overlap) ++ ((l.drop (size - overlap)).take size).drop overlap := by rw [hsize]
        _ = l.take (size - overlap) ++ (l.drop (size - overlap)).take size := by
          rw [List.take_add, List.append_assoc, hrest, List.take_append_drop]
    rw [← List.append_assoc, hfirst, List.append_assoc, ih, List.take_append_drop]

theorem merge_subset {n : ℕ} {ws : List (List α)} {x : α} (hx : x ∈ merge n ws) : x ∈ ws.flatten := by
  cases ws with
  | nil => exact hx
  | cons w ws =>
    rw [merge] at hx
    rcases List.mem_append.1 hx with hx | hx
    · exact List.mem_flatten_of_mem List.mem_cons_self hx
    · obtain ⟨w', hw', hx⟩ := List.mem_flatMap.1 hx
      exact List.mem_flatten_of_mem (List.mem_cons_of_mem _ hw') (List.mem_of_mem_drop hx)

theorem merge_zero (ws : List (List α)) : merge 0 ws = ws.flatten := by
  cases ws with
  | nil => rfl
  | cons w ws =>
    have hdrop : List.drop 0 = @id (List α) := funext fun l => List.drop_zero
    rw [merge, hdrop, List.flatMap_id, List.flatten_cons]

/-- lists that all start with `p` -/
theorem merge_prefix {β : Type} {p : List α} {f : β → List α} {xs : List β} (hne : xs ≠ []) :
    merge p.length (xs.map fun x => p ++ f x) = p ++ xs.flatMap f := by
  obtain ⟨x, xs, rfl⟩ := List.exists_cons_of_ne_nil hne
  rw [List.map_cons, merge, List.flatMap_map, List.flatMap_cons, List.append_assoc]
  simp only [List.drop_left]

end AtlasRag.Lib.Windows
