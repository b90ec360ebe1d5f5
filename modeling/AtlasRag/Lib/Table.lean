/-
Tables as lists of rows, and the statements that change them.

A table comes with `defects : R → List E`, the constraint violations of a row (none for an admissible row). An
`UPDATE … SET f WHERE p` changes every row that matches `p`, reports how many there were, and is refused as a whole
when one of the new rows has a defect; an `INSERT` is refused when the new row has one.

Results: `updateWhere_ok` says exactly when an update is accepted and what it yields; `updateWhere_keeps` and
`insertRow_keeps`: an admissible table stays admissible; `countP_key_le_one`: a WHERE clause that pins the primary key
matches at most one row; `exists_first`: which row comes first in a sorted batch.
-/
import Mathlib

namespace AtlasRag.Lib.Table

variable {R E ι : Type}

/-- the rows after `UPDATE … SET f WHERE p` -/
def mapWhere (p : R → Prop) [DecidablePred p] (f : R → R) (t : List R) : List R :=
  t.map fun r => if p r then f r else r

/-- the defects of the rows an update would write -/
def updateDefects (defects : R → List E) (p : R → Prop) [DecidablePred p] (f : R → R) (t : List R) : List E :=
  (t.filter (p ·)).flatMap fun r => defects (f r)

/-- `UPDATE … SET f WHERE p`: the new rows and the row count, or the defects of the rows it would write -/
def updateWhere (defects : R → List E) (p : R → Prop) [DecidablePred p] (f : R → R) (t : List R) :
    Except (List E) (List R × ℕ) :=
  match updateDefects defects p f t with
  | [] => .ok (mapWhere p f t, t.countP (p ·))
  | es => .error es

/-- `INSERT`: appended, or refused with its defects -/
def insertRow (defects : R → List E) (r : R) (t : List R) : Except (List E) (List R) :=
  match defects r with
  | [] => .ok (t ++ [r])
  | es => .error es

variable {defects : R → List E} {p : R → Prop} [DecidablePred p] {f : R → R} {t t' : List R} {n : ℕ}

theorem updateDefects_eq_nil : updateDefects defects p f t = [] ↔ ∀ r ∈ t, p r → defects (f r) = [] := by
  simp [updateDefects]

/-- An update is accepted iff no row that it changes comes to have a defect, and then it changes the rows that match. -/
theorem updateWhere_ok :
    updateWhere defects p f t = .ok (t', n) ↔
      (∀ r ∈ t, p r → defects (f r) = []) ∧ t' = mapWhere p f t ∧ n = t.countP (p ·) := by
  rw [← updateDefects_eq_nil]
  unfold updateWhere
  split
  · next h => simp [h, eq_comm]
  · next h => exact iff_of_false (by simp) fun hok => h hok.1

/-- a refused update names defects of the rows it would write -/
theorem updateWhere_error {es : List E} (h : updateWhere defects p f t = .error es) {e : E} (he : e ∈ es) :
    ∃ r ∈ t, p r ∧ e ∈ defects (f r) := by
  unfold updateWhere at h
  split at h
  · cases h
  · cases h
    obtain ⟨r, hr, hd⟩ := List.mem_flatMap.1 he
    have hp : p r := by simpa using (List.mem_filter.1 hr).2
    exact ⟨r, (List.mem_filter.1 hr).1, hp, hd⟩

theorem mem_mapWhere {r : R} : r ∈ mapWhere p f t ↔ (∃ r₀ ∈ t, p r₀ ∧ f r₀ = r) ∨ (r ∈ t ∧ ¬ p r) := by
  simp only [mapWhere, List.mem_map]
  constructor
  · rintro ⟨r₀, h₀, rfl⟩
    split_ifs with hp
    · exact .inl ⟨r₀, h₀, hp, rfl⟩
    · exact .inr ⟨h₀, hp⟩
  · rintro (⟨r₀, h₀, hp, rfl⟩ | ⟨h₀, hp⟩)
    · exact ⟨r₀, h₀, if_pos hp⟩
    · exact ⟨r, h₀, if_neg hp⟩

/-- an update that keeps a column keeps the list of that column's values -/
theorem map_mapWhere (g : R → ι) (hg : ∀ r, g (f r) = g r) : (mapWhere p f t).map g = t.map g := by
  rw [mapWhere, List.map_map]
  refine List.map_congr_left fun r _ => ?_
  simp only [Function.comp]
  split_ifs
  · exact hg r
  · rfl

/-- an update that keeps the entries of its rows in an index, or takes some of them out -/
theorem flatMap_mapWhere {g : R → List ι} (hg : ∀ r, g (f r) = g r) : (mapWhere p f t).flatMap g = t.flatMap g := by
  rw [List.flatMap_def, List.flatMap_def, map_mapWhere g hg]

theorem flatMap_mapWhere_sublist {g : R → List ι} (hg : ∀ r, List.Sublist (g (f r)) (g r)) :
    List.Sublist ((mapWhere p f t).flatMap g) (t.flatMap g) := by
  rw [mapWhere, List.flatMap_map]
  refine List.Sublist.flatMap_right t fun r _ => ?_
  split_ifs
  · exact hg r
  · exact List.Sublist.refl _

/-- an update of columns that neither a query nor its answer reads -/
theorem map_filter_mapWhere {q : R → Bool} {g : R → ι} (hq : ∀ r, q (f r) = q r) (hg : ∀ r, g (f r) = g r) :
    ((mapWhere p f t).filter q).map g = (t.filter q).map g := by
  have hq' : (q ∘ fun r => if p r then f r else r) = q := by
    funext r
    simp only [Function.comp]
    split_ifs
    · exact hq r
    · rfl
  rw [mapWhere, List.filter_map, hq', List.map_map]
  refine List.map_congr_left fun r _ => ?_
  simp only [Function.comp]
  split_ifs
  · exact hg r
  · rfl

/-- an update of rows that a query does not see, before or after, does not change its answer -/
theorem filter_mapWhere {q : R → Bool} (h : ∀ r ∈ t, p r → q r = false ∧ q (f r) = false) :
    (mapWhere p f t).filter q = t.filter q := by
  induction t with
  | nil => rfl
  | cons r t ih =>
    have hr := h r List.mem_cons_self
    have iht := ih fun x hx => h x (List.mem_cons_of_mem _ hx)
    rw [mapWhere, List.map_cons, ← mapWhere]
    split_ifs with hp
    · rw [List.filter_cons_of_neg (by simp [(hr hp).2]), List.filter_cons_of_neg (by simp [(hr hp).1]), iht]
    · rw [List.filter_cons, List.filter_cons, iht]

/-- an update that takes rows out of a query's answer adds none -/
theorem filter_mapWhere_sublist {q : R → Bool} (h : ∀ r ∈ t, p r → q (f r) = false) :
    ((mapWhere p f t).filter q).Sublist (t.filter q) := by
  induction t with
  | nil => exact List.Sublist.refl _
  | cons r t ih =>
    have iht := ih fun x hx => h x (List.mem_cons_of_mem _ hx)
    rw [mapWhere, List.map_cons, ← mapWhere]
    split_ifs with hp
    · rw [List.filter_cons_of_neg (by simp [h r List.mem_cons_self hp])]
      exact iht.trans ((List.sublist_cons_self r t).filter q)
    · by_cases hq : q r = true
      · rw [List.filter_cons_of_pos hq, List.filter_cons_of_pos hq]; exact iht.cons_cons r
      · rw [List.filter_cons_of_neg hq, List.filter_cons_of_neg hq]; exact iht

/-- an update that takes rows out of a query's answer leaves those that it does not match -/
theorem exists_mapWhere {q : R → Prop} (h : ∀ r, p r → ¬ q (f r)) :
    (∃ r ∈ mapWhere p f t, q r) ↔ ∃ r ∈ t, q r ∧ ¬ p r := by
  constructor
  · rintro ⟨r, hr, hq⟩
    rcases mem_mapWhere.1 hr with ⟨r₀, -, hp, rfl⟩ | ⟨hr, hp⟩
    · exact absurd hq (h r₀ hp)
    · exact ⟨r, hr, hq, hp⟩
  · rintro ⟨r, hr, hq, hp⟩
    exact ⟨r, mem_mapWhere.2 (.inr ⟨hr, hp⟩), hq⟩

theorem updateWhere_keeps (hok : updateWhere defects p f t = .ok (t', n)) (ht : ∀ r ∈ t, defects r = []) :
    ∀ r ∈ t', defects r = [] := by
  obtain ⟨hd, rfl, -⟩ := updateWhere_ok.1 hok
  intro r hr
  rcases mem_mapWhere.1 hr with ⟨r₀, h₀, hp, rfl⟩ | ⟨h₀, -⟩
  · exact hd r₀ h₀ hp
  · exact ht r h₀

theorem insertRow_ok {r : R} : insertRow defects r t = .ok t' ↔ defects r = [] ∧ t' = t ++ [r] := by
  unfold insertRow
  split
  · next h => simp [h, eq_comm]
  · next h => exact iff_of_false (by simp) fun hok => h hok.1

theorem insertRow_keeps {r : R} (hok : insertRow defects r t = .ok t') (ht : ∀ r ∈ t, defects r = []) :
    ∀ r ∈ t', defects r = [] := by
  obtain ⟨hd, rfl⟩ := insertRow_ok.1 hok
  intro x hx
  rcases List.mem_append.1 hx with hx | hx
  · exact ht x hx
  · rw [List.mem_singleton.1 hx]; exact hd

/-! ## WHERE clauses that pin the primary key -/

variable {key : R → ι} {k : ι}

/-- with a primary key, a WHERE clause that pins it matches at most one row -/
theorem countP_key_le_one (hk : (t.map key).Nodup) (hp : ∀ r ∈ t, p r → key r = k) : t.countP (p ·) ≤ 1 := by
  induction t with
  | nil => simp
  | cons r t ih =>
    rw [List.map_cons, List.nodup_cons] at hk
    have iht := ih hk.2 fun x hx => hp x (List.mem_cons_of_mem _ hx)
    rw [List.countP_cons]
    split_ifs with hr
    · have hr' : p r := by simpa using hr
      have h0 : t.countP (p ·) = 0 := by
        refine List.countP_eq_zero.2 fun x hx hpx => hk.1 ?_
        have hkx : key x = key r :=
          (hp x (List.mem_cons_of_mem _ hx) (by simpa using hpx)).trans (hp r List.mem_cons_self hr').symm
        exact hkx ▸ List.mem_map_of_mem hx
      omega
    · omega

theorem countP_eq_one (hk : (t.map key).Nodup) (hp : ∀ r ∈ t, p r → key r = k) {r : R} (hr : r ∈ t) (hpr : p r) :
    t.countP (p ·) = 1 := by
  have h0 : 0 < t.countP (p ·) := List.countP_pos_iff.2 ⟨r, hr, by simpa using hpr⟩
  have h1 := countP_key_le_one hk hp
  omega

/-- … and finds that row -/
theorem filter_eq_singleton (hk : (t.map key).Nodup) (hp : ∀ r ∈ t, p r → key r = k) {r : R} (hr : r ∈ t) (hpr : p r) :
    t.filter (p ·) = [r] := by
  have hlength : (t.filter (p ·)).length = 1 := by
    rw [← List.countP_eq_length_filter]
    exact countP_eq_one hk hp hr hpr
  obtain ⟨x, hx⟩ := List.length_eq_one_iff.1 hlength
  have hmem : r ∈ t.filter (p ·) := List.mem_filter.2 ⟨hr, by simpa using hpr⟩
  rw [hx, List.mem_singleton] at hmem
  rw [hx, hmem]

theorem nodup_concat {l : List ι} {a : ι} (h : l.Nodup) (ha : a ∉ l) : (l ++ [a]).Nodup := by
  refine List.nodup_append.2 ⟨h, List.nodup_singleton a, fun b hb b' hb' => ?_⟩
  rw [List.mem_singleton.1 hb']
  exact fun hba => ha (hba ▸ hb)

/-- two rows at different places differ in a column without repetitions -/
theorem ne_of_nodup_map (h : (t.map key).Nodup) {i j : ℕ} {r r' : R} (hi : t[i]? = some r) (hj : t[j]? = some r')
    (hij : i ≠ j) : key r ≠ key r' := by
  intro heq
  have hki : (t.map key)[i]? = some (key r) := by rw [List.getElem?_map, hi]; rfl
  have hkj : (t.map key)[j]? = some (key r) := by rw [List.getElem?_map, hj, heq]; rfl
  have hlength : i < (t.map key).length := (List.getElem?_eq_some_iff.1 hki).1
  exact hij ((List.getElem?_inj hlength h).1 (hki.trans hkj.symm))

/-! ## Batches -/

/-- **The first row of a batch**, in the order of a column, comes before every row or together with it. -/
theorem exists_first {κ : Type} [LinearOrder κ] (key : R → κ) [DecidableRel fun a b => key a ≤ key b] {r : R} (hr : r ∈ t)
    {n : ℕ} (hn : 0 < n) : ∃ h ∈ (t.insertionSort fun a b => key a ≤ key b).take n, key h ≤ key r := by
  have htotal : Std.Total fun a b : R => key a ≤ key b := ⟨fun a b => le_total _ _⟩
  have htrans : IsTrans R fun a b => key a ≤ key b := ⟨fun a b c => le_trans⟩
  have hsorted := List.pairwise_insertionSort (fun a b => key a ≤ key b) t
  have hmem : r ∈ t.insertionSort fun a b => key a ≤ key b := (List.mem_insertionSort _).2 hr
  obtain ⟨m, rfl⟩ := Nat.exists_eq_succ_of_ne_zero hn.ne'
  generalize (t.insertionSort fun a b => key a ≤ key b) = sorted at hsorted hmem
  cases sorted with
  | nil => cases hmem
  | cons h rest =>
    refine ⟨h, by simp, ?_⟩
    rcases List.mem_cons.1 hmem with rfl | hrest
    · exact le_rfl
    · exact List.rel_of_pairwise_cons hsorted hrest

end AtlasRag.Lib.Table
