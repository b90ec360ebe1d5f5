/-
Ingestion items: the table `ingestion_items` with its constraints, and the statements of `IngestionRepository`.

An item is a leased job (`Lib.LeasedJob`) with the columns of its own: the run and the artifact it belongs to, the file
hash observed by the attempt that completed it, and the activation times. Each UPDATE of the repository is a statement
of the leased job; `updateItem` runs it on the table under `WHERE id = …`, `updateRow` on one row.

Results:
- `defects_eq_nil`: a row is admissible iff it meets the CHECKs of the leased job, is not activated before it is
  completed, and its texts fit their columns;
- `ItemInv.update`, `ItemInv.set_defects`: with a single clock, every statement of the lifecycle keeps the
  representation invariant, and writes a row that only a NUL character in a text can make inadmissible;
- `updateItem_row`: what the table update does to one row is what `updateRow` does.
-/
import AtlasRag.Lib.LeasedJob
import AtlasRag.Lib.Table
import AtlasRag.Platform.Postgres

namespace AtlasRag.Ingestion

open AtlasRag.Lib.LeasedJob AtlasRag.Lib.Table AtlasRag.Platform

/-- `IngestionStatus` -/
abbrev IngestionStatus := Status

def MAX_ATTEMPTS_EXCEEDED : String := "max_attempts_exceeded"

/-! ## Rows -/

structure IngestionItem extends Job Time JsonObject where
  id : Uuid
  ingestionRunId : Uuid
  documentArtifactId : Uuid
  observedFileHash : Option String
  activatedAt : Option Time
  deactivatedAt : Option Time
  createdAt : Time
deriving Repr

namespace IngestionItem

/-- the row `add_item` inserts -/
def new (id ingestionRunId documentArtifactId : Uuid) (t : Time) : IngestionItem :=
  ⟨Job.new [], id, ingestionRunId, documentArtifactId, none, none, none, t⟩

/-- the constraints a row violates; `attempt_count` is a natural number, so its CHECK holds by type -/
def defects (it : IngestionItem) : List Violation :=
  checkThat "running_requires_claim"
    (it.status = .running → it.startedAt.isSome ∧ it.claimedAt.isSome ∧ it.leaseExpiresAt.isSome) ++
  checkThat "lease_only_while_running" (it.status = .running ∨ it.leaseExpiresAt = none) ++
  checkThat "valid_lease" (∀ l ∈ it.leaseExpiresAt, ∃ c ∈ it.claimedAt, c < l) ++
  checkThat "terminal_requires_completed_at" (it.status.Terminal → it.completedAt.isSome) ++
  checkThat "completed_not_before_started" (∀ c ∈ it.completedAt, ∃ s ∈ it.startedAt, s ≤ c) ++
  checkThat "activation_requires_completion" (it.activatedAt = none ∨ it.status = .completed) ++
  checkThat "deactivation_after_activation" (∀ x ∈ it.deactivatedAt, ∃ a ∈ it.activatedAt, a ≤ x) ++
  textColumn "observed_file_hash" (some 64) it.observedFileHash ++ textColumn "error_code" (some 150) it.errorCode ++
  textColumn "error_message" none it.errorMessage

/-- the observed hash, the error code and the error message meet `P`, `Q` and `R` -/
def TextsMeet (P Q R : String → Prop) (it : IngestionItem) : Prop :=
  (∀ x ∈ it.observedFileHash, P x) ∧ (∀ x ∈ it.errorCode, Q x) ∧ ∀ x ∈ it.errorMessage, R x

/-- the texts of a row fit their columns -/
def TextsFit : IngestionItem → Prop := TextsMeet (FitsText (some 64)) (FitsText (some 150)) (FitsText none)

/-- activation is recorded on completed rows only -/
def ActivationOk (it : IngestionItem) : Prop :=
  (it.activatedAt = none ∨ it.status = .completed) ∧ ∀ x ∈ it.deactivatedAt, ∃ a ∈ it.activatedAt, a ≤ x

theorem textColumn_eq_nil {column : String} {limit : Option ℕ} {s : Option String} :
    textColumn column limit s = [] ↔ ∀ x ∈ s, FitsText limit x := by
  cases s with
  | none => simp
  | some x => simp

/-- No CHECK of the table refuses the row iff its lifecycle columns agree, its activation is consistent and its texts fit. -/
theorem defects_eq_nil {it : IngestionItem} : it.defects = [] ↔ Checks it.toJob ∧ it.ActivationOk ∧ it.TextsFit := by
  simp only [defects, List.append_eq_nil_iff, checkThat_eq_nil, textColumn_eq_nil]
  constructor
  · rintro ⟨⟨⟨⟨⟨⟨⟨⟨⟨h1, h2⟩, h3⟩, h4⟩, h5⟩, h6⟩, h7⟩, h8⟩, h9⟩, h10⟩
    exact ⟨⟨h1, h2, h3, h4, h5⟩, ⟨h6, h7⟩, h8, h9, h10⟩
  · rintro ⟨⟨h1, h2, h3, h4, h5⟩, ⟨h6, h7⟩, h8, h9, h10⟩
    exact ⟨⟨⟨⟨⟨⟨⟨⟨⟨h1, h2⟩, h3⟩, h4⟩, h5⟩, h6⟩, h7⟩, h8⟩, h9⟩, h10⟩

end IngestionItem

/-! ## Statements -/

abbrev ItemStmt := Stmt Time JsonObject

/-- the SET clause: the job columns, and the observed hash when the statement writes one -/
def IngestionItem.set (s : ItemStmt) (hash : Option String) (it : IngestionItem) : IngestionItem :=
  { it with toJob := s.set it.toJob, observedFileHash := hash.or it.observedFileHash }

/-- one statement on one row: refused, no match, or the new row -/
def updateRow (s : ItemStmt) (hash : Option String) (it : IngestionItem) :
    Except (List Violation) (Option IngestionItem) :=
  if s.Matches it.toJob then
    match (it.set s hash).defects with
    | [] => .ok (some (it.set s hash))
    | es => .error es
  else .ok none

/-- one statement on the table, under `WHERE id = itemId AND …` -/
def updateItem (itemId : Uuid) (s : ItemStmt) (hash : Option String) (items : List IngestionItem) :
    Except (List Violation) (List IngestionItem × ℕ) :=
  updateWhere IngestionItem.defects (fun it => it.id = itemId ∧ s.Matches it.toJob) (IngestionItem.set s hash) items

/-! ## `IngestionRepository` -/

namespace IngestionRepository

/-- the keys and references a new row violates -/
def keyDefects (itemId ingestionRunId documentArtifactId : Uuid) (runs artifacts : List Uuid)
    (items : List IngestionItem) : List Violation :=
  (if itemId ∈ items.map (·.id) then [.unique "pk_ingestion_items"] else []) ++
  (if (ingestionRunId, documentArtifactId) ∈ items.map (fun it => (it.ingestionRunId, it.documentArtifactId)) then
    [.unique "uq_ingestion_items_run_artifact"] else []) ++
  (if ingestionRunId ∈ runs then [] else [.foreignKey "ingestion_run_id"]) ++
  if documentArtifactId ∈ artifacts then [] else [.foreignKey "document_artifact_id"]

/-- `add_item`; `runs` and `artifacts` are the keys its two references may name -/
def addItem (itemId ingestionRunId documentArtifactId : Uuid) (runs artifacts : List Uuid) (t : Time)
    (items : List IngestionItem) : Except (List Violation) (List IngestionItem) :=
  match keyDefects itemId ingestionRunId documentArtifactId runs artifacts items with
  | [] => insertRow IngestionItem.defects (.new itemId ingestionRunId documentArtifactId t) items
  | es => .error es

def claimItem (itemId : Uuid) (now lease : Time) (max : ℕ) (t : Time) :=
  updateItem itemId (.claim now lease max t) none

def heartbeat (itemId : Uuid) (a : ℕ) (lease t : Time) := updateItem itemId (.heartbeat a lease t) none

def releaseForRetry (itemId : Uuid) (a : ℕ) (errorCode errorMessage : Option String) (t : Time) :=
  updateItem itemId (.release a errorCode errorMessage t) none

def markFailed (itemId : Uuid) (a : ℕ) (now : Time) (errorCode : String) (errorMessage : Option String)
    (metadata : Option JsonObject) (t : Time) :=
  updateItem itemId (.fail a now errorCode errorMessage metadata t) none

def markCompleted (itemId : Uuid) (a : ℕ) (now : Time) (observedFileHash : String) (metadata : JsonObject) (t : Time) :=
  updateItem itemId (.complete a now metadata t) (some observedFileHash)

/-- `fail_exhausted_expired_items`, on the whole table -/
def failExhaustedExpiredItems (now : Time) (max : ℕ) (t : Time) (items : List IngestionItem) :
    Except (List Violation) (List IngestionItem × ℕ) :=
  updateWhere IngestionItem.defects (fun it => (Stmt.failExhausted now max MAX_ATTEMPTS_EXCEEDED t).Matches it.toJob)
    (IngestionItem.set (.failExhausted now max MAX_ATTEMPTS_EXCEEDED t) none) items

end IngestionRepository

/-! ## The table update and the row update -/

theorem updateRow_some {s : ItemStmt} {hash : Option String} {it it' : IngestionItem} :
    updateRow s hash it = .ok (some it') ↔
      s.Matches it.toJob ∧ (it.set s hash).defects = [] ∧ it' = it.set s hash := by
  unfold updateRow
  split_ifs with h
  · split
    · next hd => simp [h, hd, eq_comm]
    · next hd => exact iff_of_false (by simp) fun hok => hd hok.2.1
  · exact iff_of_false (by simp) fun hok => h hok.1

theorem updateRow_none {s : ItemStmt} {hash : Option String} {it : IngestionItem} :
    updateRow s hash it = .ok none ↔ ¬ s.Matches it.toJob := by
  unfold updateRow
  split_ifs with h
  · split <;> simp [h]
  · simp [h]

/-- the update of the job columns is a statement of the leased job -/
theorem updateRow_exec {s : ItemStmt} {hash : Option String} {it it' : IngestionItem}
    (h : updateRow s hash it = .ok (some it')) : exec s it.toJob = some it'.toJob := by
  obtain ⟨hm, -, rfl⟩ := updateRow_some.1 h
  exact exec_some.2 ⟨hm, rfl⟩

/-- The table update does to each row of that identifier what the row update does, and nothing to the others. -/
theorem updateItem_row {itemId : Uuid} {s : ItemStmt} {hash : Option String} {items items' : List IngestionItem} {n : ℕ}
    (h : updateItem itemId s hash items = .ok (items', n)) {it : IngestionItem} (hit : it ∈ items) :
    (it.id = itemId ∧ ∃ r, updateRow s hash it = .ok r ∧ r.getD it ∈ items') ∨ (it.id ≠ itemId ∧ it ∈ items') := by
  obtain ⟨hd, rfl, -⟩ := updateWhere_ok.1 h
  by_cases hid : it.id = itemId
  · refine .inl ⟨hid, ?_⟩
    by_cases hm : s.Matches it.toJob
    · exact ⟨_, updateRow_some.2 ⟨hm, hd it hit ⟨hid, hm⟩, rfl⟩, mem_mapWhere.2 (.inl ⟨it, hit, ⟨hid, hm⟩, rfl⟩)⟩
    · exact ⟨none, updateRow_none.2 hm, mem_mapWhere.2 (.inr ⟨hit, fun hp => hm hp.2⟩)⟩
  · exact .inr ⟨hid, mem_mapWhere.2 (.inr ⟨hit, fun hp => hid hp.1⟩)⟩

/-! ## The representation invariant of a row -/

/-- the texts a statement writes meet `P`, `Q` and `R` -/
def StmtTextsMeet (P Q R : String → Prop) (s : ItemStmt) (hash : Option String) : Prop :=
  (∀ h ∈ hash, P h) ∧
  match s with
  | .release _ code msg _ => (∀ c ∈ code, Q c) ∧ ∀ m ∈ msg, R m
  | .fail _ _ code msg _ _ => Q code ∧ ∀ m ∈ msg, R m
  | .failExhausted _ _ code _ => Q code
  | _ => True

instance (P Q R : String → Prop) [DecidablePred P] [DecidablePred Q] [DecidablePred R] (s : ItemStmt)
    (hash : Option String) : Decidable (StmtTextsMeet P Q R s hash) := by
  cases s <;> unfold StmtTextsMeet <;> infer_instance

/-- … are not longer than their columns -/
def LengthsFit (s : ItemStmt) (hash : Option String) : Prop :=
  StmtTextsMeet (·.toList.length ≤ 64) (·.toList.length ≤ 150) (fun _ => True) s hash

instance (s : ItemStmt) (hash : Option String) : Decidable (LengthsFit s hash) :=
  inferInstanceAs (Decidable (StmtTextsMeet _ _ _ s hash))

theorem set_textsMeet {P Q R : String → Prop} {s : ItemStmt} {hash : Option String} {it : IngestionItem}
    (h : it.TextsMeet P Q R) (hs : StmtTextsMeet P Q R s hash) : (it.set s hash).TextsMeet P Q R := by
  obtain ⟨h1, h2, h3⟩ := h
  obtain ⟨k0, k⟩ := hs
  refine ⟨?_, ?_, ?_⟩
  · intro x hx
    cases hash with
    | none => exact h1 x (by simpa [IngestionItem.set] using hx)
    | some y => exact k0 x (by simpa [IngestionItem.set] using hx)
  · intro x hx
    cases s with
    | claim => exact h2 x hx
    | heartbeat => exact h2 x hx
    | release => exact k.1 x hx
    | fail => exact (Option.some.inj hx) ▸ k.1
    | complete => cases hx
    | failExhausted => exact (Option.some.inj hx) ▸ k
  · intro x hx
    cases s with
    | claim => exact h3 x hx
    | heartbeat => exact h3 x hx
    | release => exact k.2 x hx
    | fail => exact k.2 x hx
    | complete => cases hx
    | failExhausted => exact h3 x hx

structure ItemInv (max : ℕ) (c : Time) (it : IngestionItem) : Prop where
  job : Inv max c it.toJob
  notActivated : it.activatedAt = none ∧ it.deactivatedAt = none
  texts : it.TextsFit

theorem ItemInv.defects {max : ℕ} {c : Time} {it : IngestionItem} (h : ItemInv max c it) : it.defects = [] := by
  refine IngestionItem.defects_eq_nil.2 ⟨h.job.checks, ⟨.inl h.notActivated.1, ?_⟩, h.texts⟩
  simp [h.notActivated.2]

theorem ItemInv.later {max : ℕ} {c now : Time} {it : IngestionItem} (h : ItemInv max c it) (hc : c ≤ now) :
    ItemInv max now it := { h with job := h.job.later hc }

theorem ItemInv.new {max : ℕ} (hmax : 1 ≤ max) (c : Time) (id run art : Uuid) (t : Time) :
    ItemInv max c (.new id run art t) :=
  ⟨.new hmax c [], ⟨rfl, rfl⟩, by simp [IngestionItem.TextsFit, IngestionItem.TextsMeet, IngestionItem.new, Job.new]⟩

/-- a text within the length of its column is refused for a NUL character only -/
theorem textColumn_invalid {column : String} {limit : Option ℕ} {s : Option String} {v : Violation}
    (hs : ∀ x ∈ s, ∀ n ∈ limit, x.toList.length ≤ n) (hv : v ∈ textColumn column limit s) :
    v = .invalidText column := by
  cases s with
  | none => simp at hv
  | some x =>
    unfold textColumn at hv
    rcases List.mem_append.1 hv with hv | hv
    · split_ifs at hv with hlong
      · obtain ⟨n, hn, hlt⟩ := hlong
        exact absurd (hs x rfl n hn) (by omega)
      · cases hv
    · split_ifs at hv
      · exact List.mem_singleton.1 hv
      · cases hv

/-- **Every statement made at one instant of the shared clock writes a row that the CHECKs and the column lengths
accept**: what is left to refuse it is a NUL character. -/
theorem ItemInv.set_defects {max : ℕ} {c now : Time} {s : ItemStmt} {hash : Option String} {it : IngestionItem}
    (h : ItemInv max c it) (hc : c ≤ now) (hs : s.At max now) (ht : LengthsFit s hash) (hm : s.Matches it.toJob)
    {v : Violation} (hv : v ∈ (it.set s hash).defects) : ∃ column, v = .invalidText column := by
  have hj : Inv max now (it.set s hash).toJob := h.job.exec hc hs (exec_some.2 ⟨hm, rfl⟩)
  have hlen : it.TextsMeet (·.toList.length ≤ 64) (·.toList.length ≤ 150) fun _ => True :=
    ⟨fun x hx => (h.texts.1 x hx).1 64 rfl, fun x hx => (h.texts.2.1 x hx).1 150 rfl, fun _ _ => trivial⟩
  obtain ⟨l1, l2, -⟩ := set_textsMeet hlen ht
  have hact : (it.set s hash).activatedAt = none := h.notActivated.1
  have hdeact : (it.set s hash).deactivatedAt = none := h.notActivated.2
  obtain ⟨c1, c2, c3, c4, c5⟩ := hj.checks
  unfold IngestionItem.defects at hv
  rw [checkThat_eq_nil.2 c1, checkThat_eq_nil.2 c2, checkThat_eq_nil.2 c3, checkThat_eq_nil.2 c4,
    checkThat_eq_nil.2 c5, checkThat_eq_nil.2 (.inl hact), checkThat_eq_nil.2 (by simp [hdeact])] at hv
  simp only [List.nil_append, List.mem_append] at hv
  rcases hv with (hv | hv) | hv
  · exact ⟨_, textColumn_invalid (by simpa using l1) hv⟩
  · exact ⟨_, textColumn_invalid (by simpa using l2) hv⟩
  · exact ⟨_, textColumn_invalid (by simp) hv⟩

/-- A statement that is accepted keeps the invariant. -/
theorem ItemInv.update {max : ℕ} {c now : Time} {s : ItemStmt} {hash : Option String} {it : IngestionItem}
    (h : ItemInv max c it) (hc : c ≤ now) (hs : s.At max now) (hm : s.Matches it.toJob)
    (hok : (it.set s hash).defects = []) : ItemInv max now (it.set s hash) :=
  ⟨h.job.exec hc hs (exec_some.2 ⟨hm, rfl⟩), h.notActivated, (IngestionItem.defects_eq_nil.1 hok).2.2⟩

/-- a statement that writes storable texts is accepted -/
theorem ItemInv.accepted {max : ℕ} {c now : Time} {s : ItemStmt} {hash : Option String} {it : IngestionItem}
    (h : ItemInv max c it) (hc : c ≤ now) (hs : s.At max now) (hm : s.Matches it.toJob)
    (ht : StmtTextsMeet (FitsText (some 64)) (FitsText (some 150)) (FitsText none) s hash) :
    (it.set s hash).defects = [] := by
  have hj : Inv max now (it.set s hash).toJob := h.job.exec hc hs (exec_some.2 ⟨hm, rfl⟩)
  have hset : ItemInv max now (it.set s hash) := ⟨hj, h.notActivated, set_textsMeet h.texts ht⟩
  exact hset.defects

end AtlasRag.Ingestion
