/-
`EmbeddingBatcher.embed`: a task for each planned batch, as many at a time as the semaphore lets in, gathered in order.

A schedule is a list of turns. In its turn a task takes its next step: it gets past the semaphore and builds its inputs, gets
its answer, or wakes from its pause. The first error of a task is raised, while the others go on.

Results:
- `follows_turn`: a task does what its batch does alone, whatever the others do;
- `outcome_ok`, `outcome_error`: what is returned and raised, then, does not depend on the schedule;
- `embed_aligned`: every fair schedule comes to an end, and each chunk has the vector that the provider returned for it.
-/
import AtlasRag.Embedding.Batching.Attempts
import AtlasRag.Lib.Lists
import AtlasRag.Lib.Run

namespace AtlasRag.Embedding.Batching

open AtlasRag.Lib AtlasRag.Lib.Lists AtlasRag.Platform EmbeddingBatcher

inductive Phase where
  /-- for the semaphore -/
  | waiting
  | calling (inputs : List EmbeddingInput) (attemptNumber : ℕ)
  | sleeping (inputs : List EmbeddingInput) (attemptNumber : ℕ)
  | ended (result : Except BatchError BatchResult)

/-- the task of a batch, and how often it has called the provider -/
structure Task where
  batch : EmbeddingBatch
  phase : Phase
  calls : ℕ

namespace Task

/-- it holds the semaphore -/
def running (t : Task) : Bool :=
  match t.phase with
  | .calling _ _ => true
  | .sleeping _ _ => true
  | _ => false

def returned (t : Task) : Option BatchResult :=
  match t.phase with
  | .ended (.ok x) => some x
  | _ => none

def raised (t : Task) : Option BatchError :=
  match t.phase with
  | .ended (.error e) => some e
  | _ => none

/-- `attempt_number += 1`, and the call -/
def call (t : Task) (inputs : List EmbeddingInput) (attemptNumber : ℕ) : Task :=
  { t with phase := .calling inputs (attemptNumber + 1), calls := t.calls + 1 }

/-- the next step of a task; `free` says whether the semaphore lets it in -/
def turn (batcher : EmbeddingBatcher) (free : Bool) (t : Task) : Task :=
  match t.phase with
  | .waiting =>
    if free then
      match buildInputs t.batch.chunks batcher.model batcher.config with
      | .error e => { t with phase := .ended (.error e) }
      | .ok inputs => t.call inputs 0
    else t
  | .calling inputs attemptNumber =>
    match batcher.round t.batch inputs attemptNumber with
    | .again _ => { t with phase := .sleeping inputs attemptNumber }
    | .done result => { t with phase := .ended result }
  | .sleeping inputs attemptNumber => t.call inputs attemptNumber
  | .ended _ => t

end Task

/-- the tasks, and the error that is raised -/
structure Gather where
  tasks : List Task
  failure : Option BatchError

def added : Option ℤ → Option ℤ → Option ℤ
  | none, right => right
  | left, none => left
  | some left, some right => some (left + right)

def EmbeddingUsage.mergedWith (usage other : EmbeddingUsage) : EmbeddingUsage :=
  ⟨added usage.inputTokens other.inputTokens, added usage.totalTokens other.totalTokens⟩

structure EmbeddingBatchOutcome where
  vectors : List ChunkVector
  batchCount : ℕ
  requestCount : ℕ
  usage : EmbeddingUsage

/-- the loop over the results -/
def merge (outcome : EmbeddingBatchOutcome) (x : BatchResult) : EmbeddingBatchOutcome :=
  { outcome with
    vectors := outcome.vectors ++ x.vectors
    requestCount := outcome.requestCount + x.requests
    usage := outcome.usage.mergedWith x.usage }

namespace Gather

/-- the semaphore lets a task in -/
def free (batcher : EmbeddingBatcher) (s : Gather) : Bool := (s.tasks.countP Task.running : ℤ) < batcher.config.concurrency

/-- the turn of the task of batch `k` -/
def turn (batcher : EmbeddingBatcher) (s : Gather) (k : ℕ) : Gather :=
  let tasks := s.tasks.map fun t => if t.batch.ordinal = k then t.turn batcher (s.free batcher) else t
  ⟨tasks, s.failure.or (tasks.findSome? Task.raised)⟩

/-- what `embed` returns or raises, if it has -/
def outcome (s : Gather) : Option (Except BatchError EmbeddingBatchOutcome) :=
  match s.failure with
  | some e => some (.error e)
  | none => (s.tasks.mapM Task.returned).map fun results =>
      .ok (results.foldl merge ⟨[], s.tasks.length, 0, ⟨none, none⟩⟩)

end Gather

namespace EmbeddingBatcher

variable (batcher : EmbeddingBatcher) (chunks : List EmbeddableChunk)

def tasks : Gather := ⟨(planBatches chunks batcher.config).map fun batch => ⟨batch, .waiting, 0⟩, none⟩

/-- `embed`, after these turns -/
def embed (turns : List ℕ) : Gather := run (Gather.turn batcher) (batcher.tasks chunks) turns

/-! ## A task and its batch -/

/-- the batch alone would go on like this after `n` attempts -/
def Rest (batch : EmbeddingBatch) (inputs : List EmbeddingInput) (n : ℕ) : Prop :=
  (batcher.embedBatch batch).2 = (batcher.attempts batch inputs n).2 ∧
    calls (batcher.embedBatch batch).1 = n + calls (batcher.attempts batch inputs n).1

/-- the task does what its batch does alone -/
def Follows (t : Task) : Prop :=
  match t.phase with
  | .waiting => t.calls = 0
  | .calling inputs n => ∃ m, n = m + 1 ∧ m < batcher.config.maxProviderAttempts ∧ t.calls = n ∧ batcher.Rest t.batch inputs m
  | .sleeping inputs n => n < batcher.config.maxProviderAttempts ∧ t.calls = n ∧ batcher.Rest t.batch inputs n
  | .ended result => (batcher.embedBatch t.batch).2 = result ∧ calls (batcher.embedBatch t.batch).1 = t.calls

/-- a bound of the turns that are left -/
def left (t : Task) : ℕ :=
  match t.phase with
  | .waiting => 2 * batcher.config.maxProviderAttempts.toNat + 2
  | .calling _ n => 2 * (batcher.config.maxProviderAttempts.toNat - n) + 1
  | .sleeping _ n => 2 * (batcher.config.maxProviderAttempts.toNat - n)
  | .ended _ => 0

section

variable {batcher chunks} {free : Bool} {t : Task}

theorem turn_batch : (t.turn batcher free).batch = t.batch := by
  unfold Task.turn
  split
  · split
    · split <;> rfl
    · rfl
  · split <;> rfl
  · rfl
  · rfl

/-- the step changes the task, and fewer turns are left -/
theorem follows_call {batch : EmbeddingBatch} {phase : Phase} {n : ℕ} {inputs : List EmbeddingInput}
    (hn : n < batcher.config.maxProviderAttempts) (hrest : batcher.Rest batch inputs n) :
    batcher.Follows (Task.call ⟨batch, phase, n⟩ inputs n) := ⟨n, rfl, hn, rfl, hrest⟩

/-- **One turn** of a task: it goes on as its batch does. -/
theorem follows_turn (h : batcher.Follows t) : batcher.Follows (t.turn batcher free) := by
  obtain ⟨batch, phase, count⟩ := t
  cases phase with
  | waiting =>
    cases free with
    | false => exact h
    | true =>
      obtain rfl : count = 0 := h
      simp only [Task.turn, if_true]
      cases hinputs : buildInputs batch.chunks batcher.model batcher.config with
      | error e =>
        have halone : batcher.embedBatch batch = ([], .error e) := by rw [embedBatch, hinputs]
        show _ ∧ _
        rw [halone]
        exact ⟨rfl, rfl⟩
      | ok inputs =>
        refine follows_call batcher.config.maxProviderAttempts_pos ?_
        rw [Rest, embedBatch_of_inputs hinputs, Nat.zero_add]
        exact ⟨rfl, rfl⟩
  | calling inputs attemptNumber =>
    obtain ⟨n, rfl, hn, rfl, hrest⟩ := h
    simp only [Task.turn]
    cases hround : batcher.round batch inputs (n + 1) with
    | again seconds =>
      obtain ⟨_, _, -, hmax, -⟩ := round_again hround
      rw [Rest, attempts_again hround, calls_again, ← Nat.add_assoc, Nat.add_right_comm] at hrest
      exact ⟨hmax, rfl, hrest⟩
    | done result =>
      rw [Rest, attempts_done hround] at hrest
      exact hrest
  | sleeping inputs attemptNumber =>
    obtain ⟨hn, hcalls, hrest⟩ := h
    simp only at hcalls
    subst hcalls
    exact follows_call hn hrest
  | ended result => exact h

/-- a task that has not ended changes in its turn, unless the semaphore keeps it waiting, and has fewer turns left -/
theorem left_turn (h : batcher.Follows t) (hended : ∀ result, t.phase ≠ .ended result)
    (hfree : t.phase = .waiting → free = true) : batcher.left (t.turn batcher free) < batcher.left t := by
  obtain ⟨batch, phase, count⟩ := t
  cases phase with
  | waiting =>
    obtain rfl := hfree rfl
    simp only [Task.turn, if_true]
    cases buildInputs batch.chunks batcher.model batcher.config with
    | error e => exact Nat.succ_pos _
    | ok inputs => simp only [Task.call, left]; omega
  | calling inputs attemptNumber =>
    simp only [Task.turn]
    cases batcher.round batch inputs attemptNumber with
    | again seconds => exact Nat.lt_succ_self _
    | done result => exact Nat.succ_pos _
  | sleeping inputs attemptNumber =>
    have hn := h.1
    simp only [Task.turn, Task.call, left]
    omega
  | ended result => exact absurd rfl (hended result)

theorem turn_or (h : batcher.Follows t) :
    t.turn batcher free = t ∨ batcher.left (t.turn batcher free) < batcher.left t := by
  by_cases hended : ∃ result, t.phase = .ended result
  · obtain ⟨result, hphase⟩ := hended
    left
    simp only [Task.turn, hphase]
  · by_cases hfree : t.phase = .waiting → free = true
    · exact .inr (left_turn h (fun result hphase => hended ⟨result, hphase⟩) hfree)
    · push Not at hfree
      left
      simp only [Task.turn, hfree.1, if_neg hfree.2]

end

/-! ## The tasks together -/

/-- the tasks are those of the batches, each follows its own, and an error that was raised is the first of theirs -/
structure Inv (s : Gather) : Prop where
  batches : s.tasks.map (·.batch) = planBatches chunks batcher.config
  follows : ∀ t ∈ s.tasks, batcher.Follows t
  failure : ∀ e ∈ s.failure, ∃ t ∈ s.tasks, t.raised = some e
  quiet : s.failure = none → ∀ t ∈ s.tasks, t.raised = none

section

variable {batcher chunks} {s : Gather} {k : ℕ} {t : Task}

theorem turn_of_raised {free : Bool} {e : BatchError} (h : t.raised = some e) : t.turn batcher free = t := by
  obtain ⟨batch, phase, count⟩ := t
  cases phase with
  | ended result => rfl
  | _ => cases h

theorem mem_turn {t' : Task} (h : t' ∈ (s.turn batcher k).tasks) :
    ∃ t ∈ s.tasks, t' = t ∨ t' = t.turn batcher (s.free batcher) := by
  obtain ⟨t, ht, rfl⟩ := List.mem_map.1 h
  refine ⟨t, ht, ?_⟩
  split_ifs
  · exact .inr rfl
  · exact .inl rfl

theorem Inv.turn (h : batcher.Inv chunks s) (k : ℕ) : batcher.Inv chunks (s.turn batcher k) := by
  refine ⟨?_, fun t' ht' => ?_, fun e he => ?_, fun hnone => ?_⟩
  · rw [← h.batches, Gather.turn, List.map_map]
    apply List.map_congr_left
    intro t _
    show (if _ then _ else _ : Task).batch = _
    split_ifs
    · exact turn_batch
    · rfl
  · obtain ⟨t, ht, rfl | rfl⟩ := mem_turn ht'
    · exact h.follows _ ht
    · exact follows_turn (h.follows t ht)
  · cases hfailure : s.failure with
    | some e' =>
      have hsame : e' = e := by simpa [Gather.turn, hfailure] using he
      obtain ⟨t, ht, hraised⟩ := h.failure e' hfailure
      refine ⟨t, List.mem_map.2 ⟨t, ht, ?_⟩, hsame ▸ hraised⟩
      split_ifs
      · exact turn_of_raised hraised
      · rfl
    | none =>
      have hfirst : (s.turn batcher k).tasks.findSome? Task.raised = some e := by simpa [Gather.turn, hfailure] using he
      exact List.exists_of_findSome?_eq_some hfirst
  · exact List.findSome?_eq_none_iff.1 (Option.or_eq_none_iff.1 hnone).2

theorem inv_tasks (batcher : EmbeddingBatcher) (chunks : List EmbeddableChunk) :
    batcher.Inv chunks (batcher.tasks chunks) := by
  have hwaiting : ∀ t ∈ (batcher.tasks chunks).tasks, t.phase = .waiting ∧ t.calls = 0 := by
    intro t ht
    obtain ⟨batch, -, rfl⟩ := List.mem_map.1 ht
    exact ⟨rfl, rfl⟩
  refine ⟨?_, fun t ht => ?_, fun e he => (by cases he), fun _ t ht => ?_⟩
  · rw [tasks, List.map_map]
    exact List.map_id _
  · rw [Follows, (hwaiting t ht).1]
    exact (hwaiting t ht).2
  · rw [Task.raised, (hwaiting t ht).1]

theorem inv_embed (batcher : EmbeddingBatcher) (chunks : List EmbeddableChunk) (turns : List ℕ) :
    batcher.Inv chunks (batcher.embed chunks turns) :=
  Run.inv (fun _ k _ h => h.turn k) (run_always _ turns) (inv_tasks batcher chunks)

/-! ## Progress -/

/-- a bound of all turns that are left -/
def allLeft (batcher : EmbeddingBatcher) (s : Gather) : ℕ := (s.tasks.map batcher.left).sum

theorem allLeft_turn (h : batcher.Inv chunks s) (ht : t ∈ s.tasks)
    (hlt : batcher.left (t.turn batcher (s.free batcher)) < batcher.left t) (hk : t.batch.ordinal = k) :
    batcher.allLeft (s.turn batcher k) < batcher.allLeft s := by
  rw [allLeft, allLeft, Gather.turn, List.map_map]
  apply List.sum_lt_sum
  · intro t' ht'
    rw [Function.comp_apply]
    split_ifs
    · rcases @turn_or batcher (s.free batcher) t' (h.follows t' ht') with hsame | hless
      · rw [hsame]
      · exact hless.le
    · exact le_rfl
  · refine ⟨t, ht, ?_⟩
    rw [Function.comp_apply, if_pos hk]
    exact hlt

theorem turn_eq_or (h : batcher.Inv chunks s) (k : ℕ) :
    s.turn batcher k = s ∨ batcher.allLeft (s.turn batcher k) < batcher.allLeft s := by
  by_cases hchange : ∃ t ∈ s.tasks, t.batch.ordinal = k ∧ batcher.left (t.turn batcher (s.free batcher)) < batcher.left t
  · obtain ⟨t, ht, hk, hlt⟩ := hchange
    exact .inr (allLeft_turn h ht hlt hk)
  · left
    have htasks : (s.turn batcher k).tasks = s.tasks := by
      rw [Gather.turn]
      refine (List.map_congr_left fun t ht => ?_).trans (List.map_id s.tasks)
      split_ifs with hk
      · exact (turn_or (h.follows t ht)).resolve_right fun hlt => hchange ⟨t, ht, hk, hlt⟩
      · rfl
    have hfailure : (s.turn batcher k).failure = s.failure := by
      show s.failure.or ((s.turn batcher k).tasks.findSome? Task.raised) = s.failure
      cases hs : s.failure with
      | some e => rfl
      | none => rw [htasks, List.findSome?_eq_none_iff.2 (h.quiet hs), Option.none_or]
    show (⟨(s.turn batcher k).tasks, (s.turn batcher k).failure⟩ : Gather) = s
    rw [htasks, hfailure]

/-- before `embed` ends, some task has not -/
theorem exists_active (h : batcher.Inv chunks s) (houtcome : s.outcome = none) :
    ∃ t ∈ s.tasks, ∀ result, t.phase ≠ .ended result := by
  have hfailure : s.failure = none := by
    cases hs : s.failure with
    | none => rfl
    | some e => simp [Gather.outcome, hs] at houtcome
  by_contra hall
  push Not at hall
  have hreturned : ∀ t ∈ s.tasks, ∃ x, t.returned = some x := by
    intro t ht
    obtain ⟨result, hphase⟩ := hall t ht
    have hquiet := h.quiet hfailure t ht
    rw [Task.raised, hphase] at hquiet
    rw [Task.returned, hphase]
    cases result with
    | error e => cases hquiet
    | ok x => exact ⟨x, rfl⟩
  obtain ⟨results, hresults⟩ := exists_mapM hreturned
  simp [Gather.outcome, hfailure, hresults] at houtcome

/-- before `embed` ends, the turn of some task makes fewer turns left -/
theorem exists_turn (h : batcher.Inv chunks s) (houtcome : s.outcome = none) :
    ∃ k < (planBatches chunks batcher.config).length, batcher.allLeft (s.turn batcher k) < batcher.allLeft s := by
  obtain ⟨t, ht, hended, hfree⟩ : ∃ t ∈ s.tasks, (∀ result, t.phase ≠ .ended result) ∧
      (t.phase = .waiting → s.free batcher = true) := by
    by_cases hrunning : ∃ t ∈ s.tasks, t.running = true
    · obtain ⟨t, ht, hr⟩ := hrunning
      refine ⟨t, ht, fun result hphase => ?_, fun hphase => ?_⟩
      · simp [Task.running, hphase] at hr
      · simp [Task.running, hphase] at hr
    · -- no task holds the semaphore
      obtain ⟨t, ht, hended⟩ := exists_active h houtcome
      have hzero : s.tasks.countP Task.running = 0 := List.countP_eq_zero.2 fun t ht hr => hrunning ⟨t, ht, hr⟩
      refine ⟨t, ht, hended, fun _ => ?_⟩
      rw [Gather.free, hzero]
      exact decide_eq_true batcher.config.concurrency_pos
  refine ⟨t.batch.ordinal, ?_, allLeft_turn h ht (left_turn (h.follows t ht) hended hfree) rfl⟩
  have hmem : t.batch ∈ planBatches chunks batcher.config := h.batches ▸ List.mem_map_of_mem ht
  have hordinal : t.batch.ordinal ∈ (planBatches chunks batcher.config).map (·.ordinal) := List.mem_map_of_mem hmem
  rw [(map_chunks_planBatches batcher.config chunks).2] at hordinal
  exact List.mem_range.1 hordinal

/-- **Progress.** Every fair schedule comes to an end. -/
theorem exists_outcome (batcher : EmbeddingBatcher) (chunks : List EmbeddableChunk) {schedule : ℕ → ℕ}
    (hfair : Fair (· < (planBatches chunks batcher.config).length) schedule) :
    ∃ k, (batcher.embed chunks (firstOf schedule k)).outcome ≠ none := by
  have hlive : ∀ s, batcher.Inv chunks s → ¬ s.outcome ≠ none →
      ∃ k, k < (planBatches chunks batcher.config).length ∧ batcher.allLeft (s.turn batcher k) < batcher.allLeft s :=
    fun s h hdone => exists_turn h (not_not.1 hdone)
  exact @fair_rule _ _ (Gather.turn batcher) (batcher.Inv chunks) (fun s => s.outcome ≠ none) batcher.allLeft _
    (fun s k h => h.turn k) (fun s k h => turn_eq_or h k) hlive schedule hfair _ (inv_tasks batcher chunks)

/-! ## What is returned -/

/-- **What is raised** is raised by a batch alone. -/
theorem outcome_error (h : batcher.Inv chunks s) {e : BatchError} (houtcome : s.outcome = some (.error e)) :
    ∃ b ∈ planBatches chunks batcher.config, (batcher.embedBatch b).2 = .error e := by
  cases hfailure : s.failure with
  | none =>
    rw [Gather.outcome, hfailure] at houtcome
    obtain ⟨results, -, hok⟩ := Option.map_eq_some_iff.1 houtcome
    cases hok
  | some e' =>
    rw [Gather.outcome, hfailure] at houtcome
    obtain rfl : e' = e := Except.error.inj (Option.some.inj houtcome)
    obtain ⟨t, ht, hraised⟩ := h.failure e' hfailure
    refine ⟨t.batch, h.batches ▸ List.mem_map_of_mem ht, ?_⟩
    have hfollows := h.follows t ht
    obtain ⟨batch, phase, count⟩ := t
    cases phase with
    | ended result =>
      cases result with
      | error e => exact Option.some.inj hraised ▸ hfollows.1
      | ok x => cases hraised
    | _ => cases hraised

/-- a task that returned does so alone, with as many calls -/
theorem of_returned (h : batcher.Follows t) {x : BatchResult} (hx : t.returned = some x) :
    (batcher.embedBatch t.batch).2 = .ok x ∧ x.requests = t.calls := by
  obtain ⟨batch, phase, count⟩ := t
  cases phase with
  | ended result =>
    cases result with
    | error e => cases hx
    | ok y =>
      obtain rfl := Option.some.inj hx
      exact ⟨h.1, (serves_of_ok h.1).2.trans h.2⟩
  | _ => cases hx

/-- **What is returned** is merged from what the batches return alone. -/
theorem outcome_ok (h : batcher.Inv chunks s) {o : EmbeddingBatchOutcome} (houtcome : s.outcome = some (.ok o)) :
    ∃ results : List BatchResult,
      List.Forall₂ (fun b x => (batcher.embedBatch b).2 = .ok x) (planBatches chunks batcher.config) results ∧
      o = results.foldl merge ⟨[], (planBatches chunks batcher.config).length, 0, ⟨none, none⟩⟩ ∧
      (results.map (·.requests)).sum = (s.tasks.map (·.calls)).sum := by
  cases hfailure : s.failure with
  | some e =>
    rw [Gather.outcome, hfailure] at houtcome
    cases Option.some.inj houtcome
  | none =>
    rw [Gather.outcome, hfailure] at houtcome
    obtain ⟨results, hresults, hok⟩ := Option.map_eq_some_iff.1 houtcome
    have hreturned := mapM_eq_some.1 hresults
    have halone : List.Forall₂ (fun t x => (batcher.embedBatch t.batch).2 = .ok x ∧ x.requests = t.calls) s.tasks results := by
      refine List.forall₂_iff_zip.2 ⟨hreturned.length_eq, fun {t x} hmem => ?_⟩
      exact of_returned (h.follows t (List.of_mem_zip hmem).1) (List.forall₂_zip hreturned hmem)
    refine ⟨results, ?_, ?_, ?_⟩
    · rw [← h.batches, List.forall₂_map_left_iff]
      exact halone.imp fun t x h => h.1
    · rw [← h.batches, List.length_map]
      exact (Except.ok.inj hok).symm
    · congr 1
      have hcalls : List.Forall₂ (· = ·) (results.map (·.requests)) (s.tasks.map (·.calls)) := by
        rw [List.forall₂_map_left_iff, List.forall₂_map_right_iff]
        exact List.Forall₂.flip (halone.imp fun t x h => h.2)
      exact List.forall₂_eq_eq_eq ▸ hcalls

/-- the numbers that are reported, added up -/
def total (counts : List (Option ℤ)) : Option ℤ := if counts.reduceOption = [] then none else some counts.reduceOption.sum

theorem total_cons (left right : Option ℤ) (counts : List (Option ℤ)) :
    total (left :: right :: counts) = total (added left right :: counts) := by
  cases left with
  | none => cases right <;> rfl
  | some l =>
    cases right with
    | none => rfl
    | some r => simp [total, added, List.reduceOption, add_assoc]

theorem foldl_merge (results : List BatchResult) (o : EmbeddingBatchOutcome) :
    results.foldl merge o = ⟨o.vectors ++ results.flatMap (·.vectors), o.batchCount,
      o.requestCount + (results.map (·.requests)).sum,
      ⟨total (o.usage.inputTokens :: results.map (·.usage.inputTokens)),
        total (o.usage.totalTokens :: results.map (·.usage.totalTokens))⟩⟩ := by
  induction results generalizing o with
  | nil =>
    have hsingle : ∀ count : Option ℤ, total [count] = count := by
      intro count
      cases count <;> simp [total, List.reduceOption]
    simp [hsingle]
  | cons x results ih =>
    rw [List.foldl_cons, ih, List.map_cons, List.map_cons, List.map_cons, total_cons, total_cons]
    simp [merge, EmbeddingUsage.mergedWith, Nat.add_assoc]

end

/-! ## Another order of the vectors -/

end EmbeddingBatcher

/-- the same answer, up to the order of the vectors -/
def Answer.Reordered : Answer → Answer → Prop
  | .result r, .result r' => r'.vectors.Perm r.vectors ∧ r'.usage = r.usage
  | .transient reason retryAfterSeconds, .transient reason' retryAfterSeconds' =>
    reason' = reason ∧ retryAfterSeconds' = retryAfterSeconds
  | .failed e, .failed e' => e' = e
  | _, _ => False

namespace EmbeddingBatcher

/-- the same model and configuration, and the same answers up to the order of their vectors -/
structure Reordered (batcher other : EmbeddingBatcher) : Prop where
  model : other.model = batcher.model
  config : other.config = batcher.config
  provider : ∀ ordinal n, (batcher.provider ordinal n).Reordered (other.provider ordinal n)

section

variable {batcher other : EmbeddingBatcher} {batch : EmbeddingBatch} {inputs : List EmbeddingInput} {x : BatchResult}

/-- a pause comes in either run or in none, whatever the jitter -/
theorem Reordered.round_again (h : batcher.Reordered other) {n : ℕ} {seconds : ℚ}
    (hround : batcher.round batch inputs n = .again seconds) : ∃ seconds', other.round batch inputs n = .again seconds' := by
  obtain ⟨reason, retryAfterSeconds, hanswer, hmax, hseconds⟩ := EmbeddingBatcher.round_again hround
  have hother := h.provider batch.ordinal n
  rw [hanswer] at hother
  cases hanswer' : other.provider batch.ordinal n with
  | result r => rw [hanswer'] at hother; cases hother
  | failed e => rw [hanswer'] at hother; cases hother
  | transient reason' retryAfterSeconds' =>
    rw [hanswer'] at hother
    obtain ⟨rfl, rfl⟩ := hother
    have hfinite : backoffSeconds n batcher.config retryAfterSeconds' (other.jitter batch.ordinal n) ≠ .error .overflow := by
      rw [Ne, backoffSeconds_error, ← @backoffSeconds_error _ _ _ (batcher.jitter batch.ordinal n), hseconds]
      exact fun h => by cases h
    cases hseconds' : backoffSeconds n batcher.config retryAfterSeconds' (other.jitter batch.ordinal n) with
    | error e => cases e; exact absurd hseconds' hfinite
    | ok seconds' =>
      refine ⟨seconds', ?_⟩
      simp only [round, hanswer', h.config, if_neg (not_le.2 hmax), hseconds']

theorem Reordered.round_ok (h : batcher.Reordered other) (hinputs : (inputs.map (·.index)).Nodup) {n : ℕ}
    (hround : batcher.round batch inputs n = .done (.ok x)) : other.round batch inputs n = .done (.ok x) := by
  obtain ⟨response, values, hanswer, hvalues, hlength, rfl⟩ := EmbeddingBatcher.round_ok hround
  have hother := h.provider batch.ordinal n
  rw [hanswer] at hother
  cases hanswer' : other.provider batch.ordinal n with
  | transient reason' retryAfterSeconds' => rw [hanswer'] at hother; cases hother
  | failed e => rw [hanswer'] at hother; cases hother
  | result response' =>
    rw [hanswer'] at hother
    have hvalues' := orderedVectors_perm hinputs hother.1 hvalues
    simp only [round, hanswer', h.model, hvalues', hother.2]
    show Round.done (do let vectors ← chunkVectors batch.chunks values; .ok ⟨vectors, n, response.usage⟩) = _
    rw [chunkVectors, if_pos hlength]
    rfl

/-- a batch returns the same -/
theorem Reordered.embedBatch (h : batcher.Reordered other) (hok : (batcher.embedBatch batch).2 = .ok x) :
    (other.embedBatch batch).2 = .ok x := by
  cases hinputs : buildInputs batch.chunks batcher.model batcher.config with
  | error e =>
    rw [EmbeddingBatcher.embedBatch, hinputs] at hok
    cases hok
  | ok inputs =>
    have hinputs' : buildInputs batch.chunks other.model other.config = .ok inputs := by rw [h.model, h.config, hinputs]
    rw [embedBatch_of_inputs hinputs] at hok
    rw [embedBatch_of_inputs hinputs']
    generalize 0 = n at hok ⊢
    induction n using @attempts_rule batcher batch inputs with
    | hdone n result hround =>
      rw [attempts_done hround] at hok
      obtain rfl : result = .ok x := hok
      rw [attempts_done (h.round_ok (nodup_index hinputs) hround)]
    | hagain n seconds hround ih =>
      obtain ⟨seconds', hround'⟩ := h.round_again hround
      rw [attempts_again hround] at hok
      rw [attempts_again hround']
      exact ih hok

end

/-! ## Alignment -/

/-- the responses beside what the batches return -/
theorem exists_served {batcher : EmbeddingBatcher} {batches : List EmbeddingBatch} {results : List BatchResult}
    (h : List.Forall₂ (fun b x => (batcher.embedBatch b).2 = .ok x) batches results) :
    ∃ served : List (BatchResult × EmbeddingBatchResult),
      List.Forall₂ (fun b r => batcher.Serves b r.1 r.2) batches served ∧ served.map Prod.fst = results := by
  induction h with
  | nil => exact ⟨[], .nil, rfl⟩
  | cons hx _ ih =>
    obtain ⟨⟨response, hserves⟩, -⟩ := serves_of_ok hx
    obtain ⟨served, hserved, hmap⟩ := ih
    refine ⟨(_, response) :: served, .cons hserves hserved, ?_⟩
    rw [List.map_cons, hmap]

/-- the same batches return the same -/
theorem Reordered.results_eq {batcher other : EmbeddingBatcher} (h : batcher.Reordered other) {batches : List EmbeddingBatch}
    {results results' : List BatchResult}
    (halone : List.Forall₂ (fun b x => (batcher.embedBatch b).2 = .ok x) batches results)
    (halone' : List.Forall₂ (fun b x => (other.embedBatch b).2 = .ok x) batches results') : results' = results := by
  have hunique : Relator.RightUnique fun (b : EmbeddingBatch) x => (other.embedBatch b).2 = .ok x := by
    intro b x y hx hy
    exact Except.ok.inj (hx.symm.trans hy)
  exact hunique.forall₂ halone' (halone.imp fun b x hx => h.embedBatch hx)

/-- the ids of the chunks, in order -/
theorem chunkIds_of_serves {batcher : EmbeddingBatcher} {batches : List EmbeddingBatch}
    {served : List (BatchResult × EmbeddingBatchResult)}
    (h : List.Forall₂ (fun b r => batcher.Serves b r.1 r.2) batches served) :
    (served.flatMap (·.1.vectors)).map (·.chunkId) = (batches.flatMap (·.chunks)).map (·.chunkId) := by
  induction h with
  | nil => rfl
  | cons hserves _ ih => rw [List.flatMap_cons, List.flatMap_cons, List.map_append, List.map_append, ih, hserves.chunkIds]

/-- **Alignment.** Every fair schedule comes to an end. What is returned has, for each chunk, in order, its id with the values
that the provider returned under its index in its batch, of the dimension of the model; the batches are counted, and all calls;
and the usage is the sum over the responses. Nothing of it depends on the schedule, the jitter or the order of the vectors. -/
theorem embed_aligned (batcher : EmbeddingBatcher) (chunks : List EmbeddableChunk) :
    (∀ schedule, Fair (· < (planBatches chunks batcher.config).length) schedule →
      ∃ k, (batcher.embed chunks (firstOf schedule k)).outcome ≠ none) ∧
    ∀ turns o, (batcher.embed chunks turns).outcome = some (.ok o) →
      o.vectors.map (·.chunkId) = chunks.map (·.chunkId) ∧
      (∀ v ∈ o.vectors, (v.values.length : ℤ) = batcher.model.dimension) ∧
      (∃ served : List (BatchResult × EmbeddingBatchResult),
        List.Forall₂ (fun b r => batcher.Serves b r.1 r.2) (planBatches chunks batcher.config) served ∧
        o.vectors = served.flatMap (·.1.vectors) ∧
        o.usage = ⟨total (served.map (·.2.usage.inputTokens)), total (served.map (·.2.usage.totalTokens))⟩) ∧
      o.batchCount = (planBatches chunks batcher.config).length ∧
      o.requestCount = ((batcher.embed chunks turns).tasks.map (·.calls)).sum ∧
      ∀ other, batcher.Reordered other → ∀ turns' result, (other.embed chunks turns').outcome = some result →
        result = .ok o := by
  refine ⟨fun schedule hfair => exists_outcome batcher chunks hfair, fun turns o houtcome => ?_⟩
  obtain ⟨results, halone, ho, hcalls⟩ := outcome_ok (inv_embed batcher chunks turns) houtcome
  obtain ⟨served, hserved, hresults⟩ := exists_served halone
  have hserves : ∀ r ∈ served, ∃ b ∈ planBatches chunks batcher.config, batcher.Serves b r.1 r.2 :=
    exists_of_mem (List.Forall₂.flip hserved)
  have husage : ∀ f : EmbeddingUsage → Option ℤ,
      results.map (fun x => f x.usage) = served.map (fun r => f r.2.usage) := by
    intro f
    rw [← hresults, List.map_map]
    apply List.map_congr_left
    intro r hr
    obtain ⟨b, -, h⟩ := hserves r hr
    rw [Function.comp_apply, h.usage]
  have hvectors : results.flatMap (·.vectors) = served.flatMap (·.1.vectors) := by
    rw [← hresults, List.flatMap_map]
  have hmerged : o = ⟨served.flatMap (·.1.vectors), (planBatches chunks batcher.config).length,
      (results.map (·.requests)).sum,
      ⟨total (served.map (·.2.usage.inputTokens)), total (served.map (·.2.usage.totalTokens))⟩⟩ := by
    rw [ho, foldl_merge, husage (·.inputTokens), husage (·.totalTokens), hvectors, List.nil_append, Nat.zero_add]
    rfl
  refine ⟨?_, fun v hv => ?_, ⟨served, hserved, ?_, ?_⟩, ?_, ?_, fun other hother turns' result houtcome' => ?_⟩
  · rw [hmerged]
    exact (chunkIds_of_serves hserved).trans (congrArg _ (flatMap_planBatches batcher.config chunks))
  · rw [hmerged] at hv
    obtain ⟨r, hr, hv⟩ := List.mem_flatMap.1 hv
    obtain ⟨b, -, h⟩ := hserves r hr
    exact h.dimension v hv
  · rw [hmerged]
  · rw [hmerged]
  · rw [hmerged]
  · rw [hmerged]
    exact hcalls
  · have hinv := inv_embed other chunks turns'
    cases result with
    | error e =>
      obtain ⟨b, hb, hraised⟩ := outcome_error hinv houtcome'
      rw [hother.config] at hb
      obtain ⟨x, -, hx⟩ := exists_of_mem halone b hb
      rw [hother.embedBatch hx] at hraised
      cases hraised
    | ok o' =>
      obtain ⟨results', halone', ho', -⟩ := outcome_ok hinv houtcome'
      rw [hother.config] at halone' ho'
      rw [ho', hother.results_eq halone halone', ho]

/-- Two chunks a batch. The first batch fails once, and its vectors come in reverse; the second is answered at once. -/
def failsOnce : EmbeddingBatcher where
  provider := fun ordinal n =>
    if ordinal = 0 then
      if n = 1 then .transient "busy" (some 1)
      else .result ⟨[⟨1, [.float (.finite 2)]⟩, ⟨0, [.float (.finite 1)]⟩], ⟨some 2, none⟩⟩
    else .result ⟨[⟨0, [.float (.finite 3)]⟩], ⟨some 1, none⟩⟩
  model := ⟨str "m", 1, none⟩
  config := { DEFAULT_EMBEDDING_RUN_CONFIG with batchSize := 2, batchSize_pos := two_pos }
  jitter := fun _ _ => 0

def threeChunks : List EmbeddableChunk := [⟨7, 0, str "a", 1⟩, ⟨8, 1, str "b", 1⟩, ⟨9, 2, str "c", 1⟩]

/-- the outcome where the second batch is done before the first is tried again, and in every other schedule -/
theorem embed_aligned_failsOnce :
    (failsOnce.embed threeChunks [0, 1, 1, 1, 0, 0, 0, 0]).tasks.map (·.calls) = [2, 1] ∧
    ∀ other, failsOnce.Reordered other → ∀ turns result, (other.embed threeChunks turns).outcome = some result →
      result = .ok ⟨[⟨7, [.float (.finite 1)]⟩, ⟨8, [.float (.finite 2)]⟩, ⟨9, [.float (.finite 3)]⟩], 2, 3,
        ⟨some 3, none⟩⟩ :=
  ⟨rfl, ((embed_aligned failsOnce threeChunks).2 [0, 1, 1, 1, 0, 0, 0, 0] _ rfl).2.2.2.2.2⟩

end EmbeddingBatcher

end AtlasRag.Embedding.Batching
