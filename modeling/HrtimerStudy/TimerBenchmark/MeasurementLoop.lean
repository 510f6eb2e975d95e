import HrtimerStudy.TimerBenchmark.Measurement
import Mathlib.Data.List.Basic
import Mathlib.Data.List.ReduceOption
import Mathlib.Logic.Function.Iterate

/-!
# The measurement loop

The `for` loop of `main` in `timer_benchmark.c`, as a machine that goes through the test, the body
and the increment, from the allocated array and the printed header to the summary or to an early
end.

## Main definitions

* `step`, `stateAt` — the machine
* `Inv` — the state after some completed trials
* `CompletedRun` — a run that has left the loop with all its trials

## Main results

* `inv_stateAt` — at every point of every run, the rows on standard output and the entries of
  `errors` are those of the trials completed so far
* `stateAt_stopped` — every run stops
* `Completed.stateAt` — a run without failing calls prints the rows of all its trials
-/

namespace HrtimerStudy

namespace TimerBenchmark

/-! ### The machine -/

variable (args : Args) (clock : Clock)

/-- One step. -/
def step (s : LoopState) : LoopState :=
  match s.point with
  | .test => { s with point := if s.i ≤ args.trials then .body else .summary }
  | .body => body args clock s
  | .increment =>
    match int32 (s.i + 1) with
    | none => { s with point := .undefined }
    | some i => { s with i := i, point := .test }
  | .summary | .failed _ | .undefined => s

/-- The state in which the loop is entered: the array is allocated and the header is printed. -/
def start : LoopState :=
  { i := 1
    errors := List.replicate args.trials.toNat none
    stdout := unlines [header]
    point := .test }

/-- The state after `n` steps. -/
def stateAt (n : ℕ) : LoopState := (step args clock)^[n] (start args)

theorem stateAt_succ (n : ℕ) :
    stateAt args clock (n + 1) = step args clock (stateAt args clock n) :=
  Function.iterate_succ_apply' ..

/-! ### The invariant -/

/-- The first trials completed with these samples. -/
def Completed (samples : List Sample) : Prop :=
  ∀ (k : ℕ) (m : Sample), samples[k]? = some m → trial args clock (k + 1) = .completed m

/-- Their rows. -/
def rows (samples : List Sample) : List Text :=
  samples.mapIdx fun k m => row (k + 1) args.requestedNs m.actualNs m.errorNs

/-- What a point says about the counter and about the next trial, once `k` are completed. -/
def AtPoint (k : ℕ) (i : ℤ) : Point → Prop
  | .test => i = k + 1
  | .body => i = k + 1 ∧ k < args.trials
  | .increment => i = k
  | .summary => k = args.trials
  | .failed call => k < args.trials ∧ trial args clock (k + 1) = .failed call
  | .undefined =>
    k < args.trials ∧ trial args clock (k + 1) = .overflow ∨ k = args.trials ∧ k = intMax

/-- The state after the trials that measured `samples`. -/
structure Inv (samples : List Sample) (s : LoopState) : Prop where
  completed : Completed args clock samples
  length_le : samples.length ≤ args.trials
  stdout : s.stdout = unlines (header :: rows args samples)
  errors : s.errors = samples.map (fun m => some m.errorNs)
    ++ List.replicate (args.trials.toNat - samples.length) none
  atPoint : AtPoint args clock samples.length s.i s.point

variable {args clock} {samples : List Sample} {s : LoopState}

theorem rows_concat (m : Sample) :
    rows args (samples ++ [m])
      = rows args samples
        ++ [row (samples.length + 1) args.requestedNs m.actualNs m.errorNs] := by
  simp [rows, List.mapIdx_append]

theorem Completed.concat (h : Completed args clock samples) {m : Sample}
    (hm : trial args clock (samples.length + 1) = .completed m) :
    Completed args clock (samples ++ [m]) := by
  intro k m' hk
  rcases lt_trichotomy k samples.length with hlt | rfl | hgt
  · rw [List.getElem?_append_left hlt] at hk
    exact h k m' hk
  · rw [List.getElem?_append_right le_rfl, Nat.sub_self] at hk
    obtain rfl : m = m' := Option.some.inj hk
    exact hm
  · rw [List.getElem?_eq_none (by simpa using Nat.succ_le_of_lt hgt)] at hk
    cases hk

/-- Two lists of samples of the same trials are one. -/
theorem Completed.unique {samples' : List Sample} (h : Completed args clock samples)
    (h' : Completed args clock samples') (hlen : samples.length = samples'.length) :
    samples = samples' := by
  refine List.ext_getElem hlen fun k hk hk' => ?_
  have htrial := h k _ (List.getElem?_eq_getElem hk)
  rw [h' k _ (List.getElem?_eq_getElem hk')] at htrial
  injection htrial with heq
  exact heq.symm

theorem Inv.length_errors (h : Inv args clock samples s) :
    s.errors.length = args.trials.toNat := by
  have hle := h.length_le
  simp only [h.errors, List.length_append, List.length_map, List.length_replicate]
  omega

theorem inv_start : Inv args clock [] (start args) where
  completed := by
    intro k m hk
    simp at hk
  length_le := by simpa using args.trials_pos.le
  stdout := rfl
  errors := by simp [start]
  atPoint := by simp [AtPoint, start]

/-- The body writes to the first of the unwritten entries. -/
theorem Inv.write (h : Inv args clock samples s) (hi : s.i = samples.length + 1)
    (hlt : samples.length < args.trials) (v : ℤ) :
    int32 (s.i - 1) = some (samples.length : ℤ) ∧
      writeAt s.errors samples.length v = some (s.errors.set samples.length (some v)) := by
  have htrials := args.trials_le
  have hbound : samples.length < s.errors.length := by
    rw [h.length_errors]
    omega
  refine ⟨?_, writeAt_natCast hbound v⟩
  rw [hi, add_sub_cancel_right]
  exact int32_of_mem (Int.natCast_nonneg _) (by omega)

theorem Inv.body_completed (h : Inv args clock samples s) (hi : s.i = samples.length + 1)
    (hlt : samples.length < args.trials) {m : Sample}
    (hr : trial args clock (samples.length + 1) = .completed m) :
    Inv args clock (samples ++ [m]) (body args clock s) := by
  obtain ⟨hindex, hwrite⟩ := h.write hi hlt m.errorNs
  have htrial : trial args clock s.i = .completed m := by rw [hi, hr]
  rw [TimerBenchmark.body, htrial]
  simp only [hindex, Option.bind_some, hwrite]
  refine ⟨h.completed.concat hr, ?_, ?_, ?_, ?_⟩
  · simpa using Int.add_one_le_iff.mpr hlt
  · rw [h.stdout, rows_concat, ← List.cons_append, unlines_append, hi]
  · -- the entry written is the first of the unwritten ones
    have hrest : args.trials.toNat - samples.length
        = (args.trials.toNat - (samples.length + 1)) + 1 := by omega
    rw [h.errors, hrest, List.replicate_succ]
    simp
  · simpa [AtPoint] using hi

/-- **The body**: the trial fails, overflows, or adds its sample. -/
theorem Inv.body (h : Inv args clock samples s) (hi : s.i = samples.length + 1)
    (hlt : samples.length < args.trials) :
    ∃ samples', Inv args clock samples' (body args clock s) := by
  have htrial : trial args clock s.i = trial args clock (samples.length + 1) := by rw [hi]
  cases hr : trial args clock (samples.length + 1) with
  | failed call =>
    refine ⟨samples, ?_⟩
    rw [TimerBenchmark.body, htrial, hr]
    exact { h with atPoint := ⟨hlt, hr⟩ }
  | overflow =>
    refine ⟨samples, ?_⟩
    rw [TimerBenchmark.body, htrial, hr]
    exact { h with atPoint := Or.inl ⟨hlt, hr⟩ }
  | completed m => exact ⟨samples ++ [m], h.body_completed hi hlt hr⟩

/-- The step lemma. -/
theorem Inv.step (h : Inv args clock samples s) :
    ∃ samples', Inv args clock samples' (step args clock s) := by
  have hpoint := h.atPoint
  rw [TimerBenchmark.step]
  cases hp : s.point with
  | test =>
    rw [hp] at hpoint
    refine ⟨samples, { h with atPoint := ?_ }⟩
    have hi : s.i = samples.length + 1 := hpoint
    have hle := h.length_le
    by_cases htest : s.i ≤ args.trials
    · simp only [htest, if_true]
      exact ⟨hi, by omega⟩
    · simp only [htest, if_false]
      exact (by omega : (samples.length : ℤ) = args.trials)
  | body =>
    rw [hp] at hpoint
    exact h.body hpoint.1 hpoint.2
  | increment =>
    rw [hp] at hpoint
    have hi : s.i = samples.length := hpoint
    have hle := h.length_le
    have htrials := args.trials_le
    refine ⟨samples, ?_⟩
    rcases le_or_gt (s.i + 1) intMax with hmax | hmax
    · rw [int32_of_mem (by omega) hmax]
      exact { h with atPoint := (by omega : s.i + 1 = samples.length + 1) }
    · rw [int32_of_gt hmax]
      exact { h with atPoint := Or.inr ⟨by omega, by omega⟩ }
  | summary | failed call | undefined => exact ⟨samples, h⟩

variable (args clock)

/-- **The run lemma**: every state of a run is the one after some completed trials. -/
theorem inv_stateAt (n : ℕ) : ∃ samples, Inv args clock samples (stateAt args clock n) := by
  induction n with
  | zero => exact ⟨[], inv_start⟩
  | succ n ih =>
    obtain ⟨samples, h⟩ := ih
    rw [stateAt_succ]
    exact h.step

/-! ### Every run stops -/

/-- The place of a point in a round of the loop. -/
def Point.offset : Point → ℤ
  | .test | .summary | .failed _ | .undefined => 0
  | .body => 1
  | .increment => 2

/-- The number of steps that lead to a state of the loop. -/
def progress (s : LoopState) : ℤ := 3 * (s.i - 1) + s.point.offset

theorem body_running {s : LoopState} (h : (body args clock s).point.stopped = false) :
    (body args clock s).i = s.i ∧ (body args clock s).point = .increment := by
  rw [body] at h ⊢
  split at h
  · simp [Point.stopped] at h
  · simp [Point.stopped] at h
  · split at h
    · simp [Point.stopped] at h
    · simp [*]

theorem progress_step {s : LoopState} (h : (step args clock s).point.stopped = false) :
    progress (step args clock s) = progress s + 1 := by
  rw [step] at h ⊢
  cases hp : s.point with
  | test =>
    by_cases htest : s.i ≤ args.trials
    · simp [progress, hp, htest, Point.offset]
    · simp [hp, htest, Point.stopped] at h
  | body =>
    simp only [hp] at h ⊢
    obtain ⟨hi, hpoint⟩ := body_running args clock h
    simp only [progress, hi, hpoint, hp, Point.offset]
    omega
  | increment =>
    simp only [hp] at h ⊢
    cases hi : int32 (s.i + 1) with
    | none => simp [hi, Point.stopped] at h
    | some i =>
      have hval : s.i + 1 = i := int32_eq_some hi
      simp only [progress, hp, Point.offset]
      omega
  | summary | failed call | undefined => simp [hp, Point.stopped] at h

theorem step_stopped {s : LoopState} (h : s.point.stopped = true) : step args clock s = s := by
  rw [step]
  cases hp : s.point <;> simp_all [Point.stopped]

theorem progress_stateAt (n : ℕ) (h : (stateAt args clock n).point.stopped = false) :
    progress (stateAt args clock n) = n := by
  induction n with
  | zero => rfl
  | succ n ih =>
    rw [stateAt_succ] at h ⊢
    have hrunning : (stateAt args clock n).point.stopped = false := by
      by_contra hstopped
      rw [step_stopped args clock (by simpa using hstopped)] at h
      exact hstopped h
    rw [progress_step args clock h, ih hrunning, Nat.cast_succ]

/-- **Every run stops**, after three steps for each trial and the last test. -/
theorem stateAt_stopped {n : ℕ} (h : 3 * args.trials < n) :
    (stateAt args clock n).point.stopped = true := by
  by_contra hstopped
  have hprogress := progress_stateAt args clock n (by simpa using hstopped)
  obtain ⟨samples, hinv⟩ := inv_stateAt args clock n
  have hpoint := hinv.atPoint
  have hle := hinv.length_le
  rw [progress] at hprogress
  cases hp : (stateAt args clock n).point with
  | test =>
    simp only [hp, AtPoint, Point.offset] at hprogress hpoint
    omega
  | body =>
    simp only [hp, AtPoint, Point.offset] at hprogress hpoint
    omega
  | increment =>
    simp only [hp, AtPoint, Point.offset] at hprogress hpoint
    omega
  | summary | failed call | undefined => simp [hp, Point.stopped] at hstopped

variable {args clock} in
/-- **A run without failing calls** leaves the loop with all its trials. -/
theorem Completed.stateAt {samples : List Sample} (h : Completed args clock samples)
    (hlen : samples.length = args.trials) (hmax : args.trials < intMax) {n : ℕ}
    (hn : 3 * args.trials < n) :
    (stateAt args clock n).point = .summary ∧ Inv args clock samples (stateAt args clock n) := by
  obtain ⟨samples', hinv⟩ := inv_stateAt args clock n
  have hstopped := stateAt_stopped args clock hn
  have hpoint := hinv.atPoint
  have hle := hinv.length_le
  -- before the last trial, the next one completes
  have hnext : (samples'.length : ℤ) < args.trials →
      ∃ m, trial args clock (samples'.length + 1) = .completed m := by
    intro hlt
    have hk : samples'.length < samples.length := by omega
    exact ⟨samples[samples'.length], h _ _ (List.getElem?_eq_getElem hk)⟩
  cases hp : (TimerBenchmark.stateAt args clock n).point with
  | test | body | increment => simp [hp, Point.stopped] at hstopped
  | summary =>
    rw [hp] at hpoint
    have hlen' : (samples'.length : ℤ) = args.trials := hpoint
    obtain rfl : samples' = samples := hinv.completed.unique h (by omega)
    exact ⟨rfl, hinv⟩
  | failed call =>
    rw [hp] at hpoint
    obtain ⟨hlt, hfailed⟩ := hpoint
    obtain ⟨m, hm⟩ := hnext hlt
    rw [hm] at hfailed
    cases hfailed
  | undefined =>
    rw [hp] at hpoint
    rcases hpoint with ⟨hlt, hoverflow⟩ | ⟨hk, hk'⟩
    · obtain ⟨m, hm⟩ := hnext hlt
      rw [hm] at hoverflow
      cases hoverflow
    · omega

/-! ### Completed runs -/

/-- A run that has left the loop with all its trials. -/
structure CompletedRun (trials : ℤ) where
  args : Args
  clock : Clock
  steps : ℕ
  trials_eq : args.trials = trials
  summary : (stateAt args clock steps).point = .summary

namespace CompletedRun

variable {trials : ℤ} (r : CompletedRun trials)

def stdout : Text := (stateAt r.args r.clock r.steps).stdout

/-- The array, before it is sorted. -/
def errors : List ℤ := (stateAt r.args r.clock r.steps).errors.reduceOption

theorem exists_samples : ∃ samples, samples.length = trials ∧
    Completed r.args r.clock samples ∧ r.stdout = unlines (header :: rows r.args samples) ∧
    r.errors = samples.map (·.errorNs) := by
  obtain ⟨samples, h⟩ := inv_stateAt r.args r.clock r.steps
  have hpoint := h.atPoint
  rw [r.summary] at hpoint
  have hlen : samples.length = r.args.trials := hpoint
  refine ⟨samples, hlen.trans r.trials_eq, h.completed, h.stdout, ?_⟩
  have hfull : r.args.trials.toNat - samples.length = 0 := by omega
  rw [errors, h.errors, hfull, List.replicate_zero, List.append_nil, List.reduceOption,
    List.filterMap_map]
  exact congrFun List.filterMap_eq_map samples

end CompletedRun

end TimerBenchmark

end HrtimerStudy
