import HrtimerStudy.TimerBenchmark.MeasurementLoop

/-!
# The arithmetic of a measurement

`main` of `timer_benchmark.c` computes in `int64_t`, but for the counter, which is an `int`. The
two types have nothing to do with each other: what keeps the nanoseconds in range is the clock,
and what keeps the counter in range is the argument `trials`.

The clock is the kernel's `CLOCK_MONOTONIC`. Its readings are normalised, not negative, and fit
into 64 bits of nanoseconds, and a sleep that succeeds is not too short. Nothing is asked of the
readings of different trials.

The argument check lets every positive `int` pass as the number of trials. The last of them is one
too many: after `INT_MAX` trials the increment has nowhere to go.

## Main definitions

* `KernelClock` — a clock that keeps the promises of `CLOCK_MONOTONIC`
* `changedAt`, `written`, `iterations` — what the steps change in `errors`, and how often
* `LoopCorrect` — the loop as it is meant to run

## Main results

* `measurement_fits` — with such a clock, no 64-bit operation of a run overflows
* `loopCorrect_iff` — the loop is correct for every number of trials below `INT_MAX`, and not there
-/

namespace HrtimerStudy

namespace TimerBenchmark

/-! ### `CLOCK_MONOTONIC` -/

/-- A normalised and non-negative `timespec` of at most `INT64_MAX` nanoseconds. -/
structure Timespec.Normal (ts : Timespec) : Prop where
  sec_nonneg : 0 ≤ ts.tv_sec
  nsec_nonneg : 0 ≤ ts.tv_nsec
  nsec_lt : ts.tv_nsec < 1000000000
  ns_le : ts.ns ≤ 9223372036854775807

/-- The promises about the calls of one trial, as far as the trial gets: the two readings are
normal, and there is the requested time between them. -/
structure ClockCalls.Monotonic (request : Timespec) (calls : ClockCalls) : Prop where
  start_normal : ∀ start ∈ calls.start, start.Normal
  finish_normal : calls.start.isSome → calls.ret = 0 → ∀ finish ∈ calls.finish, finish.Normal
  slept : calls.ret = 0 → ∀ start ∈ calls.start, ∀ finish ∈ calls.finish,
    start.ns + request.ns ≤ finish.ns

/-- The promises about the trials of a run. -/
def KernelClock (args : Args) (clock : Clock) : Prop :=
  ∀ i, 1 ≤ i → i ≤ args.trials →
    (clock i (nsToTimespec args.requestedNs)).Monotonic (nsToTimespec args.requestedNs)

/-! ### Conversions -/

theorem nsToTimespec_normal {ns : ℤ} (h₀ : 0 ≤ ns) (hmax : ns ≤ 9223372036854775807) :
    (nsToTimespec ns).Normal ∧ (nsToTimespec ns).ns = ns := by
  have hsec : (nsToTimespec ns).tv_sec = ns / 1000000000 := Int.tdiv_eq_ediv_of_nonneg h₀
  have hnsec : (nsToTimespec ns).tv_nsec = ns % 1000000000 := Int.tmod_eq_emod_of_nonneg h₀
  have hns : (nsToTimespec ns).ns = ns := by
    rw [Timespec.ns, hsec, hnsec]
    omega
  exact ⟨⟨by omega, by omega, by omega, by omega⟩, hns⟩

theorem Timespec.Normal.fits {ts : Timespec} (h : ts.Normal) :
    Fits64 (ts.tv_sec * 1000000000) ∧ Fits64 ts.ns := by
  obtain ⟨hsec, hnsec, -, hle⟩ := h
  rw [Timespec.ns] at hle ⊢
  exact ⟨⟨by omega, by omega⟩, ⟨by omega, by omega⟩⟩

theorem Timespec.Normal.ns_nonneg {ts : Timespec} (h : ts.Normal) : 0 ≤ ts.ns := by
  obtain ⟨hsec, hnsec, -, -⟩ := h
  rw [Timespec.ns]
  omega

/-- The conversion of a normal `timespec` has a result. -/
theorem timespecToNs_of_normal {ts : Timespec} (h : ts.Normal) : timespecToNs ts = some ts.ns :=
  timespecToNs_eq_some.mpr ⟨h.fits.1, h.fits.2, rfl⟩

/-! ### Trials -/

section Trials

variable {args : Args} {clock : Clock}

/-- The range of the errors. -/
def Args.ErrorRange (args : Args) (e : ℤ) : Prop :=
  0 ≤ e ∧ e ≤ 9223372036854775807 - args.requestedNs

/-- The sample of two readings. -/
def Sample.between (requestedNs : ℤ) (start finish : Timespec) : Sample :=
  ⟨finish.ns - start.ns, finish.ns - start.ns - requestedNs⟩

theorem trial_between_iff {i : ℤ} {start finish : Timespec}
    (hcalls : clock i (nsToTimespec args.requestedNs) = ⟨some start, 0, some finish⟩) {m : Sample} :
    trial args clock i = .completed m ↔
      m = .between args.requestedNs start finish ∧ m.Fits start finish := by
  rw [trial_completed_iff]
  constructor
  · rintro ⟨start', finish', hcalls', ⟨hactual, herror⟩, hfits⟩
    rw [hcalls] at hcalls'
    injection hcalls' with hstart _ hfinish
    obtain rfl : start = start' := Option.some.inj hstart
    obtain rfl : finish = finish' := Option.some.inj hfinish
    refine ⟨?_, hfits⟩
    rcases m with ⟨actual, error⟩
    obtain rfl : actual = finish.ns - start.ns := hactual
    obtain rfl : error = finish.ns - start.ns - args.requestedNs := herror
    rfl
  · rintro ⟨rfl, hfits⟩
    exact ⟨start, finish, hcalls, ⟨rfl, rfl⟩, hfits⟩

/-- The sample of a trial whose calls succeed. -/
theorem KernelClock.between (h : KernelClock args clock) {i : ℤ} (hi : 1 ≤ i)
    (hle : i ≤ args.trials) {start finish : Timespec}
    (hcalls : clock i (nsToTimespec args.requestedNs) = ⟨some start, 0, some finish⟩) :
    (Sample.between args.requestedNs start finish).Fits start finish ∧
      args.ErrorRange (Sample.between args.requestedNs start finish).errorNs := by
  have hmono := h i hi hle
  rw [hcalls] at hmono
  have hpos := args.requestedNs_pos
  have hns := (nsToTimespec_normal hpos.le args.requestedNs_le).2
  have hstart := hmono.start_normal start rfl
  have hfinish := hmono.finish_normal rfl rfl finish rfl
  have hslept := hmono.slept rfl start rfl finish rfl
  have h₀ := hstart.ns_nonneg
  have hmax := hfinish.ns_le
  rw [Args.ErrorRange, Sample.Fits, Sample.between]
  refine ⟨⟨hstart.fits, hfinish.fits, ⟨?_, ?_⟩, ?_, ?_⟩, ?_, ?_⟩ <;> simp only <;> omega

/-- The trials of a run do not overflow. -/
theorem KernelClock.trial_ne_overflow (h : KernelClock args clock) {i : ℤ} (hi : 1 ≤ i)
    (hle : i ≤ args.trials) : trial args clock i ≠ .overflow := by
  intro hover
  rcases hcalls : clock i (nsToTimespec args.requestedNs) with ⟨start?, ret, finish?⟩
  cases start? with
  | none => simp [trial, hcalls] at hover
  | some start =>
    by_cases hret : ret = 0
    · cases finish? with
      | none => simp [trial, hcalls, hret] at hover
      | some finish =>
        rw [hret] at hcalls
        rw [(trial_between_iff hcalls).mpr ⟨rfl, (h.between hi hle hcalls).1⟩] at hover
        cases hover
    · simp [trial, hcalls, hret] at hover

/-- The errors a run has stored. -/
theorem KernelClock.errorRange (h : KernelClock args clock) {n : ℕ} {e : ℤ}
    (he : some e ∈ (stateAt args clock n).errors) : args.ErrorRange e := by
  obtain ⟨samples, hinv⟩ := inv_stateAt args clock n
  rw [hinv.errors, List.mem_append] at he
  rcases he with he | he
  · obtain ⟨m, hm, hme⟩ := List.mem_map.mp he
    obtain rfl : m.errorNs = e := Option.some.inj hme
    obtain ⟨k, hk, hget⟩ := List.mem_iff_getElem.mp hm
    have htrial := hinv.completed k m (by rw [List.getElem?_eq_getElem hk, hget])
    obtain ⟨start, finish, hcalls, -, -⟩ := trial_completed_iff.mp htrial
    have hle := hinv.length_le
    obtain ⟨rfl, -⟩ := (trial_between_iff hcalls).mp htrial
    exact (h.between (by omega) (by omega) hcalls).2
  · simp at he

/-- A run of such a clock has one way to go wrong. -/
theorem KernelClock.undefined (h : KernelClock args clock) {n : ℕ}
    (hn : (stateAt args clock n).point = .undefined) : args.trials = intMax := by
  obtain ⟨samples, hinv⟩ := inv_stateAt args clock n
  have hpoint := hinv.atPoint
  rw [hn] at hpoint
  rcases hpoint with ⟨hlt, hover⟩ | ⟨hk, hmax⟩
  · exact absurd hover (h.trial_ne_overflow (by omega) (by omega))
  · omega

end Trials

/-- A clock that wakes each trial up 57 nanoseconds late. -/
def secondsClock : Clock := fun i _ => ⟨some ⟨i, 0⟩, 0, some ⟨i, 2000057⟩⟩

/-- A delay of two milliseconds. -/
def twoMilliseconds (trials : ℤ) (hpos : 0 < trials) (hle : trials ≤ intMax) : Args :=
  ⟨2000000, trials, by decide, by decide, hpos, hle⟩

theorem kernelClock_secondsClock (trials : ℤ) (hpos : 0 < trials) (hle : trials ≤ intMax) :
    KernelClock (twoMilliseconds trials hpos hle) secondsClock := by
  intro i hi himax
  have himax' : i ≤ trials := himax
  rw [intMax] at hle
  refine ⟨?_, ?_, ?_⟩
  · intro start hstart
    obtain rfl := Option.some.inj hstart
    refine ⟨?_, ?_, ?_, ?_⟩ <;> simp only [Timespec.ns] <;> omega
  · rintro - - finish hfinish
    obtain rfl := Option.some.inj hfinish
    refine ⟨?_, ?_, ?_, ?_⟩ <;> simp only [Timespec.ns] <;> omega
  · rintro - start hstart finish hfinish
    obtain rfl := Option.some.inj hstart
    obtain rfl := Option.some.inj hfinish
    have hrequest : (nsToTimespec 2000000).ns = 2000000 := by decide
    have hns : (nsToTimespec (twoMilliseconds trials hpos hle).requestedNs).ns = 2000000 :=
      hrequest
    rw [hns]
    simp only [Timespec.ns]
    omega

variable {args : Args} {clock : Clock}

/-- **No 64-bit overflow in a measurement.** The request converts to nanoseconds and back. A trial
whose calls succeed computes in range, and its error is not negative and leaves room for the
request. So it is with every error stored, and the differences `percentile` may form. -/
theorem measurement_fits (h : KernelClock args clock) (qsort : Qsort) :
    (0 ≤ (nsToTimespec args.requestedNs).tv_nsec ∧
      (nsToTimespec args.requestedNs).tv_nsec < 1000000000 ∧
      timespecToNs (nsToTimespec args.requestedNs) = some args.requestedNs) ∧
    (∀ i, 1 ≤ i → i ≤ args.trials →
      trial args clock i ≠ .overflow ∧
      ∀ start finish, clock i (nsToTimespec args.requestedNs) = ⟨some start, 0, some finish⟩ →
        ∃ m, trial args clock i = .completed m ∧ m.Exact args.requestedNs start finish ∧
          m.Fits start finish ∧ m.actualNs = args.requestedNs + m.errorNs ∧
          args.ErrorRange m.errorNs) ∧
    ∀ n,
      ((stateAt args clock n).point = .undefined → args.trials = intMax) ∧
      (∀ e, some e ∈ (stateAt args clock n).errors → args.ErrorRange e) ∧
      ∀ lower upper a b,
        readAt (qsort.sort (stateAt args clock n).errors.reduceOption) lower = some a →
        readAt (qsort.sort (stateAt args clock n).errors.reduceOption) upper = some b →
        Fits64 (b - a) := by
  have hpos := args.requestedNs_pos
  have hread : ∀ n k a,
      readAt (qsort.sort (stateAt args clock n).errors.reduceOption) k = some a →
        args.ErrorRange a := by
    intro n k a hk
    rw [readAt] at hk
    split_ifs at hk
    have hmem := (qsort.perm _).mem_iff.mp (List.mem_of_getElem? hk)
    exact h.errorRange (List.reduceOption_mem_iff.mp hmem)
  refine ⟨?_, fun i hi hle => ⟨h.trial_ne_overflow hi hle, ?_⟩, fun n => ⟨h.undefined, ?_, ?_⟩⟩
  · obtain ⟨hnormal, hns⟩ := nsToTimespec_normal hpos.le args.requestedNs_le
    refine ⟨hnormal.nsec_nonneg, hnormal.nsec_lt, ?_⟩
    rw [timespecToNs_of_normal hnormal, hns]
  · intro start finish hcalls
    obtain ⟨hfits, hrange⟩ := h.between hi hle hcalls
    exact ⟨.between args.requestedNs start finish, (trial_between_iff hcalls).mpr ⟨rfl, hfits⟩,
      ⟨rfl, rfl⟩, hfits, (add_sub_cancel ..).symm, hrange⟩
  · exact fun e he => h.errorRange he
  · intro lower upper a b ha hb
    obtain ⟨ha₀, ha₁⟩ := hread n lower a ha
    obtain ⟨hb₀, hb₁⟩ := hread n upper b hb
    exact ⟨by omega, by omega⟩

theorem measurement_fits_twoMilliseconds :
    timespecToNs (nsToTimespec 2000000) = some 2000000 ∧
      ∃ m, trial (twoMilliseconds 2 (by decide) (by decide)) secondsClock 1 = .completed m ∧
        m.actualNs = 2000000 + m.errorNs ∧ 0 ≤ m.errorNs := by
  obtain ⟨⟨-, -, hrequest⟩, htrials, -⟩ := measurement_fits
    (kernelClock_secondsClock 2 (by decide) (by decide)) Qsort.insertion
  obtain ⟨-, htrial⟩ := htrials 1 le_rfl (by decide)
  obtain ⟨m, hm, -, -, hactual, hrange, -⟩ := htrial ⟨1, 0⟩ ⟨1, 2000057⟩ rfl
  exact ⟨hrequest, m, hm, hactual, hrange⟩

/-! ### The loop as it is meant to run -/

section Loop

variable (args : Args) (clock : Clock)

/-- The indices at which two states of the array differ, also those beyond its end. -/
def changed (before after : List (Option ℤ)) : List ℕ :=
  (List.range (max before.length after.length)).filter fun k => before[k]? ≠ after[k]?

/-- The indices at which the step after `n` steps changes `errors`. -/
def changedAt (n : ℕ) : List ℕ :=
  changed (stateAt args clock n).errors (stateAt args clock (n + 1)).errors

/-- Those of the first `n` steps, one step after the other. -/
def written (n : ℕ) : List ℕ := (List.range n).flatMap (changedAt args clock)

/-- How often the body is entered in the first `n` steps. -/
def iterations (n : ℕ) : ℕ :=
  (List.range n).countP fun k => (stateAt args clock k).point = .body

/-- The loop ends, after one iteration for each trial. The iteration of `i` writes to
`errors[i - 1]` and nothing else is written to; every entry is written to once, and in the end the
array holds the errors of the trials. On the way nothing undefined happens, be it a write outside
the array or an overflow. -/
structure LoopCorrect : Prop where
  ends : ∃ n, (stateAt args clock n).point = .summary
  iterations : ∀ n, (stateAt args clock n).point = .summary → iterations args clock n = args.trials
  own : ∀ n, changedAt args clock n =
    if (stateAt args clock n).point = .body then [((stateAt args clock n).i - 1).toNat] else []
  once : ∀ n, (stateAt args clock n).point = .summary → ∀ k : ℕ,
    (written args clock n).count k = if k < args.trials then 1 else 0
  stored : ∀ n, (stateAt args clock n).point = .summary → ∃ samples : List Sample,
    samples.length = args.trials ∧ Completed args clock samples ∧
      (stateAt args clock n).errors = samples.map fun m => some m.errorNs
  defined : ∀ n, (stateAt args clock n).point ≠ .undefined

/-- No clock call fails. -/
def CallsSucceed : Prop :=
  ∀ i, 1 ≤ i → i ≤ args.trials →
    ∃ start finish, clock i (nsToTimespec args.requestedNs) = ⟨some start, 0, some finish⟩

/-- The readings are such that no difference of them leaves the `int64_t` range. -/
def ReadingsFit : Prop :=
  ∀ i, 1 ≤ i → i ≤ args.trials →
    ∀ start finish, clock i (nsToTimespec args.requestedNs) = ⟨some start, 0, some finish⟩ →
      (Sample.between args.requestedNs start finish).Fits start finish

variable {args clock}

theorem KernelClock.readingsFit (h : KernelClock args clock) : ReadingsFit args clock :=
  fun _ hi hle _ _ hcalls => (h.between hi hle hcalls).1

theorem CallsSucceed.completed (h : CallsSucceed args clock) (hfit : ReadingsFit args clock)
    {i : ℤ} (hi : 1 ≤ i) (hle : i ≤ args.trials) : ∃ m, trial args clock i = .completed m := by
  obtain ⟨start, finish, hcalls⟩ := h i hi hle
  exact ⟨_, (trial_between_iff hcalls).mpr ⟨rfl, hfit i hi hle start finish hcalls⟩⟩

/-! ### The counter -/

variable (args clock) in
/-- The counter is an `int`, and it is past `trials` at the summary. -/
theorem counter_stateAt (n : ℕ) : (stateAt args clock n).i ≤ intMax ∧
    ((stateAt args clock n).point = .summary → args.trials < (stateAt args clock n).i) := by
  induction n with
  | zero =>
    refine ⟨?_, fun h => by cases h⟩
    show (1 : ℤ) ≤ intMax
    decide
  | succ n ih =>
    obtain ⟨hmax, hsummary⟩ := ih
    rw [stateAt_succ, step]
    cases hp : (stateAt args clock n).point with
    | test =>
      refine ⟨hmax, fun h => ?_⟩
      by_cases htest : (stateAt args clock n).i ≤ args.trials
      · simp [htest] at h
      · exact not_le.mp htest
    | body =>
      simp only [body]
      split
      · exact ⟨hmax, fun h => by cases h⟩
      · exact ⟨hmax, fun h => by cases h⟩
      · split
        · exact ⟨hmax, fun h => by cases h⟩
        · exact ⟨hmax, fun h => by cases h⟩
    | increment =>
      simp only
      cases hi : int32 ((stateAt args clock n).i + 1) with
      | none => exact ⟨hmax, fun h => by cases h⟩
      | some i =>
        rw [int32] at hi
        split_ifs at hi with hrange
        obtain rfl := Option.some.inj hi
        exact ⟨hrange.2, fun h => by cases h⟩
    | summary => exact ⟨hmax, fun _ => hsummary hp⟩
    | failed call => exact ⟨hmax, fun h => by simp [hp] at h⟩
    | undefined => exact ⟨hmax, fun h => by simp [hp] at h⟩

/-- The summary is out of reach of `INT_MAX` trials. -/
theorem trials_lt_of_summary {n : ℕ} (h : (stateAt args clock n).point = .summary) :
    args.trials < intMax := by
  obtain ⟨hmax, hsummary⟩ := counter_stateAt args clock n
  exact (hsummary h).trans_le hmax

/-! ### The writes -/

theorem changed_self (errors : List (Option ℤ)) : changed errors errors = [] := by
  rw [changed, List.filter_eq_nil_iff]
  simp

/-- A value in place of a missing one is the only change. -/
theorem changed_set {errors : List (Option ℤ)} {k : ℕ} (hk : errors[k]? = some none) (v : ℤ) :
    changed errors (errors.set k (some v)) = [k] := by
  have hlt : k < errors.length := (List.getElem?_eq_some_iff.mp hk).1
  have hdiffers (j : ℕ) : errors[j]? ≠ (errors.set k (some v))[j]? ↔ j = k := by
    rcases eq_or_ne j k with rfl | hj
    · rw [List.getElem?_set_self hlt, hk]
      simp
    · rw [List.getElem?_set_ne hj.symm]
      simp [hj]
  simp only [changed, hdiffers, List.length_set, max_self]
  rw [List.filter_eq, List.count_range, if_pos hlt, List.replicate_one]

theorem Inv.length_reduceOption {samples : List Sample} {s : LoopState}
    (h : Inv args clock samples s) : s.errors.reduceOption.length = samples.length := by
  rw [h.errors, List.reduceOption_append, List.reduceOption_replicate_none, List.append_nil,
    List.reduceOption, List.filterMap_map]
  simp

/-- The first of the unwritten entries. -/
theorem Inv.unwritten {samples : List Sample} {s : LoopState} (h : Inv args clock samples s)
    (hlt : samples.length < args.trials) : s.errors[samples.length]? = some none := by
  have hrest : args.trials.toNat - samples.length
      = (args.trials.toNat - (samples.length + 1)) + 1 := by omega
  rw [h.errors, hrest, List.replicate_succ,
    List.getElem?_append_right (List.length_map ..).le, List.length_map, Nat.sub_self]
  rfl

/-- Where the trials complete, the body writes to the entry of its trial. -/
theorem changed_body (hcompleted : ∀ i, 1 ≤ i → i ≤ args.trials →
    ∃ m, trial args clock i = .completed m) {samples : List Sample} {s : LoopState}
    (h : Inv args clock samples s) (hi : s.i = samples.length + 1)
    (hlt : samples.length < args.trials) :
    changed s.errors (body args clock s).errors = [samples.length] ∧
      (body args clock s).errors.reduceOption.length = samples.length + 1 := by
  obtain ⟨m, hm⟩ := hcompleted (samples.length + 1) (by omega) (by omega)
  refine ⟨?_, by simpa using (h.body_completed hi hlt hm).length_reduceOption⟩
  obtain ⟨hindex, hwrite⟩ := h.write hi hlt m.errorNs
  rw [← hi] at hm
  rw [body, hm]
  simp only [hindex, Option.bind_some, hwrite]
  exact changed_set (h.unwritten hlt) m.errorNs

/-- **What a step does to the array**: it writes to the first entry that is not written yet if it is
the body, and does not touch the array otherwise. -/
theorem changedAt_eq (hcompleted : ∀ i, 1 ≤ i → i ≤ args.trials →
    ∃ m, trial args clock i = .completed m) (n : ℕ) :
    if (stateAt args clock n).point = .body then
      changedAt args clock n = [(stateAt args clock n).errors.reduceOption.length] ∧
        ((stateAt args clock n).i - 1).toNat =
          (stateAt args clock n).errors.reduceOption.length ∧
        (stateAt args clock (n + 1)).errors.reduceOption.length =
          (stateAt args clock n).errors.reduceOption.length + 1
    else (stateAt args clock (n + 1)).errors = (stateAt args clock n).errors := by
  obtain ⟨samples, h⟩ := inv_stateAt args clock n
  have hpoint := h.atPoint
  have hlength := h.length_reduceOption
  rw [changedAt, stateAt_succ, step, hlength]
  cases hp : (stateAt args clock n).point with
  | test => exact rfl
  | body =>
    rw [hp] at hpoint
    obtain ⟨hi, hlt⟩ := hpoint
    obtain ⟨hchanged, hwritten⟩ := changed_body hcompleted h hi hlt
    exact ⟨hchanged, by omega, hwritten⟩
  | increment =>
    rw [if_neg (by simp)]
    cases hi : int32 ((stateAt args clock n).i + 1) with
    | none => exact rfl
    | some i => exact rfl
  | summary | failed call | undefined => exact rfl

theorem changedAt_own (hcompleted : ∀ i, 1 ≤ i → i ≤ args.trials →
    ∃ m, trial args clock i = .completed m) (n : ℕ) : changedAt args clock n =
      if (stateAt args clock n).point = .body then [((stateAt args clock n).i - 1).toNat]
      else [] := by
  have hstep := changedAt_eq hcompleted n
  split_ifs at hstep ⊢ with hp
  · rw [hstep.1, hstep.2.1]
  · rw [changedAt, hstep, changed_self]

/-- **The writes of a run** go to the entries in their order, one in each iteration. -/
theorem written_eq (hcompleted : ∀ i, 1 ≤ i → i ≤ args.trials →
    ∃ m, trial args clock i = .completed m) (n : ℕ) :
    written args clock n = List.range (stateAt args clock n).errors.reduceOption.length ∧
      iterations args clock n = (stateAt args clock n).errors.reduceOption.length := by
  induction n with
  | zero => simp [written, iterations, stateAt, start, List.reduceOption_replicate_none]
  | succ n ih =>
    obtain ⟨hwritten, hiterations⟩ := ih
    have hstep := changedAt_eq hcompleted n
    rw [written, List.range_succ, List.flatMap_append, ← written, hwritten, iterations,
      List.range_succ, List.countP_append, ← iterations, hiterations, List.flatMap_singleton,
      List.countP_singleton]
    split_ifs at hstep with hp
    · obtain ⟨hchanged, -, hlength⟩ := hstep
      rw [hchanged, hlength, List.range_succ]
      simp [hp]
    · rw [changedAt, hstep, changed_self, List.append_nil]
      simp [hp]

/-! ### The two ends -/

/-- Where every trial completes, a run that stops is at the summary, or the counter has
overflowed. -/
theorem stopped_of_completed (hcompleted : ∀ i, 1 ≤ i → i ≤ args.trials →
    ∃ m, trial args clock i = .completed m) {n : ℕ}
    (hn : (stateAt args clock n).point.stopped = true) :
    (stateAt args clock n).point = .summary ∨
      (stateAt args clock n).point = .undefined ∧ args.trials = intMax := by
  obtain ⟨samples, h⟩ := inv_stateAt args clock n
  have hpoint := h.atPoint
  cases hp : (stateAt args clock n).point with
  | test | body | increment => simp [hp, Point.stopped] at hn
  | summary => exact Or.inl rfl
  | failed call =>
    rw [hp] at hpoint
    obtain ⟨hlt, hfailed⟩ := hpoint
    obtain ⟨m, hm⟩ := hcompleted (samples.length + 1) (by omega) (by omega)
    rw [hm] at hfailed
    cases hfailed
  | undefined =>
    rw [hp] at hpoint
    rcases hpoint with ⟨hlt, hover⟩ | ⟨hk, hk'⟩
    · obtain ⟨m, hm⟩ := hcompleted (samples.length + 1) (by omega) (by omega)
      rw [hm] at hover
      cases hover
    · exact Or.inr ⟨rfl, by omega⟩

/-- At the summary the array holds the errors of all trials. -/
theorem errors_summary {n : ℕ} (h : (stateAt args clock n).point = .summary) :
    ∃ samples : List Sample, samples.length = args.trials ∧ Completed args clock samples ∧
      (stateAt args clock n).errors = samples.map fun m => some m.errorNs := by
  obtain ⟨samples, hinv⟩ := inv_stateAt args clock n
  have hpoint := hinv.atPoint
  rw [h] at hpoint
  have hlen : (samples.length : ℤ) = args.trials := hpoint
  refine ⟨samples, hlen, hinv.completed, ?_⟩
  rw [hinv.errors, show args.trials.toNat - samples.length = 0 by omega, List.replicate_zero,
    List.append_nil]

theorem callsSucceed_secondsClock (args : Args) : CallsSucceed args secondsClock :=
  fun _ _ _ => ⟨_, _, rfl⟩

/-- **The loop is correct** for exactly the counts below `INT_MAX`, as long as no reading takes
the nanoseconds out of their range. -/
theorem loopCorrect_iff (h : CallsSucceed args clock) :
    LoopCorrect args clock ↔ args.trials < intMax ∧ ReadingsFit args clock := by
  constructor
  · rintro ⟨⟨n, hn⟩, -, -, -, -, -⟩
    refine ⟨trials_lt_of_summary hn, ?_⟩
    intro i hi hle start finish hcalls
    obtain ⟨samples, hinv⟩ := inv_stateAt args clock n
    have hpoint := hinv.atPoint
    rw [hn] at hpoint
    have hlen : (samples.length : ℤ) = args.trials := hpoint
    have hk : (i - 1).toNat < samples.length := by omega
    have htrial := hinv.completed _ _ (List.getElem?_eq_getElem hk)
    rw [show (((i - 1).toNat : ℕ) : ℤ) + 1 = i by omega] at htrial
    obtain ⟨hm, hfits⟩ := (trial_between_iff hcalls).mp htrial
    rwa [hm] at hfits
  · rintro ⟨hmax, hfit⟩
    have hcompleted : ∀ i, 1 ≤ i → i ≤ args.trials → ∃ m, trial args clock i = .completed m :=
      fun i hi hle => h.completed hfit hi hle
    have htrials := args.trials_pos
    have hall {n : ℕ} (hn : (stateAt args clock n).point = .summary) :
        (stateAt args clock n).errors.reduceOption.length = args.trials := by
      obtain ⟨samples, hinv⟩ := inv_stateAt args clock n
      have hpoint := hinv.atPoint
      rw [hn] at hpoint
      rw [hinv.length_reduceOption]
      exact hpoint
    refine ⟨⟨3 * args.trials.toNat + 1, ?_⟩, ?_, changedAt_own hcompleted, ?_,
      fun n => errors_summary, ?_⟩
    · have hn : 3 * args.trials < (3 * args.trials.toNat + 1 : ℕ) := by omega
      rcases stopped_of_completed hcompleted (stateAt_stopped args clock hn) with
        hsummary | ⟨-, hover⟩
      · exact hsummary
      · omega
    · intro n hn
      rw [(written_eq hcompleted n).2]
      exact hall hn
    · intro n hn k
      rw [(written_eq hcompleted n).1, List.count_range, ← hall hn]
      simp only [Nat.cast_lt]
    · intro n hn
      rcases stopped_of_completed hcompleted (n := n) (by rw [hn]; rfl) with hsummary | ⟨-, hover⟩
      · rw [hn] at hsummary
        cases hsummary
      · omega

theorem loopCorrect_iff_fiveHundred :
    LoopCorrect (twoMilliseconds 500 (by decide) (by decide)) secondsClock :=
  (loopCorrect_iff (callsSucceed_secondsClock _)).mpr
    ⟨by decide, (kernelClock_secondsClock 500 (by decide) (by decide)).readingsFit⟩

/-- With `INT_MAX` trials, which the argument check lets pass, the increment after the last trial
overflows, though the clock keeps all its promises. -/
theorem not_loopCorrect_intMax :
    KernelClock (twoMilliseconds intMax (by decide) le_rfl) secondsClock ∧
      CallsSucceed (twoMilliseconds intMax (by decide) le_rfl) secondsClock ∧
      (stateAt (twoMilliseconds intMax (by decide) le_rfl) secondsClock (3 * 2147483647 + 1)).point
        = .undefined ∧
      ¬ LoopCorrect (twoMilliseconds intMax (by decide) le_rfl) secondsClock := by
  have hclock := kernelClock_secondsClock intMax (by decide) le_rfl
  have hcalls := callsSucceed_secondsClock (twoMilliseconds intMax (by decide) le_rfl)
  refine ⟨hclock, hcalls, ?_, ?_⟩
  · have hstopped := stateAt_stopped (twoMilliseconds intMax (by decide) le_rfl) secondsClock
      (n := 3 * 2147483647 + 1) (by decide)
    rcases stopped_of_completed (fun i hi hle => hcalls.completed hclock.readingsFit hi hle)
      hstopped with hsummary | ⟨hundefined, -⟩
    · exact absurd (trials_lt_of_summary hsummary) (lt_irrefl intMax)
    · exact hundefined
  · rintro ⟨⟨n, hn⟩, -, -, -, -, -⟩
    exact absurd (trials_lt_of_summary hn) (lt_irrefl intMax)

end Loop

end TimerBenchmark

end HrtimerStudy
