import HrtimerStudy.Lib.Lines
import HrtimerStudy.Lib.SignedInt
import HrtimerStudy.TimerBenchmark.Percentile

/-!
# One trial of the measurement

The conversions of `timer_benchmark.c` between `struct timespec` and nanoseconds, and one execution
of the body of the measurement loop in `main`: three clock calls, the arithmetic on their readings,
the write to `errors` and the row on standard output.

What the clock calls return is the environment's choice. Signed arithmetic that leaves its type,
and a write outside the array, have no defined result in C: the program stops at the point
`undefined`, and nothing is said about it from there on.

## Main definitions

* `timespecToNs`, `nsToTimespec` — the conversions
* `Args` — the arguments that pass the check
* `trial`, `body` — the loop body, up to the write and as a whole

## Main results

* `trial_completed_iff` — when a trial completes, and with what sample
-/

namespace HrtimerStudy

namespace TimerBenchmark

/-! ### Signed arithmetic -/

/-- The value of an `int` expression, if there is one. -/
def int32 (x : ℤ) : Option ℤ := if -2147483648 ≤ x ∧ x ≤ intMax then some x else none

theorem int32_eq_some {x y : ℤ} (h : int32 x = some y) : x = y := by
  rw [int32] at h
  split_ifs at h
  exact Option.some.inj h

theorem int32_of_mem {x : ℤ} (hlo : 0 ≤ x) (hhi : x ≤ intMax) : int32 x = some x :=
  if_pos ⟨by omega, hhi⟩

theorem int32_of_gt {x : ℤ} (h : intMax < x) : int32 x = none :=
  if_neg fun hx => absurd hx.2 (not_le.mpr h)

/-! ### Time -/

structure Timespec where
  tv_sec : ℤ
  tv_nsec : ℤ

def timespecToNs (ts : Timespec) : Option ℤ := do
  let s ← int64 (ts.tv_sec * 1000000000)
  int64 (s + ts.tv_nsec)

/-- C's division and remainder truncate toward zero. -/
def nsToTimespec (ns : ℤ) : Timespec := ⟨ns.tdiv 1000000000, ns.tmod 1000000000⟩

/-- What the three calls of a trial return: the reading of the first `clock_gettime` unless it
fails, the return value of `clock_nanosleep`, the reading of the second `clock_gettime`. -/
structure ClockCalls where
  start : Option Timespec
  ret : ℤ
  finish : Option Timespec

/-- The calls of trial `i`, given the `timespec` that is passed to `clock_nanosleep`. -/
abbrev Clock := ℤ → Timespec → ClockCalls

/-! ### Arguments and state -/

/-- The arguments of a run: `requested_ns` is an `int64_t` and `trials` is an `int`, and the check
`requested_ns <= 0 || trials <= 0` has let them pass. -/
structure Args where
  requestedNs : ℤ
  trials : ℤ
  requestedNs_pos : 0 < requestedNs
  requestedNs_le : requestedNs ≤ 9223372036854775807
  trials_pos : 0 < trials
  trials_le : trials ≤ intMax

/-- The call whose failure ends `main` with status 1. -/
inductive FailedCall
  | startGettime
  | nanosleep
  | endGettime
  deriving DecidableEq

/-- Where `main` is. The loop is entered by the test `i <= trials` and comes back to it through
the increment. -/
inductive Point
  | test
  | body
  | increment
  | summary
  | failed (call : FailedCall)
  | undefined
  deriving DecidableEq

/-- The point from which the loop does not go on. -/
def Point.stopped : Point → Bool
  | .summary | .failed _ | .undefined => true
  | .test | .body | .increment => false

/-- The state of `main`. An entry of `errors` is `none` until it is written. -/
structure LoopState where
  i : ℤ
  errors : List (Option ℤ)
  stdout : Text
  point : Point

/-- `errors[index] = value`, or `none` outside the array. -/
def writeAt (errors : List (Option ℤ)) (index value : ℤ) : Option (List (Option ℤ)) :=
  if 0 ≤ index ∧ index < errors.length then some (errors.set index.toNat (some value)) else none

theorem writeAt_natCast {errors : List (Option ℤ)} {k : ℕ} (hk : k < errors.length) (v : ℤ) :
    writeAt errors k v = some (errors.set k (some v)) := by
  rw [writeAt, if_pos ⟨Int.natCast_nonneg k, by exact_mod_cast hk⟩, Int.toNat_natCast]

/-! ### Output -/

def header : Text := "trial,requested_ns,actual_ns,error_ns".toList

/-- `"%d,%lld,%lld,%lld"`. -/
def row (i requestedNs actualNs errorNs : ℤ) : Text :=
  csvLine [decimal i, decimal requestedNs, decimal actualNs, decimal errorNs]

/-! ### The machine -/

/-- `actual_ns` and `error_ns` of a trial. -/
structure Sample where
  actualNs : ℤ
  errorNs : ℤ

/-- The arithmetic between the second reading and the row. -/
def measured (requestedNs : ℤ) (start finish : Timespec) : Option Sample := do
  let startNs ← timespecToNs start
  let endNs ← timespecToNs finish
  let actualNs ← int64 (endNs - startNs)
  let errorNs ← int64 (actualNs - requestedNs)
  return ⟨actualNs, errorNs⟩

variable (args : Args) (clock : Clock)

/-- How the part of the loop body before the write to `errors` ends. -/
inductive TrialResult
  | failed (call : FailedCall)
  | overflow
  | completed (m : Sample)

/-- The three calls of trial `i` and the arithmetic after them. -/
def trial (i : ℤ) : TrialResult :=
  let calls := clock i (nsToTimespec args.requestedNs)
  match calls.start with
  | none => .failed .startGettime
  | some start =>
    if calls.ret ≠ 0 then .failed .nanosleep
    else
      match calls.finish with
      | none => .failed .endGettime
      | some finish =>
        match measured args.requestedNs start finish with
        | none => .overflow
        | some m => .completed m

/-- The loop body. -/
def body (s : LoopState) : LoopState :=
  match trial args clock s.i with
  | .failed call => { s with point := .failed call }
  | .overflow => { s with point := .undefined }
  | .completed m =>
    match (int32 (s.i - 1)).bind fun index : ℤ => writeAt s.errors index m.errorNs with
    | none => { s with point := .undefined }
    | some errors =>
      { s with
        errors := errors
        stdout := s.stdout ++ unlines [row s.i args.requestedNs m.actualNs m.errorNs]
        point := .increment }

/-! ### One trial -/

variable {args clock}

/-- The time a `timespec` stands for. -/
def Timespec.ns (ts : Timespec) : ℤ := ts.tv_sec * 1000000000 + ts.tv_nsec

theorem timespecToNs_eq_some {ts : Timespec} {ns : ℤ} :
    timespecToNs ts = some ns ↔ Fits64 (ts.tv_sec * 1000000000) ∧ Fits64 ts.ns ∧ ts.ns = ns := by
  simp only [timespecToNs, Option.bind_eq_bind, Option.bind_eq_some_iff, int64_eq_some]
  constructor
  · rintro ⟨s, ⟨hs, rfl⟩, hns⟩
    exact ⟨hs, hns⟩
  · rintro ⟨hs, hns⟩
    exact ⟨_, ⟨hs, rfl⟩, hns⟩

/-- The sample two readings of the clock stand for. -/
def Sample.Exact (requestedNs : ℤ) (start finish : Timespec) (m : Sample) : Prop :=
  m.actualNs = finish.ns - start.ns ∧ m.errorNs = m.actualNs - requestedNs

/-- Every value on the way to a sample is one of type `int64_t`. -/
def Sample.Fits (start finish : Timespec) (m : Sample) : Prop :=
  (Fits64 (start.tv_sec * 1000000000) ∧ Fits64 start.ns) ∧
    (Fits64 (finish.tv_sec * 1000000000) ∧ Fits64 finish.ns) ∧
    Fits64 m.actualNs ∧ Fits64 m.errorNs

theorem measured_eq_some {requestedNs : ℤ} {start finish : Timespec} {m : Sample} :
    measured requestedNs start finish = some m ↔
      m.Exact requestedNs start finish ∧ m.Fits start finish := by
  simp only [measured, Option.bind_eq_bind, Option.bind_eq_some_iff, Option.pure_def,
    timespecToNs_eq_some, int64_eq_some]
  constructor
  · rintro ⟨_, ⟨hs, hs', rfl⟩, _, ⟨hf, hf', rfl⟩, _, ⟨ha, rfl⟩, _, ⟨he, rfl⟩, hm⟩
    obtain rfl := Option.some.inj hm
    exact ⟨⟨rfl, rfl⟩, ⟨hs, hs'⟩, ⟨hf, hf'⟩, ha, he⟩
  · rintro ⟨⟨hactual, herror⟩, ⟨hs, hs'⟩, ⟨hf, hf'⟩, ha, he⟩
    refine ⟨_, ⟨hs, hs', rfl⟩, _, ⟨hf, hf', rfl⟩, m.actualNs, ?_, m.errorNs, ?_, rfl⟩
    · rw [← hactual]
      exact ⟨ha, rfl⟩
    · rw [← herror]
      exact ⟨he, rfl⟩

/-- **A trial completes** when its three calls succeed and nothing overflows, and then its sample
is exact. -/
theorem trial_completed_iff {i : ℤ} {m : Sample} :
    trial args clock i = .completed m ↔
      ∃ start finish, clock i (nsToTimespec args.requestedNs) = ⟨some start, 0, some finish⟩ ∧
        m.Exact args.requestedNs start finish ∧ m.Fits start finish := by
  constructor
  · intro h
    rw [trial] at h
    cases hcalls : clock i (nsToTimespec args.requestedNs) with
    | mk start? ret finish? =>
      rw [hcalls] at h
      cases start? with
      | none => cases h
      | some start =>
        by_cases hret : ret = 0
        · cases finish? with
          | none => simp [hret] at h
          | some finish =>
            simp only [hret, ne_eq, not_true_eq_false, if_false] at h
            cases hm : measured args.requestedNs start finish with
            | none => simp [hm] at h
            | some m' =>
              simp only [hm] at h
              injection h with heq
              subst heq
              exact ⟨start, finish, by rw [hret], measured_eq_some.mp hm⟩
        · simp [hret] at h
  · rintro ⟨start, finish, hcalls, hm⟩
    simp [trial, hcalls, measured_eq_some.mpr hm]

end TimerBenchmark

end HrtimerStudy
