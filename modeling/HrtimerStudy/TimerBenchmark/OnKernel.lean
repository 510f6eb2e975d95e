import HrtimerStudy.Hrtimer.Slept
import HrtimerStudy.TimerBenchmark.Bounds

/-!
# The benchmark on its kernel

`timer_benchmark.c` asks `CLOCK_MONOTONIC` and `clock_nanosleep`, and `KernelClock` is what it has
to be promised about their results. Here the promises are kept. A trial is a run of the machine of
`hrtimer.c` and its sleepers: the first reading, the system call, which may be interrupted and
restarted, and the second reading, with anything at all in between, done by any CPU.

The clock must not have come to its end, which takes it 292 years: the last time that a `ktime_t`
has stands for all later ones, and a sleep until then may be too short.

## Main definitions

* `clockGettime`, `timespecToKtime` — a reading, and the argument of the system call
* `KernelTrial` — the calls of a trial are done by the kernel
* `OnKernel` — and so are those of all trials, one after the other

## Main results

* `KernelTrial.monotonic` — the promises about one trial are kept
* `benchmark_on_kernel` — **no measured error is negative**
-/

namespace HrtimerStudy

namespace TimerBenchmark

open Hrtimer (Setup Tasks Sleeper advance noSleepers ktimeMax Ktime Good SleepsUntil)

variable {T Cpu : Type*} [DecidableEq T] [DecidableEq Cpu] [Setup T]

/-! ### Calls -/

/-- `clock_gettime` of `CLOCK_MONOTONIC`: `ktime_get_ts64`. -/
def clockGettime (σ : Tasks T Cpu) : Timespec := nsToTimespec σ.kernel.now

/-- `timespec64_to_ktime`. `KTIME_SEC_MAX` is the number of full seconds in `KTIME_MAX`. -/
def timespecToKtime (ts : Timespec) : ℤ :=
  if ts.tv_sec ≥ 9223372036 then ktimeMax else ts.ns

/-- The calls of a trial. `clock_nanosleep` returns 0 only if `hrtimer_nanosleep` does, or
`hrtimer_nanosleep_restart` after some interruptions. -/
inductive KernelTrial (deferred : Bool) (t : T) (request : Timespec) :
    Tasks T Cpu → Tasks T Cpu → ClockCalls → Prop
  | completed {σ σ₁ σ₂ σ₃ σ₄ σ₅ : Tasks T Cpu} {c : Cpu} {slack : Ktime} {sl : Sleeper Cpu}
    (hstart : Reachable (advance deferred) σ σ₁) (hentry : Reachable (advance deferred) σ₁ σ₂)
    (hcall : advance deferred σ₂
      (.nanosleep c t (timespecToKtime request) slack false false) = some σ₃)
    (hsleep : Run (advance deferred) (fun _ m => ¬m.leaves t) σ₃ σ₄)
    (hsl : σ₄.sleeper t = some sl) (hpoint : sl.point = .returned 0)
    (hfinish : Reachable (advance deferred) σ₄ σ₅) :
    KernelTrial deferred t request σ σ₅ ⟨some (clockGettime σ₁), 0, some (clockGettime σ₅)⟩
  /-- a signal ends the sleep -/
  | interrupted {σ σ₁ σ₂ : Tasks T Cpu} (hstart : Reachable (advance deferred) σ σ₁)
    (hsleep : Reachable (advance deferred) σ₁ σ₂) {ret : ℤ} (hret : ret ≠ 0) :
    KernelTrial deferred t request σ σ₂ ⟨some (clockGettime σ₁), ret, none⟩

/-- All trials are done by the kernel, one after the other. -/
def OnKernel (deferred : Bool) (t : T) (boot : Tasks T Cpu) (args : Args) (clock : Clock) : Prop :=
  ∃ σ : ℕ → Tasks T Cpu, Reachable (advance deferred) boot (σ 0) ∧
    ∀ i : ℕ, i < args.trials →
      KernelTrial deferred t (nsToTimespec args.requestedNs) (σ i) (σ (i + 1))
        (clock (i + 1) (nsToTimespec args.requestedNs)) ∧
      (σ (i + 1)).kernel.now < ktimeMax

/-! ### Times -/

variable {deferred : Bool} {t : T} {σ σ' : Tasks T Cpu} {args : Args} {clock : Clock}

theorem timespecToKtime_nsToTimespec {ns : ℤ} (h₀ : 0 ≤ ns) (hmax : ns ≤ 9223372036854775807) :
    ns ≤ timespecToKtime (nsToTimespec ns) := by
  rw [timespecToKtime]
  split_ifs
  · exact hmax
  · exact (nsToTimespec_normal h₀ hmax).2.ge

omit [DecidableEq T] [DecidableEq Cpu] [Setup T] in
theorem clockGettime_normal (h₀ : 0 ≤ σ.kernel.now) (hmax : σ.kernel.now ≤ ktimeMax) :
    (clockGettime σ).Normal ∧ (clockGettime σ).ns = σ.kernel.now := nsToTimespec_normal h₀ hmax

/-- Time goes on. -/
theorem good_of_reachable (hgood : Good σ) (h : Reachable (advance deferred) σ σ') :
    Good σ' ∧ σ.kernel.now ≤ σ'.kernel.now := by
  refine h.invariant (I := fun σ' => Good σ' ∧ σ.kernel.now ≤ σ'.kernel.now)
    ⟨hgood, le_rfl⟩ fun hI _ hs => ?_
  exact ⟨hI.1.advance hs, hI.2.trans (Hrtimer.now_le_advance hI.1 hs)⟩

/-! ### The promises -/

/-- A trial leads to a later state. -/
theorem KernelTrial.reachable {request : Timespec} {calls : ClockCalls}
    (h : KernelTrial deferred t request σ σ' calls) : Reachable (advance deferred) σ σ' := by
  cases h with
  | completed hstart hentry hcall hsleep hsl hpoint hfinish =>
    exact hstart.trans (hentry.trans (.head ⟨_, trivial, hcall⟩ (hsleep.reachable.trans hfinish)))
  | interrupted hstart hsleep hret => exact hstart.trans hsleep

/-- **The kernel keeps its promises** about one trial. -/
theorem KernelTrial.monotonic {ns : ℤ} {calls : ClockCalls}
    (h : KernelTrial deferred t (nsToTimespec ns) σ σ' calls) (hgood : Good σ)
    (hnow : 0 ≤ σ.kernel.now) (hend : σ'.kernel.now < ktimeMax)
    (ht : (Setup.index t).isMonotonic = true) (hns : 0 ≤ ns) (hmax : ns ≤ 9223372036854775807) :
    calls.Monotonic (nsToTimespec ns) := by
  cases h with
  | completed hstart hentry hcall hsleep hsl hpoint hfinish =>
    rename_i σ₁ σ₂ σ₃ σ₄ c slack sl
    obtain ⟨hgood₁, hle₁⟩ := good_of_reachable hgood hstart
    obtain ⟨hgood₂, hle₂⟩ := good_of_reachable hgood₁ hentry
    obtain ⟨hgood₃, hle₃⟩ : Good σ₃ ∧ σ₂.kernel.now ≤ σ₃.kernel.now :=
      ⟨hgood₂.advance hcall, Hrtimer.now_le_advance hgood₂ hcall⟩
    obtain ⟨hgood₄, hle₄⟩ := good_of_reachable hgood₃ hsleep.reachable
    obtain ⟨-, hle₅⟩ := good_of_reachable hgood₄ hfinish
    have hnow₁ : 0 ≤ σ₁.kernel.now := hnow.trans hle₁
    have hnow₃ : 0 ≤ σ₃.kernel.now := hnow₁.trans (hle₂.trans hle₃)
    have hnow₅ : 0 ≤ σ'.kernel.now := hnow₃.trans (hle₄.trans hle₅)
    have hend₁ : σ₁.kernel.now ≤ ktimeMax :=
      (hle₂.trans (hle₃.trans (hle₄.trans hle₅))).trans hend.le
    obtain ⟨sl', hsl', huntil⟩ :=
      (Hrtimer.sleepsUntil_nanosleep hgood₂ hcall).run hgood₃ hnow₃ ht hsleep
    obtain rfl : sl = sl' := Option.some.inj (hsl.symm.trans hsl')
    have hslept : min (timespecToKtime (nsToTimespec ns) + σ₂.kernel.now) ktimeMax ≤
        σ₄.kernel.now := huntil.returned hpoint
    -- the end of the clock has not come
    have hlong : timespecToKtime (nsToTimespec ns) + σ₂.kernel.now ≤ σ₄.kernel.now :=
      (min_le_iff.mp hslept).resolve_right (not_le.mpr (hle₅.trans_lt hend))
    refine ⟨fun start hs => ?_, fun _ _ finish hf => ?_, fun _ start hs finish hf => ?_⟩
    · obtain rfl := Option.some.inj hs
      exact (clockGettime_normal hnow₁ hend₁).1
    · obtain rfl := Option.some.inj hf
      exact (clockGettime_normal hnow₅ hend.le).1
    · obtain rfl := Option.some.inj hs
      obtain rfl := Option.some.inj hf
      rw [(clockGettime_normal hnow₁ hend₁).2, (clockGettime_normal hnow₅ hend.le).2,
        (nsToTimespec_normal hns hmax).2]
      calc σ₁.kernel.now + ns
          ≤ σ₂.kernel.now + timespecToKtime (nsToTimespec ns) :=
            Int.add_le_add hle₂ (timespecToKtime_nsToTimespec hns hmax)
        _ = timespecToKtime (nsToTimespec ns) + σ₂.kernel.now := Int.add_comm ..
        _ ≤ σ₄.kernel.now := hlong
        _ ≤ σ'.kernel.now := hle₅
  | interrupted hstart hsleep hret =>
    obtain ⟨hgood₁, hle₁⟩ := good_of_reachable hgood hstart
    obtain ⟨-, hle₂⟩ := good_of_reachable hgood₁ hsleep
    refine ⟨fun start hs => ?_, fun _ h => absurd h hret, fun h => absurd h hret⟩
    obtain rfl := Option.some.inj hs
    exact (clockGettime_normal (hnow.trans hle₁) (hle₂.trans hend.le)).1

/-- A benchmark on the kernel has the clock that it needs. -/
theorem OnKernel.kernelClock {boot : Tasks T Cpu} (h : OnKernel deferred t boot args clock)
    (hgood : Good boot) (hboot : 0 ≤ boot.kernel.now) (ht : (Setup.index t).isMonotonic = true) :
    KernelClock args clock := by
  obtain ⟨σ, hfirst, htrials⟩ := h
  have hreached (i : ℕ) (hi : i ≤ args.trials) : Good (σ i) ∧ 0 ≤ (σ i).kernel.now := by
    induction i with
    | zero =>
      obtain ⟨hgood₀, hle⟩ := good_of_reachable hgood hfirst
      exact ⟨hgood₀, hboot.trans hle⟩
    | succ i ih =>
      obtain ⟨hgoodᵢ, hnow⟩ := ih (by omega)
      obtain ⟨hgood', hle⟩ := good_of_reachable hgoodᵢ (htrials i (by omega)).1.reachable
      exact ⟨hgood', hnow.trans hle⟩
  intro i hi hle
  obtain ⟨k, rfl⟩ : ∃ k : ℕ, i = k + 1 := ⟨(i - 1).toNat, by omega⟩
  obtain ⟨htrial, hend⟩ := htrials k (by omega)
  obtain ⟨hgoodₖ, hnow⟩ := hreached k (by omega)
  exact htrial.monotonic hgoodₖ hnow hend ht args.requestedNs_pos.le args.requestedNs_le

/-! ### The main result -/

/-- **No measured error is negative** on this kernel, and no trial overflows: the measurement of a
benchmark whose calls are done by the kernel. -/
theorem benchmark_on_kernel {now : Ktime} {cpuOf : T → Cpu} (hboot : 0 ≤ now)
    (h : OnKernel deferred t (noSleepers now cpuOf) args clock)
    (ht : (Setup.index t).isMonotonic = true) :
    (∀ i, 1 ≤ i → i ≤ args.trials → trial args clock i ≠ .overflow) ∧
      ∀ n e, some e ∈ (stateAt args clock n).errors → args.ErrorRange e := by
  have hclock := h.kernelClock (Hrtimer.good_noSleepers now cpuOf) hboot ht
  exact ⟨fun i hi hle => hclock.trial_ne_overflow hi hle, fun n e he => hclock.errorRange he⟩

/-- Two trials of 100 ns. -/
def twice : Args := ⟨100, 2, by decide, by decide, by decide, by decide⟩

/-- The interrupts come 20 ns and 10 ns late, and the task runs on a little later. -/
def twiceClock : Clock := fun i _ =>
  if i = 1 then ⟨some ⟨0, 40⟩, 0, some ⟨0, 165⟩⟩ else ⟨some ⟨0, 200⟩, 0, some ⟨0, 317⟩⟩

/-- From the start of a sleep to its end, on CPU `false`. -/
def sleepOn (d : ℕ) : List (Hrtimer.Move Hrtimer.Pair Bool) :=
  [.sleeper .left .setState, .start false .left true false, .sleeper .left .check,
    .sleeper .left .schedule, .kernel (.pass d), .kernel (.interrupt false),
    .kernel (.expire .hardirq false), .sleeper .left .clear, .sleeper .left .wakeUp,
    .callbackReturn .hardirq false, .kernel (.expire .hardirq false),
    .kernel (.expire .hardirq false), .sleeper .left .resume, .cancel true .left,
    .sleeper .left (.again false)]

/-- A signal ends the first sleep, which is restarted. -/
theorem onKernel_twice :
    OnKernel false Hrtimer.Pair.left (noSleepers 0 Hrtimer.Pair.cpu) twice twiceClock := by
  let boot : Tasks Hrtimer.Pair Bool := noSleepers 0 Hrtimer.Pair.cpu
  let σ₁ := (exec (advance false) (fun _ _ => True) [.kernel (.pass 40)] boot).get (by decide)
  let σ₂ := (advance false σ₁ (.nanosleep false .left 100 0 false false)).get (by decide)
  let σ₃ := (exec (advance false) (fun _ m => ¬m.leaves .left)
    ([.sleeper .left .setState, .start false .left true false, .sleeper .left .check,
      .sleeper .left .schedule, .kernel (.pass 30), .sleeper .left (.signal true),
      .sleeper .left .poke, .sleeper .left .resume, .cancel false .left,
      .sleeper .left (.again false), .restart false .left, .sleeper .left (.signal false)] ++
      sleepOn 90) σ₂).get (by decide)
  let σ₄ := (exec (advance false) (fun _ _ => True) [.kernel (.pass 5)] σ₃).get (by decide)
  let σ₅ := (exec (advance false) (fun _ _ => True)
    [.leave .left, .kernel (.pass 35)] σ₄).get (by decide)
  let σ₆ := (advance false σ₅ (.nanosleep false .left 100 0 false false)).get (by decide)
  let σ₇ := (exec (advance false) (fun _ m => ¬m.leaves .left) (sleepOn 110) σ₆).get (by decide)
  let σ₈ := (exec (advance false) (fun _ _ => True) [.kernel (.pass 7)] σ₇).get (by decide)
  have hstart₁ : Reachable (advance false) boot σ₁ := run_of_exec (Option.some_get _).symm
  have hcall₁ : advance false σ₁ (.nanosleep false .left 100 0 false false) = some σ₂ :=
    (Option.some_get _).symm
  have hsleep₁ : Run (advance false) (fun _ m => ¬m.leaves .left) σ₂ σ₃ :=
    run_of_exec (Option.some_get _).symm
  have hfinish₁ : Reachable (advance false) σ₃ σ₄ := run_of_exec (Option.some_get _).symm
  have hstart₂ : Reachable (advance false) σ₄ σ₅ := run_of_exec (Option.some_get _).symm
  have hcall₂ : advance false σ₅ (.nanosleep false .left 100 0 false false) = some σ₆ :=
    (Option.some_get _).symm
  have hsleep₂ : Run (advance false) (fun _ m => ¬m.leaves .left) σ₆ σ₇ :=
    run_of_exec (Option.some_get _).symm
  have hfinish₂ : Reachable (advance false) σ₇ σ₈ := run_of_exec (Option.some_get _).symm
  have hreturned₁ : (σ₃.sleeper .left).map Sleeper.point = some (.returned 0) := by decide
  have hreturned₂ : (σ₇.sleeper .left).map Sleeper.point = some (.returned 0) := by decide
  have hnow : σ₁.kernel.now = 40 ∧ σ₄.kernel.now = 165 ∧ σ₅.kernel.now = 200 ∧
      σ₈.kernel.now = 317 := by decide
  clear_value σ₈ σ₇ σ₆ σ₅ σ₄ σ₃ σ₂ σ₁
  obtain ⟨sl₁, hsl₁, hpoint₁⟩ := Option.map_eq_some_iff.mp hreturned₁
  obtain ⟨sl₂, hsl₂, hpoint₂⟩ := Option.map_eq_some_iff.mp hreturned₂
  have hrequest : timespecToKtime (nsToTimespec 100) = 100 := by decide
  rw [← hrequest] at hcall₁ hcall₂
  have htrial₁ := KernelTrial.completed hstart₁ .refl hcall₁ hsleep₁ hsl₁ hpoint₁ hfinish₁
  have htrial₂ := KernelTrial.completed hstart₂ .refl hcall₂ hsleep₂ hsl₂ hpoint₂ hfinish₂
  rw [clockGettime, clockGettime, hnow.1, hnow.2.1] at htrial₁
  rw [clockGettime, clockGettime, hnow.2.2.1, hnow.2.2.2] at htrial₂
  refine ⟨fun i => if i = 0 then boot else if i = 1 then σ₄ else σ₈, .refl, fun i hi => ?_⟩
  have hi : (i : ℤ) < 2 := hi
  obtain rfl | rfl : i = 0 ∨ i = 1 := by omega
  · exact ⟨htrial₁, lt_of_eq_of_lt hnow.2.1 (by decide)⟩
  · exact ⟨htrial₂, lt_of_eq_of_lt hnow.2.2.2 (by decide)⟩

theorem benchmark_on_kernel_twice :
    trial twice twiceClock 1 = .completed ⟨125, 25⟩ ∧
      trial twice twiceClock 2 = .completed ⟨117, 17⟩ ∧
      (∀ i, 1 ≤ i → i ≤ twice.trials → trial twice twiceClock i ≠ .overflow) ∧
      ∀ n e, some e ∈ (stateAt twice twiceClock n).errors → twice.ErrorRange e := by
  obtain ⟨htrial, herrors⟩ := benchmark_on_kernel le_rfl onKernel_twice rfl
  exact ⟨rfl, rfl, htrial, herrors⟩

end TimerBenchmark

end HrtimerStudy
