import HrtimerStudy.Hrtimer.Base
import HrtimerStudy.Lib.Transition

/-!
# The timers of all CPUs

`hrtimer.c` as a machine. Every step is what one CPU does between taking a lock and dropping it,
or a part of that during which it keeps the lock; others wait for the lock meanwhile. A CPU holds
the lock of its own base while it expires timers, except that it drops it for each callback. A
timer that moves from one base to another is on no base in between, and everybody else waits for
it.

What the source does without a lock is no step here. `hrtimer_try_to_cancel` begins where it has
the lock of the timer's base; the check before that, `hrtimer_active`, reads the timer and its base
without a lock and under a sequence count, and is left to the callers. The `hrtimerActive` of one
state, which is here for conditions, says what it would find if nothing else happened meanwhile.

A callback is any sequence of other steps, and so is the code of a task. The clocks go on, and
are set, at any moment. `hrtimer_cancel` is `hrtimer_try_to_cancel` until the result is not
negative. `timers_migration_enabled`, `tick_nohz_tick_stopped` and their like are a choice of the
step, as is the target of `get_nohz_timer_target`.

## Main definitions

* `State`, `Action`, `Outcome` — the machine
* `hrtimerStart`, `finishStart` — `hrtimer_start_range_ns` and its `_user` variant
* `hrtimerActive`, `hrtimerTryToCancel`, `hrtimerSetup` — cancelling and setting up
* `hrtimerInterrupt`, `hrtimerRunSoftirq`, `expire`, `callbackReturn` — expiring
* `updateNeedsIpi`, `retriggerNextEvent` — after a clock was set
* `perform`, `step` — all of them
-/

namespace HrtimerStudy

namespace Hrtimer

open Setup (index isLazy)

/-! ### States -/

/-- Where timers expire. -/
inductive Context
  | hardirq
  | softirq
  deriving DecidableEq

def BaseType.context (i : BaseType) : Context := if i.isSoft then .softirq else .hardirq

/-- `HRTIMER_ACTIVE_HARD` and `HRTIMER_ACTIVE_SOFT`. -/
def Context.bases : Context → List BaseType
  | .hardirq => hardBases
  | .softirq => softBases

/-- The variables of `hrtimer_interrupt` or `hrtimer_run_softirq` and of `__hrtimer_run_queues`. -/
structure Frame (T : Type*) where
  now : Ktime
  entryTime : Ktime
  retries : ℕ
  /-- the bases that are left, the current one first -/
  todo : List BaseType
  basenow : Ktime
  /-- the timer whose callback runs; the lock is dropped meanwhile -/
  callback : Option T

/-- The variables of `__hrtimer_start_range_ns` while its timer is on no base. -/
structure Start (T Cpu : Type*) where
  timer : T
  wasFirst : Bool
  user : Bool
  target : Cpu

structure State (T Cpu : Type*) where
  /-- `ktime_get()` -/
  now : Ktime
  clock : Offsets
  timers : T → Timer Cpu
  cpuBase : Cpu → CpuBase T
  frame : Context → Cpu → Option (Frame T)
  starting : Cpu → Option (Start T Cpu)
  /-- a call of `retrigger_next_event` that is on its way -/
  ipi : Cpu → Bool

/-- What a step does for its caller. -/
inductive Outcome (T : Type*)
  | quiet
  /-- the result of `hrtimer_start_range_ns_user` -/
  | started (ret : Bool)
  /-- the result of `hrtimer_try_to_cancel` -/
  | tried (ret : ℤ)
  /-- the result of `hrtimer_forward` -/
  | forwarded (orun : ℤ)
  /-- the callback of a timer is called -/
  | expired (t : T)
  /-- `hrtimer_interrupt` returns -/
  | interrupted
  deriving DecidableEq

namespace State

variable {T Cpu : Type*} [DecidableEq Cpu] (s : State T Cpu)

/-- What the lock of a CPU base protects. -/
def view (c : Cpu) : Locked T Cpu := ⟨s.timers, s.cpuBase c⟩

def put (c : Cpu) (v : Locked T Cpu) : State T Cpu :=
  { s with timers := v.timers, cpuBase := Function.update s.cpuBase c v.cpuBase }

def setFrame (ctx : Context) (c : Cpu) (f : Option (Frame T)) : State T Cpu :=
  { s with frame := Function.update s.frame ctx (Function.update (s.frame ctx) c f) }

def setStarting (c : Cpu) (start : Option (Start T Cpu)) : State T Cpu :=
  { s with starting := Function.update s.starting c start }

def setIpi (c : Cpu) (ipi : Bool) : State T Cpu :=
  { s with ipi := Function.update s.ipi c ipi }

/-- The CPU is not expiring timers in this context, or it is in a callback. -/
def paused (ctx : Context) (c : Cpu) : Bool := (s.frame ctx c).all fun f => f.callback.isSome

/-- The lock of the CPU base is free. -/
def unlocked (c : Cpu) : Bool := s.paused .hardirq c && s.paused .softirq c

/-- The CPU is at liberty: it neither holds its lock nor is it about to finish a start. -/
def free (c : Cpu) : Bool := s.unlocked c && (s.starting c).isNone

/-- The CPU can take an interrupt. -/
def interruptible (c : Cpu) : Bool := s.free c && (s.frame .hardirq c).isNone

variable {c c' : Cpu} {ctx ctx' : Context}

@[simp] theorem cpuBase_put_self (v : Locked T Cpu) : (s.put c v).cpuBase c = v.cpuBase :=
  Function.update_self ..

theorem cpuBase_put_of_ne (v : Locked T Cpu) (h : c' ≠ c) :
    (s.put c v).cpuBase c' = s.cpuBase c' := Function.update_of_ne h ..

@[simp] theorem view_put_self (v : Locked T Cpu) : (s.put c v).view c = v := by
  rw [view, cpuBase_put_self]
  rfl

@[simp] theorem put_put (v v' : Locked T Cpu) : (s.put c v).put c v' = s.put c v' := by
  simp only [put, Function.update_idem]

theorem view_put_of_ne (v : Locked T Cpu) (h : c' ≠ c) :
    (s.put c v).view c' = ⟨v.timers, s.cpuBase c'⟩ := by
  rw [view, cpuBase_put_of_ne s v h]
  rfl

@[simp] theorem frame_setFrame_self (f : Option (Frame T)) :
    (s.setFrame ctx c f).frame ctx c = f := by
  show Function.update s.frame ctx (Function.update (s.frame ctx) c f) ctx c = f
  rw [Function.update_self, Function.update_self]

theorem frame_setFrame_of_ne (f : Option (Frame T)) (h : ctx' ≠ ctx ∨ c' ≠ c) :
    (s.setFrame ctx c f).frame ctx' c' = s.frame ctx' c' := by
  show Function.update s.frame ctx (Function.update (s.frame ctx) c f) ctx' c' = _
  rcases eq_or_ne ctx' ctx with rfl | hctx
  · rw [Function.update_self, Function.update_of_ne (h.resolve_left fun hne => hne rfl)]
  · rw [Function.update_of_ne hctx]

/-- A frame is the new one or an old one. -/
theorem of_frame_setFrame {f : Option (Frame T)} {f' : Frame T}
    (h : (s.setFrame ctx c f).frame ctx' c' = some f') :
    (ctx' = ctx ∧ c' = c ∧ f = some f') ∨ s.frame ctx' c' = some f' := by
  by_cases hne : ctx' = ctx ∧ c' = c
  · obtain ⟨rfl, rfl⟩ := hne
    rw [frame_setFrame_self] at h
    exact Or.inl ⟨rfl, rfl, h⟩
  · rw [frame_setFrame_of_ne _ _ (not_and_or.mp hne)] at h
    exact Or.inr h

@[simp] theorem starting_setStarting_self (start : Option (Start T Cpu)) :
    (s.setStarting c start).starting c = start := Function.update_self ..

theorem starting_setStarting_of_ne (start : Option (Start T Cpu)) (h : c' ≠ c) :
    (s.setStarting c start).starting c' = s.starting c' := Function.update_of_ne h ..

end State

variable {T Cpu : Type*} [DecidableEq T] [DecidableEq Cpu] [Setup T]

/-- After `hrtimers_init` and the setup of all timers, each on some CPU. -/
def start (now : Ktime) (cpuOf : T → Cpu) : State T Cpu where
  now := now
  clock := ⟨0, 0, 0, 0⟩
  timers t := ⟨0, 0, false, some (cpuOf t)⟩
  cpuBase _ :=
    { clockBase := fun _ => ⟨[], ktimeMax, 0, none⟩
      activeBases := fun _ => false
      clockWasSetSeq := 0
      expiresNext := ktimeMax
      nextTimer := none
      softirqExpiresNext := ktimeMax
      softirqNextTimer := none
      softirqActivated := false
      hangDetected := false
      maxHangTime := 0
      deferredRearm := false
      deferredNeedsUpdate := false
      deferredExpiresNext := ktimeMax
      device := ktimeMax }
  frame _ _ := none
  starting _ := none
  ipi _ := false

/-! ### Starting -/

/-- The timer gets its base, whose lock has been taken. -/
def startOn (s : State T Cpu) (c target : Cpu) (t : T) (wasFirst user : Bool) :
    State T Cpu × Outcome T :=
  let s := { s with timers := setCpu s.timers t (some target) }
  let (v, ret) := enqueueTail (s.view target) t (decide (target = c)) wasFirst user s.now
  (s.put target v, .started ret)

/-- The expiry time, which is absolute from here on. -/
def startTime (s : State T Cpu) (t : T) (time : Ktime) (rel : Bool) : Ktime :=
  if rel then ktimeAddSafe time (s.now + s.clock.of (index t)) else time

/-- `cpu_base->next_timer == timer`. -/
def isNextTimer (s : State T Cpu) (cpu : Cpu) (t : T) : Bool :=
  decide ((s.cpuBase cpu).nextTimer = some t)

/-- `timer->base->running == timer`. -/
def callbackRunning (s : State T Cpu) (cpu : Cpu) (t : T) : Bool :=
  decide (((s.cpuBase cpu).clockBase (index t)).running = some t)

/-- `hrtimer_keep_base`. What `hrtimer_prefer_local` looks at besides the timer is `prefer`; a
pinned timer has `prefer`, and the current CPU is its target. -/
def hrtimerKeepBase (s : State T Cpu) (c cpu : Cpu) (t : T) (prefer : Bool) : Bool :=
  callbackRunning s cpu t || decide (cpu = c) && (isNextTimer s cpu t || prefer)

/-- `__hrtimer_start_range_ns` when the timer keeps its base, and the rest. -/
def startKept (s : State T Cpu) (c cpu : Cpu) (t : T) (time delta : Ktime) (user : Bool) :
    State T Cpu × Outcome T :=
  let (v, ret) := requeueTail (s.view cpu) t time delta (decide (cpu = c)) (isNextTimer s cpu t)
    user s.now
  (s.put cpu v, .started ret)

/-- Otherwise: up to the call of `switch_hrtimer_base`. -/
def startRemoved (s : State T Cpu) (c cpu : Cpu) (t : T) (time delta : Ktime) : State T Cpu :=
  s.put cpu (removeAndSetExpires (s.view cpu) t time delta (decide (cpu = c)))

/-- The timer leaves its base. -/
def startMoved (s : State T Cpu) (c : Cpu) (start : Start T Cpu) : State T Cpu :=
  { s.setStarting c (some start) with timers := setCpu s.timers start.timer none }

/-- `hrtimer_start_range_ns` and `hrtimer_start_range_ns_user` on a CPU, with
`__hrtimer_start_range_ns`, as far as they get with the first lock. An elected target that is not
suitable gives way to the current CPU. -/
def hrtimerStart (s : State T Cpu) (c : Cpu) (t : T) (time delta : Ktime)
    (rel user prefer : Bool) (target : Cpu) : Option (State T Cpu × Outcome T) :=
  match (s.timers t).cpu with
  | none => none
  | some cpu =>
    let time := startTime s t time rel
    if !s.unlocked cpu then none
    else if hrtimerKeepBase s c cpu t prefer then some (startKept s c cpu t time delta user)
    else
      let wasFirst := isNextTimer s cpu t
      let s := startRemoved s c cpu t time delta
      if target ≠ cpu then some (startMoved s c ⟨t, wasFirst, user, target⟩, .quiet)
      else if cpu = c ∨ hrtimerSuitableTarget (s.view cpu) t then
        some (startOn s c cpu t wasFirst user)
      else some (startMoved s c ⟨t, wasFirst, user, c⟩, .quiet)

/-- The same, when the lock of the target is taken. The way back over the first base, in case the
target is not suitable, is left out: the timer is on no base before it and after it. -/
def finishStart (s : State T Cpu) (c : Cpu) : Option (State T Cpu × Outcome T) :=
  match s.starting c with
  | none => none
  | some start =>
    if !s.unlocked start.target then none
    else
      let s := s.setStarting c none
      if start.target = c ∨ hrtimerSuitableTarget (s.view start.target) start.timer then
        some (startOn s c start.target start.timer start.wasFirst start.user)
      else some (startMoved s c { start with target := c }, .quiet)

/-! ### Cancelling -/

/-- What `hrtimer_active` looks for, in one state. -/
def hrtimerActive (s : State T Cpu) (t : T) : Bool :=
  (s.timers t).isQueued || (s.timers t).cpu.any fun cpu => callbackRunning s cpu t

/-- `hrtimer_try_to_cancel` from `lock_hrtimer_base` on. -/
def hrtimerTryToCancel (s : State T Cpu) (c : Cpu) (t : T) : Option (State T Cpu × Outcome T) :=
  match (s.timers t).cpu with
  | none => none
  | some cpu =>
    if !s.unlocked cpu then none
    else if callbackRunning s cpu t then some (s, .tried (-1))
    else
      some (s.put cpu (rawRemoveHrtimer (s.view cpu) t false (decide (cpu = c))),
        .tried (if (s.timers t).isQueued then 1 else 0))

/-- `__hrtimer_setup`, for a timer that is not in use. -/
def hrtimerSetup (s : State T Cpu) (c : Cpu) (t : T) : Option (State T Cpu × Outcome T) :=
  if hrtimerActive s t || (s.timers t).cpu.isNone then none
  else some ({ s with timers := Function.update s.timers t ⟨0, 0, false, some c⟩ }, .quiet)

/-! ### Expiring -/

/-- Go on with some bases. -/
def Frame.enter (f : Frame T) (cpuBase : CpuBase T) (todo : List BaseType) : Frame T :=
  { f with
    todo := todo
    basenow :=
      match todo with
      | i :: _ => f.now + (cpuBase.clockBase i).offset
      | [] => f.now }

/-- The start of `__hrtimer_run_queues`. -/
def runQueues (cpuBase : CpuBase T) (ctx : Context) (now entryTime : Ktime) (retries : ℕ) :
    Frame T :=
  Frame.enter ⟨now, entryTime, retries, [], now, none⟩ cpuBase
    (ctx.bases.filter cpuBase.activeBases)

/-- `hrtimer_interrupt` from `retry` to the call of `__hrtimer_run_queues`. -/
def interruptRetry (cpuBase : CpuBase T) (now : Ktime) : CpuBase T :=
  let cpuBase := { cpuBase with deferredRearm := true, expiresNext := ktimeMax }
  if ¬now < cpuBase.softirqExpiresNext then
    { cpuBase with softirqExpiresNext := ktimeMax, softirqActivated := true }
  else cpuBase

/-- The start of `hrtimer_interrupt`. -/
def hrtimerInterrupt (s : State T Cpu) (c : Cpu) : Option (State T Cpu × Outcome T) :=
  if !s.interruptible c then none
  else
    let cpuBase := interruptRetry (hrtimerUpdateBase (s.cpuBase c) s.clock) s.now
    some ((s.put c ⟨s.timers, { cpuBase with device := ktimeMax }⟩).setFrame .hardirq c
      (some (runQueues cpuBase .hardirq s.now s.now 0)), .quiet)

/-- The start of `hrtimer_run_softirq`, which runs when it has been raised. -/
def hrtimerRunSoftirq (s : State T Cpu) (c : Cpu) : Option (State T Cpu × Outcome T) :=
  if !s.interruptible c || (s.frame .softirq c).isSome || !(s.cpuBase c).softirqActivated then none
  else
    let cpuBase := hrtimerUpdateBase (s.cpuBase c) s.clock
    some ((s.put c ⟨s.timers, cpuBase⟩).setFrame .softirq c
      (some (runQueues cpuBase .softirq s.now s.now 0)), .quiet)

/-- `hrtimer_rearm`, at most 100 ms after a hang. -/
def hrtimerRearm (cpuBase : CpuBase T) (expiresNext now : Ktime) : CpuBase T :=
  { cpuBase with
    expiresNext := expiresNext
    deferredRearm := false
    device :=
      if cpuBase.hangDetected then now + min 100000000 cpuBase.maxHangTime else expiresNext }

/-- `hrtimer_interrupt_rearm` with `CONFIG_HRTIMER_REARM_DEFERRED` or without it. -/
def hrtimerInterruptRearm (deferred : Bool) (cpuBase : CpuBase T) (expiresNext now : Ktime) :
    CpuBase T :=
  if deferred then
    { cpuBase with deferredNeedsUpdate := false, deferredExpiresNext := expiresNext }
  else hrtimerRearm cpuBase expiresNext now

/-- The next event when the timers have expired. -/
def interruptEvent (cpuBase : CpuBase T) (clock : Offsets) : Ktime × CpuBase T :=
  let (expiresNext, cpuBase) := hrtimerUpdateNextEvent (hrtimerUpdateBase cpuBase clock)
  (expiresNext, { cpuBase with hangDetected := false })

/-- `hrtimer_interrupt` gives up after too many retries. -/
def detectHang (cpuBase : CpuBase T) (now entryTime : Ktime) : CpuBase T :=
  { cpuBase with
    maxHangTime := max cpuBase.maxHangTime ((now - entryTime) % 4294967296)
    hangDetected := true }

/-- `hrtimer_interrupt` behind `__hrtimer_run_queues`. -/
def interruptEnd (deferred : Bool) (s : State T Cpu) (c : Cpu) (f : Frame T) :
    State T Cpu × Outcome T :=
  let (expiresNext, cpuBase) := interruptEvent (s.cpuBase c) s.clock
  if expiresNext < s.now ∧ f.retries + 1 < 3 then
    let cpuBase := interruptRetry cpuBase s.now
    ((s.put c ⟨s.timers, cpuBase⟩).setFrame .hardirq c
      (some (runQueues cpuBase .hardirq s.now f.entryTime (f.retries + 1))), .quiet)
  else
    let cpuBase := if expiresNext < s.now then detectHang cpuBase s.now f.entryTime else cpuBase
    ((s.put c ⟨s.timers, hrtimerInterruptRearm deferred cpuBase expiresNext s.now⟩).setFrame
      .hardirq c none, .interrupted)

/-- `hrtimer_run_softirq` behind `__hrtimer_run_queues`. -/
def softirqUpdate (v : Locked T Cpu) : CpuBase T :=
  hrtimerUpdateSoftirqTimer ⟨v.timers, { v.cpuBase with softirqActivated := false }⟩ true

def softirqEnd (s : State T Cpu) (c : Cpu) : State T Cpu × Outcome T :=
  ((s.put c ⟨s.timers, softirqUpdate (s.view c)⟩).setFrame .softirq c none, .quiet)

/-- `__run_hrtimer` up to the callback. -/
def runHrtimer (s : State T Cpu) (ctx : Context) (c : Cpu) (f : Frame T) (i : BaseType) (t : T) :
    State T Cpu × Outcome T :=
  let v : Locked T Cpu := ⟨s.timers, (s.cpuBase c).setRunning i (some t)⟩
  ((s.put c (rawRemoveHrtimer v t false false)).setFrame ctx c (some { f with callback := some t }),
    .expired t)

/-- One turn of the loops of `__hrtimer_run_queues`, or what comes behind them. -/
def expire (deferred : Bool) (s : State T Cpu) (ctx : Context) (c : Cpu) :
    Option (State T Cpu × Outcome T) :=
  match s.frame ctx c with
  | none => none
  | some f =>
    if f.callback.isSome then none
    else
      match f.todo with
      | i :: rest =>
        match ((s.cpuBase c).clockBase i).first with
        | some t =>
          if f.basenow < (s.timers t).softexpires then
            some (s.setFrame ctx c (some (f.enter (s.cpuBase c) rest)), .quiet)
          else some (runHrtimer s ctx c f i t)
        | none => some (s.setFrame ctx c (some (f.enter (s.cpuBase c) rest)), .quiet)
      | [] =>
        match ctx with
        | .hardirq => some (interruptEnd deferred s c f)
        | .softirq => some (softirqEnd s c)

/-- A timer is restarted unless it has been started meanwhile. -/
def restartHrtimer (v : Locked T Cpu) (t : T) (restart : Bool) : Locked T Cpu :=
  if restart && !(v.timers t).isQueued then (enqueueHrtimer v t).1 else v

/-- `__run_hrtimer` behind the callback. -/
def afterCallback (s : State T Cpu) (ctx : Context) (c : Cpu) (f : Frame T) (t : T)
    (restart : Bool) : State T Cpu :=
  let v := restartHrtimer (s.view c) t restart
  (s.put c ⟨v.timers, v.cpuBase.setRunning (index t) none⟩).setFrame ctx c
    (some { f with callback := none })

/-- The callback returns. In a softirq that happens when no interrupt is above it. -/
def callbackReturn (s : State T Cpu) (ctx : Context) (c : Cpu) (restart : Bool) :
    Option (State T Cpu × Outcome T) :=
  match s.frame ctx c with
  | none => none
  | some f =>
    match f.callback with
    | none => none
    | some t =>
      if !s.free c ∨ ctx = .softirq ∧ (s.frame .hardirq c).isSome then none
      else some (afterCallback s ctx c f t restart, .quiet)

/-- `__hrtimer_rearm_deferred`. -/
def hrtimerRearmDeferred (s : State T Cpu) (c : Cpu) : Option (State T Cpu × Outcome T) :=
  if !s.interruptible c then none
  else if !(s.cpuBase c).deferredRearm then some (s, .quiet)
  else if (s.cpuBase c).deferredNeedsUpdate then
    let (expiresNext, cpuBase) := hrtimerUpdateNextEvent (hrtimerUpdateBase (s.cpuBase c) s.clock)
    some (s.put c ⟨s.timers, hrtimerRearm cpuBase expiresNext s.now⟩, .quiet)
  else
    let cpuBase := s.cpuBase c
    some (s.put c ⟨s.timers, hrtimerRearm cpuBase cpuBase.deferredExpiresNext s.now⟩, .quiet)

/-! ### Setting a clock -/

/-- The walk over the clock bases in `update_needs_ipi`. -/
def basesNeedIpi (v : Locked T Cpu) (bases : BaseType → Bool) : Bool :=
  (hardBases ++ softBases).any fun i =>
    bases i && v.cpuBase.activeBases i &&
      match (v.cpuBase.clockBase i).first with
      | none => false
      | some next =>
        let expires := (v.timers next).expires - (v.cpuBase.clockBase i).offset
        decide (expires < v.cpuBase.expiresNext) ||
          i.isSoft && !v.cpuBase.softirqActivated &&
            decide (expires < v.cpuBase.softirqExpiresNext)

/-- `clock_was_set` for one CPU: `update_needs_ipi`, and the call of `retrigger_next_event` that it
asks for. `smp_call_function_many` leaves out the CPU that it runs on, the `caller`. -/
def updateNeedsIpi (s : State T Cpu) (caller c : Cpu) (bases : BaseType → Bool) :
    Option (State T Cpu × Outcome T) :=
  if !s.unlocked c then none
  else
    let seq := (s.cpuBase c).clockWasSetSeq
    let cpuBase := hrtimerUpdateBase (s.cpuBase c) s.clock
    if seq = cpuBase.clockWasSetSeq then some (s.put c ⟨s.timers, cpuBase⟩, .quiet)
    else if cpuBase.deferredRearm then
      some (s.put c ⟨s.timers, { cpuBase with deferredNeedsUpdate := true }⟩, .quiet)
    else
      let needsIpi := basesNeedIpi (⟨s.timers, cpuBase⟩ : Locked T Cpu) bases
      let ipi := s.ipi c || decide (c ≠ caller) && needsIpi
      some ((s.put c ⟨s.timers, cpuBase⟩).setIpi c ipi, .quiet)

/-- `retrigger_next_event`. -/
def retriggerNextEvent (s : State T Cpu) (c : Cpu) : Option (State T Cpu × Outcome T) :=
  if !s.interruptible c then none
  else
    let cpuBase := hrtimerForceReprogram (hrtimerUpdateBase (s.cpuBase c) s.clock) false
    some ((s.put c ⟨s.timers, cpuBase⟩).setIpi c false, .quiet)

/-! ### Steps -/

inductive Action (T Cpu : Type*)
  /-- time passes -/
  | pass (d : ℕ)
  /-- a clock other than `CLOCK_MONOTONIC` is set -/
  | setClock (real boot tai : Ktime)
  | clockWasSet (caller c : Cpu) (bases : BaseType → Bool)
  | retrigger (c : Cpu)
  | setup (c : Cpu) (t : T)
  /-- `hrtimer_set_expires_range_ns` before a start -/
  | setExpires (t : T) (time delta : Ktime)
  | forward (t : T) (now interval : Ktime)
  | start (c : Cpu) (t : T) (time delta : Ktime) (rel user prefer : Bool) (target : Cpu)
  | finishStart (c : Cpu)
  | tryToCancel (c : Cpu) (t : T)
  | interrupt (c : Cpu)
  | softirq (c : Cpu)
  | expire (ctx : Context) (c : Cpu)
  | callbackReturn (ctx : Context) (c : Cpu) (restart : Bool)
  | rearmDeferred (c : Cpu)

/-- A step and its outcome. A `ktime_t` has 64 bits. The expiry of a timer is written only while the
timer is not queued. -/
def perform (deferred : Bool) (s : State T Cpu) : Action T Cpu → Option (State T Cpu × Outcome T)
  | .pass d => some ({ s with now := s.now + d }, .quiet)
  | .setClock real boot tai =>
    some ({ s with clock := ⟨real, boot, tai, s.clock.clockWasSetSeq + 1⟩ }, .quiet)
  | .clockWasSet caller c bases => updateNeedsIpi s caller c bases
  | .retrigger c => retriggerNextEvent s c
  | .setup c t => hrtimerSetup s c t
  | .setExpires t time delta =>
    if (s.timers t).isQueued || (s.timers t).cpu.isNone then none
    else some ({ s with timers := hrtimerSetExpiresRangeNs s.timers t time delta }, .quiet)
  | .forward t now interval =>
    if (s.timers t).cpu.isNone then none
    else
      let (timer, orun) := hrtimerForward (s.timers t) now interval
      some ({ s with timers := Function.update s.timers t timer }, .forwarded orun)
  | .start c t time delta rel user prefer target =>
    if !s.free c ∨ ¬Fits64 time then none
    else hrtimerStart s c t time delta rel user prefer target
  | .finishStart c => finishStart s c
  | .tryToCancel c t => if !s.free c then none else hrtimerTryToCancel s c t
  | .interrupt c => hrtimerInterrupt s c
  | .softirq c => hrtimerRunSoftirq s c
  | .expire ctx c => expire deferred s ctx c
  | .callbackReturn ctx c restart => callbackReturn s ctx c restart
  | .rearmDeferred c => hrtimerRearmDeferred s c

def step (deferred : Bool) (s : State T Cpu) (a : Action T Cpu) : Option (State T Cpu) :=
  (perform deferred s a).map Prod.fst

/-! ### Two timers -/

/-- Two timers of `CLOCK_MONOTONIC`. -/
inductive Pair
  | left
  | right
  deriving DecidableEq

instance : Setup Pair := ⟨fun _ => .monotonic, fun _ => false⟩

/-- Each on a CPU of its own. -/
def Pair.cpu : Pair → Bool
  | .left => false
  | .right => true

/-- The state after some steps with them, if these are possible. -/
def pairAfter (run : List (Action Pair Bool)) : Option (State Pair Bool) :=
  exec (step false) (fun _ _ => True) run (start 0 Pair.cpu)

theorem reachable_pairAfter {run : List (Action Pair Bool)} (h : (pairAfter run).isSome) :
    Reachable (step false) (start 0 Pair.cpu) ((pairAfter run).get h) :=
  run_of_exec (Option.some_get h).symm

end Hrtimer

end HrtimerStudy
