import HrtimerStudy.Lib.KeyedQueue
import HrtimerStudy.Lib.SignedInt
import Mathlib.Logic.Function.Basic

/-!
# The timer bases

The data of `hrtimer.c`, and the functions that work on the timers and the base of one CPU under
the lock of that base. High resolution is active and every CPU is online. Debugging, tracing and
counters of events are left out, as is the leap second; differences of times do not wrap around.

A timer is in the queue of a clock base of a CPU, in the order of its hard expiry. Each clock base
caches the expiry of its first timer, and each CPU the time for which its clock-event device is
programmed. The device is the field `device` here.

The source counts the settings of the clocks in 32 bits, and here the count is a natural number.
That makes a difference only when a CPU base is not updated during 2^32 settings. `clock_was_set`
comes after every setting and updates the bases of all CPUs.

What comes from headers is taken as documented: `ktime_t`, `hrtimer_set_expires_range_ns`, and
`rb_add_linked`, which inserts behind the nodes of equal expiry. Two leading underscores of the
source are `raw` here.

## Main definitions

* `ktimeAddSafe` — the addition of times
* `Setup`, `Timer`, `ClockBase`, `CpuBase`, `Locked` — the data
* `enqueueHrtimer`, `rawRemoveHrtimer`, `removeAndEnqueueSameBase` — the queues
* `hrtimerUpdateNextEvent`, `hrtimerForceReprogram`, `hrtimerReprogram` — the device
* `enqueueTail`, `requeueTail` — the end of `hrtimer_start_range_ns` and its `_user` variant
* `hrtimerForward` — the next period of a timer
-/

namespace HrtimerStudy

namespace Hrtimer

/-! ### Times -/

/-- `ktime_t`, in nanoseconds. -/
abbrev Ktime := ℤ

/-- `KTIME_MAX`. -/
def ktimeMax : Ktime := 9223372036854775807

/-- `ktime_add_safe`. `ktime_set(KTIME_SEC_MAX, 0)` is `KTIME_MAX`. -/
def ktimeAddSafe (lhs rhs : Ktime) : Ktime :=
  let res := wrap64 (lhs + rhs)
  if res < 0 ∨ res < lhs ∨ res < rhs then ktimeMax else res

/-! ### Data -/

/-- `enum hrtimer_base_type`. -/
inductive BaseType
  | monotonic
  | realtime
  | boottime
  | tai
  | monotonicSoft
  | realtimeSoft
  | boottimeSoft
  | taiSoft
  deriving DecidableEq

/-- The bases of `HRTIMER_ACTIVE_HARD`, in the order of their indices. -/
def hardBases : List BaseType := [.monotonic, .realtime, .boottime, .tai]

/-- The bases of `HRTIMER_ACTIVE_SOFT`. -/
def softBases : List BaseType := [.monotonicSoft, .realtimeSoft, .boottimeSoft, .taiSoft]

/-- `base->index >= HRTIMER_BASE_MONOTONIC_SOFT`. -/
def BaseType.isSoft : BaseType → Bool
  | .monotonic | .realtime | .boottime | .tai => false
  | .monotonicSoft | .realtimeSoft | .boottimeSoft | .taiSoft => true

/-- What `hrtimer_setup` settles for a timer, once: its clock and its mode. `is_soft` is a matter of
the base. -/
class Setup (T : Type*) where
  index : T → BaseType
  isLazy : T → Bool

/-- `struct hrtimer`, without its function. -/
structure Timer (Cpu : Type*) where
  /-- the hard expiry, by which the queue is ordered -/
  expires : Ktime
  softexpires : Ktime
  isQueued : Bool
  /-- the CPU of `base`, or none for `migration_base` -/
  cpu : Option Cpu

/-- `struct hrtimer_clock_base`. -/
structure ClockBase (T : Type*) where
  active : List T
  expiresNext : Ktime
  offset : Ktime
  /-- the timer whose callback is running -/
  running : Option T

/-- `struct hrtimer_cpu_base`, and the time its device is programmed for. -/
structure CpuBase (T : Type*) where
  clockBase : BaseType → ClockBase T
  activeBases : BaseType → Bool
  clockWasSetSeq : ℕ
  expiresNext : Ktime
  nextTimer : Option T
  softirqExpiresNext : Ktime
  softirqNextTimer : Option T
  softirqActivated : Bool
  hangDetected : Bool
  maxHangTime : Ktime
  deferredRearm : Bool
  deferredNeedsUpdate : Bool
  deferredExpiresNext : Ktime
  device : Ktime

/-- What the timekeeping code hands to `ktime_get_update_offsets_now`. -/
structure Offsets where
  real : Ktime
  boot : Ktime
  tai : Ktime
  clockWasSetSeq : ℕ

/-- What the lock of a CPU base protects: the base and the timers that are tied to it. -/
structure Locked (T Cpu : Type*) where
  timers : T → Timer Cpu
  cpuBase : CpuBase T

variable {T Cpu : Type*}

/-- `timerqueue_linked_first`. -/
def ClockBase.first (base : ClockBase T) : Option T := base.active.head?

/-- Write one of the clock bases. -/
def CpuBase.setBase (cpuBase : CpuBase T) (i : BaseType) (base : ClockBase T) : CpuBase T :=
  { cpuBase with clockBase := Function.update cpuBase.clockBase i base }

/-- Write `base->running`. -/
def CpuBase.setRunning (cpuBase : CpuBase T) (i : BaseType) (running : Option T) : CpuBase T :=
  cpuBase.setBase i { cpuBase.clockBase i with running := running }

/-- Write a bit of `active_bases`. -/
def CpuBase.setActive (cpuBase : CpuBase T) (i : BaseType) (bit : Bool) : CpuBase T :=
  { cpuBase with activeBases := Function.update cpuBase.activeBases i bit }

/-- Clear a bit of `active_bases` when that queue has become empty. -/
def CpuBase.clearIfEmpty (cpuBase : CpuBase T) (i : BaseType) (active : List T) : CpuBase T :=
  if active.isEmpty then cpuBase.setActive i false else cpuBase

/-- The offset of a clock from `CLOCK_MONOTONIC`. -/
def Offsets.of (clock : Offsets) : BaseType → Ktime
  | .monotonic | .monotonicSoft => 0
  | .realtime | .realtimeSoft => clock.real
  | .boottime | .boottimeSoft => clock.boot
  | .tai | .taiSoft => clock.tai

/-- `hrtimer_update_base`. The offset of the monotonic bases is 0 from the start. -/
def hrtimerUpdateBase (cpuBase : CpuBase T) (clock : Offsets) : CpuBase T :=
  if cpuBase.clockWasSetSeq = clock.clockWasSetSeq then cpuBase
  else
    { cpuBase with
      clockWasSetSeq := clock.clockWasSetSeq
      clockBase := fun i => { cpuBase.clockBase i with offset := clock.of i } }

/-! ### The next event -/

/-- `hrtimer_bases_first`, over the active ones among some bases. -/
def hrtimerBasesFirst (cpuBase : CpuBase T) (bases : List BaseType)
    (first : Ktime × Option T) : Ktime × Option T :=
  (bases.filter cpuBase.activeBases).foldl
    (fun (first : Ktime × Option T) i =>
      let base := cpuBase.clockBase i
      let expires := base.expiresNext - base.offset
      if expires < first.1 then (expires, base.first) else first)
    first

/-- `__hrtimer_get_next_event` with `HRTIMER_ACTIVE_SOFT`. -/
def rawHrtimerGetNextEventSoft (cpuBase : CpuBase T) : Ktime × CpuBase T :=
  if cpuBase.softirqActivated then (max ktimeMax 0, cpuBase)
  else
    let first := hrtimerBasesFirst cpuBase softBases (ktimeMax, none)
    (max first.1 0, { cpuBase with softirqNextTimer := first.2 })

/-- `__hrtimer_get_next_event` with `HRTIMER_ACTIVE_HARD`. -/
def rawHrtimerGetNextEventHard (cpuBase : CpuBase T) : Ktime × CpuBase T :=
  let first := hrtimerBasesFirst cpuBase hardBases (ktimeMax, none)
  (max first.1 0, { cpuBase with nextTimer := first.2 })

/-- `hrtimer_update_next_event`. -/
def hrtimerUpdateNextEvent (cpuBase : CpuBase T) : Ktime × CpuBase T :=
  let (soft, cpuBase) :=
    if cpuBase.softirqActivated then (ktimeMax, cpuBase)
    else
      let (soft, cpuBase) := rawHrtimerGetNextEventSoft cpuBase
      (soft, { cpuBase with softirqExpiresNext := soft })
  let (expiresNext, cpuBase) := rawHrtimerGetNextEventHard cpuBase
  if expiresNext > soft then (soft, { cpuBase with nextTimer := cpuBase.softirqNextTimer })
  else (expiresNext, cpuBase)

/-! ### The device -/

/-- `__hrtimer_reprogram`. After a hang the device is left alone. -/
def rawHrtimerReprogram (cpuBase : CpuBase T) (expiresNext : Ktime) : CpuBase T :=
  { cpuBase with
    expiresNext := expiresNext
    device := if cpuBase.hangDetected then cpuBase.device else expiresNext }

/-- `hrtimer_force_reprogram`. -/
def hrtimerForceReprogram (cpuBase : CpuBase T) (skipEqual : Bool) : CpuBase T :=
  let (expiresNext, cpuBase) := hrtimerUpdateNextEvent cpuBase
  if skipEqual && decide (expiresNext = cpuBase.expiresNext) then cpuBase
  else rawHrtimerReprogram cpuBase expiresNext

/-- The end of `hrtimer_reprogram`, for a timer on the current CPU or on another one. -/
def reprogramLocal (cpuBase : CpuBase T) (t : T) (expires : Ktime) (isLocal : Bool) : CpuBase T :=
  if !isLocal then cpuBase
  else if expires ≥ cpuBase.expiresNext then cpuBase
  else if cpuBase.deferredRearm then cpuBase
  else rawHrtimerReprogram { cpuBase with nextTimer := some t } expires

section Timers

variable [Setup T]

open Setup (index isLazy)

/-- `hrtimer_reprogram`. -/
def hrtimerReprogram (v : Locked T Cpu) (t : T) (isLocal reprogram : Bool) : CpuBase T :=
  let expires := max ((v.timers t).expires - (v.cpuBase.clockBase (index t)).offset) 0
  if (index t).isSoft then
    if v.cpuBase.softirqActivated then v.cpuBase
    else if ¬expires < v.cpuBase.softirqExpiresNext then v.cpuBase
    else
      let cpuBase := { v.cpuBase with softirqNextTimer := some t, softirqExpiresNext := expires }
      if ¬expires < cpuBase.expiresNext ∨ !reprogram then cpuBase
      else reprogramLocal cpuBase t expires isLocal
  else reprogramLocal v.cpuBase t expires isLocal

/-- `hrtimer_update_softirq_timer`. There is a next timer unless the next event is `KTIME_MAX`. -/
def hrtimerUpdateSoftirqTimer (v : Locked T Cpu) (reprogram : Bool) : CpuBase T :=
  let (expires, cpuBase) := rawHrtimerGetNextEventSoft v.cpuBase
  if expires = ktimeMax then cpuBase
  else
    match cpuBase.softirqNextTimer with
    | some next => hrtimerReprogram ⟨v.timers, cpuBase⟩ next true reprogram
    | none => cpuBase

/-! ### The queues -/

variable [DecidableEq T]

/-- `hrtimer_set_expires_range_ns`. -/
def hrtimerSetExpiresRangeNs (timers : T → Timer Cpu) (t : T) (time delta : Ktime) :
    T → Timer Cpu :=
  Function.update timers t
    { timers t with softexpires := time, expires := ktimeAddSafe time delta }

/-- Write `is_queued`. -/
def setQueued (timers : T → Timer Cpu) (t : T) (isQueued : Bool) : T → Timer Cpu :=
  Function.update timers t { timers t with isQueued := isQueued }

/-- Write `base`. -/
def setCpu (timers : T → Timer Cpu) (t : T) (cpu : Option Cpu) : T → Timer Cpu :=
  Function.update timers t { timers t with cpu := cpu }

/-- `timerqueue_linked_add`. -/
def timerqueueLinkedAdd (timers : T → Timer Cpu) (active : List T) (t : T) : List T :=
  insertBehind (fun a => (timers a).expires) t active

/-- `base_update_next_timer`. -/
def baseUpdateNextTimer (timers : T → Timer Cpu) (base : ClockBase T) : ClockBase T :=
  { base with
    expiresNext :=
      match base.first with
      | some next => (timers next).expires
      | none => ktimeMax }

/-- `enqueue_hrtimer`, and whether the timer is the first one now. -/
def enqueueHrtimer (v : Locked T Cpu) (t : T) : Locked T Cpu × Bool :=
  let timers := setQueued v.timers t true
  let base := v.cpuBase.clockBase (index t)
  let active := timerqueueLinkedAdd timers base.active t
  let first := decide (active.head? = some t)
  let expiresNext := if first then (timers t).expires else base.expiresNext
  (⟨timers, (v.cpuBase.setActive (index t) true).setBase (index t)
    { base with active := active, expiresNext := expiresNext }⟩, first)

/-- `__remove_hrtimer` up to `base_update_next_timer`, and whether the timer was the first one. -/
def unlinkHrtimer (v : Locked T Cpu) (t : T) (newstate : Bool) : Locked T Cpu × Bool :=
  let timers := setQueued v.timers t newstate
  let base := v.cpuBase.clockBase (index t)
  let wasFirst := decide (prevOf base.active t = none)
  let active := base.active.erase t
  let base := { base with active := active }
  (⟨timers, (v.cpuBase.clearIfEmpty (index t) active).setBase (index t)
    (if wasFirst then baseUpdateNextTimer timers base else base)⟩, wasFirst)

/-- The rest of `__remove_hrtimer`. -/
def removeReprogram (cpuBase : CpuBase T) (t : T) (reprogram : Bool) : CpuBase T :=
  if !reprogram || decide (cpuBase.nextTimer ≠ some t) || isLazy t then cpuBase
  else if cpuBase.deferredRearm then { cpuBase with deferredNeedsUpdate := true }
  else hrtimerForceReprogram cpuBase true

/-- `__remove_hrtimer`. -/
def rawRemoveHrtimer (v : Locked T Cpu) (t : T) (newstate reprogram : Bool) : Locked T Cpu :=
  if !(v.timers t).isQueued then v
  else
    let (v, wasFirst) := unlinkHrtimer v t newstate
    ⟨v.timers, if wasFirst then removeReprogram v.cpuBase t reprogram else v.cpuBase⟩

/-- `hrtimer_can_update_in_place`. -/
def hrtimerCanUpdateInPlace (timers : T → Timer Cpu) (active : List T) (t : T)
    (expires : Ktime) : Bool :=
  if (nextOf active t).any fun next => decide (expires > (timers next).expires) then false
  else
    match prevOf active t with
    | none => true
    | some prev => decide (expires ≥ (timers prev).expires)

/-- The branch of `remove_and_enqueue_same_base` that updates in place. -/
def updateInPlace (v : Locked T Cpu) (t : T) (expires delta : Ktime) : Locked T Cpu × Bool :=
  let base := v.cpuBase.clockBase (index t)
  let wasFirst := decide (prevOf base.active t = none)
  (⟨hrtimerSetExpiresRangeNs v.timers t expires delta, v.cpuBase.setBase (index t)
    (if wasFirst then { base with expiresNext := expires } else base)⟩, wasFirst)

/-- The other branch. -/
def requeue (v : Locked T Cpu) (t : T) (expires delta : Ktime) : Locked T Cpu × Bool :=
  let base := v.cpuBase.clockBase (index t)
  let wasFirst := (v.timers t).isQueued && decide (prevOf base.active t = none)
  let active := if (v.timers t).isQueued then base.active.erase t else base.active
  let timers := setQueued (hrtimerSetExpiresRangeNs v.timers t expires delta) t true
  let active := timerqueueLinkedAdd timers active t
  let first := decide (active.head? = some t)
  let base := { base with active := active }
  (⟨timers, (v.cpuBase.setActive (index t) true).setBase (index t)
    (if first then { base with expiresNext := expires }
      else if wasFirst then baseUpdateNextTimer timers base else base)⟩, first)

/-- `remove_and_enqueue_same_base`, and whether the timer is the first one now. -/
def removeAndEnqueueSameBase (v : Locked T Cpu) (t : T) (expires delta : Ktime) :
    Locked T Cpu × Bool :=
  let active := (v.cpuBase.clockBase (index t)).active
  if (v.timers t).isQueued && hrtimerCanUpdateInPlace v.timers active t expires then
    updateInPlace v t expires delta
  else requeue v t expires delta

/-! ### Starting -/

/-- The expiry test of `hrtimer_suitable_target`, for a target other than the current CPU. -/
def hrtimerSuitableTarget (v : Locked T Cpu) (t : T) : Bool :=
  decide ((v.timers t).expires - (v.cpuBase.clockBase (index t)).offset ≥ v.cpuBase.expiresNext)

/-- `hrtimer_check_user_timer`, and whether the timer stays. -/
def hrtimerCheckUserTimer (v : Locked T Cpu) (t : T) (now : Ktime) : Locked T Cpu × Bool :=
  let expires := (v.timers t).softexpires - (v.cpuBase.clockBase (index t)).offset
  if expires ≥ v.cpuBase.expiresNext then (v, true)
  else if expires > now then (v, true)
  else (rawRemoveHrtimer v t false false, false)

/-- The check that only `hrtimer_start_range_ns_user` makes. -/
def checkIfUser (v : Locked T Cpu) (t : T) (user : Bool) (now : Ktime) : Locked T Cpu × Bool :=
  if user then hrtimerCheckUserTimer v t now else (v, true)

/-- The end of `hrtimer_start_range_ns`, or of `hrtimer_start_range_ns_user`, when the timer is in
its queue, and the result of the latter. -/
def startTail (v : Locked T Cpu) (t : T) (isLocal first wasFirst user : Bool) (now : Ktime) :
    Locked T Cpu × Bool :=
  if v.cpuBase.deferredRearm then
    (⟨v.timers, { v.cpuBase with deferredNeedsUpdate := true }⟩, true)
  else if !wasFirst || !isLocal then
    if !first then (v, true)
    else
      let (v, ret) := checkIfUser v t user now
      (⟨v.timers, if ret then hrtimerReprogram v t isLocal true else v.cpuBase⟩, ret)
  else if isLazy t && decide (v.cpuBase.expiresNext ≤ (v.timers t).expires) then (v, true)
  else
    let (v, ret) := checkIfUser v t user now
    (⟨v.timers, hrtimerForceReprogram v.cpuBase true⟩, ret)

/-- `__hrtimer_start_range_ns` from `remove_hrtimer` to `switch_hrtimer_base`. -/
def removeAndSetExpires (v : Locked T Cpu) (t : T) (time delta : Ktime) (isLocal : Bool) :
    Locked T Cpu :=
  let v := rawRemoveHrtimer v t true isLocal
  ⟨hrtimerSetExpiresRangeNs v.timers t time delta, v.cpuBase⟩

/-- `__hrtimer_start_range_ns` from `enqueue_hrtimer` on, and the rest. -/
def enqueueTail (v : Locked T Cpu) (t : T) (isLocal wasFirst user : Bool) (now : Ktime) :
    Locked T Cpu × Bool :=
  let (v, first) := enqueueHrtimer v t
  startTail v t isLocal first wasFirst user now

/-- `__hrtimer_start_range_ns` from `remove_and_enqueue_same_base` on, and the rest. -/
def requeueTail (v : Locked T Cpu) (t : T) (expires delta : Ktime) (isLocal wasFirst user : Bool)
    (now : Ktime) : Locked T Cpu × Bool :=
  let (v, first) := removeAndEnqueueSameBase v t expires delta
  startTail v t isLocal first wasFirst user now

end Timers

/-! ### Periods -/

/-- `hrtimer_add_expires`. -/
def Timer.addExpires (timer : Timer Cpu) (time : Ktime) : Timer Cpu :=
  { timer with
    softexpires := ktimeAddSafe timer.softexpires time
    expires := ktimeAddSafe timer.expires time }

/-- `hrtimer_forward` with a resolution of one nanosecond, and the number of overruns. -/
def hrtimerForward (timer : Timer Cpu) (now interval : Ktime) : Timer Cpu × ℤ :=
  let delta := now - timer.expires
  if delta < 0 then (timer, 0)
  else if timer.isQueued then (timer, 0)
  else
    let interval := if interval < 1 then 1 else interval
    if delta ≥ interval then
      let orun := delta.tdiv interval
      let timer := { timer with
        softexpires := timer.softexpires + interval * orun
        expires := timer.expires + interval * orun }
      if timer.expires > now then (timer, orun)
      else (timer.addExpires interval, orun + 1)
    else (timer.addExpires interval, 1)

end Hrtimer

end HrtimerStudy
