import HrtimerStudy.Hrtimer.Cancel
import HrtimerStudy.Hrtimer.Early

/-!
# Sleeping tasks

`hrtimer_nanosleep` and `do_nanosleep` on top of the timers. The timer of a sleeper is on the stack
of its task. The task and the callback `hrtimer_wakeup` share `t->task`, and the scheduler shares
the state of the task with both; none of this is under the lock of a base. So each access is a step
of its own, and anything else may happen between two of them: the sleeper is woken up for no reason,
a signal comes or goes, the task goes on on another CPU. The exception is `hrtimer_cancel`, each
turn of which is one step. It checks without the lock whether the timer is active, and nothing
queues the timer meanwhile, since its task is here and its callback does not restart it. So the
check is as good as one look (`inactive_of_reads`), and when it has found the timer active the rest
can come at once.

`schedule` is what it is documented to be. A task in the state `TASK_INTERRUPTIBLE` gets no CPU
until somebody sets the state to `TASK_RUNNING`, as `wake_up_process` does, unless a signal is
pending when it calls `schedule`.

Nobody but its task and its callback uses the timer of a sleeper. Before and after the sleep the
memory may hold any other timer. That it is not in use when a sleep begins is a condition here;
that it is not in use when the sleep has ended is a result.

## Main definitions

* `Sleeper` — a task in `hrtimer_nanosleep`, or in `hrtimer_nanosleep_restart`
* `Sleeper.move` — the steps that do without the timer
* `Tasks`, `Move`, `advance` — the machine of the kernel and its sleepers
* `Sleeper.Moved`, `Advanced` — what the steps come to
* `Sleeper.Inv` — what holds of a sleeper and its timer

## Main results

* `Good.advance` — what one step preserves
* `nanosleep_inactive` — **a sleep leaves no timer behind**
-/

namespace HrtimerStudy

namespace Hrtimer

open Setup (index isLazy)

/-! ### Sleepers -/

/-- `EFAULT`, `ERESTARTNOHAND` and `ERESTART_RESTARTBLOCK`. -/
def eFault : ℤ := 14
def eRestartNoHand : ℤ := 514
def eRestartRestartBlock : ℤ := 516

/-- Where a task is in `do_nanosleep`, or around it. -/
inductive Point (Cpu : Type*)
  /-- at the top of the loop -/
  | loop
  /-- behind `set_current_state` -/
  | ready
  /-- in `hrtimer_start_range_ns_user`, between two locks -/
  | starting (c : Cpu)
  /-- behind `hrtimer_sleeper_start_expires` -/
  | started
  /-- about to call `schedule` -/
  | scheduling
  /-- in `schedule` -/
  | asleep
  /-- in `hrtimer_cancel` -/
  | cancelling
  /-- behind it -/
  | cancelled
  /-- `hrtimer_nanosleep` or `hrtimer_nanosleep_restart` has returned -/
  | returned (ret : ℤ)
  deriving DecidableEq

/-- Where the callback `hrtimer_wakeup` is. -/
inductive Wakeup
  | called
  /-- behind `t->task = NULL`, with the value that was there -/
  | cleared (task : Bool)
  | done

structure Sleeper (Cpu : Type*) where
  point : Point Cpu
  /-- `t->task` is the task, and not `NULL` -/
  task : Bool
  /-- the state of the task is `TASK_INTERRUPTIBLE`, and not `TASK_RUNNING` -/
  interruptible : Bool
  /-- `signal_pending(current)` -/
  signal : Bool
  /-- the variable `mode` of `do_nanosleep` is `HRTIMER_MODE_REL` -/
  rel : Bool
  /-- the argument of `hrtimer_nanosleep` was `HRTIMER_MODE_ABS` -/
  abs : Bool
  /-- `restart->nanosleep.type` is not `TT_NONE` -/
  rmtp : Bool
  /-- the caller of `do_nanosleep` is `hrtimer_nanosleep_restart` -/
  restarted : Bool
  /-- `restart->nanosleep.expires`, once `hrtimer_nanosleep` has set it -/
  restart : Option Ktime
  /-- the remaining time that was last handed to the user -/
  remaining : Option Ktime
  wakeup : Option Wakeup

variable {T Cpu : Type*}

/-- At the call of `do_nanosleep`, the first time. -/
def Sleeper.call (abs rmtp : Bool) : Sleeper Cpu where
  point := .loop
  task := true
  interruptible := false
  signal := false
  rel := !abs
  abs := abs
  rmtp := rmtp && !abs
  restarted := false
  restart := none
  remaining := none
  wakeup := none

/-- The steps of a sleeper that do without the timer, and those of its callback. -/
inductive SleeperMove
  /-- `set_current_state(TASK_INTERRUPTIBLE|TASK_FREEZABLE)` -/
  | setState
  /-- `if (likely(t->task))` -/
  | check
  | schedule
  /-- `schedule` returns -/
  | resume
  /-- the condition of the loop, and what comes behind the loop; `fault` is the result of the copy
  to the user -/
  | again (fault : Bool)
  /-- `hrtimer_wakeup` reads and clears `t->task` -/
  | clear
  /-- and wakes the task up -/
  | wakeUp
  /-- `signal_pending(current)` changes -/
  | signal (pending : Bool)
  /-- somebody else wakes the task up -/
  | poke
  deriving DecidableEq

/-- `hrtimer_nanosleep` or `hrtimer_nanosleep_restart` behind `do_nanosleep`. -/
def Sleeper.returnWith (sl : Sleeper Cpu) (expires : Ktime) (ret : ℤ) : Sleeper Cpu :=
  if sl.restarted ∨ ret ≠ -eRestartRestartBlock then { sl with point := .returned ret }
  else if sl.abs then { sl with point := .returned (-eRestartNoHand) }
  else { sl with restart := some expires, point := .returned ret }

/-- `do_nanosleep` behind the loop, and its caller. -/
def Sleeper.leaveLoop (sl : Sleeper Cpu) (expires rem : Ktime) (fault : Bool) : Sleeper Cpu :=
  let sl := { sl with interruptible := false }
  if !sl.task then sl.returnWith expires 0
  else if sl.rmtp then
    if rem ≤ 0 then sl.returnWith expires 0
    else if fault then sl.returnWith expires (-eFault)
    else { sl with remaining := some rem }.returnWith expires (-eRestartRestartBlock)
  else sl.returnWith expires (-eRestartRestartBlock)

/-- A step of a sleeper, given the hard expiry of its timer and the time that is left until then. -/
def Sleeper.move (sl : Sleeper Cpu) (expires rem : Ktime) : SleeperMove → Option (Sleeper Cpu)
  | .setState =>
    match sl.point with
    | .loop => some { sl with interruptible := true, point := .ready }
    | _ => none
  | .check =>
    match sl.point with
    | .started => some { sl with point := if sl.task then .scheduling else .cancelling }
    | _ => none
  | .schedule =>
    match sl.point with
    | .scheduling =>
      some { sl with interruptible := sl.interruptible && !sl.signal, point := .asleep }
    | _ => none
  | .resume =>
    match sl.point with
    | .asleep => if sl.interruptible then none else some { sl with point := .cancelling }
    | _ => none
  | .again fault =>
    match sl.point with
    | .cancelled =>
      if sl.task && !sl.signal then some { sl with rel := false, point := .loop }
      else some ({ sl with rel := false }.leaveLoop expires rem fault)
    | _ => none
  | .clear =>
    match sl.wakeup with
    | some .called => some { sl with task := false, wakeup := some (.cleared sl.task) }
    | _ => none
  | .wakeUp =>
    match sl.wakeup with
    | some (.cleared task) =>
      some { sl with interruptible := sl.interruptible && !task, wakeup := some .done }
    | _ => none
  | .signal pending => some { sl with signal := pending }
  | .poke => some { sl with interruptible := false }

/-- `hrtimer_sleeper_start_expires` with the result of the start, on some CPU. -/
def Sleeper.afterStart (sl : Sleeper Cpu) (c : Cpu) : Outcome T → Sleeper Cpu
  | .started ret =>
    if ret then { sl with point := .started }
    else { sl with task := false, interruptible := false, point := .started }
  | _ => { sl with point := .starting c }

/-- One turn of `hrtimer_cancel`. -/
def Sleeper.afterCancel (sl : Sleeper Cpu) : Outcome T → Sleeper Cpu
  | .tried ret => if ret < 0 then sl else { sl with point := .cancelled }
  | _ => sl

/-! ### The machine -/

structure Tasks (T Cpu : Type*) where
  kernel : State T Cpu
  sleeper : T → Option (Sleeper Cpu)

inductive Move (T Cpu : Type*)
  /-- a step of the kernel that has nothing to do with the timers of the sleepers -/
  | kernel (a : Action T Cpu)
  /-- `hrtimer_nanosleep` up to the call of `do_nanosleep` -/
  | nanosleep (c : Cpu) (t : T) (rqtp slack : Ktime) (abs rmtp : Bool)
  /-- `hrtimer_nanosleep_restart` up to the call of `do_nanosleep` -/
  | restart (c : Cpu) (t : T)
  | sleeper (t : T) (m : SleeperMove)
  /-- `hrtimer_sleeper_start_expires` -/
  | start (c : Cpu) (t : T) (prefer : Bool) (target : Cpu)
  | finishStart (t : T)
  /-- a turn of `hrtimer_cancel` -/
  | cancel (c : Cpu) (t : T)
  /-- `hrtimer_wakeup` returns -/
  | callbackReturn (ctx : Context) (c : Cpu)
  /-- the stack frame is left -/
  | leave (t : T)

section Machine

variable [DecidableEq T]

def Tasks.setSleeper (σ : Tasks T Cpu) (t : T) (sl : Option (Sleeper Cpu)) : Tasks T Cpu :=
  { σ with sleeper := Function.update σ.sleeper t sl }

def Tasks.setKernel (σ : Tasks T Cpu) (s : State T Cpu) : Tasks T Cpu := { σ with kernel := s }

/-- The callback of a sleeper is called. -/
def Tasks.wake (σ : Tasks T Cpu) : Outcome T → Tasks T Cpu
  | .expired t => σ.setSleeper t ((σ.sleeper t).map fun sl => { sl with wakeup := some .called })
  | _ => σ

variable [DecidableEq Cpu] [Setup T]

/-- The timer is set up and gets its expiry. -/
def setupSleeper (deferred : Bool) (s : State T Cpu) (c : Cpu) (t : T) (time delta : Ktime) :
    Option (State T Cpu) :=
  (step deferred s (.setup c t)).bind fun s => step deferred s (.setExpires t time delta)

/-- A step. A `timespec` becomes a time between 0 and `KTIME_MAX`, and `hrtimer_set_expires` is
`hrtimer_set_expires_range_ns` with no slack. -/
def advance (deferred : Bool) (σ : Tasks T Cpu) : Move T Cpu → Option (Tasks T Cpu)
  | .kernel a =>
    if (a.touched σ.kernel).any fun t => (σ.sleeper t).isSome then none
    else (perform deferred σ.kernel a).map fun r => (σ.setKernel r.1).wake r.2
  | .nanosleep c t rqtp slack abs rmtp =>
    if (σ.sleeper t).isSome ∨ ¬(0 ≤ rqtp ∧ rqtp ≤ ktimeMax) then none
    else (setupSleeper deferred σ.kernel c t rqtp slack).map fun s =>
      (σ.setKernel s).setSleeper t (some (.call abs rmtp))
  | .restart c t =>
    (σ.sleeper t).bind fun sl =>
      match sl.point, sl.restart with
      | .returned ret, some expires =>
        if ret ≠ -eRestartRestartBlock then none
        else (setupSleeper deferred σ.kernel c t expires 0).map fun s =>
          (σ.setKernel s).setSleeper t (some { sl with
            point := .loop, task := true, rel := false, restarted := true })
      | _, _ => none
  | .sleeper t m =>
    (σ.sleeper t).bind fun sl =>
      let expires := (σ.kernel.timers t).expires
      (sl.move expires (expires - (σ.kernel.now + σ.kernel.clock.of (index t))) m).map fun sl =>
        σ.setSleeper t (some sl)
  | .start c t prefer target =>
    (σ.sleeper t).bind fun sl =>
      match sl.point with
      | .ready =>
        let soft := (σ.kernel.timers t).softexpires
        let hard := (σ.kernel.timers t).expires
        (perform deferred σ.kernel
          (.start c t soft (hard - soft) sl.rel true prefer target)).map fun r =>
            (σ.setKernel r.1).setSleeper t (some (sl.afterStart c r.2))
      | _ => none
  | .finishStart t =>
    (σ.sleeper t).bind fun sl =>
      match sl.point with
      | .starting c =>
        (perform deferred σ.kernel (.finishStart c)).map fun r =>
          (σ.setKernel r.1).setSleeper t (some (sl.afterStart c r.2))
      | _ => none
  | .cancel c t =>
    (σ.sleeper t).bind fun sl =>
      match sl.point with
      | .cancelling =>
        if !hrtimerActive σ.kernel t then
          some (σ.setSleeper t (some { sl with point := .cancelled }))
        else (perform deferred σ.kernel (.tryToCancel c t)).map fun r =>
          (σ.setKernel r.1).setSleeper t (some (sl.afterCancel r.2))
      | _ => none
  | .callbackReturn ctx c =>
    (σ.kernel.callback ctx c).bind fun t =>
      (σ.sleeper t).bind fun sl =>
        match sl.wakeup with
        | some .done =>
          (perform deferred σ.kernel (.callbackReturn ctx c false)).map fun r =>
            (σ.setKernel r.1).setSleeper t (some { sl with wakeup := none })
        | _ => none
  | .leave t =>
    (σ.sleeper t).bind fun sl =>
      match sl.point with
      | .returned _ => some (σ.setSleeper t none)
      | _ => none

/-- Nobody sleeps. -/
def noSleepers (now : Ktime) (cpuOf : T → Cpu) : Tasks T Cpu := ⟨start now cpuOf, fun _ => none⟩

end Machine

/-! ### What holds of a sleeper -/

/-- Somebody is about to wake the sleeper up, or the timer is queued. -/
inductive Sleeper.Awaits (sl : Sleeper Cpu) (s : State T Cpu) (t : T) : Prop
  | queued (hqueued : (s.timers t).isQueued = true) (htask : sl.task = true)
    (hwakeup : sl.wakeup = none)
  | called (hwakeup : sl.wakeup = some .called) (htask : sl.task = true)
  | cleared (hwakeup : sl.wakeup = some (.cleared true))

/-- What holds of the timer while the sleeper is at its point. -/
def Sleeper.AtPoint (sl : Sleeper Cpu) (s : State T Cpu) (t : T) : Prop :=
  match sl.point with
  | .loop | .ready => Inactive s t ∧ sl.task = true
  | .starting c => s.startingTimer c = some t ∧ sl.task = true
  | .started | .scheduling | .asleep =>
    (s.timers t).cpu ≠ none ∧ (sl.interruptible = true → sl.Awaits s t)
  | .cancelling => (s.timers t).cpu ≠ none
  | .cancelled | .returned _ => Inactive s t

/-- The invariant of one sleeper. -/
structure Sleeper.Inv (sl : Sleeper Cpu) (s : State T Cpu) (t : T) : Prop where
  atPoint : sl.AtPoint s t
  wakeup : sl.wakeup ≠ none ↔ ∃ ctx c, s.callback ctx c = some t

variable {s s' : State T Cpu} {c cpu target : Cpu} {t u : T} {o : Outcome T}
variable {sl sl' : Sleeper Cpu}

theorem Sleeper.Inv.wakeup_eq_none (h : sl.Inv s t) (hidle : Inactive s t) : sl.wakeup = none := by
  by_contra hne
  obtain ⟨ctx, c, ht⟩ := h.wakeup.mp hne
  exact hidle.callback_ne ctx c ht

theorem Sleeper.Awaits.congr (h : sl.Awaits s t)
    (hqueued : (s.timers t).isQueued = true → (s'.timers t).isQueued = true)
    (htask : sl'.task = sl.task) (hwakeup : sl'.wakeup = sl.wakeup) : sl'.Awaits s' t := by
  cases h with
  | queued hq ht hw => exact .queued (hqueued hq) (htask.trans ht) (hwakeup.trans hw)
  | called hw ht => exact .called (hwakeup.trans hw) (htask.trans ht)
  | cleared hw => exact .cleared (hwakeup.trans hw)

/-- The sleeper stays where it is. -/
theorem Sleeper.AtPoint.stay (h : sl.AtPoint s t) (hpoint : sl'.point = sl.point)
    (htask : sl'.task = sl.task) (hwakeup : sl'.wakeup = sl.wakeup)
    (hinterruptible : sl'.interruptible = true → sl.interruptible = true) : sl'.AtPoint s t := by
  have hwaits (h : (s.timers t).cpu ≠ none ∧ (sl.interruptible = true → sl.Awaits s t)) :
      (s.timers t).cpu ≠ none ∧ (sl'.interruptible = true → sl'.Awaits s t) :=
    ⟨h.1, fun hi => (h.2 (hinterruptible hi)).congr id htask hwakeup⟩
  unfold AtPoint at h ⊢
  rw [hpoint, htask]
  cases hp : sl.point with
  | started => exact hwaits (by rwa [hp] at h)
  | scheduling => exact hwaits (by rwa [hp] at h)
  | asleep => exact hwaits (by rwa [hp] at h)
  | _ => rwa [hp] at h

/-- The sleeper waits for its callback. -/
def Point.waits : Point Cpu → Bool
  | .started | .scheduling | .asleep => true
  | .loop | .ready | .starting _ | .cancelling | .cancelled | .returned _ => false

theorem Sleeper.atPoint_iff_of_waits (hpoint : sl.point.waits = true) : sl.AtPoint s t ↔
    (s.timers t).cpu ≠ none ∧ (sl.interruptible = true → sl.Awaits s t) := by
  unfold AtPoint
  cases hp : sl.point with
  | started => exact Iff.rfl
  | scheduling => exact Iff.rfl
  | asleep => exact Iff.rfl
  | _ => rw [hp] at hpoint; cases hpoint

variable [Setup T]

/-- While its timer is in use, the sleeper waits for the callback, or for its end. -/
theorem Sleeper.Inv.of_active (h : sl.Inv s t) (hplaced : Placed none s)
    (hcpu : (s.timers t).cpu ≠ none) (hactive : ¬Inactive s t) :
    sl.point.waits = true ∧ (sl.interruptible = true → sl.Awaits s t) ∨
      sl.point = .cancelling := by
  have hpoint := h.atPoint
  unfold AtPoint at hpoint
  cases hp : sl.point with
  | starting c =>
    rw [hp] at hpoint
    exact absurd (hplaced.cpu_of_startingTimer hpoint.1) hcpu
  | started =>
    rw [hp] at hpoint
    exact Or.inl ⟨rfl, hpoint.2⟩
  | scheduling =>
    rw [hp] at hpoint
    exact Or.inl ⟨rfl, hpoint.2⟩
  | asleep =>
    rw [hp] at hpoint
    exact Or.inl ⟨rfl, hpoint.2⟩
  | cancelling => exact Or.inr rfl
  | loop =>
    rw [hp] at hpoint
    exact absurd hpoint.1 hactive
  | ready =>
    rw [hp] at hpoint
    exact absurd hpoint.1 hactive
  | cancelled =>
    rw [hp] at hpoint
    exact absurd hpoint hactive
  | returned ret =>
    rw [hp] at hpoint
    exact absurd hpoint hactive

omit [Setup T] in
/-- The timer goes on being in use. -/
theorem Sleeper.Inv.of_waits (hpoint : sl.point.waits = true ∧
      (sl.interruptible = true → sl.Awaits s t) ∨ sl.point = .cancelling)
    (hcpu : (s.timers t).cpu ≠ none)
    (hcallback : sl.wakeup ≠ none ↔ ∃ ctx c, s.callback ctx c = some t) : sl.Inv s t := by
  refine ⟨?_, hcallback⟩
  obtain ⟨hwaits, hawaits⟩ | hcancelling := hpoint
  · exact (atPoint_iff_of_waits hwaits).mpr ⟨hcpu, hawaits⟩
  · unfold AtPoint
    rw [hcancelling]
    exact hcpu

/-- The callback of a sleeper goes on. -/
theorem Sleeper.Inv.continue (h : sl.Inv s t) (he : Exclusive s) (hwakeup : sl.wakeup ≠ none)
    (hpoint : sl'.point = sl.point)
    (hawaits : sl'.interruptible = true → sl.interruptible = true ∧
      (sl.Awaits s t → sl'.Awaits s' t))
    (hcpu : (s'.timers t).cpu = (s.timers t).cpu)
    (hcallback : sl'.wakeup ≠ none ↔ ∃ ctx c, s'.callback ctx c = some t) : sl'.Inv s' t := by
  obtain ⟨ctx, c, ht⟩ := h.wakeup.mp hwakeup
  obtain ⟨f, hf, hu⟩ := State.callback_eq_some.mp ht
  have hbase : (s.timers t).cpu ≠ none := by
    rw [(he.expiring.callback ctx c f t hf hu).2]
    exact Option.some_ne_none c
  refine of_waits ?_ (hcpu ▸ hbase) hcallback
  rw [hpoint]
  refine (h.of_active he.placed hbase fun hi => hwakeup (h.wakeup_eq_none hi)).imp_left ?_
  exact fun hold => ⟨hold.1, fun hi => (hawaits hi).2 (hold.2 (hawaits hi).1)⟩

/-! ### Steps without the timer -/

theorem Sleeper.returnWith_spec (sl : Sleeper Cpu) (expires : Ktime) (ret : ℤ) :
    ∃ ret' restart, sl.returnWith expires ret =
        { sl with point := .returned ret', restart := restart } ∧
      (ret' = 0 → ret = 0) ∧ ∀ e ∈ restart, e ∈ sl.restart ∨ e = expires := by
  rw [returnWith]
  split_ifs
  · exact ⟨ret, sl.restart, rfl, id, fun e he => Or.inl he⟩
  · have hne : -eRestartNoHand ≠ 0 := by decide
    exact ⟨-eRestartNoHand, sl.restart, rfl, fun h => absurd h hne, fun e he => Or.inl he⟩
  · exact ⟨ret, some expires, rfl, id, fun e he => Or.inr (Option.some.inj he).symm⟩

/-- A sleep returns 0 only if its time is over or the callback has been called. -/
theorem Sleeper.leaveLoop_spec (sl : Sleeper Cpu) (expires rem : Ktime) (fault : Bool) :
    ∃ ret restart remaining, sl.leaveLoop expires rem fault = { sl with
        interruptible := false
        point := .returned ret
        restart := restart
        remaining := remaining } ∧
      (ret = 0 → sl.task = false ∨ rem ≤ 0) ∧ (∀ e ∈ restart, e ∈ sl.restart ∨ e = expires) ∧
      ∀ r ∈ remaining, r ∈ sl.remaining ∨ r = rem := by
  have hzero {e : ℤ} (he : -e ≠ 0) {ret : ℤ} (h : ret = 0 → -e = 0) :
      ret = 0 → sl.task = false ∨ rem ≤ 0 := fun hret => absurd (h hret) he
  rw [leaveLoop]
  dsimp only
  split_ifs with htask hrmtp hrem
  · obtain ⟨ret, restart, heq, -, hrestart⟩ :=
      returnWith_spec { sl with interruptible := false } expires 0
    exact ⟨ret, restart, sl.remaining, heq, fun _ => Or.inl (by simpa using htask), hrestart,
      fun r hr => Or.inl hr⟩
  · obtain ⟨ret, restart, heq, -, hrestart⟩ :=
      returnWith_spec { sl with interruptible := false } expires 0
    exact ⟨ret, restart, sl.remaining, heq, fun _ => Or.inr hrem, hrestart, fun r hr => Or.inl hr⟩
  · obtain ⟨ret, restart, heq, hret, hrestart⟩ :=
      returnWith_spec { sl with interruptible := false } expires (-eFault)
    exact ⟨ret, restart, sl.remaining, heq, hzero (by decide) hret, hrestart,
      fun r hr => Or.inl hr⟩
  · obtain ⟨ret, restart, heq, hret, hrestart⟩ :=
      returnWith_spec { sl with interruptible := false, remaining := some rem } expires
        (-eRestartRestartBlock)
    exact ⟨ret, restart, some rem, heq, hzero (by decide) hret, hrestart,
      fun r hr => Or.inr (Option.some.inj hr).symm⟩
  · obtain ⟨ret, restart, heq, hret, hrestart⟩ :=
      returnWith_spec { sl with interruptible := false } expires (-eRestartRestartBlock)
    exact ⟨ret, restart, sl.remaining, heq, hzero (by decide) hret, hrestart,
      fun r hr => Or.inl hr⟩

/-- What a step of a sleeper comes to. -/
inductive Sleeper.Moved (sl : Sleeper Cpu) (expires rem : Ktime) : Sleeper Cpu → Prop
  | setState (hpoint : sl.point = .loop) :
    Moved sl expires rem { sl with interruptible := true, point := .ready }
  | task (hpoint : sl.point = .started) : Moved sl expires rem { sl with point := .scheduling }
  | noTask (hpoint : sl.point = .started) : Moved sl expires rem { sl with point := .cancelling }
  | schedule (hpoint : sl.point = .scheduling) : Moved sl expires rem
      { sl with interruptible := sl.interruptible && !sl.signal, point := .asleep }
  | resume (hpoint : sl.point = .asleep) : Moved sl expires rem { sl with point := .cancelling }
  | again (hpoint : sl.point = .cancelled) (htask : sl.task = true) :
    Moved sl expires rem { sl with rel := false, point := .loop }
  | leaveLoop (hpoint : sl.point = .cancelled) {ret : ℤ} {restart remaining : Option Ktime}
    (hret : ret = 0 → sl.task = false ∨ rem ≤ 0)
    (hrestart : ∀ e ∈ restart, e ∈ sl.restart ∨ e = expires)
    (hremaining : ∀ r ∈ remaining, r ∈ sl.remaining ∨ r = rem) : Moved sl expires rem { sl with
      rel := false
      interruptible := false
      point := .returned ret
      restart := restart
      remaining := remaining }
  | clear (hwakeup : sl.wakeup = some .called) :
    Moved sl expires rem { sl with task := false, wakeup := some (.cleared sl.task) }
  | wakeUp {task : Bool} (hwakeup : sl.wakeup = some (.cleared task)) : Moved sl expires rem
      { sl with interruptible := sl.interruptible && !task, wakeup := some .done }
  | signal (pending : Bool) : Moved sl expires rem { sl with signal := pending }
  | poke : Moved sl expires rem { sl with interruptible := false }

theorem Sleeper.moved_of_move {expires rem : Ktime} {m : SleeperMove}
    (hs : sl.move expires rem m = some sl') : sl.Moved expires rem sl' := by
  unfold Sleeper.move at hs
  split at hs
  · split at hs
    · obtain rfl := Option.some.inj hs
      exact .setState ‹_›
    · cases hs
  · split at hs
    · obtain rfl := Option.some.inj hs
      split_ifs
      · exact .task ‹_›
      · exact .noTask ‹_›
    · cases hs
  · split at hs
    · obtain rfl := Option.some.inj hs
      exact .schedule ‹_›
    · cases hs
  · split at hs
    · split_ifs at hs
      obtain rfl := Option.some.inj hs
      exact .resume ‹_›
    · cases hs
  · rename_i fault
    split at hs
    · split_ifs at hs with hagain
      · obtain rfl := Option.some.inj hs
        exact .again ‹_› (Bool.and_eq_true_iff.mp hagain).1
      · obtain ⟨ret, restart, remaining, heq, hret, hrestart, hremaining⟩ :=
          leaveLoop_spec { sl with rel := false } expires rem fault
        rw [heq] at hs
        obtain rfl := Option.some.inj hs
        exact .leaveLoop ‹_› hret hrestart hremaining
    · cases hs
  · split at hs
    · obtain rfl := Option.some.inj hs
      exact .clear ‹_›
    · cases hs
  · split at hs
    · obtain rfl := Option.some.inj hs
      exact .wakeUp ‹_›
    · cases hs
  · obtain rfl := Option.some.inj hs
    exact .signal _
  · obtain rfl := Option.some.inj hs
    exact .poke

/-- `hrtimer_wakeup` has looked at `t->task`: whoever waits for it is woken up next. -/
theorem Sleeper.Inv.clear (h : sl.Inv s t) (he : Exclusive s)
    (hwakeup : sl.wakeup = some .called) :
    Inv { sl with task := false, wakeup := some (.cleared sl.task) } s t := by
  have hne : sl.wakeup ≠ none := hwakeup.trans_ne (Option.some_ne_none _)
  refine h.continue he hne rfl (fun hi => ⟨hi, fun hold => ?_⟩) rfl
    ⟨fun _ => h.wakeup.mp hne, fun _ => Option.some_ne_none _⟩
  cases hold with
  | queued _ _ hnone => exact absurd hnone hne
  | called _ htask => exact .cleared (by rw [htask])
  | cleared hw => rw [hwakeup] at hw; cases hw

/-- And then nobody waits for it any more. -/
theorem Sleeper.Inv.wakeUp (h : sl.Inv s t) (he : Exclusive s) {task : Bool}
    (hwakeup : sl.wakeup = some (.cleared task)) :
    Inv { sl with interruptible := sl.interruptible && !task, wakeup := some .done } s t := by
  have hne : sl.wakeup ≠ none := hwakeup.trans_ne (Option.some_ne_none _)
  refine h.continue he hne rfl (fun hi => ⟨(Bool.and_eq_true_iff.mp hi).1, fun hold => ?_⟩) rfl
    ⟨fun _ => h.wakeup.mp hne, fun _ => Option.some_ne_none _⟩
  have htask : task = false := by simpa using (Bool.and_eq_true_iff.mp hi).2
  cases hold with
  | queued _ _ hnone => exact absurd hnone hne
  | called hw _ => rw [hwakeup] at hw; cases hw
  | cleared hw => rw [hwakeup, htask] at hw; cases hw

/-- A step of a sleeper. -/
theorem Sleeper.Inv.moved (h : sl.Inv s t) (he : Exclusive s) {expires rem : Ktime}
    (hs : sl.Moved expires rem sl') : sl'.Inv s t := by
  have hpoint := h.atPoint
  unfold AtPoint at hpoint
  cases hs with
  | setState hp =>
    rw [hp] at hpoint
    exact ⟨hpoint, h.wakeup⟩
  | task hp =>
    rw [hp] at hpoint
    exact ⟨⟨hpoint.1, fun hi => (hpoint.2 hi).congr id rfl rfl⟩, h.wakeup⟩
  | noTask hp =>
    rw [hp] at hpoint
    exact ⟨hpoint.1, h.wakeup⟩
  | schedule hp =>
    -- a signal only makes the task wait less
    rw [hp] at hpoint
    refine ⟨⟨hpoint.1, fun hi => ?_⟩, h.wakeup⟩
    exact (hpoint.2 (Bool.and_eq_true_iff.mp hi).1).congr id rfl rfl
  | resume hp =>
    rw [hp] at hpoint
    exact ⟨hpoint.1, h.wakeup⟩
  | again hp htask =>
    rw [hp] at hpoint
    exact ⟨⟨hpoint, htask⟩, h.wakeup⟩
  | leaveLoop hp hret hrestart hremaining =>
    rw [hp] at hpoint
    exact ⟨hpoint, h.wakeup⟩
  | clear hwakeup => exact h.clear he hwakeup
  | wakeUp hwakeup => exact h.wakeUp he hwakeup
  | signal pending => exact ⟨h.atPoint.stay rfl rfl rfl id, h.wakeup⟩
  | poke => exact ⟨h.atPoint.stay rfl rfl rfl fun hi => absurd hi Bool.false_ne_true, h.wakeup⟩

/-! ### Steps of the kernel -/

omit [Setup T] in
theorem Sleeper.Inv.spares (h : sl.Inv s t) (hs : Spares t s s') : sl.Inv s' t := by
  have hq : (s.timers t).isQueued = true → (s'.timers t).isQueued = true := by
    rw [hs.timer]
    exact id
  have hwaits (hold : (s.timers t).cpu ≠ none ∧ (sl.interruptible = true → sl.Awaits s t)) :
      (s'.timers t).cpu ≠ none ∧ (sl.interruptible = true → sl.Awaits s' t) :=
    ⟨hs.timer ▸ hold.1, fun hi => (hold.2 hi).congr hq rfl rfl⟩
  refine ⟨?_, ?_⟩
  · have hpoint := h.atPoint
    unfold AtPoint at hpoint ⊢
    cases hp : sl.point with
    | loop =>
      rw [hp] at hpoint
      exact ⟨hpoint.1.spares hs, hpoint.2⟩
    | ready =>
      rw [hp] at hpoint
      exact ⟨hpoint.1.spares hs, hpoint.2⟩
    | starting c =>
      rw [hp] at hpoint
      exact ⟨(hs.starting c).mpr hpoint.1, hpoint.2⟩
    | started => exact hwaits (by rwa [hp] at hpoint)
    | scheduling => exact hwaits (by rwa [hp] at hpoint)
    | asleep => exact hwaits (by rwa [hp] at hpoint)
    | cancelling =>
      rw [hp] at hpoint
      exact hs.timer ▸ hpoint
    | cancelled =>
      rw [hp] at hpoint
      exact Inactive.spares hpoint hs
    | returned ret =>
      rw [hp] at hpoint
      exact Inactive.spares hpoint hs
  · simp only [hs.callback]
    exact h.wakeup

/-- A timer that expires is not in its callback. -/
theorem Exclusive.callback_ne_of_expires (he : Exclusive s) {ctx : Context}
    (hs : Expires ctx c t s s') (ctx' : Context) (c' : Cpu) : s.callback ctx' c' ≠ some t := by
  intro ht
  obtain ⟨f, hf, hu⟩ := State.callback_eq_some.mp ht
  obtain ⟨f', hf', hnone, hhead, -⟩ := hs.frame
  have hc : c = c' :=
    Option.some.inj (hs.cpu.symm.trans (he.expiring.callback ctx' c' f t hf hu).2)
  have hctx : (index t).context = ctx :=
    he.expiring.todo ctx c f' hf' _ (List.mem_of_mem_head? hhead)
  have hctx' : (index t).context = ctx' := he.expiring.context_eq hf hu
  subst hc
  rw [hctx.symm.trans hctx', hf] at hf'
  obtain rfl := Option.some.inj hf'
  exact Option.some_ne_none t (hu.symm.trans hnone)

/-- The callback of a sleeper is called. -/
theorem Sleeper.Inv.expires (h : sl.Inv s t) (he : Exclusive s) {ctx : Context}
    (hs : Expires ctx c t s s') : Inv { sl with wakeup := some .called } s' t := by
  have hnone : sl.wakeup = none := by
    by_contra hne
    obtain ⟨ctx', c', ht⟩ := h.wakeup.mp hne
    exact he.callback_ne_of_expires hs ctx' c' ht
  have hcpu : (s.timers t).cpu ≠ none := hs.cpu.trans_ne (Option.some_ne_none c)
  have hactive : ¬Inactive s t := fun hi =>
    Bool.false_ne_true (hi.queued.symm.trans hs.queued)
  refine of_waits ((h.of_active he.placed hcpu hactive).imp_left fun hold => ⟨hold.1, fun hi => ?_⟩)
    (by rwa [hs.timer]) ⟨fun _ => ⟨ctx, c, hs.callback⟩, fun _ => Option.some_ne_none _⟩
  cases hold.2 hi with
  | queued _ htask _ => exact .called rfl htask
  | called hw _ => exact absurd (hw.symm.trans hnone) (Option.some_ne_none _)
  | cleared hw => exact absurd (hw.symm.trans hnone) (Option.some_ne_none _)

omit [Setup T] in
theorem callback_congr (hframe : s'.frame = s.frame) (ctx : Context) (c : Cpu) :
    s'.callback ctx c = s.callback ctx c := by rw [State.callback, State.callback, hframe]

omit [Setup T] in
theorem wakeup_iff (hwakeup : sl.wakeup = none) (hcallback : ∀ ctx c, s.callback ctx c ≠ some t) :
    sl.wakeup ≠ none ↔ ∃ ctx c, s.callback ctx c = some t :=
  ⟨fun h => absurd hwakeup h, fun ⟨ctx, c, h⟩ => absurd h (hcallback ctx c)⟩

/-! ### Starting and cancelling -/

theorem Sleeper.inv_afterStart (htask : sl.task = true) (hwakeup : sl.wakeup = none)
    (hcallback : ∀ ctx c, s.callback ctx c ≠ some t) (hleaves : StartLeaves s c t o) :
    (sl.afterStart c o).Inv s t := by
  cases hleaves with
  | moving hcpu hstarting => exact ⟨⟨hstarting, htask⟩, wakeup_iff hwakeup hcallback⟩
  | placed ret hcpu hqueued hdue =>
    cases ret with
    | true =>
      exact Inv.of_waits (Or.inl ⟨rfl, fun _ => .queued hqueued htask hwakeup⟩) hcpu
        (wakeup_iff hwakeup hcallback)
    | false =>
      exact Inv.of_waits (Or.inl ⟨rfl, fun hi => absurd hi Bool.false_ne_true⟩) hcpu
        (wakeup_iff hwakeup hcallback)

variable [DecidableEq T] [DecidableEq Cpu]

/-- The timer of a sleeper is started. -/
theorem Sleeper.Inv.start (h : sl.Inv s t) (hpoint : sl.point = .ready) {time delta : Ktime}
    {rel user prefer : Bool}
    (hs : hrtimerStart s c t time delta rel user prefer target = some (s', o)) :
    (sl.afterStart c o).Inv s' t := by
  have hready := h.atPoint
  unfold AtPoint at hready
  rw [hpoint] at hready
  obtain ⟨-, -, hframe, -, hleaves⟩ := hrtimerStart_effect hs
  refine inv_afterStart hready.2 (h.wakeup_eq_none hready.1) (fun ctx c' => ?_) hleaves
  rw [callback_congr hframe]
  exact hready.1.callback_ne ctx c'

omit [DecidableEq T] [DecidableEq Cpu] in
/-- The callback does not run while the timer is on no base. -/
theorem Sleeper.Inv.idle_of_starting (h : sl.Inv s t) (he : Exclusive s)
    (hpoint : sl.point = .starting c) :
    (∀ ctx c', s.callback ctx c' ≠ some t) ∧ sl.wakeup = none := by
  have hstarting := h.atPoint
  unfold AtPoint at hstarting
  rw [hpoint] at hstarting
  have hcpu := he.placed.cpu_of_startingTimer hstarting.1
  have hcallback (ctx : Context) (c' : Cpu) : s.callback ctx c' ≠ some t := by
    intro ht
    obtain ⟨f, hf, hu⟩ := State.callback_eq_some.mp ht
    exact he.expiring.callback_ne_of_none hcpu hf hu
  refine ⟨hcallback, ?_⟩
  by_contra hne
  obtain ⟨ctx, c', ht⟩ := h.wakeup.mp hne
  exact hcallback ctx c' ht

omit [DecidableEq T] [DecidableEq Cpu] [Setup T] in
/-- The end of the start is about the timer of the sleeper. -/
theorem Sleeper.Inv.touched_finishStart (h : sl.Inv s t) (hpoint : sl.point = .starting c) :
    (Action.finishStart c).touched s = some t := by
  have hstarting := h.atPoint
  unfold AtPoint at hstarting
  rw [hpoint] at hstarting
  exact hstarting.1

theorem Sleeper.Inv.finishStart (h : sl.Inv s t) (he : Exclusive s)
    (hpoint : sl.point = .starting c) (hs : finishStart s c = some (s', o)) :
    (sl.afterStart c o).Inv s' t := by
  obtain ⟨hcallback, hwakeup⟩ := h.idle_of_starting he hpoint
  have hstarting := h.atPoint
  unfold AtPoint at hstarting
  rw [hpoint] at hstarting
  obtain ⟨-, -, hframe, -, hleaves⟩ := finishStart_effect hstarting.1 hs
  refine inv_afterStart hstarting.2 hwakeup (fun ctx c' => ?_) hleaves
  rw [callback_congr hframe]
  exact hcallback ctx c'

theorem Sleeper.Inv.cancel (h : sl.Inv s t) (he : Exclusive s) (hpoint : sl.point = .cancelling)
    (hs : hrtimerTryToCancel s c t = some (s', o)) : (sl.afterCancel o).Inv s' t := by
  have hcpu := h.atPoint
  unfold AtPoint at hcpu
  rw [hpoint] at hcpu
  obtain ⟨⟨isQueued, -, htimer⟩, hframe, -, -, ret, rfl⟩ := hrtimerTryToCancel_effect hs
  have hwakeup : sl.wakeup ≠ none ↔ ∃ ctx c, s'.callback ctx c = some t := by
    simp only [callback_congr hframe]
    exact h.wakeup
  rw [afterCancel]
  split_ifs with hret
  · refine of_waits (Or.inr hpoint) ?_ hwakeup
    rw [htimer]
    exact hcpu
  · exact ⟨he.inactive_of_tried hs (not_lt.mp hret), hwakeup⟩

/-- The check without the lock finds the timer inactive. -/
theorem Sleeper.Inv.cancelled (h : sl.Inv s t) (he : Exclusive s) (hpoint : sl.point = .cancelling)
    (hidle : hrtimerActive s t = false) : Inv { sl with point := .cancelled } s t := by
  have hbase := h.atPoint
  unfold AtPoint at hbase
  rw [hpoint] at hbase
  obtain ⟨cpu, hcpu⟩ := Option.ne_none_iff_exists'.mp hbase
  obtain ⟨hqueued, hrunning⟩ := Bool.or_eq_false_iff.mp hidle
  rw [hcpu, Option.any_some] at hrunning
  have hnothing : Run (step false) (fun s a => ¬a.queues s t) s s := .refl
  exact ⟨inactive_of_reads he hnothing hqueued hcpu hrunning, h.wakeup⟩

theorem Sleeper.Inv.callbackReturn (h : sl.Inv s t) (he : Exclusive s) {ctx : Context}
    (ht : s.callback ctx c = some t) (hwakeup : sl.wakeup = some .done)
    (hs : callbackReturn s ctx c false = some (s', o)) :
    Inv { sl with wakeup := none } s' t := by
  have hne : sl.wakeup ≠ none := by
    rw [hwakeup]
    exact Option.some_ne_none _
  obtain ⟨f, hf, hu, rfl⟩ := of_callbackReturn_callback ht hs
  refine h.continue he hne rfl (fun hi => ⟨hi, fun hold => ?_⟩) rfl
    (wakeup_iff rfl fun ctx' c' ht' => ?_)
  · cases hold with
    | queued _ _ hnone => exact absurd hnone hne
    | called hw _ => rw [hwakeup] at hw; cases hw
    | cleared hw => rw [hwakeup] at hw; cases hw
  · -- the callback ran nowhere else
    by_cases hsame : ctx' = ctx ∧ c' = c
    · obtain ⟨rfl, rfl⟩ := hsame
      rw [afterCallback, callback_setFrame] at ht'
      cases ht'
    · obtain ⟨f', hf', hu'⟩ := State.callback_eq_some.mp ht'
      rw [afterCallback, State.frame_setFrame_of_ne _ _ (not_and_or.mp hsame)] at hf'
      have hone := (he.inOnePlace t).callback ctx' c' f' ctx c f hf' hu' hf hu
      exact hsame hone

/-- A step about one timer spares all others. -/
theorem spares_of_touched (he : Exclusive s) {deferred : Bool} {a : Action T Cpu}
    (ht : a.touched s = some t) (hu : u ≠ t) (hs : perform deferred s a = some (s', o)) :
    Spares u s s' := by
  have hother : ¬a.touches s u := fun h => hu (Option.some.inj (h.symm.trans ht))
  rcases perform_other he hother hs with ⟨hspares, -⟩ | ⟨ctx, c, rfl, -, -⟩
  · exact hspares
  · exact absurd ht.symm (Option.some_ne_none t)

/-- The timer of a sleeper is set up. -/
theorem setupSleeper_effect {deferred : Bool} (h : Sound s) {time delta : Ktime}
    (hs : setupSleeper deferred s c t time delta = some s') :
    Sound s' ∧ s'.now = s.now ∧ Inactive s' t ∧ (s'.timers t).softexpires = time ∧
      (s'.timers t).expires = ktimeAddSafe time delta ∧ ∀ u, u ≠ t → Spares u s s' := by
  obtain ⟨s₁, hs₁, hs₂⟩ := Option.bind_eq_some_iff.mp hs
  obtain ⟨⟨s₁, o₁⟩, ho₁, rfl⟩ := Option.map_eq_some_iff.mp hs₁
  obtain ⟨⟨s₂, o₂⟩, ho₂, rfl⟩ := Option.map_eq_some_iff.mp hs₂
  have hsound₁ := h.perform ho₁
  have hsound₂ := hsound₁.perform ho₂
  have hother (u : T) (hu : u ≠ t) : Spares u s s₂ :=
    (spares_of_touched h.exclusive rfl hu ho₁).trans
      (spares_of_touched hsound₁.exclusive rfl hu ho₂)
  cases performed_of_perform ho₁ with | setup _ _ hq hcpu hrunning => ?_
  cases performed_of_perform ho₂ with | setExpires _ _ _ hq => ?_
  have htimer : hrtimerSetExpiresRangeNs (Function.update s.timers t ⟨0, 0, false, some c⟩) t time
      delta t = ⟨ktimeAddSafe time delta, time, false, some c⟩ := by
    rw [setExpires_self, Function.update_self]
  refine ⟨hsound₂, rfl, ⟨?_, ?_, ?_⟩, ?_, ?_, hother⟩
  · exact congrArg Timer.isQueued htimer
  · exact (congrArg Timer.cpu htimer).trans_ne (Option.some_ne_none c)
  · exact fun ctx c' f hf => h.exclusive.expiring.callback_ne hcpu hrunning hf
  · exact congrArg Timer.softexpires htimer
  · exact congrArg Timer.expires htimer

/-! ### The step lemma -/

/-- The invariant of the machine. -/
structure Good (σ : Tasks T Cpu) : Prop where
  sound : Sound σ.kernel
  inv : ∀ t sl, σ.sleeper t = some sl → sl.Inv σ.kernel t

variable {σ σ' : Tasks T Cpu} {deferred : Bool}

omit [Setup T] [DecidableEq Cpu] in
@[simp] theorem sleeper_setSleeper_self (σ : Tasks T Cpu) (t : T) (sl : Option (Sleeper Cpu)) :
    (σ.setSleeper t sl).sleeper t = sl := Function.update_self ..

omit [Setup T] [DecidableEq Cpu] in
theorem sleeper_setSleeper_of_ne (sl : Option (Sleeper Cpu)) (hu : u ≠ t) :
    (σ.setSleeper t sl).sleeper u = σ.sleeper u := Function.update_of_ne hu ..

/-- What a step comes to. The kernel performs an action, or two, and one sleeper goes on. -/
inductive Advanced (deferred : Bool) (σ : Tasks T Cpu) : Move T Cpu → Tasks T Cpu → Prop
  | kernel {a : Action T Cpu} {s' : State T Cpu} {o : Outcome T}
    (hfree : ∀ t, a.touches σ.kernel t → σ.sleeper t = none)
    (ho : perform deferred σ.kernel a = some (s', o)) :
    Advanced deferred σ (.kernel a) ((σ.setKernel s').wake o)
  | nanosleep {c : Cpu} {t : T} {rqtp slack : Ktime} {abs rmtp : Bool} {s' : State T Cpu}
    (hfree : σ.sleeper t = none) (hmax : rqtp ≤ ktimeMax)
    (hsetup : setupSleeper deferred σ.kernel c t rqtp slack = some s') :
    Advanced deferred σ (.nanosleep c t rqtp slack abs rmtp)
      ((σ.setKernel s').setSleeper t (some (.call abs rmtp)))
  | restart {c : Cpu} {t : T} {sl : Sleeper Cpu} {ret : ℤ} {expires : Ktime} {s' : State T Cpu}
    (hsl : σ.sleeper t = some sl) (hpoint : sl.point = .returned ret)
    (hrestart : sl.restart = some expires)
    (hsetup : setupSleeper deferred σ.kernel c t expires 0 = some s') :
    Advanced deferred σ (.restart c t) ((σ.setKernel s').setSleeper t (some { sl with
      point := .loop, task := true, rel := false, restarted := true }))
  | sleeper {t : T} {m : SleeperMove} {sl sl' : Sleeper Cpu} (hsl : σ.sleeper t = some sl)
    (hmoved : sl.Moved (σ.kernel.timers t).expires ((σ.kernel.timers t).expires -
      (σ.kernel.now + σ.kernel.clock.of (index t))) sl') :
    Advanced deferred σ (.sleeper t m) (σ.setSleeper t (some sl'))
  | start {c target : Cpu} {t : T} {prefer : Bool} {sl : Sleeper Cpu} {s' : State T Cpu}
    {o : Outcome T} (hsl : σ.sleeper t = some sl) (hpoint : sl.point = .ready)
    (ho : perform deferred σ.kernel (.start c t (σ.kernel.timers t).softexpires
      ((σ.kernel.timers t).expires - (σ.kernel.timers t).softexpires) sl.rel true prefer target) =
        some (s', o)) :
    Advanced deferred σ (.start c t prefer target)
      ((σ.setKernel s').setSleeper t (some (sl.afterStart c o)))
  | finishStart {c : Cpu} {t : T} {sl : Sleeper Cpu} {s' : State T Cpu} {o : Outcome T}
    (hsl : σ.sleeper t = some sl) (hpoint : sl.point = .starting c)
    (ho : perform deferred σ.kernel (.finishStart c) = some (s', o)) :
    Advanced deferred σ (.finishStart t)
      ((σ.setKernel s').setSleeper t (some (sl.afterStart c o)))
  /-- `hrtimer_active` finds nothing -/
  | cancelled {c : Cpu} {t : T} {sl : Sleeper Cpu} (hsl : σ.sleeper t = some sl)
    (hpoint : sl.point = .cancelling) (hidle : hrtimerActive σ.kernel t = false) :
    Advanced deferred σ (.cancel c t) (σ.setSleeper t (some { sl with point := .cancelled }))
  | cancel {c : Cpu} {t : T} {sl : Sleeper Cpu} {s' : State T Cpu} {o : Outcome T}
    (hsl : σ.sleeper t = some sl) (hpoint : sl.point = .cancelling)
    (ho : perform deferred σ.kernel (.tryToCancel c t) = some (s', o)) :
    Advanced deferred σ (.cancel c t)
      ((σ.setKernel s').setSleeper t (some (sl.afterCancel o)))
  | callbackReturn {ctx : Context} {c : Cpu} {t : T} {sl : Sleeper Cpu} {s' : State T Cpu}
    {o : Outcome T} (hcallback : σ.kernel.callback ctx c = some t) (hsl : σ.sleeper t = some sl)
    (hwakeup : sl.wakeup = some .done)
    (ho : perform deferred σ.kernel (.callbackReturn ctx c false) = some (s', o)) :
    Advanced deferred σ (.callbackReturn ctx c)
      ((σ.setKernel s').setSleeper t (some { sl with wakeup := none }))
  | leave {t : T} {sl : Sleeper Cpu} {ret : ℤ} (hsl : σ.sleeper t = some sl)
    (hpoint : sl.point = .returned ret) : Advanced deferred σ (.leave t) (σ.setSleeper t none)

theorem advanced_of_advance {m : Move T Cpu} (hs : advance deferred σ m = some σ') :
    Advanced deferred σ m σ' := by
  cases m with
  | kernel a =>
    rw [advance] at hs
    split_ifs at hs with hfree
    obtain ⟨⟨s', o⟩, ho, rfl⟩ := Option.map_eq_some_iff.mp hs
    refine .kernel (fun t ht => ?_) ho
    rw [show a.touched σ.kernel = some t from ht, Option.any_some] at hfree
    simpa using hfree
  | nanosleep c t rqtp slack abs rmtp =>
    rw [advance] at hs
    split_ifs at hs with hfree
    obtain ⟨hnone, hmax⟩ := not_or.mp hfree
    obtain ⟨s', hs', rfl⟩ := Option.map_eq_some_iff.mp hs
    exact .nanosleep (by simpa using hnone) (not_not.mp hmax).2 hs'
  | restart c t =>
    obtain ⟨sl, hsl, hs⟩ := Option.bind_eq_some_iff.mp hs
    split at hs
    · split_ifs at hs
      obtain ⟨s', hs', rfl⟩ := Option.map_eq_some_iff.mp hs
      exact .restart hsl ‹_› ‹_› hs'
    · cases hs
  | sleeper t m =>
    obtain ⟨sl, hsl, hs⟩ := Option.bind_eq_some_iff.mp hs
    obtain ⟨sl', hs', rfl⟩ := Option.map_eq_some_iff.mp hs
    exact .sleeper hsl (Sleeper.moved_of_move hs')
  | start c t prefer target =>
    obtain ⟨sl, hsl, hs⟩ := Option.bind_eq_some_iff.mp hs
    split at hs
    · obtain ⟨⟨s', o⟩, ho, rfl⟩ := Option.map_eq_some_iff.mp hs
      exact .start hsl ‹_› ho
    · cases hs
  | finishStart t =>
    obtain ⟨sl, hsl, hs⟩ := Option.bind_eq_some_iff.mp hs
    split at hs
    · obtain ⟨⟨s', o⟩, ho, rfl⟩ := Option.map_eq_some_iff.mp hs
      exact .finishStart hsl ‹_› ho
    · cases hs
  | cancel c t =>
    obtain ⟨sl, hsl, hs⟩ := Option.bind_eq_some_iff.mp hs
    split at hs
    · split_ifs at hs with hidle
      · obtain rfl := Option.some.inj hs
        exact .cancelled hsl ‹_› (by simpa using hidle)
      · obtain ⟨⟨s', o⟩, ho, rfl⟩ := Option.map_eq_some_iff.mp hs
        exact .cancel hsl ‹_› ho
    · cases hs
  | callbackReturn ctx c =>
    obtain ⟨t, ht, hs⟩ := Option.bind_eq_some_iff.mp hs
    obtain ⟨sl, hsl, hs⟩ := Option.bind_eq_some_iff.mp hs
    split at hs
    · obtain ⟨⟨s', o⟩, ho, rfl⟩ := Option.map_eq_some_iff.mp hs
      exact .callbackReturn ht hsl ‹_› ho
    · cases hs
  | leave t =>
    obtain ⟨sl, hsl, hs⟩ := Option.bind_eq_some_iff.mp hs
    split at hs
    · obtain rfl := Option.some.inj hs
      exact .leave hsl ‹_›
    · cases hs

omit [DecidableEq Cpu] [Setup T] in
@[simp] theorem kernel_wake (σ : Tasks T Cpu) (o : Outcome T) : (σ.wake o).kernel = σ.kernel := by
  cases o <;> rfl

omit [DecidableEq Cpu] in
/-- The kernel and one sleeper go on, and the others are spared. -/
theorem Good.set (h : Good σ) (hsound : Sound s') (hother : ∀ u, u ≠ t → Spares u σ.kernel s')
    (hinv : sl'.Inv s' t) : Good ((σ.setKernel s').setSleeper t (some sl')) := by
  refine ⟨hsound, fun u sl hsl => ?_⟩
  rcases eq_or_ne u t with rfl | hu
  · rw [sleeper_setSleeper_self] at hsl
    obtain rfl := Option.some.inj hsl
    exact hinv
  · rw [sleeper_setSleeper_of_ne _ hu] at hsl
    exact (h.inv u sl hsl).spares (hother u hu)

/-- A step of the kernel about the timer of a sleeper. -/
theorem Good.own (h : Good σ) {a : Action T Cpu} (ha : a.touched σ.kernel = some t)
    (hs : perform deferred σ.kernel a = some (s', o)) (hinv : sl'.Inv s' t) :
    Good ((σ.setKernel s').setSleeper t (some sl')) :=
  h.set (h.sound.perform hs) (fun _ hu => spares_of_touched h.sound.exclusive ha hu hs) hinv

/-- Any other step of the kernel. -/
theorem Good.kernel (h : Good σ) {a : Action T Cpu}
    (ha : ∀ t sl, σ.sleeper t = some sl → ¬a.touches σ.kernel t)
    (hs : perform deferred σ.kernel a = some (s', o)) : Good ((σ.setKernel s').wake o) := by
  have hspared {t : T} (ho : o ≠ .expired t) {sl : Sleeper Cpu} (hsl : σ.sleeper t = some sl) :
      sl.Inv s' t := by
    rcases perform_other h.sound.exclusive (ha t sl hsl) hs with ⟨hspares, -⟩ | ⟨_, _, -, ho', -⟩
    · exact (h.inv t sl hsl).spares hspares
    · exact absurd ho' ho
  have hsound := h.sound.perform hs
  cases o with
  | expired t =>
    refine ⟨hsound, fun u sl hsl => ?_⟩
    rcases eq_or_ne u t with rfl | hu
    · rw [Tasks.wake, sleeper_setSleeper_self] at hsl
      obtain ⟨sl, hold, rfl⟩ := Option.map_eq_some_iff.mp hsl
      rcases perform_other h.sound.exclusive (ha u sl hold) hs with ⟨-, ho⟩ | ⟨_, _, -, -, hexpires⟩
      · exact absurd rfl ho
      · exact (h.inv u sl hold).expires h.sound.exclusive hexpires
    · rw [Tasks.wake, sleeper_setSleeper_of_ne _ hu] at hsl
      refine hspared (fun ho => ?_) hsl
      injection ho with ho
      exact hu ho.symm
  | _ => exact ⟨hsound, fun t sl hsl => hspared (by simp) hsl⟩

/-- **What one step preserves.** -/
theorem Good.advance (h : Good σ) {m : Move T Cpu} (hs : advance deferred σ m = some σ') :
    Good σ' := by
  have he := h.sound.exclusive
  have hspares (u : T) : Spares u σ.kernel σ.kernel := spares_of_eq rfl rfl rfl
  cases advanced_of_advance hs with
  | kernel hfree ho =>
    refine h.kernel (fun t sl hsl ht => ?_) ho
    exact Option.some_ne_none sl (hsl.symm.trans (hfree t ht))
  | nanosleep _ _ hsetup =>
    obtain ⟨hsound, -, hidle, -, -, hother⟩ := setupSleeper_effect h.sound hsetup
    exact h.set hsound hother ⟨⟨hidle, rfl⟩, wakeup_iff rfl hidle.callback_ne⟩
  | restart hsl hpoint _ hsetup =>
    obtain ⟨hsound, -, hidle, -, -, hother⟩ := setupSleeper_effect h.sound hsetup
    have hinv := h.inv _ _ hsl
    have hreturned := hinv.atPoint
    unfold Sleeper.AtPoint at hreturned
    rw [hpoint] at hreturned
    exact h.set hsound hother
      ⟨⟨hidle, rfl⟩, wakeup_iff (hinv.wakeup_eq_none hreturned) hidle.callback_ne⟩
  | sleeper hsl hmoved =>
    exact h.set h.sound (fun u _ => hspares u) ((h.inv _ _ hsl).moved he hmoved)
  | start hsl hpoint ho =>
    cases performed_of_perform ho with | start _ _ _ _ hs => ?_
    exact h.own rfl ho ((h.inv _ _ hsl).start hpoint hs)
  | finishStart hsl hpoint ho =>
    have hinv := h.inv _ _ hsl
    exact h.own (hinv.touched_finishStart hpoint) ho (hinv.finishStart he hpoint ho)
  | cancelled hsl hpoint hidle =>
    exact h.set h.sound (fun u _ => hspares u) ((h.inv _ _ hsl).cancelled he hpoint hidle)
  | cancel hsl hpoint ho =>
    cases performed_of_perform ho with | tryToCancel _ _ hs => ?_
    exact h.own rfl ho ((h.inv _ _ hsl).cancel he hpoint hs)
  | callbackReturn hcallback hsl hwakeup ho =>
    have hinv := (h.inv _ _ hsl).callbackReturn he hcallback hwakeup ho
    exact h.own (a := .callbackReturn _ _ false) hcallback ho hinv
  | leave hsl hpoint =>
    refine ⟨h.sound, fun u sl hsl => ?_⟩
    dsimp only [Tasks.setSleeper] at hsl
    rw [Function.update_apply] at hsl
    split_ifs at hsl
    exact h.inv u sl hsl

/-- The run lemma. -/
theorem good_of_run {ok : Tasks T Cpu → Move T Cpu → Prop} (h : Good σ)
    (hrun : Run (Hrtimer.advance deferred) ok σ σ') : Good σ' :=
  hrun.invariant h fun hI _ hs => hI.advance hs

omit [DecidableEq T] [DecidableEq Cpu] in
theorem good_noSleepers (now : Ktime) (cpuOf : T → Cpu) : Good (noSleepers now cpuOf) :=
  ⟨sound_start now cpuOf, fun _ _ h => absurd h.symm (Option.some_ne_none _)⟩

/-- **A sleep leaves no timer behind.** When the stack frame with the timer is about to be left, the
timer is in no queue, its callback does not run, and no CPU is about to queue it. -/
theorem nanosleep_inactive {now : Ktime} {cpuOf : T → Cpu}
    (h : Reachable (Hrtimer.advance deferred) (noSleepers now cpuOf) σ)
    (hsl : σ.sleeper t = some sl) {ret : ℤ} (hret : sl.point = .returned ret) :
    Inactive σ.kernel t ∧ (∀ c i, t ∉ ((σ.kernel.cpuBase c).clockBase i).active) ∧
      ∀ c, σ.kernel.startingTimer c ≠ some t := by
  have hgood := good_of_run (good_noSleepers now cpuOf) h
  have hidle := (hgood.inv t sl hsl).atPoint
  unfold Sleeper.AtPoint at hidle
  rw [hret] at hidle
  have hplaced := hgood.sound.exclusive.placed
  exact ⟨hidle, hidle.not_mem hplaced, fun c hc => hidle.cpu (hplaced.cpu_of_startingTimer hc)⟩

/-- The left timer is used to sleep, and the callback is called while the task calls `schedule`. -/
theorem nanosleep_inactive_pair :
    let σ := (exec (advance false) (fun _ _ => True)
      [.nanosleep false .left 100 50 false false, .sleeper .left .setState,
        .start false .left true false, .sleeper .left .check, .kernel (.pass 120),
        .kernel (.interrupt false), .kernel (.expire .hardirq false), .sleeper .left .clear,
        .sleeper .left .schedule, .sleeper .left .wakeUp, .callbackReturn .hardirq false,
        .sleeper .left .resume, .cancel true .left, .sleeper .left (.again false)]
      (noSleepers 0 Pair.cpu)).get (by decide)
    Inactive σ.kernel .left ∧ (∀ c i, .left ∉ ((σ.kernel.cpuBase c).clockBase i).active) ∧
      ∀ c, σ.kernel.startingTimer c ≠ some .left := by
  intro σ
  have hreturned : (σ.sleeper .left).map Sleeper.point = some (.returned 0) := by decide
  obtain ⟨sl, hsl, hret⟩ := Option.map_eq_some_iff.mp hreturned
  exact nanosleep_inactive (run_of_exec (Option.some_get _).symm) hsl hret

end Hrtimer

end HrtimerStudy
