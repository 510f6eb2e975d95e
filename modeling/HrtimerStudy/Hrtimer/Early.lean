import HrtimerStudy.Hrtimer.Effects
import HrtimerStudy.Hrtimer.Tidy

/-!
# No timer is early

`__hrtimer_run_queues` compares the expiry of a timer with a time that `hrtimer_interrupt` or
`hrtimer_run_softirq` has read at its start, or at a retry. That time is in the past when the
comparison is made, so a timer that passes it is due. For a clock other than `CLOCK_MONOTONIC` the
time is the sum of the reading and an offset, which may be an old one; there a clock that was set
back makes its timers early. The offset of `CLOCK_MONOTONIC` is 0 forever.

The timer may have been started long before, moved to another CPU and queued again by its callback.
Its soft expiry is the one of the start all the same.

## Main definitions

* `InTime` — the CPUs expire timers for times that have come
* `Action.sets` — the step writes the expiry of the timer

## Main results

* `InTime.perform` — what one step preserves
* `never_early` — **no timer of `CLOCK_MONOTONIC` expires before its time**
-/

namespace HrtimerStudy

namespace Hrtimer

open Setup (index isLazy)

variable {T Cpu : Type*}

/-- The clock of the base is `CLOCK_MONOTONIC`. -/
def BaseType.isMonotonic : BaseType → Bool
  | .monotonic | .monotonicSoft => true
  | .realtime | .boottime | .tai | .realtimeSoft | .boottimeSoft | .taiSoft => false

/-- The timers that a CPU expires next are due. -/
structure Frame.InTime (f : Frame T) (time : Ktime) : Prop where
  now : f.now ≤ time
  basenow : ∀ i ∈ f.todo.head?, i.isMonotonic = true → f.basenow ≤ time

/-- The CPUs expire timers for times that have come. -/
def InTime (s : State T Cpu) : Prop := ∀ ctx c f, s.frame ctx c = some f → f.InTime s.now

variable {s s' : State T Cpu} {c : Cpu} {t : T} {o : Outcome T} {clock : Offsets} {b : CpuBase T}
variable {w : List BaseType}

/-! ### Frames -/

theorem Offsets.of_isMonotonic {i : BaseType} (hi : i.isMonotonic = true) (clock : Offsets) :
    clock.of i = 0 := by
  cases i with
  | monotonic => rfl
  | monotonicSoft => rfl
  | _ => exact absurd hi Bool.false_ne_true

theorem Seen.offset_of_isMonotonic (h : Seen clock b) {i : BaseType} (hi : i.isMonotonic = true) :
    (b.clockBase i).offset = 0 := by
  obtain ⟨seen, -, hof, -⟩ := h
  rw [hof]
  exact Offsets.of_isMonotonic hi seen

theorem Frame.InTime.mono {now now' : Ktime} {f : Frame T} (h : f.InTime now) (hle : now ≤ now') :
    f.InTime now' :=
  ⟨h.now.trans hle, fun i hi hmono => (h.basenow i hi hmono).trans hle⟩

theorem Seen.inTime_enter (h : Seen clock b) {now : Ktime} {f : Frame T} (hf : f.now ≤ now)
    (todo : List BaseType) : (f.enter b todo).InTime now := by
  refine ⟨hf, ?_⟩
  cases todo with
  | nil => exact fun i hi => absurd hi (Option.not_mem_none i)
  | cons j rest =>
    intro i hi hmono
    obtain rfl : j = i := Option.some.inj hi
    show f.now + (b.clockBase j).offset ≤ now
    rw [h.offset_of_isMonotonic hmono, Int.add_zero]
    exact hf

theorem inTime_of_frame (h : InTime s) (hframe : s'.frame = s.frame) (hnow : s.now ≤ s'.now) :
    InTime s' := fun ctx c f hf => (h ctx c f (by rw [← hframe, hf])).mono hnow

variable [DecidableEq Cpu]

theorem InTime.setFrame (h : InTime s) {ctx : Context} {f' : Option (Frame T)}
    (hf' : ∀ f ∈ f', f.InTime s.now) : InTime (s.setFrame ctx c f') := by
  intro ctx' c' f hf
  obtain ⟨-, -, hf⟩ | hf := State.of_frame_setFrame _ hf
  · exact hf' f hf
  · exact h ctx' c' f hf

/-- A CPU writes its base and its frame. -/
theorem InTime.turn (h : InTime s) (v : Locked T Cpu) {ctx : Context} {f' : Option (Frame T)}
    (hf' : ∀ f ∈ f', f.InTime s.now) : InTime ((s.put c v).setFrame ctx c f') := by
  have hput : InTime (s.put c v) := inTime_of_frame h rfl le_rfl
  exact hput.setFrame hf'

/-- A CPU begins to expire timers. -/
theorem InTime.runQueues (h : InTime s) (hseen : Seen s.clock b) (v : Locked T Cpu)
    (ctx : Context) (entryTime : Ktime) (retries : ℕ) :
    InTime ((s.put c v).setFrame ctx c (some (runQueues b ctx s.now entryTime retries))) := by
  refine h.turn v fun f hf => ?_
  obtain rfl := Option.some.inj hf
  exact hseen.inTime_enter le_rfl _

theorem InTime.interruptEnd (h : InTime s) (htidy : Tidy w s) {deferred : Bool} {f : Frame T}
    (hends : Ends deferred s c f (s', o)) : InTime s' := by
  cases hends with
  | retry b hb =>
    have hevent : TidyOn w s.clock ⟨s.timers, (interruptEvent (s.cpuBase c) s.clock).2⟩ :=
      (htidy c).event.of_clockBase rfl rfl
    subst hb
    exact h.runQueues (hevent.interruptRetry s.now).seen _ _ _ _
  | done e b he hb => exact h.turn _ fun f hf => absurd hf (Option.not_mem_none f)

/-! ### The step lemma -/

variable [DecidableEq T] [Setup T]

theorem InTime.expire (h : InTime s) (htidy : Tidy w s) {deferred : Bool} {ctx : Context}
    (hs : expire deferred s ctx c = some (s', o)) : InTime s' := by
  obtain ⟨f, hf, hcallback, hturn⟩ := turn_of_expire hs
  have hframe := h ctx c f hf
  cases hturn with
  | next _ i rest htodo hlater =>
    refine h.setFrame fun f' hf' => ?_
    obtain rfl := Option.some.inj hf'
    exact (htidy.seen c).inTime_enter hframe.now rest
  | run _ i rest t htodo hfirst hdue =>
    refine h.turn _ fun f' hf' => ?_
    obtain rfl := Option.some.inj hf'
    exact ⟨hframe.now, hframe.basenow⟩
  | interruptEnd htodo hends => exact h.interruptEnd htidy hends
  | softirqEnd htodo => exact h.turn _ fun f hf => absurd hf (Option.not_mem_none f)

/-- **What one step preserves.** -/
theorem InTime.perform (h : InTime s) (htidy : Tidy w s) {deferred : Bool} {a : Action T Cpu}
    (hs : perform deferred s a = some (s', o)) : InTime s' := by
  have hnow : s.now ≤ s'.now := now_le_perform hs
  cases performed_of_perform hs with
  | interrupt c hnone =>
    exact h.runQueues ((htidy c).updateBase.interruptRetry s.now).seen _ _ _ _
  | softirq c hnone => exact h.runQueues (htidy c).updateBase.seen _ _ _ _
  | expire ctx c hs => exact h.expire htidy hs
  | callbackReturn ctx c hs =>
    obtain ⟨f, t, hf, -, rfl, -⟩ := of_callbackReturn hs
    refine h.turn _ fun f' hf' => ?_
    obtain rfl := Option.some.inj hf'
    exact ⟨(h ctx c f hf).now, (h ctx c f hf).basenow⟩
  | _ => exact inTime_of_frame h (frame_perform rfl hs) hnow

/-- Nothing is asked of the steps where no queue is considered. -/
theorem keepsOrder_nil (s : State T Cpu) (a : Action T Cpu) : KeepsOrder [] s a := by
  cases a with
  | start c t time delta rel user prefer target => exact fun h => absurd h List.not_mem_nil
  | _ => trivial

/-- What holds of every reachable state. -/
structure Sound (s : State T Cpu) : Prop where
  exclusive : Exclusive s
  tidy : Tidy [] s
  inTime : InTime s

theorem Sound.perform (h : Sound s) {deferred : Bool} {a : Action T Cpu}
    (hs : perform deferred s a = some (s', o)) : Sound s' where
  exclusive := h.exclusive.perform hs
  tidy := h.tidy.perform h.exclusive (keepsOrder_nil s a) hs
  inTime := h.inTime.perform h.tidy hs

/-- The run lemma. -/
theorem Sound.run (h : Sound s) {deferred : Bool} {ok : State T Cpu → Action T Cpu → Prop}
    (hrun : Run (step deferred) ok s s') : Sound s' := by
  refine hrun.invariant h fun hI _ hs => ?_
  obtain ⟨⟨_, o⟩, ho, rfl⟩ := Option.map_eq_some_iff.mp hs
  exact hI.perform ho

omit [DecidableEq Cpu] [DecidableEq T] in
theorem sound_start (now : Ktime) (cpuOf : T → Cpu) : Sound (start now cpuOf) :=
  ⟨⟨placed_start now cpuOf, expiring_start now cpuOf⟩, tidy_start [] now cpuOf,
    fun _ _ _ hf => absurd hf.symm (Option.some_ne_none _)⟩

/-- Time does not go back in a run. -/
theorem now_le_run {deferred : Bool} {ok : State T Cpu → Action T Cpu → Prop}
    (hrun : Run (step deferred) ok s s') : s.now ≤ s'.now := by
  refine hrun.invariant (I := fun s' => s.now ≤ s'.now) le_rfl fun hI _ hs => ?_
  obtain ⟨⟨_, o⟩, ho, rfl⟩ := Option.map_eq_some_iff.mp hs
  exact hI.trans (now_le_perform ho)

/-! ### The expiry of a timer -/

/-- The step writes the expiry of the timer. -/
def Action.sets (a : Action T Cpu) (t : T) : Prop :=
  match a with
  | .setup _ u | .setExpires u _ _ | .forward u _ _ | .start _ u _ _ _ _ _ _ => u = t
  | .pass .. | .setClock .. | .clockWasSet .. | .retrigger .. | .finishStart .. | .tryToCancel ..
  | .interrupt .. | .softirq .. | .expire .. | .callbackReturn .. | .rearmDeferred .. => False

instance (a : Action T Cpu) (t : T) : Decidable (a.sets t) :=
  match a with
  | .setup _ u | .setExpires u _ _ | .forward u _ _ | .start _ u _ _ _ _ _ _ =>
    inferInstanceAs (Decidable (u = t))
  | .pass .. | .setClock .. | .clockWasSet .. | .retrigger .. | .finishStart .. | .tryToCancel ..
  | .interrupt .. | .softirq .. | .expire .. | .callbackReturn .. | .rearmDeferred .. =>
    inferInstanceAs (Decidable False)

omit [DecidableEq Cpu] in
/-- A restart leaves the expiry alone, or sets it through the callback. -/
theorem restartHrtimer_expires (v : Locked T Cpu) (t : T) (restart : Bool) :
    ((restartHrtimer v t restart).timers t).softexpires = (v.timers t).softexpires ∧
      ((restartHrtimer v t restart).timers t).expires = (v.timers t).expires := by
  rw [restartHrtimer]
  split_ifs
  · show (setQueued v.timers t true t).softexpires = _ ∧ (setQueued v.timers t true t).expires = _
    rw [setQueued_self]
    exact ⟨rfl, rfl⟩
  · exact ⟨rfl, rfl⟩

/-- The expiry of a timer is what it has been set to. -/
theorem Exclusive.expires_perform (h : Exclusive s) {deferred : Bool} {a : Action T Cpu}
    (ha : ¬a.sets t) (hs : Hrtimer.perform deferred s a = some (s', o)) :
    (s'.timers t).softexpires = (s.timers t).softexpires ∧
      (s'.timers t).expires = (s.timers t).expires := by
  by_cases htouches : a.touches s t
  · cases performed_of_perform hs with
    | finishStart c hs =>
      obtain ⟨hsoft, hhard, -⟩ := finishStart_effect htouches hs
      exact ⟨hsoft, hhard⟩
    | tryToCancel c u hs =>
      obtain rfl : u = t := Option.some.inj htouches
      obtain ⟨⟨isQueued, -, htimer⟩, -⟩ := hrtimerTryToCancel_effect hs
      exact ⟨by rw [htimer], by rw [htimer]⟩
    | @callbackReturn ctx c restart _ hs =>
      obtain ⟨f, hf, hu, rfl⟩ := of_callbackReturn_callback htouches hs
      exact restartHrtimer_expires (s.view c) t restart
    | setup | setExpires | forward | start => exact absurd (Option.some.inj htouches) ha
    | _ => exact absurd htouches.symm (Option.some_ne_none t)
  · rcases perform_other h htouches hs with ⟨hspares, -⟩ | ⟨_, _, -, -, hexpires⟩
    · rw [hspares.timer]
      exact ⟨rfl, rfl⟩
    · rw [hexpires.timer]
      exact ⟨rfl, rfl⟩

/-- Timers expire while a CPU expires timers. -/
theorem touches_of_expired {deferred : Bool} {a : Action T Cpu}
    (hs : perform deferred s a = some (s', .expired t)) : ¬a.touches s t := by
  intro ht
  cases performed_of_perform hs with
  | start c u hfree hfits hs =>
    obtain ⟨-, -, -, -, hleaves⟩ := hrtimerStart_effect hs
    cases hleaves
  | finishStart c hs =>
    obtain ⟨-, -, -, -, hleaves⟩ := finishStart_effect ht hs
    cases hleaves
  | tryToCancel c u hs =>
    obtain ⟨-, -, -, -, ret, hret⟩ := hrtimerTryToCancel_effect hs
    cases hret
  | callbackReturn ctx c hs =>
    obtain ⟨f, u, -, -, -, ho⟩ := of_callbackReturn hs
    cases ho
  | expire ctx c hs => exact Option.some_ne_none t ht.symm
  | clockWasSet c hs => cases hs
  | rearmDeferred c hnone hs => cases hs

/-- The timer that expires is due. -/
theorem Sound.expired_due (h : Sound s) {deferred : Bool} {a : Action T Cpu}
    (ht : (index t).isMonotonic = true)
    (hs : Hrtimer.perform deferred s a = some (s', .expired t)) :
    (s.timers t).softexpires ≤ s.now := by
  have htouches := touches_of_expired hs
  rcases perform_other h.exclusive htouches hs with ⟨-, ho⟩ | ⟨ctx, c, -, -, hexpires⟩
  · exact absurd rfl ho
  · obtain ⟨f, hf, -, hhead, hdue⟩ := hexpires.frame
    exact (not_lt.mp hdue).trans ((h.inTime ctx c f hf).basenow (index t) hhead ht)

/-! ### The main result -/

/-- The sum of two times, or the last time that there is, or a later one. -/
theorem min_le_ktimeAddSafe {lhs rhs : ℤ} (hl : lhs ≤ ktimeMax) (hr : 0 ≤ rhs) :
    min (lhs + rhs) ktimeMax ≤ ktimeAddSafe lhs rhs := by
  have hl : lhs ≤ (9223372036854775807 : ℤ) := hl
  show min (lhs + rhs) 9223372036854775807 ≤ if wrap64 (lhs + rhs) < 0 ∨ wrap64 (lhs + rhs) < lhs ∨
    wrap64 (lhs + rhs) < rhs then (9223372036854775807 : ℤ) else wrap64 (lhs + rhs)
  rw [wrap64]
  split_ifs <;> omega

/-- **No timer of `CLOCK_MONOTONIC` expires before its time**, whatever has happened to it since
it was started. -/
theorem never_early {deferred : Bool} {now : Ktime} {cpuOf : T → Cpu} {s₁ s₂ s₃ : State T Cpu}
    (hboot : 0 ≤ now) (h : Reachable (step deferred) (start now cpuOf) s)
    (ht : (index t).isMonotonic = true) {time delta : Ktime}
    {rel user prefer : Bool} {target : Cpu}
    (hstart : perform deferred s (.start c t time delta rel user prefer target) = some (s₁, o))
    (hrun : Run (step deferred) (fun _ a => ¬a.sets t) s₁ s₂) {a : Action T Cpu}
    (hexpired : perform deferred s₂ a = some (s₃, .expired t)) :
    min (if rel then time + s.now else time) ktimeMax ≤ s₂.now := by
  have hsound : Sound s := (sound_start now cpuOf).run h
  have hsound₁ : Sound s₁ := hsound.perform hstart
  have hsoft : (s₂.timers t).softexpires = (s₁.timers t).softexpires := by
    refine (hrun.invariant (I := fun s' => Sound s' ∧
      (s'.timers t).softexpires = (s₁.timers t).softexpires) ⟨hsound₁, rfl⟩ fun hI ha hs => ?_).2
    obtain ⟨⟨_, o⟩, ho, rfl⟩ := Option.map_eq_some_iff.mp hs
    exact ⟨hI.1.perform ho, (hI.1.exclusive.expires_perform ha ho).1.trans hI.2⟩
  have hdue := (hsound₁.run hrun).expired_due ht hexpired
  cases performed_of_perform hstart with | start _ _ _ hfits hs => ?_
  rw [hsoft, (hrtimerStart_effect hs).1, startTime] at hdue
  have hmax : time ≤ ktimeMax := hfits.2
  cases rel with
  | false => exact (min_le_left _ _).trans hdue
  | true =>
    have hnow : 0 ≤ s.now := hboot.trans (now_le_run h)
    have hzero : s.clock.of (index t) = 0 := Offsets.of_isMonotonic ht s.clock
    rw [if_pos rfl, hzero, Int.add_zero] at hdue
    exact (min_le_ktimeAddSafe hmax hnow).trans hdue

/-- The timer is started by one CPU for another one, which does not suit it, and it expires late. -/
theorem never_early_pair :
    let before := (pairAfter [.pass 40]).get (by decide)
    let first := (step false before
      (.start false .left 100 20 true false false true)).get (by decide)
    let last := (exec (step false) (fun _ a => ¬a.sets .left)
      [.finishStart false, .pass 105, .finishStart false, .interrupt false] first).get (by decide)
    min (if true then 100 + before.now else 100) ktimeMax ≤ last.now := by
  intro before first last
  have hstart : perform false before (.start false .left 100 20 true false false true) =
      some (first, .quiet) := rfl
  have hexpired : (perform false last (.expire .hardirq false)).map Prod.snd =
      some (.expired .left) := by decide
  obtain ⟨⟨s₃, o⟩, hs₃, rfl⟩ := Option.map_eq_some_iff.mp hexpired
  exact never_early le_rfl (reachable_pairAfter _) rfl hstart (run_of_exec (Option.some_get _).symm)
    hs₃

end Hrtimer

end HrtimerStudy
