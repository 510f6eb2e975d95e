import HrtimerStudy.Hrtimer.Effects

/-!
# Cancelled timers

When `hrtimer_try_to_cancel` has taken the lock and returns 0 or 1, the timer is inactive: it is in
no queue and its callback does not run. An inactive timer stays inactive, and does not expire,
until somebody starts it.

Without the lock there is `hrtimer_active`, which reads the timer and then its base. A start on
another CPU can come between the two, or between them and the return. If there is none, the two
reads are as good as a look at the later one of the two states.

## Main definitions

* `Inactive` — neither queued, nor running, nor on its way to a queue
* `Action.queues` — the step may put the timer into a queue

## Main results

* `Inactive.perform` — what one step preserves
* `cancel_final` — **a cancelled timer does not expire** before it is started again
* `inactive_of_reads` — the check without the lock, of a timer that nobody starts meanwhile
-/

namespace HrtimerStudy

namespace Hrtimer

open Setup (index isLazy)

variable {T Cpu : Type*} [DecidableEq Cpu]
variable {s s' : State T Cpu} {c cpu target : Cpu} {t u : T} {v : Locked T Cpu}

/-- The timer is neither queued, nor running, nor on its way to a queue. -/
structure Inactive (s : State T Cpu) (t : T) : Prop where
  queued : (s.timers t).isQueued = false
  cpu : (s.timers t).cpu ≠ none
  callback : ∀ ctx c f, s.frame ctx c = some f → f.callback ≠ some t

/-- The step starts the timer. -/
def Action.starts (a : Action T Cpu) (t : T) : Prop :=
  match a with
  | .start _ u _ _ _ _ _ _ => u = t
  | _ => False

instance [DecidableEq T] (a : Action T Cpu) (t : T) : Decidable (a.starts t) :=
  match a with
  | .start _ u _ _ _ _ _ _ => inferInstanceAs (Decidable (u = t))
  | .pass .. | .setClock .. | .clockWasSet .. | .retrigger .. | .setup .. | .setExpires ..
  | .forward .. | .finishStart .. | .tryToCancel .. | .interrupt .. | .softirq .. | .expire ..
  | .callbackReturn .. | .rearmDeferred .. => inferInstanceAs (Decidable False)

/-! ### The step lemma -/

omit [DecidableEq Cpu] in
theorem Inactive.callback_ne (h : Inactive s t) (ctx : Context) (c : Cpu) :
    s.callback ctx c ≠ some t := by
  intro ht
  obtain ⟨f, hf, hu⟩ := State.callback_eq_some.mp ht
  exact h.callback ctx c f hf hu

omit [DecidableEq Cpu] in
theorem Inactive.spares (h : Inactive s t) (hs : Spares t s s') : Inactive s' t := by
  refine ⟨hs.timer ▸ h.queued, hs.timer ▸ h.cpu, fun ctx c f hf hu => ?_⟩
  exact h.callback_ne ctx c ((hs.callback ctx c).mp (State.callback_eq_some.mpr ⟨f, hf, hu⟩))

variable [DecidableEq T]

omit [DecidableEq Cpu] in
/-- The fields of the timer are written. -/
theorem Inactive.setTimer (h : Inactive s t) {timer : Timer Cpu} (hqueued : timer.isQueued = false)
    (hcpu : timer.cpu ≠ none) :
    Inactive { s with timers := Function.update s.timers t timer } t := by
  refine ⟨?_, ?_, h.callback⟩
  · show (Function.update s.timers t timer t).isQueued = false
    rw [Function.update_self, hqueued]
  · show (Function.update s.timers t timer t).cpu ≠ none
    rw [Function.update_self]
    exact hcpu

variable [Setup T]

/-- **What one step preserves.** -/
theorem Inactive.perform (h : Inactive s t) (he : Exclusive s) {deferred : Bool}
    {a : Action T Cpu} (ha : ¬a.starts t) {o : Outcome T}
    (hs : perform deferred s a = some (s', o)) : Inactive s' t ∧ o ≠ .expired t := by
  by_cases htouches : a.touches s t
  · cases performed_of_perform hs with
    | setup c u =>
      obtain rfl : u = t := Option.some.inj htouches
      exact ⟨h.setTimer rfl (Option.some_ne_none c), nofun⟩
    | setExpires u time delta hq =>
      obtain rfl : u = t := Option.some.inj htouches
      exact ⟨h.setTimer h.queued h.cpu, nofun⟩
    | forward u now interval =>
      obtain rfl : u = t := Option.some.inj htouches
      obtain ⟨hqueued, hcpu⟩ := hrtimerForward_fields (s.timers u) now interval
      exact ⟨h.setTimer (hqueued.trans h.queued) (hcpu.trans_ne h.cpu), nofun⟩
    | tryToCancel c u hs =>
      obtain rfl : u = t := Option.some.inj htouches
      obtain ⟨⟨isQueued, hqueued, htimer⟩, hframe, -, -, ret, rfl⟩ := hrtimerTryToCancel_effect hs
      refine ⟨⟨?_, ?_, hframe ▸ h.callback⟩, nofun⟩
      · rw [htimer]
        exact Bool.eq_false_iff.mpr fun hq => absurd (hqueued hq) (by simp [h.queued])
      · rw [htimer]
        exact h.cpu
    | start => exact absurd (Option.some.inj htouches) ha
    -- a timer on its way to a queue has no base
    | finishStart => exact absurd (he.placed.cpu_of_startingTimer htouches) h.cpu
    | callbackReturn ctx c => exact absurd htouches (h.callback_ne ctx c)
    | _ => exact absurd htouches.symm (Option.some_ne_none t)
  · rcases perform_other he htouches hs with ⟨hspares, ho⟩ | ⟨ctx, c, -, -, hexpires⟩
    · exact ⟨h.spares hspares, ho⟩
    · exact absurd (h.queued.symm.trans hexpires.queued) Bool.false_ne_true

/-- The run lemma. -/
theorem Inactive.run (h : Inactive s t) (he : Exclusive s) {deferred : Bool}
    (hrun : Run (step deferred) (fun _ a => ¬a.starts t) s s') : Inactive s' t ∧ Exclusive s' := by
  refine hrun.invariant (I := fun s => Inactive s t ∧ Exclusive s) ⟨h, he⟩ fun hI ha hs => ?_
  obtain ⟨⟨_, o⟩, ho, rfl⟩ := Option.map_eq_some_iff.mp hs
  exact ⟨(hI.1.perform hI.2 ha ho).1, hI.2.step hs⟩

/-! ### Without the lock -/

/-- The step may put the timer into a queue. -/
def Action.queues (s : State T Cpu) (a : Action T Cpu) (t : T) : Prop :=
  match a with
  | .start _ u _ _ _ _ _ _ => u = t
  | .finishStart c => s.startingTimer c = some t
  | .callbackReturn ctx c restart => restart = true ∧ s.callback ctx c = some t
  | _ => False

/-- A timer that is not queued stays so. -/
theorem unqueued_perform (he : Exclusive s) {deferred : Bool} {a : Action T Cpu}
    (ha : ¬a.queues s t) {o : Outcome T} (hq : (s.timers t).isQueued = false)
    (hs : perform deferred s a = some (s', o)) : (s'.timers t).isQueued = false := by
  by_cases htouches : a.touches s t
  · cases performed_of_perform hs with
    | setup c u =>
      obtain rfl : u = t := Option.some.inj htouches
      show (Function.update s.timers u _ u).isQueued = false
      rw [Function.update_self]
    | setExpires u time delta =>
      obtain rfl : u = t := Option.some.inj htouches
      exact (congrArg Timer.isQueued (setExpires_self ..)).trans hq
    | forward u now interval =>
      obtain rfl : u = t := Option.some.inj htouches
      show (Function.update s.timers u _ u).isQueued = false
      rw [Function.update_self]
      exact (hrtimerForward_fields (s.timers u) now interval).1.trans hq
    | tryToCancel c u hs =>
      obtain rfl : u = t := Option.some.inj htouches
      obtain ⟨⟨isQueued, hqueued, htimer⟩, -⟩ := hrtimerTryToCancel_effect hs
      rw [htimer]
      exact Bool.eq_false_iff.mpr fun hq' => Bool.false_ne_true (hq.symm.trans (hqueued hq'))
    | start => exact absurd (Option.some.inj htouches) ha
    | finishStart => exact absurd htouches ha
    | @callbackReturn ctx c restart _ hs =>
      -- the callback does not ask for a restart
      obtain ⟨f, hf, hu, rfl⟩ := of_callbackReturn_callback htouches hs
      obtain rfl : restart = false := Bool.eq_false_iff.mpr fun hr => ha ⟨hr, htouches⟩
      exact hq
    | _ => exact absurd htouches.symm (Option.some_ne_none t)
  · obtain ⟨hspares, -⟩ | ⟨ctx, c, -, -, hexpires⟩ := perform_other he htouches hs
    · rw [hspares.timer, hq]
    · rw [hexpires.timer]

/-- **The check without the lock.** `is_queued` is read first, and the base with `running` later. If
nothing may have queued the timer in between, then it is inactive at the second read. -/
theorem inactive_of_reads {deferred : Bool} (he : Exclusive s)
    (hrun : Run (step deferred) (fun s a => ¬a.queues s t) s s')
    (hq : (s.timers t).isQueued = false) (hcpu : (s'.timers t).cpu = some cpu)
    (hidle : callbackRunning s' cpu t = false) : Inactive s' t := by
  have hstays : (s'.timers t).isQueued = false ∧ Exclusive s' := by
    refine hrun.invariant (I := fun s => (s.timers t).isQueued = false ∧ Exclusive s) ⟨hq, he⟩
      fun hI ha hs => ?_
    obtain ⟨⟨_, o⟩, ho, rfl⟩ := Option.map_eq_some_iff.mp hs
    exact ⟨unqueued_perform hI.2 ha hI.1 ho, hI.2.step hs⟩
  exact ⟨hstays.1, hcpu.trans_ne (Option.some_ne_none cpu),
    fun _ _ _ hf => hstays.2.expiring.callback_ne hcpu hidle hf⟩

/-! ### The main result -/

theorem Exclusive.inactive_of_tried (h : Exclusive s) {ret : ℤ}
    (hcancel : hrtimerTryToCancel s c t = some (s', .tried ret)) (hret : 0 ≤ ret) :
    Inactive s' t := by
  obtain ⟨cpu, hcpu, htries⟩ := tries_of_hrtimerTryToCancel hcancel
  cases htries with
  | running h => exact absurd hret (by decide)
  | removed hrunning =>
    refine ⟨?_, ?_, fun _ _ _ hf => h.expiring.callback_ne hcpu hrunning hf⟩
    · exact (isQueued_remove (s.view cpu) t false _).trans (Bool.and_false _)
    · show ((rawRemoveHrtimer (s.view cpu) t false _).timers t).cpu ≠ none
      rw [(keeps_remove (s.view cpu) t false _).cpu]
      exact hcpu.trans_ne (Option.some_ne_none cpu)

omit [DecidableEq Cpu] [DecidableEq T] in
/-- An inactive timer is in no queue, of any CPU. -/
theorem Inactive.not_mem (h : Inactive s t) (hplaced : Placed none s) (c : Cpu) (i : BaseType) :
    t ∉ ((s.cpuBase c).clockBase i).active := by
  intro hmem
  have hq := (((hplaced.queues c).mem_active i t).mp hmem).1
  exact Bool.false_ne_true (h.queued.symm.trans hq)

/-- **A cancelled timer does not expire** before it is started again. -/
theorem cancel_final {deferred : Bool} {now : Ktime} {cpuOf : T → Cpu} {s₁ s₂ : State T Cpu}
    (h : Reachable (step deferred) (start now cpuOf) s) {ret : ℤ}
    (hcancel : perform deferred s (.tryToCancel c t) = some (s₁, .tried ret)) (hret : 0 ≤ ret)
    (hrun : Run (step deferred) (fun _ a => ¬a.starts t) s₁ s₂) :
    Inactive s₂ t ∧ (∀ c i, t ∉ ((s₂.cpuBase c).clockBase i).active) ∧
      ∀ a s₃ o, ¬a.starts t → perform deferred s₂ a = some (s₃, o) → o ≠ .expired t := by
  have he := exclusive_of_reachable h
  have he₁ : Exclusive s₁ := he.perform hcancel
  cases performed_of_perform hcancel with | tryToCancel _ _ hs => ?_
  obtain ⟨hinactive, he₂⟩ := (he.inactive_of_tried hs hret).run he₁ hrun
  exact ⟨hinactive, hinactive.not_mem he₂.placed,
    fun a _ o ha ho => (hinactive.perform he₂ ha ho).2⟩

/-- The right timer is cancelled by the other CPU while the left one expires, and time passes. -/
theorem cancel_final_pair :
    let before := (pairAfter [.start false .left 100 0 false false true false,
      .start true .right 100 0 false false true true, .pass 100, .interrupt false,
      .expire .hardirq false]).get (by decide)
    let after := (step false before (.tryToCancel false .right)).get (by decide)
    let last := (exec (step false) (fun _ a => ¬a.starts .right)
      [.callbackReturn .hardirq false false, .pass 50, .interrupt true] after).get (by decide)
    Inactive last .right ∧ (∀ c i, .right ∉ ((last.cpuBase c).clockBase i).active) ∧
      ∀ a s o, ¬a.starts .right → perform false last a = some (s, o) → o ≠ .expired .right := by
  intro before after last
  have hcancel : perform false before (.tryToCancel false .right) = some (after, .tried 1) := rfl
  exact cancel_final (reachable_pairAfter _) hcancel (by decide)
    (run_of_exec (Option.some_get _).symm)

end Hrtimer

end HrtimerStudy
