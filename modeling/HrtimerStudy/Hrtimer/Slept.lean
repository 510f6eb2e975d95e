import HrtimerStudy.Hrtimer.Nanosleep
import Mathlib.Order.MinMax

/-!
# How long a task sleeps

A sleep on `CLOCK_MONOTONIC` that returns 0 has lasted as long as it was asked to, and a remaining
time that is handed to the user is not too short. So it is however often the task is woken up
without need, and however often it is interrupted and its sleep restarted: `do_nanosleep` keeps the
absolute expiry in its timer, and `hrtimer_nanosleep` keeps it in the restart block.

## Main definitions

* `Sleeper.Until` — the sleeper does not go on before a time
* `Move.leaves` — the sleep is over, and the memory of its timer is free

## Main results

* `SleepsUntil.advance` — what one step preserves
* `nanosleep_slept` — **no sleep is too short**
-/

namespace HrtimerStudy

namespace Hrtimer

open Setup (index isLazy)

variable {T Cpu : Type*} {s s' : State T Cpu} {c target : Cpu} {t u : T} {o : Outcome T}
variable {sl sl' : Sleeper Cpu} {time : Ktime}

/-! ### The time until which a task sleeps -/

/-- The expiry of the timer is still relative. -/
def Sleeper.unstarted (sl : Sleeper Cpu) : Bool :=
  sl.rel &&
    match sl.point with
    | .loop | .ready => true
    | .starting _ | .started | .scheduling | .asleep | .cancelling | .cancelled | .returned _ =>
      false

/-- The sleeper does not go on before a time. -/
structure Sleeper.Until (sl : Sleeper Cpu) (time : Ktime) (s : State T Cpu) (t : T) : Prop where
  relative : sl.unstarted = true → time ≤ min ((s.timers t).softexpires + s.now) ktimeMax
  absolute : sl.unstarted = false →
    time ≤ (s.timers t).softexpires ∧ time ≤ (s.timers t).expires ∧
      (s.timers t).expires ≤ ktimeMax
  called : sl.wakeup = some .called → time ≤ s.now
  cleared : sl.task = false → time ≤ s.now
  restart : ∀ expires ∈ sl.restart, time ≤ expires ∧ expires ≤ ktimeMax
  remaining : ∀ rem ∈ sl.remaining, time ≤ s.now + rem
  returned : sl.point = .returned 0 → time ≤ s.now

/-- Time goes on, and the sleeper stays where it is. -/
theorem Sleeper.Until.mono (h : sl.Until time s t) (hsoft : (s'.timers t).softexpires =
    (s.timers t).softexpires) (hhard : (s'.timers t).expires = (s.timers t).expires)
    (hnow : s.now ≤ s'.now) : sl.Until time s' t where
  relative := by
    intro hrel
    rw [hsoft]
    exact (h.relative hrel).trans (min_le_min_right _ (Int.add_le_add_left hnow _))
  absolute := by
    rw [hsoft, hhard]
    exact h.absolute
  called := fun hw => (h.called hw).trans hnow
  cleared := fun ht => (h.cleared ht).trans hnow
  restart := h.restart
  remaining := fun rem hr => (h.remaining rem hr).trans (Int.add_le_add_right hnow rem)
  returned := fun hp => (h.returned hp).trans hnow

/-- The timer is left alone, and the memory of the expiry. -/
theorem Sleeper.Until.stay (h : sl.Until time s t) (hunstarted : sl'.unstarted = sl.unstarted)
    (hcalled : sl'.wakeup = some .called → time ≤ s.now)
    (hcleared : sl'.task = false → time ≤ s.now) (hrestart : sl'.restart = sl.restart)
    (hremaining : sl'.remaining = sl.remaining)
    (hreturned : sl'.point = .returned 0 → time ≤ s.now) : sl'.Until time s t where
  relative := hunstarted ▸ h.relative
  absolute := hunstarted ▸ h.absolute
  called := hcalled
  cleared := hcleared
  restart := hrestart ▸ h.restart
  remaining := hremaining ▸ h.remaining
  returned := hreturned

/-- The loop is left. The time that is left is the time until the hard expiry. -/
theorem Sleeper.Until.leaveLoop (h : sl.Until time s t) {rem : Ktime}
    (hrem : (s.timers t).expires = s.now + rem) (hunstarted : sl.unstarted = false) {ret : ℤ}
    {restart remaining : Option Ktime} (hret : ret = 0 → sl.task = false ∨ rem ≤ 0)
    (hrestart : ∀ e ∈ restart, e ∈ sl.restart ∨ e = (s.timers t).expires)
    (hremaining : ∀ r ∈ remaining, r ∈ sl.remaining ∨ r = rem) : Until { sl with
      rel := false
      interruptible := false
      point := .returned ret
      restart := restart
      remaining := remaining } time s t := by
  obtain ⟨hsoft, hhard, hmax⟩ := h.absolute hunstarted
  refine ⟨fun hrel => absurd hrel Bool.false_ne_true, fun _ => ⟨hsoft, hhard, hmax⟩, h.called,
    h.cleared, fun e he => ?_, fun r hr => ?_, fun hzero => ?_⟩
  · rcases hrestart e he with hold | rfl
    · exact h.restart e hold
    · exact ⟨hhard, hmax⟩
  · rcases hremaining r hr with hold | rfl
    · exact h.remaining r hold
    · exact hhard.trans hrem.le
  · injection hzero with hzero
    rcases hret hzero with htask | hover
    · exact h.cleared htask
    · rw [hrem] at hhard
      exact hhard.trans ((Int.add_le_add_left hover s.now).trans (Int.add_zero _).le)

/-- A step of a sleeper. -/
theorem Sleeper.Until.moved (h : sl.Until time s t) {rem : Ktime}
    (hrem : (s.timers t).expires = s.now + rem) (hs : sl.Moved (s.timers t).expires rem sl') :
    sl'.Until time s t := by
  have hpoint {p : Point Cpu} (hp : p ≠ .returned 0) : p = .returned 0 → time ≤ s.now :=
    fun h => absurd h hp
  cases hs with
  | setState hp =>
    exact h.stay (by simp [unstarted, hp]) h.called h.cleared rfl rfl (hpoint (by simp))
  | task hp =>
    exact h.stay (by simp [unstarted, hp]) h.called h.cleared rfl rfl (hpoint (by simp))
  | noTask hp =>
    exact h.stay (by simp [unstarted, hp]) h.called h.cleared rfl rfl (hpoint (by simp))
  | schedule hp =>
    exact h.stay (by simp [unstarted, hp]) h.called h.cleared rfl rfl (hpoint (by simp))
  | resume hp =>
    exact h.stay (by simp [unstarted, hp]) h.called h.cleared rfl rfl (hpoint (by simp))
  | again hp htask =>
    -- `mode` becomes `HRTIMER_MODE_ABS`, and the expiry has been absolute since the start
    exact h.stay (by simp [unstarted, hp]) h.called h.cleared rfl rfl (hpoint (by simp))
  | leaveLoop hp hret hrestart hremaining =>
    exact h.leaveLoop hrem (by simp [unstarted, hp]) hret hrestart hremaining
  | clear hw => exact h.stay rfl (fun hc => by cases hc) (fun _ => h.called hw) rfl rfl h.returned
  | wakeUp hw => exact h.stay rfl (fun hc => by cases hc) h.cleared rfl rfl h.returned
  | signal pending => exact h.stay rfl h.called h.cleared rfl rfl h.returned
  | poke => exact h.stay rfl h.called h.cleared rfl rfl h.returned

/-! ### Steps of the kernel -/

theorem Sleeper.Until.spares (h : sl.Until time s t) (hs : Spares t s s')
    (hnow : s.now ≤ s'.now) : sl.Until time s' t :=
  h.mono (by rw [hs.timer]) (by rw [hs.timer]) hnow

theorem Sleeper.unstarted_eq_false
    (h : sl.point.waits = true ∧ (sl.interruptible = true → sl.Awaits s t) ∨
      sl.point = .cancelling) : sl.unstarted = false := by
  rw [unstarted]
  obtain ⟨hwaits, -⟩ | hp := h
  · cases hp : sl.point with
    | loop => rw [hp] at hwaits; cases hwaits
    | ready => rw [hp] at hwaits; cases hwaits
    | _ => exact Bool.and_false _
  · rw [hp]
    exact Bool.and_false _

variable [Setup T]

/-- For `CLOCK_MONOTONIC` a CPU knows whether a timer is due. -/
theorem Sound.due (h : Sound s) (ht : (index t).isMonotonic = true) (hdue : Due s t) :
    (s.timers t).softexpires ≤ s.now := by
  obtain ⟨cpu, -, hle⟩ := hdue
  rwa [(h.tidy.seen cpu).offset_of_isMonotonic ht, Int.sub_zero] at hle

/-- The timer has been started. -/
theorem Sleeper.Until.afterStart (h : sl.Until time s t) (hsound : Sound s')
    (ht : (index t).isMonotonic = true) (hnow : s'.now = s.now) (hwakeup : sl.wakeup = none)
    (hexpiry : time ≤ (s'.timers t).softexpires ∧ time ≤ (s'.timers t).expires ∧
      (s'.timers t).expires ≤ ktimeMax)
    (hleaves : StartLeaves s' c t o) : (sl.afterStart c o).Until time s' t := by
  have hcalled {p : Prop} (hc : sl.wakeup = some .called) : p :=
    absurd (hc.symm.trans hwakeup) (Option.some_ne_none _)
  have hremaining : ∀ rem ∈ sl.remaining, time ≤ s'.now + rem := hnow ▸ h.remaining
  have hcleared : sl.task = false → time ≤ s'.now := hnow ▸ h.cleared
  cases hleaves with
  | moving hcpu hstarting =>
    exact ⟨fun hrel => absurd hrel (by simp [Sleeper.afterStart, unstarted]), fun _ => hexpiry,
      hcalled, hcleared, h.restart, hremaining, fun hp => by cases hp⟩
  | placed ret hcpu hqueued hdue =>
    cases ret with
    | true =>
      exact ⟨fun hrel => absurd hrel (by simp [Sleeper.afterStart, unstarted]), fun _ => hexpiry,
        hcalled, hcleared, h.restart, hremaining, fun hp => by cases hp⟩
    | false =>
      have hover : time ≤ s'.now := hexpiry.1.trans (hsound.due ht (hdue rfl))
      exact ⟨fun hrel => absurd hrel (by simp [Sleeper.afterStart, unstarted]), fun _ => hexpiry,
        hcalled, fun _ => hover, h.restart, hremaining, fun hp => by cases hp⟩

variable [DecidableEq T] [DecidableEq Cpu] {deferred : Bool}

/-- The callback of the sleeper is called. -/
theorem Sleeper.Until.expires (h : sl.Until time s t) (hinv : sl.Inv s t) (hsound : Sound s)
    (ht : (index t).isMonotonic = true) {a : Action T Cpu} {ctx : Context}
    (hs : perform deferred s a = some (s', .expired t)) (hexpires : Expires ctx c t s s') :
    Until { sl with wakeup := some .called } time s' t := by
  have hactive : ¬Inactive s t := fun hi =>
    Bool.false_ne_true (hi.queued.symm.trans hexpires.queued)
  have hcpu : (s.timers t).cpu ≠ none := hexpires.cpu.trans_ne (Option.some_ne_none c)
  have hunstarted := unstarted_eq_false (hinv.of_active hsound.exclusive.placed hcpu hactive)
  have hnow := now_le_perform hs
  have hmono : sl.Until time s' t :=
    h.mono (by rw [hexpires.timer]) (by rw [hexpires.timer]) hnow
  refine hmono.stay rfl (fun _ => ?_) hmono.cleared rfl rfl hmono.returned
  exact ((h.absolute hunstarted).1.trans (hsound.expired_due ht hs)).trans hnow

/-- The timer of a sleeper is started. -/
theorem Sleeper.Until.start (h : sl.Until time s t) (hinv : sl.Inv s t) (hsound : Sound s')
    (ht : (index t).isMonotonic = true) (hnow : 0 ≤ s.now) (hpoint : sl.point = .ready)
    {delta : Ktime} {user prefer : Bool} (hfits : (s.timers t).softexpires ≤ ktimeMax)
    (hs : hrtimerStart s c t (s.timers t).softexpires delta sl.rel user prefer target =
      some (s', o)) : (sl.afterStart c o).Until time s' t := by
  have hready := hinv.atPoint
  unfold AtPoint at hready
  rw [hpoint] at hready
  obtain ⟨hsoft, hhard, -, hnow', hleaves⟩ := hrtimerStart_effect hs
  have hzero : s.clock.of (index t) = 0 := Offsets.of_isMonotonic ht s.clock
  have htime : time ≤ startTime s t (s.timers t).softexpires sl.rel ∧
      startTime s t (s.timers t).softexpires sl.rel ≤ ktimeMax := by
    rw [startTime, hzero, Int.add_zero]
    cases hrel : sl.rel with
    | false =>
      have hunstarted : sl.unstarted = false := by rw [unstarted, hrel, Bool.false_and]
      exact ⟨(h.absolute hunstarted).1, hfits⟩
    | true =>
      have hunstarted : sl.unstarted = true := by rw [unstarted, hrel, hpoint]; rfl
      rw [if_pos rfl]
      exact ⟨(h.relative hunstarted).trans (min_le_ktimeAddSafe hfits hnow), ktimeAddSafe_le _ _⟩
  refine h.afterStart hsound ht hnow' (hinv.wakeup_eq_none hready.1) ?_ hleaves
  rw [hsoft, hhard]
  exact ⟨htime.1, htime.1.trans (le_ktimeAddSafe htime.2), ktimeAddSafe_le _ _⟩

/-- The start of the timer of a sleeper is finished. -/
theorem Sleeper.Until.finishStart (h : sl.Until time s t) (hinv : sl.Inv s t) (he : Exclusive s)
    (hsound : Sound s') (ht : (index t).isMonotonic = true) (hpoint : sl.point = .starting c)
    (hs : finishStart s c = some (s', o)) : (sl.afterStart c o).Until time s' t := by
  have hstarting := hinv.atPoint
  unfold AtPoint at hstarting
  rw [hpoint] at hstarting
  obtain ⟨hsoft, hhard, -, hnow, hleaves⟩ := finishStart_effect hstarting.1 hs
  refine h.afterStart hsound ht hnow (hinv.idle_of_starting he hpoint).2 ?_ hleaves
  rw [hsoft, hhard]
  exact h.absolute (by simp [unstarted, hpoint])

omit [DecidableEq T] [DecidableEq Cpu] [Setup T] in
/-- `hrtimer_cancel` is done. -/
theorem Sleeper.Until.cancelled (h : sl.Until time s t) (hpoint : sl.point = .cancelling) :
    Until { sl with point := .cancelled } time s t :=
  h.stay (by simp [unstarted, hpoint]) h.called h.cleared rfl rfl fun hp => by cases hp

theorem Sleeper.Until.cancel (h : sl.Until time s t) (hpoint : sl.point = .cancelling)
    (hs : hrtimerTryToCancel s c t = some (s', o)) : (sl.afterCancel o).Until time s' t := by
  obtain ⟨⟨isQueued, -, htimer⟩, -, -, hnow, ret, rfl⟩ := hrtimerTryToCancel_effect hs
  have hmono : sl.Until time s' t := h.mono (by rw [htimer]) (by rw [htimer]) hnow.ge
  rw [afterCancel]
  split_ifs
  · exact hmono
  · exact hmono.cancelled hpoint

/-- The callback returns. -/
theorem Sleeper.Until.callbackReturn (h : sl.Until time s t) (he : Exclusive s) {ctx : Context}
    (hs : perform deferred s (.callbackReturn ctx c false) = some (s', o)) :
    Until { sl with wakeup := none } time s' t := by
  obtain ⟨hsoft, hhard⟩ := he.expires_perform (t := t) id hs
  have hmono : sl.Until time s' t := h.mono hsoft hhard (now_le_perform hs)
  exact hmono.stay rfl (fun hw => by cases hw) hmono.cleared rfl rfl hmono.returned

omit [DecidableEq T] [DecidableEq Cpu] [Setup T] in
/-- The sleep goes on until the expiry in the restart block. -/
theorem Sleeper.Until.restarted (h : sl.Until time s t) {expires : Ktime}
    (hrestart : sl.restart = some expires) (hnow : s'.now = s.now)
    (hsoft : (s'.timers t).softexpires = expires)
    (hhard : (s'.timers t).expires = ktimeAddSafe expires 0) :
    Until { sl with point := .loop, task := true, rel := false, restarted := true } time s' t := by
  obtain ⟨hle, hmax⟩ := h.restart expires (by rw [hrestart]; rfl)
  refine ⟨fun hrel => absurd hrel Bool.false_ne_true, fun _ => ?_,
    fun hw => (h.called hw).trans hnow.ge, fun h => absurd h.symm Bool.false_ne_true, h.restart,
    hnow ▸ h.remaining, fun hp => by cases hp⟩
  rw [hsoft, hhard]
  exact ⟨hle, hle.trans (le_ktimeAddSafe hmax), ktimeAddSafe_le _ _⟩

/-! ### The step lemma -/

/-- The task sleeps until a time. -/
def SleepsUntil (time : Ktime) (σ : Tasks T Cpu) (t : T) : Prop :=
  ∃ sl, σ.sleeper t = some sl ∧ sl.Until time σ.kernel t

variable {σ σ' : Tasks T Cpu}

omit [Setup T] [DecidableEq Cpu] in
/-- Another sleeper goes on. -/
theorem SleepsUntil.other (h : SleepsUntil time σ t) (hu : t ≠ u) (hs : Spares t σ.kernel s')
    (hnow : σ.kernel.now ≤ s'.now) (sl' : Option (Sleeper Cpu)) :
    SleepsUntil time ((σ.setKernel s').setSleeper u sl') t := by
  obtain ⟨sl, hsl, huntil⟩ := h
  exact ⟨sl, (sleeper_setSleeper_of_ne _ hu).trans hsl, huntil.spares hs hnow⟩

omit [Setup T] [DecidableEq Cpu] in
/-- A sleeper goes on, this one or another. -/
theorem SleepsUntil.set {k : State T Cpu} (h : SleepsUntil time σ t) (hsl : σ.sleeper u = some sl)
    (hnow : σ.kernel.now ≤ k.now) (hother : t ≠ u → Spares t σ.kernel k)
    (hown : t = u → sl.Until time σ.kernel t → sl'.Until time k t) :
    SleepsUntil time ((σ.setKernel k).setSleeper u (some sl')) t := by
  rcases eq_or_ne t u with rfl | hu
  · obtain ⟨sl₀, hsl₀, huntil⟩ := h
    obtain rfl : sl = sl₀ := Option.some.inj (hsl.symm.trans hsl₀)
    exact ⟨sl', sleeper_setSleeper_self .., hown rfl huntil⟩
  · exact h.other hu (hother hu) hnow _

/-- It goes on with a step of the kernel about its timer. -/
theorem SleepsUntil.own (h : SleepsUntil time σ t) (he : Exclusive σ.kernel)
    (hsl : σ.sleeper u = some sl) {a : Action T Cpu} (ha : a.touched σ.kernel = some u)
    (ho : perform deferred σ.kernel a = some (s', o))
    (hown : t = u → sl.Until time σ.kernel t → sl'.Until time s' t) :
    SleepsUntil time ((σ.setKernel s').setSleeper u (some sl')) t :=
  h.set hsl (now_le_perform ho) (fun hu => spares_of_touched he ha hu ho) hown

/-- A step of the kernel that is not about a sleeper. -/
theorem SleepsUntil.kernel (h : SleepsUntil time σ t) (hgood : Good σ)
    (ht : (index t).isMonotonic = true) {a : Action T Cpu} (ha : ¬a.touches σ.kernel t)
    (hs : perform deferred σ.kernel a = some (s', o)) :
    SleepsUntil time ((σ.setKernel s').wake o) t := by
  obtain ⟨sl, hsl, huntil⟩ := h
  have hnow := now_le_perform hs
  rcases perform_other hgood.sound.exclusive ha hs with ⟨hspares, ho⟩ | ⟨ctx, c, -, rfl, hexpires⟩
  · have huntil' := huntil.spares hspares hnow
    cases o with
    | expired u =>
      have hu : t ≠ u := fun htu => ho (congrArg Outcome.expired htu.symm)
      exact ⟨sl, (sleeper_setSleeper_of_ne _ hu).trans hsl, huntil'⟩
    | _ => exact ⟨sl, hsl, huntil'⟩
  · refine ⟨{ sl with wakeup := some .called }, ?_,
      huntil.expires (hgood.inv t sl hsl) hgood.sound ht hs hexpires⟩
    rw [Tasks.wake, sleeper_setSleeper_self]
    exact congrArg _ hsl

/-- The stack frame of a sleeper is left. -/
def Move.leaves (m : Move T Cpu) (t : T) : Prop :=
  match m with
  | .leave u => u = t
  | .kernel .. | .nanosleep .. | .restart .. | .sleeper .. | .start .. | .finishStart ..
  | .cancel .. | .callbackReturn .. => False

instance (m : Move T Cpu) (t : T) : Decidable (m.leaves t) :=
  match m with
  | .leave u => inferInstanceAs (Decidable (u = t))
  | .kernel .. | .nanosleep .. | .restart .. | .sleeper .. | .start .. | .finishStart ..
  | .cancel .. | .callbackReturn .. => inferInstanceAs (Decidable False)

omit [Setup T] [DecidableEq Cpu] in
theorem sleepsUntil_set (h : sl.Until time s t) :
    SleepsUntil time ((σ.setKernel s).setSleeper t (some sl)) t :=
  ⟨sl, sleeper_setSleeper_self .., h⟩

/-- **What one step preserves.** -/
theorem SleepsUntil.advance (h : SleepsUntil time σ t) (hgood : Good σ) (hnow : 0 ≤ σ.kernel.now)
    (ht : (index t).isMonotonic = true) {m : Move T Cpu} (hm : ¬m.leaves t)
    (hs : advance deferred σ m = some σ') : SleepsUntil time σ' t := by
  have he := hgood.sound.exclusive
  have hrefl : Spares t σ.kernel σ.kernel := spares_of_eq rfl rfl rfl
  have ⟨sl₀, hsl₀, _⟩ := h
  cases advanced_of_advance hs with
  | kernel hfree ho =>
    refine h.kernel hgood ht (fun htouches => ?_) ho
    exact Option.some_ne_none sl₀ (hsl₀.symm.trans (hfree t htouches))
  | @nanosleep _ u _ _ _ _ _ hfree _ hsetup =>
    -- the memory of the new sleeper is not that of this one
    obtain ⟨-, hnow', -, -, -, hother⟩ := setupSleeper_effect hgood.sound hsetup
    have hu : t ≠ u := by
      rintro rfl
      exact Option.some_ne_none sl₀ (hsl₀.symm.trans hfree)
    exact h.other hu (hother t hu) hnow'.ge _
  | restart hsl _ hrestart hsetup =>
    obtain ⟨-, hnow', -, hsoft, hhard, hother⟩ := setupSleeper_effect hgood.sound hsetup
    refine h.set hsl hnow'.ge (hother t) ?_
    rintro rfl huntil
    exact huntil.restarted hrestart hnow' hsoft hhard
  | sleeper hsl hmoved =>
    refine h.set (k := σ.kernel) hsl le_rfl (fun _ => hrefl) ?_
    rintro rfl huntil
    refine huntil.moved ?_ hmoved
    rw [Offsets.of_isMonotonic ht, Int.add_zero, Int.add_comm, Int.sub_add_cancel]
  | start hsl hpoint ho =>
    refine h.own he hsl rfl ho ?_
    rintro rfl huntil
    have hsound := hgood.sound.perform ho
    cases performed_of_perform ho with | start _ _ _ hfits hs => ?_
    exact huntil.start (hgood.inv t _ hsl) hsound ht hnow hpoint hfits.2 hs
  | finishStart hsl hpoint ho =>
    refine h.own he hsl ((hgood.inv _ _ hsl).touched_finishStart hpoint) ho ?_
    rintro rfl huntil
    exact huntil.finishStart (hgood.inv t _ hsl) he (hgood.sound.perform ho) ht hpoint ho
  | cancelled hsl hpoint _ =>
    refine h.set (k := σ.kernel) hsl le_rfl (fun _ => hrefl) ?_
    rintro rfl huntil
    exact huntil.cancelled hpoint
  | cancel hsl hpoint ho =>
    refine h.own he hsl rfl ho ?_
    rintro rfl huntil
    cases performed_of_perform ho with | tryToCancel _ _ hs => ?_
    exact huntil.cancel hpoint hs
  | callbackReturn hcallback hsl _ ho =>
    refine h.own (a := .callbackReturn _ _ false) he hsl hcallback ho ?_
    rintro rfl huntil
    exact huntil.callbackReturn he ho
  | leave hsl hpoint => exact h.other (Ne.symm hm) hrefl le_rfl none

/-! ### The main results -/

/-- Time does not go back. -/
theorem now_le_advance (h : Good σ) {m : Move T Cpu} (hs : advance deferred σ m = some σ') :
    σ.kernel.now ≤ σ'.kernel.now := by
  cases advanced_of_advance hs with
  | kernel _ ho =>
    rw [kernel_wake]
    exact now_le_perform ho
  | nanosleep _ _ hsetup | restart _ _ _ hsetup => exact (setupSleeper_effect h.sound hsetup).2.1.ge
  | sleeper | cancelled | leave => exact le_rfl
  | start _ _ ho | finishStart _ _ ho | cancel _ _ ho | callbackReturn _ _ _ ho =>
    exact now_le_perform ho

/-- The run lemma. -/
theorem SleepsUntil.run (h : SleepsUntil time σ t) (hgood : Good σ) (hnow : 0 ≤ σ.kernel.now)
    (ht : (index t).isMonotonic = true)
    (hrun : Run (Hrtimer.advance deferred) (fun _ m => ¬m.leaves t) σ σ') :
    SleepsUntil time σ' t := by
  refine (hrun.invariant (I := fun σ => Good σ ∧ 0 ≤ σ.kernel.now ∧ SleepsUntil time σ t)
    ⟨hgood, hnow, h⟩ fun hI hm hs => ?_).2.2
  exact ⟨hI.1.advance hs, hI.2.1.trans (now_le_advance hI.1 hs),
    hI.2.2.advance hI.1 hI.2.1 ht hm hs⟩

/-- What a task has slept until when it returns. -/
theorem sleepsUntil_nanosleep (hgood : Good σ) {rqtp slack : Ktime} {abs rmtp : Bool}
    (hcall : Hrtimer.advance deferred σ (.nanosleep c t rqtp slack abs rmtp) = some σ') :
    SleepsUntil (min (if abs then rqtp else rqtp + σ.kernel.now) ktimeMax) σ' t := by
  rw [Hrtimer.advance] at hcall
  split_ifs at hcall with hfree
  have hmax := (not_not.mp (not_or.mp hfree).2).2
  obtain ⟨s', hs', rfl⟩ := Option.map_eq_some_iff.mp hcall
  obtain ⟨-, hnow, -, hsoft, hhard, -⟩ := setupSleeper_effect hgood.sound hs'
  refine sleepsUntil_set ⟨fun hrel => ?_, fun habs => ?_, fun hw => (by cases hw),
    fun h => absurd h.symm Bool.false_ne_true, fun e he => absurd he (Option.not_mem_none e),
    fun r hr => absurd hr (Option.not_mem_none r), fun hp => by cases hp⟩
  · have hrel : abs = false := by simpa [Sleeper.unstarted, Sleeper.call] using hrel
    rw [hsoft, hnow, hrel]
    exact le_rfl
  · have habs : abs = true := by simpa [Sleeper.unstarted, Sleeper.call] using habs
    rw [hsoft, hhard, habs]
    exact ⟨min_le_left _ _, (min_le_left _ _).trans (le_ktimeAddSafe hmax), ktimeAddSafe_le _ _⟩

/-- **No sleep is too short**, on `CLOCK_MONOTONIC` and however it was interrupted, and neither is
the remaining time that an interrupted one reports. -/
theorem nanosleep_slept {now : Ktime} {cpuOf : T → Cpu} {σ₁ σ₂ : Tasks T Cpu} (hboot : 0 ≤ now)
    (h : Reachable (Hrtimer.advance deferred) (noSleepers now cpuOf) σ)
    (ht : (index t).isMonotonic = true) {rqtp slack : Ktime} {abs rmtp : Bool}
    (hcall : Hrtimer.advance deferred σ (.nanosleep c t rqtp slack abs rmtp) = some σ₁)
    (hrun : Run (Hrtimer.advance deferred) (fun _ m => ¬m.leaves t) σ₁ σ₂)
    (hsl : σ₂.sleeper t = some sl) :
    (sl.point = .returned 0 →
      min (if abs then rqtp else rqtp + σ.kernel.now) ktimeMax ≤ σ₂.kernel.now) ∧
    ∀ rem ∈ sl.remaining,
      min (if abs then rqtp else rqtp + σ.kernel.now) ktimeMax ≤ σ₂.kernel.now + rem := by
  obtain ⟨hgood, hnow⟩ : Good σ ∧ 0 ≤ σ.kernel.now := by
    refine h.invariant (I := fun σ => Good σ ∧ 0 ≤ σ.kernel.now)
      ⟨good_noSleepers now cpuOf, hboot⟩ fun hI _ hs => ?_
    exact ⟨hI.1.advance hs, hI.2.trans (now_le_advance hI.1 hs)⟩
  have hnow₁ : 0 ≤ σ₁.kernel.now := hnow.trans (now_le_advance hgood hcall)
  obtain ⟨sl', hsl', huntil⟩ :=
    (sleepsUntil_nanosleep hgood hcall).run (hgood.advance hcall) hnow₁ ht hrun
  obtain rfl : sl = sl' := Option.some.inj (hsl.symm.trans hsl')
  exact ⟨huntil.returned, huntil.remaining⟩

/-- A signal interrupts the sleep, which is restarted, and the task is woken up without need. -/
theorem nanosleep_slept_pair :
    let σ := (exec (advance false) (fun _ _ => True) [.kernel (.pass 40)]
      (noSleepers 0 Pair.cpu)).get (by decide)
    let σ₁ := (advance false σ (.nanosleep false .left 100 50 false true)).get (by decide)
    let σ₂ := (exec (advance false) (fun _ m => ¬m.leaves .left)
      [.sleeper .left .setState, .start false .left true false, .sleeper .left .check,
        .sleeper .left .schedule, .kernel (.pass 30), .sleeper .left (.signal true),
        .sleeper .left .poke, .sleeper .left .resume, .cancel false .left,
        .sleeper .left (.again false), .restart false .left, .sleeper .left (.signal false),
        .sleeper .left .setState, .start false .left true false, .sleeper .left .check,
        .sleeper .left .schedule, .sleeper .left .poke, .sleeper .left .resume,
        .cancel false .left, .sleeper .left (.again false), .kernel (.pass 130),
        .sleeper .left .setState, .start false .left true false, .sleeper .left .check,
        .cancel false .left, .sleeper .left (.again false)] σ₁).get (by decide)
    (∃ sl, σ₂.sleeper .left = some sl ∧ sl.point = .returned 0 ∧ sl.remaining = some 120) ∧
      min (if false then 100 else 100 + σ.kernel.now) ktimeMax ≤ σ₂.kernel.now ∧
      min (if false then 100 else 100 + σ.kernel.now) ktimeMax ≤ σ₂.kernel.now + 120 := by
  intro σ σ₁ σ₂
  have hcall : advance false σ (.nanosleep false .left 100 50 false true) = some σ₁ :=
    (Option.some_get _).symm
  have hreturned : (σ₂.sleeper .left).map (fun sl => (sl.point, sl.remaining)) =
      some (.returned 0, some 120) := by decide
  obtain ⟨sl, hsl, heq⟩ := Option.map_eq_some_iff.mp hreturned
  obtain ⟨hpoint, hremaining⟩ := Prod.mk.inj heq
  have h : Reachable (advance false) (noSleepers 0 Pair.cpu) σ :=
    run_of_exec (Option.some_get _).symm
  have hrun : Run (advance false) (fun _ m => ¬m.leaves .left) σ₁ σ₂ :=
    run_of_exec (Option.some_get _).symm
  have ht : (index Pair.left).isMonotonic = true := rfl
  obtain ⟨hslept, hrest⟩ := nanosleep_slept le_rfl h ht hcall hrun hsl
  exact ⟨⟨sl, hsl, hpoint, hremaining⟩, hslept hpoint, hrest 120 (by rw [hremaining]; rfl)⟩

end Hrtimer

end HrtimerStudy
