import HrtimerStudy.Hrtimer.Machine

/-!
# What a step comes to

The functions of the machine that have several ends, taken apart once. What a step preserves is
shown end by end.

## Main definitions

* `Starts`, `Finishes`, `Tries` — starting and cancelling
* `Turn`, `Ends`, `Rearms` — a turn of `__hrtimer_run_queues`, and what comes behind it
* `Updates` — the offsets of a CPU are updated when a clock was set
* `Performed` — a step

## Main results

* `starts_of_hrtimerStart`, `finishes_of_finishStart`, `tries_of_hrtimerTryToCancel`
* `turn_of_expire`, `of_callbackReturn`, `performed_of_perform`
-/

namespace HrtimerStudy

namespace Hrtimer

open Setup (index isLazy)

variable {T Cpu : Type*} [DecidableEq T] [DecidableEq Cpu] [Setup T]
variable {s s' : State T Cpu} {c : Cpu} {t : T} {o : Outcome T} {r : State T Cpu × Outcome T}

/-! ### Starting and cancelling -/

/-- `hrtimer_start_range_ns` with the absolute expiry: the timer keeps its base, or it has left it
and is back, or it is on its way to another one. -/
inductive Starts (s : State T Cpu) (c : Cpu) (t : T) (time delta : Ktime) (user prefer : Bool) :
    State T Cpu × Outcome T → Prop
  | kept (cpu : Cpu) (hcpu : (s.timers t).cpu = some cpu)
    (hkeep : hrtimerKeepBase s c cpu t prefer = true) : Starts s c t time delta user prefer
      ((startKept s c cpu t time delta user).1, (startKept s c cpu t time delta user).2)
  | back (cpu : Cpu) (hcpu : (s.timers t).cpu = some cpu)
    (hleave : hrtimerKeepBase s c cpu t prefer = false)
    (hsuitable : cpu = c ∨
      hrtimerSuitableTarget ((startRemoved s c cpu t time delta).view cpu) t = true) :
    Starts s c t time delta user prefer
      ((startOn (startRemoved s c cpu t time delta) c cpu t (isNextTimer s cpu t) user).1,
        (startOn (startRemoved s c cpu t time delta) c cpu t (isNextTimer s cpu t) user).2)
  | moved (cpu target : Cpu) (hcpu : (s.timers t).cpu = some cpu)
    (hleave : hrtimerKeepBase s c cpu t prefer = false) : Starts s c t time delta user prefer
      (startMoved (startRemoved s c cpu t time delta) c ⟨t, isNextTimer s cpu t, user, target⟩,
        .quiet)

theorem starts_of_hrtimerStart {time delta : Ktime} {rel user prefer : Bool} {target : Cpu}
    (hs : hrtimerStart s c t time delta rel user prefer target = some r) :
    Starts s c t (startTime s t time rel) delta user prefer r := by
  rw [hrtimerStart] at hs
  split at hs
  · cases hs
  · rename_i cpu hcpu
    dsimp only at hs
    split_ifs at hs with hlock hkeep htarget hsuitable
    · obtain rfl := Option.some.inj hs
      exact .kept cpu hcpu hkeep
    · obtain rfl := Option.some.inj hs
      exact .moved cpu target hcpu (Bool.eq_false_iff.mpr hkeep)
    · obtain rfl := Option.some.inj hs
      exact .back cpu hcpu (Bool.eq_false_iff.mpr hkeep) hsuitable
    · obtain rfl := Option.some.inj hs
      exact .moved cpu c hcpu (Bool.eq_false_iff.mpr hkeep)

/-- The end of a start: the timer gets the base of the target, or another target. -/
inductive Finishes (s : State T Cpu) (c : Cpu) (start : Start T Cpu) :
    State T Cpu × Outcome T → Prop
  | placed (hsuitable : start.target = c ∨
      hrtimerSuitableTarget (s.view start.target) start.timer = true) : Finishes s c start
      ((startOn (s.setStarting c none) c start.target start.timer start.wasFirst start.user).1,
        (startOn (s.setStarting c none) c start.target start.timer start.wasFirst start.user).2)
  | moved : Finishes s c start
      (startMoved (s.setStarting c none) c { start with target := c }, .quiet)

theorem finishes_of_finishStart (hs : finishStart s c = some r) :
    ∃ start, s.starting c = some start ∧ Finishes s c start r := by
  rw [finishStart] at hs
  split at hs
  · cases hs
  · rename_i start hstart
    dsimp only at hs
    split_ifs at hs with hlock hsuitable
    · obtain rfl := Option.some.inj hs
      exact ⟨start, hstart, .placed hsuitable⟩
    · obtain rfl := Option.some.inj hs
      exact ⟨start, hstart, .moved⟩

/-- `hrtimer_try_to_cancel` under the lock: the callback runs, or the timer leaves its queue if it
is in one. -/
inductive Tries (s : State T Cpu) (c : Cpu) (t : T) (cpu : Cpu) : State T Cpu × Outcome T → Prop
  | running (h : callbackRunning s cpu t = true) : Tries s c t cpu (s, .tried (-1))
  | removed (h : callbackRunning s cpu t = false) : Tries s c t cpu
      (s.put cpu (rawRemoveHrtimer (s.view cpu) t false (decide (cpu = c))),
        .tried (if (s.timers t).isQueued then 1 else 0))

theorem tries_of_hrtimerTryToCancel (hs : hrtimerTryToCancel s c t = some r) :
    ∃ cpu, (s.timers t).cpu = some cpu ∧ Tries s c t cpu r := by
  rw [hrtimerTryToCancel] at hs
  split at hs
  · cases hs
  · rename_i cpu hcpu
    split at hs
    · cases hs
    · split at hs
      · rename_i hrunning
        obtain rfl := Option.some.inj hs
        exact ⟨cpu, hcpu, .running hrunning⟩
      · rename_i hrunning
        obtain rfl := Option.some.inj hs
        exact ⟨cpu, hcpu, .removed (Bool.eq_false_iff.mpr hrunning)⟩

/-! ### Expiring -/

/-- `hrtimer_interrupt` behind `__hrtimer_run_queues`: it retries, or it is done, since the next
event is not in the past or since it has given up. -/
inductive Ends (deferred : Bool) (s : State T Cpu) (c : Cpu) (f : Frame T) :
    State T Cpu × Outcome T → Prop
  | retry (b : CpuBase T)
    (hb : b = interruptRetry (interruptEvent (s.cpuBase c) s.clock).2 s.now) : Ends deferred s c f
      ((s.put c ⟨s.timers, b⟩).setFrame .hardirq c
        (some (runQueues b .hardirq s.now f.entryTime (f.retries + 1))), .quiet)
  | done (e : Ktime) (b : CpuBase T) (he : e = (interruptEvent (s.cpuBase c) s.clock).1)
    (hb : b = (interruptEvent (s.cpuBase c) s.clock).2 ∧ s.now ≤ e ∨
      b = detectHang (interruptEvent (s.cpuBase c) s.clock).2 s.now f.entryTime) :
    Ends deferred s c f
      ((s.put c ⟨s.timers, hrtimerInterruptRearm deferred b e s.now⟩).setFrame .hardirq c none,
        .interrupted)

omit [DecidableEq T] [Setup T] in
theorem ends_interruptEnd (deferred : Bool) (s : State T Cpu) (c : Cpu) (f : Frame T) :
    Ends deferred s c f (interruptEnd deferred s c f) := by
  rw [interruptEnd]
  dsimp only
  split_ifs with hretry hlate
  · exact .retry _ rfl
  · exact .done _ _ rfl (Or.inr rfl)
  · exact .done _ _ rfl (Or.inl ⟨rfl, not_lt.mp hlate⟩)

/-- A turn of the loops of `__hrtimer_run_queues`: nothing is due in the current base, or its first
timer is, or no base is left. -/
inductive Turn (deferred : Bool) (s : State T Cpu) (c : Cpu) (f : Frame T) :
    Context → State T Cpu × Outcome T → Prop
  | next (ctx : Context) (i : BaseType) (rest : List BaseType) (htodo : f.todo = i :: rest)
    (hlater : ∀ t ∈ ((s.cpuBase c).clockBase i).first, f.basenow < (s.timers t).softexpires) :
    Turn deferred s c f ctx (s.setFrame ctx c (some (f.enter (s.cpuBase c) rest)), .quiet)
  | run (ctx : Context) (i : BaseType) (rest : List BaseType) (t : T) (htodo : f.todo = i :: rest)
    (hfirst : ((s.cpuBase c).clockBase i).first = some t)
    (hdue : ¬f.basenow < (s.timers t).softexpires) :
    Turn deferred s c f ctx ((runHrtimer s ctx c f i t).1, .expired t)
  | interruptEnd (htodo : f.todo = []) {r : State T Cpu × Outcome T}
    (hends : Ends deferred s c f r) : Turn deferred s c f .hardirq r
  | softirqEnd (htodo : f.todo = []) : Turn deferred s c f .softirq ((softirqEnd s c).1, .quiet)

theorem turn_of_expire {deferred : Bool} {ctx : Context}
    (hs : expire deferred s ctx c = some r) :
    ∃ f, s.frame ctx c = some f ∧ f.callback = none ∧ Turn deferred s c f ctx r := by
  rw [expire] at hs
  split at hs
  · cases hs
  · rename_i f hf
    split at hs
    · cases hs
    · rename_i hcallback
      refine ⟨f, hf, by simpa using hcallback, ?_⟩
      split at hs
      · rename_i i rest htodo
        split at hs
        · rename_i t hfirst
          split_ifs at hs with hlater
          · obtain rfl := Option.some.inj hs
            refine .next ctx i rest htodo fun u hu => ?_
            obtain rfl : t = u := Option.some.inj (hfirst.symm.trans hu)
            exact hlater
          · obtain rfl := Option.some.inj hs
            exact .run ctx i rest t htodo hfirst hlater
        · rename_i hfirst
          obtain rfl := Option.some.inj hs
          refine .next ctx i rest htodo fun u hu => ?_
          rw [hfirst] at hu
          cases hu
      · rename_i htodo
        split at hs
        · obtain rfl := Option.some.inj hs
          exact .interruptEnd htodo (ends_interruptEnd deferred s c f)
        · obtain rfl := Option.some.inj hs
          exact .softirqEnd htodo

/-- `__run_hrtimer` behind the callback. -/
theorem of_callbackReturn {ctx : Context} {restart : Bool}
    (hs : callbackReturn s ctx c restart = some (s', o)) :
    ∃ f t, s.frame ctx c = some f ∧ f.callback = some t ∧
      s' = afterCallback s ctx c f t restart ∧ o = .quiet := by
  rw [callbackReturn] at hs
  split at hs
  · cases hs
  · rename_i f hf
    split at hs
    · cases hs
    · rename_i t ht
      split_ifs at hs
      obtain ⟨rfl, rfl⟩ := Prod.mk.inj (Option.some.inj hs)
      exact ⟨f, t, hf, ht, rfl, rfl⟩

/-- `__hrtimer_rearm_deferred`: nothing is deferred, or the next event is looked up, or known. -/
inductive Rearms (s : State T Cpu) (c : Cpu) : State T Cpu × Outcome T → Prop
  | idle (hd : (s.cpuBase c).deferredRearm = false) : Rearms s c (s, .quiet)
  | update (hd : (s.cpuBase c).deferredRearm = true)
    (hneeds : (s.cpuBase c).deferredNeedsUpdate = true) : Rearms s c
      (s.put c ⟨s.timers,
        hrtimerRearm (hrtimerUpdateNextEvent (hrtimerUpdateBase (s.cpuBase c) s.clock)).2
          (hrtimerUpdateNextEvent (hrtimerUpdateBase (s.cpuBase c) s.clock)).1 s.now⟩, .quiet)
  | known (hd : (s.cpuBase c).deferredRearm = true)
    (hneeds : (s.cpuBase c).deferredNeedsUpdate = false) : Rearms s c
      (s.put c ⟨s.timers, hrtimerRearm (s.cpuBase c) (s.cpuBase c).deferredExpiresNext s.now⟩,
        .quiet)

omit [DecidableEq T] [Setup T] in
theorem rearms_of_hrtimerRearmDeferred (hs : hrtimerRearmDeferred s c = some r) :
    s.interruptible c = true ∧ Rearms s c r := by
  rw [hrtimerRearmDeferred] at hs
  dsimp only at hs
  split_ifs at hs with hlock hd hneeds
  · obtain rfl := Option.some.inj hs
    exact ⟨by simpa using hlock, .idle (by simpa using hd)⟩
  · obtain rfl := Option.some.inj hs
    exact ⟨by simpa using hlock, .update (by simpa using hd) hneeds⟩
  · obtain rfl := Option.some.inj hs
    exact ⟨by simpa using hlock, .known (by simpa using hd) (Bool.eq_false_iff.mpr hneeds)⟩

/-! ### Setting a clock -/

/-- `update_needs_ipi`: the CPU has had the offsets already, or it has them now, and the deferred
part or a retrigger may be asked to look up the next event. -/
inductive Updates (s : State T Cpu) (caller c : Cpu) (bases : BaseType → Bool) (b : CpuBase T) :
    State T Cpu × Outcome T → Prop
  | same (hseq : (s.cpuBase c).clockWasSetSeq = b.clockWasSetSeq) :
    Updates s caller c bases b (s.put c ⟨s.timers, b⟩, .quiet)
  | deferred (hd : b.deferredRearm = true) : Updates s caller c bases b
      (s.put c ⟨s.timers, { b with deferredNeedsUpdate := true }⟩, .quiet)
  | asked (hd : b.deferredRearm = false) : Updates s caller c bases b
      ((s.put c ⟨s.timers, b⟩).setIpi c
        (s.ipi c || decide (c ≠ caller) && basesNeedIpi (⟨s.timers, b⟩ : Locked T Cpu) bases),
        .quiet)

omit [DecidableEq T] [Setup T] in
theorem updates_of_updateNeedsIpi {caller : Cpu} {bases : BaseType → Bool}
    (hs : updateNeedsIpi s caller c bases = some r) :
    Updates s caller c bases (hrtimerUpdateBase (s.cpuBase c) s.clock) r := by
  rw [updateNeedsIpi] at hs
  dsimp only at hs
  split_ifs at hs with hlock hseq hd
  · obtain rfl := Option.some.inj hs
    exact .same hseq
  · obtain rfl := Option.some.inj hs
    exact .deferred hd
  · obtain rfl := Option.some.inj hs
    exact .asked (Bool.eq_false_iff.mpr hd)

/-! ### Steps -/

/-- What a step comes to. The conditions of the machine are hypotheses here, as far as anything
depends on them. -/
inductive Performed (deferred : Bool) (s : State T Cpu) :
    Action T Cpu → State T Cpu × Outcome T → Prop
  | pass (d : ℕ) : Performed deferred s (.pass d) ({ s with now := s.now + d }, .quiet)
  | setClock (real boot tai : Ktime) : Performed deferred s (.setClock real boot tai)
      ({ s with clock := ⟨real, boot, tai, s.clock.clockWasSetSeq + 1⟩ }, .quiet)
  | clockWasSet {caller : Cpu} (c : Cpu) {bases : BaseType → Bool} {r : State T Cpu × Outcome T}
    (h : Updates s caller c bases (hrtimerUpdateBase (s.cpuBase c) s.clock) r) :
    Performed deferred s (.clockWasSet caller c bases) r
  | retrigger (c : Cpu) : Performed deferred s (.retrigger c)
      ((s.put c ⟨s.timers,
          hrtimerForceReprogram (hrtimerUpdateBase (s.cpuBase c) s.clock) false⟩).setIpi c false,
        .quiet)
  | setup (c : Cpu) {cpu : Cpu} (t : T) (hq : (s.timers t).isQueued = false)
    (hcpu : (s.timers t).cpu = some cpu) (hidle : callbackRunning s cpu t = false) :
    Performed deferred s (.setup c t)
      ({ s with timers := Function.update s.timers t ⟨0, 0, false, some c⟩ }, .quiet)
  | setExpires (t : T) (time delta : Ktime) (hq : (s.timers t).isQueued = false) :
    Performed deferred s (.setExpires t time delta)
      ({ s with timers := hrtimerSetExpiresRangeNs s.timers t time delta }, .quiet)
  | forward (t : T) (now interval : Ktime) : Performed deferred s (.forward t now interval)
      ({ s with timers := Function.update s.timers t (hrtimerForward (s.timers t) now interval).1 },
        .forwarded (hrtimerForward (s.timers t) now interval).2)
  | start (c : Cpu) {target : Cpu} (t : T) {time delta : Ktime} {rel user prefer : Bool}
    {r : State T Cpu × Outcome T} (hfree : s.starting c = none) (hfits : Fits64 time)
    (h : hrtimerStart s c t time delta rel user prefer target = some r) :
    Performed deferred s (.start c t time delta rel user prefer target) r
  | finishStart (c : Cpu) {r : State T Cpu × Outcome T} (h : finishStart s c = some r) :
    Performed deferred s (.finishStart c) r
  | tryToCancel (c : Cpu) (t : T) {r : State T Cpu × Outcome T}
    (h : hrtimerTryToCancel s c t = some r) : Performed deferred s (.tryToCancel c t) r
  | interrupt (c : Cpu) (hnone : s.frame .hardirq c = none) : Performed deferred s (.interrupt c)
      ((s.put c ⟨s.timers, { interruptRetry (hrtimerUpdateBase (s.cpuBase c) s.clock) s.now with
          device := ktimeMax }⟩).setFrame .hardirq c
        (some (runQueues (interruptRetry (hrtimerUpdateBase (s.cpuBase c) s.clock) s.now) .hardirq
          s.now s.now 0)), .quiet)
  | softirq (c : Cpu) (hnone : s.frame .softirq c = none) : Performed deferred s (.softirq c)
      ((s.put c ⟨s.timers, hrtimerUpdateBase (s.cpuBase c) s.clock⟩).setFrame .softirq c
        (some (runQueues (hrtimerUpdateBase (s.cpuBase c) s.clock) .softirq s.now s.now 0)), .quiet)
  | expire (ctx : Context) (c : Cpu) {r : State T Cpu × Outcome T}
    (h : expire deferred s ctx c = some r) : Performed deferred s (.expire ctx c) r
  | callbackReturn (ctx : Context) (c : Cpu) {restart : Bool} {r : State T Cpu × Outcome T}
    (h : callbackReturn s ctx c restart = some r) :
    Performed deferred s (.callbackReturn ctx c restart) r
  | rearmDeferred (c : Cpu) {r : State T Cpu × Outcome T} (hnone : s.frame .hardirq c = none)
    (h : Rearms s c r) : Performed deferred s (.rearmDeferred c) r

section

omit [DecidableEq T] [DecidableEq Cpu] [Setup T]

theorem starting_of_free (h : s.free c = true) : s.starting c = none :=
  Option.isNone_iff_eq_none.mp (Bool.and_eq_true_iff.mp h).2

theorem frame_of_interruptible (h : s.interruptible c = true) : s.frame .hardirq c = none :=
  Option.isNone_iff_eq_none.mp (Bool.and_eq_true_iff.mp h).2

end

omit [DecidableEq Cpu] in
theorem idle_of_not_active (hactive : ¬(hrtimerActive s t || (s.timers t).cpu.isNone) = true) :
    (s.timers t).isQueued = false ∧
      ∃ cpu, (s.timers t).cpu = some cpu ∧ callbackRunning s cpu t = false := by
  rw [Bool.not_eq_true, Bool.or_eq_false_iff, hrtimerActive, Bool.or_eq_false_iff] at hactive
  obtain ⟨⟨hq, hrunning⟩, hcpu⟩ := hactive
  cases hc : (s.timers t).cpu with
  | none => simp [hc] at hcpu
  | some cpu =>
    rw [hc, Option.any_some] at hrunning
    exact ⟨hq, cpu, rfl, hrunning⟩

theorem performed_of_perform {deferred : Bool} {a : Action T Cpu}
    (hs : perform deferred s a = some r) : Performed deferred s a r := by
  cases a with
  | pass d =>
    obtain rfl := Option.some.inj hs
    exact .pass d
  | setClock real boot tai =>
    obtain rfl := Option.some.inj hs
    exact .setClock real boot tai
  | clockWasSet caller c bases => exact .clockWasSet c (updates_of_updateNeedsIpi hs)
  | retrigger c =>
    simp only [perform, retriggerNextEvent] at hs
    split_ifs at hs
    obtain rfl := Option.some.inj hs
    exact .retrigger c
  | setup c t =>
    simp only [perform, hrtimerSetup] at hs
    split_ifs at hs with hactive
    obtain rfl := Option.some.inj hs
    obtain ⟨hq, cpu, hcpu, hidle⟩ := idle_of_not_active hactive
    exact .setup c t hq hcpu hidle
  | setExpires t time delta =>
    rw [perform] at hs
    split_ifs at hs with hidle
    obtain rfl := Option.some.inj hs
    have hq := (Bool.or_eq_false_iff.mp (Bool.eq_false_iff.mpr hidle)).1
    exact .setExpires t time delta hq
  | forward t now interval =>
    rw [perform] at hs
    split_ifs at hs
    obtain rfl := Option.some.inj hs
    exact .forward t now interval
  | start c t time delta rel user prefer target =>
    rw [perform] at hs
    split_ifs at hs with hfree
    obtain ⟨hfree, hfits⟩ := not_or.mp hfree
    exact .start c t (starting_of_free (by simpa using hfree)) (not_not.mp hfits) hs
  | finishStart c => exact .finishStart c hs
  | tryToCancel c t =>
    rw [perform] at hs
    split_ifs at hs
    exact .tryToCancel c t hs
  | interrupt c =>
    simp only [perform, hrtimerInterrupt] at hs
    split_ifs at hs with hfree
    obtain rfl := Option.some.inj hs
    exact .interrupt c (frame_of_interruptible (by simpa using hfree))
  | softirq c =>
    simp only [perform, hrtimerRunSoftirq] at hs
    split_ifs at hs with hfree
    obtain rfl := Option.some.inj hs
    refine .softirq c (Option.not_isSome_iff_eq_none.mp fun hsome => hfree ?_)
    rw [hsome, Bool.or_true, Bool.true_or]
  | expire ctx c => exact .expire ctx c hs
  | callbackReturn ctx c restart => exact .callbackReturn ctx c hs
  | rearmDeferred c =>
    obtain ⟨hfree, hrearms⟩ := rearms_of_hrtimerRearmDeferred hs
    exact .rearmDeferred c (frame_of_interruptible hfree) hrearms

end Hrtimer

end HrtimerStudy
