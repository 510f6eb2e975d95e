import HrtimerStudy.Hrtimer.Exclusive

/-!
# What a step does to a timer

Most steps are about one timer or about none. A step spares all other timers, with one exception:
when a CPU expires its timers, the machine decides which one it is.

## Main definitions

* `Action.touched` — the timer that a step is about
* `Spares` — the step leaves a timer as it is
* `Expires` — the timer expires

## Main results

* `perform_other` — a step that is not about a timer spares it, or lets it expire
* `hrtimerStart_effect`, `finishStart_effect` — a start, and the end of one
-/

namespace HrtimerStudy

namespace Hrtimer

open Setup (index isLazy)

variable {T Cpu : Type*}

/-- The timer whose callback a CPU is in. -/
def State.callback (s : State T Cpu) (ctx : Context) (c : Cpu) : Option T :=
  (s.frame ctx c).bind Frame.callback

/-- The timer that a CPU is about to finish the start of. -/
def State.startingTimer (s : State T Cpu) (c : Cpu) : Option T := (s.starting c).map Start.timer

/-- The timer that the step is about. -/
def Action.touched (s : State T Cpu) : Action T Cpu → Option T
  | .setup _ t | .setExpires t _ _ | .forward t _ _ | .start _ t _ _ _ _ _ _
  | .tryToCancel _ t => some t
  | .finishStart c => s.startingTimer c
  | .callbackReturn ctx c _ => s.callback ctx c
  | .pass .. | .setClock .. | .clockWasSet .. | .retrigger .. | .interrupt .. | .softirq ..
  | .expire .. | .rearmDeferred .. => none

/-- The step is about the timer. -/
def Action.touches (s : State T Cpu) (a : Action T Cpu) (t : T) : Prop := a.touched s = some t

instance [DecidableEq T] (s : State T Cpu) (a : Action T Cpu) (t : T) :
    Decidable (a.touches s t) := inferInstanceAs (Decidable (a.touched s = some t))

/-- A step leaves a timer as it is, its callback, and a start of it. -/
structure Spares (t : T) (s s' : State T Cpu) : Prop where
  timer : s'.timers t = s.timers t
  callback : ∀ ctx c, s'.callback ctx c = some t ↔ s.callback ctx c = some t
  starting : ∀ c, s'.startingTimer c = some t ↔ s.startingTimer c = some t

/-- A CPU expires a timer. -/
structure Expires [Setup T] (ctx : Context) (c : Cpu) (t : T) (s s' : State T Cpu) : Prop where
  frame : ∃ f, s.frame ctx c = some f ∧ f.callback = none ∧ f.todo.head? = some (index t) ∧
    ¬f.basenow < (s.timers t).softexpires
  queued : (s.timers t).isQueued = true
  cpu : (s.timers t).cpu = some c
  timer : s'.timers t = { s.timers t with isQueued := false }
  callback : s'.callback ctx c = some t
  starting : s'.starting = s.starting

variable {s s' s'' : State T Cpu} {c cpu target : Cpu} {t u : T} {o : Outcome T}
variable {v : Locked T Cpu}

/-! ### Sparing -/

theorem State.callback_eq_some {ctx : Context} : s.callback ctx c = some t ↔
    ∃ f, s.frame ctx c = some f ∧ f.callback = some t := Option.bind_eq_some_iff

/-- What comes behind the callback of a timer. -/
theorem of_callbackReturn_callback [DecidableEq T] [DecidableEq Cpu] [Setup T] {ctx : Context}
    {restart : Bool} {o : Outcome T} (ht : s.callback ctx c = some t)
    (hs : callbackReturn s ctx c restart = some (s', o)) :
    ∃ f, s.frame ctx c = some f ∧ f.callback = some t ∧ s' = afterCallback s ctx c f t restart := by
  obtain ⟨f, u, hf, hu, hs', -⟩ := of_callbackReturn hs
  obtain rfl : u = t := Option.some.inj ((State.callback_eq_some.mpr ⟨f, hf, hu⟩).symm.trans ht)
  exact ⟨f, hf, hu, hs'⟩

theorem State.startingTimer_eq_some : s.startingTimer c = some t ↔
    ∃ start, s.starting c = some start ∧ start.timer = t := Option.map_eq_some_iff

theorem Placed.cpu_of_startingTimer [Setup T] {out : Option T} (h : Placed out s)
    (ht : s.startingTimer c = some t) : (s.timers t).cpu = none := by
  obtain ⟨start, hstart, rfl⟩ := State.startingTimer_eq_some.mp ht
  exact (h.starting c start hstart).1

theorem spares_of_eq (htimer : s'.timers t = s.timers t) (hframe : s'.frame = s.frame)
    (hstarting : s'.starting = s.starting) : Spares t s s' :=
  ⟨htimer, fun _ _ => by rw [State.callback, State.callback, hframe],
    fun _ => by rw [State.startingTimer, State.startingTimer, hstarting]⟩

theorem Spares.trans (h : Spares t s s') (h' : Spares t s' s'') : Spares t s s'' :=
  ⟨h'.timer.trans h.timer, fun ctx c => (h'.callback ctx c).trans (h.callback ctx c),
    fun c => (h'.starting c).trans (h.starting c)⟩

variable [DecidableEq Cpu]

theorem callback_setFrame (s : State T Cpu) (ctx : Context) (c : Cpu) (f : Option (Frame T)) :
    (s.setFrame ctx c f).callback ctx c = f.bind Frame.callback := by
  rw [State.callback, State.frame_setFrame_self]

/-- A CPU replaces its frame by one with the same timer, or with other ones. -/
theorem spares_setFrame {ctx : Context} {f : Option (Frame T)}
    (hf : f.bind Frame.callback = some t ↔ s.callback ctx c = some t) :
    Spares t s (s.setFrame ctx c f) := by
  refine ⟨rfl, fun ctx' c' => ?_, fun _ => Iff.rfl⟩
  by_cases hne : ctx' = ctx ∧ c' = c
  · obtain ⟨rfl, rfl⟩ := hne
    rw [callback_setFrame, hf]
  · rw [State.callback, State.frame_setFrame_of_ne _ _ (not_and_or.mp hne)]
    rfl

/-- A CPU writes its base and its frame between two callbacks. -/
theorem spares_turn {ctx : Context} (b : CpuBase T) {f : Option (Frame T)}
    (hold : s.callback ctx c = none) (hnew : f.bind Frame.callback = none) :
    Spares t s ((s.put c ⟨s.timers, b⟩).setFrame ctx c f) := by
  have hput : Spares t s (s.put c ⟨s.timers, b⟩) := spares_of_eq rfl rfl rfl
  refine hput.trans (spares_setFrame ?_)
  rw [hnew, show (s.put c ⟨s.timers, b⟩).callback ctx c = s.callback ctx c from rfl, hold]

/-- The start of one timer is of no concern to the others. -/
theorem spares_setStarting {start : Option (Start T Cpu)} (hold : s.startingTimer c ≠ some t)
    (hnew : start.map Start.timer ≠ some t) : Spares t s (s.setStarting c start) := by
  refine ⟨rfl, fun _ _ => Iff.rfl, fun c' => ?_⟩
  rcases eq_or_ne c' c with rfl | hc
  · rw [State.startingTimer, State.starting_setStarting_self]
    exact ⟨fun h => absurd h hnew, fun h => absurd h hold⟩
  · rw [State.startingTimer, State.starting_setStarting_of_ne _ _ hc]
    rfl

variable [DecidableEq T]

theorem spares_startMoved {start : Start T Cpu} (ht : t ≠ start.timer)
    (hold : s.startingTimer c ≠ some t) : Spares t s (startMoved s c start) := by
  have hstarting : Spares t s (s.setStarting c (some start)) :=
    spares_setStarting hold fun h => ht (Option.some.inj h).symm
  exact hstarting.trans (spares_of_eq (setCpu_of_ne _ _ ht) rfl rfl)

variable [Setup T]

theorem spares_startOn (ht : t ≠ u) (c target : Cpu) (wasFirst user : Bool) :
    Spares t s (startOn s c target u wasFirst user).1 :=
  spares_of_eq (((keeps_enqueueTail _ u _ wasFirst user s.now).timers t ht).trans
    (setCpu_of_ne _ _ ht)) rfl rfl

omit [DecidableEq Cpu] [DecidableEq T] [Setup T] in
theorem startingTimer_of_free (h : s.starting c = none) : s.startingTimer c ≠ some t := by
  rw [State.startingTimer, h]
  exact (Option.some_ne_none t).symm

theorem spares_hrtimerStart (ht : t ≠ u) (hfree : s.starting c = none) {time delta : Ktime}
    {rel user prefer : Bool}
    (hs : hrtimerStart s c u time delta rel user prefer target = some (s', o)) :
    Spares t s s' ∧ o ≠ .expired t := by
  have hremoved (cpu : Cpu) (time : Ktime) : Spares t s (startRemoved s c cpu u time delta) :=
    spares_of_eq ((keeps_removeAndSetExpires (s.view cpu) u _ delta _).timers t ht) rfl rfl
  cases starts_of_hrtimerStart hs with
  | kept cpu hcpu hkeep =>
    refine ⟨spares_of_eq ?_ rfl rfl, nofun⟩
    exact (keeps_requeueTail (s.view cpu) u _ delta _ _ user s.now).timers t ht
  | back cpu hcpu hleave hsuitable =>
    exact ⟨(hremoved cpu _).trans (spares_startOn ht c cpu _ user), nofun⟩
  | moved cpu target' hcpu hleave =>
    have hfree' (time : Ktime) : (startRemoved s c cpu u time delta).startingTimer c ≠ some t :=
      startingTimer_of_free hfree
    exact ⟨(hremoved cpu _).trans (spares_startMoved ht (hfree' _)), nofun⟩

theorem spares_finishStart (ht : s.startingTimer c ≠ some t)
    (hs : finishStart s c = some (s', o)) : Spares t s s' ∧ o ≠ .expired t := by
  obtain ⟨start, hstart, hfinishes⟩ := finishes_of_finishStart hs
  have hne : t ≠ start.timer := by
    rintro rfl
    exact ht (by rw [State.startingTimer, hstart, Option.map_some])
  have hresumed : Spares t s (s.setStarting c none) :=
    spares_setStarting ht (Option.some_ne_none t).symm
  cases hfinishes with
  | placed hsuitable => exact ⟨hresumed.trans (spares_startOn hne c _ _ _), nofun⟩
  | moved =>
    have hfree : (s.setStarting c none).startingTimer c ≠ some t :=
      startingTimer_of_free (State.starting_setStarting_self _ _)
    have hmoved : t ≠ ({ start with target := c } : Start T Cpu).timer := hne
    exact ⟨hresumed.trans (spares_startMoved hmoved hfree), nofun⟩

theorem spares_tryToCancel (ht : t ≠ u) (hs : hrtimerTryToCancel s c u = some (s', o)) :
    Spares t s s' ∧ o ≠ .expired t := by
  obtain ⟨cpu, hcpu, htries⟩ := tries_of_hrtimerTryToCancel hs
  cases htries with
  | running hrunning => exact ⟨spares_of_eq rfl rfl rfl, nofun⟩
  | removed hidle =>
    exact ⟨spares_of_eq ((keeps_remove (s.view cpu) u false _).timers t ht) rfl rfl, nofun⟩

/-! ### Expiring -/

omit [DecidableEq Cpu] in
theorem timer_remove (v : Locked T Cpu) (t : T) (newstate reprogram : Bool) :
    (rawRemoveHrtimer v t newstate reprogram).timers t =
      { v.timers t with isQueued := (v.timers t).isQueued && newstate } := by
  rw [rawRemoveHrtimer]
  split_ifs with hqueued
  · have hq : (v.timers t).isQueued = false := by simpa using hqueued
    rw [hq, Bool.false_and, ← hq]
  · have hq : (v.timers t).isQueued = true := by simpa using hqueued
    show setQueued v.timers t newstate t = _
    rw [hq, Bool.true_and, setQueued_self]

omit [DecidableEq T] [Setup T] in
theorem spares_interruptEnd {deferred : Bool} {f : Frame T} (hold : s.callback .hardirq c = none)
    (hends : Ends deferred s c f (s', o)) : Spares t s s' ∧ o ≠ .expired t := by
  cases hends with
  | retry b hb => exact ⟨spares_turn _ hold rfl, nofun⟩
  | done e b he hb => exact ⟨spares_turn _ hold rfl, nofun⟩

/-- A timer that is due leaves its queue, and its callback is called. -/
theorem expires_runHrtimer (he : Exclusive s) {ctx : Context} {f : Frame T} {i : BaseType}
    {rest : List BaseType} (hf : s.frame ctx c = some f) (hcallback : f.callback = none)
    (htodo : f.todo = i :: rest) (hfirst : ((s.cpuBase c).clockBase i).first = some t)
    (hdue : ¬f.basenow < (s.timers t).softexpires) :
    Expires ctx c t s (runHrtimer s ctx c f i t).1 := by
  obtain ⟨hqueued, hcpu, rfl, -⟩ :=
    ((he.placed.queues c).mem_active i t).mp (List.mem_of_mem_head? hfirst)
  exact ⟨⟨f, hf, hcallback, by rw [htodo]; rfl, hdue⟩, hqueued, hcpu,
    (timer_remove _ t false false).trans (by rw [Bool.and_false]), callback_setFrame _ ctx c _, rfl⟩

/-- The other timers stay as they are. -/
theorem spares_runHrtimer {ctx : Context} (hold : s.callback ctx c = none)
    (f : Frame T) (i : BaseType) (ht : t ≠ u) : Spares t s (runHrtimer s ctx c f i u).1 := by
  set v : Locked T Cpu := ⟨s.timers, (s.cpuBase c).setRunning i (some u)⟩
  have hput : Spares t s (s.put c (rawRemoveHrtimer v u false false)) :=
    spares_of_eq ((keeps_remove v u false false).timers t ht) rfl rfl
  refine hput.trans (spares_setFrame ?_)
  rw [show (s.put c (rawRemoveHrtimer v u false false)).callback ctx c = s.callback ctx c from rfl,
    hold]
  exact ⟨fun h => absurd (Option.some.inj h).symm ht,
    fun h => absurd h.symm (Option.some_ne_none t)⟩

/-- A turn of the loops of `__hrtimer_run_queues` expires one timer at most. -/
theorem expire_effect (he : Exclusive s) {deferred : Bool} {ctx : Context}
    (hs : expire deferred s ctx c = some (s', o)) :
    Spares t s s' ∧ o ≠ .expired t ∨ o = .expired t ∧ Expires ctx c t s s' := by
  obtain ⟨f, hf, hcallback, hturn⟩ := turn_of_expire hs
  have hold : s.callback ctx c = none := by rw [State.callback, hf, Option.bind_some, hcallback]
  cases hturn with
  | next _ i rest htodo hlater =>
    refine Or.inl ⟨spares_setFrame ?_, nofun⟩
    rw [Option.bind_some, hold,
      show (f.enter (s.cpuBase c) rest).callback = f.callback from rfl, hcallback]
  | run _ i rest u htodo hfirst hdue =>
    -- the queue says which timer it is, not the step
    rcases eq_or_ne t u with rfl | ht
    · exact Or.inr ⟨rfl, expires_runHrtimer he hf hcallback htodo hfirst hdue⟩
    · refine Or.inl ⟨spares_runHrtimer hold f i ht, fun ho => ht ?_⟩
      injection ho with ho
      exact ho.symm
  | interruptEnd htodo hends => exact Or.inl (spares_interruptEnd hold hends)
  | softirqEnd htodo => exact Or.inl ⟨spares_turn _ hold rfl, nofun⟩

theorem spares_callbackReturn {ctx : Context} {restart : Bool} (ht : s.callback ctx c ≠ some t)
    (hs : callbackReturn s ctx c restart = some (s', o)) : Spares t s s' ∧ o ≠ .expired t := by
  obtain ⟨f, u, hf, hu, rfl, rfl⟩ := of_callbackReturn hs
  have hne : t ≠ u := by
    rintro rfl
    exact ht (by rw [State.callback, hf, Option.bind_some, hu])
  set v := restartHrtimer (s.view c) u restart
  have hput : Spares t s (s.put c ⟨v.timers, v.cpuBase.setRunning (index u) none⟩) :=
    spares_of_eq ((keeps_restart (s.view c) u restart).timers t hne) rfl rfl
  refine ⟨hput.trans (spares_setFrame ?_), nofun⟩
  exact ⟨fun h => absurd h.symm (Option.some_ne_none t), fun h => absurd h ht⟩

/-! ### The step lemma -/

/-- **What a step does to a timer that it is not about.** -/
theorem perform_other (he : Exclusive s) {deferred : Bool} {a : Action T Cpu}
    (ha : ¬a.touches s t) (hs : perform deferred s a = some (s', o)) :
    Spares t s s' ∧ o ≠ .expired t ∨
      ∃ ctx c, a = .expire ctx c ∧ o = .expired t ∧ Expires ctx c t s s' := by
  have hne {u : T} (hu : a.touched s = some u) : t ≠ u := by
    rintro rfl
    exact ha hu
  cases performed_of_perform hs with
  | expire ctx c hs => exact (expire_effect he hs).imp_right fun h => ⟨ctx, c, rfl, h⟩
  | pass d => exact Or.inl ⟨spares_of_eq rfl rfl rfl, nofun⟩
  | setClock real boot tai => exact Or.inl ⟨spares_of_eq rfl rfl rfl, nofun⟩
  | clockWasSet c hs => cases hs <;> exact Or.inl ⟨spares_of_eq rfl rfl rfl, nofun⟩
  | retrigger c => exact Or.inl ⟨spares_of_eq rfl rfl rfl, nofun⟩
  | setup c u => exact Or.inl ⟨spares_of_eq (Function.update_of_ne (hne rfl) ..) rfl rfl, nofun⟩
  | setExpires u time delta hq =>
    exact Or.inl ⟨spares_of_eq (setExpires_of_ne _ _ _ (hne rfl)) rfl rfl, nofun⟩
  | forward u now interval =>
    exact Or.inl ⟨spares_of_eq (Function.update_of_ne (hne rfl) ..) rfl rfl, nofun⟩
  | start c u hfree hfits hs => exact Or.inl (spares_hrtimerStart (hne rfl) hfree hs)
  | finishStart c hs => exact Or.inl (spares_finishStart ha hs)
  | tryToCancel c u hs => exact Or.inl (spares_tryToCancel (hne rfl) hs)
  -- no callback runs before the first turn
  | interrupt c hnone =>
    exact Or.inl ⟨spares_turn _ (by rw [State.callback, hnone, Option.bind_none]) rfl, nofun⟩
  | softirq c hnone =>
    exact Or.inl ⟨spares_turn _ (by rw [State.callback, hnone, Option.bind_none]) rfl, nofun⟩
  | callbackReturn ctx c hs => exact Or.inl (spares_callbackReturn ha hs)
  | rearmDeferred c hnone hs => cases hs <;> exact Or.inl ⟨spares_of_eq rfl rfl rfl, nofun⟩

/-! ### Starting -/

/-- The soft expiry of a timer is over, as far as its CPU knows. -/
def Due (s : State T Cpu) (t : T) : Prop :=
  ∃ cpu ∈ (s.timers t).cpu,
    (s.timers t).softexpires - ((s.cpuBase cpu).clockBase (index t)).offset ≤ s.now

/-- Where a start leaves the timer: on no base yet, in its queue, or taken back as it was due. -/
inductive StartLeaves (s : State T Cpu) (c : Cpu) (t : T) : Outcome T → Prop
  | moving (hcpu : (s.timers t).cpu = none) (hstarting : s.startingTimer c = some t) :
    StartLeaves s c t .quiet
  | placed (ret : Bool) (hcpu : (s.timers t).cpu ≠ none) (hqueued : (s.timers t).isQueued = ret)
    (hdue : ret = false → Due s t) : StartLeaves s c t (.started ret)

section Tails

omit [DecidableEq Cpu]

theorem checkIfUser_effect (hq : (v.timers t).isQueued = true) (user : Bool) (now : Ktime) :
    (checkIfUser v t user now).1.timers t =
        { v.timers t with isQueued := (checkIfUser v t user now).2 } ∧
      ((checkIfUser v t user now).2 = false →
        (v.timers t).softexpires - (v.cpuBase.clockBase (index t)).offset ≤ now) := by
  have hstays : v.timers t = { v.timers t with isQueued := true } := by rw [← hq]
  rw [checkIfUser]
  split_ifs
  · rw [hrtimerCheckUserTimer]
    dsimp only
    split_ifs with hlater hfuture
    · exact ⟨hstays, False.elim⟩
    · exact ⟨hstays, False.elim⟩
    · -- taken back, since it is due already
      refine ⟨(timer_remove v t false false).trans (by rw [Bool.and_false]), fun _ => ?_⟩
      exact not_lt.mp hfuture
  · exact ⟨hstays, False.elim⟩

theorem startTail_effect (hq : (v.timers t).isQueued = true) (isLocal first wasFirst user : Bool)
    (now : Ktime) :
    (startTail v t isLocal first wasFirst user now).1.timers t =
        { v.timers t with isQueued := (startTail v t isLocal first wasFirst user now).2 } ∧
      ((startTail v t isLocal first wasFirst user now).2 = false →
        (v.timers t).softexpires - (v.cpuBase.clockBase (index t)).offset ≤ now) := by
  have hstays : v.timers t = { v.timers t with isQueued := true } := by rw [← hq]
  have hcheck := checkIfUser_effect hq user now
  rw [startTail]
  split_ifs
  · exact ⟨hstays, False.elim⟩
  · exact ⟨hstays, False.elim⟩
  · exact hcheck
  · exact ⟨hstays, False.elim⟩
  · exact hcheck

theorem enqueueTail_effect (v : Locked T Cpu) (t : T) (isLocal wasFirst user : Bool)
    (now : Ktime) :
    (enqueueTail v t isLocal wasFirst user now).1.timers t =
        { v.timers t with isQueued := (enqueueTail v t isLocal wasFirst user now).2 } ∧
      ((enqueueTail v t isLocal wasFirst user now).2 = false →
        (v.timers t).softexpires - (v.cpuBase.clockBase (index t)).offset ≤ now) := by
  have htimer : (enqueueHrtimer v t).1.timers t = { v.timers t with isQueued := true } :=
    setQueued_self _ _ _
  have htail := startTail_effect (congrArg Timer.isQueued htimer) isLocal (enqueueHrtimer v t).2
    wasFirst user now
  rw [htimer, (keeps_enqueue v t).offset] at htail
  exact htail

theorem requeueTail_effect (v : Locked T Cpu) (t : T) (expires delta : Ktime)
    (isLocal wasFirst user : Bool) (now : Ktime) :
    (requeueTail v t expires delta isLocal wasFirst user now).1.timers t =
        { v.timers t with
          softexpires := expires
          expires := ktimeAddSafe expires delta
          isQueued := (requeueTail v t expires delta isLocal wasFirst user now).2 } ∧
      ((requeueTail v t expires delta isLocal wasFirst user now).2 = false →
        expires - (v.cpuBase.clockBase (index t)).offset ≤ now) := by
  have htimer : (removeAndEnqueueSameBase v t expires delta).1.timers t = { v.timers t with
      softexpires := expires
      expires := ktimeAddSafe expires delta
      isQueued := true } := by
    rw [removeAndEnqueueSameBase]
    split_ifs with hplace
    · rw [← (Bool.and_eq_true_iff.mp hplace).1]
      exact setExpires_self _ _ _ _
    · show setQueued (hrtimerSetExpiresRangeNs v.timers t expires delta) t true t = _
      rw [setQueued_self, setExpires_self]
  have htail := startTail_effect (congrArg Timer.isQueued htimer) isLocal
    (removeAndEnqueueSameBase v t expires delta).2 wasFirst user now
  rw [htimer, (keeps_removeAndEnqueue v t expires delta).offset] at htail
  exact htail

end Tails

/-- A timer that is on no base gets one. -/
theorem startOn_effect (s : State T Cpu) (c target : Cpu) (t : T) (wasFirst user : Bool) :
    ((startOn s c target t wasFirst user).1.timers t).softexpires = (s.timers t).softexpires ∧
      ((startOn s c target t wasFirst user).1.timers t).expires = (s.timers t).expires ∧
      ∀ c', StartLeaves (startOn s c target t wasFirst user).1 c' t
        (startOn s c target t wasFirst user).2 := by
  set timers := setCpu s.timers t (some target) with htimers
  set v := ({ s with timers := timers } : State T Cpu).view target with hv
  have hself : v.timers t = { s.timers t with cpu := some target } := setCpu_self _ _ _
  obtain ⟨htimer, hdue⟩ := enqueueTail_effect v t (decide (target = c)) wasFirst user s.now
  rw [hself] at htimer hdue
  set r := enqueueTail v t (decide (target = c)) wasFirst user s.now with hr
  have hkeeps : Keeps t v r.1 := keeps_enqueueTail v t _ wasFirst user s.now
  have htimer' : (startOn s c target t wasFirst user).1.timers t =
      { s.timers t with cpu := some target, isQueued := r.2 } := htimer
  refine ⟨by rw [htimer'], by rw [htimer'], fun c' => .placed r.2 ?_ ?_ fun hret => ?_⟩
  · rw [htimer']
    exact Option.some_ne_none target
  · rw [htimer']
  · -- the offset is that of the target, which enqueueing leaves as it is
    refine ⟨target, by rw [htimer']; exact rfl, ?_⟩
    have hbase : ((startOn s c target t wasFirst user).1.cpuBase target).clockBase =
        r.1.cpuBase.clockBase := congrArg CpuBase.clockBase (State.cpuBase_put_self _ _)
    rw [htimer', hbase, hkeeps.offset]
    exact hdue hret

omit [Setup T] in
theorem startMoved_effect (s : State T Cpu) (c : Cpu) (start : Start T Cpu) :
    (startMoved s c start).timers start.timer = { s.timers start.timer with cpu := none } ∧
      (startMoved s c start).startingTimer c = some start.timer := by
  refine ⟨setCpu_self _ _ _, ?_⟩
  rw [State.startingTimer, show (startMoved s c start).starting c = some start from
    State.starting_setStarting_self _ _, Option.map_some]

/-- A timer that is started on its own base. -/
theorem startKept_effect (hcpu : (s.timers t).cpu = some cpu) (c : Cpu) (time delta : Ktime)
    (user : Bool) :
    ((startKept s c cpu t time delta user).1.timers t).softexpires = time ∧
      ((startKept s c cpu t time delta user).1.timers t).expires = ktimeAddSafe time delta ∧
      StartLeaves (startKept s c cpu t time delta user).1 c t
        (startKept s c cpu t time delta user).2 := by
  obtain ⟨htimer, hdue⟩ := requeueTail_effect (s.view cpu) t time delta (decide (cpu = c))
    (isNextTimer s cpu t) user s.now
  set r := requeueTail (s.view cpu) t time delta (decide (cpu = c)) (isNextTimer s cpu t) user
    s.now with hr
  have htimer' : (s.put cpu r.1).timers t = { s.timers t with
      softexpires := time, expires := ktimeAddSafe time delta, isQueued := r.2 } := htimer
  have hkeeps : Keeps t (s.view cpu) r.1 :=
    keeps_requeueTail (s.view cpu) t time delta _ _ user s.now
  have hcpu' : ((s.put cpu r.1).timers t).cpu = some cpu := by rw [htimer', hcpu]
  refine ⟨congrArg Timer.softexpires htimer', congrArg Timer.expires htimer',
    .placed r.2 (hcpu'.trans_ne (Option.some_ne_none cpu)) (congrArg Timer.isQueued htimer')
      fun hret => ⟨cpu, hcpu', ?_⟩⟩
  show ((s.put cpu r.1).timers t).softexpires -
    (((s.put cpu r.1).cpuBase cpu).clockBase (index t)).offset ≤ s.now
  rw [State.cpuBase_put_self, hkeeps.offset, htimer']
  exact hdue hret

/-- A timer that has left its base has its new expiry. -/
theorem startRemoved_effect (s : State T Cpu) (c cpu : Cpu) (t : T) (time delta : Ktime) :
    ((startRemoved s c cpu t time delta).timers t).softexpires = time ∧
      ((startRemoved s c cpu t time delta).timers t).expires = ktimeAddSafe time delta := by
  have htimer : (startRemoved s c cpu t time delta).timers t =
      { (rawRemoveHrtimer (s.view cpu) t true (decide (cpu = c))).timers t with
        softexpires := time, expires := ktimeAddSafe time delta } := setExpires_self _ _ _ _
  rw [htimer]
  exact ⟨rfl, rfl⟩

/-- **What a start does to its timer.** -/
theorem hrtimerStart_effect {time delta : Ktime} {rel user prefer : Bool}
    (hs : hrtimerStart s c t time delta rel user prefer target = some (s', o)) :
    (s'.timers t).softexpires = startTime s t time rel ∧
      (s'.timers t).expires = ktimeAddSafe (startTime s t time rel) delta ∧
      s'.frame = s.frame ∧ s'.now = s.now ∧ StartLeaves s' c t o := by
  cases starts_of_hrtimerStart hs with
  | kept cpu hcpu hkeep =>
    obtain ⟨hsoft, hhard, hleaves⟩ := startKept_effect hcpu c (startTime s t time rel) delta user
    exact ⟨hsoft, hhard, rfl, rfl, hleaves⟩
  | back cpu hcpu hleave hsuitable =>
    obtain ⟨hsoft, hhard⟩ := startRemoved_effect s c cpu t (startTime s t time rel) delta
    obtain ⟨hsoft', hhard', hleaves⟩ := startOn_effect
      (startRemoved s c cpu t (startTime s t time rel) delta) c cpu t (isNextTimer s cpu t) user
    exact ⟨hsoft'.trans hsoft, hhard'.trans hhard, rfl, rfl, hleaves c⟩
  | moved cpu target' hcpu hleave =>
    obtain ⟨hsoft, hhard⟩ := startRemoved_effect s c cpu t (startTime s t time rel) delta
    obtain ⟨htimer, hstarting⟩ :=
      startMoved_effect (startRemoved s c cpu t (startTime s t time rel) delta) c
        ⟨t, isNextTimer s cpu t, user, target'⟩
    exact ⟨(congrArg Timer.softexpires htimer).trans hsoft,
      (congrArg Timer.expires htimer).trans hhard, rfl, rfl,
      .moving (congrArg Timer.cpu htimer) hstarting⟩

/-- **What the end of a start does to the timer.** -/
theorem finishStart_effect (ht : s.startingTimer c = some t)
    (hs : finishStart s c = some (s', o)) :
    (s'.timers t).softexpires = (s.timers t).softexpires ∧
      (s'.timers t).expires = (s.timers t).expires ∧
      s'.frame = s.frame ∧ s'.now = s.now ∧ StartLeaves s' c t o := by
  obtain ⟨start, hstart, hfinishes⟩ := finishes_of_finishStart hs
  rw [State.startingTimer, hstart, Option.map_some] at ht
  obtain rfl := Option.some.inj ht
  cases hfinishes with
  | placed hsuitable =>
    obtain ⟨hsoft, hhard, hleaves⟩ := startOn_effect (s.setStarting c none) c start.target
      start.timer start.wasFirst start.user
    exact ⟨hsoft, hhard, rfl, rfl, hleaves c⟩
  | moved =>
    obtain ⟨htimer, hstarting⟩ :=
      startMoved_effect (s.setStarting c none) c { start with target := c }
    have hsoft := congrArg Timer.softexpires htimer
    have hhard := congrArg Timer.expires htimer
    exact ⟨hsoft, hhard, rfl, rfl, .moving (congrArg Timer.cpu htimer) hstarting⟩

/-! ### Cancelling -/

/-- What cancelling does to the timer. -/
theorem hrtimerTryToCancel_effect (hs : hrtimerTryToCancel s c t = some (s', o)) :
    (∃ isQueued, (isQueued = true → (s.timers t).isQueued = true) ∧
        s'.timers t = { s.timers t with isQueued := isQueued }) ∧
      s'.frame = s.frame ∧ s'.starting = s.starting ∧ s'.now = s.now ∧ ∃ ret, o = .tried ret := by
  obtain ⟨cpu, hcpu, htries⟩ := tries_of_hrtimerTryToCancel hs
  cases htries with
  | running hrunning => exact ⟨⟨_, id, rfl⟩, rfl, rfl, rfl, _, rfl⟩
  | removed hidle =>
    exact ⟨⟨_, fun hq => (Bool.and_eq_true_iff.mp hq).1, timer_remove _ t false _⟩, rfl, rfl, rfl,
      _, rfl⟩

/-! ### Frames and time -/

theorem finishStart_keeps (hs : finishStart s c = some (s', o)) :
    s'.frame = s.frame ∧ s'.now = s.now := by
  obtain ⟨start, hstart, hfinishes⟩ := finishes_of_finishStart hs
  cases hfinishes with
  | placed hsuitable => exact ⟨rfl, rfl⟩
  | moved => exact ⟨rfl, rfl⟩

theorem now_expire {deferred : Bool} {ctx : Context}
    (hs : expire deferred s ctx c = some (s', o)) : s'.now = s.now := by
  obtain ⟨f, hf, hcallback, hturn⟩ := turn_of_expire hs
  cases hturn with
  | next _ i rest htodo hlater => rfl
  | run _ i rest t htodo hfirst hdue => rfl
  | interruptEnd htodo hends => cases hends <;> rfl
  | softirqEnd htodo => rfl

/-- The step is part of expiring timers. -/
def Action.expiring : Action T Cpu → Bool
  | .interrupt .. | .softirq .. | .expire .. | .callbackReturn .. => true
  | .pass .. | .setClock .. | .clockWasSet .. | .retrigger .. | .setup .. | .setExpires ..
  | .forward .. | .start .. | .finishStart .. | .tryToCancel .. | .rearmDeferred .. => false

theorem frame_perform {deferred : Bool} {a : Action T Cpu} (ha : a.expiring = false)
    (hs : perform deferred s a = some (s', o)) : s'.frame = s.frame := by
  cases performed_of_perform hs with
  | start c t hfree hfits hs => exact (hrtimerStart_effect hs).2.2.1
  | finishStart c hs => exact (finishStart_keeps hs).1
  | tryToCancel c t hs => exact (hrtimerTryToCancel_effect hs).2.1
  | clockWasSet c hs => cases hs <;> rfl
  | rearmDeferred c hnone hs => cases hs <;> rfl
  | interrupt | softirq | expire | callbackReturn => cases ha
  | pass | setClock | retrigger | setup | setExpires | forward => rfl

/-- Time goes on with `pass` only. -/
theorem now_perform {deferred : Bool} {a : Action T Cpu}
    (hs : perform deferred s a = some (s', o)) :
    s'.now = s.now ∨ ∃ d, a = .pass d ∧ s'.now = s.now + d := by
  cases performed_of_perform hs with
  | pass d => exact Or.inr ⟨d, rfl, rfl⟩
  | start c t hfree hfits hs => exact Or.inl (hrtimerStart_effect hs).2.2.2.1
  | finishStart c hs => exact Or.inl (finishStart_keeps hs).2
  | tryToCancel c t hs =>
    obtain ⟨-, -, -, hnow, -⟩ := hrtimerTryToCancel_effect hs
    exact Or.inl hnow
  | clockWasSet c hs => cases hs <;> exact Or.inl rfl
  | rearmDeferred c hnone hs => cases hs <;> exact Or.inl rfl
  | expire ctx c hs => exact Or.inl (now_expire hs)
  | callbackReturn ctx c hs =>
    obtain ⟨f, t, -, -, rfl, -⟩ := of_callbackReturn hs
    exact Or.inl rfl
  | setClock | retrigger | setup | setExpires | forward | interrupt | softirq => exact Or.inl rfl

/-- Time does not go back. -/
theorem now_le_perform {deferred : Bool} {a : Action T Cpu}
    (hs : perform deferred s a = some (s', o)) : s.now ≤ s'.now := by
  rcases now_perform hs with h | ⟨d, -, h⟩
  · exact h.ge
  · rw [h]
    exact Int.le_add_of_nonneg_right (Int.natCast_nonneg d)

end Hrtimer

end HrtimerStudy
