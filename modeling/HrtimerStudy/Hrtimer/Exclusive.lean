import HrtimerStudy.Hrtimer.Placed

/-!
# Timers in one place

A timer is in at most one queue, and its callback runs at most once at a time, whatever the CPUs
do and in whatever order.

## Main definitions

* `InOnePlace` — where a timer can be

## Main results

* `Exclusive.perform` — what one step preserves
* `timer_exclusive` — **every timer is in one place** in every reachable state
-/

namespace HrtimerStudy

namespace Hrtimer

open Setup (index isLazy)

variable {T Cpu : Type*} [Setup T] [DecidableEq T] [DecidableEq Cpu]
variable {s s' : State T Cpu} {c : Cpu} {t : T} {v : Locked T Cpu}

/-! ### Expiring -/

section Turns

omit [DecidableEq T]

/-- A CPU writes its base and its frame between two callbacks. -/
theorem Exclusive.turn (h : Exclusive s) {b : CpuBase T} (hsame : SameActive (s.cpuBase c) b)
    {ctx : Context} {f' : Option (Frame T)} (hold : ∀ f ∈ s.frame ctx c, f.callback = none)
    (hnew : ∀ f ∈ f', f.callback = none ∧ ∀ i ∈ f.todo, i.context = ctx) :
    Exclusive ((s.put c ⟨s.timers, b⟩).setFrame ctx c f') := by
  have hplaced := h.placed.putBase hsame.active hsame.activeBases
  exact ⟨⟨hplaced.queues, hplaced.starting, hplaced.starting_inj, hplaced.moving⟩,
    (h.expiring.putBase hsame).setFrame hold hnew⟩

/-- The same without the frame. -/
theorem Exclusive.putBase (h : Exclusive s) {b : CpuBase T} (hsame : SameActive (s.cpuBase c) b) :
    Exclusive (s.put c ⟨s.timers, b⟩) :=
  ⟨h.placed.putBase hsame.active hsame.activeBases, h.expiring.putBase hsame⟩

theorem Exclusive.setIpi (h : Exclusive s) (ipi : Bool) : Exclusive (s.setIpi c ipi) :=
  ⟨⟨h.placed.queues, h.placed.starting, h.placed.starting_inj, h.placed.moving⟩,
    ⟨h.expiring.todo, h.expiring.callback, h.expiring.running⟩⟩

omit [Setup T] [DecidableEq Cpu] in
theorem context_of_mem_bases {ctx : Context} {i : BaseType} (hi : i ∈ ctx.bases) :
    i.context = ctx := by
  cases ctx <;> cases i <;> simp_all [Context.bases, hardBases, softBases, BaseType.context,
    BaseType.isSoft]

omit [Setup T] [DecidableEq Cpu] in
/-- The frame with which `__hrtimer_run_queues` starts. -/
theorem runQueues_spec (b : CpuBase T) (ctx : Context) (now entryTime : Ktime) (retries : ℕ) :
    ∀ f ∈ some (runQueues b ctx now entryTime retries),
      f.callback = none ∧ ∀ i ∈ f.todo, i.context = ctx := by
  intro f hf
  obtain rfl := Option.some.inj hf
  exact ⟨rfl, fun i hi => context_of_mem_bases (List.mem_filter.mp hi).1⟩

omit [Setup T] [DecidableEq Cpu] in
theorem sameActive_interruptRetry (b : CpuBase T) (now : Ktime) :
    SameActive b (interruptRetry b now) := by
  rw [interruptRetry]
  split_ifs <;> exact sameActive_of_eq rfl rfl

omit [Setup T] [DecidableEq Cpu] in
theorem sameActive_interruptEvent (b : CpuBase T) (clock : Offsets) :
    SameActive b (interruptEvent b clock).2 :=
  ((sameActive_updateBase b clock).trans (sameQueues_updateNextEvent _).sameActive).trans
    (sameActive_of_eq rfl rfl)

omit [Setup T] [DecidableEq Cpu] in
theorem sameActive_interruptRearm (deferred : Bool) (b : CpuBase T) (expiresNext now : Ktime) :
    SameActive b (hrtimerInterruptRearm deferred b expiresNext now) := by
  rw [hrtimerInterruptRearm]
  split_ifs <;> exact sameActive_of_eq rfl rfl

omit [DecidableEq Cpu] in
theorem sameActive_softirqUpdate (v : Locked T Cpu) : SameActive v.cpuBase (softirqUpdate v) := by
  have hdone : SameActive v.cpuBase { v.cpuBase with softirqActivated := false } :=
    sameActive_of_eq rfl rfl
  exact hdone.trans (sameQueues_updateSoftirqTimer ⟨v.timers, _⟩ true).sameActive

/-- A CPU begins to expire timers. -/
theorem Exclusive.beginTurn (h : Exclusive s) {ctx : Context} (hnone : s.frame ctx c = none)
    {b : CpuBase T} (hsame : SameActive (s.cpuBase c) b) (b' : CpuBase T) (now entryTime : Ktime)
    (retries : ℕ) : Exclusive ((s.put c ⟨s.timers, b⟩).setFrame ctx c
      (some (runQueues b' ctx now entryTime retries))) := by
  refine h.turn hsame (fun f hf => ?_) (runQueues_spec _ _ _ _ _)
  rw [hnone] at hf
  cases hf

theorem Exclusive.interruptEnd (h : Exclusive s) {f : Frame T}
    (hf : s.frame .hardirq c = some f) (hcallback : f.callback = none) {deferred : Bool}
    {o : Outcome T} (hends : Ends deferred s c f (s', o)) : Exclusive s' := by
  have hold : ∀ f' ∈ s.frame .hardirq c, f'.callback = none := by
    intro f' hf'
    obtain rfl : f = f' := Option.some.inj (hf.symm.trans hf')
    exact hcallback
  have hsame := sameActive_interruptEvent (s.cpuBase c) s.clock
  cases hends with
  | retry b hb =>
    subst hb
    exact h.turn (hsame.trans (sameActive_interruptRetry _ _)) hold (runQueues_spec _ _ _ _ _)
  | done e b he hb =>
    refine h.turn (hsame.trans (SameActive.trans ?_ (sameActive_interruptRearm _ _ _ _))) hold nofun
    obtain ⟨rfl, -⟩ | rfl := hb
    · exact sameActive_of_eq rfl rfl
    · exact sameActive_of_eq rfl rfl

theorem Exclusive.softirqEnd (h : Exclusive s) {f : Frame T}
    (hf : s.frame .softirq c = some f) (hcallback : f.callback = none) :
    Exclusive (softirqEnd s c).1 := by
  refine h.turn (sameActive_softirqUpdate (s.view c)) ?_ nofun
  intro f' hf'
  obtain rfl : f = f' := Option.some.inj (hf.symm.trans hf')
  exact hcallback

end Turns

omit [DecidableEq T] in
/-- A callback starts or ends. -/
theorem Expiring.swap (h : Expiring s) {ctx : Context} {f : Frame T} {i : BaseType}
    {running : Option T} (hf : s.frame ctx c = some f) (hi : f.todo.head? = some i)
    (htimers : ∀ u, (v.timers u).cpu = (s.timers u).cpu)
    (hself : (v.cpuBase.clockBase i).running = running)
    (hrest : ∀ j, j ≠ i →
      (v.cpuBase.clockBase j).running = ((s.cpuBase c).clockBase j).running)
    (hrunning : ∀ u, running = some u → index u = i ∧ (s.timers u).cpu = some c) :
    Expiring ((s.put c v).setFrame ctx c (some { f with callback := running })) where
  todo := by
    intro ctx' c' f' hf'
    obtain ⟨rfl, rfl, hnew⟩ | hf' := State.of_frame_setFrame _ hf'
    · obtain rfl := Option.some.inj hnew
      exact h.todo ctx' c' f hf
    · exact h.todo ctx' c' f' hf'
  callback := by
    intro ctx' c' f' u hf' hu
    obtain ⟨rfl, rfl, hnew⟩ | hf' := State.of_frame_setFrame _ hf'
    · obtain rfl := Option.some.inj hnew
      obtain ⟨hindex, hcpu⟩ := hrunning u hu
      exact ⟨hindex ▸ hi, (htimers u).trans hcpu⟩
    · obtain ⟨hhead, hcpu⟩ := h.callback ctx' c' f' u hf' hu
      exact ⟨hhead, (htimers u).trans hcpu⟩
  running := by
    intro c' j u
    have hctx : i.context = ctx := h.todo ctx c f hf i (List.mem_of_mem_head? hi)
    rcases eq_or_ne c' c with rfl | hc
    · show (((s.put c' v).cpuBase c').clockBase j).running = some u ↔ _
      rw [State.cpuBase_put_self]
      rcases eq_or_ne j i with rfl | hj
      · rw [hself, hctx, State.frame_setFrame_self]
        constructor
        · intro hu
          exact ⟨_, rfl, hu, hi⟩
        · rintro ⟨f', hf', hu, -⟩
          obtain rfl := Option.some.inj hf'
          exact hu
      · rw [hrest j hj, h.running c' j u]
        by_cases hjctx : j.context = ctx
        · -- this base is not the current one, before and after
          rw [hjctx, State.frame_setFrame_self, hf]
          have hhead : f.todo.head? ≠ some j :=
            fun heq => hj (Option.some.inj (heq.symm.trans hi))
          refine iff_of_false ?_ ?_ <;>
          · rintro ⟨f', hf', -, heq⟩
            obtain rfl := Option.some.inj hf'
            exact hhead heq
        · rw [State.frame_setFrame_of_ne _ _ (Or.inl hjctx)]
          exact Iff.rfl
    · show (((s.put c v).cpuBase c').clockBase j).running = some u ↔ _
      rw [State.cpuBase_put_of_ne _ _ hc, State.frame_setFrame_of_ne _ _ (Or.inr hc)]
      exact h.running c' j u

/-- `__run_hrtimer` up to the callback: the timer leaves its queue. -/
theorem Exclusive.runHrtimer (h : Exclusive s) {ctx : Context} {f : Frame T} {i : BaseType}
    (hf : s.frame ctx c = some f) (hi : f.todo.head? = some i)
    (hfirst : t ∈ ((s.cpuBase c).clockBase i).active) : Exclusive (runHrtimer s ctx c f i t).1 := by
  obtain ⟨-, hcpu, rfl, -⟩ := ((h.placed.queues c).mem_active i t).mp hfirst
  set v : Locked T Cpu := ⟨s.timers, (s.cpuBase c).setRunning (index t) (some t)⟩ with hv
  have hkeeps := keeps_remove v t false false
  have hrunning : Placed none (s.put c v) :=
    h.placed.putBase (fun j => active_setRunning _ _ _ j) rfl
  have hplaced : Placed none ((s.put c v).put c (rawRemoveHrtimer v t false false)) := by
    refine hrunning.put hcpu ?_ ?_ fun _ _ => Iff.rfl
    · rw [State.view_put_self]
      exact hkeeps
    · rw [← State.view_put_self s v]
      exact (hrunning.queues c).deactivate t false
  rw [State.put_put] at hplaced
  have htimers : ∀ u, ((rawRemoveHrtimer v t false false).timers u).cpu = (s.timers u).cpu := by
    intro u
    rcases eq_or_ne u t with rfl | hu
    · exact hkeeps.cpu
    · rw [hkeeps.timers u hu]
  refine ⟨⟨hplaced.queues, hplaced.starting, hplaced.starting_inj, hplaced.moving⟩,
    h.expiring.swap hf hi htimers ?_ ?_ ?_⟩
  · rw [hkeeps.running]
    exact running_setRunning_self _ _ _
  · intro j hj
    rw [hkeeps.running, hv]
    exact congrArg ClockBase.running (setRunning_of_ne _ _ _ hj)
  · intro u hu
    obtain rfl : t = u := Option.some.inj hu
    exact ⟨rfl, hcpu⟩

omit [DecidableEq Cpu] in
theorem keeps_restart (v : Locked T Cpu) (t : T) (restart : Bool) :
    Keeps t v (restartHrtimer v t restart) := by
  rw [restartHrtimer]
  split_ifs
  · exact keeps_enqueue v t
  · exact .refl t v

omit [DecidableEq Cpu] in
theorem Queues.restart (h : Queues c none v) (hcpu : (v.timers t).cpu = some c) (restart : Bool) :
    Queues c none (restartHrtimer v t restart) := by
  rw [restartHrtimer]
  split_ifs with hrestart
  · have hq : (v.timers t).isQueued = false := by
      simpa using (Bool.and_eq_true_iff.mp hrestart).2
    exact (h.idle hq).enqueue hcpu
  · exact h

/-- `__run_hrtimer` behind the callback: the timer may be back in its queue. -/
theorem Exclusive.callbackReturn (h : Exclusive s) {ctx : Context} {restart : Bool}
    {o : Outcome T} (hs : callbackReturn s ctx c restart = some (s', o)) : Exclusive s' := by
  obtain ⟨f, t, hf, ht, rfl, -⟩ := of_callbackReturn hs
  obtain ⟨hi, hcpu⟩ := h.expiring.callback ctx c f t hf ht
  set v := restartHrtimer (s.view c) t restart with hv
  have hkeeps : Keeps t (s.view c) v := keeps_restart (s.view c) t restart
  have hrestarted : Placed none (s.put c v) :=
    h.placed.put hcpu hkeeps ((h.placed.queues c).restart hcpu restart) fun _ _ => Iff.rfl
  have hplaced : Placed none ((s.put c v).put c
      ⟨v.timers, v.cpuBase.setRunning (index t) none⟩) := by
    refine hrestarted.putBase (fun j => ?_) ?_
    · rw [State.cpuBase_put_self, active_setRunning]
    · rw [State.cpuBase_put_self]
      rfl
  rw [State.put_put] at hplaced
  refine ⟨⟨hplaced.queues, hplaced.starting, hplaced.starting_inj, hplaced.moving⟩,
    h.expiring.swap hf hi (fun u => ?_) ?_ (fun j hj => ?_) nofun⟩
  · rcases eq_or_ne u t with rfl | hu
    · exact hkeeps.cpu
    · exact congrArg Timer.cpu (hkeeps.timers u hu)
  · exact running_setRunning_self _ _ _
  · exact (congrArg ClockBase.running (setRunning_of_ne _ _ _ hj)).trans (hkeeps.running j)

/-- A turn of the loops of `__hrtimer_run_queues`. -/
theorem Exclusive.expire (h : Exclusive s) {deferred : Bool} {ctx : Context} {o : Outcome T}
    (hs : expire deferred s ctx c = some (s', o)) : Exclusive s' := by
  obtain ⟨f, hf, hcallback, hturn⟩ := turn_of_expire hs
  cases hturn with
  | next _ i rest htodo hlater =>
    refine ⟨⟨h.placed.queues, h.placed.starting, h.placed.starting_inj, h.placed.moving⟩,
      h.expiring.setFrame (fun f' hf' => ?_) fun f' hf' => ?_⟩
    · obtain rfl : f = f' := Option.some.inj (hf.symm.trans hf')
      exact hcallback
    · obtain rfl := Option.some.inj hf'
      refine ⟨hcallback, fun j hj => h.expiring.todo ctx c f hf j ?_⟩
      rw [htodo]
      exact List.mem_cons_of_mem i hj
  | run _ i rest t htodo hfirst hdue =>
    exact h.runHrtimer hf (by rw [htodo]; rfl) (List.mem_of_mem_head? hfirst)
  | interruptEnd htodo hends => exact h.interruptEnd hf hcallback hends
  | softirqEnd htodo => exact h.softirqEnd hf hcallback

/-! ### The step lemma -/

section Bases

omit [DecidableEq T]

theorem Exclusive.rearms (h : Exclusive s) {o : Outcome T} (hs : Rearms s c (s', o)) :
    Exclusive s' := by
  have hsame := (sameActive_updateBase (s.cpuBase c) s.clock).trans
    (sameQueues_updateNextEvent _).sameActive
  cases hs with
  | idle hd => exact h
  | update hd hneeds => exact h.putBase (hsame.trans (sameActive_of_eq rfl rfl))
  | known hd hneeds => exact h.putBase (sameActive_of_eq rfl rfl)

theorem Exclusive.updates (h : Exclusive s) {caller : Cpu} {bases : BaseType → Bool}
    {b : CpuBase T} (hsame : SameActive (s.cpuBase c) b) {o : Outcome T}
    (hs : Updates s caller c bases b (s', o)) : Exclusive s' := by
  cases hs with
  | same hseq => exact h.putBase hsame
  | deferred hd => exact h.putBase (hsame.trans (sameActive_of_eq rfl rfl))
  | asked hd => exact (h.putBase hsame).setIpi _

end Bases

omit [DecidableEq T] [Setup T] [DecidableEq Cpu] in
/-- `hrtimer_forward` writes the expiry only. -/
theorem hrtimerForward_fields (timer : Timer Cpu) (now interval : Ktime) :
    (hrtimerForward timer now interval).1.isQueued = timer.isQueued ∧
      (hrtimerForward timer now interval).1.cpu = timer.cpu := by
  rw [hrtimerForward]
  dsimp only
  split_ifs <;> exact ⟨rfl, rfl⟩

theorem Exclusive.perform (h : Exclusive s) {deferred : Bool} {a : Action T Cpu} {o : Outcome T}
    (hs : perform deferred s a = some (s', o)) : Exclusive s' := by
  have hupdated (c : Cpu) := sameActive_updateBase (s.cpuBase c) s.clock
  cases performed_of_perform hs with
  | pass d =>
    exact ⟨⟨h.placed.queues, h.placed.starting, h.placed.starting_inj, h.placed.moving⟩,
      ⟨h.expiring.todo, h.expiring.callback, h.expiring.running⟩⟩
  | setClock real boot tai =>
    exact ⟨⟨h.placed.queues, h.placed.starting, h.placed.starting_inj, h.placed.moving⟩,
      ⟨h.expiring.todo, h.expiring.callback, h.expiring.running⟩⟩
  | clockWasSet c hs => exact h.updates (hupdated c) hs
  | retrigger c =>
    have hsame := (hupdated c).trans (sameQueues_forceReprogram _ false).sameActive
    exact (h.putBase hsame).setIpi false
  | setup c t hq hcpu hidle => exact h.setup hq hcpu hidle c
  | setExpires t time delta hq => exact h.setTimer rfl rfl
  | forward t now interval =>
    have hfields := hrtimerForward_fields (s.timers t) now interval
    exact h.setTimer hfields.1 hfields.2
  | start c t hfree hfits hs => exact h.hrtimerStart hfree hs
  | finishStart c hs => exact h.finishStart hs
  | tryToCancel c t hs => exact h.tryToCancel hs
  | interrupt c hnone =>
    have hsame := (hupdated c).trans (sameActive_interruptRetry _ s.now)
    refine h.beginTurn hnone (hsame.trans ?_) _ _ _ _
    exact sameActive_of_eq rfl rfl
  | softirq c hnone => exact h.beginTurn hnone (hupdated c) _ _ _ _
  | expire ctx c hs => exact h.expire hs
  | callbackReturn ctx c hs => exact h.callbackReturn hs
  | rearmDeferred c hnone hs => exact h.rearms hs

theorem Exclusive.step (h : Exclusive s) {deferred : Bool} {a : Action T Cpu}
    (hs : step deferred s a = some s') : Exclusive s' := by
  obtain ⟨⟨_, o⟩, ho, rfl⟩ := Option.map_eq_some_iff.mp hs
  exact h.perform ho

/-- The run lemma. -/
theorem exclusive_of_reachable {deferred : Bool} {now : Ktime} {cpuOf : T → Cpu}
    (h : Reachable (step deferred) (start now cpuOf) s) : Exclusive s :=
  h.invariant ⟨placed_start now cpuOf, expiring_start now cpuOf⟩ fun hI _ hs => hI.step hs

/-! ### The main result -/

/-- A timer is in one place at a time. -/
structure InOnePlace (s : State T Cpu) (t : T) : Prop where
  /-- there is only one queue that it can be in, and it is in there once -/
  queue : ∀ c i c' i', t ∈ ((s.cpuBase c).clockBase i).active →
    t ∈ ((s.cpuBase c').clockBase i').active → c = c' ∧ i = i'
  once : ∀ c i, ((s.cpuBase c).clockBase i).active.count t ≤ 1
  /-- one that is queued is in its queue, or some CPU is about to put it into one -/
  queued : (s.timers t).isQueued = true →
    (∃ c, (s.timers t).cpu = some c ∧ t ∈ ((s.cpuBase c).clockBase (index t)).active) ∨
      ∃ c start, s.starting c = some start ∧ start.timer = t
  /-- its callback runs at most once at a time -/
  callback : ∀ ctx c f ctx' c' f', s.frame ctx c = some f → f.callback = some t →
    s.frame ctx' c' = some f' → f'.callback = some t → ctx = ctx' ∧ c = c'
  /-- meanwhile it is queued on the same CPU only -/
  callback_queue : ∀ ctx c f c' i, s.frame ctx c = some f → f.callback = some t →
    t ∈ ((s.cpuBase c').clockBase i).active → c' = c

omit [DecidableEq T] [DecidableEq Cpu] in
theorem Expiring.context_eq (h : Expiring s) {ctx : Context} {f : Frame T}
    (hf : s.frame ctx c = some f) (ht : f.callback = some t) : (index t).context = ctx :=
  h.todo ctx c f hf _ (List.mem_of_mem_head? (h.callback ctx c f t hf ht).1)

omit [DecidableEq Cpu] in
theorem Exclusive.inOnePlace (h : Exclusive s) (t : T) : InOnePlace s t where
  queue := by
    intro c i c' i' hmem hmem'
    obtain ⟨-, hc, hi, -⟩ := ((h.placed.queues c).mem_active i t).mp hmem
    obtain ⟨-, hc', hi', -⟩ := ((h.placed.queues c').mem_active i' t).mp hmem'
    exact ⟨Option.some.inj (hc.symm.trans hc'), hi.symm.trans hi'⟩
  once := fun c i => List.nodup_iff_count_le_one.mp ((h.placed.queues c).nodup i) t
  queued := by
    intro hq
    cases hc : (s.timers t).cpu with
    | none => exact Or.inr ((h.placed.moving t hc).resolve_left nofun)
    | some c => exact Or.inl ⟨c, rfl, ((h.placed.queues c).mem_active _ t).mpr ⟨hq, hc, rfl, nofun⟩⟩
  callback := by
    intro ctx c f ctx' c' f' hf ht hf' ht'
    have hc := (h.expiring.callback ctx c f t hf ht).2
    have hc' := (h.expiring.callback ctx' c' f' t hf' ht').2
    exact ⟨(h.expiring.context_eq hf ht).symm.trans (h.expiring.context_eq hf' ht'),
      Option.some.inj (hc.symm.trans hc')⟩
  callback_queue := by
    intro ctx c f c' i hf ht hmem
    have hc := (h.expiring.callback ctx c f t hf ht).2
    obtain ⟨-, hc', -, -⟩ := ((h.placed.queues c').mem_active i t).mp hmem
    exact Option.some.inj (hc'.symm.trans hc)

/-- **Every timer is in one place**, in every reachable state. -/
theorem timer_exclusive {deferred : Bool} {now : Ktime} {cpuOf : T → Cpu}
    (h : Reachable (Hrtimer.step deferred) (start now cpuOf) s) (t : T) : InOnePlace s t :=
  (exclusive_of_reachable h).inOnePlace t

/-- The right timer joins the left one, which expires and is started by the other CPU before its
callback returns. -/
theorem timer_exclusive_restarted : InOnePlace ((pairAfter
    [.start false .left 100 0 false false true false,
      .start true .right 100 50 true false false false, .finishStart true, .pass 100,
      .interrupt false, .expire .hardirq false,
      .start true .left 200 0 false false false true]).get (by decide)) .left :=
  timer_exclusive (reachable_pairAfter _) .left

end Hrtimer

end HrtimerStudy
