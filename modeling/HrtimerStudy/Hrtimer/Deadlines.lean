import HrtimerStudy.Hrtimer.OnTime

/-!
# Deadlines

Two things can make a device late. A timer that is restarted in place with a slack that reaches
over the next timer breaks the order of its queue. And the offsets of a CPU can be updated by
somebody who does not look at the next event. A softirq does that, and then `clock_was_set` finds
nothing to do. `clock_was_set` does it too, for the bases that it is not told about and on the CPU
that it runs on, which gets no retrigger. Steps that do neither are careful. For `CLOCK_MONOTONIC`
only the first matters, and it is the only one that matters for what an interrupt leaves behind.

## Main definitions

* `Careful` — the conditions on the steps
* `Attended` — a CPU has not forgotten a timer

## Main results

* `OnTime.perform` — what one step preserves
* `timer_attended` — **no hard timer is forgotten** in a run of careful steps
* `interrupt_complete` — when an interrupt is done, no timer is overdue, unless it gave up
* `monotonic_attended` — the case of `CLOCK_MONOTONIC`
-/

namespace HrtimerStudy

namespace Hrtimer

open Setup (index isLazy)

variable {T Cpu : Type*} [DecidableEq T] [DecidableEq Cpu] [Setup T]
variable {w : List BaseType} {waits : Bool} {s s' : State T Cpu} {c : Cpu} {t : T} {o : Outcome T}

/-! ### Conditions on the steps -/

/-- The step does not move the timers of a CPU ahead of its next event behind its back. -/
def KeepsEvent (w : List BaseType) (s : State T Cpu) (a : Action T Cpu) : Prop :=
  match a with
  | .softirq c => Current w s c
  | .retrigger c => (s.cpuBase c).deferredRearm = true → Current w s c
  | .clockWasSet caller c bases => (s.cpuBase c).deferredRearm = false →
      ∀ i ∈ w, bases i = false ∨ c = caller →
        ((s.cpuBase c).clockBase i).offset = s.clock.of i ∨ StaysBehind (s.view c) s.clock i
  | .pass .. | .setClock .. | .setup .. | .setExpires .. | .forward .. | .start ..
  | .finishStart .. | .tryToCancel .. | .interrupt .. | .expire .. | .callbackReturn ..
  | .rearmDeferred .. => True

instance (w : List BaseType) (s : State T Cpu) (a : Action T Cpu) : Decidable (KeepsEvent w s a) :=
  match a with
  | .softirq c => inferInstanceAs (Decidable (Current w s c))
  | .retrigger c => inferInstanceAs (Decidable ((s.cpuBase c).deferredRearm = true → Current w s c))
  | .clockWasSet caller c bases =>
    inferInstanceAs (Decidable ((s.cpuBase c).deferredRearm = false →
      ∀ i ∈ w, bases i = false ∨ c = caller →
        ((s.cpuBase c).clockBase i).offset = s.clock.of i ∨ StaysBehind (s.view c) s.clock i))
  | .pass .. | .setClock .. | .setup .. | .setExpires .. | .forward .. | .start ..
  | .finishStart .. | .tryToCancel .. | .interrupt .. | .expire .. | .callbackReturn ..
  | .rearmDeferred .. => .isTrue trivial

/-- The step spoils neither the order of a queue nor the next event. -/
def Careful (w : List BaseType) (s : State T Cpu) (a : Action T Cpu) : Prop :=
  KeepsOrder w s a ∧ KeepsEvent w s a

instance (w : List BaseType) (s : State T Cpu) (a : Action T Cpu) : Decidable (Careful w s a) :=
  inferInstanceAs (Decidable (KeepsOrder w s a ∧ KeepsEvent w s a))

/-! ### The step lemma -/

omit [DecidableEq T] [DecidableEq Cpu] [Setup T] in
theorem onTime_start (w : List BaseType) (waits : Bool) (now : Ktime) (cpuOf : T → Cpu) :
    OnTime w waits (start now cpuOf) :=
  fun _ => ⟨nofun, fun _ _ => rfl, nofun, fun _ _ _ _ => nofun, nofun⟩

/-- **What one step preserves.** Where a retrigger is no excuse, the CPUs must have the offsets of
the clocks. -/
theorem OnTime.perform (h : OnTime w waits s) (htidy : Tidy w s) (hexclusive : Exclusive s)
    (hw : Watched w T) (hwaits : waits = false → ∀ c, Current w s c) {deferred : Bool}
    {a : Action T Cpu} (ha : Careful w s a) (hs : perform deferred s a = some (s', o)) :
    OnTime w waits s' := by
  have hplaced := hexclusive.placed
  obtain ⟨horder, hevent⟩ := ha
  cases performed_of_perform hs with
  | pass d =>
    intro c
    refine ⟨(h c).running, (h c).device, fun hd hh => ?_, (h c).covered, (h c).deferred⟩
    have hlate : (s.cpuBase c).device ≤ s.now + 100000000 := (h c).hang hd hh
    have hpass : s.now ≤ s.now + d := Int.le_add_of_nonneg_right (Int.natCast_nonneg d)
    exact hlate.trans (Int.add_le_add_right hpass _)
  | setClock real boot tai => exact fun c => h c
  | clockWasSet c hs =>
    refine h.updates htidy hplaced hw (fun hd i hi hleft => ?_) hs
    rcases hleft with hnone | hleft
    · exact Or.inl (hwaits hnone c i hi)
    · exact hevent hd i hi hleft
  | retrigger c =>
    have hqueues := (hplaced.queues c).of_sameActive (sameActive_updateBase _ s.clock)
    have hsorted := (htidy c).updateBase.sorted
    exact h.putIpi false (((h c).refresh hevent).force hw.hard hsorted hqueues false _ fun _ => rfl)
  | setup c t hq => exact h.write hplaced (Or.inr hq) fun _ hu => Function.update_of_ne hu ..
  | setExpires t time delta hq =>
    exact h.write hplaced (Or.inr hq) fun _ hu => setExpires_of_ne _ _ _ hu
  | forward t now interval =>
    cases hq : (s.timers t).isQueued with
    | false => exact h.write hplaced (Or.inr hq) fun _ hu => Function.update_of_ne hu ..
    | true =>
      rw [hrtimerForward_queued hq, Function.update_eq_self]
      exact h
  | start c t hfree hfits hs => exact h.hrtimerStart htidy hexclusive hw hfits horder hs
  | finishStart c hs => exact h.finishStart htidy hexclusive hw hs
  | tryToCancel c t hs => exact h.tryToCancel htidy hexclusive hw hs
  | interrupt c hnone =>
    -- from here on nothing is asked of the device
    exact h.turn (armed_of_busy (interruptRetry_fields (hrtimerUpdateBase _ s.clock) s.now).1)
  | softirq c hnone => exact h.turn ((h c).updateBase hevent)
  | expire ctx c hs => exact h.expire htidy hexclusive hw hs
  | callbackReturn ctx c hs => exact h.callbackReturn hexclusive hw hs
  | rearmDeferred c hnone hs => exact h.rearms htidy hplaced hw hnone hs

/-- The run lemma. -/
theorem onTime_of_run (hw : Watched w T) {deferred : Bool} {now : Ktime} {cpuOf : T → Cpu}
    (h : Run (step deferred) (Careful w) (start now cpuOf) s) : OnTime w true s ∧ Exclusive s := by
  refine (h.invariant (I := fun s => Tidy w s ∧ OnTime w true s ∧ Exclusive s)
    ⟨tidy_start w now cpuOf, onTime_start w true now cpuOf, placed_start now cpuOf,
      expiring_start now cpuOf⟩ fun hI ha hs => ?_).2
  obtain ⟨htidy, honTime, he⟩ := hI
  obtain ⟨⟨_, o⟩, ho, rfl⟩ := Option.map_eq_some_iff.mp hs
  exact ⟨htidy.perform he ha.1 ho, honTime.perform htidy he hw (fun h => absurd h nofun) ha ho,
    he.perform ho⟩

/-! ### The main results -/

/-- A CPU has not forgotten a timer that is due at some time. -/
inductive Attended (s : State T Cpu) (c : Cpu) (due : Ktime) : Prop
  /-- the interrupt is expiring timers -/
  | expiring (h : (s.frame .hardirq c).isSome = true)
  /-- the device is about to be programmed, for an event that is looked up then or known already -/
  | deferred (h : (s.cpuBase c).deferredRearm = true)
    (hnext : (s.cpuBase c).deferredNeedsUpdate = true ∨ (s.cpuBase c).deferredExpiresNext ≤ due)
  /-- the device is programmed in time -/
  | armed (h : (s.cpuBase c).deferredRearm = false) (hdevice : (s.cpuBase c).device ≤ due)
  /-- the interrupt gave up, and comes again at the latest after 100 ms -/
  | hang (h : (s.cpuBase c).hangDetected = true)
    (hdevice : (s.cpuBase c).device ≤ s.now + 100000000)

omit [DecidableEq T] [DecidableEq Cpu] in
theorem OnTime.attended (h : OnTime w waits s) (hplaced : Placed none s)
    (hwaits : (waits && s.ipi c) = false) (hqueued : (s.timers t).isQueued = true)
    (hcpu : (s.timers t).cpu = some c) (ht : index t ∈ w) :
    Attended s c (((s.cpuBase c).clockBase (index t)).due s.timers t) := by
  have hmem : t ∈ ((s.cpuBase c).clockBase (index t)).active :=
    ((hplaced.queues c).mem_active _ t).mpr ⟨hqueued, hcpu, rfl, (Option.some_ne_none t).symm⟩
  have harmed := h c
  cases hd : (s.cpuBase c).deferredRearm with
  | true =>
    cases hbusy : (s.frame .hardirq c).isSome with
    | true => exact .expiring hbusy
    | false =>
      cases hneeds : (s.cpuBase c).deferredNeedsUpdate with
      | true => exact .deferred hd (Or.inl hneeds)
      | false =>
        have hcovered := harmed.deferred hd hbusy hneeds _ ht t hmem (Option.some_ne_none t).symm
        exact .deferred hd (Or.inr hcovered)
  | false =>
    cases hhang : (s.cpuBase c).hangDetected with
    | true => exact .hang hhang (harmed.hang hd hhang)
    | false =>
      have hdevice := harmed.device hd hhang
      have hcovered := harmed.covered hd hwaits _ ht t hmem (Option.some_ne_none t).symm
      exact .armed hd (hdevice.trans_le hcovered)

/-- **No hard timer is forgotten** in a run of careful steps, unless a retrigger is on its way. -/
theorem timer_attended (hw : Watched w T) {deferred : Bool} {now : Ktime} {cpuOf : T → Cpu}
    (h : Run (step deferred) (Careful w) (start now cpuOf) s)
    (hqueued : (s.timers t).isQueued = true) (hcpu : (s.timers t).cpu = some c)
    (ht : index t ∈ w) :
    s.ipi c = true ∨ Attended s c (((s.cpuBase c).clockBase (index t)).due s.timers t) := by
  obtain ⟨honTime, he⟩ := onTime_of_run hw h
  cases hipi : s.ipi c with
  | true => exact Or.inl rfl
  | false => exact Or.inr (honTime.attended he.placed hipi hqueued hcpu ht)

theorem watched_pair : Watched hardBases Pair := ⟨fun _ hi => hi, nofun⟩

/-- Both timers on one CPU, and a clock is set by the other one. -/
theorem timer_attended_pair :
    let s := (exec (step true) (Careful hardBases)
      [.start false .left 100 0 false false true false,
        .start false .right 50 30 false true true false, .finishStart false, .setClock 7 0 0,
        .clockWasSet true false fun _ => true, .pass 90,
        .interrupt false, .expire .hardirq false, .callbackReturn .hardirq false false,
        .expire .hardirq false, .expire .hardirq false] (start 0 Pair.cpu)).get (by decide)
    s.ipi false = true ∨
      Attended s false (((s.cpuBase false).clockBase .monotonic).due s.timers .left) :=
  timer_attended watched_pair (run_of_exec (Option.some_get _).symm) (by decide) (by decide)
    (by decide)

/-! ### The end of an interrupt -/

/-- The interrupt has given up, or the next event is not in the past. -/
theorem expire_interrupted {deferred : Bool}
    (hs : expire deferred s .hardirq c = some (s', .interrupted)) :
    s'.timers = s.timers ∧ s'.now = s.now ∧ s'.clock = s.clock ∧
      (s'.cpuBase c).clockBase = (interruptEvent (s.cpuBase c) s.clock).2.clockBase ∧
      ((s'.cpuBase c).hangDetected = true ∨
        s.now ≤ (interruptEvent (s.cpuBase c) s.clock).1) := by
  obtain ⟨f, hf, hcallback, hturn⟩ := turn_of_expire hs
  cases hturn with
  | interruptEnd htodo hends =>
    cases hends with
    | done e b he hb =>
      subst he
      set e := (interruptEvent (s.cpuBase c) s.clock).1
      have hbase : ((s.put c ⟨s.timers, hrtimerInterruptRearm deferred b e s.now⟩).setFrame
          .hardirq c none).cpuBase c = hrtimerInterruptRearm deferred b e s.now :=
        State.cpuBase_put_self s _
      have hhang : (hrtimerInterruptRearm deferred b e s.now).hangDetected = b.hangDetected := by
        rw [hrtimerInterruptRearm]
        split_ifs <;> rfl
      refine ⟨rfl, rfl, rfl, ?_, ?_⟩
      · rw [hbase, (interruptRearm_fields deferred b e s.now).1]
        obtain ⟨rfl, -⟩ | rfl := hb <;> rfl
      · rw [hbase, hhang]
        obtain ⟨rfl, hle⟩ | rfl := hb
        · exact Or.inr hle
        · exact Or.inl rfl

/-- When an interrupt is done, the timers of its CPU are not overdue, unless it gave up. -/
theorem Tidy.interrupted (h : Tidy w s) (he : Exclusive s) (hw : w ⊆ hardBases) {deferred : Bool}
    (hnow : 0 < s.now)
    (hs : Hrtimer.perform deferred s (.expire .hardirq c) = some (s', .interrupted))
    (hqueued : (s'.timers t).isQueued = true) (hcpu : (s'.timers t).cpu = some c)
    (ht : index t ∈ w) : (s'.cpuBase c).hangDetected = true ∨
      s'.now + s'.clock.of (index t) ≤ (s'.timers t).expires := by
  have hmem : t ∈ ((s'.cpuBase c).clockBase (index t)).active :=
    (((he.perform hs).placed.queues c).mem_active _ t).mpr
      ⟨hqueued, hcpu, rfl, (Option.some_ne_none t).symm⟩
  obtain ⟨htimers, hnow', hclock', hclock, hhang | hlate⟩ := expire_interrupted hs
  · exact Or.inl hhang
  · refine Or.inr ?_
    rw [hclock] at hmem
    -- the next event is not later than the expiry, by the offset as it is
    have hcovered := h.covered_event he.placed hw c _ ht t hmem (Option.some_ne_none t).symm
    have hdue := hlate.trans hcovered
    rw [ClockBase.due, (sameQueues_updateNextEvent _).clockBase,
      (h.seen c).offset_updateBase (index t)] at hdue
    rw [htimers, hnow', hclock']
    exact Int.add_le_of_le_sub_right ((le_max_iff.mp hdue).resolve_right (not_le.mpr hnow))

omit [DecidableEq T] [DecidableEq Cpu] in
theorem watched_monotonic : Watched [.monotonic] T :=
  ⟨by simp [hardBases], fun _ _ ht => List.mem_singleton.mp ht⟩

omit [DecidableEq T] [DecidableEq Cpu] [Setup T] in
/-- The offset of `CLOCK_MONOTONIC` is 0, whatever happens to the other clocks. -/
theorem Tidy.current_monotonic (h : Tidy [.monotonic] s) (c : Cpu) : Current [.monotonic] s c := by
  intro i hi
  obtain rfl := List.mem_singleton.mp hi
  exact (h.seen c).offset_monotonic

/-- So nothing but the order of the queues matters. -/
theorem Tidy.careful_monotonic (h : Tidy [.monotonic] s) {a : Action T Cpu}
    (ha : KeepsOrder [.monotonic] s a) : Careful [.monotonic] s a := by
  refine ⟨ha, ?_⟩
  cases a with
  | softirq c => exact h.current_monotonic c
  | retrigger c => exact fun _ => h.current_monotonic c
  | clockWasSet caller c bases => exact fun _ i hi _ => Or.inl (h.current_monotonic c i hi)
  | _ => trivial

/-- The step lemma for `CLOCK_MONOTONIC`. -/
theorem OnTime.perform_monotonic (h : OnTime [.monotonic] false s) (htidy : Tidy [.monotonic] s)
    (he : Exclusive s) {deferred : Bool} {a : Action T Cpu} (ha : KeepsOrder [.monotonic] s a)
    (hs : Hrtimer.perform deferred s a = some (s', o)) : OnTime [.monotonic] false s' :=
  h.perform htidy he watched_monotonic (fun _ => htidy.current_monotonic)
    (htidy.careful_monotonic ha) hs

omit [DecidableEq T] [DecidableEq Cpu] in
theorem OnTime.attended_monotonic (h : OnTime [.monotonic] false s) (htidy : Tidy [.monotonic] s)
    (hplaced : Placed none s) (hqueued : (s.timers t).isQueued = true)
    (hcpu : (s.timers t).cpu = some c) (ht : index t = .monotonic) :
    Attended s c (max (s.timers t).expires 0) := by
  have hattended := h.attended hplaced rfl hqueued hcpu (List.mem_singleton.mpr ht)
  rwa [ClockBase.due, ht, (htidy.seen c).offset_monotonic, Int.sub_zero] at hattended

/-- **No timer of `CLOCK_MONOTONIC` is forgotten**, even while other clocks are set. -/
theorem monotonic_attended {deferred : Bool} {now : Ktime} {cpuOf : T → Cpu}
    (h : Run (step deferred) (KeepsOrder [.monotonic]) (start now cpuOf) s)
    (hqueued : (s.timers t).isQueued = true) (hcpu : (s.timers t).cpu = some c)
    (ht : index t = .monotonic) : Attended s c (max (s.timers t).expires 0) := by
  obtain ⟨htidy, honTime, he⟩ :
      Tidy [.monotonic] s ∧ OnTime [.monotonic] false s ∧ Exclusive s := by
    refine h.invariant (I := fun s =>
        Tidy [.monotonic] s ∧ OnTime [.monotonic] false s ∧ Exclusive s)
      ⟨tidy_start _ now cpuOf, onTime_start _ false now cpuOf, placed_start now cpuOf,
        expiring_start now cpuOf⟩ fun hI ha hs => ?_
    obtain ⟨htidy, honTime, he⟩ := hI
    obtain ⟨⟨_, o⟩, ho, rfl⟩ := Option.map_eq_some_iff.mp hs
    exact ⟨htidy.perform he ha ho, honTime.perform_monotonic htidy he ha ho, he.perform ho⟩
  exact honTime.attended_monotonic htidy he.placed hqueued hcpu ht

/-- The timer is restarted in place, and another clock is set on the CPU of the timer. -/
theorem monotonic_attended_pair :
    let s := (exec (step false) (KeepsOrder [.monotonic])
      [.start false .left 100 0 false false true false, .setClock 7 0 0,
        .clockWasSet false false fun _ => true, .setClock 9 0 0, .retrigger false, .pass 20,
        .start false .left 110 5 false true true false] (start 0 Pair.cpu)).get (by decide)
    Attended s false (max (s.timers .left).expires 0) :=
  monotonic_attended (run_of_exec (Option.some_get _).symm) (by decide) (by decide) rfl

/-! ### Slack -/

/-- Three timers of `CLOCK_MONOTONIC`. -/
inductive Trio
  | early
  | slack
  | late
  deriving DecidableEq

instance : Setup Trio := ⟨fun _ => .monotonic, fun _ => false⟩

/-- Without the condition a timer can be forgotten. The second of three is restarted in place, with
a slack that reaches over the third, and becomes the first when the first one has expired. -/
theorem forgotten_behind_slack : ∃ s : State Trio Unit,
    Reachable (step false) (start 0 fun _ => ()) s ∧ (s.timers .late).isQueued = true ∧
      ¬Attended s () (s.timers .late).expires := by
  let run : List (Action Trio Unit) := [.start () .early 100 0 false false true (),
    .start () .slack 150 0 false false true (), .start () .late 200 0 false false true (),
    .start () .slack 160 1000 false false true (), .pass 100, .interrupt (), .expire .hardirq (),
    .callbackReturn .hardirq () false, .expire .hardirq (), .expire .hardirq ()]
  let s := (exec (step false) (fun _ _ => True) run (start 0 fun _ => ())).get (by decide)
  refine ⟨s, run_of_exec (Option.some_get _).symm, by decide, fun h => ?_⟩
  cases h with
  | expiring h => exact absurd h (by decide)
  | deferred h _ => exact absurd h (by decide)
  | armed _ hdevice => exact absurd hdevice (by decide)
  | hang h _ => exact absurd h (by decide)

end Hrtimer

end HrtimerStudy
