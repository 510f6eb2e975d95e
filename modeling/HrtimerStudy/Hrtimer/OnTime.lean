import HrtimerStudy.Hrtimer.Armed
import HrtimerStudy.Hrtimer.Tidy

/-!
# Devices in time

While the queues are in order, no CPU forgets a hard timer. Its device is programmed for the
earliest one or for an earlier time, or the CPU is about to program it again: because it expires
timers, or because the programming is deferred. After a hang the device may be late, by at most
100 ms.

When the clocks have been set, the offsets of a CPU are updated at some point, and its timers move.
`clock_was_set` asks a CPU for a retrigger if one of them moves ahead of the next event. Whether
such a retrigger counts as an excuse is a parameter, `waits`: for `CLOCK_MONOTONIC` none is needed.
What each function of the machine preserves is said here, and under which conditions.

## Main definitions

* `StaysBehind` — the update of the offsets does not move a base ahead of the next event
* `OnTime` — the invariant
* `Watched` — the timers that are considered

## Main results

* `Armed.moved` — the update of the offsets
* `OnTime.hrtimerStart`, `OnTime.tryToCancel`, `OnTime.expire`, `OnTime.updates`, ... — what the
  functions of the machine preserve
-/

namespace HrtimerStudy

namespace Hrtimer

open Setup (index isLazy)

variable {T Cpu : Type*}

/-! ### The clocks -/

section Clocks

variable {clock : Offsets} {b : CpuBase T} {w : List BaseType} {x : Option T} {now : Ktime}
variable {ipi busy : Bool} {v : Locked T Cpu} {c : Cpu} {out : Option T}

theorem Queues.of_sameActive [Setup T] (h : Queues c out v) (hsame : SameActive v.cpuBase b) :
    Queues c out ⟨v.timers, b⟩ where
  mem_active := fun i t => by
    rw [hsame.active]
    exact h.mem_active i t
  nodup := fun i => by
    rw [hsame.active]
    exact h.nodup i
  activeBases := fun i => by
    rw [hsame.active, hsame.activeBases]
    exact h.activeBases i

/-- The update does not move any of the bases. -/
theorem Armed.updateBase (h : Armed w x now ipi busy v)
    (hcurrent : ∀ i ∈ w, (v.cpuBase.clockBase i).offset = clock.of i) :
    Armed w x now ipi busy ⟨v.timers, hrtimerUpdateBase v.cpuBase clock⟩ := by
  obtain ⟨seq, offset, heq, hoffset⟩ := updateBase_eq v.cpuBase clock
  rw [heq]
  have hsame : ∀ i ∈ w, offset i = (v.cpuBase.clockBase i).offset := by
    intro i hi
    exact (hoffset i).elim id fun hclock => hclock.trans (hcurrent i hi).symm
  exact ⟨h.running, h.device, h.hang,
    fun hd hi => (h.covered hd hi).congr (fun _ _ => rfl) hsame fun _ _ _ _ => rfl,
    fun hd hb hn => (h.deferred hd hb hn).congr (fun _ _ => rfl) hsame fun _ _ _ _ => rfl⟩

/-- The update may move them when the next event is looked up behind it. -/
theorem Armed.refresh (h : Armed w x now ipi busy v) (hcurrent : v.cpuBase.deferredRearm = true →
      ∀ i ∈ w, (v.cpuBase.clockBase i).offset = clock.of i) :
    Armed w x now true busy ⟨v.timers, hrtimerUpdateBase v.cpuBase clock⟩ := by
  obtain ⟨seq, offset, heq, hoffset⟩ := updateBase_eq v.cpuBase clock
  rw [heq]
  refine ⟨h.running, h.device, h.hang, fun _ hipi => Bool.noConfusion hipi, fun hd hb hn => ?_⟩
  refine (h.deferred hd hb hn).congr (fun _ _ => rfl) (fun i hi => ?_) fun _ _ _ _ => rfl
  exact (hoffset i).elim id fun hclock => hclock.trans (hcurrent hd i hi).symm

/-- With the offset of the clock as it is, the first timer of a base is not ahead of the next event
of its CPU. -/
def StaysBehind (v : Locked T Cpu) (clock : Offsets) (i : BaseType) : Prop :=
  ∀ t ∈ (v.cpuBase.clockBase i).first,
    v.cpuBase.expiresNext ≤ (v.timers t).expires - clock.of i

instance (v : Locked T Cpu) (clock : Offsets) (i : BaseType) : Decidable (StaysBehind v clock i) :=
  inferInstanceAs (Decidable (∀ t ∈ (v.cpuBase.clockBase i).first, _))

/-- **The update of the offsets**, after which the CPU waits for a retrigger or is in time. -/
theorem Armed.moved (h : Armed w none now ipi busy v) (hsorted : SortedOn w v)
    (hd : v.cpuBase.deferredRearm = false) {ipi' : Bool}
    (hbehind : ipi' = false → ipi = false ∧
      ∀ i ∈ w, (v.cpuBase.clockBase i).offset = clock.of i ∨ StaysBehind v clock i) :
    Armed w none now ipi' busy ⟨v.timers, hrtimerUpdateBase v.cpuBase clock⟩ := by
  obtain ⟨seq, offset, heq, hoffset⟩ := updateBase_eq v.cpuBase clock
  rw [heq]
  refine ⟨h.running, h.device, h.hang, fun _ hipi => ?_, fun hd' => ?_⟩
  · obtain ⟨hidle, hbases⟩ := hbehind hipi
    intro i hi t ht _
    have hcovered := h.covered hd hidle i hi t ht (Option.some_ne_none t).symm
    show v.cpuBase.expiresNext ≤ max ((v.timers t).expires - offset i) 0
    rcases hoffset i with hsame | hmoved
    · rw [hsame]
      exact hcovered
    · rw [hmoved]
      rcases hbases i hi with hcurrent | hstays
      · rw [← hcurrent]
        exact hcovered
      · -- the first timer of the base is not ahead, and this one is behind it
        cases hfirst : (v.cpuBase.clockBase i).first with
        | none =>
          have hmem : t ∈ (v.cpuBase.clockBase i).active := ht
          rw [List.head?_eq_none_iff.mp hfirst] at hmem
          cases hmem
        | some a =>
          have hle := (hsorted i hi).ordered.head?_le hfirst ht
          exact (hstays a hfirst).trans ((Int.sub_le_sub_right hle _).trans (le_max_left _ _))
  · rw [show v.cpuBase.deferredRearm = true from hd'] at hd
    cases hd

/-- `update_needs_ipi` has looked at the first timer of the base. -/
theorem staysBehind_of_basesNeedIpi [Setup T] (hseen : Seen clock v.cpuBase)
    (hqueues : Queues c out v) {bases : BaseType → Bool}
    (h : basesNeedIpi ⟨v.timers, hrtimerUpdateBase v.cpuBase clock⟩ bases = false) {i : BaseType}
    (hi : i ∈ hardBases) (hmask : bases i = true) : StaysBehind v clock i := by
  intro t ht
  have hactive : v.cpuBase.activeBases i = true :=
    (hqueues.activeBases i).mpr (List.ne_nil_of_mem (List.mem_of_mem_head? ht))
  have hoffset := hseen.offset_updateBase i
  obtain ⟨seq, offset, heq, -⟩ := updateBase_eq v.cpuBase clock
  rw [heq] at h hoffset
  have hno := List.any_eq_false.mp h i (List.mem_append_left _ hi)
  rw [← hoffset]
  have hfirst : ({ v.cpuBase.clockBase i with offset := offset i } : ClockBase T).first = some t :=
    ht
  simp only [hmask, hactive, hfirst, Bool.true_and, Bool.or_eq_true, not_or] at hno
  exact not_lt.mp fun hlt => hno.1 (decide_eq_true hlt)

/-- While timers expire, nothing is asked of the device. -/
theorem armed_of_busy (hd : v.cpuBase.deferredRearm = true) : Armed w x now ipi true v := by
  refine ⟨fun _ => hd, ?_, ?_, ?_, fun _ hb => Bool.noConfusion hb⟩ <;>
  · intro hd'
    rw [hd] at hd'
    cases hd'

theorem armed_rearm {timers : T → Timer Cpu} {e : Ktime} (hcovered : Covered w x ⟨timers, b⟩ e) :
    Armed w x now ipi false ⟨timers, hrtimerRearm b e now⟩ where
  running := nofun
  device := fun _ hh => if_neg (Bool.eq_false_iff.mp hh)
  hang := fun _ hh => by
    have hhang : b.hangDetected = true := hh
    exact (if_pos hhang).trans_le (Int.add_le_add_left (min_le_left _ _) _)
  covered := fun _ _ => hcovered
  deferred := nofun

/-- The interrupt programs the device, or leaves it to the deferred part. -/
theorem armed_interruptRearm {timers : T → Timer Cpu} {e : Ktime}
    (hcovered : Covered w none ⟨timers, b⟩ e) (hd : b.deferredRearm = true) (deferred : Bool) :
    Armed w none now ipi false ⟨timers, hrtimerInterruptRearm deferred b e now⟩ := by
  rw [hrtimerInterruptRearm]
  split_ifs
  · refine ⟨fun hb => Bool.noConfusion hb, ?_, ?_, ?_, fun _ _ _ => hcovered⟩ <;>
    · intro hd'
      rw [show b.deferredRearm = false from hd'] at hd
      cases hd
  · exact armed_rearm hcovered

end Clocks

/-! ### The invariant -/

section Invariant

variable [DecidableEq Cpu]

/-- Every device is in time, for the timers of some hard bases. With `waits` a retrigger that is on
its way is an excuse. -/
def OnTime (w : List BaseType) (waits : Bool) (s : State T Cpu) : Prop :=
  ∀ c, Armed w none s.now (waits && s.ipi c) (s.frame .hardirq c).isSome (s.view c)

variable {w : List BaseType} {waits : Bool} {s s' : State T Cpu} {c : Cpu} {t : T}
variable {v : Locked T Cpu}

omit [DecidableEq Cpu] in
/-- What one CPU does leaves the others alone. -/
theorem OnTime.frame (h : OnTime w waits s) (c : Cpu) (hnow : s'.now = s.now)
    (hbase : ∀ c', c' ≠ c → s'.cpuBase c' = s.cpuBase c')
    (hipi : ∀ c', c' ≠ c → s'.ipi c' = s.ipi c')
    (hframe : ∀ c', c' ≠ c → s'.frame .hardirq c' = s.frame .hardirq c')
    (hexpires : ∀ c', c' ≠ c → ∀ i, ∀ u ∈ ((s.cpuBase c').clockBase i).active,
      (s'.timers u).expires = (s.timers u).expires)
    (harmed : Armed w none s.now (waits && s'.ipi c) (s'.frame .hardirq c).isSome (s'.view c)) :
    OnTime w waits s' := by
  intro c'
  rw [hnow]
  rcases eq_or_ne c' c with rfl | hc
  · exact harmed
  · rw [hipi c' hc, hframe c' hc, State.view, hbase c' hc]
    exact (h c').congr (hexpires c' hc)

/-- A CPU writes its base and a frame. -/
theorem OnTime.turn (h : OnTime w waits s) {b : CpuBase T} {ctx : Context} {f' : Option (Frame T)}
    (harmed : Armed w none s.now (waits && s.ipi c)
      (if ctx = .hardirq then f'.isSome else (s.frame .hardirq c).isSome) ⟨s.timers, b⟩) :
    OnTime w waits ((s.put c ⟨s.timers, b⟩).setFrame ctx c f') := by
  have hview : ((s.put c ⟨s.timers, b⟩).setFrame ctx c f').view c = ⟨s.timers, b⟩ :=
    congrArg (Locked.mk s.timers) (State.cpuBase_put_self s _)
  have hbusy : (((s.put c ⟨s.timers, b⟩).setFrame ctx c f').frame .hardirq c).isSome =
      if ctx = .hardirq then f'.isSome else (s.frame .hardirq c).isSome := by
    split_ifs with hctx
    · subst hctx
      rw [State.frame_setFrame_self]
    · rw [State.frame_setFrame_of_ne _ _ (Or.inl (Ne.symm hctx))]
      rfl
  refine h.frame c rfl (fun c' hc => State.cpuBase_put_of_ne _ _ hc) (fun _ _ => rfl)
    (fun c' hc => State.frame_setFrame_of_ne _ _ (Or.inr hc)) (fun _ _ _ _ _ => rfl) ?_
  rw [hview, hbusy]
  exact harmed

/-- A CPU writes its base, and a retrigger is ordered or done. -/
theorem OnTime.putIpi (h : OnTime w waits s) {b : CpuBase T} (ipi : Bool)
    (harmed : Armed w none s.now (waits && ipi) (s.frame .hardirq c).isSome ⟨s.timers, b⟩) :
    OnTime w waits ((s.put c ⟨s.timers, b⟩).setIpi c ipi) := by
  have hview : ((s.put c ⟨s.timers, b⟩).setIpi c ipi).view c = ⟨s.timers, b⟩ :=
    congrArg (Locked.mk s.timers) (State.cpuBase_put_self s _)
  have hipi : ((s.put c ⟨s.timers, b⟩).setIpi c ipi).ipi c = ipi := Function.update_self ..
  refine h.frame c rfl (fun c' hc => State.cpuBase_put_of_ne _ _ hc)
    (fun c' hc => Function.update_of_ne hc ..) (fun _ _ => rfl) (fun _ _ _ _ _ => rfl) ?_
  rw [hview, hipi]
  exact harmed

/-- A CPU writes its base. -/
theorem OnTime.putBase (h : OnTime w waits s) {b : CpuBase T}
    (harmed : Armed w none s.now (waits && s.ipi c) (s.frame .hardirq c).isSome ⟨s.timers, b⟩) :
    OnTime w waits (s.put c ⟨s.timers, b⟩) := by
  have hipi : (s.put c ⟨s.timers, b⟩).setIpi c (s.ipi c) = s.put c ⟨s.timers, b⟩ := by
    rw [State.setIpi, show (s.put c ⟨s.timers, b⟩).ipi = s.ipi from rfl, Function.update_eq_self]
    rfl
  rw [← hipi]
  exact h.putIpi (s.ipi c) harmed

theorem OnTime.setFrame (h : OnTime w waits s) {ctx : Context} {f' : Option (Frame T)}
    (hf : f'.isSome = (s.frame ctx c).isSome) : OnTime w waits (s.setFrame ctx c f') := by
  have hbusy : ((s.setFrame ctx c f').frame .hardirq c).isSome = (s.frame .hardirq c).isSome := by
    rcases eq_or_ne .hardirq ctx with rfl | hctx
    · rw [State.frame_setFrame_self, hf]
    · rw [State.frame_setFrame_of_ne _ _ (Or.inl hctx)]
  refine h.frame c rfl (fun _ _ => rfl) (fun _ _ => rfl)
    (fun c' hc => State.frame_setFrame_of_ne _ _ (Or.inr hc)) (fun _ _ _ _ _ => rfl) ?_
  rw [hbusy]
  exact h c

/-- `base->running` is written. -/
theorem OnTime.setRunning (h : OnTime w waits s) (c : Cpu) (i : BaseType) (running : Option T) :
    OnTime w waits (s.put c ⟨s.timers, (s.cpuBase c).setRunning i running⟩) := by
  have hoffset (j : BaseType) : (((s.cpuBase c).setRunning i running).clockBase j).offset =
      ((s.cpuBase c).clockBase j).offset := by
    rcases eq_or_ne j i with rfl | hj
    · rw [CpuBase.setRunning, setBase_self]
    · rw [setRunning_of_ne _ _ _ hj]
  have hcover {e : Ktime} (hc : Covered w none (s.view c) e) :
      Covered w none ⟨s.timers, (s.cpuBase c).setRunning i running⟩ e :=
    hc.congr (fun j _ => active_setRunning _ _ _ j) (fun j _ => hoffset j) fun _ _ _ _ => rfl
  have harmed := h c
  exact h.putBase ⟨harmed.running, harmed.device, harmed.hang,
    fun hd hi => hcover (harmed.covered hd hi), fun hd hb hn => hcover (harmed.deferred hd hb hn)⟩

variable [Setup T]

/-- One timer is written under the lock of its CPU. -/
theorem OnTime.keeps (h : OnTime w waits s) {out : Option T} (hplaced : Placed out s)
    (ht : (s.timers t).cpu = some c) (hkeeps : Keeps t (s.view c) v)
    (harmed : Armed w none s.now (waits && s.ipi c) (s.frame .hardirq c).isSome v) :
    OnTime w waits (s.put c v) := by
  refine h.frame c rfl (fun c' hc => State.cpuBase_put_of_ne _ _ hc) (fun _ _ => rfl)
    (fun _ _ => rfl) (fun c' hc i u hu => ?_) ?_
  · have hut : u ≠ t := by
      rintro rfl
      have hcpu := (((hplaced.queues c').mem_active i u).mp hu).2.1
      exact hc (Option.some.inj (hcpu.symm.trans ht))
    exact congrArg Timer.expires (hkeeps.timers u hut)
  · rw [State.view_put_self]
    exact harmed

omit [DecidableEq Cpu] in
/-- A timer that is in no queue is written. -/
theorem OnTime.write (h : OnTime w waits s) {out : Option T} (hplaced : Placed out s)
    (ht : out = some t ∨ (s.timers t).isQueued = false) {timers : T → Timer Cpu}
    (htimers : ∀ u, u ≠ t → timers u = s.timers u) : OnTime w waits { s with timers := timers } :=
  fun c => (h c).congr fun _ u hu => congrArg Timer.expires (htimers u (hplaced.ne_of_mem ht hu))

end Invariant

/-! ### Starting -/

section Steps

variable [DecidableEq Cpu] [Setup T] {w : List BaseType} {waits : Bool} {s s' : State T Cpu}
variable {c cpu target : Cpu} {t : T} {v : Locked T Cpu} {o : Outcome T}

/-- The bases are hard ones, and the lazy timers on them are for `CLOCK_MONOTONIC`. -/
structure Watched (w : List BaseType) (T : Type*) [Setup T] : Prop where
  hard : w ⊆ hardBases
  lazy : ∀ t : T, isLazy t = true → index t ∈ w → index t = .monotonic

omit [DecidableEq Cpu] in
theorem Tidy.lazy (h : Tidy w s) (hw : Watched w T) (c : Cpu) (ht : isLazy t = true)
    (hi : index t ∈ w) : ((s.cpuBase c).clockBase (index t)).offset = 0 := by
  rw [hw.lazy t ht hi]
  exact (h.seen c).offset_monotonic

variable [DecidableEq T]

theorem OnTime.startOn (h : OnTime w waits s) (htidy : Tidy w s) (hw : Watched w T)
    (hplaced : Placed (some t) s)
    (hremote : target = c ∨ hrtimerSuitableTarget (s.view target) t = true) (wasFirst user : Bool) :
    OnTime w waits (startOn s c target t wasFirst user).1 := by
  have hne : ∀ u, u ≠ t → setCpu s.timers t (some target) u = s.timers u :=
    fun _ hu => setCpu_of_ne _ _ hu
  have hplaced' : Placed (some t) { s with timers := setCpu s.timers t (some target) } :=
    hplaced.write hne
  have h' : OnTime w waits { s with timers := setCpu s.timers t (some target) } :=
    h.write hplaced (Or.inl rfl) hne
  have htidy' : Tidy w { s with timers := setCpu s.timers t (some target) } :=
    htidy.write hplaced (Or.inl rfl) hne
  have hcpu : (setCpu s.timers t (some target) t).cpu = some target := by rw [setCpu_self]
  refine h'.keeps hplaced' hcpu (keeps_enqueueTail _ t _ wasFirst user s.now)
    ((h' target).enqueueTail hw.hard (htidy' target).sorted (hplaced'.queues target) hcpu
      (htidy'.lazy hw target) ?_)
  intro hl
  have hsuitable := of_decide_eq_true (hremote.resolve_left (of_decide_eq_false hl))
  show (s.cpuBase target).expiresNext ≤ (setCpu s.timers t (some target) t).expires - _
  rw [setCpu_self]
  exact hsuitable

theorem OnTime.startRemoved (h : OnTime w waits s) (htidy : Tidy w s) (hw : Watched w T)
    (hplaced : Placed none s) (hcpu : (s.timers t).cpu = some cpu) (c : Cpu) (time delta : Ktime) :
    OnTime w waits (startRemoved s c cpu t time delta) := by
  have hkeeps := keeps_remove (s.view cpu) t true (decide (cpu = c))
  have hqueues := (hplaced.queues cpu).remove t true (decide (cpu = c))
  have hremoved := h.keeps hplaced hcpu hkeeps
    ((h cpu).remove hw.hard (htidy cpu).sorted (hplaced.queues cpu)
      (fun u _ => (Option.some_ne_none u).symm) true (decide (cpu = c)))
  exact hremoved.write (hplaced.put hcpu hkeeps hqueues fun _ hu => out_iff hu) (Or.inl rfl)
    fun _ hu => setExpires_of_ne _ _ _ hu

theorem OnTime.startMoved (h : OnTime w waits s) (c : Cpu) (start : Start T Cpu)
    (hplaced : Placed (some start.timer) s) : OnTime w waits (startMoved s c start) := by
  have hwrite : OnTime w waits { s with timers := setCpu s.timers start.timer none } :=
    h.write hplaced (Or.inl rfl) fun _ hu => setCpu_of_ne _ _ hu
  exact fun c' => hwrite c'

omit [Setup T] [DecidableEq Cpu] [DecidableEq T] in
theorem context_of_hard {i : BaseType} (hi : i ∈ hardBases) : i.context = .hardirq := by
  revert hi
  cases i <;> simp [hardBases, BaseType.context, BaseType.isSoft]

omit [DecidableEq Cpu] in
/-- While the callback of a hard timer runs, its CPU is expiring timers. -/
theorem OnTime.deferred_of_callback (h : OnTime w waits s) (hexpiring : Expiring s)
    (hw : Watched w T) (ht : index t ∈ w) (hrunning : callbackRunning s cpu t = true) :
    (s.cpuBase cpu).deferredRearm = true := by
  obtain ⟨f, hf, -⟩ := (hexpiring.running cpu _ t).mp (of_decide_eq_true hrunning)
  rw [context_of_hard (hw.hard ht)] at hf
  exact (h cpu).running (Option.isSome_iff_exists.mpr ⟨f, hf⟩)

theorem OnTime.hrtimerStart (h : OnTime w waits s) (htidy : Tidy w s) (hexclusive : Exclusive s)
    (hw : Watched w T) {time delta : Ktime} {rel user prefer : Bool} (htime : Fits64 time)
    (hfits : index t ∈ w → StartFits s c t time delta rel prefer)
    (hs : hrtimerStart s c t time delta rel user prefer target = some (s', o)) :
    OnTime w waits s' := by
  have hplaced := hexclusive.placed
  cases starts_of_hrtimerStart hs with
  | kept cpu hcpu hkeep =>
    refine h.keeps hplaced hcpu (keeps_requeueTail _ t _ delta _ _ user s.now)
      ((h cpu).requeueTail hw.hard (htidy cpu).sorted (hplaced.queues cpu) hcpu (htidy.lazy hw cpu)
        (startTime_le s t htime rel) (fun ht => hfits ht cpu hcpu hkeep) fun hl ht => ?_)
    -- on another CPU the base is kept for the callback only
    rw [hrtimerKeepBase, hl, Bool.false_and, Bool.or_false] at hkeep
    exact h.deferred_of_callback hexclusive.expiring hw ht hkeep
  | back cpu hcpu hleave hsuitable =>
    exact (h.startRemoved htidy hw hplaced hcpu c _ delta).startOn
      (htidy.startRemoved hplaced hcpu c _ delta) hw (hplaced.startRemoved hcpu c _ delta)
      hsuitable _ user
  | moved cpu target' hcpu hleave =>
    exact (h.startRemoved htidy hw hplaced hcpu c _ delta).startMoved c _
      (hplaced.startRemoved hcpu c _ delta)

theorem OnTime.finishStart (h : OnTime w waits s) (htidy : Tidy w s) (hexclusive : Exclusive s)
    (hw : Watched w T) (hs : finishStart s c = some (s', o)) : OnTime w waits s' := by
  obtain ⟨start, hstart, hfinishes⟩ := finishes_of_finishStart hs
  have hresume := hexclusive.placed.resume hstart
  have h' : OnTime w waits (s.setStarting c none) := fun c' => h c'
  have htidy' : Tidy w (s.setStarting c none) := fun c' => htidy c'
  cases hfinishes with
  | placed hsuitable => exact h'.startOn htidy' hw hresume hsuitable _ _
  | moved => exact h'.startMoved c { start with target := c } hresume

/-! ### Cancelling -/

theorem OnTime.tryToCancel (h : OnTime w waits s) (htidy : Tidy w s) (hexclusive : Exclusive s)
    (hw : Watched w T) (hs : hrtimerTryToCancel s c t = some (s', o)) : OnTime w waits s' := by
  obtain ⟨cpu, hcpu, htries⟩ := tries_of_hrtimerTryToCancel hs
  cases htries with
  | running hrunning => exact h
  | removed hidle =>
    exact h.keeps hexclusive.placed hcpu (keeps_remove (s.view cpu) t false (decide (cpu = c)))
      ((h cpu).remove hw.hard (htidy cpu).sorted (hexclusive.placed.queues cpu)
        (fun u _ => (Option.some_ne_none u).symm) false _)

/-! ### Expiring -/

section Turns

omit [DecidableEq T]

omit [DecidableEq Cpu] in
/-- What an interrupt finds out about the next event. -/
theorem Tidy.covered_event (h : Tidy w s) (hplaced : Placed none s) (hw : w ⊆ hardBases)
    (c : Cpu) :
    Covered w none
      ⟨s.timers, (hrtimerUpdateNextEvent (hrtimerUpdateBase (s.cpuBase c) s.clock)).2⟩
      (hrtimerUpdateNextEvent (hrtimerUpdateBase (s.cpuBase c) s.clock)).1 := by
  have hqueues := (hplaced.queues c).of_sameActive (sameActive_updateBase (s.cpuBase c) s.clock)
  exact (covered_updateNextEvent hw (h c).updateBase.sorted hqueues).of_sameQueues
    (sameQueues_updateNextEvent (hrtimerUpdateBase (s.cpuBase c) s.clock))

omit [Setup T] [DecidableEq Cpu] in
theorem deferredRearm_interruptEvent (b : CpuBase T) (clock : Offsets) :
    (interruptEvent b clock).2.deferredRearm = b.deferredRearm := by
  obtain ⟨seq, offset, heq, -⟩ := updateBase_eq b clock
  show (hrtimerUpdateNextEvent (hrtimerUpdateBase b clock)).2.deferredRearm = b.deferredRearm
  rw [(sameQueues_updateNextEvent _).deferredRearm, heq]

theorem OnTime.interruptEnd (h : OnTime w waits s) (htidy : Tidy w s) (hplaced : Placed none s)
    (hw : Watched w T) {deferred : Bool} {f : Frame T} (hf : s.frame .hardirq c = some f)
    (hends : Ends deferred s c f (s', o)) : OnTime w waits s' := by
  have hcovered := htidy.covered_event hplaced hw.hard c
  have hbusy : (interruptEvent (s.cpuBase c) s.clock).2.deferredRearm = true := by
    rw [deferredRearm_interruptEvent]
    exact (h c).running (Option.isSome_iff_exists.mpr ⟨f, hf⟩)
  cases hends with
  | retry b hb =>
    subst hb
    exact h.turn (armed_of_busy (interruptRetry_fields _ s.now).1)
  | done e b he hb =>
    subst he
    have hcovered' : Covered w none ⟨s.timers, b⟩ (interruptEvent (s.cpuBase c) s.clock).1 := by
      obtain ⟨rfl, -⟩ | rfl := hb <;>
        exact hcovered.congr (fun _ _ => rfl) (fun _ _ => rfl) fun _ _ _ _ => rfl
    have hbusy' : b.deferredRearm = true := by
      obtain ⟨rfl, -⟩ | rfl := hb <;> exact hbusy
    exact h.turn (armed_interruptRearm hcovered' hbusy' deferred)

theorem OnTime.softirqEnd (h : OnTime w waits s) : OnTime w waits (softirqEnd s c).1 := by
  have hdone : Lowers (s.cpuBase c) { s.cpuBase c with softirqActivated := false } :=
    ⟨⟨rfl, rfl, rfl, rfl, rfl, id, rfl⟩, le_rfl, fun _ hd => hd, fun _ => rfl⟩
  exact h.turn ((h c).lowers (hdone.trans (lowers_updateSoftirqTimer ⟨s.timers, _⟩ true)))

/-- The device is programmed after all. -/
theorem OnTime.rearms (h : OnTime w waits s) (htidy : Tidy w s) (hplaced : Placed none s)
    (hw : Watched w T) (hnone : s.frame .hardirq c = none) (hs : Rearms s c (s', o)) :
    OnTime w waits s' := by
  have hbusy : (s.frame .hardirq c).isSome = false := by
    rw [hnone]
    rfl
  cases hs with
  | idle hd => exact h
  | update hd hneeds =>
    refine h.putBase ?_
    rw [hbusy]
    exact armed_rearm (htidy.covered_event hplaced hw.hard c)
  | known hd hneeds =>
    refine h.putBase ?_
    rw [hbusy]
    exact armed_rearm ((h c).deferred hd hbusy hneeds)

/-! ### The offsets -/

omit [DecidableEq Cpu] [Setup T] in
/-- The CPU has the offsets of the clocks. -/
def Current (w : List BaseType) (s : State T Cpu) (c : Cpu) : Prop :=
  ∀ i ∈ w, ((s.cpuBase c).clockBase i).offset = s.clock.of i

instance (w : List BaseType) (s : State T Cpu) (c : Cpu) : Decidable (Current w s c) :=
  inferInstanceAs (Decidable (∀ i ∈ w, _ = _))

/-- `clock_was_set` updates the offsets of a CPU. Where it asks for no retrigger, or none counts,
the timers must not move ahead of the next event, unless that is looked up later anyway. -/
theorem OnTime.updates (h : OnTime w waits s) (htidy : Tidy w s) (hplaced : Placed none s)
    (hw : Watched w T) {caller : Cpu} {bases : BaseType → Bool}
    (hbehind : (s.cpuBase c).deferredRearm = false →
      ∀ i ∈ w, waits = false ∨ bases i = false ∨ c = caller →
        ((s.cpuBase c).clockBase i).offset = s.clock.of i ∨ StaysBehind (s.view c) s.clock i)
    (hs : Updates s caller c bases (hrtimerUpdateBase (s.cpuBase c) s.clock) (s', o)) :
    OnTime w waits s' := by
  cases hs with
  | same hseq =>
    -- the CPU has had these offsets already
    refine h.putBase ((h c).updateBase fun i _ => (htidy.seen c).offset_eq ?_ i)
    show (s.cpuBase c).clockWasSetSeq = _
    rw [hseq, hrtimerUpdateBase]
    split_ifs with hclock
    · exact hclock
    · rfl
  | deferred hd =>
    -- the deferred part will look up the next event
    refine h.putBase ⟨fun _ => hd, ?_, ?_, ?_, fun _ _ hn => Bool.noConfusion hn⟩ <;>
    · intro hd'
      rw [show (hrtimerUpdateBase (s.cpuBase c) s.clock).deferredRearm = false from hd'] at hd
      cases hd
  | asked hd =>
    obtain ⟨seq, offset, heq, -⟩ := updateBase_eq (s.cpuBase c) s.clock
    rw [heq] at hd
    refine h.putIpi _ ((h c).moved (htidy c).sorted hd fun hnone => ?_)
    cases hwaits : waits with
    | false => exact ⟨rfl, fun i hi => hbehind hd i hi (Or.inl hwaits)⟩
    | true =>
      rw [hwaits, Bool.true_and] at hnone
      obtain ⟨hidle, hneeds⟩ := Bool.or_eq_false_iff.mp hnone
      refine ⟨by rw [hidle]; rfl, fun i hi => ?_⟩
      by_cases hleft : bases i = false ∨ c = caller
      · exact hbehind hd i hi (Or.inr hleft)
      · -- `update_needs_ipi` has looked at the base
        obtain ⟨hmask, hother⟩ := not_or.mp hleft
        rw [decide_eq_true hother, Bool.true_and] at hneeds
        exact Or.inr (staysBehind_of_basesNeedIpi (htidy.seen c) (hplaced.queues c) hneeds
          (hw.hard hi) (Bool.eq_true_of_not_eq_false hmask))

end Turns

/-! ### Callbacks -/

theorem OnTime.runHrtimer (h : OnTime w waits s) (htidy : Tidy w s) (hplaced : Placed none s)
    (hw : Watched w T) {ctx : Context} {f : Frame T} {i : BaseType} (hf : s.frame ctx c = some f)
    (hcpu : (s.timers t).cpu = some c) : OnTime w waits (runHrtimer s ctx c f i t).1 := by
  set v : Locked T Cpu := ⟨s.timers, (s.cpuBase c).setRunning i (some t)⟩
  have hrunning : OnTime w waits (s.put c v) := h.setRunning c i (some t)
  have hsorted : SortedOn w v := ((htidy c).setRunning i (some t)).sorted
  have hplaced' : Placed none (s.put c v) :=
    hplaced.putBase (fun j => active_setRunning _ _ _ j) rfl
  have hqueues := hplaced'.queues c
  have harmed := hrunning c
  rw [State.view_put_self] at hqueues harmed
  have hkeeps : Keeps t ((s.put c v).view c) (rawRemoveHrtimer v t false false) := by
    rw [State.view_put_self]
    exact keeps_remove v t false false
  have hremoved := hrunning.keeps hplaced' hcpu hkeeps
    (harmed.remove hw.hard hsorted hqueues (fun u _ => (Option.some_ne_none u).symm) false false)
  rw [State.put_put] at hremoved
  refine hremoved.setFrame ?_
  show _ = (s.frame ctx c).isSome
  rw [hf]
  rfl

theorem OnTime.expire (h : OnTime w waits s) (htidy : Tidy w s) (hexclusive : Exclusive s)
    (hw : Watched w T) {deferred : Bool} {ctx : Context}
    (hs : expire deferred s ctx c = some (s', o)) : OnTime w waits s' := by
  obtain ⟨f, hf, hcallback, hturn⟩ := turn_of_expire hs
  cases hturn with
  | next _ i rest htodo hlater =>
    refine h.setFrame ?_
    rw [hf]
    rfl
  | run _ i rest t htodo hfirst hdue =>
    have hmem := ((hexclusive.placed.queues c).mem_active i t).mp (List.mem_of_mem_head? hfirst)
    exact h.runHrtimer htidy hexclusive.placed hw hf hmem.2.1
  | interruptEnd htodo hends => exact h.interruptEnd htidy hexclusive.placed hw hf hends
  | softirqEnd htodo => exact h.softirqEnd

theorem OnTime.callbackReturn (h : OnTime w waits s) (hexclusive : Exclusive s) (hw : Watched w T)
    {ctx : Context} {restart : Bool} (hs : callbackReturn s ctx c restart = some (s', o)) :
    OnTime w waits s' := by
  obtain ⟨f, t, hf, ht, rfl, -⟩ := of_callbackReturn hs
  have hcpu := (hexclusive.expiring.callback ctx c f t hf ht).2
  have hqueues := hexclusive.placed.queues c
  -- a soft timer does not matter, and for a hard one the interrupt goes on
  have hbusy : index t ∈ w → (s.frame .hardirq c).isSome = true := by
    intro hi
    rw [← context_of_hard (hw.hard hi), hexclusive.expiring.context_eq hf ht, hf]
    rfl
  have harmed : Armed w none s.now (waits && s.ipi c) (s.frame .hardirq c).isSome
      (restartHrtimer (s.view c) t restart) := by
    have hrestarted := hqueues.restart hcpu restart
    rw [restartHrtimer] at hrestarted ⊢
    split_ifs at hrestarted ⊢ with hrestart
    · have hidle : ((s.view c).timers t).isQueued = false := by
        simpa using (Bool.and_eq_true_iff.mp hrestart).2
      exact ((h c).enqueue (hqueues.idle hidle) hcpu).settle hrestarted hbusy
    · exact h c
  have hrestarted := h.keeps hexclusive.placed hcpu (keeps_restart (s.view c) t restart) harmed
  have hdone := hrestarted.setRunning c (index t) none
  rw [State.put_put, State.cpuBase_put_self] at hdone
  refine hdone.setFrame ?_
  show _ = (s.frame ctx c).isSome
  rw [hf]
  rfl

end Steps

end Hrtimer

end HrtimerStudy
