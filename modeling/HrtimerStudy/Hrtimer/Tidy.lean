import HrtimerStudy.Hrtimer.Exclusive
import HrtimerStudy.Hrtimer.Sorted

/-!
# Queues in order

The queues of all CPUs stay in order, and the offsets of a CPU are those of the clocks as they are
or as they have been at some time. No clock, no softirq and no other CPU can change that. What can
is a timer that is restarted in place with a slack that reaches over the next timer; it is the one
condition on the steps here.

## Main definitions

* `Seen` — the offsets of a CPU are those of some setting of the clocks
* `Tidy` — the invariant
* `KeepsOrder` — the condition on the steps

## Main results

* `Tidy.perform` — what one step preserves
* `tidy_of_run` — **the queues are in order** in a run of such steps
-/

namespace HrtimerStudy

namespace Hrtimer

open Setup (index isLazy)

variable {T Cpu : Type*}

/-! ### The clocks -/

/-- The offsets of a CPU are those of the clocks as they are or as they have been. -/
def Seen (clock : Offsets) (b : CpuBase T) : Prop :=
  ∃ seen : Offsets, b.clockWasSetSeq = seen.clockWasSetSeq ∧
    (∀ i, (b.clockBase i).offset = seen.of i) ∧ seen.clockWasSetSeq ≤ clock.clockWasSetSeq ∧
      (seen.clockWasSetSeq = clock.clockWasSetSeq → seen = clock)

section Clocks

variable {clock : Offsets} {b b' : CpuBase T}

theorem Seen.congr (h : Seen clock b) (hseq : b'.clockWasSetSeq = b.clockWasSetSeq)
    (hoffset : ∀ i, (b'.clockBase i).offset = (b.clockBase i).offset) : Seen clock b' := by
  obtain ⟨seen, hs, hof, hle, heq⟩ := h
  exact ⟨seen, hseq.trans hs, fun i => (hoffset i).trans (hof i), hle, heq⟩

theorem Seen.set (h : Seen clock b) (real boot tai : Ktime) :
    Seen ⟨real, boot, tai, clock.clockWasSetSeq + 1⟩ b := by
  obtain ⟨seen, hs, hof, hle, -⟩ := h
  refine ⟨seen, hs, hof, Nat.le_succ_of_le hle, fun heq => ?_⟩
  have heq : seen.clockWasSetSeq = clock.clockWasSetSeq + 1 := heq
  omega

theorem Seen.offset_monotonic (h : Seen clock b) : (b.clockBase .monotonic).offset = 0 := by
  obtain ⟨seen, -, hof, -⟩ := h
  rw [hof]
  rfl

theorem Seen.offset_eq (h : Seen clock b) (hseq : b.clockWasSetSeq = clock.clockWasSetSeq)
    (i : BaseType) : (b.clockBase i).offset = clock.of i := by
  obtain ⟨seen, hs, hof, -, heq⟩ := h
  rw [hof, heq (hs.symm.trans hseq)]

theorem seen_updateBase (h : Seen clock b) : Seen clock (hrtimerUpdateBase b clock) := by
  rw [hrtimerUpdateBase]
  split_ifs
  · exact h
  · exact ⟨clock, rfl, fun _ => rfl, le_rfl, fun _ => rfl⟩

/-- After that the CPU has the offsets of the clocks. -/
theorem Seen.offset_updateBase (h : Seen clock b) (i : BaseType) :
    ((hrtimerUpdateBase b clock).clockBase i).offset = clock.of i := by
  rw [hrtimerUpdateBase]
  split_ifs with hseq
  · exact h.offset_eq hseq i
  · rfl

/-- `hrtimer_update_base` writes offsets only. -/
theorem updateBase_eq (b : CpuBase T) (clock : Offsets) :
    ∃ (seq : ℕ) (offset : BaseType → Ktime),
      hrtimerUpdateBase b clock = { b with
        clockWasSetSeq := seq
        clockBase := fun i => { b.clockBase i with offset := offset i } } ∧
      ∀ i, offset i = (b.clockBase i).offset ∨ offset i = clock.of i := by
  rw [hrtimerUpdateBase]
  split_ifs
  · exact ⟨b.clockWasSetSeq, fun i => (b.clockBase i).offset, rfl, fun _ => Or.inl rfl⟩
  · exact ⟨clock.clockWasSetSeq, clock.of, rfl, fun _ => Or.inr rfl⟩

end Clocks

/-! ### One CPU -/

section One

variable {w : List BaseType} {clock : Offsets} {v v' : Locked T Cpu} {b : CpuBase T}

/-- What holds of one CPU. -/
structure TidyOn (w : List BaseType) (clock : Offsets) (v : Locked T Cpu) : Prop where
  seen : Seen clock v.cpuBase
  sorted : SortedOn w v

theorem TidyOn.congr (h : TidyOn w clock v)
    (hactive : ∀ i, (b.clockBase i).active = (v.cpuBase.clockBase i).active)
    (hnext : ∀ i, (b.clockBase i).expiresNext = (v.cpuBase.clockBase i).expiresNext)
    (hoffset : ∀ i, (b.clockBase i).offset = (v.cpuBase.clockBase i).offset)
    (hseq : b.clockWasSetSeq = v.cpuBase.clockWasSetSeq) : TidyOn w clock ⟨v.timers, b⟩ :=
  ⟨h.seen.congr hseq hoffset, h.sorted.congr hactive hnext fun _ _ _ => rfl⟩

/-- The clock bases are as before. -/
theorem TidyOn.of_clockBase (h : TidyOn w clock v) (hb : b.clockBase = v.cpuBase.clockBase)
    (hseq : b.clockWasSetSeq = v.cpuBase.clockWasSetSeq) : TidyOn w clock ⟨v.timers, b⟩ :=
  h.congr (fun i => by rw [hb]) (fun i => by rw [hb]) (fun i => by rw [hb]) hseq

theorem TidyOn.of_sameQueues (h : TidyOn w clock v) (hsame : SameQueues v.cpuBase b) :
    TidyOn w clock ⟨v.timers, b⟩ := h.of_clockBase hsame.clockBase hsame.clockWasSetSeq

theorem SortedOn.updateBase (h : SortedOn w v) (clock : Offsets) :
    SortedOn w ⟨v.timers, hrtimerUpdateBase v.cpuBase clock⟩ := by
  obtain ⟨seq, offset, heq, -⟩ := updateBase_eq v.cpuBase clock
  rw [heq]
  exact h.congr (fun _ => rfl) (fun _ => rfl) fun _ _ _ => rfl

theorem TidyOn.updateBase (h : TidyOn w clock v) :
    TidyOn w clock ⟨v.timers, hrtimerUpdateBase v.cpuBase clock⟩ :=
  ⟨seen_updateBase h.seen, h.sorted.updateBase clock⟩

/-- The offsets are updated, and the next event is looked up. -/
theorem TidyOn.event (h : TidyOn w clock v) :
    TidyOn w clock ⟨v.timers, (hrtimerUpdateNextEvent (hrtimerUpdateBase v.cpuBase clock)).2⟩ :=
  h.updateBase.of_sameQueues (sameQueues_updateNextEvent _)

theorem TidyOn.setRunning (h : TidyOn w clock v) (i : BaseType) (running : Option T) :
    TidyOn w clock ⟨v.timers, v.cpuBase.setRunning i running⟩ := by
  have hbase (j : BaseType) : (v.cpuBase.setRunning i running).clockBase j =
      if j = i then { v.cpuBase.clockBase i with running := running }
      else v.cpuBase.clockBase j := by
    split_ifs with hj
    · rw [hj, CpuBase.setRunning, setBase_self]
    · exact setRunning_of_ne _ _ _ hj
  refine h.congr (fun j => ?_) (fun j => ?_) (fun j => ?_) rfl <;>
  · rw [hbase]
    split_ifs with hj
    · rw [hj]
    · rfl

theorem interruptRetry_fields (b : CpuBase T) (now : Ktime) :
    (interruptRetry b now).deferredRearm = true ∧ (interruptRetry b now).clockBase = b.clockBase ∧
      (interruptRetry b now).clockWasSetSeq = b.clockWasSetSeq := by
  rw [interruptRetry]
  split_ifs <;> exact ⟨rfl, rfl, rfl⟩

theorem interruptRearm_fields (deferred : Bool) (b : CpuBase T) (e now : Ktime) :
    (hrtimerInterruptRearm deferred b e now).clockBase = b.clockBase ∧
      (hrtimerInterruptRearm deferred b e now).clockWasSetSeq = b.clockWasSetSeq := by
  rw [hrtimerInterruptRearm]
  split_ifs <;> exact ⟨rfl, rfl⟩

theorem TidyOn.interruptRetry (h : TidyOn w clock v) (now : Ktime) :
    TidyOn w clock ⟨v.timers, interruptRetry v.cpuBase now⟩ :=
  h.of_clockBase (interruptRetry_fields v.cpuBase now).2.1 (interruptRetry_fields v.cpuBase now).2.2

end One

/-! ### All CPUs -/

section All

variable [DecidableEq Cpu]

/-- The queues are in order, and the offsets are those of some setting of the clocks. -/
def Tidy (w : List BaseType) (s : State T Cpu) : Prop := ∀ c, TidyOn w s.clock (s.view c)

variable {w : List BaseType} {s s' : State T Cpu} {c cpu target : Cpu} {t : T} {v : Locked T Cpu}
variable {o : Outcome T} {out : Option T}

omit [DecidableEq Cpu] in
theorem Tidy.seen (h : Tidy w s) (c : Cpu) : Seen s.clock (s.cpuBase c) := (h c).seen

omit [DecidableEq Cpu] in
/-- What one CPU does leaves the others alone. -/
theorem Tidy.frame (h : Tidy w s) (c : Cpu) (hclock : s'.clock = s.clock)
    (hbase : ∀ c', c' ≠ c → s'.cpuBase c' = s.cpuBase c')
    (hexpires : ∀ c', c' ≠ c → ∀ i, ∀ u ∈ ((s.cpuBase c').clockBase i).active,
      (s'.timers u).expires = (s.timers u).expires)
    (hself : TidyOn w s.clock (s'.view c)) : Tidy w s' := by
  intro c'
  rw [hclock]
  rcases eq_or_ne c' c with rfl | hc
  · exact hself
  · rw [State.view, hbase c' hc]
    exact ⟨(h c').seen, (h c').sorted.congr (fun _ => rfl) (fun _ => rfl) (hexpires c' hc)⟩

/-- A CPU writes its base. -/
theorem Tidy.putBase (h : Tidy w s) {b : CpuBase T} (hb : TidyOn w s.clock ⟨s.timers, b⟩) :
    Tidy w (s.put c ⟨s.timers, b⟩) := by
  refine h.frame c rfl (fun c' hc => State.cpuBase_put_of_ne _ _ hc) (fun _ _ _ _ _ => rfl) ?_
  rw [State.view_put_self]
  exact hb

/-- And a frame. -/
theorem Tidy.turn (h : Tidy w s) {b : CpuBase T} (hb : TidyOn w s.clock ⟨s.timers, b⟩)
    (ctx : Context) (f' : Option (Frame T)) :
    Tidy w ((s.put c ⟨s.timers, b⟩).setFrame ctx c f') := by
  have hput : Tidy w (s.put c ⟨s.timers, b⟩) := h.putBase hb
  exact fun c' => hput c'

variable [Setup T]

/-- One timer is written under the lock of its CPU. -/
theorem Tidy.keeps (h : Tidy w s) (hplaced : Placed out s) (ht : (s.timers t).cpu = some c)
    (hkeeps : Keeps t (s.view c) v) (hsorted : SortedOn w v) : Tidy w (s.put c v) := by
  refine h.frame c rfl (fun c' hc => State.cpuBase_put_of_ne _ _ hc) (fun c' hc i u hu => ?_) ?_
  · -- what another CPU has in a queue is another timer
    have hut : u ≠ t := by
      rintro rfl
      have hcpu := (((hplaced.queues c').mem_active i u).mp hu).2.1
      exact hc (Option.some.inj (hcpu.symm.trans ht))
    exact congrArg Timer.expires (hkeeps.timers u hut)
  · rw [State.view_put_self]
    exact ⟨(h c).seen.congr hkeeps.clockWasSetSeq hkeeps.offset, hsorted⟩

omit [DecidableEq Cpu] in
/-- A timer that is in no queue is not in the way. -/
theorem Placed.ne_of_mem (hplaced : Placed out s)
    (ht : out = some t ∨ (s.timers t).isQueued = false) {i : BaseType} {u : T}
    (hu : u ∈ ((s.cpuBase c).clockBase i).active) : u ≠ t := by
  rintro rfl
  obtain ⟨hq, -, -, ho⟩ := ((hplaced.queues c).mem_active i u).mp hu
  rcases ht with ht | ht
  · exact ho ht
  · exact Bool.false_ne_true (ht.symm.trans hq)

omit [DecidableEq Cpu] in
/-- Such a timer is written. -/
theorem Tidy.write (h : Tidy w s) (hplaced : Placed out s)
    (ht : out = some t ∨ (s.timers t).isQueued = false) {timers : T → Timer Cpu}
    (htimers : ∀ u, u ≠ t → timers u = s.timers u) : Tidy w { s with timers := timers } := by
  intro c
  refine ⟨(h c).seen, (h c).sorted.congr (fun _ => rfl) (fun _ => rfl) fun i u hu => ?_⟩
  exact congrArg Timer.expires (htimers u (hplaced.ne_of_mem ht hu))

/-! ### Starting and cancelling -/

variable [DecidableEq T]

theorem Tidy.startOn (h : Tidy w s) (hplaced : Placed (some t) s) (c target : Cpu)
    (wasFirst user : Bool) : Tidy w (startOn s c target t wasFirst user).1 := by
  have hne : ∀ u, u ≠ t → setCpu s.timers t (some target) u = s.timers u :=
    fun _ hu => setCpu_of_ne _ _ hu
  have hplaced' : Placed (some t) { s with timers := setCpu s.timers t (some target) } :=
    hplaced.write hne
  have h' : Tidy w { s with timers := setCpu s.timers t (some target) } :=
    h.write hplaced (Or.inl rfl) hne
  have hcpu : (setCpu s.timers t (some target) t).cpu = some target := by rw [setCpu_self]
  have hqueues := hplaced'.queues target
  have hsorted := (h' target).sorted.enqueue hqueues
  exact h'.keeps hplaced' hcpu (keeps_enqueueTail _ t _ wasFirst user s.now)
    (hsorted.startTail (hqueues.enqueue hcpu) t _ _ wasFirst user s.now)

theorem Tidy.startRemoved (h : Tidy w s) (hplaced : Placed none s)
    (hcpu : (s.timers t).cpu = some cpu) (c : Cpu) (time delta : Ktime) :
    Tidy w (startRemoved s c cpu t time delta) := by
  have hkeeps := keeps_remove (s.view cpu) t true (decide (cpu = c))
  have hqueues := (hplaced.queues cpu).remove t true (decide (cpu = c))
  have hremoved := h.keeps hplaced hcpu hkeeps
    ((h cpu).sorted.remove (hplaced.queues cpu) t true (decide (cpu = c)))
  exact hremoved.write (hplaced.put hcpu hkeeps hqueues fun _ hu => out_iff hu) (Or.inl rfl)
    fun _ hu => setExpires_of_ne _ _ _ hu

theorem Tidy.startMoved (h : Tidy w s) (c : Cpu) (start : Start T Cpu)
    (hplaced : Placed (some start.timer) s) : Tidy w (startMoved s c start) := by
  have hwrite : Tidy w { s with timers := setCpu s.timers start.timer none } :=
    h.write hplaced (Or.inl rfl) fun _ hu => setCpu_of_ne _ _ hu
  exact fun c' => hwrite c'

omit [DecidableEq T] [DecidableEq Cpu] in
theorem startTime_le (s : State T Cpu) (t : T) {time : Ktime} (htime : Fits64 time) (rel : Bool) :
    startTime s t time rel ≤ ktimeMax := by
  rw [startTime]
  split_ifs
  · exact ktimeAddSafe_le _ _
  · exact htime.2

/-- A restart in place keeps the order of the queue. -/
def StartFits (s : State T Cpu) (c : Cpu) (t : T) (time delta : Ktime) (rel prefer : Bool) : Prop :=
  ∀ cpu ∈ (s.timers t).cpu, hrtimerKeepBase s c cpu t prefer = true →
    ClockBase.SlackFits s.timers ((s.cpuBase cpu).clockBase (index t)).active t
      (startTime s t time rel) delta

instance (s : State T Cpu) (c : Cpu) (t : T) (time delta : Ktime) (rel prefer : Bool) :
    Decidable (StartFits s c t time delta rel prefer) :=
  inferInstanceAs (Decidable (∀ cpu ∈ (s.timers t).cpu, _ → _))

theorem Tidy.hrtimerStart (h : Tidy w s) (hplaced : Placed none s) {time delta : Ktime}
    {rel user prefer : Bool} (htime : Fits64 time)
    (hfits : index t ∈ w → StartFits s c t time delta rel prefer)
    (hs : hrtimerStart s c t time delta rel user prefer target = some (s', o)) : Tidy w s' := by
  cases starts_of_hrtimerStart hs with
  | kept cpu hcpu hkeep =>
    -- the only end that needs the condition on the slack
    have hqueues := hplaced.queues cpu
    have hsorted := (h cpu).sorted.removeAndEnqueue hqueues hcpu (startTime_le s t htime rel)
      fun ht => hfits ht cpu hcpu hkeep
    exact h.keeps hplaced hcpu (keeps_requeueTail _ t _ delta _ _ user s.now)
      (hsorted.startTail (hqueues.removeAndEnqueue t hcpu _ delta) t _ _ _ user s.now)
  | back cpu hcpu hleave hsuitable =>
    exact (h.startRemoved hplaced hcpu c _ delta).startOn (hplaced.startRemoved hcpu c _ delta) c
      cpu _ user
  | moved cpu target' hcpu hleave =>
    exact (h.startRemoved hplaced hcpu c _ delta).startMoved c _
      (hplaced.startRemoved hcpu c _ delta)

theorem Tidy.finishStart (h : Tidy w s) (hplaced : Placed none s)
    (hs : finishStart s c = some (s', o)) : Tidy w s' := by
  obtain ⟨start, hstart, hfinishes⟩ := finishes_of_finishStart hs
  have hresume := hplaced.resume hstart
  have h' : Tidy w (s.setStarting c none) := fun c' => h c'
  cases hfinishes with
  | placed hsuitable => exact h'.startOn hresume c _ _ _
  | moved => exact h'.startMoved c { start with target := c } hresume

theorem Tidy.tryToCancel (h : Tidy w s) (hplaced : Placed none s)
    (hs : hrtimerTryToCancel s c t = some (s', o)) : Tidy w s' := by
  obtain ⟨cpu, hcpu, htries⟩ := tries_of_hrtimerTryToCancel hs
  cases htries with
  | running hrunning => exact h
  | removed hidle =>
    exact h.keeps hplaced hcpu (keeps_remove (s.view cpu) t false (decide (cpu = c)))
      ((h cpu).sorted.remove (hplaced.queues cpu) t false _)

/-! ### Expiring -/

omit [DecidableEq T] [Setup T] in
theorem Tidy.interruptEnd (h : Tidy w s) {deferred : Bool} {f : Frame T}
    (hends : Ends deferred s c f (s', o)) : Tidy w s' := by
  have hevent : TidyOn w s.clock ⟨s.timers, (interruptEvent (s.cpuBase c) s.clock).2⟩ :=
    (h c).event.of_clockBase rfl rfl
  cases hends with
  | retry b hb =>
    subst hb
    exact h.turn (hevent.interruptRetry s.now) _ _
  | done e b he hb =>
    have hb' : TidyOn w s.clock ⟨s.timers, b⟩ := by
      obtain ⟨rfl, -⟩ | rfl := hb
      · exact hevent
      · exact hevent.of_clockBase rfl rfl
    obtain ⟨hclock, hseq⟩ := interruptRearm_fields deferred b e s.now
    exact h.turn (hb'.of_clockBase hclock hseq) _ _

/-- The functions that expire timers write nothing else that matters. -/
theorem Tidy.runHrtimer (h : Tidy w s) (hplaced : Placed none s) {ctx : Context} {f : Frame T}
    {i : BaseType} (hcpu : (s.timers t).cpu = some c) : Tidy w (runHrtimer s ctx c f i t).1 := by
  set v : Locked T Cpu := ⟨s.timers, (s.cpuBase c).setRunning i (some t)⟩
  have hrunning : Tidy w (s.put c v) := h.putBase ((h c).setRunning i (some t))
  have hplaced' : Placed none (s.put c v) :=
    hplaced.putBase (fun j => active_setRunning _ _ _ j) rfl
  have hqueues := hplaced'.queues c
  have hsorted := (hrunning c).sorted
  have hkeeps : Keeps t ((s.put c v).view c) (rawRemoveHrtimer v t false false) := by
    rw [State.view_put_self]
    exact keeps_remove v t false false
  rw [State.view_put_self] at hqueues hsorted
  have hremoved := hrunning.keeps hplaced' hcpu hkeeps (hsorted.remove hqueues t false false)
  rw [State.put_put] at hremoved
  exact fun c' => hremoved c'

theorem Tidy.expire (h : Tidy w s) (hplaced : Placed none s) {deferred : Bool} {ctx : Context}
    (hs : expire deferred s ctx c = some (s', o)) : Tidy w s' := by
  obtain ⟨f, hf, hcallback, hturn⟩ := turn_of_expire hs
  cases hturn with
  | next _ i rest htodo hlater => exact fun c' => h c'
  | run _ i rest t htodo hfirst hdue =>
    have hmem := ((hplaced.queues c).mem_active i t).mp (List.mem_of_mem_head? hfirst)
    exact h.runHrtimer hplaced hmem.2.1
  | interruptEnd htodo hends => exact h.interruptEnd hends
  | softirqEnd htodo =>
    have hdone : SameQueues (s.cpuBase c) { s.cpuBase c with softirqActivated := false } :=
      ⟨rfl, rfl, rfl, rfl, rfl, id, rfl⟩
    exact h.turn ((h c).of_sameQueues
      (hdone.trans (sameQueues_updateSoftirqTimer ⟨s.timers, _⟩ true))) _ _

theorem Tidy.callbackReturn (h : Tidy w s) (he : Exclusive s) {ctx : Context} {restart : Bool}
    (hs : callbackReturn s ctx c restart = some (s', o)) : Tidy w s' := by
  obtain ⟨f, t, hf, ht, rfl, -⟩ := of_callbackReturn hs
  have hcpu := (he.expiring.callback ctx c f t hf ht).2
  have hqueues := he.placed.queues c
  have hsorted : SortedOn w (restartHrtimer (s.view c) t restart) := by
    rw [restartHrtimer]
    split_ifs with hrestart
    · -- the callback has not started the timer itself
      have hidle : ((s.view c).timers t).isQueued = false := by
        simpa using (Bool.and_eq_true_iff.mp hrestart).2
      exact (h c).sorted.enqueue (hqueues.idle hidle)
    · exact (h c).sorted
  have hrestarted := h.keeps he.placed hcpu (keeps_restart (s.view c) t restart) hsorted
  have hrunning := (hrestarted c).setRunning (index t) none
  rw [State.view_put_self] at hrunning
  have hdone := hrestarted.putBase (c := c) hrunning
  rw [State.put_put] at hdone
  exact fun c' => hdone c'

omit [DecidableEq T] [Setup T] in
theorem Tidy.rearms (h : Tidy w s) (hs : Rearms s c (s', o)) : Tidy w s' := by
  cases hs with
  | idle hd => exact h
  | update hd hneeds => exact h.putBase ((h c).event.of_clockBase rfl rfl)
  | known hd hneeds => exact h.putBase ((h c).of_clockBase rfl rfl)

omit [DecidableEq T] [Setup T] in
/-- The offsets of a CPU are updated. -/
theorem Tidy.updates (h : Tidy w s) {caller : Cpu} {bases : BaseType → Bool}
    (hs : Updates s caller c bases (hrtimerUpdateBase (s.cpuBase c) s.clock) (s', o)) :
    Tidy w s' := by
  cases hs with
  | same hseq => exact h.putBase (h c).updateBase
  | deferred hd => exact h.putBase ((h c).updateBase.of_clockBase rfl rfl)
  | asked hd => exact fun c' => h.putBase (h c).updateBase c'

end All

/-! ### The step lemma -/

variable [DecidableEq T] [DecidableEq Cpu] [Setup T]
variable {w : List BaseType} {s s' : State T Cpu} {o : Outcome T}

/-- The step spoils the order of none of the queues. -/
def KeepsOrder (w : List BaseType) (s : State T Cpu) (a : Action T Cpu) : Prop :=
  match a with
  | .start c t time delta rel _ prefer _ => index t ∈ w → StartFits s c t time delta rel prefer
  | .pass .. | .setClock .. | .clockWasSet .. | .retrigger .. | .setup .. | .setExpires ..
  | .forward .. | .finishStart .. | .tryToCancel .. | .interrupt .. | .softirq .. | .expire ..
  | .callbackReturn .. | .rearmDeferred .. => True

instance (w : List BaseType) (s : State T Cpu) (a : Action T Cpu) : Decidable (KeepsOrder w s a) :=
  match a with
  | .start c t time delta rel _ prefer _ =>
    inferInstanceAs (Decidable (index t ∈ w → StartFits s c t time delta rel prefer))
  | .pass .. | .setClock .. | .clockWasSet .. | .retrigger .. | .setup .. | .setExpires ..
  | .forward .. | .finishStart .. | .tryToCancel .. | .interrupt .. | .softirq .. | .expire ..
  | .callbackReturn .. | .rearmDeferred .. => .isTrue trivial

omit [DecidableEq T] [DecidableEq Cpu] [Setup T] in
theorem tidy_start (w : List BaseType) (now : Ktime) (cpuOf : T → Cpu) :
    Tidy w (start now cpuOf) := fun _ =>
  ⟨⟨⟨0, 0, 0, 0⟩, rfl, fun i => by cases i <;> rfl, le_rfl, fun _ => rfl⟩,
    fun _ _ => ⟨List.Pairwise.nil, nofun⟩⟩

omit [DecidableEq T] [DecidableEq Cpu] [Setup T] in
/-- The expiry of a queued timer is left alone. -/
theorem hrtimerForward_queued {timer : Timer Cpu} (hq : timer.isQueued = true)
    (now interval : Ktime) : hrtimerForward timer now interval = (timer, 0) := by
  rw [hrtimerForward]
  simp [hq]

/-- **What one step preserves.** -/
theorem Tidy.perform (h : Tidy w s) (he : Exclusive s) {deferred : Bool} {a : Action T Cpu}
    (ha : KeepsOrder w s a) (hs : perform deferred s a = some (s', o)) : Tidy w s' := by
  have hplaced := he.placed
  cases performed_of_perform hs with
  | pass d => exact fun c => h c
  | setClock real boot tai => exact fun c => ⟨(h c).seen.set real boot tai, (h c).sorted⟩
  | clockWasSet c hs => exact h.updates hs
  | retrigger c =>
    have hforced := (h c).updateBase.of_sameQueues (sameQueues_forceReprogram _ false)
    exact fun c' => h.putBase hforced c'
  | setup c t hq => exact h.write hplaced (Or.inr hq) fun _ hu => Function.update_of_ne hu ..
  | setExpires t time delta hq =>
    exact h.write hplaced (Or.inr hq) fun _ hu => setExpires_of_ne _ _ _ hu
  | forward t now interval =>
    cases hq : (s.timers t).isQueued with
    | false => exact h.write hplaced (Or.inr hq) fun _ hu => Function.update_of_ne hu ..
    | true =>
      rw [hrtimerForward_queued hq, Function.update_eq_self]
      exact h
  | start c t hfree hfits hs => exact h.hrtimerStart hplaced hfits ha hs
  | finishStart c hs => exact h.finishStart hplaced hs
  | tryToCancel c t hs => exact h.tryToCancel hplaced hs
  | interrupt c hnone =>
    refine h.turn ?_ _ _
    exact ((h c).updateBase.interruptRetry s.now).of_clockBase rfl rfl
  | softirq c hnone => exact h.turn (h c).updateBase _ _
  | expire ctx c hs => exact h.expire hplaced hs
  | callbackReturn ctx c hs => exact h.callbackReturn he hs
  | rearmDeferred c hnone hs => exact h.rearms hs

/-- The run lemma. -/
theorem tidy_of_run {deferred : Bool} {now : Ktime} {cpuOf : T → Cpu}
    (h : Run (step deferred) (KeepsOrder w) (start now cpuOf) s) : Tidy w s ∧ Exclusive s := by
  refine h.invariant (I := fun s => Tidy w s ∧ Exclusive s)
    ⟨tidy_start w now cpuOf, placed_start now cpuOf, expiring_start now cpuOf⟩ fun hI ha hs => ?_
  obtain ⟨⟨_, o⟩, ho, rfl⟩ := Option.map_eq_some_iff.mp hs
  exact ⟨hI.1.perform hI.2 ha ho, hI.2.perform ho⟩

end Hrtimer

end HrtimerStudy
