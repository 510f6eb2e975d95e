import HrtimerStudy.Hrtimer.Inversion
import HrtimerStudy.Hrtimer.Queues

/-!
# The places of the timers

A queued timer is in the queue that its fields name, or some CPU is about to put it into one; a
callback runs on the CPU that the timer belongs to. Starting and cancelling a timer preserve this.

## Main definitions

* `Placed` — the queues and the timers between two queues
* `Expiring` — the callbacks
* `Exclusive` — both

## Main results

* `Placed.put`, `Expiring.keeps` — what happens under the lock of one CPU
* `Exclusive.hrtimerStart`, `Exclusive.finishStart`, `Exclusive.tryToCancel`
-/

namespace HrtimerStudy

namespace Hrtimer

open Setup (index isLazy)

variable {T Cpu : Type*} [Setup T]

/-! ### The invariants -/

/-- The timers are where their fields say, except for `out`, and those without a base are about to
get one. -/
structure Placed (out : Option T) (s : State T Cpu) : Prop where
  queues : ∀ c, Queues c out (s.view c)
  starting : ∀ c start, s.starting c = some start →
    (s.timers start.timer).cpu = none ∧ out ≠ some start.timer
  starting_inj : ∀ c c' start start', s.starting c = some start → s.starting c' = some start' →
    start.timer = start'.timer → c = c'
  moving : ∀ t, (s.timers t).cpu = none →
    out = some t ∨ ∃ c start, s.starting c = some start ∧ start.timer = t

/-- The callbacks run in the base of their timer. -/
structure Expiring (s : State T Cpu) : Prop where
  todo : ∀ ctx c f, s.frame ctx c = some f → ∀ i ∈ f.todo, i.context = ctx
  callback : ∀ ctx c f t, s.frame ctx c = some f → f.callback = some t →
    f.todo.head? = some (index t) ∧ (s.timers t).cpu = some c
  running : ∀ c i t, ((s.cpuBase c).clockBase i).running = some t ↔
    ∃ f, s.frame i.context c = some f ∧ f.callback = some t ∧ f.todo.head? = some i

variable {s s' : State T Cpu} {c cpu target : Cpu} {t : T} {out : Option T} {v : Locked T Cpu}

theorem placed_start (now : Ktime) (cpuOf : T → Cpu) : Placed none (start now cpuOf) where
  queues := by
    intro c
    refine ⟨fun i t => ⟨nofun, nofun⟩, fun i => List.nodup_nil, fun i => ⟨nofun, fun h => ?_⟩⟩
    exact absurd rfl h
  starting := nofun
  starting_inj := nofun
  moving := nofun

theorem expiring_start (now : Ktime) (cpuOf : T → Cpu) : Expiring (start now cpuOf) where
  todo := nofun
  callback := nofun
  running := fun _ _ _ => ⟨nofun, nofun⟩

/-! ### Writing one timer -/

/-- A timer without a place is written. -/
theorem Placed.write (h : Placed (some t) s) {timers : T → Timer Cpu}
    (htimers : ∀ u, u ≠ t → timers u = s.timers u) :
    Placed (some t) { s with timers := timers } where
  queues := fun c =>
    (h.queues c).of_ne htimers (fun _ _ => rfl) (fun _ _ => rfl) fun _ _ => Iff.rfl
  starting := by
    intro c start hstart
    obtain ⟨hnone, hne⟩ := h.starting c start hstart
    refine ⟨?_, hne⟩
    show (timers start.timer).cpu = none
    rw [htimers _ fun ht => hne (congrArg some ht.symm)]
    exact hnone
  starting_inj := h.starting_inj
  moving := by
    intro u hu
    rcases eq_or_ne u t with rfl | ht
    · exact Or.inl rfl
    · exact h.moving u ((congrArg Timer.cpu (htimers u ht)).symm.trans hu)

/-- A timer without a callback may change its base. -/
theorem Expiring.write (h : Expiring s) {timers : T → Timer Cpu}
    (htimers : ∀ u, u ≠ t → timers u = s.timers u)
    (ht : ∀ ctx c f, s.frame ctx c = some f → f.callback = some t →
      (timers t).cpu = (s.timers t).cpu) : Expiring { s with timers := timers } where
  todo := h.todo
  callback := by
    intro ctx c f u hf hu
    obtain ⟨hhead, hc⟩ := h.callback ctx c f u hf hu
    refine ⟨hhead, ?_⟩
    show (timers u).cpu = some c
    rcases eq_or_ne u t with rfl | hut
    · rw [ht ctx c f hf hu]
      exact hc
    · rw [htimers u hut]
      exact hc
  running := h.running

/-- A timer without a base has no callback running. -/
theorem Expiring.callback_ne_of_none (h : Expiring s) (hcpu : (s.timers t).cpu = none)
    {ctx : Context} {f : Frame T} (hf : s.frame ctx c = some f) : f.callback ≠ some t := by
  intro ht
  rw [(h.callback ctx c f t hf ht).2] at hcpu
  cases hcpu

/-! ### Under one lock -/

section Locks

variable [DecidableEq Cpu] {out' : Option T}

/-- What happens to a timer under the lock of its CPU. -/
theorem Placed.put (h : Placed out s) (hcpu : (s.timers t).cpu = some c)
    (hkeeps : Keeps t (s.view c) v) (hqueues : Queues c out' v)
    (hout : ∀ u, u ≠ t → (out' = some u ↔ out = some u)) : Placed out' (s.put c v) where
  queues := by
    intro c'
    rcases eq_or_ne c' c with rfl | hc
    · rw [State.view_put_self]
      exact hqueues
    · rw [State.view_put_of_ne _ _ hc]
      have hcpu' : (v.timers t).cpu = some c := hkeeps.cpu.trans hcpu
      refine (h.queues c').of_ne hkeeps.timers ?_ ?_ hout
      · intro _ hc'
        exact absurd (Option.some.inj (hc'.symm.trans hcpu)) hc
      · intro _ hc'
        exact absurd (Option.some.inj (hc'.symm.trans hcpu')) hc
  starting := by
    intro c' start hstart
    obtain ⟨hnone, hne⟩ := h.starting c' start hstart
    have ht : start.timer ≠ t := by
      rintro rfl
      rw [hcpu] at hnone
      cases hnone
    refine ⟨?_, fun ho => hne ((hout _ ht).mp ho)⟩
    show (v.timers start.timer).cpu = none
    rw [hkeeps.timers _ ht]
    exact hnone
  starting_inj := h.starting_inj
  moving := by
    intro u hu
    have hcpu' : (v.timers t).cpu = some c := hkeeps.cpu.trans hcpu
    have ht : u ≠ t := by
      rintro rfl
      exact absurd (hcpu'.symm.trans hu) nofun
    rw [hout u ht]
    exact h.moving u ((congrArg Timer.cpu (hkeeps.timers u ht)).symm.trans hu)

/-- No timer is written. -/
theorem Placed.putBase (h : Placed out s) {b : CpuBase T}
    (hactive : ∀ i, (b.clockBase i).active = ((s.cpuBase c).clockBase i).active)
    (hbits : b.activeBases = (s.cpuBase c).activeBases) : Placed out (s.put c ⟨s.timers, b⟩) where
  queues := by
    intro c'
    rcases eq_or_ne c' c with rfl | hc
    · rw [State.view_put_self]
      obtain ⟨hmem, hnodup, hbit⟩ := h.queues c'
      refine ⟨fun i t => ?_, fun i => ?_, fun i => ?_⟩
      · show t ∈ (b.clockBase i).active ↔ _
        rw [hactive]
        exact hmem i t
      · show (b.clockBase i).active.Nodup
        rw [hactive]
        exact hnodup i
      · show b.activeBases i = true ↔ (b.clockBase i).active ≠ []
        rw [hactive, hbits]
        exact hbit i
    · rw [State.view_put_of_ne _ _ hc]
      exact h.queues c'
  starting := h.starting
  starting_inj := h.starting_inj
  moving := h.moving

theorem Expiring.put (h : Expiring s)
    (hcpu : ∀ ctx c f u, s.frame ctx c = some f → f.callback = some u →
      (v.timers u).cpu = (s.timers u).cpu)
    (hrunning : ∀ i, (v.cpuBase.clockBase i).running = ((s.cpuBase c).clockBase i).running) :
    Expiring (s.put c v) where
  todo := h.todo
  callback := by
    intro ctx c' f u hf hu
    obtain ⟨hhead, hc⟩ := h.callback ctx c' f u hf hu
    exact ⟨hhead, (hcpu ctx c' f u hf hu).trans hc⟩
  running := by
    intro c' i u
    rcases eq_or_ne c' c with rfl | hc
    · rw [State.cpuBase_put_self, hrunning]
      exact h.running c' i u
    · rw [State.cpuBase_put_of_ne _ _ hc]
      exact h.running c' i u

theorem Expiring.putBase (h : Expiring s) {b : CpuBase T} (hsame : SameActive (s.cpuBase c) b) :
    Expiring (s.put c ⟨s.timers, b⟩) :=
  h.put (fun _ _ _ _ _ _ => rfl) hsame.running

theorem Expiring.keeps (h : Expiring s) (hkeeps : Keeps t (s.view c) v) : Expiring (s.put c v) := by
  refine h.put (fun ctx c' f u _ _ => ?_) hkeeps.running
  rcases eq_or_ne u t with rfl | hu
  · exact hkeeps.cpu
  · rw [hkeeps.timers u hu]
    rfl

/-- A frame between two callbacks is replaced by another one, or by none. -/
theorem Expiring.setFrame (h : Expiring s) {ctx : Context} {f' : Option (Frame T)}
    (hold : ∀ f ∈ s.frame ctx c, f.callback = none)
    (hnew : ∀ f ∈ f', f.callback = none ∧ ∀ i ∈ f.todo, i.context = ctx) :
    Expiring (s.setFrame ctx c f') where
  todo := by
    intro ctx' c' f hf
    obtain ⟨rfl, -, hf⟩ | hf := State.of_frame_setFrame _ hf
    · exact (hnew f hf).2
    · exact h.todo ctx' c' f hf
  callback := by
    intro ctx' c' f u hf hu
    obtain ⟨-, -, hf⟩ | hf := State.of_frame_setFrame _ hf
    · rw [(hnew f hf).1] at hu
      cases hu
    · exact h.callback ctx' c' f u hf hu
  running := by
    intro c' i u
    refine (h.running c' i u).trans ?_
    by_cases hne : i.context = ctx ∧ c' = c
    · obtain ⟨rfl, rfl⟩ := hne
      rw [State.frame_setFrame_self]
      constructor
      · rintro ⟨f, hf, hu, -⟩
        rw [hold f hf] at hu
        cases hu
      · rintro ⟨f, hf, hu, -⟩
        rw [(hnew f hf).1] at hu
        cases hu
    · rw [State.frame_setFrame_of_ne _ _ (not_and_or.mp hne)]

end Locks

/-! ### Starting -/

variable [DecidableEq T] [DecidableEq Cpu]

omit [DecidableEq Cpu] in
/-- The callback of a timer runs only where the base says so. -/
theorem Expiring.callback_ne (h : Expiring s) (hcpu : (s.timers t).cpu = some cpu)
    (hrunning : callbackRunning s cpu t = false) {ctx : Context} {f : Frame T}
    (hf : s.frame ctx c = some f) : f.callback ≠ some t := by
  intro ht
  obtain ⟨hhead, hc⟩ := h.callback ctx c f t hf ht
  obtain rfl : cpu = c := Option.some.inj (hcpu.symm.trans hc)
  have hctx : (index t).context = ctx := h.todo ctx cpu f hf _ (List.mem_of_mem_head? hhead)
  refine of_decide_eq_false hrunning ((h.running cpu (index t) t).mpr ⟨f, ?_, ht, hhead⟩)
  rw [hctx]
  exact hf

/-- A timer without a place gets one. -/
theorem Placed.startOn (h : Placed (some t) s) (c target : Cpu) (wasFirst user : Bool) :
    Placed none (startOn s c target t wasFirst user).1 := by
  have hwrite : Placed (some t) { s with timers := setCpu s.timers t (some target) } :=
    h.write fun _ hu => setCpu_of_ne _ _ hu
  have hcpu : (setCpu s.timers t (some target) t).cpu = some target := by rw [setCpu_self]
  exact hwrite.put hcpu (keeps_enqueueTail _ t _ wasFirst user s.now)
    ((hwrite.queues target).enqueueTail hcpu _ wasFirst user s.now) fun _ hu => (out_iff hu).symm

/-- A timer is left to a CPU, which is about to finish its start. -/
theorem Placed.startMoved (h : Placed (some t) s) (hfree : s.starting c = none)
    {start : Start T Cpu} (hstart : start.timer = t) : Placed none (startMoved s c start) := by
  subst hstart
  have hwrite : Placed (some start.timer) { s with timers := setCpu s.timers start.timer none } :=
    h.write fun _ hu => setCpu_of_ne _ _ hu
  have hcpu : (setCpu s.timers start.timer none start.timer).cpu = none := by rw [setCpu_self]
  have hold : ∀ c', c' ≠ c → (s.setStarting c (some start)).starting c' = s.starting c' :=
    fun c' hc => State.starting_setStarting_of_ne _ _ hc
  have hnew : (s.setStarting c (some start)).starting c = some start :=
    State.starting_setStarting_self _ _
  refine ⟨fun c' => (hwrite.queues c').settle fun _ => ?_, ?_, ?_, ?_⟩
  · show (setCpu s.timers start.timer none start.timer).cpu ≠ some c'
    rw [hcpu]
    exact nofun
  · intro c' start' hstart'
    rcases eq_or_ne c' c with rfl | hc
    · obtain rfl : start = start' := Option.some.inj (hnew.symm.trans hstart')
      exact ⟨hcpu, nofun⟩
    · exact ⟨(hwrite.starting c' start' ((hold c' hc).symm.trans hstart')).1, nofun⟩
  · -- nobody else has the timer
    have hother : ∀ c' start', c' ≠ c →
        (s.setStarting c (some start)).starting c' = some start' → start'.timer ≠ start.timer := by
      intro c' start' hc hstart' heq
      exact (h.starting c' start' ((hold c' hc).symm.trans hstart')).2 (congrArg some heq.symm)
    intro c₁ c₂ start₁ start₂ h₁ h₂ heq
    rcases eq_or_ne c₁ c with rfl | hc₁
    · rcases eq_or_ne c₂ c₁ with rfl | hc₂
      · rfl
      · obtain rfl : start = start₁ := Option.some.inj (hnew.symm.trans h₁)
        exact absurd heq.symm (hother c₂ start₂ hc₂ h₂)
    · rcases eq_or_ne c₂ c with rfl | hc₂
      · obtain rfl : start = start₂ := Option.some.inj (hnew.symm.trans h₂)
        exact absurd heq (hother c₁ start₁ hc₁ h₁)
      · exact h.starting_inj c₁ c₂ start₁ start₂ ((hold c₁ hc₁).symm.trans h₁)
          ((hold c₂ hc₂).symm.trans h₂) heq
  · -- whoever had no base before is still on its way
    intro u hu
    rcases eq_or_ne u start.timer with rfl | ht
    · exact Or.inr ⟨c, start, hnew, rfl⟩
    · obtain ⟨c', start', hstart', htimer⟩ :=
        (hwrite.moving u hu).resolve_left fun ho => ht (Option.some.inj ho).symm
      have hc : c' ≠ c := by
        rintro rfl
        exact absurd (hfree.symm.trans hstart') nofun
      exact Or.inr ⟨c', start', (hold c' hc).trans hstart', htimer⟩

theorem Placed.startRemoved (h : Placed none s) (hcpu : (s.timers t).cpu = some cpu)
    (c : Cpu) (time delta : Ktime) : Placed (some t) (startRemoved s c cpu t time delta) :=
  h.put hcpu (keeps_removeAndSetExpires _ t time delta _)
    ((h.queues cpu).removeAndSetExpires t time delta _) fun _ hu => out_iff hu

theorem Placed.startKept (h : Placed none s) (hcpu : (s.timers t).cpu = some cpu) (c : Cpu)
    (time delta : Ktime) (user : Bool) : Placed none (startKept s c cpu t time delta user).1 :=
  h.put hcpu (keeps_requeueTail _ t time delta _ _ user s.now)
    ((h.queues cpu).requeueTail hcpu time delta _ _ user s.now) fun _ _ => Iff.rfl

theorem Expiring.startOn (h : Expiring s)
    (hcallback : ∀ ctx c f, s.frame ctx c = some f → f.callback ≠ some t) (c target : Cpu)
    (wasFirst user : Bool) : Expiring (startOn s c target t wasFirst user).1 := by
  have hwrite : Expiring { s with timers := setCpu s.timers t (some target) } :=
    h.write (fun _ hu => setCpu_of_ne _ _ hu) fun ctx c f hf ht => absurd ht (hcallback ctx c f hf)
  exact hwrite.keeps (keeps_enqueueTail _ t _ wasFirst user s.now)

theorem Expiring.startMoved (h : Expiring s)
    (hcallback : ∀ ctx c f, s.frame ctx c = some f → f.callback ≠ some t) (c : Cpu)
    {start : Start T Cpu} (hstart : start.timer = t) : Expiring (startMoved s c start) := by
  subst hstart
  have hwrite : Expiring { s with timers := setCpu s.timers start.timer none } :=
    h.write (fun _ hu => setCpu_of_ne _ _ hu) fun ctx c f hf ht => absurd ht (hcallback ctx c f hf)
  exact ⟨hwrite.todo, hwrite.callback, hwrite.running⟩

/-- Both invariants. -/
structure Exclusive (s : State T Cpu) : Prop where
  placed : Placed none s
  expiring : Expiring s

/-- A timer that leaves its base has no callback running. -/
theorem Expiring.callback_ne_of_leave (h : Expiring s) (hcpu : (s.timers t).cpu = some cpu)
    {prefer : Bool} (hleave : hrtimerKeepBase s c cpu t prefer = false) :
    ∀ ctx c' f, s.frame ctx c' = some f → f.callback ≠ some t := by
  intro ctx c' f hf
  rw [hrtimerKeepBase] at hleave
  exact h.callback_ne hcpu (Bool.or_eq_false_iff.mp hleave).1 hf

theorem Exclusive.hrtimerStart (h : Exclusive s) (hfree : s.starting c = none) {time delta : Ktime}
    {rel user prefer : Bool} {o : Outcome T}
    (hs : hrtimerStart s c t time delta rel user prefer target = some (s', o)) : Exclusive s' := by
  have hremoved {cpu : Cpu} (hcpu : (s.timers t).cpu = some cpu) (time : Ktime) :
      Placed (some t) (startRemoved s c cpu t time delta) := h.placed.startRemoved hcpu c time delta
  have hexpiring (cpu : Cpu) (time : Ktime) : Expiring (startRemoved s c cpu t time delta) :=
    h.expiring.keeps (keeps_removeAndSetExpires _ t _ delta _)
  cases starts_of_hrtimerStart hs with
  | kept cpu hcpu hkeep =>
    exact ⟨h.placed.startKept hcpu c _ delta user,
      h.expiring.keeps (keeps_requeueTail _ t _ delta _ _ user s.now)⟩
  | back cpu hcpu hleave hsuitable =>
    have hcallback := h.expiring.callback_ne_of_leave hcpu hleave
    exact ⟨(hremoved hcpu _).startOn c cpu _ user,
      (hexpiring cpu _).startOn hcallback c cpu _ user⟩
  | moved cpu target' hcpu hleave =>
    have hcallback := h.expiring.callback_ne_of_leave hcpu hleave
    exact ⟨(hremoved hcpu _).startMoved hfree rfl, (hexpiring cpu _).startMoved hcallback c rfl⟩

omit [DecidableEq T] in
/-- A CPU takes up the start that it is about to finish. -/
theorem Placed.resume (h : Placed none s) {start : Start T Cpu}
    (hstart : s.starting c = some start) : Placed (some start.timer) (s.setStarting c none) := by
  have hcpu := (h.starting c start hstart).1
  have hold : ∀ c', c' ≠ c → (s.setStarting c none).starting c' = s.starting c' :=
    fun c' hc => State.starting_setStarting_of_ne _ _ hc
  have hne : ∀ c' start', (s.setStarting c none).starting c' = some start' →
      c' ≠ c ∧ s.starting c' = some start' := by
    intro c' start' hstart'
    have hc : c' ≠ c := by
      rintro rfl
      rw [State.starting_setStarting_self] at hstart'
      cases hstart'
    exact ⟨hc, (hold c' hc).symm.trans hstart'⟩
  refine ⟨fun c' => ?_, ?_, ?_, ?_⟩
  · refine (h.queues c').of_ne (fun _ _ => rfl) ?_ (fun _ _ => rfl) fun _ hu => out_iff hu
    intro _ hc'
    exact absurd (hcpu.symm.trans hc') nofun
  · intro c' start' hstart'
    obtain ⟨hc, hstart'⟩ := hne c' start' hstart'
    refine ⟨(h.starting c' start' hstart').1, fun htimer => hc ?_⟩
    exact h.starting_inj c' c start' start hstart' hstart (Option.some.inj htimer).symm
  · intro c₁ c₂ start₁ start₂ h₁ h₂ htimer
    exact h.starting_inj c₁ c₂ start₁ start₂ (hne c₁ start₁ h₁).2 (hne c₂ start₂ h₂).2 htimer
  · intro u hu
    obtain ⟨c', start', hstart', htimer⟩ := (h.moving u hu).resolve_left nofun
    rcases eq_or_ne c' c with rfl | hc
    · obtain rfl : start = start' := Option.some.inj (hstart.symm.trans hstart')
      exact Or.inl (congrArg some htimer)
    · exact Or.inr ⟨c', start', (hold c' hc).trans hstart', htimer⟩

theorem Exclusive.finishStart (h : Exclusive s) {o : Outcome T}
    (hs : finishStart s c = some (s', o)) : Exclusive s' := by
  obtain ⟨start, hstart, hfinishes⟩ := finishes_of_finishStart hs
  have hresume := h.placed.resume hstart
  have hexpiring : Expiring (s.setStarting c none) :=
    ⟨h.expiring.todo, h.expiring.callback, h.expiring.running⟩
  have hcallback : ∀ ctx c' f, s.frame ctx c' = some f → f.callback ≠ some start.timer :=
    fun ctx c' f hf => h.expiring.callback_ne_of_none (h.placed.starting c start hstart).1 hf
  cases hfinishes with
  | placed hsuitable =>
    exact ⟨hresume.startOn c _ _ _, hexpiring.startOn hcallback c _ _ _⟩
  | moved =>
    exact ⟨hresume.startMoved (State.starting_setStarting_self s none) rfl,
      hexpiring.startMoved hcallback c rfl⟩

/-! ### Cancelling and writing the expiry -/

omit [DecidableEq T] [DecidableEq Cpu] in
/-- A timer that is not queued can be taken out of consideration. -/
theorem Placed.idle (h : Placed none s) (hq : (s.timers t).isQueued = false)
    (hcpu : (s.timers t).cpu ≠ none) : Placed (some t) s where
  queues := fun c => (h.queues c).idle hq
  starting := by
    intro c start hstart
    have hnone := (h.starting c start hstart).1
    refine ⟨hnone, fun ht => hcpu ?_⟩
    rw [Option.some.inj ht]
    exact hnone
  starting_inj := h.starting_inj
  moving := fun u hu => Or.inr ((h.moving u hu).resolve_left (Option.some_ne_none u).symm)

omit [DecidableEq Cpu] [DecidableEq T] in
/-- And it can be taken into consideration again. -/
theorem Placed.settle (h : Placed (some t) s) (hq : (s.timers t).isQueued = false)
    (hcpu : (s.timers t).cpu ≠ none) : Placed none s where
  queues := fun c => (h.queues c).settle fun hq' => absurd (hq.symm.trans hq') Bool.false_ne_true
  starting := fun c start hstart =>
    ⟨(h.starting c start hstart).1, (Option.some_ne_none start.timer).symm⟩
  starting_inj := h.starting_inj
  moving := by
    intro u hu
    refine Or.inr ((h.moving u hu).resolve_left fun ht => hcpu ?_)
    rw [Option.some.inj ht]
    exact hu

omit [DecidableEq Cpu] in
/-- A timer is set up. -/
theorem Exclusive.setup (h : Exclusive s) {cpu : Cpu} (hq : (s.timers t).isQueued = false)
    (hcpu : (s.timers t).cpu = some cpu) (hrunning : callbackRunning s cpu t = false) (c : Cpu) :
    Exclusive { s with timers := Function.update s.timers t ⟨0, 0, false, some c⟩ } := by
  have hne : ∀ u, u ≠ t →
      Function.update s.timers t (⟨0, 0, false, some c⟩ : Timer Cpu) u = s.timers u :=
    fun _ hu => Function.update_of_ne hu ..
  have hnone : (s.timers t).cpu ≠ none := by simp [hcpu]
  refine ⟨((h.placed.idle hq hnone).write hne).settle ?_ ?_, h.expiring.write hne ?_⟩
  · simp
  · simp
  · exact fun ctx c' f hf ht => absurd ht (h.expiring.callback_ne hcpu hrunning hf)

theorem Exclusive.tryToCancel (h : Exclusive s) {o : Outcome T}
    (hs : hrtimerTryToCancel s c t = some (s', o)) : Exclusive s' := by
  obtain ⟨cpu, hcpu, htries⟩ := tries_of_hrtimerTryToCancel hs
  cases htries with
  | running hrunning => exact h
  | removed hidle =>
    have hkeeps := keeps_remove (s.view cpu) t false (decide (cpu = c))
    exact ⟨h.placed.put hcpu hkeeps ((h.placed.queues cpu).deactivate t _) fun _ _ => Iff.rfl,
      h.expiring.keeps hkeeps⟩

omit [DecidableEq Cpu] in
/-- The fields that the queues do not depend on are written. -/
theorem Exclusive.setTimer (h : Exclusive s) {timer : Timer Cpu}
    (hqueued : timer.isQueued = (s.timers t).isQueued) (hcpu : timer.cpu = (s.timers t).cpu) :
    Exclusive { s with timers := Function.update s.timers t timer } := by
  have hne : ∀ u, u ≠ t → Function.update s.timers t timer u = s.timers u :=
    fun _ hu => Function.update_of_ne hu ..
  have hsame : ∀ u, (Function.update s.timers t timer u).cpu = (s.timers u).cpu := by
    intro u
    rcases eq_or_ne u t with rfl | hu
    · rw [Function.update_self, hcpu]
    · rw [hne u hu]
  refine ⟨⟨fun c => (h.placed.queues c).congr ?_ hsame, ?_, h.placed.starting_inj, ?_⟩,
    h.expiring.write hne fun _ _ _ _ _ => hsame t⟩
  · intro u
    show (Function.update s.timers t timer u).isQueued = (s.timers u).isQueued
    rcases eq_or_ne u t with rfl | hu
    · rw [Function.update_self, hqueued]
    · rw [hne u hu]
  · intro c start hstart
    obtain ⟨hnone, hout⟩ := h.placed.starting c start hstart
    exact ⟨(hsame _).trans hnone, hout⟩
  · intro u hu
    exact h.placed.moving u ((hsame u).symm.trans hu)

end Hrtimer

end HrtimerStudy
