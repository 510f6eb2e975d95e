import HrtimerStudy.Hrtimer.Base

/-!
# The queues of a CPU

What the functions under the lock of a CPU base do to its queues. A timer that moves to another
base is queued according to its flag while it is in no queue; the queues are described with at
most one such timer.

## Main definitions

* `SameQueues` — what the functions about the next event leave as it is
* `Keeps` — what the functions about one timer leave as it is
* `Queues` — the queues hold the timers that are queued at the CPU

## Main results

* `Queues.remove`, `Queues.enqueueTail`, `Queues.requeueTail` — they keep doing so
-/

namespace HrtimerStudy

namespace Hrtimer

open Setup (index isLazy)

variable {T Cpu : Type*}

/-! ### Writing a timer -/

section Writes

variable [DecidableEq T] (timers : T → Timer Cpu) {t u : T}

@[simp] theorem setQueued_self (t : T) (b : Bool) :
    setQueued timers t b t = { timers t with isQueued := b } := Function.update_self ..

theorem setQueued_of_ne (b : Bool) (h : u ≠ t) : setQueued timers t b u = timers u :=
  Function.update_of_ne h ..

@[simp] theorem setCpu_self (t : T) (c : Option Cpu) :
    setCpu timers t c t = { timers t with cpu := c } := Function.update_self ..

theorem setCpu_of_ne (c : Option Cpu) (h : u ≠ t) : setCpu timers t c u = timers u :=
  Function.update_of_ne h ..

@[simp] theorem setExpires_self (t : T) (time delta : Ktime) :
    hrtimerSetExpiresRangeNs timers t time delta t =
      { timers t with softexpires := time, expires := ktimeAddSafe time delta } :=
  Function.update_self ..

theorem setExpires_of_ne (time delta : Ktime) (h : u ≠ t) :
    hrtimerSetExpiresRangeNs timers t time delta u = timers u := Function.update_of_ne h ..

end Writes

/-! ### Writing a base -/

section Bases

variable (b : CpuBase T) (i : BaseType) (base : ClockBase T) (active : List T)

@[simp] theorem setBase_self : (b.setBase i base).clockBase i = base := Function.update_self ..

theorem setBase_of_ne {j : BaseType} (h : j ≠ i) :
    (b.setBase i base).clockBase j = b.clockBase j := Function.update_of_ne h ..

@[simp] theorem activeBases_setBase : (b.setBase i base).activeBases = b.activeBases := rfl

@[simp] theorem clockBase_setActive (bit : Bool) : (b.setActive i bit).clockBase = b.clockBase :=
  rfl

@[simp] theorem setActive_self (bit : Bool) : (b.setActive i bit).activeBases i = bit :=
  Function.update_self ..

theorem setActive_of_ne (bit : Bool) {j : BaseType} (h : j ≠ i) :
    (b.setActive i bit).activeBases j = b.activeBases j := Function.update_of_ne h ..

@[simp] theorem clockBase_clearIfEmpty : (b.clearIfEmpty i active).clockBase = b.clockBase := by
  rw [CpuBase.clearIfEmpty]
  split_ifs <;> rfl

theorem clearIfEmpty_of_ne {j : BaseType} (h : j ≠ i) :
    (b.clearIfEmpty i active).activeBases j = b.activeBases j := by
  rw [CpuBase.clearIfEmpty]
  split_ifs
  · exact setActive_of_ne b i false h
  · rfl

/-- The bit of a queue that has lost an element. -/
theorem clearIfEmpty_self (hbit : b.activeBases i = true ↔ (b.clockBase i).active ≠ [])
    (hsub : active.Sublist (b.clockBase i).active) :
    (b.clearIfEmpty i active).activeBases i = true ↔ active ≠ [] := by
  rw [CpuBase.clearIfEmpty]
  split_ifs with hempty
  · rw [setActive_self]
    exact ⟨nofun, fun hne => absurd (List.isEmpty_iff.mp hempty) hne⟩
  · have hne : active ≠ [] := fun hnil => hempty (List.isEmpty_iff.mpr hnil)
    refine ⟨fun _ => hne, fun _ => hbit.mpr fun hnil => hne ?_⟩
    rw [hnil] at hsub
    exact List.sublist_nil.mp hsub

@[simp] theorem active_setRunning (running : Option T) (j : BaseType) :
    ((b.setRunning i running).clockBase j).active = (b.clockBase j).active := by
  rcases eq_or_ne j i with rfl | hj
  · rw [CpuBase.setRunning, setBase_self]
  · rw [CpuBase.setRunning, setBase_of_ne _ _ _ hj]

@[simp] theorem running_setRunning_self (running : Option T) :
    ((b.setRunning i running).clockBase i).running = running := by
  rw [CpuBase.setRunning, setBase_self]

theorem setRunning_of_ne (running : Option T) {j : BaseType} (h : j ≠ i) :
    (b.setRunning i running).clockBase j = b.clockBase j := setBase_of_ne _ _ _ h

end Bases

/-! ### Bases without a timer -/

/-- The queues and the running timers are as before. -/
structure SameActive (b b' : CpuBase T) : Prop where
  active : ∀ i, (b'.clockBase i).active = (b.clockBase i).active
  running : ∀ i, (b'.clockBase i).running = (b.clockBase i).running
  activeBases : b'.activeBases = b.activeBases

theorem SameActive.trans {b b' b'' : CpuBase T} (h : SameActive b b') (h' : SameActive b' b'') :
    SameActive b b'' :=
  ⟨fun i => (h'.active i).trans (h.active i), fun i => (h'.running i).trans (h.running i),
    h'.activeBases.trans h.activeBases⟩

theorem sameActive_of_eq {b b' : CpuBase T} (hbase : b'.clockBase = b.clockBase)
    (hbits : b'.activeBases = b.activeBases) : SameActive b b' :=
  ⟨fun i => by rw [hbase], fun i => by rw [hbase], hbits⟩

theorem sameActive_updateBase (b : CpuBase T) (clock : Offsets) :
    SameActive b (hrtimerUpdateBase b clock) := by
  rw [hrtimerUpdateBase]
  split_ifs
  · exact sameActive_of_eq rfl rfl
  · exact ⟨fun _ => rfl, fun _ => rfl, rfl⟩

/-! ### The next event -/

/-- What the functions about the next event leave as it is. -/
structure SameQueues (b b' : CpuBase T) : Prop where
  clockBase : b'.clockBase = b.clockBase
  activeBases : b'.activeBases = b.activeBases
  clockWasSetSeq : b'.clockWasSetSeq = b.clockWasSetSeq
  hangDetected : b'.hangDetected = b.hangDetected
  deferredRearm : b'.deferredRearm = b.deferredRearm
  deferredNeedsUpdate : b.deferredNeedsUpdate = true → b'.deferredNeedsUpdate = true
  deferredExpiresNext : b'.deferredExpiresNext = b.deferredExpiresNext

theorem SameQueues.refl (b : CpuBase T) : SameQueues b b := ⟨rfl, rfl, rfl, rfl, rfl, id, rfl⟩

theorem SameQueues.trans {b b' b'' : CpuBase T} (h : SameQueues b b') (h' : SameQueues b' b'') :
    SameQueues b b'' :=
  ⟨h'.clockBase.trans h.clockBase, h'.activeBases.trans h.activeBases,
    h'.clockWasSetSeq.trans h.clockWasSetSeq, h'.hangDetected.trans h.hangDetected,
    h'.deferredRearm.trans h.deferredRearm,
    fun hneeds => h'.deferredNeedsUpdate (h.deferredNeedsUpdate hneeds),
    h'.deferredExpiresNext.trans h.deferredExpiresNext⟩

theorem SameQueues.sameActive {b b' : CpuBase T} (h : SameQueues b b') : SameActive b b' :=
  sameActive_of_eq h.clockBase h.activeBases

theorem sameQueues_getNextEventSoft (b : CpuBase T) :
    SameQueues b (rawHrtimerGetNextEventSoft b).2 := by
  rw [rawHrtimerGetNextEventSoft]
  split_ifs
  · exact .refl b
  · exact ⟨rfl, rfl, rfl, rfl, rfl, id, rfl⟩

theorem sameQueues_updateNextEvent (b : CpuBase T) :
    SameQueues b (hrtimerUpdateNextEvent b).2 := by
  simp only [hrtimerUpdateNextEvent, rawHrtimerGetNextEventHard, rawHrtimerGetNextEventSoft]
  split_ifs <;> exact ⟨rfl, rfl, rfl, rfl, rfl, id, rfl⟩

theorem sameQueues_rawReprogram (b : CpuBase T) (x : Ktime) :
    SameQueues b (rawHrtimerReprogram b x) := ⟨rfl, rfl, rfl, rfl, rfl, id, rfl⟩

theorem sameQueues_forceReprogram (b : CpuBase T) (skipEqual : Bool) :
    SameQueues b (hrtimerForceReprogram b skipEqual) := by
  rw [hrtimerForceReprogram]
  dsimp only
  split_ifs
  · exact sameQueues_updateNextEvent b
  · exact (sameQueues_updateNextEvent b).trans (sameQueues_rawReprogram _ _)

theorem sameQueues_reprogramLocal (b : CpuBase T) (t : T) (x : Ktime) (isLocal : Bool) :
    SameQueues b (reprogramLocal b t x isLocal) := by
  rw [reprogramLocal]
  split_ifs
  · exact .refl b
  · exact .refl b
  · exact .refl b
  · exact ⟨rfl, rfl, rfl, rfl, rfl, id, rfl⟩

variable [Setup T]

theorem sameQueues_reprogram (v : Locked T Cpu) (t : T) (isLocal reprogram : Bool) :
    SameQueues v.cpuBase (hrtimerReprogram v t isLocal reprogram) := by
  have hwrite (x : Ktime) : SameQueues v.cpuBase
      { v.cpuBase with softirqNextTimer := some t, softirqExpiresNext := x } :=
    ⟨rfl, rfl, rfl, rfl, rfl, id, rfl⟩
  rw [hrtimerReprogram]
  dsimp only
  split_ifs
  · exact .refl _
  · exact hwrite _
  · exact (hwrite _).trans (sameQueues_reprogramLocal _ _ _ _)
  · exact .refl _
  · exact sameQueues_reprogramLocal _ _ _ _

theorem sameQueues_updateSoftirqTimer (v : Locked T Cpu) (reprogram : Bool) :
    SameQueues v.cpuBase (hrtimerUpdateSoftirqTimer v reprogram) := by
  have hsoft := sameQueues_getNextEventSoft v.cpuBase
  rw [hrtimerUpdateSoftirqTimer]
  dsimp only
  split_ifs
  · exact hsoft
  · split
    · exact hsoft.trans (sameQueues_reprogram ⟨v.timers, _⟩ _ true reprogram)
    · exact hsoft

variable [DecidableEq T]

theorem sameQueues_removeReprogram (b : CpuBase T) (t : T) (reprogram : Bool) :
    SameQueues b (removeReprogram b t reprogram) := by
  rw [removeReprogram]
  split_ifs
  · exact .refl b
  · exact ⟨rfl, rfl, rfl, rfl, rfl, fun _ => rfl, rfl⟩
  · exact sameQueues_forceReprogram b true

/-! ### One timer -/

variable {c : Cpu} {out out' : Option T} {v v' v'' : Locked T Cpu} {t u : T}

section Keeps

omit [DecidableEq T]

/-- What the functions about a timer leave as it is. -/
structure Keeps (t : T) (v v' : Locked T Cpu) : Prop where
  timers : ∀ u, u ≠ t → v'.timers u = v.timers u
  cpu : (v'.timers t).cpu = (v.timers t).cpu
  clockBase : ∀ i, i ≠ index t → v'.cpuBase.clockBase i = v.cpuBase.clockBase i
  running : ∀ i, (v'.cpuBase.clockBase i).running = (v.cpuBase.clockBase i).running
  offset : ∀ i, (v'.cpuBase.clockBase i).offset = (v.cpuBase.clockBase i).offset
  clockWasSetSeq : v'.cpuBase.clockWasSetSeq = v.cpuBase.clockWasSetSeq
  hangDetected : v'.cpuBase.hangDetected = v.cpuBase.hangDetected
  deferredRearm : v'.cpuBase.deferredRearm = v.cpuBase.deferredRearm
  deferredNeedsUpdate :
    v.cpuBase.deferredNeedsUpdate = true → v'.cpuBase.deferredNeedsUpdate = true
  deferredExpiresNext : v'.cpuBase.deferredExpiresNext = v.cpuBase.deferredExpiresNext

theorem Keeps.refl (t : T) (v : Locked T Cpu) : Keeps t v v :=
  ⟨fun _ _ => rfl, rfl, fun _ _ => rfl, fun _ => rfl, fun _ => rfl, rfl, rfl, rfl, id, rfl⟩

theorem Keeps.trans (h : Keeps t v v') (h' : Keeps t v' v'') : Keeps t v v'' where
  timers := fun u hu => (h'.timers u hu).trans (h.timers u hu)
  cpu := h'.cpu.trans h.cpu
  clockBase := fun i hi => (h'.clockBase i hi).trans (h.clockBase i hi)
  running := fun i => (h'.running i).trans (h.running i)
  offset := fun i => (h'.offset i).trans (h.offset i)
  clockWasSetSeq := h'.clockWasSetSeq.trans h.clockWasSetSeq
  hangDetected := h'.hangDetected.trans h.hangDetected
  deferredRearm := h'.deferredRearm.trans h.deferredRearm
  deferredNeedsUpdate := fun hneeds => h'.deferredNeedsUpdate (h.deferredNeedsUpdate hneeds)
  deferredExpiresNext := h'.deferredExpiresNext.trans h.deferredExpiresNext

theorem SameQueues.keeps {b : CpuBase T} (h : SameQueues v.cpuBase b) (t : T) :
    Keeps t v ⟨v.timers, b⟩ where
  timers := fun _ _ => rfl
  cpu := rfl
  clockBase := fun i _ => by rw [h.clockBase]
  running := fun i => by rw [h.clockBase]
  offset := fun i => by rw [h.clockBase]
  clockWasSetSeq := h.clockWasSetSeq
  hangDetected := h.hangDetected
  deferredRearm := h.deferredRearm
  deferredNeedsUpdate := h.deferredNeedsUpdate
  deferredExpiresNext := h.deferredExpiresNext

/-- The base of the timer is written, but for its offset and the running timer. -/
theorem keeps_setBase {timers : T → Timer Cpu} {b : CpuBase T} {base : ClockBase T}
    (htimers : ∀ u, u ≠ t → timers u = v.timers u) (hcpu : (timers t).cpu = (v.timers t).cpu)
    (hb : b = v.cpuBase ∨ (∃ bit, b = v.cpuBase.setActive (index t) bit) ∨
      ∃ active, b = v.cpuBase.clearIfEmpty (index t) active)
    (hrunning : base.running = (v.cpuBase.clockBase (index t)).running)
    (hoffset : base.offset = (v.cpuBase.clockBase (index t)).offset) :
    Keeps t v ⟨timers, b.setBase (index t) base⟩ := by
  have hactive : ∃ active, b = { v.cpuBase with activeBases := active } := by
    rcases hb with rfl | ⟨bit, rfl⟩ | ⟨active, rfl⟩
    · exact ⟨_, rfl⟩
    · exact ⟨_, rfl⟩
    · rw [CpuBase.clearIfEmpty]
      split_ifs
      · exact ⟨_, rfl⟩
      · exact ⟨_, rfl⟩
  obtain ⟨active, rfl⟩ := hactive
  refine ⟨htimers, hcpu, fun i hi => setBase_of_ne _ _ _ hi, fun i => ?_, fun i => ?_,
    rfl, rfl, rfl, id, rfl⟩
  · show (CpuBase.setBase _ (index t) base |>.clockBase i).running = _
    rcases eq_or_ne i (index t) with rfl | hi
    · rw [setBase_self, hrunning]
    · rw [setBase_of_ne _ _ _ hi]
  · show (CpuBase.setBase _ (index t) base |>.clockBase i).offset = _
    rcases eq_or_ne i (index t) with rfl | hi
    · rw [setBase_self, hoffset]
    · rw [setBase_of_ne _ _ _ hi]

end Keeps

theorem keeps_enqueue (v : Locked T Cpu) (t : T) : Keeps t v (enqueueHrtimer v t).1 :=
  keeps_setBase (fun _ hu => setQueued_of_ne _ _ hu) (by rw [setQueued_self])
    (Or.inr (Or.inl ⟨true, rfl⟩)) rfl rfl

theorem keeps_unlink (v : Locked T Cpu) (t : T) (newstate : Bool) :
    Keeps t v (unlinkHrtimer v t newstate).1 := by
  refine keeps_setBase (fun _ hu => setQueued_of_ne _ _ hu) (by rw [setQueued_self])
    (Or.inr (Or.inr ⟨_, rfl⟩)) ?_ ?_ <;> split_ifs <;> rfl

theorem keeps_remove (v : Locked T Cpu) (t : T) (newstate reprogram : Bool) :
    Keeps t v (rawRemoveHrtimer v t newstate reprogram) := by
  have hunlink := keeps_unlink v t newstate
  rw [rawRemoveHrtimer]
  dsimp only
  split_ifs
  · exact .refl t v
  · exact hunlink.trans ((sameQueues_removeReprogram _ t reprogram).keeps t)
  · exact hunlink

theorem keeps_removeAndEnqueue (v : Locked T Cpu) (t : T) (expires delta : Ktime) :
    Keeps t v (removeAndEnqueueSameBase v t expires delta).1 := by
  rw [removeAndEnqueueSameBase]
  split_ifs
  · refine keeps_setBase (fun _ hu => setExpires_of_ne _ _ _ hu) (by rw [setExpires_self])
      (Or.inl rfl) ?_ ?_ <;> split_ifs <;> rfl
  · refine keeps_setBase (fun u hu => ?_) (by rw [setQueued_self, setExpires_self])
      (Or.inr (Or.inl ⟨true, rfl⟩)) ?_ ?_
    · rw [setQueued_of_ne _ _ hu, setExpires_of_ne _ _ _ hu]
    · split_ifs <;> rfl
    · split_ifs <;> rfl

theorem keeps_checkUserTimer (v : Locked T Cpu) (t : T) (now : Ktime) :
    Keeps t v (hrtimerCheckUserTimer v t now).1 := by
  rw [hrtimerCheckUserTimer]
  split_ifs
  · exact .refl t v
  · exact .refl t v
  · exact keeps_remove v t false false

theorem keeps_checkIfUser (v : Locked T Cpu) (t : T) (user : Bool) (now : Ktime) :
    Keeps t v (checkIfUser v t user now).1 := by
  rw [checkIfUser]
  split_ifs
  · exact keeps_checkUserTimer v t now
  · exact .refl t v

theorem keeps_startTail (v : Locked T Cpu) (t : T) (isLocal first wasFirst user : Bool)
    (now : Ktime) : Keeps t v (startTail v t isLocal first wasFirst user now).1 := by
  have hcheck := keeps_checkIfUser v t user now
  rw [startTail]
  split_ifs
  · have hneeds : SameQueues v.cpuBase { v.cpuBase with deferredNeedsUpdate := true } :=
      ⟨rfl, rfl, rfl, rfl, rfl, fun _ => rfl, rfl⟩
    exact hneeds.keeps t
  · exact .refl t v
  · dsimp only
    split_ifs
    · exact hcheck.trans ((sameQueues_reprogram _ t isLocal true).keeps t)
    · exact hcheck
  · exact .refl t v
  · exact hcheck.trans ((sameQueues_forceReprogram _ true).keeps t)

theorem keeps_removeAndSetExpires (v : Locked T Cpu) (t : T) (time delta : Ktime)
    (isLocal : Bool) : Keeps t v (removeAndSetExpires v t time delta isLocal) := by
  have hremove := keeps_remove v t true isLocal
  refine { hremove with
    timers := fun u hu => (setExpires_of_ne _ _ _ hu).trans (hremove.timers u hu)
    cpu := ?_ }
  rw [← hremove.cpu]
  show (hrtimerSetExpiresRangeNs _ t time delta t).cpu = _
  rw [setExpires_self]

theorem keeps_enqueueTail (v : Locked T Cpu) (t : T) (isLocal wasFirst user : Bool) (now : Ktime) :
    Keeps t v (enqueueTail v t isLocal wasFirst user now).1 :=
  (keeps_enqueue v t).trans (keeps_startTail _ t isLocal _ wasFirst user now)

theorem keeps_requeueTail (v : Locked T Cpu) (t : T) (expires delta : Ktime)
    (isLocal wasFirst user : Bool) (now : Ktime) :
    Keeps t v (requeueTail v t expires delta isLocal wasFirst user now).1 :=
  (keeps_removeAndEnqueue v t expires delta).trans
    (keeps_startTail _ t isLocal _ wasFirst user now)

/-! ### The queues -/

section Relink

omit [DecidableEq T]

/-- The queues of a CPU hold the timers that are queued there, except for `out`, which is on its
way from one base to another. -/
structure Queues (c : Cpu) (out : Option T) (v : Locked T Cpu) : Prop where
  mem_active : ∀ i t, t ∈ (v.cpuBase.clockBase i).active ↔
    (v.timers t).isQueued = true ∧ (v.timers t).cpu = some c ∧ index t = i ∧ out ≠ some t
  nodup : ∀ i, (v.cpuBase.clockBase i).active.Nodup
  activeBases : ∀ i, v.cpuBase.activeBases i = true ↔ (v.cpuBase.clockBase i).active ≠ []

theorem Queues.of_sameQueues {b : CpuBase T} (h : Queues c out v)
    (hsame : SameQueues v.cpuBase b) : Queues c out ⟨v.timers, b⟩ where
  mem_active := by
    rw [hsame.clockBase]
    exact h.mem_active
  nodup := by
    rw [hsame.clockBase]
    exact h.nodup
  activeBases := by
    rw [hsame.clockBase, hsame.activeBases]
    exact h.activeBases

/-- Fields that the queues do not depend on are written. -/
theorem Queues.congr (h : Queues c out v) {timers : T → Timer Cpu}
    (hqueued : ∀ u, (timers u).isQueued = (v.timers u).isQueued)
    (hcpu : ∀ u, (timers u).cpu = (v.timers u).cpu) : Queues c out ⟨timers, v.cpuBase⟩ where
  mem_active := by
    intro i u
    show u ∈ (v.cpuBase.clockBase i).active ↔
      (timers u).isQueued = true ∧ (timers u).cpu = some c ∧ index u = i ∧ out ≠ some u
    rw [h.mem_active i u, hqueued, hcpu]
  nodup := h.nodup
  activeBases := h.activeBases

/-- A timer that is not queued here does not matter. -/
theorem Queues.of_ne (h : Queues c out v) {timers : T → Timer Cpu}
    (htimers : ∀ u, u ≠ t → timers u = v.timers u)
    (ht : (v.timers t).isQueued = true → (v.timers t).cpu = some c → out = some t)
    (ht' : (timers t).isQueued = true → (timers t).cpu = some c → out' = some t)
    (hout : ∀ u, u ≠ t → (out' = some u ↔ out = some u)) : Queues c out' ⟨timers, v.cpuBase⟩ where
  mem_active := by
    intro i u
    show u ∈ (v.cpuBase.clockBase i).active ↔
      (timers u).isQueued = true ∧ (timers u).cpu = some c ∧ index u = i ∧ out' ≠ some u
    rw [h.mem_active i u]
    rcases eq_or_ne u t with rfl | hu
    · constructor
      · rintro ⟨hq, hc, -, hout⟩
        exact absurd (ht hq hc) hout
      · rintro ⟨hq, hc, -, hout⟩
        exact absurd (ht' hq hc) hout
    · rw [htimers u hu, ne_eq, ne_eq, hout u hu]
  nodup := h.nodup
  activeBases := h.activeBases

/-- The base of a timer is written, with its bit. -/
theorem Queues.relink (h : Queues c out v) {timers : T → Timer Cpu} {b : CpuBase T}
    {base : ClockBase T} (htimers : ∀ u, u ≠ t → timers u = v.timers u)
    (hbase : b.clockBase = v.cpuBase.clockBase)
    (hbits : ∀ i, i ≠ index t → b.activeBases i = v.cpuBase.activeBases i)
    (hbit : b.activeBases (index t) = true ↔ base.active ≠ []) (hnodup : base.active.Nodup)
    (hmem : ∀ u, u ≠ t → (u ∈ base.active ↔ u ∈ (v.cpuBase.clockBase (index t)).active))
    (ht : t ∈ base.active ↔
      (timers t).isQueued = true ∧ (timers t).cpu = some c ∧ out' ≠ some t)
    (hout : ∀ u, u ≠ t → (out' = some u ↔ out = some u)) :
    Queues c out' ⟨timers, b.setBase (index t) base⟩ where
  mem_active := by
    intro i u
    show u ∈ ((b.setBase (index t) base).clockBase i).active ↔
      (timers u).isQueued = true ∧ (timers u).cpu = some c ∧ index u = i ∧ out' ≠ some u
    rcases eq_or_ne i (index t) with rfl | hi
    · rw [setBase_self]
      rcases eq_or_ne u t with rfl | hu
      · rw [ht]
        exact ⟨fun ⟨hq, hc, ho⟩ => ⟨hq, hc, rfl, ho⟩, fun ⟨hq, hc, _, ho⟩ => ⟨hq, hc, ho⟩⟩
      · rw [hmem u hu, h.mem_active, htimers u hu, ne_eq, ne_eq, hout u hu]
    · rw [setBase_of_ne _ _ _ hi, hbase, h.mem_active]
      rcases eq_or_ne u t with rfl | hu
      · exact ⟨fun ht => absurd ht.2.2.1.symm hi, fun ht => absurd ht.2.2.1.symm hi⟩
      · rw [htimers u hu, ne_eq, ne_eq, hout u hu]
  nodup := by
    intro i
    show ((b.setBase (index t) base).clockBase i).active.Nodup
    rcases eq_or_ne i (index t) with rfl | hi
    · rwa [setBase_self]
    · rw [setBase_of_ne _ _ _ hi, hbase]
      exact h.nodup i
  activeBases := by
    intro i
    show b.activeBases i = true ↔ ((b.setBase (index t) base).clockBase i).active ≠ []
    rcases eq_or_ne i (index t) with rfl | hi
    · rwa [setBase_self]
    · rw [setBase_of_ne _ _ _ hi, hbase, hbits i hi]
      exact h.activeBases i

omit [Setup T] in
/-- For another timer it makes no difference whether this one is in a queue. -/
theorem out_iff (hu : u ≠ t) : some t = some u ↔ (none : Option T) = some u :=
  ⟨fun ho => absurd (Option.some.inj ho).symm hu, nofun⟩

/-- A timer whose flag is not set is in no queue. -/
theorem Queues.idle (h : Queues c none v) (hq : (v.timers t).isQueued = false) :
    Queues c (some t) v := by
  refine h.of_ne (fun _ _ => rfl) (fun hq' => ?_) (fun _ _ => rfl) fun _ hu => out_iff hu
  rw [hq] at hq'
  cases hq'

end Relink

/-- A timer that is in no queue joins the one of its base. -/
theorem Queues.enqueue (h : Queues c (some t) v) (hcpu : (v.timers t).cpu = some c) :
    Queues c none (enqueueHrtimer v t).1 := by
  have hnot : t ∉ (v.cpuBase.clockBase (index t)).active :=
    fun hmem => ((h.mem_active _ t).mp hmem).2.2.2 rfl
  refine h.relink (fun u hu => setQueued_of_ne _ _ hu) rfl ?_ ?_ ?_ ?_ ?_ ?_
  · intro i hi
    exact setActive_of_ne _ _ _ hi
  · exact ⟨fun _ => insertBehind_ne_nil, fun _ => setActive_self _ _ _⟩
  · exact nodup_insertBehind hnot (h.nodup _)
  · intro u hu
    show u ∈ insertBehind _ t _ ↔ _
    rw [mem_insertBehind]
    exact or_iff_right hu
  · show t ∈ insertBehind _ t _ ↔ _
    rw [mem_insertBehind, setQueued_self]
    exact ⟨fun _ => ⟨rfl, hcpu, nofun⟩, fun _ => Or.inl rfl⟩
  · intro u hu
    exact (out_iff hu).symm

theorem Queues.unlink (h : Queues c none v) (t : T) (newstate : Bool) :
    Queues c (some t) (unlinkHrtimer v t newstate).1 := by
  have hnodup := h.nodup (index t)
  have hactive (timers : T → Timer Cpu) (base : ClockBase T) (wasFirst : Bool) :
      (if wasFirst then baseUpdateNextTimer timers base else base).active = base.active := by
    split_ifs <;> rfl
  refine h.relink (fun u hu => setQueued_of_ne _ _ hu) ?_ ?_ ?_ ?_ ?_ ?_ fun u hu => out_iff hu
  · exact clockBase_clearIfEmpty _ _ _
  · intro i hi
    exact clearIfEmpty_of_ne _ _ _ hi
  · rw [hactive]
    exact clearIfEmpty_self _ _ _ (h.activeBases _) List.erase_sublist
  · rw [hactive]
    exact hnodup.erase t
  · intro u hu
    rw [hactive]
    exact List.mem_erase_of_ne hu
  · rw [hactive]
    exact ⟨fun hmem => absurd hmem hnodup.not_mem_erase, fun ht => absurd rfl ht.2.2⟩

/-- A timer leaves its queue. -/
theorem Queues.remove (h : Queues c none v) (t : T) (newstate reprogram : Bool) :
    Queues c (some t) (rawRemoveHrtimer v t newstate reprogram) := by
  have hunlink := h.unlink t newstate
  rw [rawRemoveHrtimer]
  dsimp only
  split_ifs with hqueued
  · exact h.idle (by simpa using hqueued)
  · exact hunlink.of_sameQueues (sameQueues_removeReprogram _ t reprogram)
  · exact hunlink

omit [DecidableEq T] in
/-- After that it is queued nowhere, unless its flag says so. -/
theorem Queues.settle (h : Queues c (some t) v)
    (ht : (v.timers t).isQueued = true → (v.timers t).cpu ≠ some c) : Queues c none v :=
  h.of_ne (fun _ _ => rfl) (fun _ _ => rfl) (fun hq hc => absurd hc (ht hq))
    fun _ hu => (out_iff hu).symm

theorem isQueued_remove (v : Locked T Cpu) (t : T) (newstate reprogram : Bool) :
    ((rawRemoveHrtimer v t newstate reprogram).timers t).isQueued =
      ((v.timers t).isQueued && newstate) := by
  rw [rawRemoveHrtimer]
  split_ifs with hqueued
  · have hq : (v.timers t).isQueued = false := by simpa using hqueued
    rw [hq, Bool.false_and]
  · have hq : (v.timers t).isQueued = true := by simpa using hqueued
    show (setQueued v.timers t newstate t).isQueued = _
    rw [hq, Bool.true_and, setQueued_self]

/-- A timer leaves its queue for good. -/
theorem Queues.deactivate (h : Queues c none v) (t : T) (reprogram : Bool) :
    Queues c none (rawRemoveHrtimer v t false reprogram) := by
  refine (h.remove t false reprogram).settle fun hq => ?_
  rw [isQueued_remove, Bool.and_false] at hq
  cases hq

/-- What is left of its queue without the timer, whether or not it is queued. -/
theorem Queues.mem_rest (h : Queues c out v) (t u : T) :
    u ∈ (if (v.timers t).isQueued then (v.cpuBase.clockBase (index t)).active.erase t
        else (v.cpuBase.clockBase (index t)).active) ↔
      u ≠ t ∧ u ∈ (v.cpuBase.clockBase (index t)).active := by
  split_ifs with hq
  · exact (h.nodup (index t)).mem_erase_iff
  · refine ⟨fun hu => ⟨?_, hu⟩, fun hu => hu.2⟩
    rintro rfl
    exact hq ((h.mem_active (index u) u).mp hu).1

/-- The queue is not touched. -/
theorem Queues.updateInPlace (h : Queues c none v) (t : T) (expires delta : Ktime) :
    Queues c none (updateInPlace v t expires delta).1 := by
  have hactive (base : ClockBase T) (wasFirst : Bool) :
      (if wasFirst then { base with expiresNext := expires } else base).active = base.active := by
    split_ifs <;> rfl
  refine h.relink (fun _ hu => setExpires_of_ne _ _ _ hu) rfl (fun _ _ => rfl) ?_ ?_ ?_ ?_
    fun _ _ => Iff.rfl
  · rw [hactive]
    exact h.activeBases _
  · rw [hactive]
    exact h.nodup (index t)
  · intro u _
    rw [hactive]
  · rw [hactive, h.mem_active, setExpires_self]
    exact ⟨fun ⟨hq, hc, _, ho⟩ => ⟨hq, hc, ho⟩, fun ⟨hq, hc, ho⟩ => ⟨hq, hc, rfl, ho⟩⟩

/-- The timer leaves its queue, if it is in one, and is queued again. -/
theorem Queues.requeue (h : Queues c none v) (t : T) (hcpu : (v.timers t).cpu = some c)
    (expires delta : Ktime) : Queues c none (requeue v t expires delta).1 := by
  have hactive (timers : T → Timer Cpu) (base : ClockBase T) (first wasFirst : Bool) :
      (if first then { base with expiresNext := expires }
        else if wasFirst then baseUpdateNextTimer timers base else base).active = base.active := by
    split_ifs <;> rfl
  refine h.relink ?_ rfl ?_ ?_ ?_ ?_ ?_ fun _ _ => Iff.rfl
  · intro u hu
    rw [setQueued_of_ne _ _ hu, setExpires_of_ne _ _ _ hu]
  · intro i hi
    exact setActive_of_ne _ _ _ hi
  · rw [hactive]
    exact ⟨fun _ => insertBehind_ne_nil, fun _ => setActive_self _ _ _⟩
  · rw [hactive]
    refine nodup_insertBehind (fun ht => ((h.mem_rest t t).mp ht).1 rfl) ?_
    split_ifs
    · exact (h.nodup (index t)).erase t
    · exact h.nodup (index t)
  · intro u hu
    rw [hactive]
    show u ∈ insertBehind _ t _ ↔ _
    rw [mem_insertBehind, h.mem_rest, or_iff_right hu, and_iff_right hu]
  · rw [hactive, setQueued_self, setExpires_self]
    exact ⟨fun _ => ⟨rfl, hcpu, nofun⟩, fun _ => mem_insertBehind.mpr (Or.inl rfl)⟩

theorem Queues.removeAndEnqueue (h : Queues c none v) (t : T) (hcpu : (v.timers t).cpu = some c)
    (expires delta : Ktime) : Queues c none (removeAndEnqueueSameBase v t expires delta).1 := by
  rw [removeAndEnqueueSameBase]
  split_ifs
  · exact h.updateInPlace t expires delta
  · exact h.requeue t hcpu expires delta

theorem Queues.checkUserTimer (h : Queues c none v) (t : T) (now : Ktime) :
    Queues c none (hrtimerCheckUserTimer v t now).1 := by
  rw [hrtimerCheckUserTimer]
  split_ifs
  · exact h
  · exact h
  · exact h.deactivate t false

theorem Queues.checkIfUser (h : Queues c none v) (t : T) (user : Bool) (now : Ktime) :
    Queues c none (checkIfUser v t user now).1 := by
  rw [Hrtimer.checkIfUser]
  split_ifs
  · exact h.checkUserTimer t now
  · exact h

theorem Queues.startTail (h : Queues c none v) (t : T) (isLocal first wasFirst user : Bool)
    (now : Ktime) : Queues c none (startTail v t isLocal first wasFirst user now).1 := by
  have hcheck := h.checkIfUser t user now
  rw [Hrtimer.startTail]
  split_ifs
  · exact ⟨h.mem_active, h.nodup, h.activeBases⟩
  · exact h
  · dsimp only
    split_ifs
    · exact hcheck.of_sameQueues (sameQueues_reprogram _ t isLocal true)
    · exact hcheck
  · exact h
  · exact hcheck.of_sameQueues (sameQueues_forceReprogram _ true)

theorem Queues.removeAndSetExpires (h : Queues c none v) (t : T) (time delta : Ktime)
    (isLocal : Bool) : Queues c (some t) (removeAndSetExpires v t time delta isLocal) :=
  (h.remove t true isLocal).of_ne (fun _ hu => setExpires_of_ne _ _ _ hu) (fun _ _ => rfl)
    (fun _ _ => rfl) fun _ _ => Iff.rfl

theorem Queues.enqueueTail (h : Queues c (some t) v) (hcpu : (v.timers t).cpu = some c)
    (isLocal wasFirst user : Bool) (now : Ktime) :
    Queues c none (enqueueTail v t isLocal wasFirst user now).1 :=
  (h.enqueue hcpu).startTail t isLocal _ wasFirst user now

theorem Queues.requeueTail (h : Queues c none v) (hcpu : (v.timers t).cpu = some c)
    (expires delta : Ktime) (isLocal wasFirst user : Bool) (now : Ktime) :
    Queues c none (requeueTail v t expires delta isLocal wasFirst user now).1 :=
  (h.removeAndEnqueue t hcpu expires delta).startTail t isLocal _ wasFirst user now

end Hrtimer

end HrtimerStudy
