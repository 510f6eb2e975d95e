import HrtimerStudy.Hrtimer.Machine
import HrtimerStudy.Hrtimer.Sorted
import Mathlib.Order.MinMax

/-!
# The device of a CPU

The clock-event device of a CPU is programmed for a time that is not later than the expiry of any
timer in its queues, as the base sees it. There are exceptions: after a hang, while an interrupt
expires timers, and while a retrigger is on its way. What the functions under the lock of the base
do to that is said here; the bases in question are some of the hard ones, `w`.

## Main definitions

* `Covered` — a time is not later than the expiry of the timers in some queues
* `Lowers` — what `hrtimer_reprogram` does
* `Armed` — the invariant of one base

## Main results

* `covered_updateNextEvent` — `hrtimer_update_next_event` covers all hard timers
* `Armed.remove`, `Armed.startTail` — removing and starting a timer keep the device armed
-/

namespace HrtimerStudy

namespace Hrtimer

open Setup (index isLazy)

variable {T Cpu : Type*}

/-! ### The next event -/

section NextEvent

variable (b : CpuBase T)

theorem basesFirst_le (bases : List BaseType) (first : Ktime × Option T) :
    (hrtimerBasesFirst b bases first).1 ≤ first.1 ∧ ∀ i ∈ bases, b.activeBases i = true →
      (hrtimerBasesFirst b bases first).1 ≤
        (b.clockBase i).expiresNext - (b.clockBase i).offset := by
  induction bases generalizing first with
  | nil => exact ⟨le_rfl, nofun⟩
  | cons i bases ih =>
    cases hactive : b.activeBases i with
    | false =>
      have hskip : hrtimerBasesFirst b (i :: bases) first = hrtimerBasesFirst b bases first := by
        rw [hrtimerBasesFirst, List.filter_cons_of_neg (by simp [hactive]), hrtimerBasesFirst]
      rw [hskip]
      refine ⟨(ih first).1, fun j hj hactive' => ?_⟩
      rcases List.mem_cons.mp hj with rfl | hj
      · rw [hactive] at hactive'
        cases hactive'
      · exact (ih first).2 j hj hactive'
    | true =>
      set event := (b.clockBase i).expiresNext - (b.clockBase i).offset with hevent
      have htake : hrtimerBasesFirst b (i :: bases) first = hrtimerBasesFirst b bases
          (if event < first.1 then (event, (b.clockBase i).first) else first) := by
        rw [hrtimerBasesFirst, List.filter_cons_of_pos hactive, hrtimerBasesFirst]
        rfl
      have hboth : (if event < first.1 then (event, (b.clockBase i).first) else first).1 ≤ event ∧
          (if event < first.1 then (event, (b.clockBase i).first) else first).1 ≤ first.1 := by
        split_ifs with hlt
        · exact ⟨le_rfl, hlt.le⟩
        · exact ⟨not_lt.mp hlt, le_rfl⟩
      rw [htake]
      obtain ⟨hle, hall⟩ := ih (if event < first.1 then (event, (b.clockBase i).first) else first)
      refine ⟨hle.trans hboth.2, fun j hj hactive' => ?_⟩
      rcases List.mem_cons.mp hj with rfl | hj
      · exact hle.trans hboth.1
      · exact hall j hj hactive'

/-- The next event is not later than that of any active hard base. -/
theorem updateNextEvent_le {i : BaseType} (hi : i ∈ hardBases) (hactive : b.activeBases i = true) :
    (hrtimerUpdateNextEvent b).1 ≤
      max ((b.clockBase i).expiresNext - (b.clockBase i).offset) 0 := by
  have hhard (b' : CpuBase T) (hbase : b'.clockBase = b.clockBase)
      (hbits : b'.activeBases = b.activeBases) : (rawHrtimerGetNextEventHard b').1 ≤
        max ((b.clockBase i).expiresNext - (b.clockBase i).offset) 0 := by
    rw [← hbase]
    exact max_le_max ((basesFirst_le b' hardBases _).2 i hi (hbits ▸ hactive)) le_rfl
  rw [hrtimerUpdateNextEvent]
  dsimp only
  split_ifs with hsoft hlater hlater
  · exact hlater.le.trans (hhard b rfl rfl)
  · exact hhard b rfl rfl
  · refine hlater.le.trans (hhard _ ?_ ?_) <;> rw [rawHrtimerGetNextEventSoft, if_neg hsoft]
  · refine hhard _ ?_ ?_ <;> rw [rawHrtimerGetNextEventSoft, if_neg hsoft]

/-- `hrtimer_update_next_event` does not touch the device. -/
theorem expiresNext_updateNextEvent :
    (hrtimerUpdateNextEvent b).2.expiresNext = b.expiresNext ∧
      (hrtimerUpdateNextEvent b).2.device = b.device := by
  simp only [hrtimerUpdateNextEvent, rawHrtimerGetNextEventHard, rawHrtimerGetNextEventSoft]
  split_ifs <;> exact ⟨rfl, rfl⟩

end NextEvent

/-! ### Covered timers -/

/-- The expiry of a timer in a queue, for the device. -/
def ClockBase.due (timers : T → Timer Cpu) (base : ClockBase T) (t : T) : Ktime :=
  max ((timers t).expires - base.offset) 0

/-- `e` is not later than the expiry of any timer in some queues, except for `x`. -/
def Covered (w : List BaseType) (x : Option T) (v : Locked T Cpu) (e : Ktime) : Prop :=
  ∀ i ∈ w, ∀ t ∈ (v.cpuBase.clockBase i).active, x ≠ some t →
    e ≤ (v.cpuBase.clockBase i).due v.timers t

section Covering

variable {w : List BaseType} {x x' : Option T} {v v' : Locked T Cpu} {e e' : Ktime} {t : T}
variable {c : Cpu} {out out' : Option T}

theorem Covered.mono (h : Covered w x v e) (he : e' ≤ e) : Covered w x v e' :=
  fun i hi t ht hx => he.trans (h i hi t ht hx)

/-- The queues and their timers are as before. -/
theorem Covered.congr (h : Covered w x v e)
    (hactive : ∀ i ∈ w, (v'.cpuBase.clockBase i).active = (v.cpuBase.clockBase i).active)
    (hoffset : ∀ i ∈ w, (v'.cpuBase.clockBase i).offset = (v.cpuBase.clockBase i).offset)
    (hexpires : ∀ i ∈ w, ∀ t ∈ (v.cpuBase.clockBase i).active,
      (v'.timers t).expires = (v.timers t).expires) : Covered w x v' e := by
  intro i hi t ht hx
  rw [hactive i hi] at ht
  rw [ClockBase.due, hoffset i hi, hexpires i hi t ht]
  exact h i hi t ht hx

theorem Covered.of_sameQueues (h : Covered w x v e) {b : CpuBase T}
    (hsame : SameQueues v.cpuBase b) : Covered w x ⟨v.timers, b⟩ e := by
  intro i hi t ht hx
  rw [hsame.clockBase] at ht ⊢
  exact h i hi t ht hx

variable [Setup T]

/-- The queue of one timer is written. -/
theorem Covered.relink (h : Covered w x v e) (hqueues : Queues c out v)
    (hqueues' : Queues c out' v') (hout : ∀ u, u ≠ t → (out' = some u ↔ out = some u))
    (hkeeps : Keeps t v v')
    (hx : ∀ u, u ≠ t → x' ≠ some u → x ≠ some u)
    (ht : t ∈ (v'.cpuBase.clockBase (index t)).active → x' = some t) : Covered w x' v' e := by
  intro i hi u hu hxu
  obtain ⟨hq, hcpu, rfl, ho⟩ := (hqueues'.mem_active i u).mp hu
  have hut : u ≠ t := by
    rintro rfl
    exact hxu (ht hu)
  rw [hkeeps.timers u hut] at hq hcpu
  have hold : u ∈ (v.cpuBase.clockBase (index u)).active :=
    (hqueues.mem_active _ u).mpr ⟨hq, hcpu, rfl, fun ho' => ho ((hout u hut).mpr ho')⟩
  rw [ClockBase.due, hkeeps.offset, hkeeps.timers u hut]
  exact h _ hi u hold (hx u hut hxu)

/-- **`hrtimer_update_next_event` covers all hard timers.** -/
theorem covered_updateNextEvent (hw : w ⊆ hardBases) (hsorted : SortedOn w v)
    (hqueues : Queues c out v) : Covered w none v (hrtimerUpdateNextEvent v.cpuBase).1 := by
  intro i hi t ht _
  have hactive : v.cpuBase.activeBases i = true :=
    (hqueues.activeBases i).mpr (List.ne_nil_of_mem ht)
  have hcache := (hsorted i hi).expiresNext t ht
  exact (updateNextEvent_le v.cpuBase (hw hi) hactive).trans
    (max_le_max (Int.sub_le_sub_right hcache _) le_rfl)

/-- One more timer is covered. -/
theorem Covered.add (h : Covered w (some t) v e) (hqueues : Queues c out v)
    (ht : index t ∈ w → t ∈ (v.cpuBase.clockBase (index t)).active →
      e ≤ (v.cpuBase.clockBase (index t)).due v.timers t) : Covered w none v e := by
  intro i hi u hu _
  by_cases hut : t = u
  · subst hut
    obtain rfl := ((hqueues.mem_active i t).mp hu).2.2.1
    exact ht hi hu
  · exact h i hi u hu fun ht => hut (Option.some.inj ht)

/-- A timer that is behind the first one of its queue is covered with that one. -/
theorem Covered.behind (h : Covered w (some t) v e) (hsorted : SortedOn w v)
    (hqueues : Queues c out v) (hfirst : (v.cpuBase.clockBase (index t)).first ≠ some t) :
    Covered w none v e := by
  refine h.add hqueues fun hi ht => ?_
  cases hhead : (v.cpuBase.clockBase (index t)).first with
  | none =>
    rw [List.head?_eq_none_iff.mp hhead] at ht
    cases ht
  | some a =>
    have hat : t ≠ a := by
      rintro rfl
      exact hfirst hhead
    have hle : (v.timers a).expires ≤ (v.timers t).expires :=
      (hsorted _ hi).ordered.head?_le hhead ht
    exact (h _ hi a (List.mem_of_mem_head? hhead) fun ha => hat (Option.some.inj ha)).trans
      (max_le_max (Int.sub_le_sub_right hle _) le_rfl)

end Covering

/-! ### Programming the device -/

/-- The next event only moves ahead, and the device with it. -/
structure Lowers (b b' : CpuBase T) : Prop where
  same : SameQueues b b'
  expiresNext : b'.expiresNext ≤ b.expiresNext
  device : b.hangDetected = false → b.device = b.expiresNext → b'.device = b'.expiresNext
  hang : b.hangDetected = true → b'.device = b.device

section Lowers

variable {b b' b'' : CpuBase T}

theorem Lowers.refl (b : CpuBase T) : Lowers b b := ⟨.refl b, le_rfl, fun _ hd => hd, fun _ => rfl⟩

theorem Lowers.trans (h : Lowers b b') (h' : Lowers b' b'') : Lowers b b'' where
  same := h.same.trans h'.same
  expiresNext := h'.expiresNext.trans h.expiresNext
  device := fun hhang hdevice =>
    h'.device (h.same.hangDetected.trans hhang) (h.device hhang hdevice)
  hang := fun hhang => (h'.hang (h.same.hangDetected.trans hhang)).trans (h.hang hhang)

/-- Neither the next event nor the device is written. -/
theorem SameQueues.lowers (h : SameQueues b b') (hnext : b'.expiresNext = b.expiresNext)
    (hdevice : b'.device = b.device) : Lowers b b' :=
  ⟨h, hnext.le, fun _ hd => (hdevice.trans hd).trans hnext.symm, fun _ => hdevice⟩

theorem lowers_reprogramLocal (b : CpuBase T) (t : T) (e : Ktime) (isLocal : Bool) :
    Lowers b (reprogramLocal b t e isLocal) := by
  have hsame := sameQueues_reprogramLocal b t e isLocal
  rw [reprogramLocal] at hsame ⊢
  split_ifs at hsame ⊢ with _ hlate
  · exact hsame.lowers rfl rfl
  · exact hsame.lowers rfl rfl
  · exact hsame.lowers rfl rfl
  · refine ⟨hsame, (not_le.mp hlate).le, fun hhang _ => ?_, fun hhang => ?_⟩
    · simp [rawHrtimerReprogram, hhang]
    · simp [rawHrtimerReprogram, hhang]

variable [Setup T]

theorem lowers_reprogram (v : Locked T Cpu) (t : T) (isLocal reprogram : Bool) :
    Lowers v.cpuBase (hrtimerReprogram v t isLocal reprogram) := by
  have hwrite (e : Ktime) : Lowers v.cpuBase
      { v.cpuBase with softirqNextTimer := some t, softirqExpiresNext := e } :=
    ⟨⟨rfl, rfl, rfl, rfl, rfl, id, rfl⟩, le_rfl, fun _ hd => hd, fun _ => rfl⟩
  rw [hrtimerReprogram]
  dsimp only
  split_ifs
  · exact .refl _
  · exact hwrite _
  · exact (hwrite _).trans (lowers_reprogramLocal _ _ _ _)
  · exact .refl _
  · exact lowers_reprogramLocal _ _ _ _

theorem lowers_updateSoftirqTimer (v : Locked T Cpu) (reprogram : Bool) :
    Lowers v.cpuBase (hrtimerUpdateSoftirqTimer v reprogram) := by
  have hsoft : Lowers v.cpuBase (rawHrtimerGetNextEventSoft v.cpuBase).2 := by
    refine (sameQueues_getNextEventSoft v.cpuBase).lowers ?_ ?_ <;>
      rw [rawHrtimerGetNextEventSoft] <;> split_ifs <;> rfl
  rw [hrtimerUpdateSoftirqTimer]
  dsimp only
  split_ifs
  · exact hsoft
  · split
    · exact hsoft.trans (lowers_reprogram ⟨v.timers, _⟩ _ true reprogram)
    · exact hsoft

/-- A hard timer is covered when `hrtimer_reprogram` has been called for it. -/
theorem reprogram_le (v : Locked T Cpu) {t : T} (ht : (index t).isSoft = false)
    (hdeferred : v.cpuBase.deferredRearm = false) :
    (hrtimerReprogram v t true true).expiresNext ≤
      (v.cpuBase.clockBase (index t)).due v.timers t := by
  rw [hrtimerReprogram]
  dsimp only
  rw [if_neg (by simp [ht]), reprogramLocal]
  split_ifs with hlocal hlate hdef
  · cases hlocal
  · exact hlate
  · rw [hdeferred] at hdef
    cases hdef
  · exact le_rfl

end Lowers

/-! ### The invariant -/

/-- The device of a CPU at time `now`, with `ipi` for a retrigger that is on its way and `busy` for
an interrupt that expires timers. The timer `x` may be too early. -/
structure Armed (w : List BaseType) (x : Option T) (now : Ktime) (ipi busy : Bool)
    (v : Locked T Cpu) : Prop where
  running : busy = true → v.cpuBase.deferredRearm = true
  device : v.cpuBase.deferredRearm = false → v.cpuBase.hangDetected = false →
    v.cpuBase.device = v.cpuBase.expiresNext
  hang : v.cpuBase.deferredRearm = false → v.cpuBase.hangDetected = true →
    v.cpuBase.device ≤ now + 100000000
  covered : v.cpuBase.deferredRearm = false → ipi = false → Covered w x v v.cpuBase.expiresNext
  deferred : v.cpuBase.deferredRearm = true → busy = false →
    v.cpuBase.deferredNeedsUpdate = false → Covered w x v v.cpuBase.deferredExpiresNext

section Armed

variable {w : List BaseType} {x x' : Option T} {now : Ktime} {ipi busy : Bool} {t : T} {c : Cpu}
variable {out out' : Option T} {v v' : Locked T Cpu}

/-- The timers in the queues keep their expiry. -/
theorem Armed.congr (h : Armed w x now ipi busy v) {timers : T → Timer Cpu}
    (hexpires : ∀ i, ∀ t ∈ (v.cpuBase.clockBase i).active,
      (timers t).expires = (v.timers t).expires) : Armed w x now ipi busy ⟨timers, v.cpuBase⟩ where
  running := h.running
  device := h.device
  hang := h.hang
  covered := fun hd hi =>
    (h.covered hd hi).congr (fun _ _ => rfl) (fun _ _ => rfl) fun i _ => hexpires i
  deferred := fun hd hb hn =>
    (h.deferred hd hb hn).congr (fun _ _ => rfl) (fun _ _ => rfl) fun i _ => hexpires i

/-- The next event and the device are written. -/
theorem Armed.event (h : Armed w x now ipi busy v) {b : CpuBase T} (hsame : SameQueues v.cpuBase b)
    {ipi' : Bool} (hdevice : v.cpuBase.deferredRearm = false → v.cpuBase.hangDetected = false →
      b.device = b.expiresNext)
    (hhang : v.cpuBase.hangDetected = true → b.device = v.cpuBase.device)
    (hcovered : v.cpuBase.deferredRearm = false → ipi' = false → Covered w x' v b.expiresNext)
    (hdeferred : v.cpuBase.deferredRearm = true → ∀ e, Covered w x v e → Covered w x' v e) :
    Armed w x' now ipi' busy ⟨v.timers, b⟩ where
  running := fun hb => hsame.deferredRearm.trans (h.running hb)
  device := fun hd hh =>
    hdevice (hsame.deferredRearm.symm.trans hd) (hsame.hangDetected.symm.trans hh)
  hang := fun hd hh => by
    have hhang' := hsame.hangDetected.symm.trans hh
    exact (hhang hhang').trans_le (h.hang (hsame.deferredRearm.symm.trans hd) hhang')
  covered := fun hd hi =>
    (hcovered (hsame.deferredRearm.symm.trans hd) hi).of_sameQueues hsame
  deferred := fun hd hb hn => by
    have hd' := hsame.deferredRearm.symm.trans hd
    have hn' : v.cpuBase.deferredNeedsUpdate = false := by
      by_contra hne
      rw [hsame.deferredNeedsUpdate (Bool.eq_true_of_not_eq_false hne)] at hn
      cases hn
    have hc := hdeferred hd' _ (h.deferred hd' hb hn')
    rw [← hsame.deferredExpiresNext] at hc
    exact hc.of_sameQueues hsame

/-- The next event moves ahead. -/
theorem Armed.lowers (h : Armed w x now ipi busy v) {b : CpuBase T} (hb : Lowers v.cpuBase b) :
    Armed w x now ipi busy ⟨v.timers, b⟩ :=
  h.event hb.same (fun hd hh => hb.device hh (h.device hd hh)) hb.hang
    (fun hd hi => (h.covered hd hi).mono hb.expiresNext) fun _ _ hc => hc

/-- The device is programmed anew for all hard timers. -/
theorem Armed.force [Setup T] (h : Armed w x now ipi busy v) (hw : w ⊆ hardBases)
    (hsorted : SortedOn w v) (hqueues : Queues c out v) (skipEqual ipi' : Bool)
    (hx : v.cpuBase.deferredRearm = true → x = none) :
    Armed w none now ipi' busy ⟨v.timers, hrtimerForceReprogram v.cpuBase skipEqual⟩ := by
  have hcovered := covered_updateNextEvent hw hsorted hqueues
  have hsame := sameQueues_forceReprogram v.cpuBase skipEqual
  obtain ⟨hnext, hdev⟩ := expiresNext_updateNextEvent v.cpuBase
  have hhangs := (sameQueues_updateNextEvent v.cpuBase).hangDetected
  have hold : v.cpuBase.deferredRearm = true → ∀ e, Covered w x v e → Covered w none v e := by
    intro hd e hc
    rwa [hx hd] at hc
  rw [hrtimerForceReprogram] at hsame ⊢
  dsimp only at hsame ⊢
  split_ifs at hsame ⊢ with hequal
  · -- the device is programmed for this time already
    have heq := of_decide_eq_true (Bool.and_eq_true_iff.mp hequal).2
    refine h.event hsame (fun hd hh => ?_) (fun _ => hdev) (fun _ _ => ?_) hold
    · rw [hdev, hnext]
      exact h.device hd hh
    · rwa [← heq]
  · refine h.event hsame (fun _ hh => ?_) (fun hh => ?_) (fun _ _ => hcovered) hold
    · simp [rawHrtimerReprogram, hhangs, hh]
    · simp [rawHrtimerReprogram, hhangs, hh, hdev]

variable [Setup T]

/-- The queue of one timer is written. -/
theorem Armed.relink (h : Armed w x now ipi busy v) (hqueues : Queues c out v)
    (hqueues' : Queues c out' v') (hout : ∀ u, u ≠ t → (out' = some u ↔ out = some u))
    (hkeeps : Keeps t v v') (hnext : v'.cpuBase.expiresNext = v.cpuBase.expiresNext)
    (hdevice : v'.cpuBase.device = v.cpuBase.device)
    (hx : ∀ u, u ≠ t → x' ≠ some u → x ≠ some u)
    (ht : t ∈ (v'.cpuBase.clockBase (index t)).active → x' = some t) :
    Armed w x' now ipi busy v' := by
  have hcover {e : Ktime} (hc : Covered w x v e) : Covered w x' v' e :=
    hc.relink hqueues hqueues' hout hkeeps hx ht
  refine ⟨?_, ?_, ?_, ?_, ?_⟩
  · rw [hkeeps.deferredRearm]
    exact h.running
  · rw [hkeeps.deferredRearm, hkeeps.hangDetected, hnext, hdevice]
    exact h.device
  · rw [hkeeps.deferredRearm, hkeeps.hangDetected, hdevice]
    exact h.hang
  · rw [hkeeps.deferredRearm, hnext]
    exact fun hd hi => hcover (h.covered hd hi)
  · rw [hkeeps.deferredRearm, hkeeps.deferredExpiresNext]
    intro hd hb hn
    have hn' : v.cpuBase.deferredNeedsUpdate = false := by
      by_contra hne
      rw [hkeeps.deferredNeedsUpdate (Bool.eq_true_of_not_eq_false hne)] at hn
      cases hn
    exact hcover (h.deferred hd hb hn')

/-- A timer that must not be early is a soft one, or the interrupt takes care of it. -/
theorem Armed.settle (h : Armed w (some t) now ipi busy v) (hqueues : Queues c out v)
    (ht : index t ∈ w → busy = true) : Armed w none now ipi busy v := by
  have hcover {e : Ktime} (hb : busy = false) (hc : Covered w (some t) v e) :
      Covered w none v e := by
    refine hc.add hqueues fun hi _ => ?_
    rw [ht hi] at hb
    cases hb
  refine ⟨h.running, h.device, h.hang, fun hd hi => ?_, fun hd hb hn => ?_⟩
  · refine hcover ?_ (h.covered hd hi)
    by_contra hb
    rw [h.running (Bool.eq_true_of_not_eq_false hb)] at hd
    cases hd
  · exact hcover hb (h.deferred hd hb hn)

variable [DecidableEq T]

omit [Setup T] [DecidableEq T] in
theorem device_clearIfEmpty (b : CpuBase T) (i : BaseType) (active : List T) :
    (b.clearIfEmpty i active).expiresNext = b.expiresNext ∧
      (b.clearIfEmpty i active).device = b.device := by
  rw [CpuBase.clearIfEmpty]
  split_ifs <;> exact ⟨rfl, rfl⟩

theorem Armed.unlink (h : Armed w x now ipi busy v) (hqueues : Queues c none v)
    (hx : ∀ u, u ≠ t → x ≠ some u) (newstate : Bool) :
    Armed w none now ipi busy (unlinkHrtimer v t newstate).1 := by
  have hqueues' := hqueues.unlink t newstate
  refine h.relink hqueues hqueues' (fun u hu => out_iff hu) (keeps_unlink v t newstate)
    (device_clearIfEmpty _ _ _).1 (device_clearIfEmpty _ _ _).2 (fun u hu _ => hx u hu) fun ht => ?_
  exact absurd rfl ((hqueues'.mem_active _ t).mp ht).2.2.2

/-- **A timer leaves its queue.** -/
theorem Armed.remove (h : Armed w x now ipi busy v) (hw : w ⊆ hardBases) (hsorted : SortedOn w v)
    (hqueues : Queues c none v) (hx : ∀ u, u ≠ t → x ≠ some u) (newstate reprogram : Bool) :
    Armed w none now ipi busy (rawRemoveHrtimer v t newstate reprogram) := by
  have hunlink := h.unlink hqueues hx newstate
  have hqueues' := hqueues.unlink t newstate
  rw [rawRemoveHrtimer]
  dsimp only
  split_ifs with hqueued hfirst
  · -- it is in no queue
    have hq : (v.timers t).isQueued = false := by simpa using hqueued
    refine h.relink hqueues hqueues (fun _ _ => Iff.rfl) (.refl t v) rfl rfl
      (fun u hu _ => hx u hu) fun ht => ?_
    rw [((hqueues.mem_active _ t).mp ht).1] at hq
    cases hq
  · rw [removeReprogram]
    split_ifs with hskip hdeferred
    · exact hunlink
    · refine ⟨hunlink.running, hunlink.device, hunlink.hang, ?_,
        fun _ _ hn => Bool.noConfusion hn⟩
      intro hd
      rw [show (unlinkHrtimer v t newstate).1.cpuBase.deferredRearm = false from hd] at hdeferred
      cases hdeferred
    · exact hunlink.force hw (hsorted.unlink hqueues t newstate) hqueues' true ipi fun _ => rfl
  · exact hunlink

/-- A timer joins a queue, without regard to the device. -/
theorem Armed.enqueue (h : Armed w none now ipi busy v) (hqueues : Queues c (some t) v)
    (hcpu : (v.timers t).cpu = some c) : Armed w (some t) now ipi busy (enqueueHrtimer v t).1 :=
  h.relink hqueues (hqueues.enqueue hcpu) (fun _ hu => (out_iff hu).symm) (keeps_enqueue v t) rfl
    rfl (fun u _ _ => (Option.some_ne_none u).symm) fun _ => rfl

theorem Armed.removeAndEnqueue (h : Armed w none now ipi busy v) (hqueues : Queues c none v)
    (hcpu : (v.timers t).cpu = some c) (expires delta : Ktime) :
    Armed w (some t) now ipi busy (removeAndEnqueueSameBase v t expires delta).1 := by
  have hdevice : (removeAndEnqueueSameBase v t expires delta).1.cpuBase.expiresNext =
      v.cpuBase.expiresNext ∧ (removeAndEnqueueSameBase v t expires delta).1.cpuBase.device =
        v.cpuBase.device := by
    rw [removeAndEnqueueSameBase]
    split_ifs <;> exact ⟨rfl, rfl⟩
  exact h.relink hqueues (hqueues.removeAndEnqueue t hcpu expires delta) (fun _ _ => Iff.rfl)
    (keeps_removeAndEnqueue v t expires delta) hdevice.1 hdevice.2
    (fun u _ _ => (Option.some_ne_none u).symm) fun _ => rfl

/-! ### Starting -/

omit [Setup T] [DecidableEq T] in
/-- The started timer is covered as well. -/
theorem Armed.cover (h : Armed w (some t) now ipi busy v) (hd : v.cpuBase.deferredRearm = false)
    (hcovered : ipi = false → Covered w none v v.cpuBase.expiresNext) :
    Armed w none now ipi busy v := by
  refine h.event (.refl _) h.device (fun _ => rfl) (fun _ => hcovered) fun hd' => ?_
  rw [hd] at hd'
  cases hd'

theorem checkIfUser_cases (v : Locked T Cpu) (t : T) (user : Bool) (now : Ktime) :
    checkIfUser v t user now = (v, true) ∨
      checkIfUser v t user now = (rawRemoveHrtimer v t false false, false) := by
  rw [checkIfUser, hrtimerCheckUserTimer]
  split_ifs
  · exact Or.inl rfl
  · exact Or.inl rfl
  · exact Or.inr rfl
  · exact Or.inl rfl

/-- **A timer is started.** On another CPU it must not be the next event. -/
theorem Armed.startTail (h : Armed w (some t) now ipi busy v) (hw : w ⊆ hardBases)
    (hsorted : SortedOn w v) (hqueues : Queues c none v)
    (hlazy : isLazy t = true → index t ∈ w → (v.cpuBase.clockBase (index t)).offset = 0)
    {isLocal first wasFirst user : Bool} {clock : Ktime}
    (hfirst : first = false → (v.cpuBase.clockBase (index t)).first ≠ some t)
    (hremote : isLocal = false → v.cpuBase.deferredRearm = false → index t ∈ w →
      v.cpuBase.expiresNext ≤ (v.cpuBase.clockBase (index t)).due v.timers t) :
    Armed w none now ipi busy (startTail v t isLocal first wasFirst user clock).1 := by
  have hremoved (reprogram : Bool) :
      Armed w none now ipi busy (rawRemoveHrtimer v t false reprogram) :=
    h.remove hw hsorted hqueues (fun _ hu hx => hu (Option.some.inj hx).symm) false reprogram
  rw [Hrtimer.startTail]
  split_ifs with hdeferred htail hnotFirst hskip
  · -- the deferred part will look up the next event
    refine ⟨h.running, h.device, h.hang, fun hd => ?_, fun _ _ hn => Bool.noConfusion hn⟩
    rw [show v.cpuBase.deferredRearm = false from hd] at hdeferred
    cases hdeferred
  all_goals have hd : v.cpuBase.deferredRearm = false := Bool.eq_false_iff.mpr hdeferred
  · refine h.cover hd fun hi => ?_
    exact (h.covered hd hi).behind hsorted hqueues (hfirst (by simpa using hnotFirst))
  · obtain hstays | hremoves := checkIfUser_cases v t user clock
    · rw [hstays]
      have hlowers := lowers_reprogram v t isLocal true
      refine h.event hlowers.same (fun hd' hh => hlowers.device hh (h.device hd' hh)) hlowers.hang
        (fun _ hi => ?_) fun hd' => absurd hd' hdeferred
      refine ((h.covered hd hi).mono hlowers.expiresNext).add hqueues fun hmem _ => ?_
      cases isLocal with
      | false => exact hlowers.expiresNext.trans (hremote rfl hd hmem)
      | true =>
        -- only hard timers reprogram the device
        refine reprogram_le v ?_ hd
        have hhard := hw hmem
        revert hhard
        cases index t <;> simp [hardBases, BaseType.isSoft]
    · rw [hremoves]
      exact hremoved false
  · -- a lazy timer, behind the next event
    obtain ⟨hl, hle⟩ := Bool.and_eq_true_iff.mp hskip
    refine h.cover hd fun hi => (h.covered hd hi).add hqueues fun hmem _ => ?_
    rw [ClockBase.due, hlazy hl hmem, Int.sub_zero]
    exact (of_decide_eq_true hle).trans (le_max_left _ _)
  · obtain hstays | hremoves := checkIfUser_cases v t user clock
    · rw [hstays]
      exact h.force hw hsorted hqueues true ipi fun hd' => absurd hd' hdeferred
    · rw [hremoves]
      exact (hremoved false).force hw (hsorted.remove hqueues t false false)
        (hqueues.remove t false false) true ipi fun _ => rfl

theorem Armed.enqueueTail (h : Armed w none now ipi busy v) (hw : w ⊆ hardBases)
    (hsorted : SortedOn w v) (hqueues : Queues c (some t) v) (hcpu : (v.timers t).cpu = some c)
    (hlazy : isLazy t = true → index t ∈ w → (v.cpuBase.clockBase (index t)).offset = 0)
    {isLocal wasFirst user : Bool} {clock : Ktime}
    (hremote : isLocal = false → v.cpuBase.expiresNext ≤
      (v.timers t).expires - (v.cpuBase.clockBase (index t)).offset) :
    Armed w none now ipi busy (enqueueTail v t isLocal wasFirst user clock).1 := by
  have hkeeps := keeps_enqueue v t
  refine (h.enqueue hqueues hcpu).startTail hw (hsorted.enqueue hqueues) (hqueues.enqueue hcpu)
    ?_ ?_ ?_
  · rw [hkeeps.offset]
    exact hlazy
  · intro hfirst
    have hhead := of_decide_eq_false hfirst
    rw [enqueueHrtimer]
    dsimp only
    rw [setBase_self]
    exact hhead
  · intro hl _ _
    rw [ClockBase.due, hkeeps.offset, show ((enqueueHrtimer v t).1.timers t).expires =
      (v.timers t).expires from expires_setQueued _ _ _ _]
    exact (hremote hl).trans (le_max_left _ _)

/-- The first timer is the only one that is reported as such. -/
theorem first_removeAndEnqueue (hqueues : Queues c none v) (hcpu : (v.timers t).cpu = some c)
    {expires delta : Ktime} (hfirst : (removeAndEnqueueSameBase v t expires delta).2 = false) :
    ((removeAndEnqueueSameBase v t expires delta).1.cpuBase.clockBase (index t)).first ≠
      some t := by
  have hactive (base : ClockBase T) (e : Ktime) (wasFirst : Bool) :
      (if wasFirst then { base with expiresNext := e } else base).active = base.active := by
    split_ifs <;> rfl
  rw [removeAndEnqueueSameBase] at hfirst ⊢
  split_ifs at hfirst ⊢ with hplace
  · have hq := (Bool.and_eq_true_iff.mp hplace).1
    have hmem := (hqueues.mem_active (index t) t).mpr ⟨hq, hcpu, rfl, (Option.some_ne_none t).symm⟩
    rw [updateInPlace, ClockBase.first]
    dsimp only
    rw [setBase_self, hactive]
    intro hhead
    exact of_decide_eq_false hfirst ((prevOf_eq_none_iff (hqueues.nodup _) hmem).mpr hhead)
  · have hhead := of_decide_eq_false hfirst
    rw [requeue, ClockBase.first]
    dsimp only
    rw [setBase_self]
    convert hhead using 2
    split_ifs <;> rfl

theorem Armed.requeueTail (h : Armed w none now ipi busy v) (hw : w ⊆ hardBases)
    (hsorted : SortedOn w v) (hqueues : Queues c none v) (hcpu : (v.timers t).cpu = some c)
    (hlazy : isLazy t = true → index t ∈ w → (v.cpuBase.clockBase (index t)).offset = 0)
    {expires delta : Ktime} (hexpires : expires ≤ ktimeMax)
    (hfits : index t ∈ w →
      ClockBase.SlackFits v.timers (v.cpuBase.clockBase (index t)).active t expires delta)
    {isLocal wasFirst user : Bool} {clock : Ktime}
    (hremote : isLocal = false → index t ∈ w → v.cpuBase.deferredRearm = true) :
    Armed w none now ipi busy (requeueTail v t expires delta isLocal wasFirst user clock).1 := by
  have hkeeps := keeps_removeAndEnqueue v t expires delta
  refine (h.removeAndEnqueue hqueues hcpu expires delta).startTail hw
    (hsorted.removeAndEnqueue hqueues hcpu hexpires hfits)
    (hqueues.removeAndEnqueue t hcpu expires delta) ?_
    (first_removeAndEnqueue hqueues hcpu) fun hl hd hmem => ?_
  · rw [hkeeps.offset]
    exact hlazy
  · rw [hkeeps.deferredRearm, hremote hl hmem] at hd
    cases hd

end Armed

end Hrtimer

end HrtimerStudy
