import HrtimerStudy.Hrtimer.Queues

/-!
# The order of the queues

The queues are in the order of the hard expiry, and what a clock base caches is not later than the
expiry of any timer in its queue.

An update in place looks at the soft expiry only. It keeps the order unless the next timer expires
between the soft and the hard expiry of the updated one; this is a condition on the caller. The
order is considered for some of the bases only, `w`, and so is the condition.

## Main definitions

* `ClockBase.Sorted`, `SortedOn` — one queue, some of the queues of a CPU
* `ClockBase.SlackFits` — an update in place keeps the order

## Main results

* `SortedOn.remove`, `SortedOn.enqueue`, `SortedOn.removeAndEnqueue` — what keeps the order
* `ClockBase.ordered_updateInPlace_iff` — **when an update in place keeps the order**
-/

namespace HrtimerStudy

namespace Hrtimer

open Setup (index isLazy)

variable {T Cpu : Type*}

/-! ### Times -/

theorem ktimeAddSafe_le (lhs rhs : Ktime) : ktimeAddSafe lhs rhs ≤ ktimeMax := by
  rw [ktimeAddSafe]
  split_ifs
  · exact le_rfl
  · show wrap64 (lhs + rhs) ≤ 9223372036854775807
    rw [wrap64]
    omega

theorem le_ktimeAddSafe {lhs rhs : Ktime} (h : lhs ≤ ktimeMax) : lhs ≤ ktimeAddSafe lhs rhs := by
  rw [ktimeAddSafe]
  split_ifs with hres
  · exact h
  · exact not_lt.mp (not_or.mp (not_or.mp hres).2).1

/-! ### One queue -/

namespace ClockBase

variable {timers timers' : T → Timer Cpu} {base : ClockBase T} {t u : T} {e : Ktime}

/-- The queue is in order, and the cached expiry is not later than that of its timers. -/
structure Sorted (timers : T → Timer Cpu) (base : ClockBase T) : Prop where
  ordered : Ordered (fun t => (timers t).expires) base.active
  expiresNext : ∀ t ∈ base.active, base.expiresNext ≤ (timers t).expires

theorem Sorted.congr (h : Sorted timers base) {base' : ClockBase T}
    (hactive : base'.active = base.active) (hnext : base'.expiresNext = base.expiresNext)
    (hexpires : ∀ t ∈ base.active, (timers' t).expires = (timers t).expires) :
    Sorted timers' base' where
  ordered := by
    rw [hactive]
    exact h.ordered.congr hexpires
  expiresNext := by
    intro t ht
    rw [hactive] at ht
    rw [hnext, hexpires t ht]
    exact h.expiresNext t ht

/-- The expiry of the first timer is cached, or an earlier time. -/
theorem sorted_of_first {active : List T} (h : Ordered (fun t => (timers t).expires) active)
    (hfirst : active.head? = some t) (he : e ≤ (timers t).expires) (base : ClockBase T) :
    Sorted timers { base with active := active, expiresNext := e } :=
  ⟨h, fun _ hu => he.trans (h.head?_le hfirst hu)⟩

theorem sorted_updateNextTimer (h : Ordered (fun t => (timers t).expires) base.active) :
    Sorted timers (baseUpdateNextTimer timers base) := by
  cases hfirst : base.first with
  | none =>
    have hempty : base.active = [] := List.head?_eq_none_iff.mp hfirst
    refine ⟨h, fun t ht => ?_⟩
    rw [show (baseUpdateNextTimer timers base).active = base.active from rfl, hempty] at ht
    cases ht
  | some t =>
    rw [baseUpdateNextTimer, hfirst]
    exact sorted_of_first h hfirst le_rfl base

variable [DecidableEq T]

theorem Sorted.erase (h : Sorted timers base) (t : T) :
    Sorted timers { base with active := base.active.erase t } :=
  ⟨h.ordered.erase t, fun u hu => h.expiresNext u (List.mem_of_mem_erase hu)⟩

omit [DecidableEq T] in
/-- A timer joins behind the first one. -/
theorem Sorted.insert (h : Sorted timers base)
    (hfirst : (timerqueueLinkedAdd timers base.active t).head? ≠ some t) :
    Sorted timers { base with active := timerqueueLinkedAdd timers base.active t } := by
  refine ⟨h.ordered.insertBehind t, fun u hu => ?_⟩
  rcases mem_insertBehind.mp hu with rfl | hu
  · obtain ⟨hhead, -⟩ | ⟨-, b, hb, hle⟩ :=
      head?_insertBehind (fun a => (timers a).expires) u base.active
    · exact absurd hhead hfirst
    · exact (h.expiresNext b (List.mem_of_mem_head? hb)).trans hle
  · exact h.expiresNext u hu

/-- The timer joins, after it may have left the head of the queue. -/
theorem Sorted.requeue {rest : List T} (h : Sorted timers { base with active := rest })
    (he : e ≤ (timers t).expires) (wasFirst : Bool) :
    Sorted timers
      (if decide ((timerqueueLinkedAdd timers rest t).head? = some t) then
        { base with active := timerqueueLinkedAdd timers rest t, expiresNext := e }
      else if wasFirst then
        baseUpdateNextTimer timers { base with active := timerqueueLinkedAdd timers rest t }
      else { base with active := timerqueueLinkedAdd timers rest t }) := by
  have hordered := h.ordered.insertBehind t
  split_ifs with hfirst
  · exact sorted_of_first hordered (of_decide_eq_true hfirst) he base
  · exact sorted_updateNextTimer hordered
  · exact h.insert fun hhead => hfirst (decide_eq_true hhead)

/-! ### In place -/

/-- The slack of a timer that is updated in place does not reach over the next timer. -/
def SlackFits (timers : T → Timer Cpu) (active : List T) (t : T) (expires delta : Ktime) : Prop :=
  hrtimerCanUpdateInPlace timers active t expires = true →
    ∀ next ∈ nextOf active t, ktimeAddSafe expires delta ≤ (timers next).expires

instance (timers : T → Timer Cpu) (active : List T) (t : T) (expires delta : Ktime) :
    Decidable (SlackFits timers active t expires delta) :=
  inferInstanceAs (Decidable (_ → ∀ next ∈ nextOf _ t, _))

/-- The neighbours permit the soft expiry. -/
theorem hrtimerCanUpdateInPlace_iff (timers : T → Timer Cpu) (active : List T) (t : T)
    (expires : Ktime) : hrtimerCanUpdateInPlace timers active t expires = true ↔
      (∀ next ∈ nextOf active t, expires ≤ (timers next).expires) ∧
        ∀ prev ∈ prevOf active t, (timers prev).expires ≤ expires := by
  rw [hrtimerCanUpdateInPlace]
  cases hnext : nextOf active t <;> cases hprev : prevOf active t <;> simp

/-- **When an update in place keeps the order.** -/
theorem ordered_updateInPlace_iff {expires delta : Ktime} (h : Sorted timers base)
    (hnodup : base.active.Nodup) (ht : t ∈ base.active) (hexpires : expires ≤ ktimeMax)
    (hplace : hrtimerCanUpdateInPlace timers base.active t expires = true) :
    Ordered (fun u => (hrtimerSetExpiresRangeNs timers t expires delta u).expires) base.active ↔
      SlackFits timers base.active t expires delta := by
  obtain ⟨-, hprev⟩ := (hrtimerCanUpdateInPlace_iff timers base.active t expires).mp hplace
  have hother : ∀ u ∈ base.active, u ≠ t →
      (hrtimerSetExpiresRangeNs timers t expires delta u).expires = (timers u).expires :=
    fun u _ hu => congrArg Timer.expires (setExpires_of_ne _ _ _ hu)
  have hself : (hrtimerSetExpiresRangeNs timers t expires delta t).expires =
      ktimeAddSafe expires delta := by rw [setExpires_self]
  constructor
  · intro hordered _ next hn
    have hmem := mem_of_mem_nextOf hn
    have hne := ne_of_mem_nextOf hnodup ht hn
    have hle := hordered.le_nextOf hnodup ht hn
    rwa [hself, hother next hmem hne] at hle
  · intro hfits
    refine h.ordered.update hnodup ht hother (fun next hn => ?_) fun prev hp => ?_
    · rw [hself]
      exact hfits hplace next hn
    · rw [hself]
      exact (hprev prev hp).trans (le_ktimeAddSafe hexpires)

theorem Sorted.updateInPlace {expires delta : Ktime} (h : Sorted timers base)
    (hnodup : base.active.Nodup) (ht : t ∈ base.active) (hexpires : expires ≤ ktimeMax)
    (hplace : hrtimerCanUpdateInPlace timers base.active t expires = true)
    (hfits : SlackFits timers base.active t expires delta) :
    Sorted (hrtimerSetExpiresRangeNs timers t expires delta)
      (if decide (prevOf base.active t = none) then { base with expiresNext := expires }
        else base) := by
  have hordered := (ordered_updateInPlace_iff h hnodup ht hexpires hplace).mpr hfits
  have hself : (hrtimerSetExpiresRangeNs timers t expires delta t).expires =
      ktimeAddSafe expires delta := by rw [setExpires_self]
  have hlate : expires ≤ (hrtimerSetExpiresRangeNs timers t expires delta t).expires := by
    rw [hself]
    exact le_ktimeAddSafe hexpires
  split_ifs with hfirst
  · have hhead := (prevOf_eq_none_iff hnodup ht).mp (of_decide_eq_true hfirst)
    exact sorted_of_first hordered hhead hlate base
  · refine ⟨hordered, fun u hu => ?_⟩
    rcases eq_or_ne u t with rfl | hut
    · obtain ⟨prev, hprev⟩ := Option.ne_none_iff_exists'.mp fun hnone =>
        hfirst (decide_eq_true hnone)
      have hle :=
        ((hrtimerCanUpdateInPlace_iff timers base.active u expires).mp hplace).2 prev hprev
      exact ((h.expiresNext prev (mem_of_mem_prevOf hprev)).trans hle).trans hlate
    · rw [setExpires_of_ne _ _ _ hut]
      exact h.expiresNext u hu

end ClockBase

/-! ### The queues of a CPU -/

variable [Setup T] [DecidableEq T] {w : List BaseType} {c : Cpu} {out : Option T}
variable {v v' : Locked T Cpu} {t u : T}

section Some

omit [Setup T] [DecidableEq T]

/-- Some of the queues are in order. -/
def SortedOn (w : List BaseType) (v : Locked T Cpu) : Prop :=
  ∀ i ∈ w, (v.cpuBase.clockBase i).Sorted v.timers

theorem SortedOn.congr (h : SortedOn w v)
    (hactive : ∀ i, (v'.cpuBase.clockBase i).active = (v.cpuBase.clockBase i).active)
    (hnext : ∀ i, (v'.cpuBase.clockBase i).expiresNext = (v.cpuBase.clockBase i).expiresNext)
    (hexpires : ∀ i, ∀ t ∈ (v.cpuBase.clockBase i).active,
      (v'.timers t).expires = (v.timers t).expires) : SortedOn w v' :=
  fun i hi => (h i hi).congr (hactive i) (hnext i) (hexpires i)

theorem SortedOn.of_sameQueues (h : SortedOn w v) {b : CpuBase T}
    (hsame : SameQueues v.cpuBase b) : SortedOn w ⟨v.timers, b⟩ := by
  intro i hi
  rw [hsame.clockBase]
  exact h i hi

end Some

section Relink

omit [DecidableEq T]

/-- The base of a timer is written. -/
theorem SortedOn.relink (h : SortedOn w v) (hqueues : Queues c out v) (hkeeps : Keeps t v v')
    (hbase : index t ∈ w → (v'.cpuBase.clockBase (index t)).Sorted v'.timers) : SortedOn w v' := by
  intro i hi
  by_cases hit : i = index t
  · subst hit
    exact hbase hi
  · rw [hkeeps.clockBase i hit]
    refine (h i hi).congr rfl rfl fun u hu => ?_
    have hut : u ≠ t := by
      rintro rfl
      exact hit ((hqueues.mem_active i u).mp hu).2.2.1.symm
    rw [hkeeps.timers u hut]

end Relink

omit [Setup T] in
@[simp] theorem expires_setQueued (timers : T → Timer Cpu) (t u : T) (b : Bool) :
    (setQueued timers t b u).expires = (timers u).expires := by
  rcases eq_or_ne u t with rfl | hu
  · rw [setQueued_self]
  · rw [setQueued_of_ne _ _ hu]

theorem SortedOn.enqueue (h : SortedOn w v) (hqueues : Queues c (some t) v) :
    SortedOn w (enqueueHrtimer v t).1 := by
  refine h.relink hqueues (keeps_enqueue v t) fun hw => ?_
  have hsame : (v.cpuBase.clockBase (index t)).Sorted (setQueued v.timers t true) :=
    (h _ hw).congr rfl rfl fun u _ => expires_setQueued _ _ _ _
  rw [enqueueHrtimer]
  dsimp only
  rw [setBase_self]
  split_ifs with hfirst
  · exact ClockBase.sorted_of_first (hsame.ordered.insertBehind t) (of_decide_eq_true hfirst)
      le_rfl _
  · exact hsame.insert (of_decide_eq_false (Bool.not_eq_true _ ▸ hfirst))

theorem SortedOn.unlink (h : SortedOn w v) (hqueues : Queues c none v) (t : T) (newstate : Bool) :
    SortedOn w (unlinkHrtimer v t newstate).1 := by
  refine h.relink hqueues (keeps_unlink v t newstate) fun hw => ?_
  have hsame : (v.cpuBase.clockBase (index t)).Sorted (setQueued v.timers t newstate) :=
    (h _ hw).congr rfl rfl fun u _ => expires_setQueued _ _ _ _
  rw [unlinkHrtimer]
  dsimp only
  rw [setBase_self]
  split_ifs
  · exact ClockBase.sorted_updateNextTimer (hsame.erase t).ordered
  · exact hsame.erase t

theorem SortedOn.remove (h : SortedOn w v) (hqueues : Queues c none v) (t : T)
    (newstate reprogram : Bool) : SortedOn w (rawRemoveHrtimer v t newstate reprogram) := by
  have hunlink := h.unlink hqueues t newstate
  rw [rawRemoveHrtimer]
  dsimp only
  split_ifs
  · exact h
  · exact hunlink.of_sameQueues (sameQueues_removeReprogram _ t reprogram)
  · exact hunlink

/-- Out of the queue, if the timer is in it, and in again. -/
theorem SortedOn.requeue (h : SortedOn w v) (hqueues : Queues c none v) (hw : index t ∈ w)
    {expires delta : Ktime} (hexpires : expires ≤ ktimeMax) :
    ((requeue v t expires delta).1.cpuBase.clockBase (index t)).Sorted
      (requeue v t expires delta).1.timers := by
  -- the rest of the queue, in which the timer is not
  set rest := if (v.timers t).isQueued then (v.cpuBase.clockBase (index t)).active.erase t
    else (v.cpuBase.clockBase (index t)).active with hrest
  have hsub : rest.Sublist (v.cpuBase.clockBase (index t)).active := by
    rw [hrest]
    split_ifs
    · exact List.erase_sublist
    · exact List.Sublist.refl _
  set timers := setQueued (hrtimerSetExpiresRangeNs v.timers t expires delta) t true with htimers
  have hkey : ∀ u ∈ rest, (timers u).expires = (v.timers u).expires := by
    intro u hu
    have hut : u ≠ t := ((hqueues.mem_rest t u).mp hu).1
    rw [htimers, expires_setQueued, setExpires_of_ne _ _ _ hut]
  have hlate : expires ≤ (timers t).expires := by
    rw [htimers, expires_setQueued, setExpires_self]
    exact le_ktimeAddSafe hexpires
  have hold : ({ v.cpuBase.clockBase (index t) with active := rest } : ClockBase T).Sorted timers :=
    ⟨Ordered.congr ((h _ hw).ordered.sublist hsub) hkey, fun u hu => by
      rw [hkey u hu]
      exact (h _ hw).expiresNext u (hsub.subset hu)⟩
  rw [Hrtimer.requeue]
  dsimp only
  rw [setBase_self]
  exact hold.requeue hlate _

/-- Out of the queue and in again, or in place. -/
theorem SortedOn.removeAndEnqueue (h : SortedOn w v) (hqueues : Queues c none v)
    (hcpu : (v.timers t).cpu = some c) {expires delta : Ktime} (hexpires : expires ≤ ktimeMax)
    (hfits : index t ∈ w →
      ClockBase.SlackFits v.timers (v.cpuBase.clockBase (index t)).active t expires delta) :
    SortedOn w (removeAndEnqueueSameBase v t expires delta).1 := by
  refine h.relink hqueues (keeps_removeAndEnqueue v t expires delta) fun hw => ?_
  rw [removeAndEnqueueSameBase]
  split_ifs with hplace
  · obtain ⟨hq, hplace⟩ := Bool.and_eq_true_iff.mp hplace
    have hmem := (hqueues.mem_active (index t) t).mpr ⟨hq, hcpu, rfl, (Option.some_ne_none t).symm⟩
    rw [updateInPlace]
    dsimp only
    rw [setBase_self]
    exact (h _ hw).updateInPlace (hqueues.nodup _) hmem hexpires hplace (hfits hw)
  · exact h.requeue hqueues hw hexpires

/-! ### Starting -/

theorem SortedOn.checkIfUser (h : SortedOn w v) (hqueues : Queues c none v) (t : T) (user : Bool)
    (now : Ktime) : SortedOn w (checkIfUser v t user now).1 := by
  rw [Hrtimer.checkIfUser, hrtimerCheckUserTimer]
  split_ifs
  · exact h
  · exact h
  · exact h.remove hqueues t false false
  · exact h

theorem SortedOn.startTail (h : SortedOn w v) (hqueues : Queues c none v) (t : T)
    (isLocal first wasFirst user : Bool) (now : Ktime) :
    SortedOn w (startTail v t isLocal first wasFirst user now).1 := by
  have hcheck := h.checkIfUser hqueues t user now
  rw [Hrtimer.startTail]
  split_ifs
  · exact h.congr (fun _ => rfl) (fun _ => rfl) fun _ _ _ => rfl
  · exact h
  · dsimp only
    split_ifs
    · exact hcheck.of_sameQueues (sameQueues_reprogram _ t isLocal true)
    · exact hcheck
  · exact h
  · exact hcheck.of_sameQueues (sameQueues_forceReprogram _ true)

end Hrtimer

end HrtimerStudy
