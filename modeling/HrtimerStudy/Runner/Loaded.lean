import HrtimerStudy.Runner.Exclusive

/-!
# Loaded data and their load

A call of `run_condition` with workers starts a load and measures without looking at it again. The
load is there during the whole measurement if it starts at all, if no signal is handled between
`LOAD_PID=$!` and the start of `timer_benchmark` (the handler kills the load and the script goes
on), and if the benchmark ends before the load does. Otherwise the call still reaches its
`Completed` line, and it is not loaded then.

## Main definitions

* `Steady` — the condition on a step
* `SteadyAt` — the invariant of steady runs
* `History` — the invariant of all runs
* `LackingAt` — the invariant after a step that is not steady, up to the return of the call

## Main results

* `loaded_of_steady` — in steady runs, loaded data are loaded; after any other step, they are not
* `interrupted_not_loaded` — in other runs they may not be
-/

namespace HrtimerStudy

namespace Runner

/-! ### Steady runs -/

/-- In a call with workers the load starts, no signal is handled between the assignment of
`LOAD_PID` and the start of `timer_benchmark`, and `timer_benchmark` ends before the time of the
load is over. -/
def Steady (s : State) : Action → Prop
  | .load _ starts => starts = true
  | .signal => s.workers > 0 → s.point ≠ .sleep ∧ s.point ≠ .running ∧ s.point ≠ .benchmark
  | .command => s.workers > 0 → s.point = .measuring → s.now < s.conditionEnd
  | .pass _ | .interrupt | .reap _ => True

/-- The time of the load of the call is over. -/
def Expired (s : State) : Prop := s.conditionEnd ≤ s.now

/-- The load of the call has started, and nobody has killed it before its time was over. -/
def HasLoad (s : State) : Prop :=
  Expired s ∨ ∃ p ∈ s.children, s.conditionPid = some p.pid ∧
    p.startedAt + loadTime = s.conditionEnd ∧ p.starts = true ∧ p.killed = false

/-- What holds at the points of a steady call with workers. -/
def SteadyAt (s : State) : Prop :=
  match s.point with
  | .testWorkers | .spawn => s.loadPid = none
  | .assign => s.loadPid = none ∧ HasLoad s
  | .sleep | .running | .benchmark => s.handlers = [] ∧ HasLoad s
  | .measuring => s.handlers = [] ∧ HasLoad s ∧ (s.loaded = true ∨ Expired s)
  | .testStop | .kill | .wait | .clearAgain | .completed => s.loaded = true
  | _ => True

variable {s s' : State}

/-- A load that has started and has not been killed is alive until its time is over. -/
theorem HasLoad.alive_or_expired (h : HasLoad s) : s.loadAlive = true ∨ Expired s := by
  rcases h with hexpired | ⟨p, hp, hpid, hend, hstarts, hkilled⟩
  · exact Or.inr hexpired
  · rcases Nat.lt_or_ge s.now s.conditionEnd with htime | htime
    · refine Or.inl (List.any_eq_true.mpr ⟨p, hp, ?_⟩)
      simp [Proc.alive, hpid, hstarts, hkilled, hend, htime]
    · exact Or.inr htime

theorem HasLoad.pass (h : HasLoad s) (d : ℕ) : HasLoad { s with now := s.now + d } :=
  h.imp (fun hexpired => Nat.le_trans hexpired (Nat.le_add_right _ _)) id

/-- Bash reaps a load only when its time is over, unless it has been killed. -/
theorem HasLoad.reap (h : HasLoad s) {pid : ℕ}
    (hdead : ∀ p ∈ s.children, p.pid = pid → p.alive s.now = false) :
    HasLoad (reapChild s pid) := by
  rcases h with hexpired | ⟨p, hp, hpid, hend, hstarts, hkilled⟩
  · exact Or.inl hexpired
  · rcases eq_or_ne p.pid pid with heq | hne
    · refine Or.inl ?_
      have hover := hdead p hp heq
      simp only [Proc.alive, hstarts, hkilled, hend, Bool.not_false, Bool.true_and,
        decide_eq_false_iff_not, Nat.not_lt] at hover
      exact hover
    · exact Or.inr ⟨p, List.mem_filter.mpr ⟨hp, by simpa using hne⟩, hpid, hend, hstarts, hkilled⟩

/-- The start of the load of a call. -/
theorem hasLoad_load (pid : ℕ) (workers : ℤ) :
    HasLoad { s with
      point := .assign
      lastPid := some pid
      conditionPid := some pid
      conditionEnd := s.now + loadTime
      children := ⟨pid, workers, s.now, true, false⟩ :: s.children } :=
  Or.inr ⟨_, List.mem_cons_self .., rfl, rfl, rfl, rfl⟩

/-- The invariant while `timer_benchmark` runs. -/
theorem steadyAt_observe (hp : s.point = .measuring) (hhandlers : s.handlers = []) (h : HasLoad s)
    (hloaded : s.loaded = true ∨ Expired s) : SteadyAt s.observe := by
  have hobserve : s.observe = { s with loaded := s.loaded && s.loadAlive } := if_pos hp
  rw [hobserve, SteadyAt]
  simp only [hp]
  refine ⟨hhandlers, h, ?_⟩
  rcases hloaded with hloaded | hexpired
  · rcases h.alive_or_expired with halive | hexpired
    · exact Or.inl (by simp [hloaded, halive])
    · exact Or.inr hexpired
  · exact Or.inr hexpired

/-- Only the return of a call changes the list of calls. -/
theorem command_calls (h : Commanded s s') :
    s'.calls = s.calls ∨ s.point = .summary ∧ s'.point = .next ∧ s'.calls = s.calls.tail := by
  cases h with
  | summary hp => exact Or.inr ⟨hp, rfl, rfl⟩
  | wait hp ht => exact Or.inl (onlyEnds_waitLoad ht).calls
  | trap hp ht => exact Or.inl (onlyEnds_cleanup ht).calls
  | _ => exact Or.inl rfl

/-- A command of the script, in a call with workers. -/
theorem SteadyAt.command (h : SteadyAt s) (hw : s.workers > 0) (hhandlers : s.handlers = [])
    (hsteady : Steady s .command) (hs' : Commanded s s') : SteadyAt s' := by
  rw [SteadyAt] at h
  cases hs' with
  | next hp hq => obtain rfl | rfl := hq <;> trivial
  | clear hp => exact rfl
  | noSpawn hp hw' | noKill hp hw' => exact absurd hw hw'
  | spawnNext hp | sleep hp | running hp | killNext hp | kill hp | clearAgain hp =>
    rw [hp] at h
    exact h
  | assign hp =>
    rw [hp] at h
    exact ⟨hhandlers, h.2⟩
  | benchmark hp =>
    rw [hp] at h
    exact ⟨hhandlers, h.2, h.2.alive_or_expired⟩
  | measuring hp =>
    rw [hp] at h
    -- the time of the load is not over
    exact h.2.2.resolve_right (Nat.not_le.mpr (hsteady hw hp))
  | wait hp ht =>
    rw [hp] at h
    exact (onlyEnds_waitLoad ht).loaded.trans h
  | announce | completed | summary | trap | exit => trivial

/-- A handler does nothing to a load that is not in `LOAD_PID` yet, and it is not there later. -/
theorem steadyAt_cleanup {c : Cleanup} {c' : Option Cleanup} {outer : List Cleanup}
    (h : s.workers > 0 → SteadyAt s) (hhandlers : s.handlers = c :: outer)
    (hs' : cleanup s c = some (s', c')) (hw : s'.workers > 0) :
    SteadyAt { s' with handlers := c'.toList ++ outer } := by
  have hends := onlyEnds_cleanup hs'
  have hworkers := State.workers_congr hends.calls
  have hat := h (hworkers ▸ hw)
  have hpoint : { s' with handlers := c'.toList ++ outer }.point = s.point := hends.point
  rw [SteadyAt] at hat ⊢
  rw [hpoint]
  cases hp : s.point with
  | testWorkers | spawn =>
    rw [hp] at hat
    exact hends.loadPid.trans hat
  | assign =>
    rw [hp] at hat
    obtain ⟨hpid, hload⟩ := hat
    refine ⟨hends.loadPid.trans hpid, ?_⟩
    rw [HasLoad, Expired] at hload ⊢
    rwa [← hends.now, ← hends.conditionEnd, ← hends.conditionPid, ← children_cleanup hpid hs']
      at hload
  | sleep | running | benchmark | measuring =>
    rw [hp] at hat
    rw [hhandlers] at hat
    cases hat.1
  | testStop | kill | wait | clearAgain | completed =>
    rw [hp] at hat
    exact hends.loaded.trans hat
  | next | announce | clear | summary | exit c | exited => trivial

theorem SteadyAt.reap (h : SteadyAt s) {pid : ℕ}
    (hdead : ∀ p ∈ s.children, p.pid = pid → p.alive s.now = false) :
    SteadyAt (reapChild s pid) := by
  rw [SteadyAt] at h ⊢
  rw [show (reapChild s pid).point = s.point from rfl]
  cases hp : s.point with
  | assign | sleep | running | benchmark =>
    rw [hp] at h
    exact ⟨h.1, h.2.reap hdead⟩
  | measuring =>
    rw [hp] at h
    exact ⟨h.1, h.2.1.reap hdead, h.2.2⟩
  | next | announce | clear | testWorkers | spawn | testStop | kill | wait | clearAgain
  | completed | summary | exit c | exited =>
    rw [hp] at h
    exact h

/-- Time passes. -/
theorem SteadyAt.pass (h : SteadyAt s) (d : ℕ) :
    SteadyAt ({ s with now := s.now + d } : State).observe := by
  cases hp : s.point with
  | measuring =>
    rw [SteadyAt, hp] at h
    exact steadyAt_observe rfl h.1 (h.2.1.pass d)
      (h.2.2.imp id fun hexpired => Nat.le_trans hexpired (Nat.le_add_right _ _))
  | assign | sleep | running | benchmark =>
    rw [SteadyAt, hp] at h
    exact ⟨h.1, h.2.pass d⟩
  | next | announce | clear | testWorkers | spawn | testStop | kill | wait | clearAgain
  | completed | summary | exit c | exited =>
    rw [SteadyAt, hp] at h
    exact h

/-- A handler changes nothing where there are none in a steady call. -/
theorem SteadyAt.setHandlers (h : SteadyAt s)
    (hp : s.point ≠ .sleep ∧ s.point ≠ .running ∧ s.point ≠ .benchmark ∧ s.point ≠ .measuring)
    (handlers : List Cleanup) : SteadyAt { s with handlers := handlers } := by
  rw [SteadyAt] at h ⊢
  dsimp only
  cases hpoint : s.point with
  | sleep | running | benchmark | measuring => simp [hpoint] at hp
  | next | announce | clear | testWorkers | spawn | assign | testStop | kill | wait | clearAgain
  | completed | summary | exit c | exited =>
    rw [hpoint] at h
    exact h

/-- While the load is needed, no handler runs. -/
theorem SteadyAt.point_ne (h : SteadyAt s) (hhandlers : s.handlers ≠ []) :
    s.point ≠ .sleep ∧ s.point ≠ .running ∧ s.point ≠ .benchmark ∧ s.point ≠ .measuring := by
  rw [SteadyAt] at h
  refine ⟨fun hp => ?_, fun hp => ?_, fun hp => ?_, fun hp => ?_⟩ <;>
  · rw [hp] at h
    exact hhandlers h.1

/-- **The step lemma** of steady runs. -/
theorem steadyAt_step (h : s.workers > 0 → SteadyAt s) {a : Action} (hsteady : Steady s a)
    (hs' : step s a = some s') (hw : s'.workers > 0) : SteadyAt s' := by
  cases stepped_of_step hs' with
  | pass d =>
    have hw' : s.workers > 0 := by simpa [State.workers] using hw
    exact (h hw').pass d
  | signal hp =>
    obtain ⟨hsleep, hrunning, hbenchmark⟩ := hsteady hw
    exact (h hw).setHandlers ⟨hsleep, hrunning, hbenchmark, (not_or.mp hp).1⟩ _
  | interruptHandler hhandlers =>
    have hat := h hw
    exact hat.setHandlers (hat.point_ne (by simp [hhandlers])) _
  | interruptScript hhandlers hp =>
    have hat := h hw
    rw [SteadyAt, hp] at hat
    exact hat
  | interruptExit => trivial
  | command hhandlers hcommanded =>
    rcases command_calls hcommanded with hcalls | ⟨-, hp, -⟩
    · have hw' : s.workers > 0 := State.workers_congr hcalls ▸ hw
      exact (h hw').command hw' hhandlers hsteady hcommanded
    · -- the call has returned
      rw [SteadyAt, hp]
      trivial
  | handler hhandlers ht => exact steadyAt_cleanup h hhandlers ht hw
  | load hp hpid =>
    have hat := h hw
    rw [SteadyAt, hp] at hat
    obtain rfl : _ = true := hsteady
    exact ⟨hat, hasLoad_load _ _⟩
  | reap pid hdead => exact (h hw).reap hdead

theorem steadyAt_of_run {conditions : List Condition} (h : Run step Steady (start conditions) s) :
    s.workers > 0 → SteadyAt s := by
  refine h.invariant (I := fun s => s.workers > 0 → SteadyAt s) ?_ ?_
  · intro _
    trivial
  · intro t a t' hat hsteady ht
    exact steadyAt_step hat hsteady ht

/-! ### Missing loads -/

/-- The history of a run: the end of the load of the call, and what `loaded` tells while
`timer_benchmark` runs. -/
structure History (s : State) : Prop where
  ends : ∀ p ∈ s.children, s.conditionPid = some p.pid → p.startedAt + loadTime = s.conditionEnd
  handlers : s.point = .measuring → s.handlers = []
  loaded : s.point = .measuring → s.loaded = true → s.loadAlive = true

theorem loadAlive_eq_true :
    s.loadAlive = true ↔ ∃ p ∈ s.children, s.conditionPid = some p.pid ∧ p.alive s.now = true := by
  rw [State.loadAlive, List.any_eq_true]
  simp only [Bool.and_eq_true, decide_eq_true_eq]

theorem Calmer.loadAlive (h : Calmer s s') (hpid : s'.conditionPid = s.conditionPid)
    (hdead : s.loadAlive = false) : s'.loadAlive = false := by
  rw [Bool.eq_false_iff] at hdead ⊢
  intro halive
  obtain ⟨p', hp', hcondition, halive'⟩ := loadAlive_eq_true.mp halive
  obtain ⟨p, hp, heq, halive⟩ := h p' hp' halive'
  exact hdead (loadAlive_eq_true.mpr ⟨p, hp, by rw [← hpid, hcondition, heq], halive⟩)

/-- What a command of the script does to the loads and to the history. -/
theorem command_history (h : Commanded s s') :
    Fewer s s' ∧ s'.conditionEnd = s.conditionEnd ∧
      (s'.conditionPid = s.conditionPid ∨ s'.conditionPid = none) ∧
      (s'.point = .measuring → s'.handlers = s.handlers ∧ s'.loaded = s'.loadAlive) := by
  cases h with
  | next hp hq =>
    obtain rfl | rfl := hq <;> exact ⟨.of_children rfl, rfl, Or.inl rfl, by simp⟩
  | announce => exact ⟨.of_children rfl, rfl, Or.inr rfl, by simp⟩
  | benchmark hp => exact ⟨.of_children rfl, rfl, Or.inl rfl, fun _ => ⟨rfl, rfl⟩⟩
  | kill => exact ⟨fewer_killLoad, rfl, Or.inl rfl, by simp⟩
  | wait hp ht =>
    have hends := onlyEnds_waitLoad ht
    exact ⟨hends.fewer, hends.conditionEnd, Or.inl hends.conditionPid, by simp⟩
  | trap hp ht =>
    have hends := onlyEnds_cleanup ht
    exact ⟨hends.fewer, hends.conditionEnd, Or.inl hends.conditionPid, by simp⟩
  | _ => exact ⟨.of_children rfl, rfl, Or.inl rfl, by simp⟩

/-- A step that starts no load keeps the history if it keeps what `loaded` tells. -/
theorem History.of_fewer (h : History s) (hfewer : Fewer s s')
    (hend : s'.conditionEnd = s.conditionEnd)
    (hpid : s'.conditionPid = s.conditionPid ∨ s'.conditionPid = none)
    (hmeasuring : s'.point = .measuring →
      s'.handlers = [] ∧ (s'.loaded = true → s'.loadAlive = true)) : History s' where
  ends := by
    intro p' hp' hcondition
    obtain ⟨p, hp, heq, hstarted⟩ := hfewer p' hp'
    rcases hpid with hpid | hpid
    · rw [hend, ← hstarted]
      exact h.ends p hp (by rw [← hpid, hcondition, heq])
    · rw [hpid] at hcondition
      cases hcondition
  handlers := fun hp => (hmeasuring hp).1
  loaded := fun hp => (hmeasuring hp).2

theorem History.step (h : History s) {a : Action} (hs' : step s a = some s') : History s' := by
  cases stepped_of_step hs' with
  | pass d =>
    refine h.of_fewer (.of_children (by simp)) (by simp) (Or.inl (by simp)) fun hp => ?_
    have hp : s.point = .measuring := by simpa using hp
    have hobserve : ({ s with now := s.now + d } : State).observe = _ := if_pos hp
    rw [hobserve]
    refine ⟨h.handlers hp, fun hloaded => ?_⟩
    exact (Bool.and_eq_true_iff.mp hloaded).2
  | signal hpoint =>
    exact h.of_fewer (.of_children rfl) rfl (Or.inl rfl) fun hp => absurd (Or.inl hp) hpoint
  | interruptHandler hhandlers =>
    refine h.of_fewer (.of_children rfl) rfl (Or.inl rfl) fun hp => ?_
    have hnil := h.handlers hp
    rw [hhandlers] at hnil
    cases hnil
  | interruptScript | interruptExit =>
    exact h.of_fewer (.of_children rfl) rfl (Or.inl rfl) (by simp)
  | command hhandlers hs' =>
    obtain ⟨hfewer, hend, hpid, hmeasuring⟩ := command_history hs'
    refine h.of_fewer hfewer hend hpid fun hp => ?_
    obtain ⟨hsame, hloaded⟩ := hmeasuring hp
    exact ⟨hsame.trans hhandlers, fun hl => hloaded ▸ hl⟩
  | handler hhandlers ht =>
    have hends := onlyEnds_cleanup ht
    refine h.of_fewer hends.fewer hends.conditionEnd (Or.inl hends.conditionPid) fun hp => ?_
    have hnil := h.handlers (hends.point.symm.trans hp)
    rw [hhandlers] at hnil
    cases hnil
  | load hp hpid =>
    refine ⟨fun p hp hcondition => ?_, by simp, by simp⟩
    rcases List.mem_cons.mp hp with rfl | hp
    · rfl
    · -- the PID is not that of another child
      have heq : _ = p.pid := Option.some.inj hcondition
      exact absurd (List.mem_map_of_mem hp) (heq ▸ hpid)
  | reap pid hdead =>
    refine h.of_fewer (onlyEnds_filter _).fewer rfl (Or.inl rfl) fun hp => ?_
    refine ⟨h.handlers hp, fun hloaded => ?_⟩
    -- a load that is alive is not reaped
    obtain ⟨p, hp', hcondition, halive⟩ := loadAlive_eq_true.mp (h.loaded hp hloaded)
    refine loadAlive_eq_true.mpr ⟨p, List.mem_filter.mpr ⟨hp', ?_⟩, hcondition, halive⟩
    simp only [decide_eq_true_eq]
    intro heq
    rw [hdead p hp' heq] at halive
    cases halive

theorem history_of_reachable {conditions : List Condition}
    (h : Reachable step (start conditions) s) : History s :=
  h.invariant ⟨fun _ hp => absurd hp List.not_mem_nil, fun _ => rfl, by rintro ⟨⟩⟩
    fun hhistory _ hs' => hhistory.step hs'

/-- The load of the call is not alive, or a handler is about to kill it. -/
def Failing (s : State) : Prop :=
  s.loadAlive = false ∨ s.loadPid ≠ none ∧ ∃ c ∈ s.handlers, c ≠ .wait

/-- What holds at the points of a call whose load is missing. -/
def LackingAt (s : State) : Prop :=
  match s.point with
  | .assign => s.loadAlive = false
  | .sleep | .running | .benchmark => Failing s
  | .measuring | .testStop | .kill | .wait | .clearAgain | .completed => s.loaded = false
  | .summary => True
  | _ => False

/-- A step that leaves the script where it is. -/
theorem LackingAt.transfer (h : LackingAt s) (hpoint : s'.point = s.point)
    (hdead : s.loadAlive = false → s'.loadAlive = false)
    (hfailing : s.point = .sleep ∨ s.point = .running ∨ s.point = .benchmark →
      Failing s → Failing s') (hloaded : s.loaded = false → s'.loaded = false) : LackingAt s' := by
  rw [LackingAt] at h ⊢
  rw [hpoint]
  cases hp : s.point with
  | assign =>
    rw [hp] at h
    exact hdead h
  | sleep | running | benchmark =>
    rw [hp] at h
    exact hfailing (by simp [hp]) h
  | measuring | testStop | kill | wait | clearAgain | completed =>
    rw [hp] at h
    exact hloaded h
  | summary => trivial
  | next | announce | clear | testWorkers | spawn | exit c | exited =>
    rw [hp] at h
    exact h.elim

/-- A command of a handler: if it was about to kill the load, it still is, or it has done so. -/
theorem LackingAt.handler (h : LackingAt s) (hinv : Inv s) {c : Cleanup} {c' : Option Cleanup}
    {outer : List Cleanup} (hhandlers : s.handlers = c :: outer)
    (hs' : cleanup s c = some (s', c')) :
    LackingAt { s' with handlers := c'.toList ++ outer } := by
  have hends := onlyEnds_cleanup hs'
  have hdead (hdead : s.loadAlive = false) : s'.loadAlive = false :=
    hends.calmer.loadAlive hends.conditionPid hdead
  refine h.transfer hends.point hdead ?_ fun hloaded => hends.loaded.trans hloaded
  rintro hp (hmissing | ⟨hpid, d, hd, hne⟩)
  · exact Or.inl (hdead hmissing)
  · rw [hhandlers] at hd
    cases c with
    | test =>
      have hsome : s.loadPid.isSome = true := Option.isSome_iff_ne_none.mpr hpid
      simp only [cleanup, hsome, if_true, Option.some.injEq, Prod.mk.injEq] at hs'
      obtain ⟨rfl, rfl⟩ := hs'
      exact Or.inr ⟨hpid, .kill, List.mem_cons_self .., by simp⟩
    | kill =>
      cases hs'
      -- a live load has the PID that is killed here
      refine Or.inl (Bool.eq_false_iff.mpr fun halive => ?_)
      obtain ⟨p, hmem, -, halive⟩ := loadAlive_eq_true.mp halive
      obtain ⟨hmem, hother⟩ := alive_of_killLoad hmem halive
      have hname := (hinv.live p hmem halive).1
      rcases hp with hp | hp | hp <;>
      · rw [State.name, hp] at hname
        exact hother hname
    | wait =>
      obtain rfl | hd := List.mem_cons.mp hd
      · exact absurd rfl hne
      · refine Or.inr ⟨hends.loadPid ▸ hpid, d, ?_, hne⟩
        exact List.mem_append_right _ hd

/-- A command of the script, before the call returns. -/
theorem LackingAt.command (h : LackingAt s) (hhandlers : s.handlers = []) (hs' : Commanded s s') :
    LackingAt s' ∨ s.point = .summary ∧ s'.calls = s.calls.tail := by
  have hmissing : Failing s → s.loadAlive = false := by
    rintro (hdead | ⟨-, d, hd, -⟩)
    · exact hdead
    · rw [hhandlers] at hd
      cases hd
  rw [LackingAt] at h
  cases hs' with
  | assign hp =>
    rw [hp] at h
    exact Or.inl (Or.inl h)
  | sleep hp | running hp =>
    rw [hp] at h
    exact Or.inl (Or.inl (hmissing h))
  | benchmark hp =>
    rw [hp] at h
    exact Or.inl (hmissing h)
  | measuring hp | killNext hp | noKill hp | kill hp | clearAgain hp =>
    rw [hp] at h
    exact Or.inl h
  | wait hp ht =>
    rw [hp] at h
    exact Or.inl ((onlyEnds_waitLoad ht).loaded.trans h)
  | completed hp => exact Or.inl trivial
  | summary hp => exact Or.inr ⟨hp, rfl⟩
  | next hp | announce hp | clear hp | spawnNext hp | noSpawn hp | trap hp | exit hp =>
    rw [hp] at h
    exact h.elim

theorem step_calls {a : Action} (hs' : step s a = some s') :
    s'.calls = s.calls ∨ s.point = .summary ∧ s'.calls = s.calls.tail := by
  cases stepped_of_step hs' with
  | pass d => exact Or.inl (by simp)
  | command hhandlers hs' => exact (command_calls hs').imp_right fun h => ⟨h.1, h.2.2⟩
  | handler hhandlers ht => exact Or.inl (onlyEnds_cleanup ht).calls
  | _ => exact Or.inl rfl

/-- **The step lemma** of calls whose load is missing, up to their return. -/
theorem LackingAt.step (h : LackingAt s) (hinv : Inv s) {a : Action} (hs' : step s a = some s') :
    LackingAt s' ∨ s.point = .summary ∧ s'.calls = s.calls.tail := by
  cases stepped_of_step hs' with
  | pass d =>
    have hcalmer : Calmer s ({ s with now := s.now + d } : State).observe :=
      .of_children (by simp) (by simp)
    have hdead := hcalmer.loadAlive (by simp)
    refine Or.inl (h.transfer (by simp) hdead ?_ ?_)
    · rintro - (hmissing | hhandler)
      · exact Or.inl (hdead hmissing)
      · exact Or.inr (by simpa using hhandler)
    · intro hloaded
      simp [hloaded]
  | signal =>
    refine Or.inl (h.transfer rfl id ?_ id)
    rintro - (hmissing | ⟨hpid, c, hc, hne⟩)
    · exact Or.inl hmissing
    · exact Or.inr ⟨hpid, c, List.mem_cons_of_mem _ hc, hne⟩
  | interruptHandler hhandlers =>
    refine Or.inl (h.transfer rfl id ?_ id)
    rintro - (hmissing | ⟨hpid, -⟩)
    · exact Or.inl hmissing
    · exact Or.inr ⟨hpid, .test, List.mem_cons_self .., by simp⟩
  | interruptScript hhandlers hp =>
    rw [LackingAt, hp] at h
    exact Or.inl h
  | interruptExit hhandlers hp | load hp hpid =>
    rw [LackingAt, hp] at h
    exact h.elim
  | command hhandlers hs' => exact h.command hhandlers hs'
  | handler hhandlers ht => exact Or.inl (h.handler hinv hhandlers ht)
  | reap pid hdead =>
    have hends : OnlyEnds s (reapChild s pid) := onlyEnds_filter _
    have hdead := hends.calmer.loadAlive rfl
    exact Or.inl (h.transfer rfl hdead (fun _ => Or.imp hdead id) id)

/-- **A call whose load is missing** is not loaded when it completes. -/
theorem LackingAt.completed (h : LackingAt s) (hinv : Inv s) (hcall : s.calls ≠ [])
    {t : State} (ht : Reachable Runner.step s t) (hsame : t.calls = s.calls)
    (hp : t.point = .completed) : t.loaded = false := by
  have hreturn {u u' : State} (htail : u'.calls = u.calls.tail) (hcalls : u.calls = s.calls) :
      u'.calls.length < s.calls.length := by
    rw [htail, hcalls, List.length_tail]
    exact Nat.sub_lt (List.length_pos_of_ne_nil hcall) Nat.one_pos
  have hrun : Inv t ∧ (LackingAt t ∧ t.calls = s.calls ∨ t.calls.length < s.calls.length) := by
    refine ht.invariant (I := fun t => Inv t ∧
      (LackingAt t ∧ t.calls = s.calls ∨ t.calls.length < s.calls.length))
      ⟨hinv, Or.inl ⟨h, rfl⟩⟩ ?_
    rintro u a u' ⟨hinv, hu⟩ - hu'
    refine ⟨hinv.step hu', ?_⟩
    rcases hu with ⟨hlacking, hcalls⟩ | hfewer
    · rcases hlacking.step hinv hu' with hlacking' | ⟨-, htail⟩
      · rcases step_calls hu' with hkept | ⟨-, htail⟩
        · exact Or.inl ⟨hlacking', hkept.trans hcalls⟩
        · exact Or.inr (hreturn htail hcalls)
      · exact Or.inr (hreturn htail hcalls)
    · rcases step_calls hu' with hkept | ⟨-, htail⟩
      · exact Or.inr (hkept ▸ hfewer)
      · refine Or.inr (Nat.lt_of_le_of_lt ?_ hfewer)
        rw [htail, List.length_tail]
        exact Nat.sub_le _ _
  rcases hrun.2 with ⟨hlacking, -⟩ | hfewer
  · rw [LackingAt, hp] at hlacking
    exact hlacking
  · rw [hsame] at hfewer
    exact absurd hfewer (Nat.lt_irrefl _)

/-- A signal where the load is needed: if it is there, the handler is about to kill it. -/
theorem Inv.failing_signal (h : Inv s) (hname : s.name = s.loadPid) :
    Failing { s with handlers := .test :: s.handlers } := by
  cases halive : s.loadAlive with
  | false => exact Or.inl halive
  | true =>
    obtain ⟨p, hp, -, hp'⟩ := loadAlive_eq_true.mp halive
    have hpid : s.loadPid = some p.pid := hname ▸ (h.live p hp hp').1
    exact Or.inr ⟨by simp [hpid], .test, List.mem_cons_self .., by simp⟩

/-- When `timer_benchmark` ends after the load, the load has not been alive all the time. -/
theorem History.not_loaded (h : History s) (hp : s.point = .measuring) (hexpired : Expired s) :
    s.loaded = false := by
  rw [Bool.eq_false_iff]
  intro hloaded
  obtain ⟨p, hmem, hcondition, halive⟩ := loadAlive_eq_true.mp (h.loaded hp hloaded)
  simp only [Proc.alive, Bool.and_eq_true, decide_eq_true_eq] at halive
  rw [h.ends p hmem hcondition] at halive
  exact Nat.not_le.mpr halive.2 hexpired

/-- **A step that is not steady** leaves its call without its load. -/
theorem lackingAt_of_not_steady (hinv : Inv s) (hhistory : History s) {a : Action}
    (hs' : step s a = some s') (hunsteady : ¬Steady s a) :
    LackingAt s' ∧ s'.calls = s.calls ∧ s.workers > 0 := by
  cases stepped_of_step hs' with
  | pass | interruptHandler | interruptScript | interruptExit | reap =>
    exact absurd trivial hunsteady
  | @load pid starts hp hpid =>
    refine ⟨Bool.eq_false_iff.mpr fun halive => ?_, rfl, hinv.spawn hp⟩
    -- the load itself has not started, and no other child has its PID
    obtain ⟨p, hp, hcondition, halive⟩ := loadAlive_eq_true.mp halive
    rcases List.mem_cons.mp hp with rfl | hp
    · have hstarts : starts = false := Bool.eq_false_iff.mpr hunsteady
      simp [Proc.alive, hstarts] at halive
    · have heq : pid = p.pid := Option.some.inj hcondition
      exact absurd (List.mem_map_of_mem hp) (heq ▸ hpid)
  | signal hpoint =>
    obtain ⟨hw, hwindow⟩ := Classical.not_imp.mp hunsteady
    refine ⟨?_, rfl, hw⟩
    have hp : s.point = .sleep ∨ s.point = .running ∨ s.point = .benchmark := by
      by_contra hnone
      exact hwindow (by simpa [not_or] using hnone)
    rw [LackingAt]
    rcases hp with hp | hp | hp <;>
    · have hname : s.name = s.loadPid := by rw [State.name, hp]
      simp only [hp]
      exact hinv.failing_signal hname
  | command hhandlers =>
    obtain ⟨hw, hwindow⟩ := Classical.not_imp.mp hunsteady
    obtain ⟨hp, hexpired⟩ := Classical.not_imp.mp hwindow
    have hloaded := hhistory.not_loaded hp (Nat.not_lt.mp hexpired)
    simp only [step, hhandlers, command, hp] at hs'
    obtain rfl := Option.some.inj hs'
    exact ⟨hloaded, rfl, hw⟩
  | handler hhandlers ht =>
    obtain ⟨-, hwindow⟩ := Classical.not_imp.mp hunsteady
    obtain ⟨hp, -⟩ := Classical.not_imp.mp hwindow
    rw [hhistory.handlers hp] at hhandlers
    cases hhandlers

/-! ### Loaded data -/

/-- **Loaded data are loaded** in steady runs. When a call with workers comes to its `Completed`
line, the load of the call has been alive during the whole execution of `timer_benchmark`. A step
that is not steady leaves its own call unloaded if that completes. -/
theorem loaded_of_steady {conditions : List Condition}
    (h : Run step Steady (start conditions) s) :
    (s.point = .completed → s.workers > 0 → s.loaded = true) ∧
      ∀ a s', step s a = some s' → ¬Steady s a → s.workers > 0 ∧
        ∀ t, Reachable step s' t → t.calls = s.calls → t.point = .completed →
          t.loaded = false := by
  constructor
  · intro hp hw
    have hat := steadyAt_of_run h hw
    rw [SteadyAt, hp] at hat
    exact hat
  · intro a s' hs' hunsteady
    have hinv := inv_of_reachable h.reachable
    obtain ⟨hlacking, hcalls, hw⟩ :=
      lackingAt_of_not_steady hinv (history_of_reachable h.reachable) hs' hunsteady
    refine ⟨hw, fun t ht hsame hp => LackingAt.completed hlacking (hinv.step hs') ?_ ht ?_ hp⟩
    · intro hnil
      rw [hcalls] at hnil
      simp [State.workers, hnil] at hw
    · rw [hsame, hcalls]

/-- The commands from the `echo` before `timer_benchmark` to the `Completed` line of a call with
workers, when `timer_benchmark` takes five seconds. -/
def untilCompleted : List Action :=
  [.command, .command, .pass 5000000000, .command, .command, .command, .command, .command]

instance (s : State) : (a : Action) → Decidable (Steady s a)
  | .load _ starts => inferInstanceAs (Decidable (starts = true))
  | .signal => inferInstanceAs (Decidable
      (s.workers > 0 → s.point ≠ .sleep ∧ s.point ≠ .running ∧ s.point ≠ .benchmark))
  | .command => inferInstanceAs
      (Decidable (s.workers > 0 → s.point = .measuring → s.now < s.conditionEnd))
  | .pass _ | .interrupt | .reap _ => .isTrue trivial

theorem loaded_of_steady_moderate :
    ∃ s, Run step Steady (start schedule) s ∧ s.point = .completed ∧ s.workers = 6 ∧
      s.loaded = true := by
  obtain ⟨s, hs, hp, hw⟩ : ∃ s, exec step Steady (untilRunning ++ untilCompleted)
      (start schedule) = some s ∧ s.point = .completed ∧ s.workers = 6 := ⟨_, rfl, rfl, rfl⟩
  have hrun : Run step Steady (start schedule) s := run_of_exec hs
  have hpositive : s.workers > 0 := by
    rw [hw]
    decide
  exact ⟨s, hrun, hp, hw, (loaded_of_steady hrun).1 hp hpositive⟩

/-- When INT arrives during `sleep 1`, its handler kills the load, and the call goes on and
completes. -/
theorem interrupted_not_loaded :
    ¬∀ s, Reachable step (start schedule) s → s.point = .completed → s.workers > 0 →
      s.loaded = true := by
  intro h
  obtain ⟨s, hs, hp, hw, hloaded⟩ : ∃ s, exec step (fun _ _ => True)
      (untilRunning ++ [.signal, .command, .command, .command] ++ untilCompleted)
      (start schedule) = some s ∧ s.point = .completed ∧ s.workers > 0 ∧ s.loaded = false :=
    ⟨_, rfl, rfl, by decide, rfl⟩
  rw [h s (run_of_exec hs) hp hw] at hloaded
  cases hloaded

end Runner

end HrtimerStudy
