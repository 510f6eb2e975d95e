import HrtimerStudy.Runner.Exclusive

/-!
# The target of `kill`

`cleanup` and `run_condition` both kill `LOAD_PID` and then wait for it. After its `wait`,
`run_condition` clears the variable; `cleanup` does not, although it may return into the script. So
the PID of a load that is gone stays in the variable, and the next `kill`, that of `run_condition`,
of the next handler or of the EXIT trap, goes to whatever process has the PID by then.

A signal does no such harm when `LOAD_PID` is empty, or when the script is at the `wait` of
`run_condition`, with the load still to be waited for and nothing else pending than `wait`s. At any
other moment it may: the handler, the one it has interrupted or the script comes to a `kill` after
the load is gone.

No signal is needed when a load ends by itself, because it fails to start or its 90 seconds are
over. Then bash reaps it while `LOAD_PID` names it, or is about to, and the `kill` of the call
follows.

## Main definitions

* `OwnsLoad`, `KillNext` — what `LOAD_PID` names, and when it matters
* `Undisturbed` — the condition on a step
* `MayMiss` — a `kill` may follow that goes elsewhere
* `OwnedAt` — the invariant of undisturbed runs

## Main results

* `OwnedAt.step` — it is one
* `OwnedAt.mayMiss` — a step that disturbs such a run has such a `kill` after it
* `kill_owned` — in undisturbed runs every `kill` goes to a load of the script, and a run that is
  disturbed may come to another one
* `kill_reaped` — a run of the scripts with another one
-/

namespace HrtimerStudy

namespace Runner

/-! ### Undisturbed runs -/

/-- `LOAD_PID` names a load that the script has started and that has not been reaped. -/
def OwnsLoad (s : State) : Prop := ∃ p ∈ s.children, s.loadPid = some p.pid

/-- So does `$!`. -/
def OwnsLast (s : State) : Prop := ∃ p ∈ s.children, s.lastPid = some p.pid

/-- The next command is a `kill`: that of a handler, of `run_condition` or of the EXIT trap. -/
def KillNext (s : State) : Prop :=
  (∃ outer, s.handlers = .kill :: outer) ∨
    s.handlers = [] ∧ (s.point = .kill ∨ s.point = .exit (some .kill))

/-- The script waits for its load, and no handler has yet to come to its `wait`. -/
def Awaited (s : State) : Prop :=
  (s.point = .wait ∨ s.point = .clearAgain) ∧ ∀ c ∈ s.handlers, c = .wait

/-- A signal finds no load, or the load for which `run_condition` is waiting. -/
def Harmless (s : State) : Prop := s.loadPid = none ∨ Awaited s ∧ OwnsLoad s

/-- `LOAD_PID` is this PID, or will be after the next command. -/
def Names (s : State) (pid : ℕ) : Prop :=
  s.loadPid = some pid ∨ s.point = .assign ∧ s.lastPid = some pid

/-- Signals are handled, and interrupt `wait`, only where they are harmless, and a load that the
script still has to kill is not reaped. -/
def Undisturbed (s : State) : Action → Prop
  | .signal | .interrupt => Harmless s
  | .reap pid => Names s pid → Awaited s
  | .pass _ | .command | .load _ _ => True

/-- Some continuation comes to a `kill` that goes elsewhere. -/
def MayMiss (s : State) : Prop := ∃ t, Reachable step s t ∧ KillNext t ∧ ¬OwnsLoad t

/-- How many commands there are before the `kill` of a call with a load, from `sleep` on. -/
def Point.beforeKill : Point → Option ℕ
  | .sleep => some 5
  | .running => some 4
  | .benchmark => some 3
  | .measuring => some 2
  | .testStop => some 1
  | .kill => some 0
  | _ => none

/-! ### The invariant -/

/-- There is no PID to kill, and no handler tries to. -/
def Unloaded (s : State) : Prop := s.loadPid = none ∧ ∀ c ∈ s.handlers, c = .test

/-- There is a load, and no handler. -/
def Loaded (s : State) : Prop := s.handlers = [] ∧ OwnsLoad s

/-- While `run_condition` waits, the innermost handler may be anywhere as long as the load is
there, and the others are at their `wait`. -/
def Waiting (s : State) : Prop :=
  s.loadPid ≠ none ∧ ∀ c outer, s.handlers = c :: outer →
    (c = .wait ∨ OwnsLoad s) ∧ ∀ d ∈ outer, d = .wait

/-- What holds at the points of an undisturbed run. -/
def OwnedAt (s : State) : Prop :=
  match s.point with
  | .spawn => s.workers > 0 ∧ Unloaded s
  | .assign => s.workers > 0 ∧ Unloaded s ∧ OwnsLast s
  | .sleep | .kill => s.workers > 0 ∧ Loaded s
  | .running | .benchmark | .measuring | .testStop =>
    s.workers > 0 ∧ Loaded s ∨ ¬s.workers > 0 ∧ Unloaded s
  | .wait | .clearAgain => Waiting s
  | .exit (some c) => c = .test ∧ Unloaded s
  | .next | .announce | .clear | .testWorkers | .completed | .summary | .exit none | .exited =>
    Unloaded s

variable {s s' : State}

theorem OwnsLoad.ne_none (h : OwnsLoad s) : s.loadPid ≠ none := by
  obtain ⟨p, -, hp⟩ := h
  rw [hp]
  exact Option.some_ne_none _

/-- In every state of an undisturbed run one of three things is the case. -/
theorem OwnedAt.mode (h : OwnedAt s) :
    Unloaded s ∨ (s.point.beforeKill.isSome ∧ s.workers > 0 ∧ Loaded s) ∨
      (s.point = .wait ∨ s.point = .clearAgain) ∧ Waiting s := by
  rw [OwnedAt] at h
  cases hp : s.point with
  | spawn =>
    rw [hp] at h
    exact Or.inl h.2
  | assign =>
    rw [hp] at h
    exact Or.inl h.2.1
  | sleep | kill =>
    rw [hp] at h
    exact Or.inr (Or.inl ⟨rfl, h⟩)
  | running | benchmark | measuring | testStop =>
    rw [hp] at h
    rcases h with h | h
    · exact Or.inr (Or.inl ⟨rfl, h⟩)
    · exact Or.inl h.2
  | wait =>
    rw [hp] at h
    exact Or.inr (Or.inr ⟨Or.inl rfl, h⟩)
  | clearAgain =>
    rw [hp] at h
    exact Or.inr (Or.inr ⟨Or.inr rfl, h⟩)
  | exit c =>
    rw [hp] at h
    cases c with
    | none => exact Or.inl h
    | some c => exact Or.inl h.2
  | next | announce | clear | testWorkers | completed | summary | exited =>
    rw [hp] at h
    exact Or.inl h

/-- A step that leaves the script where it is keeps the invariant if it keeps each of the three. -/
theorem OwnedAt.transfer (h : OwnedAt s) (hpoint : s'.point = s.point)
    (hcalls : s'.calls = s.calls)
    (hunloaded : Unloaded s → Unloaded s')
    (hassign : s.point = .assign → Unloaded s → OwnsLast s → OwnsLast s')
    (hloaded : ¬(s.point = .wait ∨ s.point = .clearAgain) → Loaded s → Loaded s')
    (hwaiting : s.point = .wait ∨ s.point = .clearAgain → Waiting s → Waiting s') :
    OwnedAt s' := by
  rw [OwnedAt] at h ⊢
  rw [hpoint, State.workers_congr hcalls]
  cases hp : s.point with
  | spawn =>
    rw [hp] at h
    exact ⟨h.1, hunloaded h.2⟩
  | assign =>
    rw [hp] at h
    obtain ⟨hw, hun, hlast⟩ := h
    exact ⟨hw, hunloaded hun, hassign hp hun hlast⟩
  | sleep | kill =>
    rw [hp] at h
    exact ⟨h.1, hloaded (by rw [hp]; decide) h.2⟩
  | running | benchmark | measuring | testStop =>
    rw [hp] at h
    rcases h with h | h
    · exact Or.inl ⟨h.1, hloaded (by rw [hp]; decide) h.2⟩
    · exact Or.inr ⟨h.1, hunloaded h.2⟩
  | wait =>
    rw [hp] at h
    exact hwaiting (Or.inl hp) h
  | clearAgain =>
    rw [hp] at h
    exact hwaiting (Or.inr hp) h
  | exit c =>
    rw [hp] at h
    cases c with
    | none => exact hunloaded h
    | some c => exact ⟨h.1, hunloaded h.2⟩
  | next | announce | clear | testWorkers | completed | summary | exited =>
    rw [hp] at h
    exact hunloaded h

/-! ### Handlers -/

theorem ownsLoad_killLoad (h : OwnsLoad s) : OwnsLoad (killLoad s) := by
  obtain ⟨p, hp, hpid⟩ := h
  have hmem : p.pid ∈ (killLoad s).children.map Proc.pid := by
    rw [pids_killLoad]
    exact List.mem_map_of_mem hp
  obtain ⟨q, hq, hqp⟩ := List.mem_map.mp hmem
  exact ⟨q, hq, by rw [hqp]; exact hpid⟩

/-- The load is there, and all handlers but the innermost are at their `wait`. -/
theorem OwnsLoad.waiting (h : OwnsLoad s) {c : Cleanup} {outer : List Cleanup}
    (hhandlers : s.handlers = c :: outer) (houter : ∀ d ∈ outer, d = .wait) : Waiting s := by
  refine ⟨h.ne_none, ?_⟩
  intro c' outer' hcons
  rw [hhandlers] at hcons
  injection hcons with hc hrest
  subst hc hrest
  exact ⟨Or.inr h, houter⟩

/-- All handlers are at their `wait`. -/
theorem waiting_of_waits (hpid : s.loadPid ≠ none) (h : ∀ c ∈ s.handlers, c = .wait) :
    Waiting s := by
  refine ⟨hpid, ?_⟩
  intro c outer hcons
  rw [hcons] at h
  obtain ⟨hc, houter⟩ := List.forall_mem_cons.mp h
  exact ⟨Or.inl hc, houter⟩

/-- A handler of `cleanup` while `run_condition` waits. -/
theorem Waiting.cleanup (h : Waiting s) {c : Cleanup} {c' : Option Cleanup}
    {outer : List Cleanup} (hhandlers : s.handlers = c :: outer)
    (hs' : cleanup s c = some (s', c')) :
    Waiting { s' with handlers := c'.toList ++ outer } := by
  obtain ⟨hpid, hwaiting⟩ := h
  obtain ⟨hc, houter⟩ := hwaiting c outer hhandlers
  cases c with
  | test =>
    obtain ⟨⟨⟩⟩ | hown := hc
    have hsome : s.loadPid.isSome = true := Option.isSome_iff_ne_none.mpr hpid
    simp only [Runner.cleanup, hsome, if_true, Option.some.injEq, Prod.mk.injEq] at hs'
    obtain ⟨rfl, rfl⟩ := hs'
    exact OwnsLoad.waiting hown rfl houter
  | kill =>
    obtain ⟨⟨⟩⟩ | hown := hc
    cases hs'
    exact OwnsLoad.waiting (ownsLoad_killLoad hown) rfl houter
  | wait =>
    have hends := onlyEnds_cleanup hs'
    obtain ⟨t, -, heq⟩ := Option.map_eq_some_iff.mp hs'
    cases heq
    refine waiting_of_waits ?_ houter
    show s'.loadPid ≠ none
    rwa [hends.loadPid]

/-- A command of a handler. -/
theorem OwnedAt.handler (h : OwnedAt s) {c : Cleanup} {c' : Option Cleanup}
    {outer : List Cleanup} (hhandlers : s.handlers = c :: outer)
    (hs' : cleanup s c = some (s', c')) :
    OwnedAt { s' with handlers := c'.toList ++ outer } := by
  have hends := onlyEnds_cleanup hs'
  refine h.transfer hends.point hends.calls ?_ ?_ ?_ ?_
  · rintro ⟨hpid, htest⟩
    rw [hhandlers] at htest
    obtain ⟨rfl, houter⟩ := List.forall_mem_cons.mp htest
    simp only [cleanup, hpid, Option.some.injEq, Prod.mk.injEq] at hs'
    obtain ⟨rfl, rfl⟩ := hs'
    exact ⟨hpid, houter⟩
  · rintro - ⟨hpid, -⟩ ⟨p, hp, hlast⟩
    exact ⟨p, (children_cleanup hpid hs').symm ▸ hp, hends.lastPid.trans hlast⟩
  · rintro - ⟨hnil, -⟩
    rw [hhandlers] at hnil
    cases hnil
  · exact fun _ hwaiting => hwaiting.cleanup hhandlers hs'

/-! ### Signals -/

/-- A signal that is harmless. -/
theorem OwnedAt.signal (h : OwnedAt s) (hharmless : Harmless s) :
    OwnedAt { s with handlers := .test :: s.handlers } := by
  refine h.transfer rfl rfl ?_ (fun _ _ => id) ?_ ?_
  · rintro ⟨hpid, htest⟩
    exact ⟨hpid, List.forall_mem_cons.mpr ⟨rfl, htest⟩⟩
  · rintro hpoint ⟨-, hown⟩
    rcases hharmless with hpid | ⟨⟨hwait, -⟩, -⟩
    · exact absurd hpid hown.ne_none
    · exact absurd hwait hpoint
  · rintro - ⟨hpid, -⟩
    rcases hharmless with hnone | ⟨⟨-, hwait⟩, hown⟩
    · exact absurd hnone hpid
    · exact OwnsLoad.waiting hown rfl hwait

/-- One that interrupts the `wait` of a handler. -/
theorem OwnedAt.interrupt_handler (h : OwnedAt s) (hharmless : Harmless s)
    {outer : List Cleanup} (hhandlers : s.handlers = .wait :: outer) :
    OwnedAt { s with handlers := .test :: outer } := by
  refine h.transfer rfl rfl ?_ (fun _ _ => id) ?_ ?_
  · rintro ⟨-, htest⟩
    rw [hhandlers] at htest
    cases (List.forall_mem_cons.mp htest).1
  · rintro - ⟨hnil, -⟩
    rw [hhandlers] at hnil
    cases hnil
  · rintro - ⟨hpid, -⟩
    rcases hharmless with hnone | ⟨⟨-, hwait⟩, hown⟩
    · exact absurd hnone hpid
    · rw [hhandlers] at hwait
      exact OwnsLoad.waiting hown rfl (List.forall_mem_cons.mp hwait).2

/-- One that interrupts the `wait` of `run_condition`. -/
theorem OwnedAt.interrupt_script (h : OwnedAt s) (hharmless : Harmless s)
    (hp : s.point = .wait) :
    OwnedAt { s with point := .clearAgain, handlers := [.test] } := by
  rw [OwnedAt, hp] at h
  rcases hharmless with hnone | ⟨-, hown⟩
  · exact absurd hnone h.1
  · exact OwnsLoad.waiting hown rfl (by simp)

/-! ### Reaped loads -/

/-- The other loads are still there. -/
theorem OwnsLoad.reapChild (h : OwnsLoad s) {pid : ℕ} (hne : s.loadPid ≠ some pid) :
    OwnsLoad (reapChild s pid) := by
  obtain ⟨p, hp, hload⟩ := h
  refine ⟨p, List.mem_filter.mpr ⟨hp, ?_⟩, hload⟩
  simp only [decide_eq_true_eq]
  rintro rfl
  exact hne hload

theorem OwnsLast.reapChild (h : OwnsLast s) {pid : ℕ} (hne : s.lastPid ≠ some pid) :
    OwnsLast (reapChild s pid) := by
  obtain ⟨p, hp, hlast⟩ := h
  refine ⟨p, List.mem_filter.mpr ⟨hp, ?_⟩, hlast⟩
  simp only [decide_eq_true_eq]
  rintro rfl
  exact hne hlast

theorem not_ownsLoad_reapChild {pid : ℕ} (hpid : s.loadPid = some pid) :
    ¬OwnsLoad (reapChild s pid) := by
  rintro ⟨p, hp, hload⟩
  have hne := (List.mem_filter.mp hp).2
  simp only [decide_eq_true_eq] at hne
  have heq : pid = p.pid := Option.some.inj (hpid.symm.trans hload)
  exact hne heq.symm

/-- A load that is reaped, without a `kill` to come. -/
theorem OwnedAt.reap (h : OwnedAt s) {pid : ℕ} (hharmless : Names s pid → Awaited s) :
    OwnedAt (reapChild s pid) := by
  refine h.transfer rfl rfl id ?_ ?_ ?_
  · intro hp _ hlast
    refine hlast.reapChild fun heq => ?_
    obtain ⟨hwait | hwait, -⟩ := hharmless (Or.inr ⟨hp, heq⟩)
    · rw [hp] at hwait
      cases hwait
    · rw [hp] at hwait
      cases hwait
  · rintro hpoint ⟨hnil, hown⟩
    refine ⟨hnil, hown.reapChild fun heq => ?_⟩
    exact hpoint (hharmless (Or.inl heq)).1
  · rintro - hwaiting
    by_cases heq : s.loadPid = some pid
    · exact waiting_of_waits hwaiting.1 (hharmless (Or.inl heq)).2
    · refine ⟨hwaiting.1, fun c outer hcons => ?_⟩
      obtain ⟨hc, houter⟩ := hwaiting.2 c outer hcons
      exact ⟨hc.imp id fun hown => hown.reapChild heq, houter⟩

/-! ### The script -/

/-- The commands of the script. -/
theorem OwnedAt.command (h : OwnedAt s) (hhandlers : s.handlers = []) (hs' : Commanded s s') :
    OwnedAt s' := by
  rw [OwnedAt] at h
  cases hs' with
  | next hp hq =>
    rw [hp] at h
    obtain rfl | rfl := hq
    · exact h
    · exact ⟨rfl, h⟩
  | announce hp | completed hp | summary hp | exit hp =>
    rw [hp] at h
    exact h
  | clear hp | clearAgain hp =>
    refine ⟨rfl, ?_⟩
    show ∀ c ∈ s.handlers, c = .test
    simp [hhandlers]
  | spawnNext hp hw =>
    rw [hp] at h
    exact ⟨hw, h⟩
  | noSpawn hp hw =>
    rw [hp] at h
    exact Or.inr ⟨hw, h⟩
  | assign hp =>
    rw [hp] at h
    obtain ⟨hw, -, hlast⟩ := h
    exact ⟨hw, hhandlers, hlast⟩
  | sleep hp =>
    rw [hp] at h
    exact Or.inl h
  | running hp | benchmark hp | measuring hp =>
    rw [hp] at h
    exact h
  | killNext hp hw =>
    rw [hp] at h
    exact h.resolve_right fun h => h.1 hw
  | noKill hp hw =>
    rw [hp] at h
    exact (h.resolve_left fun h => hw h.1).2
  | kill hp =>
    rw [hp] at h
    obtain ⟨-, -, hown⟩ := h
    refine waiting_of_waits (ownsLoad_killLoad hown).ne_none ?_
    show ∀ c ∈ s.handlers, c = .wait
    simp [hhandlers]
  | wait hp ht =>
    rw [hp] at h
    obtain rfl := waitLoad_eq ht
    refine waiting_of_waits h.1 ?_
    show ∀ c ∈ s.handlers, c = .wait
    simp [hhandlers]
  | trap hp ht =>
    rw [hp] at h
    obtain ⟨rfl, hpid, htest⟩ := h
    simp only [cleanup, hpid, Option.some.injEq, Prod.mk.injEq] at ht
    obtain ⟨rfl, rfl⟩ := ht
    exact ⟨hpid, htest⟩

/-- The start of a load. -/
theorem OwnedAt.load (h : OwnedAt s) (hp : s.point = .spawn) (pid : ℕ) (starts : Bool) :
    OwnedAt { s with
      point := .assign
      lastPid := some pid
      conditionPid := some pid
      conditionEnd := s.now + loadTime
      children := ⟨pid, loadWorkers s.workers, s.now, starts, false⟩ :: s.children } := by
  rw [OwnedAt, hp] at h
  exact ⟨h.1, h.2, _, List.mem_cons_self .., rfl⟩

/-- **The step lemma** of undisturbed runs. -/
theorem OwnedAt.step (h : OwnedAt s) {a : Action} (hundisturbed : Undisturbed s a)
    (hs' : step s a = some s') : OwnedAt s' := by
  cases stepped_of_step hs' with
  | pass d =>
    rw [State.observe_eq]
    exact h.transfer rfl rfl id (fun _ _ => id) (fun _ => id) (fun _ => id)
  | signal hp => exact h.signal hundisturbed
  | interruptHandler hhandlers => exact h.interrupt_handler hundisturbed hhandlers
  | interruptScript hhandlers hp => exact h.interrupt_script hundisturbed hp
  | interruptExit hhandlers hp =>
    rw [OwnedAt, hp] at h
    cases h.1
  | command hhandlers hs' => exact h.command hhandlers hs'
  | handler hhandlers ht => exact h.handler hhandlers ht
  | load hp hpid => exact h.load hp _ _
  | reap pid hdead => exact h.reap hundisturbed

/-! ### Disturbed runs -/

theorem MayMiss.of_reachable (hs' : Reachable Runner.step s s') (h : MayMiss s') : MayMiss s := by
  obtain ⟨t, ht, hkill, hown⟩ := h
  exact ⟨t, hs'.trans ht, hkill, hown⟩

theorem reachable_command {t : State} (h : Runner.step s .command = some t) :
    Reachable Runner.step s t :=
  Relation.ReflTransGen.single ⟨.command, trivial, h⟩

/-- A handler at its `kill`, and no load. -/
theorem mayMiss_of_kill (hown : ¬OwnsLoad s) {outer : List Cleanup}
    (hhandlers : s.handlers = .kill :: outer) : MayMiss s :=
  ⟨s, Relation.ReflTransGen.refl, Or.inl ⟨outer, hhandlers⟩, hown⟩

/-- A handler that begins, and a PID, but no load. -/
theorem mayMiss_of_test (hpid : s.loadPid ≠ none) (hown : ¬OwnsLoad s) {outer : List Cleanup}
    (hhandlers : s.handlers = .test :: outer) : MayMiss s := by
  have hsome : s.loadPid.isSome = true := Option.isSome_iff_ne_none.mpr hpid
  have hstep : Runner.step s .command = some { s with handlers := .kill :: outer } := by
    simp only [Runner.step, hhandlers, cleanup, hsome, if_true, Option.map_some]
    rfl
  refine MayMiss.of_reachable (reachable_command hstep) (mayMiss_of_kill ?_ rfl)
  exact hown

theorem dead_killLoad :
    ∀ p ∈ (killLoad s).children, s.loadPid = some p.pid → p.alive s.now = false := by
  intro p hp hpid
  by_contra halive
  exact (alive_of_killLoad hp (by simpa using halive)).2 hpid

/-- A load that is dead can be waited for at once. -/
theorem waitLoad_of_dead
    (h : ∀ p ∈ s.children, s.loadPid = some p.pid → p.alive s.now = false) :
    waitLoad s
      = some { s with children := s.children.filter fun p => s.loadPid ≠ some p.pid } := by
  rw [waitLoad, if_neg]
  intro hany
  obtain ⟨p, hp, halive⟩ := List.any_eq_true.mp hany
  rw [Bool.and_eq_true, decide_eq_true_eq] at halive
  have hdead := h p hp halive.1
  rw [halive.2] at hdead
  cases hdead

/-- **A handler that runs to its end** reaps the load and leaves its PID where it is. -/
theorem exists_handled (hpid : s.loadPid ≠ none) {outer : List Cleanup}
    (hhandlers : s.handlers = .test :: outer) :
    ∃ t, Reachable Runner.step s t ∧ t.handlers = outer ∧ t.point = s.point ∧
      t.calls = s.calls ∧ t.loadPid = s.loadPid ∧ ¬OwnsLoad t := by
  have hsome : s.loadPid.isSome = true := Option.isSome_iff_ne_none.mpr hpid
  have htest : Runner.step s .command = some { s with handlers := .kill :: outer } := by
    simp only [Runner.step, hhandlers, cleanup, hsome, if_true, Option.map_some]
    rfl
  have hkill : Runner.step { s with handlers := .kill :: outer } .command =
      some { killLoad s with handlers := .wait :: outer } := rfl
  have hwait : Runner.step { killLoad s with handlers := .wait :: outer } .command =
      some { killLoad s with
        children := (killLoad s).children.filter fun p => s.loadPid ≠ some p.pid
        handlers := outer } := by
    have hreaped := waitLoad_of_dead (s := { killLoad s with handlers := .wait :: outer })
      dead_killLoad
    simp only [Runner.step, cleanup, hreaped, Option.map_some]
    rfl
  refine ⟨_, ((reachable_command htest).trans (reachable_command hkill)).trans
    (reachable_command hwait), rfl, rfl, rfl, rfl, ?_⟩
  rintro ⟨p, hp, hload⟩
  have hother := (List.mem_filter.mp hp).2
  simp only [decide_eq_true_eq] at hother
  exact hother hload

/-- The commands before the `kill` follow one another, and leave the load alone. -/
theorem exists_command_beforeKill {n : ℕ} (hn : s.point.beforeKill = some (n + 1))
    (hworkers : s.workers > 0) :
    ∃ t, command s = some t ∧ t.point.beforeKill = some n ∧ t.calls = s.calls ∧
      t.handlers = s.handlers ∧ (OwnsLoad t ↔ OwnsLoad s) := by
  rw [Runner.command]
  cases hp : s.point with
  | sleep | running | measuring =>
    rw [hp] at hn
    obtain rfl := Nat.succ.inj (Option.some.inj hn)
    exact ⟨_, rfl, rfl, rfl, rfl, Iff.rfl⟩
  | benchmark =>
    rw [hp] at hn
    obtain rfl := Nat.succ.inj (Option.some.inj hn)
    simp only [State.observe_eq]
    exact ⟨_, rfl, rfl, rfl, rfl, Iff.rfl⟩
  | testStop =>
    rw [hp] at hn
    obtain rfl := Nat.succ.inj (Option.some.inj hn)
    simp only [if_pos hworkers]
    exact ⟨_, rfl, rfl, rfl, rfl, Iff.rfl⟩
  | kill | next | announce | clear | testWorkers | spawn | assign | wait | clearAgain | completed
  | summary | exit c | exited =>
    rw [hp] at hn
    cases hn

/-- Without its load, a call comes to its `kill` all the same. -/
theorem mayMiss_of_beforeKill {n : ℕ} (hn : s.point.beforeKill = some n)
    (hhandlers : s.handlers = []) (hworkers : s.workers > 0) (hown : ¬OwnsLoad s) : MayMiss s := by
  induction n generalizing s with
  | zero =>
    have hp : s.point = .kill := by
      cases hp : s.point <;> simp [hp, Point.beforeKill] at hn ⊢
    exact ⟨s, Relation.ReflTransGen.refl, Or.inr ⟨hhandlers, Or.inl hp⟩, hown⟩
  | succ n ih =>
    obtain ⟨t, ht, hpoint, hcalls, hhandlers', howns⟩ := exists_command_beforeKill hn hworkers
    have hstep : Runner.step s .command = some t := by
      simp only [Runner.step, hhandlers, ht]
    refine MayMiss.of_reachable (reachable_command hstep) (ih hpoint ?_ ?_ ?_)
    · rw [hhandlers', hhandlers]
    · rwa [State.workers_congr hcalls]
    · rwa [howns]

/-- A signal that is not harmless. -/
theorem OwnedAt.mayMiss_signal (h : OwnedAt s) (hharmful : ¬Harmless s) :
    MayMiss { s with handlers := .test :: s.handlers } := by
  have hpid : s.loadPid ≠ none := fun hnone => hharmful (Or.inl hnone)
  obtain ⟨t, ht, hhandlers, hpoint, hcalls, hpid', hown⟩ :=
    exists_handled (s := { s with handlers := .test :: s.handlers }) hpid rfl
  rcases h.mode with ⟨hnone, -⟩ | ⟨hbefore, hworkers, hnil, -⟩ | ⟨hwait, -, hwaiting⟩
  · exact absurd hnone hpid
  · -- the handler reaps the load, and `run_condition` comes to its `kill`
    obtain ⟨n, hn⟩ := Option.isSome_iff_exists.mp hbefore
    refine MayMiss.of_reachable ht (mayMiss_of_beforeKill (n := n) ?_ ?_ ?_ hown)
    · rwa [hpoint]
    · rwa [hhandlers]
    · rwa [State.workers_congr hcalls]
  · by_cases hload : OwnsLoad s
    · -- the handler reaps the load, and the one it has interrupted comes to its `kill`
      refine MayMiss.of_reachable ht ?_
      obtain ⟨c, hc, hne⟩ : ∃ c ∈ s.handlers, c ≠ .wait := by
        by_contra hall
        refine hharmful (Or.inr ⟨⟨hwait, fun c hc => ?_⟩, hload⟩)
        by_contra hne
        exact hall ⟨c, hc, hne⟩
      cases hcons : s.handlers with
      | nil =>
        rw [hcons] at hc
        cases hc
      | cons d outer =>
        obtain ⟨-, houter⟩ := hwaiting d outer hcons
        rw [hcons] at hc hhandlers
        rcases List.mem_cons.mp hc with rfl | hc
        · cases c with
          | test => exact mayMiss_of_test (by rwa [hpid']) hown hhandlers
          | kill => exact mayMiss_of_kill hown hhandlers
          | wait => exact absurd rfl hne
        · exact absurd (houter c hc) hne
    · exact mayMiss_of_test hpid hload rfl

/-- Without a `LOAD_PID`, the handlers return one after the other. -/
theorem exists_drained {handlers : List Cleanup} (hhandlers : s.handlers = handlers)
    (hpid : s.loadPid = none) (htest : ∀ c ∈ handlers, c = .test) :
    Reachable Runner.step s { s with handlers := [] } := by
  induction handlers generalizing s with
  | nil =>
    rw [← hhandlers]
    exact Relation.ReflTransGen.refl
  | cons c outer ih =>
    obtain ⟨rfl, houter⟩ := List.forall_mem_cons.mp htest
    have hstep : Runner.step s .command = some { s with handlers := outer } := by
      simp only [Runner.step, hhandlers, cleanup, hpid, Option.map_some]
      rfl
    exact (reachable_command hstep).trans (ih rfl hpid houter)

/-- A load that is reaped although a `kill` is to come. -/
theorem OwnedAt.mayMiss_reap (h : OwnedAt s) {pid : ℕ} (hnames : Names s pid)
    (hunawaited : ¬Awaited s) : MayMiss (reapChild s pid) := by
  rcases h.mode with ⟨hnone, htest⟩ | ⟨hbefore, hworkers, hnil, -⟩ | ⟨hwait, hpid, hwaiting⟩
  · -- `LOAD_PID` is about to be assigned
    rcases hnames with hpid | ⟨hp, hlast⟩
    · rw [hnone] at hpid
      cases hpid
    · rw [OwnedAt, hp] at h
      have hassign : Runner.step { reapChild s pid with handlers := [] } .command =
          some { reapChild s pid with handlers := [], point := .sleep, loadPid := s.lastPid } := by
        simp only [Runner.step, Runner.command, reapChild, hp]
      have hdrained : Reachable Runner.step (reapChild s pid)
          { reapChild s pid with handlers := [] } := exists_drained rfl hnone htest
      refine MayMiss.of_reachable (hdrained.trans (reachable_command hassign)) ?_
      refine mayMiss_of_beforeKill rfl rfl h.1 ?_
      exact not_ownsLoad_reapChild (s := { s with loadPid := s.lastPid }) hlast
  · -- `run_condition` comes to its `kill`
    obtain ⟨n, hn⟩ := Option.isSome_iff_exists.mp hbefore
    rcases hnames with hpid | ⟨hp, -⟩
    · exact mayMiss_of_beforeKill hn hnil hworkers (not_ownsLoad_reapChild hpid)
    · rw [hp] at hbefore
      cases hbefore
  · -- a handler comes to its `kill`
    have hpid' : s.loadPid = some pid := by
      rcases hnames with hpid' | ⟨hp, -⟩
      · exact hpid'
      · rw [hp] at hwait
        rcases hwait with ⟨⟨⟩⟩ | ⟨⟨⟩⟩
    have hown := not_ownsLoad_reapChild hpid'
    cases hcons : s.handlers with
    | nil => exact absurd ⟨hwait, by simp [hcons]⟩ hunawaited
    | cons c outer =>
      have houter := (hwaiting c outer hcons).2
      cases c with
      | test => exact mayMiss_of_test hpid hown hcons
      | kill => exact mayMiss_of_kill hown hcons
      | wait =>
        refine absurd ⟨hwait, ?_⟩ hunawaited
        rw [hcons]
        exact List.forall_mem_cons.mpr ⟨rfl, houter⟩

/-- **A step that disturbs a run** may be followed by such a `kill`. -/
theorem OwnedAt.mayMiss (h : OwnedAt s) {a : Action} (hdisturbed : ¬Undisturbed s a)
    (hs' : Runner.step s a = some s') : MayMiss s' := by
  cases stepped_of_step hs' with
  | pass | command | handler | load => exact absurd trivial hdisturbed
  | signal hp => exact h.mayMiss_signal hdisturbed
  | interruptHandler hhandlers =>
    have hpid : s.loadPid ≠ none := fun hnone => hdisturbed (Or.inl hnone)
    rcases h.mode with ⟨hnone, -⟩ | ⟨-, -, hnil, -⟩ | ⟨hwait, -, hwaiting⟩
    · exact absurd hnone hpid
    · rw [hhandlers] at hnil
      cases hnil
    · refine mayMiss_of_test hpid (fun hload => hdisturbed (Or.inr ⟨⟨hwait, ?_⟩, hload⟩)) rfl
      rw [hhandlers]
      exact List.forall_mem_cons.mpr ⟨rfl, (hwaiting _ _ hhandlers).2⟩
  | interruptScript hhandlers hp =>
    have hpid : s.loadPid ≠ none := fun hnone => hdisturbed (Or.inl hnone)
    refine mayMiss_of_test hpid (fun hload => hdisturbed (Or.inr ⟨⟨Or.inl hp, ?_⟩, hload⟩)) rfl
    simp [hhandlers]
  | interruptExit hhandlers hp =>
    rw [OwnedAt, hp] at h
    cases h.1
  | reap pid hdead =>
    obtain ⟨hnames, hunawaited⟩ := Classical.not_imp.mp hdisturbed
    exact h.mayMiss_reap hnames hunawaited

/-! ### Kills -/

theorem ownedAt_of_run {conditions : List Condition}
    (h : Run Runner.step Undisturbed (start conditions) s) : OwnedAt s := by
  refine h.invariant ?_ fun hat hundisturbed ht => hat.step hundisturbed ht
  exact ⟨rfl, by simp [start]⟩

theorem OwnedAt.ownsLoad (h : OwnedAt s) (hkill : KillNext s) : OwnsLoad s := by
  rcases hkill with ⟨outer, hhandlers⟩ | ⟨hhandlers, hp | hp⟩
  · rcases h.mode with ⟨-, htest⟩ | ⟨-, -, hnil, -⟩ | ⟨-, -, hwaiting⟩
    · rw [hhandlers] at htest
      cases (List.forall_mem_cons.mp htest).1
    · rw [hhandlers] at hnil
      cases hnil
    · rcases (hwaiting _ _ hhandlers).1 with hwait | hown
      · cases hwait
      · exact hown
  · rw [OwnedAt, hp] at h
    exact h.2.2
  · rw [OwnedAt, hp] at h
    cases h.1

/-- **Every `kill` goes to a load of the script** in undisturbed runs; and in a run that is
disturbed, one that does not may follow. -/
theorem kill_owned {conditions : List Condition}
    (h : Run step Undisturbed (start conditions) s) :
    (KillNext s → OwnsLoad s) ∧
      ∀ a s', step s a = some s' → ¬Undisturbed s a →
        ∃ t, Reachable step s' t ∧ KillNext t ∧ ¬OwnsLoad t := by
  have hat := ownedAt_of_run h
  refine ⟨hat.ownsLoad, ?_⟩
  intro a s' hs' hdisturbed
  exact hat.mayMiss hdisturbed hs'

instance (s : State) : Decidable (OwnsLoad s) :=
  inferInstanceAs (Decidable (∃ p ∈ s.children, s.loadPid = some p.pid))

instance (s : State) : Decidable (Awaited s) :=
  inferInstanceAs
    (Decidable ((s.point = .wait ∨ s.point = .clearAgain) ∧ ∀ c ∈ s.handlers, c = .wait))

instance (s : State) : Decidable (Harmless s) :=
  inferInstanceAs (Decidable (s.loadPid = none ∨ Awaited s ∧ OwnsLoad s))

instance (s : State) (pid : ℕ) : Decidable (Names s pid) :=
  inferInstanceAs (Decidable (s.loadPid = some pid ∨ s.point = .assign ∧ s.lastPid = some pid))

instance (s : State) : (a : Action) → Decidable (Undisturbed s a)
  | .signal | .interrupt => inferInstanceAs (Decidable (Harmless s))
  | .reap pid => inferInstanceAs (Decidable (Names s pid → Awaited s))
  | .pass _ | .command | .load _ _ => .isTrue trivial

/-- The commands from the `echo` before `timer_benchmark` to the `kill`. -/
def untilKill : List Action := [.command, .command, .pass 5000000000, .command, .command]

/-- INT interrupts the `wait` of `run_condition`, and its handler comes to its `kill`. -/
theorem kill_owned_interrupt :
    ∃ s, Run step Undisturbed (start schedule) s ∧ s.handlers = [.kill] ∧ OwnsLoad s := by
  obtain ⟨s, hs, hhandlers⟩ : ∃ s, exec step Undisturbed
      (untilRunning ++ untilKill ++ [.command, .interrupt, .command]) (start schedule) = some s ∧
        s.handlers = [.kill] := ⟨_, rfl, rfl⟩
  have hrun : Run step Undisturbed (start schedule) s := run_of_exec hs
  exact ⟨s, hrun, hhandlers, (kill_owned hrun).1 (Or.inl ⟨_, hhandlers⟩)⟩

/-- When INT arrives before `timer_benchmark` is started, its handler kills the load and waits for
it, and the `kill` of `run_condition` follows. -/
theorem kill_reaped :
    ¬∀ s, Reachable step (start schedule) s → KillNext s → OwnsLoad s := by
  intro h
  obtain ⟨s, hs, hhandlers, hp, hchildren⟩ : ∃ s, exec step (fun _ _ => True)
      (untilRunning ++ [.signal, .command, .command, .command] ++ untilKill)
      (start schedule) = some s ∧ s.handlers = [] ∧ s.point = .kill ∧ s.children = [] :=
    ⟨_, rfl, rfl, rfl, rfl⟩
  obtain ⟨p, hmem, -⟩ := h s (run_of_exec hs) (Or.inr ⟨hhandlers, Or.inl hp⟩)
  rw [hchildren] at hmem
  cases hmem

/-- Without a signal: the 90 seconds of the load are over before `timer_benchmark` has ended. -/
example : (exec step (fun _ _ => True)
    (untilRunning ++ [.command, .command, .pass 90000000000, .reap 100, .command, .command])
    (start schedule)).map (fun s => (s.point, s.loadPid, s.children.length)) =
      some (.kill, some 100, 0) := rfl

end Runner

end HrtimerStudy
