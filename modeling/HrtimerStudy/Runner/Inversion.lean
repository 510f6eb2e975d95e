import HrtimerStudy.Runner.Script

/-!
# What a step of a runner comes to

The commands and the steps of a runner, taken apart once. What a step preserves is shown case by
case.

## Main definitions

* `Commanded` — a command of the script
* `Stepped` — a step

## Main results

* `commanded_of_command`, `stepped_of_step`
-/

namespace HrtimerStudy

namespace Runner

variable {s s' : State}

/-- What a command of the script comes to. -/
inductive Commanded (s : State) : State → Prop
  | next (hp : s.point = .next) {q : Point} (hq : q = .announce ∨ q = .exit (some .test)) :
    Commanded s { s with point := q }
  | announce (hp : s.point = .announce) :
    Commanded s { s with point := .clear, conditionPid := none }
  | clear (hp : s.point = .clear) : Commanded s { s with point := .testWorkers, loadPid := none }
  | spawnNext (hp : s.point = .testWorkers) (hw : s.workers > 0) :
    Commanded s { s with point := .spawn }
  | noSpawn (hp : s.point = .testWorkers) (hw : ¬s.workers > 0) :
    Commanded s { s with point := .running }
  | assign (hp : s.point = .assign) :
    Commanded s { s with point := .sleep, loadPid := s.lastPid }
  | sleep (hp : s.point = .sleep) : Commanded s { s with point := .running }
  | running (hp : s.point = .running) : Commanded s { s with point := .benchmark }
  | benchmark (hp : s.point = .benchmark) :
    Commanded s { s with point := .measuring, loaded := s.loadAlive }
  | measuring (hp : s.point = .measuring) : Commanded s { s with point := .testStop }
  | killNext (hp : s.point = .testStop) (hw : s.workers > 0) :
    Commanded s { s with point := .kill }
  | noKill (hp : s.point = .testStop) (hw : ¬s.workers > 0) :
    Commanded s { s with point := .completed }
  | kill (hp : s.point = .kill) : Commanded s { killLoad s with point := .wait }
  | wait (hp : s.point = .wait) {t : State} (ht : waitLoad s = some t) :
    Commanded s { t with point := .clearAgain }
  | clearAgain (hp : s.point = .clearAgain) :
    Commanded s { s with point := .completed, loadPid := none }
  | completed (hp : s.point = .completed) : Commanded s { s with point := .summary }
  | summary (hp : s.point = .summary) :
    Commanded s { s with point := .next, calls := s.calls.tail }
  /-- the EXIT trap -/
  | trap {c : Cleanup} (hp : s.point = .exit (some c)) {t : State} {c' : Option Cleanup}
    (ht : cleanup s c = some (t, c')) : Commanded s { t with point := .exit c' }
  | exit (hp : s.point = .exit none) : Commanded s { s with point := .exited }

theorem commanded_of_command (h : command s = some s') : Commanded s s' := by
  rw [command] at h
  cases hp : s.point with
  | next =>
    rw [hp] at h
    dsimp only at h
    split at h
    · exact Option.some.inj h ▸ .next hp (Or.inr rfl)
    · exact Option.some.inj h ▸ .next hp (Or.inl rfl)
  | testWorkers =>
    rw [hp] at h
    obtain rfl := Option.some.inj h
    split_ifs with hw
    · exact .spawnNext hp hw
    · exact .noSpawn hp hw
  | testStop =>
    rw [hp] at h
    obtain rfl := Option.some.inj h
    split_ifs with hw
    · exact .killNext hp hw
    · exact .noKill hp hw
  | wait =>
    rw [hp] at h
    obtain ⟨t, ht, rfl⟩ := Option.map_eq_some_iff.mp h
    exact .wait hp ht
  | exit c =>
    rw [hp] at h
    cases c with
    | none =>
      obtain rfl := Option.some.inj h
      exact .exit hp
    | some c =>
      obtain ⟨⟨t, c'⟩, ht, rfl⟩ := Option.map_eq_some_iff.mp h
      exact .trap hp ht
  | spawn | exited => simp [hp] at h
  | announce =>
    rw [hp] at h
    exact Option.some.inj h ▸ .announce hp
  | clear =>
    rw [hp] at h
    exact Option.some.inj h ▸ .clear hp
  | assign =>
    rw [hp] at h
    exact Option.some.inj h ▸ .assign hp
  | sleep =>
    rw [hp] at h
    exact Option.some.inj h ▸ .sleep hp
  | running =>
    rw [hp] at h
    exact Option.some.inj h ▸ .running hp
  | benchmark =>
    rw [hp] at h
    exact Option.some.inj h ▸ .benchmark hp
  | measuring =>
    rw [hp] at h
    exact Option.some.inj h ▸ .measuring hp
  | kill =>
    rw [hp] at h
    exact Option.some.inj h ▸ .kill hp
  | clearAgain =>
    rw [hp] at h
    exact Option.some.inj h ▸ .clearAgain hp
  | completed =>
    rw [hp] at h
    exact Option.some.inj h ▸ .completed hp
  | summary =>
    rw [hp] at h
    exact Option.some.inj h ▸ .summary hp

/-- What a step comes to. -/
inductive Stepped (s : State) : Action → State → Prop
  | pass (d : ℕ) : Stepped s (.pass d) { s with now := s.now + d }.observe
  | signal (hp : ¬(s.point = .measuring ∨ s.point = .exited)) :
    Stepped s .signal { s with handlers := .test :: s.handlers }
  /-- a handler waits -/
  | interruptHandler {outer : List Cleanup} (hhandlers : s.handlers = .wait :: outer) :
    Stepped s .interrupt { s with handlers := .test :: outer }
  /-- `run_condition` waits -/
  | interruptScript (hhandlers : s.handlers = []) (hp : s.point = .wait) :
    Stepped s .interrupt { s with point := .clearAgain, handlers := [.test] }
  /-- the EXIT trap waits -/
  | interruptExit (hhandlers : s.handlers = []) (hp : s.point = .exit (some .wait)) :
    Stepped s .interrupt { s with point := .exit none, handlers := [.test] }
  | command (hhandlers : s.handlers = []) {s' : State} (h : Commanded s s') : Stepped s .command s'
  | handler {c : Cleanup} {outer : List Cleanup} (hhandlers : s.handlers = c :: outer) {t : State}
    {c' : Option Cleanup} (ht : cleanup s c = some (t, c')) :
    Stepped s .command { t with handlers := c'.toList ++ outer }
  | load {pid : ℕ} {starts : Bool} (hp : s.point = .spawn)
    (hpid : pid ∉ s.children.map Proc.pid) : Stepped s (.load pid starts) { s with
      point := .assign
      lastPid := some pid
      conditionPid := some pid
      conditionEnd := s.now + loadTime
      children := ⟨pid, loadWorkers s.workers, s.now, starts, false⟩ :: s.children }
  | reap (pid : ℕ) (hdead : ∀ p ∈ s.children, p.pid = pid → p.alive s.now = false) :
    Stepped s (.reap pid) (reapChild s pid)

theorem stepped_of_step {a : Action} (h : step s a = some s') : Stepped s a s' := by
  cases a with
  | pass d => exact Option.some.inj h ▸ .pass d
  | signal =>
    simp only [step] at h
    split_ifs at h with hp
    exact Option.some.inj h ▸ .signal hp
  | interrupt =>
    simp only [step] at h
    split at h
    · exact Option.some.inj h ▸ .interruptHandler ‹_›
    · exact Option.some.inj h ▸ .interruptScript ‹_› ‹_›
    · exact Option.some.inj h ▸ .interruptExit ‹_› ‹_›
    · cases h
  | command =>
    simp only [step] at h
    cases hhandlers : s.handlers with
    | nil =>
      rw [hhandlers] at h
      exact .command hhandlers (commanded_of_command h)
    | cons c outer =>
      rw [hhandlers] at h
      obtain ⟨⟨t, c'⟩, ht, rfl⟩ := Option.map_eq_some_iff.mp h
      exact .handler hhandlers ht
  | load pid starts =>
    simp only [step] at h
    split_ifs at h with hload
    exact Option.some.inj h ▸ .load hload.2.1 hload.2.2
  | reap pid =>
    simp only [step] at h
    split_ifs at h with hdead
    exact Option.some.inj h ▸ .reap pid hdead.2

end Runner

end HrtimerStudy
