import HrtimerStudy.Lib.Transition
import Mathlib.Data.Int.Order.Basic
import Mathlib.Data.List.Nodup

/-!
# The experiment runners

`run_condition` of `run_final_experiment.sh` and `run_native_experiment.sh` (one text in both
files, apart from paths), the calls of it, and the trap `cleanup` for EXIT, INT and TERM, as a
machine.

INT and TERM are handled between two commands, or they interrupt `wait`; the handler is a call of
`cleanup`, which may be interrupted by another one, and when it returns the script goes on with
its next command. A signal during a foreground command is handled after it. Time passes at any
moment. A load that starts lives until it is killed or its 90 seconds are over; one that fails to
start is never alive. When a load has ended, bash reaps it at any moment, whether or not the script
waits for it, and from then on its PID is free. Output is left out.

## Main definitions

* `Condition`, `schedule` — the arguments of the calls
* `Proc`, `Point`, `Cleanup`, `State` — the state of a runner
* `Action`, `step` — what can happen
-/

namespace HrtimerStudy

namespace Runner

/-! ### The calls -/

/-- The arguments of `run_condition`. -/
structure Condition where
  delayNs : ℤ
  delayName : String
  loadName : String
  workers : ℤ

/-- The calls at the end of the scripts. -/
def schedule : List Condition :=
  [⟨100000, "100us", "idle", 0⟩, ⟨1000000, "1ms", "idle", 0⟩,
    ⟨10000000, "10ms", "idle", 0⟩, ⟨100000000, "100ms", "idle", 0⟩,
    ⟨100000, "100us", "moderate", 6⟩, ⟨1000000, "1ms", "moderate", 6⟩,
    ⟨10000000, "10ms", "moderate", 6⟩, ⟨100000000, "100ms", "moderate", 6⟩,
    ⟨100000, "100us", "heavy", 11⟩, ⟨1000000, "1ms", "heavy", 11⟩,
    ⟨10000000, "10ms", "heavy", 11⟩, ⟨100000000, "100ms", "heavy", 11⟩]

/-! ### Loads -/

/-- 90 seconds, in nanoseconds. -/
def loadTime : ℕ := 90000000000

/-- A `cpu_load` that has been started in the background and has its PID still. -/
structure Proc where
  pid : ℕ
  workers : ℤ
  startedAt : ℕ
  starts : Bool
  killed : Bool

/-- The two branches of `[ "$workers" -eq 6 ]`. -/
def loadWorkers (workers : ℤ) : ℤ := if workers = 6 then 6 else 11

def Proc.alive (p : Proc) (now : ℕ) : Bool :=
  p.starts && !p.killed && decide (now < p.startedAt + loadTime)

/-! ### States -/

/-- The next command of a call of `cleanup`. -/
inductive Cleanup
  | test
  | kill
  | wait
  deriving DecidableEq

/-- The next command of the script. Commands without effect on the state are merged with a
neighbour. -/
inductive Point
  /-- the commands around the calls -/
  | next
  /-- the assignments and the first `echo`s -/
  | announce
  /-- `LOAD_PID=""` -/
  | clear
  /-- `[ "$workers" -gt 0 ]` -/
  | testWorkers
  /-- `[ "$workers" -eq 6 ]` and `cpu_load ... &` -/
  | spawn
  /-- `LOAD_PID=$!` -/
  | assign
  /-- `sleep 1` -/
  | sleep
  /-- `echo "Running timer benchmark..."` -/
  | running
  /-- the start of `timer_benchmark` -/
  | benchmark
  /-- the end of `timer_benchmark`, which is running -/
  | measuring
  /-- the second `[ "$workers" -gt 0 ]` -/
  | testStop
  /-- `kill "$LOAD_PID"` -/
  | kill
  /-- `wait "$LOAD_PID"` -/
  | wait
  /-- the second `LOAD_PID=""` -/
  | clearAgain
  /-- `echo "Completed: $csv"` -/
  | completed
  /-- `grep`, and the return -/
  | summary
  /-- the EXIT trap, up to its end -/
  | exit (command : Option Cleanup)
  | exited
  deriving DecidableEq

/-- The state of a runner. The last three fields are history: the load started by the current call,
when its 90 seconds are over, and whether it has been alive since the start of `timer_benchmark`. -/
structure State where
  now : ℕ
  /-- the calls that have not returned -/
  calls : List Condition
  /-- `LOAD_PID`, if it is set and not empty -/
  loadPid : Option ℕ
  /-- `$!` -/
  lastPid : Option ℕ
  /-- the loads that bash has not reaped -/
  children : List Proc
  point : Point
  /-- the handlers that have not returned, the innermost first -/
  handlers : List Cleanup
  conditionPid : Option ℕ
  conditionEnd : ℕ
  loaded : Bool

namespace State

/-- `$workers`. -/
def workers (s : State) : ℤ :=
  match s.calls with
  | [] => 0
  | c :: _ => c.workers

def liveLoads (s : State) : List Proc := s.children.filter fun p => p.alive s.now

/-- The load of the current call is alive. -/
def loadAlive (s : State) : Bool :=
  s.children.any fun p => decide (s.conditionPid = some p.pid) && p.alive s.now

/-- Keep the history up to date. -/
def observe (s : State) : State :=
  if s.point = .measuring then { s with loaded := s.loaded && s.loadAlive } else s

/-- Nothing but the history changes. -/
@[simp] theorem observe_eq (s : State) :
    s.observe = { s with
      loaded := if s.point = .measuring then s.loaded && s.loadAlive else s.loaded } := by
  rw [observe]
  split_ifs <;> rfl

theorem workers_congr {s s' : State} (h : s'.calls = s.calls) : s'.workers = s.workers := by
  rw [workers, workers, h]

end State

/-- Where a script with these calls is after it has set the trap. -/
def start (conditions : List Condition) : State :=
  { now := 0
    calls := conditions
    loadPid := none
    lastPid := none
    children := []
    point := .next
    handlers := []
    conditionPid := none
    conditionEnd := 0
    loaded := false }

/-! ### Commands -/

/-- Bash reaps a child. -/
def reapChild (s : State) (pid : ℕ) : State :=
  { s with children := s.children.filter fun p => p.pid ≠ pid }

/-- `kill "$LOAD_PID"`. A PID that is not a child's is not followed any further. -/
def killLoad (s : State) : State :=
  { s with
    children := s.children.map fun p =>
      if s.loadPid = some p.pid then { p with killed := true } else p }

/-- `wait "$LOAD_PID"`, which is blocked while that child is alive. For one that has been reaped
before it returns at once. -/
def waitLoad (s : State) : Option State :=
  if s.children.any fun p => decide (s.loadPid = some p.pid) && p.alive s.now then none
  else some { s with children := s.children.filter fun p => s.loadPid ≠ some p.pid }

/-- One command of `cleanup`, and the next one unless it returns. -/
def cleanup (s : State) : Cleanup → Option (State × Option Cleanup)
  | .test => some (s, if s.loadPid.isSome then some .kill else none)
  | .kill => some (killLoad s, some .wait)
  | .wait => (waitLoad s).map fun s => (s, none)

/-- One command of the script, other than the start of a load. -/
def command (s : State) : Option State :=
  match s.point with
  | .next =>
    match s.calls with
    | [] => some { s with point := .exit (some .test) }
    | _ :: _ => some { s with point := .announce }
  | .announce => some { s with point := .clear, conditionPid := none }
  | .clear => some { s with point := .testWorkers, loadPid := none }
  | .testWorkers => some { s with point := if s.workers > 0 then .spawn else .running }
  | .spawn => none
  | .assign => some { s with point := .sleep, loadPid := s.lastPid }
  | .sleep => some { s with point := .running }
  | .running => some { s with point := .benchmark }
  | .benchmark => some { s with point := .measuring, loaded := true }.observe
  | .measuring => some { s with point := .testStop }
  | .testStop => some { s with point := if s.workers > 0 then .kill else .completed }
  | .kill => some { killLoad s with point := .wait }
  | .wait => (waitLoad s).map fun s => { s with point := .clearAgain }
  | .clearAgain => some { s with point := .completed, loadPid := none }
  | .completed => some { s with point := .summary }
  | .summary => some { s with point := .next, calls := s.calls.tail }
  | .exit (some c) => (cleanup s c).map fun r => { r.1 with point := .exit r.2 }
  | .exit none => some { s with point := .exited }
  | .exited => none

/-! ### Steps -/

inductive Action
  /-- time passes -/
  | pass (d : ℕ)
  /-- INT or TERM is handled between two commands -/
  | signal
  /-- INT or TERM interrupts `wait` -/
  | interrupt
  /-- the next command -/
  | command
  /-- the next command, when it is the start of a load -/
  | load (pid : ℕ) (starts : Bool)
  /-- bash handles SIGCHLD for a load that has ended -/
  | reap (pid : ℕ)

def step (s : State) : Action → Option State
  | .pass d => some { s with now := s.now + d }.observe
  | .signal =>
    if s.point = .measuring ∨ s.point = .exited then none
    else some { s with handlers := .test :: s.handlers }
  | .interrupt =>
    match s.handlers, s.point with
    | .wait :: outer, _ => some { s with handlers := .test :: outer }
    | [], .wait => some { s with point := .clearAgain, handlers := [.test] }
    | [], .exit (some .wait) => some { s with point := .exit none, handlers := [.test] }
    | _, _ => none
  | .command =>
    match s.handlers with
    | [] => command s
    | c :: outer => (cleanup s c).map fun r => { r.1 with handlers := r.2.toList ++ outer }
  | .load pid starts =>
    if s.handlers = [] ∧ s.point = .spawn ∧ pid ∉ s.children.map Proc.pid then
      some { s with
        point := .assign
        lastPid := some pid
        conditionPid := some pid
        conditionEnd := s.now + loadTime
        children := ⟨pid, loadWorkers s.workers, s.now, starts, false⟩ :: s.children }
    else none
  | .reap pid =>
    if (∃ p ∈ s.children, p.pid = pid) ∧ ∀ p ∈ s.children, p.pid = pid → p.alive s.now = false then
      some (reapChild s pid)
    else none

end Runner

end HrtimerStudy
