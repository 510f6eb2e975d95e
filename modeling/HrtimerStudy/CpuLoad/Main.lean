import HrtimerStudy.Lib.Transition
import Mathlib.Data.Int.Order.Basic

/-!
# The load generator

`main` of `cpu_load.c` from the point where `malloc` has succeeded, the threads it creates, and
the handler of SIGINT, as a machine in which any of them may take the next step.

The environment chooses the outcome of every `pthread_create`, the order of the steps, when the
seconds of `sleep` pass, and when SIGINT arrives. The handler may run in any thread; only in the
main thread does it end `sleep`. The first SIGINT may have come before the machine starts. A join
waits for its thread. A join of anything but a thread that is there to be joined, and a use of the
array after it is freed, have no defined result: the program stops at the point `undefined`.
Output is left out.

## Main definitions

* `Args` — the arguments that pass the check
* `Worker` — a thread in `cpu_worker`
* `Point`, `State`, `start` — the state of the program
* `Action`, `step` — what can happen
-/

namespace HrtimerStudy

namespace CpuLoad

/-- The arguments of a run, which have passed the check `workers <= 0 || seconds <= 0`. -/
structure Args where
  workers : ℕ
  seconds : ℕ
  workers_pos : 0 < workers
  seconds_pos : 0 < seconds

/-! ### `cpu_worker` -/

/-- Where a worker is in its loop. -/
inductive Phase
  /-- the test `!stop` -/
  | test
  | body
  /-- after the return -/
  | done
  deriving DecidableEq

/-- A thread that has not been joined. -/
structure Worker where
  tid : ℕ
  x : UInt64
  phase : Phase

/-- The three assignments of the loop body. -/
def scramble (x : UInt64) : UInt64 :=
  let x := x * 1103515245 + 12345
  let x := x ^^^ (x >>> 13)
  x * 2654435761

/-- A worker at its start. -/
def Worker.create (tid : ℕ) : Worker := ⟨tid, 123456789, .test⟩

/-- One step of a worker, which reads `stop` in the test. -/
def Worker.step (stop : Bool) (w : Worker) : Worker :=
  match w.phase with
  | .test => { w with phase := if stop then .done else .body }
  | .body => { w with x := scramble w.x, phase := .test }
  | .done => w

/-! ### States -/

/-- The next step of `main`. The two loops that join differ in their bound and in the status that
is returned after them. -/
inductive Point
  /-- `i < workers` -/
  | createTest (i : ℕ)
  /-- `pthread_create(&threads[i], ...)` -/
  | create (i : ℕ)
  /-- `stop = 1` after thread `i` could not be created -/
  | stopFailed (i : ℕ)
  /-- `sleep`, with the seconds that are left -/
  | sleep (left : ℕ)
  /-- `stop = 1` after `sleep` -/
  | setStop
  /-- `j < bound` -/
  | joinTest (status bound j : ℕ)
  /-- `pthread_join(threads[j], NULL)` -/
  | join (status bound j : ℕ)
  /-- `free(threads)` -/
  | free (status : ℕ)
  | returned (status : ℕ)
  | undefined
  deriving DecidableEq

/-- The state of the program. The last three fields are history: the threads created and the
threads joined, in order, and the number of times the array was freed. -/
structure State where
  stop : Bool
  /-- the array, until it is freed; an entry is `none` until it is written -/
  threads : Option (List (Option ℕ))
  workers : List Worker
  point : Point
  created : List ℕ
  joined : List ℕ
  frees : ℕ

/-- After `malloc`. Only a SIGINT can have set `stop` by then. -/
def start (args : Args) (stop : Bool) : State :=
  { stop := stop
    threads := some (List.replicate args.workers none)
    workers := []
    point := .createTest 0
    created := []
    joined := []
    frees := 0 }

/-- `threads[j]`, if the array is there, has the entry and it is written. -/
def State.thread (s : State) (j : ℕ) : Option ℕ := (s.threads.bind fun threads => threads[j]?).join

/-! ### Steps -/

/-- `pthread_create(&threads[i], ...)`, when it succeeds. -/
def create (s : State) (i tid : ℕ) : State :=
  match s.threads with
  | none => { s with point := .undefined }
  | some threads =>
    if i < threads.length then
      { s with
        threads := some (threads.set i (some tid))
        workers := s.workers ++ [Worker.create tid]
        created := s.created ++ [tid]
        point := .createTest (i + 1) }
    else { s with point := .undefined }

/-- `pthread_join(threads[j], NULL)`, which is blocked until the thread has returned. -/
def join (s : State) (j : ℕ) (next : Point) : Option State :=
  match s.thread j with
  | none => some { s with point := .undefined }
  | some tid =>
    match s.workers.find? fun w => w.tid = tid with
    | none => some { s with point := .undefined }
    | some w =>
      if w.phase = .done then
        some { s with
          workers := s.workers.filter fun w => w.tid ≠ tid
          joined := s.joined ++ [tid]
          point := next }
      else none

/-- One step of `main`, other than a `pthread_create`. -/
def main (args : Args) (s : State) : Option State :=
  match s.point with
  | .createTest i =>
    some { s with point := if i < args.workers then .create i else .sleep args.seconds }
  | .create _ => none
  | .stopFailed i => some { s with stop := true, point := .joinTest 1 i 0 }
  | .sleep 0 => some { s with point := .setStop }
  | .sleep (_ + 1) => none
  | .setStop => some { s with stop := true, point := .joinTest 0 args.workers 0 }
  | .joinTest status bound j =>
    some { s with point := if j < bound then .join status bound j else .free status }
  | .join status bound j => join s j (.joinTest status bound (j + 1))
  | .free status =>
    match s.threads with
    | none => some { s with point := .undefined }
    | some _ => some { s with threads := none, frees := s.frees + 1, point := .returned status }
  | .returned _ | .undefined => none

/-- The program has ended. -/
def Point.ended : Point → Bool
  | .returned _ | .undefined => true
  | _ => false

/-- A signal handler in the main thread ends `sleep`, and nothing else. -/
def Point.interrupted : Point → Point
  | .sleep _ => .setStop
  | point => point

inductive Action
  /-- `main` takes a step -/
  | main
  /-- `pthread_create` succeeds -/
  | created (tid : ℕ)
  /-- `pthread_create` fails -/
  | createFails
  /-- a worker takes a step -/
  | worker (tid : ℕ)
  /-- a second passes -/
  | second
  /-- `handle_sigint` runs, in the main thread or in another one -/
  | sigint (inMain : Bool)

def step (args : Args) (s : State) : Action → Option State
  | .main => main args s
  | .created tid =>
    match s.point with
    | .create i => if tid ∈ s.workers.map Worker.tid then none else some (create s i tid)
    | _ => none
  | .createFails =>
    match s.point with
    | .create i => some { s with point := .stopFailed i }
    | _ => none
  | .worker tid =>
    if s.point.ended then none
    else some { s with
      workers := s.workers.map fun w => if w.tid = tid then w.step s.stop else w }
  | .second =>
    match s.point with
    | .sleep (left + 1) => some { s with point := .sleep left }
    | _ => none
  | .sigint inMain =>
    if s.point.ended then none
    else some { s with
      stop := true
      point := if inMain then s.point.interrupted else s.point }

end CpuLoad

end HrtimerStudy
