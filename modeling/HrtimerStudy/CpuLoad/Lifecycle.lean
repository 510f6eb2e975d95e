import HrtimerStudy.CpuLoad.Main
import Mathlib.Data.List.Nodup

/-!
# The threads of the load generator

What holds in every state that `cpu_load` can be in, in whatever order its threads run, wherever a
`pthread_create` fails and whenever SIGINT arrives. The threads that are there are those created
and not yet joined, in the order of their creation, so each join meets the first of them.

## Main definitions

* `Inv` — the invariant
* `rank` — how far `main` is from its return

## Main results

* `Inv.step` — every step keeps the invariant
* `Inv.exists_rank_lt` — some step brings `main` closer to its return
* `lifecycle` — **every thread is joined once, after `stop` is set, and then the array is freed**
-/

namespace HrtimerStudy

namespace CpuLoad

variable {args : Args} {s s' : State}

/-! ### Workers -/

@[simp] theorem Worker.tid_step (stop : Bool) (w : Worker) : (w.step stop).tid = w.tid := by
  cases hphase : w.phase <;> simp only [Worker.step, hphase]

/-- Once `stop` is set, a worker returns within two of its steps. -/
theorem Worker.step_step_done (w : Worker) : ((w.step true).step true).phase = .done := by
  cases hphase : w.phase <;> simp [Worker.step, hphase]

/-- A step of one worker does not change who is there. -/
theorem map_tid_step (stop : Bool) (tid : ℕ) (workers : List Worker) :
    (workers.map fun w => if w.tid = tid then w.step stop else w).map Worker.tid
      = workers.map Worker.tid := by
  rw [List.map_map]
  refine List.map_congr_left fun w _ => ?_
  show (if w.tid = tid then w.step stop else w).tid = w.tid
  split_ifs
  · exact w.tid_step stop
  · rfl

/-! ### The invariant -/

/-- The array, when these threads have been created. -/
def threadArray (args : Args) (created : List ℕ) : List (Option ℕ) :=
  created.map some ++ List.replicate (args.workers - created.length) none

/-- The status that goes with the threads created. -/
def Outcome (args : Args) (s : State) (status : ℕ) : Prop :=
  status = 0 ∧ s.created.length = args.workers ∨ status = 1 ∧ s.created.length < args.workers

/-- What a point says about the counters, about `stop` and about the threads. -/
def AtPoint (args : Args) (s : State) : Point → Prop
  | .createTest i => i = s.created.length ∧ s.joined = []
  | .create i | .stopFailed i => i = s.created.length ∧ i < args.workers ∧ s.joined = []
  | .sleep _ | .setStop => s.created.length = args.workers ∧ s.joined = []
  | .joinTest status bound j =>
    s.stop = true ∧ bound = s.created.length ∧ j = s.joined.length ∧ Outcome args s status
  | .join status bound j =>
    s.stop = true ∧ bound = s.created.length ∧ j = s.joined.length ∧ j < bound ∧
      Outcome args s status
  | .free status | .returned status =>
    s.stop = true ∧ s.joined = s.created ∧ Outcome args s status
  | .undefined => False

/-- The invariant. -/
structure Inv (args : Args) (s : State) : Prop where
  nodup : s.created.Nodup
  length_le : s.created.length ≤ args.workers
  alive : s.joined ++ s.workers.map Worker.tid = s.created
  threads : s.threads = if s.point.ended then none else some (threadArray args s.created)
  frees : s.frees = if s.point.ended then 1 else 0
  atPoint : AtPoint args s s.point

theorem inv_start (stop : Bool) : Inv args (start args stop) where
  nodup := List.nodup_nil
  length_le := Nat.zero_le _
  alive := rfl
  threads := rfl
  frees := rfl
  atPoint := ⟨rfl, rfl⟩

/-- Between two points that do not end the program, only what they say is left to show. -/
theorem Inv.move (h : Inv args s) (hpoint : s.point.ended = false) {stop : Bool} {point : Point}
    (hended : point.ended = false)
    (hat : AtPoint args { s with stop := stop, point := point } point) :
    Inv args { s with stop := stop, point := point } where
  nodup := h.nodup
  length_le := h.length_le
  alive := h.alive
  threads := by simpa [hpoint, hended] using h.threads
  frees := by simpa [hpoint, hended] using h.frees
  atPoint := hat

/-- No point asks for `stop` not to be set. -/
theorem Inv.signal (h : Inv args s) (hpoint : s.point.ended = false) {point : Point}
    (hended : point.ended = false) (hat : AtPoint args s point) :
    Inv args { s with stop := true, point := point } := by
  refine h.move hpoint hended ?_
  cases point with
  | joinTest status bound j | join status bound j | free status => exact ⟨rfl, hat.2⟩
  | returned status | undefined => cases hended
  | createTest i | create i | stopFailed i | sleep left | setStop => exact hat

@[simp] theorem Point.ended_interrupted (point : Point) :
    point.interrupted.ended = point.ended := by
  cases point <;> rfl

theorem AtPoint.interrupted {point : Point} (h : AtPoint args s point) :
    AtPoint args s point.interrupted := by
  cases point <;> exact h

/-! ### Creation -/

theorem threadArray_concat {created : List ℕ} (hlt : created.length < args.workers) (tid : ℕ) :
    (threadArray args created).set created.length (some tid)
      = threadArray args (created ++ [tid]) := by
  -- the entry written is the first of the unwritten ones
  have hrest : args.workers - created.length = (args.workers - (created.length + 1)) + 1 := by
    omega
  rw [threadArray, hrest, List.replicate_succ, threadArray]
  simp

theorem Inv.create (h : Inv args s) {i tid : ℕ} (hpoint : s.point = .create i)
    (hfresh : tid ∉ s.workers.map Worker.tid) : Inv args (create s i tid) := by
  have hat := h.atPoint
  rw [hpoint] at hat
  obtain ⟨rfl, hlt, hjoined⟩ := hat
  have halive : s.workers.map Worker.tid = s.created := by simpa [hjoined] using h.alive
  have hthreads : s.threads = some (threadArray args s.created) := by
    rw [h.threads, hpoint]
    rfl
  have hlen : s.created.length < (threadArray args s.created).length := by
    simp only [threadArray, List.length_append, List.length_map, List.length_replicate]
    omega
  rw [halive] at hfresh
  rw [CpuLoad.create, hthreads]
  simp only [hlen, if_true]
  refine ⟨?_, ?_, ?_, ?_, ?_, ?_⟩
  · refine List.nodup_append.mpr ⟨h.nodup, List.nodup_singleton tid, ?_⟩
    rintro a ha b hb rfl
    obtain rfl := List.mem_singleton.mp hb
    exact hfresh ha
  · simp only [List.length_append, List.length_singleton]
    omega
  · simp [hjoined, halive, Worker.create]
  · rw [threadArray_concat hlt]
    rfl
  · simpa [hpoint, Point.ended] using h.frees
  · exact ⟨by simp, hjoined⟩

/-! ### Joins -/

/-- A join meets the first of the threads that are there. -/
theorem Inv.join_eq (h : Inv args s) {status bound j : ℕ}
    (hpoint : s.point = .join status bound j) (next : Point) :
    ∃ w rest, s.workers = w :: rest ∧
      join s j next = if w.phase = .done then
          some { s with workers := rest, joined := s.joined ++ [w.tid], point := next }
        else none := by
  have hat := h.atPoint
  rw [hpoint] at hat
  obtain ⟨-, hbound, hj, hlt, -⟩ := hat
  have halive := h.alive
  cases hworkers : s.workers with
  | nil =>
    rw [hworkers, List.map_nil, List.append_nil] at halive
    rw [← halive] at hbound
    omega
  | cons w rest =>
    rw [hworkers, List.map_cons] at halive
    have hthread : s.thread j = some w.tid := by
      rw [State.thread, h.threads, hpoint, threadArray, ← halive, hj]
      simp [Point.ended]
    have hnodup := h.nodup
    rw [← halive] at hnodup
    have hfresh : ∀ v ∈ rest, v.tid ≠ w.tid := by
      intro v hv heq
      have hrest := (List.nodup_cons.mp hnodup.of_append_right).1
      exact hrest (List.mem_map.mpr ⟨v, hv, heq⟩)
    refine ⟨w, rest, rfl, ?_⟩
    have hfilter : (w :: rest).filter (fun v => v.tid ≠ w.tid) = rest := by
      rw [List.filter_cons_of_neg (by simp), List.filter_eq_self]
      simpa using hfresh
    rw [join, hthread, hworkers]
    simp only [List.find?_cons, decide_true, hfilter]

theorem Inv.join (h : Inv args s) {status bound j : ℕ} (hpoint : s.point = .join status bound j)
    (hjoin : join s j (.joinTest status bound (j + 1)) = some s') : Inv args s' := by
  have hat := h.atPoint
  rw [hpoint] at hat
  obtain ⟨hstop, hbound, hj, hlt, houtcome⟩ := hat
  obtain ⟨w, rest, hworkers, heq⟩ := h.join_eq hpoint (.joinTest status bound (j + 1))
  rw [heq, Option.ite_none_right_eq_some] at hjoin
  obtain rfl := Option.some.inj hjoin.2
  have halive := h.alive
  rw [hworkers] at halive
  exact
    { nodup := h.nodup
      length_le := h.length_le
      alive := by simpa using halive
      threads := by simpa [hpoint, Point.ended] using h.threads
      frees := by simpa [hpoint, Point.ended] using h.frees
      atPoint := ⟨hstop, hbound, by simpa using hj, houtcome⟩ }

/-! ### Steps -/

/-- The steps of `main` other than a `pthread_create`. -/
theorem Inv.main (h : Inv args s) (hmain : main args s = some s') : Inv args s' := by
  have hat := h.atPoint
  rw [CpuLoad.main] at hmain
  cases hpoint : s.point with
  | createTest i =>
    simp only [hpoint, Option.some.injEq] at hmain hat
    obtain ⟨hi, hjoined⟩ := hat
    subst hmain
    have hle := h.length_le
    by_cases htest : i < args.workers
    · simp only [htest, if_true]
      exact h.move (by rw [hpoint]; rfl) rfl ⟨hi, htest, hjoined⟩
    · simp only [htest, if_false]
      exact h.move (by rw [hpoint]; rfl) rfl ⟨by show s.created.length = _; omega, hjoined⟩
  | create i => simp [hpoint] at hmain
  | stopFailed i =>
    simp only [hpoint, Option.some.injEq] at hmain hat
    obtain ⟨hi, hlt, hjoined⟩ := hat
    subst hmain
    refine h.move (by rw [hpoint]; rfl) rfl ⟨rfl, hi, ?_, Or.inr ⟨rfl, ?_⟩⟩
    · rw [hjoined]
      rfl
    · show s.created.length < _
      omega
  | sleep left =>
    cases left with
    | zero =>
      simp only [hpoint, Option.some.injEq] at hmain hat
      subst hmain
      exact h.move (by rw [hpoint]; rfl) rfl hat
    | succ left => simp [hpoint] at hmain
  | setStop =>
    simp only [hpoint, Option.some.injEq] at hmain hat
    obtain ⟨hlen, hjoined⟩ := hat
    subst hmain
    refine h.move (by rw [hpoint]; rfl) rfl ⟨rfl, hlen.symm, ?_, Or.inl ⟨rfl, hlen⟩⟩
    rw [hjoined]
    rfl
  | joinTest status bound j =>
    simp only [hpoint, Option.some.injEq] at hmain hat
    obtain ⟨hstop, hbound, hj, houtcome⟩ := hat
    subst hmain
    by_cases htest : j < bound
    · simp only [htest, if_true]
      exact h.move (by rw [hpoint]; rfl) rfl ⟨hstop, hbound, hj, htest, houtcome⟩
    · simp only [htest, if_false]
      refine h.move (by rw [hpoint]; rfl) rfl ⟨hstop, ?_, houtcome⟩
      -- nobody is left
      have halive := h.alive
      have hlen := congrArg List.length halive
      rw [List.length_append] at hlen
      have hnil : s.workers.map Worker.tid = [] := List.eq_nil_of_length_eq_zero (by omega)
      simpa [hnil] using halive
  | join status bound j =>
    simp only [hpoint] at hmain
    exact h.join hpoint hmain
  | free status =>
    have hthreads := h.threads
    simp only [hpoint, Point.ended, Bool.false_eq_true, if_false] at hthreads
    simp only [hpoint, hthreads, Option.some.injEq] at hmain hat
    subst hmain
    exact
      { nodup := h.nodup
        length_le := h.length_le
        alive := h.alive
        threads := rfl
        frees := by simp [h.frees, hpoint, Point.ended]
        atPoint := hat }
  | returned status => simp [hpoint] at hmain
  | undefined => simp [hpoint] at hmain

/-- The step lemma. -/
theorem Inv.step (h : Inv args s) {a : Action} (hstep : step args s a = some s') :
    Inv args s' := by
  have hat := h.atPoint
  cases a with
  | main => exact h.main hstep
  | created tid =>
    cases hpoint : s.point with
    | create i =>
      simp only [CpuLoad.step, hpoint] at hstep
      split_ifs at hstep with hfresh
      obtain rfl := Option.some.inj hstep
      exact h.create hpoint hfresh
    | _ => simp [CpuLoad.step, hpoint] at hstep
  | createFails =>
    cases hpoint : s.point with
    | create i =>
      simp only [CpuLoad.step, hpoint, Option.some.injEq] at hstep
      subst hstep
      rw [hpoint] at hat
      exact h.move (by rw [hpoint]; rfl) rfl hat
    | _ => simp [CpuLoad.step, hpoint] at hstep
  | worker tid =>
    rw [CpuLoad.step] at hstep
    split_ifs at hstep
    obtain rfl := Option.some.inj hstep
    exact { h with alive := by rw [map_tid_step]; exact h.alive }
  | second =>
    cases hpoint : s.point with
    | sleep left =>
      cases left with
      | zero => simp [CpuLoad.step, hpoint] at hstep
      | succ left =>
        simp only [CpuLoad.step, hpoint, Option.some.injEq] at hstep
        subst hstep
        rw [hpoint] at hat
        exact h.move (by rw [hpoint]; rfl) rfl hat
    | _ => simp [CpuLoad.step, hpoint] at hstep
  | sigint inMain =>
    simp only [CpuLoad.step] at hstep
    split_ifs at hstep with hended hmain
    · obtain rfl := Option.some.inj hstep
      have hrunning : s.point.ended = false := by simpa using hended
      exact h.signal hrunning (by rw [Point.ended_interrupted, hrunning]) hat.interrupted
    · obtain rfl := Option.some.inj hstep
      have hrunning : s.point.ended = false := by simpa using hended
      exact h.signal hrunning hrunning hat

/-- **The run lemma.** -/
theorem inv_of_reachable {stop : Bool} (h : Reachable (step args) (start args stop) s) :
    Inv args s :=
  Run.invariant h (inv_start stop) fun hinv _ hstep => hinv.step hstep

/-! ### Progress -/

/-- The steps a worker needs once `stop` is set. -/
def Phase.rank : Phase → ℕ
  | .body => 2
  | .test => 1
  | .done => 0

/-- A bound on the steps that lead to the return: a thread costs its join, the test of the loop
and its own last steps. -/
def rank (args : Args) (s : State) : ℕ :=
  match s.point with
  | .createTest _ => 5 * args.workers + args.seconds + 5
  | .create i => 5 * i + 4
  | .stopFailed i => 5 * i + 3
  | .sleep left => 5 * args.workers + left + 4
  | .setStop => 5 * args.workers + 3
  | .joinTest _ bound j => 5 * (bound - j) + 2
  | .join _ bound j => 5 * (bound - j) - 2 + ((s.workers.head?.map fun w => w.phase.rank).getD 0)
  | .free _ => 1
  | .returned _ | .undefined => 0

theorem Phase.rank_le (phase : Phase) : phase.rank ≤ 2 := by
  cases phase <;> decide

theorem Worker.rank_step {w : Worker} (h : w.phase ≠ .done) :
    (w.step true).phase.rank < w.phase.rank := by
  cases hphase : w.phase with
  | test => simp [Worker.step, hphase, Phase.rank]
  | body => simp [Worker.step, hphase, Phase.rank]
  | done => exact absurd hphase h

/-- `main` has returned. -/
def State.Returned (s : State) : Prop := ∃ status, s.point = .returned status

/-- **Nobody waits forever**: as long as `main` has not returned, some step brings it closer. -/
theorem Inv.exists_rank_lt (h : Inv args s) (hreturned : ¬ s.Returned) :
    ∃ a s', CpuLoad.step args s a = some s' ∧ rank args s' < rank args s := by
  have hat := h.atPoint
  have hmain : CpuLoad.step args s .main = CpuLoad.main args s := rfl
  rw [CpuLoad.main] at hmain
  cases hpoint : s.point with
  | createTest i =>
    rw [hpoint] at hat hmain
    refine ⟨.main, _, hmain, ?_⟩
    by_cases htest : i < args.workers
    · simp only [rank, hpoint, htest, if_true]
      omega
    · simp only [rank, hpoint, htest, if_false]
      omega
  | create i =>
    refine ⟨.createFails, _, by rw [CpuLoad.step, hpoint], ?_⟩
    simp only [rank, hpoint]
    omega
  | stopFailed i =>
    rw [hpoint] at hmain
    refine ⟨.main, _, hmain, ?_⟩
    simp only [rank, hpoint]
    omega
  | sleep left =>
    rw [hpoint] at hmain
    cases left with
    | zero =>
      refine ⟨.main, _, hmain, ?_⟩
      simp only [rank, hpoint]
      omega
    | succ left =>
      refine ⟨.second, _, by rw [CpuLoad.step, hpoint], ?_⟩
      simp only [rank, hpoint]
      omega
  | setStop =>
    rw [hpoint] at hmain
    refine ⟨.main, _, hmain, ?_⟩
    simp only [rank, hpoint]
    omega
  | joinTest status bound j =>
    rw [hpoint] at hmain
    refine ⟨.main, _, hmain, ?_⟩
    have hfirst : ((s.workers.head?.map fun w => w.phase.rank).getD 0) ≤ 2 := by
      cases s.workers with
      | nil => exact Nat.zero_le _
      | cons w rest => exact w.phase.rank_le
    by_cases htest : j < bound
    · simp only [rank, hpoint, htest, if_true]
      omega
    · simp only [rank, hpoint, htest, if_false]
      omega
  | join status bound j =>
    rw [hpoint] at hmain hat
    obtain ⟨hstop, -, -, hlt, -⟩ := hat
    obtain ⟨w, rest, hworkers, heq⟩ := h.join_eq hpoint (.joinTest status bound (j + 1))
    by_cases hdone : w.phase = .done
    · -- the thread has returned, so the join is not blocked
      rw [if_pos hdone] at heq
      refine ⟨.main, _, hmain.trans heq, ?_⟩
      simp only [rank, hpoint]
      omega
    · -- it has not, but it is free to take a step
      refine ⟨.worker w.tid, _, by rw [CpuLoad.step, hpoint]; rfl, ?_⟩
      have hstep := Worker.rank_step hdone
      simp only [rank, hpoint, hworkers, hstop, List.map_cons, if_true, List.head?_cons,
        Option.map_some, Option.getD_some]
      omega
  | free status =>
    have hthreads := h.threads
    simp only [hpoint, Point.ended, Bool.false_eq_true, if_false] at hthreads
    rw [hpoint, hthreads] at hmain
    refine ⟨.main, _, hmain, ?_⟩
    simp only [rank, hpoint]
    omega
  | returned status => exact absurd ⟨status, hpoint⟩ hreturned
  | undefined =>
    rw [hpoint] at hat
    exact hat.elim

/-! ### Every run -/

theorem stop_create (s : State) (i tid : ℕ) : (create s i tid).stop = s.stop := by
  rw [create]
  split
  · rfl
  · split_ifs <;> rfl

theorem stop_join {j : ℕ} {next : Point} (hjoin : join s j next = some s') :
    s'.stop = s.stop := by
  rw [join] at hjoin
  split at hjoin
  · obtain rfl := Option.some.inj hjoin
    rfl
  · split at hjoin
    · obtain rfl := Option.some.inj hjoin
      rfl
    · rw [Option.ite_none_right_eq_some] at hjoin
      obtain rfl := Option.some.inj hjoin.2
      rfl

theorem stop_main (hmain : main args s = some s') (hstop : s.stop = true) : s'.stop = true := by
  rw [main] at hmain
  cases hpoint : s.point with
  | createTest i | joinTest status bound j =>
    simp only [hpoint, Option.some.injEq] at hmain
    rw [← hmain]
    exact hstop
  | stopFailed i | setStop =>
    simp only [hpoint, Option.some.injEq] at hmain
    rw [← hmain]
  | sleep left =>
    cases left with
    | zero =>
      simp only [hpoint, Option.some.injEq] at hmain
      rw [← hmain]
      exact hstop
    | succ left => simp [hpoint] at hmain
  | join status bound j =>
    simp only [hpoint] at hmain
    rwa [stop_join hmain]
  | free status =>
    simp only [hpoint] at hmain
    split at hmain <;> obtain rfl := Option.some.inj hmain <;> exact hstop
  | create i | returned status | undefined => simp [hpoint] at hmain

/-- `stop` never goes back. -/
theorem stop_step {a : Action} (hstep : step args s a = some s') (hstop : s.stop = true) :
    s'.stop = true := by
  cases a with
  | main => exact stop_main hstep hstop
  | created tid =>
    simp only [step] at hstep
    split at hstep
    · split_ifs at hstep
      obtain rfl := Option.some.inj hstep
      rwa [stop_create]
    · cases hstep
  | createFails | second =>
    simp only [step] at hstep
    split at hstep
    · obtain rfl := Option.some.inj hstep
      exact hstop
    · cases hstep
  | worker tid =>
    rw [step] at hstep
    split_ifs at hstep
    obtain rfl := Option.some.inj hstep
    exact hstop
  | sigint inMain =>
    simp only [step] at hstep
    split_ifs at hstep <;> obtain rfl := Option.some.inj hstep <;> rfl

/-- What is asked of the threads, of `stop` and of the array in a state of the program. -/
structure Orderly (args : Args) (s : State) : Prop where
  /-- no thread is joined twice, and no other is joined than those created -/
  joined_once : s.joined.Nodup ∧ s.joined ⊆ s.created
  stop_joined : s.joined ≠ [] → s.stop = true
  stop_join : ∀ status bound j, s.point = .join status bound j → s.stop = true
  stop_step : s.stop = true → ∀ a s', step args s a = some s' → s'.stop = true
  /-- a thread that is waited for leaves its loop -/
  leaves : s.stop = true → ∀ w ∈ s.workers, ((w.step s.stop).step s.stop).phase = .done
  frees_le : s.frees ≤ 1
  freed_last : s.frees = 1 → s.joined = s.created ∧ s.Returned
  returned : ∀ status, s.point = .returned status →
    s.created.Nodup ∧ s.joined = s.created ∧ s.frees = 1 ∧
      (status = 0 ↔ s.created.length = args.workers)
  defined : s.point ≠ .undefined

theorem Inv.orderly (h : Inv args s) : Orderly args s where
  joined_once := by
    refine ⟨?_, ?_⟩
    · have hnodup := h.nodup
      rw [← h.alive] at hnodup
      exact hnodup.of_append_left
    · rw [← h.alive]
      exact List.subset_append_left ..
  stop_joined := by
    intro hjoined
    have hat := h.atPoint
    cases hpoint : s.point with
    | createTest i | sleep left | setStop =>
      rw [hpoint] at hat
      exact absurd hat.2 hjoined
    | create i | stopFailed i =>
      rw [hpoint] at hat
      exact absurd hat.2.2 hjoined
    | joinTest status bound j | join status bound j | free status | returned status =>
      rw [hpoint] at hat
      exact hat.1
    | undefined =>
      rw [hpoint] at hat
      exact hat.elim
  stop_join := by
    intro status bound j hpoint
    have hat := h.atPoint
    rw [hpoint] at hat
    exact hat.1
  stop_step := fun hstop a s' hstep => CpuLoad.stop_step hstep hstop
  leaves := by
    rintro hstop w -
    rw [hstop]
    exact w.step_step_done
  frees_le := by
    rw [h.frees]
    split_ifs <;> omega
  freed_last := by
    intro hfreed
    have hat := h.atPoint
    have hfrees := h.frees
    rw [hfreed] at hfrees
    cases hpoint : s.point with
    | returned status =>
      rw [hpoint] at hat
      exact ⟨hat.2.1, status, hpoint⟩
    | undefined =>
      rw [hpoint] at hat
      exact hat.elim
    | _ => simp [hpoint, Point.ended] at hfrees
  returned := by
    intro status hpoint
    have hat := h.atPoint
    rw [hpoint] at hat
    obtain ⟨-, hjoined, houtcome⟩ := hat
    refine ⟨h.nodup, hjoined, by rw [h.frees, hpoint]; rfl, ?_⟩
    rcases houtcome with ⟨rfl, hlen⟩ | ⟨rfl, hlt⟩
    · exact ⟨fun _ => hlen, fun _ => rfl⟩
    · exact ⟨fun hstatus => by omega, fun hlen => by omega⟩
  defined := by
    intro hpoint
    have hat := h.atPoint
    rw [hpoint] at hat
    exact hat

/-- **The lifecycle of the threads.** Whatever the environment does, the program is in order, and
`main` can still return. -/
theorem lifecycle {stop : Bool} (h : Reachable (step args) (start args stop) s) :
    Orderly args s ∧ ∃ s', Reachable (step args) s s' ∧ s'.Returned := by
  have hinv := inv_of_reachable h
  exact ⟨hinv.orderly, reachable_of_rank (rank args) (fun h hstep => h.step hstep)
    (fun h hreturned => h.exists_rank_lt hreturned) hinv⟩

/-- The second of two workers cannot be created. -/
theorem lifecycle_second_fails :
    Orderly ⟨2, 1, by decide, by decide⟩ ⟨true, none, [], .returned 1, [7], [7], 1⟩ := by
  have hexec : exec (step ⟨2, 1, by decide, by decide⟩) (fun _ _ => True)
      [.main, .created 7, .main, .createFails, .main, .main, .worker 7, .main, .main, .main]
      (start ⟨2, 1, by decide, by decide⟩ false)
        = some ⟨true, none, [], .returned 1, [7], [7], 1⟩ := rfl
  exact (lifecycle (run_of_exec hexec)).1

end CpuLoad

end HrtimerStudy
