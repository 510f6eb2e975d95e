import HrtimerStudy.Runner.Inversion

/-!
# One load at a time

In every state of every run of an experiment script, whatever the signals, at most one load is
alive and the script knows its PID. What a live load is known under depends on the point the script
has reached: `$!` right after its start, `LOAD_PID` from the assignment to the `kill`, and nothing
elsewhere, where none is alive. Signals do not disturb this, since `cleanup` never assigns a
variable and only ends loads.

## Main definitions

* `State.name` — what a live load is known under
* `Inv` — the invariant

## Main results

* `Inv.step`, `inv_of_reachable` — it is one
* `load_exclusive` — at most one load, known to the script, and none where there should be none
-/

namespace HrtimerStudy

namespace Runner

/-! ### The invariant -/

/-- The variable that holds the PID of a live load, at the points where there may be one. -/
def State.name (s : State) : Option ℕ :=
  match s.point with
  | .assign => s.lastPid
  | .sleep | .running | .benchmark | .measuring | .testStop | .kill => s.loadPid
  | _ => none

/-- Every live load is the child with the name at this point, in a call that has one. -/
structure Inv (s : State) : Prop where
  nodup : (s.children.map Proc.pid).Nodup
  live : ∀ p ∈ s.children, p.alive s.now = true → s.name = some p.pid ∧ s.workers > 0
  spawn : s.point = .spawn → s.workers > 0

variable {s s' : State}

theorem inv_start (conditions : List Condition) : Inv (start conditions) where
  nodup := List.nodup_nil
  live := fun _ hp => absurd hp List.not_mem_nil
  spawn := by rintro ⟨⟩

/-! ### What the parts of a step do to the loads -/

theorem Proc.alive_mono {p : Proc} {now now' : ℕ} (h : now ≤ now') (hp : p.alive now' = true) :
    p.alive now = true := by
  simp only [Proc.alive, Bool.and_eq_true, decide_eq_true_eq] at hp ⊢
  exact ⟨hp.1, Nat.lt_of_le_of_lt h hp.2⟩

/-- Every live load of `s'` is one of `s`. -/
def Calmer (s s' : State) : Prop :=
  ∀ p' ∈ s'.children, p'.alive s'.now = true →
    ∃ p ∈ s.children, p.pid = p'.pid ∧ p.alive s.now = true

theorem Calmer.of_children (h : s'.children = s.children) (hnow : s.now ≤ s'.now) : Calmer s s' :=
  fun p hp halive => ⟨p, h ▸ hp, rfl, Proc.alive_mono hnow halive⟩

/-- `kill` ends the load that `LOAD_PID` names. -/
theorem alive_of_killLoad {p' : Proc} (hp' : p' ∈ (killLoad s).children)
    (halive : p'.alive s.now = true) : p' ∈ s.children ∧ s.loadPid ≠ some p'.pid := by
  obtain ⟨p, hp, rfl⟩ := List.mem_map.mp hp'
  by_cases hpid : s.loadPid = some p.pid
  · rw [if_pos hpid] at halive
    simp [Proc.alive] at halive
  · rw [if_neg hpid]
    exact ⟨hp, hpid⟩

theorem calmer_killLoad : Calmer s (killLoad s) := fun p' hp' halive =>
  ⟨p', (alive_of_killLoad hp' halive).1, rfl, halive⟩

theorem pids_killLoad : (killLoad s).children.map Proc.pid = s.children.map Proc.pid := by
  rw [killLoad, List.map_map]
  refine List.map_congr_left fun p _ => ?_
  rw [Function.comp_apply]
  split_ifs <;> rfl

theorem waitLoad_eq (h : waitLoad s = some s') :
    s' = { s with children := s.children.filter fun p => s.loadPid ≠ some p.pid } := by
  rw [waitLoad] at h
  split_ifs at h
  exact (Option.some.inj h).symm

/-- Every load of `s'` is one of `s`. -/
def Fewer (s s' : State) : Prop :=
  ∀ p' ∈ s'.children, ∃ p ∈ s.children, p.pid = p'.pid ∧ p.startedAt = p'.startedAt

theorem Fewer.of_children (h : s'.children = s.children) : Fewer s s' :=
  fun p hp => ⟨p, h ▸ hp, rfl, rfl⟩

theorem fewer_killLoad : Fewer s (killLoad s) := by
  intro p' hp'
  obtain ⟨p, hp, rfl⟩ := List.mem_map.mp hp'
  refine ⟨p, hp, ?_⟩
  split_ifs <;> exact ⟨rfl, rfl⟩

/-- What a command of `cleanup`, or bash when it reaps a child, leaves as it is, and what it may do
to the loads. -/
structure OnlyEnds (s s' : State) : Prop where
  now : s'.now = s.now
  calls : s'.calls = s.calls
  loadPid : s'.loadPid = s.loadPid
  lastPid : s'.lastPid = s.lastPid
  point : s'.point = s.point
  conditionPid : s'.conditionPid = s.conditionPid
  conditionEnd : s'.conditionEnd = s.conditionEnd
  loaded : s'.loaded = s.loaded
  calmer : Calmer s s'
  fewer : Fewer s s'
  nodup : (s.children.map Proc.pid).Nodup → (s'.children.map Proc.pid).Nodup

theorem onlyEnds_killLoad : OnlyEnds s (killLoad s) :=
  ⟨rfl, rfl, rfl, rfl, rfl, rfl, rfl, rfl, calmer_killLoad, fewer_killLoad, fun h => by
    rwa [pids_killLoad]⟩

/-- Some children are dropped. -/
theorem onlyEnds_filter (f : Proc → Bool) :
    OnlyEnds s { s with children := s.children.filter f } := by
  refine ⟨rfl, rfl, rfl, rfl, rfl, rfl, rfl, rfl, fun p hp halive => ?_, fun p hp => ?_,
    fun hnodup => ?_⟩
  · exact ⟨p, (List.mem_filter.mp hp).1, rfl, halive⟩
  · exact ⟨p, (List.mem_filter.mp hp).1, rfl, rfl⟩
  · exact hnodup.sublist (List.filter_sublist.map _)

theorem onlyEnds_waitLoad (h : waitLoad s = some s') : OnlyEnds s s' := by
  rw [waitLoad_eq h]
  exact onlyEnds_filter _

theorem onlyEnds_cleanup {c : Cleanup} {c' : Option Cleanup} (h : cleanup s c = some (s', c')) :
    OnlyEnds s s' := by
  cases c with
  | test =>
    cases h
    exact ⟨rfl, rfl, rfl, rfl, rfl, rfl, rfl, rfl, .of_children rfl (Nat.le_refl _),
      .of_children rfl, id⟩
  | kill =>
    cases h
    exact onlyEnds_killLoad
  | wait =>
    obtain ⟨t, ht, heq⟩ := Option.map_eq_some_iff.mp h
    cases heq
    exact onlyEnds_waitLoad ht

/-- Without a `LOAD_PID` it does nothing to them. -/
theorem children_cleanup {c : Cleanup} {c' : Option Cleanup} (hpid : s.loadPid = none)
    (h : cleanup s c = some (s', c')) : s'.children = s.children := by
  cases c with
  | test =>
    cases h
    rfl
  | kill =>
    cases h
    simp [killLoad, hpid]
  | wait =>
    obtain ⟨t, ht, heq⟩ := Option.map_eq_some_iff.mp h
    cases heq
    rw [waitLoad_eq ht]
    simp [hpid]

/-! ### The step lemma -/

/-- A step that starts no load keeps the invariant if it keeps the names of live loads. -/
theorem Inv.of_calmer (h : Inv s) (hcalmer : Calmer s s')
    (hnodup : (s'.children.map Proc.pid).Nodup)
    (hname : ∀ pid, s.name = some pid → s.workers > 0 → s'.name = some pid ∧ s'.workers > 0)
    (hspawn : s'.point = .spawn → s'.workers > 0) : Inv s' where
  nodup := hnodup
  live := by
    intro p' hp' halive'
    obtain ⟨p, hp, hpid, halive⟩ := hcalmer p' hp' halive'
    obtain ⟨hs, hw⟩ := h.live p hp halive
    rw [hpid] at hs
    exact hname _ hs hw
  spawn := hspawn

theorem Inv.onlyEnds (h : Inv s) (hends : OnlyEnds s s') : Inv s' := by
  have hworkers := State.workers_congr hends.calls
  have hname : s'.name = s.name := by
    rw [State.name, State.name, hends.point, hends.loadPid, hends.lastPid]
  refine h.of_calmer hends.calmer (hends.nodup h.nodup) ?_ ?_
  · intro pid hs hw
    rw [hname, hworkers]
    exact ⟨hs, hw⟩
  · rw [hends.point, hworkers]
    exact h.spawn

/-- Where no load is alive, a command that starts none keeps the invariant. -/
theorem Inv.of_unnamed (h : Inv s) (hname : s.name = none) (hchildren : s'.children = s.children)
    (hnow : s'.now = s.now) (hspawn : s'.point = .spawn → s'.workers > 0) : Inv s' := by
  refine h.of_calmer (.of_children hchildren (Nat.le_of_eq hnow.symm)) (hchildren ▸ h.nodup) ?_
    hspawn
  intro pid hpid
  rw [hname] at hpid
  cases hpid

/-- So does one that keeps the name. -/
theorem Inv.of_named (h : Inv s) (hname : s'.name = s.name) (hcalls : s'.calls = s.calls)
    (hchildren : s'.children = s.children) (hnow : s.now ≤ s'.now)
    (hpoint : s'.point = .spawn → s.point = .spawn) : Inv s' := by
  have hworkers := State.workers_congr hcalls
  refine h.of_calmer (.of_children hchildren hnow) (hchildren ▸ h.nodup) ?_ ?_
  · intro pid hpid hw
    rw [hname, hworkers]
    exact ⟨hpid, hw⟩
  · intro hspawn
    rw [hworkers]
    exact h.spawn (hpoint hspawn)

/-- `kill` at the end of a call leaves no load alive. -/
theorem Inv.kill (h : Inv s) (hp : s.point = .kill) : Inv { killLoad s with point := .wait } where
  nodup := by rw [pids_killLoad]; exact h.nodup
  live := by
    intro p hmem halive
    obtain ⟨hmem, hpid⟩ := alive_of_killLoad hmem halive
    have hname := (h.live p hmem halive).1
    simp only [State.name, hp] at hname
    exact absurd hname hpid
  spawn := by rintro ⟨⟩

/-- The commands of the script. -/
theorem Inv.command (h : Inv s) (hs' : Commanded s s') : Inv s' := by
  cases hs' with
  | next hp hq =>
    refine h.of_unnamed (by simp [State.name, hp]) rfl rfl ?_
    rcases hq with rfl | rfl <;> simp
  | announce hp | clear hp | clearAgain hp | completed hp | summary hp | exit hp =>
    exact h.of_unnamed (by simp [State.name, hp]) rfl rfl (by simp)
  | spawnNext hp hw => exact h.of_unnamed (by simp [State.name, hp]) rfl rfl fun _ => hw
  | noSpawn hp hw => exact h.of_unnamed (by simp [State.name, hp]) rfl rfl (by simp)
  | assign hp | sleep hp | running hp | benchmark hp | measuring hp | killNext hp hw =>
    exact h.of_named (by simp [State.name, hp]) rfl rfl (Nat.le_refl _) (by simp)
  | noKill hp hw =>
    -- a call without workers has no load
    refine h.of_calmer (.of_children rfl (Nat.le_refl _)) h.nodup ?_ (by simp)
    intro pid _ hw'
    exact absurd hw' hw
  | kill hp => exact h.kill hp
  | wait hp ht =>
    have hends := onlyEnds_waitLoad ht
    exact (h.onlyEnds hends).of_unnamed (by simp [State.name, hends.point, hp]) rfl rfl (by simp)
  | trap hp ht =>
    have hends := onlyEnds_cleanup ht
    exact (h.onlyEnds hends).of_unnamed (by simp [State.name, hends.point, hp]) rfl rfl (by simp)

/-- The start of a load, when none is alive. -/
theorem Inv.load (h : Inv s) (hp : s.point = .spawn) {pid : ℕ} {workers : ℤ} {starts : Bool}
    (hpid : pid ∉ s.children.map Proc.pid) :
    Inv { s with
      point := .assign
      lastPid := some pid
      conditionPid := some pid
      conditionEnd := s.now + loadTime
      children := ⟨pid, workers, s.now, starts, false⟩ :: s.children } where
  nodup := List.nodup_cons.mpr ⟨hpid, h.nodup⟩
  live := by
    intro p hmem halive
    rcases List.mem_cons.mp hmem with rfl | hmem
    · exact ⟨rfl, h.spawn hp⟩
    · have hname := (h.live p hmem halive).1
      simp [State.name, hp] at hname
  spawn := by rintro ⟨⟩

/-- **The step lemma.** -/
theorem Inv.step (h : Inv s) {a : Action} (hs' : step s a = some s') : Inv s' := by
  cases stepped_of_step hs' with
  | pass d => exact h.of_named (by simp [State.name]) (by simp) (by simp) (by simp) (by simp)
  | signal hp => exact h.of_named rfl rfl rfl (Nat.le_refl _) id
  | interruptHandler hhandlers => exact h.of_named rfl rfl rfl (Nat.le_refl _) id
  | interruptScript hhandlers hp | interruptExit hhandlers hp =>
    exact h.of_unnamed (by simp [State.name, hp]) rfl rfl (by simp)
  | command hhandlers hs' => exact h.command hs'
  | handler hhandlers ht =>
    exact (h.onlyEnds (onlyEnds_cleanup ht)).of_named rfl rfl rfl (Nat.le_refl _) id
  | load hp hpid => exact h.load hp hpid
  | reap pid hdead => exact h.onlyEnds (onlyEnds_filter _)

theorem inv_of_reachable {conditions : List Condition}
    (h : Reachable Runner.step (start conditions) s) : Inv s :=
  h.invariant (inv_start conditions) fun hinv _ hstep => hinv.step hstep

/-! ### Exclusivity -/

/-- **One load at a time.** In every state of every run: at most one load is alive; except between
its start and the assignment of `LOAD_PID`, it is the one `LOAD_PID` names; none is alive while
`timer_benchmark` runs for a call without workers, and none when the script has exited. -/
theorem load_exclusive {conditions : List Condition}
    (h : Reachable Runner.step (start conditions) s) :
    s.liveLoads.length ≤ 1 ∧
      (s.point ≠ .assign → ∀ p ∈ s.liveLoads, s.loadPid = some p.pid) ∧
      (s.point = .measuring → s.workers = 0 → s.liveLoads = []) ∧
      (s.point = .exited → s.liveLoads = []) := by
  have hinv := inv_of_reachable h
  have hlive : ∀ p ∈ s.liveLoads, s.name = some p.pid ∧ s.workers > 0 := by
    intro p hp
    obtain ⟨hmem, halive⟩ := List.mem_filter.mp hp
    exact hinv.live p hmem halive
  have hnodup : (s.liveLoads.map Proc.pid).Nodup :=
    hinv.nodup.sublist (List.filter_sublist.map _)
  refine ⟨?_, ?_, ?_, ?_⟩
  · -- two live loads would be two children with one PID
    match hloads : s.liveLoads with
    | [] | [_] => simp
    | p :: q :: rest =>
      rw [hloads] at hlive hnodup
      have hp := (hlive p (by simp)).1
      have hq := (hlive q (by simp)).1
      have hpid : p.pid = q.pid := Option.some.inj (hp.symm.trans hq)
      simp [hpid] at hnodup
  · intro hpoint p hp
    have hname := (hlive p hp).1
    rw [State.name] at hname
    split at hname
    · exact absurd ‹_› hpoint
    all_goals first | exact hname | cases hname
  · intro _ hworkers
    rw [List.eq_nil_iff_forall_not_mem]
    intro p hp
    exact absurd (hlive p hp).2 (by omega)
  · intro hp
    rw [List.eq_nil_iff_forall_not_mem]
    intro p hmem
    have hname := (hlive p hmem).1
    simp [State.name, hp] at hname

/-- The beginning of a run of the scripts: the four idle calls, and the first call with six workers
up to the `echo` before `timer_benchmark`. -/
def untilRunning : List Action :=
  List.replicate 44 .command ++ [.load 100 true, .command, .pass 1000000000, .command]

theorem load_exclusive_moderate :
    ∃ s, Reachable Runner.step (start schedule) s ∧ s.point = .running ∧ s.workers = 6 ∧
      s.liveLoads.length ≤ 1 ∧ ∀ p ∈ s.liveLoads, s.loadPid = some p.pid := by
  obtain ⟨s, hs, hp, hw⟩ : ∃ s, exec Runner.step (fun _ _ => True) untilRunning (start schedule) =
      some s ∧ s.point = .running ∧ s.workers = 6 := ⟨_, rfl, rfl, rfl⟩
  have hreach : Reachable Runner.step (start schedule) s := run_of_exec hs
  have hexclusive := load_exclusive hreach
  refine ⟨s, hreach, hp, hw, hexclusive.1, hexclusive.2.1 ?_⟩
  rw [hp]
  decide

end Runner

end HrtimerStudy
