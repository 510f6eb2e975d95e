import Mathlib.Data.Nat.Notation
import Mathlib.Logic.Relation

/-!
# Runs of a machine

A machine is a partial function from states and actions to states; in a state, some actions are
possible and each of them has one outcome. A run is restricted by a condition on its steps, which
may be that there is none.

## Main definitions

* `Run` — one state leads to another by steps that meet a condition
* `Reachable` — by any steps
* `exec` — the state after a list of such steps

## Main results

* `Run.invariant` — what holds first and is preserved by every step holds throughout
* `reachable_of_rank` — where some step always comes closer to an end, an end can be reached
* `run_of_exec` — an execution is a run
-/

namespace HrtimerStudy

variable {σ α : Type*} {step : σ → α → Option σ} {ok : σ → α → Prop} {s s' : σ}

/-- `s` leads to `s'` by steps that meet `ok`. -/
def Run (step : σ → α → Option σ) (ok : σ → α → Prop) : σ → σ → Prop :=
  Relation.ReflTransGen fun s s' => ∃ a, ok s a ∧ step s a = some s'

/-- `s` leads to `s'` by any steps. -/
def Reachable (step : σ → α → Option σ) : σ → σ → Prop := Run step fun _ _ => True

theorem Run.reachable (h : Run step ok s s') : Reachable step s s' :=
  Relation.ReflTransGen.mono (fun _ _ ⟨a, _, ha⟩ => ⟨a, trivial, ha⟩) _ _ h

/-- **The invariant rule.** -/
theorem Run.invariant {I : σ → Prop} (h : Run step ok s s') (hfirst : I s)
    (hstep : ∀ {t a t'}, I t → ok t a → step t a = some t' → I t') : I s' := by
  induction h with
  | refl => exact hfirst
  | tail _ hlast ih =>
    obtain ⟨a, hok, ha⟩ := hlast
    exact hstep ih hok ha

/-- **The progress rule.** -/
theorem reachable_of_rank {I final : σ → Prop} (rank : σ → ℕ)
    (hI : ∀ {t a t'}, I t → step t a = some t' → I t')
    (hrank : ∀ {t}, I t → ¬ final t → ∃ a t', step t a = some t' ∧ rank t' < rank t) (h : I s) :
    ∃ s', Reachable step s s' ∧ final s' := by
  induction hn : rank s using Nat.strongRecOn generalizing s with
  | _ n ih =>
    by_cases hfinal : final s
    · exact ⟨s, Relation.ReflTransGen.refl, hfinal⟩
    · obtain ⟨a, t, ha, hlt⟩ := hrank h hfinal
      obtain ⟨s', hrun, hend⟩ := ih (rank t) (hn ▸ hlt) (hI h ha) rfl
      exact ⟨s', Relation.ReflTransGen.head ⟨a, trivial, ha⟩ hrun, hend⟩

/-- The state after some actions, if each of them is possible in its turn and meets `ok`. -/
def exec (step : σ → α → Option σ) (ok : σ → α → Prop) [∀ s a, Decidable (ok s a)] :
    List α → σ → Option σ
  | [], s => some s
  | a :: as, s => if ok s a then (step s a).bind (exec step ok as) else none

/-- **An execution is a run.** -/
theorem run_of_exec [∀ s a, Decidable (ok s a)] {as : List α}
    (h : exec step ok as s = some s') : Run step ok s s' := by
  induction as generalizing s with
  | nil =>
    obtain rfl := Option.some.inj h
    exact Relation.ReflTransGen.refl
  | cons a as ih =>
    rw [exec, Option.ite_none_right_eq_some] at h
    obtain ⟨t, ht, hrest⟩ := Option.bind_eq_some_iff.mp h.2
    exact Relation.ReflTransGen.head ⟨a, h.1, ht⟩ (ih hrest)

end HrtimerStudy
