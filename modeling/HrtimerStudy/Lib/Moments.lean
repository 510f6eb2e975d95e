import Mathlib.Algebra.Order.Chebyshev
import Mathlib.Analysis.InnerProductSpace.PiL2
import Mathlib.Tactic.FieldSimp
import Mathlib.Tactic.Linarith
import Mathlib.Tactic.Ring

/-!
# Mean and deviation of a finite sample

The mean, the population variance (division by `n`, not by `n - 1`) and the root mean square of a
finite family, with the inequalities that tie them to the range of the sample, to another sample,
and to a median.

## Main definitions

* `mean`, `variance` — over any field
* `rms`, `stdDev` — the root mean square, and that of the deviations from the mean

## Main results

* `variance_le_mul` — the variance is at most `(max - mean) * (mean - min)`
* `stdDev_le_stdDev_add` — **triangle inequality** for the population standard deviation
* `abs_mean_sub_le_stdDev` — a value between `x i` and `x (σ i)` for every `i`, such as a median
  with `σ` the mirror image of the ranks, is within one standard deviation of the mean
-/

namespace HrtimerStudy

variable {ι : Type*} [Fintype ι]

/-! ### Mean and variance -/

section Field

variable {K : Type*} [Field K]

/-- The arithmetic mean of a finite family. -/
def mean (x : ι → K) : K := (∑ i, x i) / Fintype.card ι

/-- The population variance: the mean squared deviation from the mean. -/
def variance (x : ι → K) : K := mean fun i => (x i - mean x) ^ 2

theorem mean_add (x y : ι → K) : mean (fun i => x i + y i) = mean x + mean y := by
  rw [mean, mean, mean, Finset.sum_add_distrib, add_div]

theorem mean_sub (x y : ι → K) : mean (fun i => x i - y i) = mean x - mean y := by
  rw [mean, mean, mean, Finset.sum_sub_distrib, sub_div]

theorem mean_const_mul (c : K) (x : ι → K) : mean (fun i => c * x i) = c * mean x := by
  rw [mean, mean, ← Finset.mul_sum, mul_div_assoc]

theorem mean_const [CharZero K] [Nonempty ι] (c : K) : mean (fun _ : ι => c) = c := by
  have hcard : (Fintype.card ι : K) ≠ 0 := by exact_mod_cast Fintype.card_ne_zero
  rw [mean, Finset.sum_const, Finset.card_univ, nsmul_eq_mul, mul_div_cancel_left₀ _ hcard]

/-- Re-indexing a sample does not change its mean. -/
theorem mean_comp_equiv (σ : Equiv.Perm ι) (x : ι → K) : mean (fun i => x (σ i)) = mean x := by
  rw [mean, mean, Equiv.sum_comp σ x]

variable [LinearOrder K] [IsStrictOrderedRing K]

theorem mean_mono {x y : ι → K} (h : ∀ i, x i ≤ y i) : mean x ≤ mean y :=
  div_le_div_of_nonneg_right (Finset.sum_le_sum fun i _ => h i) (Nat.cast_nonneg _)

theorem mean_nonneg {x : ι → K} (h : ∀ i, 0 ≤ x i) : 0 ≤ mean x :=
  div_nonneg (Finset.sum_nonneg fun i _ => h i) (Nat.cast_nonneg _)

theorem abs_mean_le (x : ι → K) : |mean x| ≤ mean fun i => |x i| := by
  rw [mean, mean, abs_div, Nat.abs_cast]
  exact div_le_div_of_nonneg_right (Finset.abs_sum_le_sum_abs _ _) (Nat.cast_nonneg _)

variable [Nonempty ι]

theorem le_mean {x : ι → K} {m : K} (h : ∀ i, m ≤ x i) : m ≤ mean x := by
  rw [← mean_const (ι := ι) m]
  exact mean_mono h

theorem mean_le {x : ι → K} {m : K} (h : ∀ i, x i ≤ m) : mean x ≤ m := by
  rw [← mean_const (ι := ι) m]
  exact mean_mono h

theorem abs_mean_sub_mean_le {x y : ι → K} {d : K} (h : ∀ i, |x i - y i| ≤ d) :
    |mean x - mean y| ≤ d := by
  rw [← mean_sub, abs_le]
  exact ⟨le_mean fun i => (abs_le.mp (h i)).1, mean_le fun i => (abs_le.mp (h i)).2⟩

/-- The mean squared deviation from any value is the variance plus the squared distance of that
value from the mean. -/
theorem mean_sq_sub (x : ι → K) (c : K) :
    mean (fun i => (x i - c) ^ 2) = variance x + (mean x - c) ^ 2 := by
  have hexp : ∀ i, (x i - c) ^ 2
      = (x i - mean x) ^ 2 + (2 * (mean x - c) * (x i - mean x) + (mean x - c) ^ 2) := fun i => by
    ring
  have hdev : mean (fun i => x i - mean x) = 0 := by rw [mean_sub, mean_const, sub_self]
  simp only [hexp]
  rw [mean_add, mean_add, mean_const_mul, hdev, mul_zero, zero_add, mean_const]
  rfl

theorem variance_le_mean_sq_sub (x : ι → K) (c : K) :
    variance x ≤ mean fun i => (x i - c) ^ 2 := by
  rw [mean_sq_sub]
  exact le_add_of_nonneg_right (sq_nonneg _)

/-- **Variance against range.** Averaging `(M - x i) * (x i - m) ≥ 0` gives the bound. -/
theorem variance_le_mul {x : ι → K} {m M : K} (hm : ∀ i, m ≤ x i) (hM : ∀ i, x i ≤ M) :
    variance x ≤ (M - mean x) * (mean x - m) := by
  have hprod : 0 ≤ mean fun i => (M - x i) * (x i - m) :=
    mean_nonneg fun i => mul_nonneg (sub_nonneg.mpr (hM i)) (sub_nonneg.mpr (hm i))
  have hexp : ∀ i, (M - x i) * (x i - m) = (M + m) * x i - ((x i - 0) ^ 2 + M * m) := fun i => by
    ring
  simp only [hexp] at hprod
  rw [mean_sub, mean_const_mul, mean_add, mean_sq_sub, mean_const] at hprod
  linarith

end Field

/-! ### Root mean square and standard deviation -/

section Real

/-- The root mean square. -/
noncomputable def rms (x : ι → ℝ) : ℝ := √(mean fun i => x i ^ 2)

/-- The population standard deviation. -/
noncomputable def stdDev (x : ι → ℝ) : ℝ := √(variance x)

theorem variance_nonneg (x : ι → ℝ) : 0 ≤ variance x := mean_nonneg fun _ => sq_nonneg _

theorem stdDev_sq (x : ι → ℝ) : stdDev x ^ 2 = variance x := Real.sq_sqrt (variance_nonneg x)

theorem rms_eq_norm (x : ι → ℝ) :
    rms x = ‖(WithLp.toLp 2 x : EuclideanSpace ℝ ι)‖ / √(Fintype.card ι) := by
  rw [rms, mean, Real.sqrt_div (Finset.sum_nonneg fun i _ => sq_nonneg _), EuclideanSpace.norm_eq]
  simp

/-- Minkowski's inequality, from the norm of Euclidean space. -/
theorem rms_add_le (x y : ι → ℝ) : rms (fun i => x i + y i) ≤ rms x + rms y := by
  rw [rms_eq_norm, rms_eq_norm, rms_eq_norm, ← add_div]
  exact div_le_div_of_nonneg_right (norm_add_le (WithLp.toLp 2 x) (WithLp.toLp 2 y))
    (Real.sqrt_nonneg _)

theorem rms_le [Nonempty ι] {x : ι → ℝ} {d : ℝ} (hd : 0 ≤ d) (h : ∀ i, |x i| ≤ d) : rms x ≤ d := by
  refine Real.sqrt_le_iff.mpr ⟨hd, mean_le fun i => ?_⟩
  exact sq_le_sq' (abs_le.mp (h i)).1 (abs_le.mp (h i)).2

/-- The mean of a sample is at most its root mean square. -/
theorem mean_le_rms (x : ι → ℝ) : mean x ≤ rms x := by
  refine Real.le_sqrt_of_sq_le ?_
  rcases isEmpty_or_nonempty ι with hι | hι
  · simp [mean]
  · have h := mean_sq_sub x 0
    have hvar := variance_nonneg x
    simp only [sub_zero] at h
    linarith

/-- A value that lies between `x i` and `x (σ i)` for every `i` has the least mean absolute
deviation: the two distances add up to `|x i - x (σ i)|`, which no other value can undercut. -/
theorem mean_abs_sub_le {x : ι → ℝ} {m : ℝ} (σ : Equiv.Perm ι)
    (hm : ∀ i, m ∈ Set.uIcc (x i) (x (σ i))) (c : ℝ) :
    mean (fun i => |x i - m|) ≤ mean fun i => |x i - c| := by
  have hpair : ∀ i, |x i - m| + |x (σ i) - m| ≤ |x i - c| + |x (σ i) - c| := by
    intro i
    have hbetween : |x i - m| + |x (σ i) - m| = |x i - x (σ i)| := by
      rw [abs_sub_comm (x (σ i)) m]
      rcases Set.mem_uIcc.mp (hm i) with ⟨h₁, h₂⟩ | ⟨h₁, h₂⟩
      · rw [abs_of_nonpos (by linarith), abs_of_nonpos (by linarith), abs_of_nonpos (by linarith)]
        ring
      · rw [abs_of_nonneg (by linarith), abs_of_nonneg (by linarith), abs_of_nonneg (by linarith)]
        ring
    rw [hbetween, abs_sub_comm (x (σ i)) c]
    exact abs_sub_le _ _ _
  have hsum := mean_mono hpair
  rw [mean_add, mean_add, mean_comp_equiv σ fun i => |x i - m|,
    mean_comp_equiv σ fun i => |x i - c|] at hsum
  linarith

variable [Nonempty ι]

theorem stdDev_le_rms_sub (x : ι → ℝ) (c : ℝ) : stdDev x ≤ rms fun i => x i - c :=
  Real.sqrt_le_sqrt (variance_le_mean_sq_sub x c)

/-- **Triangle inequality.** The deviations of `x` from the mean of `y` are no smaller in the mean
square than those from its own, and split into `x - y` and the deviations of `y`. -/
theorem stdDev_le_stdDev_add (x y : ι → ℝ) :
    stdDev x ≤ stdDev y + rms fun i => x i - y i :=
  calc stdDev x ≤ rms fun i => x i - mean y := stdDev_le_rms_sub x (mean y)
    _ = rms fun i => (y i - mean y) + (x i - y i) := by
        refine congrArg rms (funext fun i => ?_)
        ring
    _ ≤ stdDev y + rms fun i => x i - y i := rms_add_le _ _

theorem abs_stdDev_sub_stdDev_le {x y : ι → ℝ} {d : ℝ} (hd : 0 ≤ d) (h : ∀ i, |x i - y i| ≤ d) :
    |stdDev x - stdDev y| ≤ d := by
  have hxy := stdDev_le_stdDev_add x y
  have hyx := stdDev_le_stdDev_add y x
  have h₁ : rms (fun i => x i - y i) ≤ d := rms_le hd h
  have h₂ : rms (fun i => y i - x i) ≤ d := rms_le hd fun i => by rw [abs_sub_comm]; exact h i
  rw [abs_le]
  constructor <;> linarith

/-- The standard deviation is at most half the range. -/
theorem stdDev_le_half_range {x : ι → ℝ} {m M : ℝ} (hm : ∀ i, m ≤ x i) (hM : ∀ i, x i ≤ M) :
    stdDev x ≤ (M - m) / 2 := by
  have hmM : m ≤ M := (le_mean hm).trans (mean_le hM)
  refine Real.sqrt_le_iff.mpr ⟨by linarith, ?_⟩
  have hmul := variance_le_mul hm hM
  have hsq := sq_nonneg (M + m - 2 * mean x)
  calc variance x ≤ (M - mean x) * (mean x - m) := hmul
    _ ≤ ((M - m) / 2) ^ 2 := by linarith

/-- **A median is within one standard deviation of the mean.** -/
theorem abs_mean_sub_le_stdDev {x : ι → ℝ} {m : ℝ} (σ : Equiv.Perm ι)
    (hm : ∀ i, m ∈ Set.uIcc (x i) (x (σ i))) : |mean x - m| ≤ stdDev x := by
  have habs := abs_mean_le fun i => x i - m
  rw [mean_sub, mean_const] at habs
  calc |mean x - m| ≤ mean fun i => |x i - m| := habs
    _ ≤ mean fun i => |x i - mean x| := mean_abs_sub_le σ hm (mean x)
    _ ≤ rms fun i => |x i - mean x| := mean_le_rms _
    _ = stdDev x := by simp only [rms, sq_abs]; rfl

end Real

end HrtimerStudy
