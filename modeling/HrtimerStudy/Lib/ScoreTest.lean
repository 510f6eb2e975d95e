import Mathlib.Analysis.Real.Sqrt
import Mathlib.Tactic.FieldSimp
import Mathlib.Tactic.Linarith
import Mathlib.Tactic.Ring

/-!
# The score test of a proportion

A score test compares the distance of an observed proportion `p` from a hypothetical one `t` with
the standard deviation under `t`. With `a` the squared critical value over the sample size, it
accepts `t` when `(p - t) ^ 2 ≤ a * (t * (1 - t))`. The accepted hypotheses form an interval, which
is computed here by completing the square.

## Main definitions

* `ScoreAccepts a p t` — the test with observation `p` accepts `t`
* `scoreCentre`, `scoreRadius` — the middle and the half width of the interval

## Main results

* `scoreAccepts_iff` — the accepted hypotheses are those within `scoreRadius` of `scoreCentre`
* `ScoreAccepts.mem_Icc`, `scoreAccepts_self` — the interval is one of proportions, around `p`
* `score_lower_lt`, `score_upper_lt` — a larger observation moves both ends up
-/

namespace HrtimerStudy

/-! ### The test and its interval -/

/-- The score test with the observed proportion `p` accepts the hypothesis `t`. -/
def ScoreAccepts (a p t : ℝ) : Prop := (p - t) ^ 2 ≤ a * (t * (1 - t))

/-- The discriminant of the boundary of the accepted hypotheses. -/
noncomputable def scoreDiscriminant (a p : ℝ) : ℝ := a * (p * (1 - p)) + (a / 2) ^ 2

/-- The middle of the accepted hypotheses. -/
noncomputable def scoreCentre (a p : ℝ) : ℝ := (p + a / 2) / (1 + a)

/-- Half the width of the accepted hypotheses. -/
noncomputable def scoreRadius (a p : ℝ) : ℝ := √(scoreDiscriminant a p) / (1 + a)

variable {a p q t : ℝ}

/-- Completing the square. -/
theorem score_complete_square (a p t : ℝ) :
    (1 + a) * (a * (t * (1 - t)) - (p - t) ^ 2)
      = scoreDiscriminant a p - ((1 + a) * t - (p + a / 2)) ^ 2 := by
  rw [scoreDiscriminant]
  ring

theorem scoreDiscriminant_nonneg (ha : 0 < a) (hp : p ∈ Set.Icc (0 : ℝ) 1) :
    0 ≤ scoreDiscriminant a p :=
  add_nonneg (mul_nonneg ha.le (mul_nonneg hp.1 (sub_nonneg.mpr hp.2))) (sq_nonneg _)

theorem abs_sub_scoreCentre (ha : 0 < a) (p t : ℝ) :
    |t - scoreCentre a p| = |(1 + a) * t - (p + a / 2)| / (1 + a) := by
  have hden : 0 < 1 + a := by linarith
  have hsub : t - scoreCentre a p = ((1 + a) * t - (p + a / 2)) / (1 + a) := by
    rw [scoreCentre]
    field_simp
  rw [hsub, abs_div, abs_of_pos hden]

/-- **The accepted hypotheses** are those within the radius of the centre. -/
theorem scoreAccepts_iff (ha : 0 < a) (hp : p ∈ Set.Icc (0 : ℝ) 1) :
    ScoreAccepts a p t ↔ |t - scoreCentre a p| ≤ scoreRadius a p := by
  have hden : 0 < 1 + a := by linarith
  have hsquare : ScoreAccepts a p t ↔ ((1 + a) * t - (p + a / 2)) ^ 2 ≤ scoreDiscriminant a p := by
    rw [ScoreAccepts, ← sub_nonneg, ← mul_nonneg_iff_of_pos_left hden, score_complete_square,
      sub_nonneg]
  rw [hsquare, abs_sub_scoreCentre ha, scoreRadius, div_le_div_iff_of_pos_right hden,
    ← Real.sqrt_le_sqrt_iff (scoreDiscriminant_nonneg ha hp), Real.sqrt_sq_eq_abs]

/-- A hypothesis that is accepted with room to spare lies inside the interval. -/
theorem abs_sub_scoreCentre_lt (ha : 0 < a) (h : (p - t) ^ 2 < a * (t * (1 - t))) :
    |t - scoreCentre a p| < scoreRadius a p := by
  have hden : 0 < 1 + a := by linarith
  have hsquare : ((1 + a) * t - (p + a / 2)) ^ 2 < scoreDiscriminant a p := by
    rw [← sub_pos, ← score_complete_square]
    exact mul_pos hden (sub_pos.mpr h)
  rw [abs_sub_scoreCentre ha, scoreRadius, div_lt_div_iff_of_pos_right hden,
    ← Real.sqrt_sq_eq_abs]
  exact Real.sqrt_lt_sqrt (sq_nonneg _) hsquare

/-! ### Its place -/

/-- What is accepted is a proportion: the variance under it is not negative. -/
theorem ScoreAccepts.mem_Icc (ha : 0 < a) (h : ScoreAccepts a p t) : t ∈ Set.Icc (0 : ℝ) 1 := by
  have hvariance : 0 ≤ t * (1 - t) :=
    nonneg_of_mul_nonneg_right ((sq_nonneg (p - t)).trans h) ha
  constructor
  · by_contra ht
    nlinarith only [hvariance, not_le.mp ht]
  · by_contra ht
    nlinarith only [hvariance, not_le.mp ht]

/-- The observation itself is accepted. -/
theorem scoreAccepts_self (ha : 0 < a) (hp : p ∈ Set.Icc (0 : ℝ) 1) : ScoreAccepts a p p := by
  rw [ScoreAccepts, sub_self, zero_pow two_ne_zero]
  exact mul_nonneg ha.le (mul_nonneg hp.1 (sub_nonneg.mpr hp.2))

theorem scoreRadius_nonneg (ha : 0 < a) : 0 ≤ scoreRadius a p :=
  div_nonneg (Real.sqrt_nonneg _) (by linarith)

/-- Both ends are accepted. -/
theorem scoreAccepts_lower (ha : 0 < a) (hp : p ∈ Set.Icc (0 : ℝ) 1) :
    ScoreAccepts a p (scoreCentre a p - scoreRadius a p) := by
  rw [scoreAccepts_iff ha hp, sub_sub_cancel_left, abs_neg, abs_of_nonneg (scoreRadius_nonneg ha)]

theorem scoreAccepts_upper (ha : 0 < a) (hp : p ∈ Set.Icc (0 : ℝ) 1) :
    ScoreAccepts a p (scoreCentre a p + scoreRadius a p) := by
  rw [scoreAccepts_iff ha hp, add_sub_cancel_left, abs_of_nonneg (scoreRadius_nonneg ha)]

/-- The observation lies between the ends. -/
theorem score_mem_Icc (ha : 0 < a) (hp : p ∈ Set.Icc (0 : ℝ) 1) :
    p ∈ Set.Icc (scoreCentre a p - scoreRadius a p) (scoreCentre a p + scoreRadius a p) := by
  obtain ⟨h₁, h₂⟩ := abs_le.mp ((scoreAccepts_iff ha hp).mp (scoreAccepts_self ha hp))
  constructor <;> linarith

/-! ### Two observations -/

/-- On the far side of both observations, the nearer one has room to spare where the other one
accepts. -/
theorem sq_sub_lt_of_far (h : ScoreAccepts a p t) (hfar : |q - t| < |p - t|) :
    (q - t) ^ 2 < a * (t * (1 - t)) :=
  (sq_lt_sq.mpr hfar).trans_le h

/-- **The lower end moves up** with the observation. -/
theorem score_lower_lt (ha : 0 < a) (hp : p ∈ Set.Icc (0 : ℝ) 1) (hq : q ∈ Set.Icc (0 : ℝ) 1)
    (hpq : p < q) : scoreCentre a p - scoreRadius a p < scoreCentre a q - scoreRadius a q := by
  have hmem := score_mem_Icc ha hp
  rcases lt_or_ge p (scoreCentre a q - scoreRadius a q) with hlt | hge
  · exact hmem.1.trans_lt hlt
  · -- the lower end for `q` is below `p`, which is nearer to it than `q` is
    have hfar : |p - (scoreCentre a q - scoreRadius a q)|
        < |q - (scoreCentre a q - scoreRadius a q)| := by
      rw [abs_of_nonneg (by linarith), abs_of_nonneg (by linarith)]
      linarith
    have hinside := abs_sub_scoreCentre_lt ha (sq_sub_lt_of_far (scoreAccepts_lower ha hq) hfar)
    linarith [(abs_lt.mp hinside).1]

/-- **The upper end moves up** with the observation. -/
theorem score_upper_lt (ha : 0 < a) (hp : p ∈ Set.Icc (0 : ℝ) 1) (hq : q ∈ Set.Icc (0 : ℝ) 1)
    (hpq : p < q) : scoreCentre a p + scoreRadius a p < scoreCentre a q + scoreRadius a q := by
  have hmem := score_mem_Icc ha hq
  rcases lt_or_ge (scoreCentre a p + scoreRadius a p) q with hlt | hge
  · exact hlt.trans_le hmem.2
  · have hfar : |q - (scoreCentre a p + scoreRadius a p)|
        < |p - (scoreCentre a p + scoreRadius a p)| := by
      rw [abs_of_nonpos (by linarith), abs_of_nonpos (by linarith)]
      linarith
    have hinside := abs_sub_scoreCentre_lt ha (sq_sub_lt_of_far (scoreAccepts_upper ha hp) hfar)
    linarith [(abs_lt.mp hinside).2]

end HrtimerStudy
