import HrtimerStudy.Lib.ScoreTest

/-!
# `wilson`

The confidence interval of `report_analysis.py` for the proportion of late wake-ups, in exact
arithmetic. The square root of NumPy is a parameter `sqrt`; over the reals it is the real one, and
then the closed form is the interval of the score test.

## Main definitions

* `wilson` — the function

## Main results

* `wilson_eq_score` — the interval before it is clamped is the one of the score test, and clamping
  does not change it
* `wilson_inverts_score_test` — **the inverted test**, its place, and its monotonicity in `k`
-/

namespace HrtimerStudy

/-! ### The function -/

section Wilson

variable {K : Type*} [Field K] [LinearOrder K]

namespace Wilson

def den (n : ℤ) (z : K) : K := 1 + z * z / n

def c (k n : ℤ) (z : K) : K :=
  let p : K := k / n
  (p + z * z / (2 * n : ℤ)) / den n z

def h (sqrt : K → K) (k n : ℤ) (z : K) : K :=
  let p : K := k / n
  z * sqrt (p * (1 - p) / n + z * z / (4 * n * n : ℤ)) / den n z

end Wilson

def wilson (sqrt : K → K) (k n : ℤ) (z : K) : K × K :=
  (max 0 (Wilson.c k n z - Wilson.h sqrt k n z), min 1 (Wilson.c k n z + Wilson.h sqrt k n z))

end Wilson

/-! ### The interval of the score test -/

section Real

variable {k k' n : ℤ} {z : ℝ}

theorem proportion_mem_Icc (hk : 0 ≤ k) (hkn : k ≤ n) (hn : 1 ≤ n) :
    (k / n : ℝ) ∈ Set.Icc (0 : ℝ) 1 := by
  have hk' : (0 : ℝ) ≤ k := by exact_mod_cast hk
  have hkn' : (k : ℝ) ≤ n := by exact_mod_cast hkn
  have hn' : (0 : ℝ) < n := by exact_mod_cast hn
  exact ⟨div_nonneg hk' hn'.le, (div_le_one hn').mpr hkn'⟩

theorem criticalValue_pos (hn : 1 ≤ n) (hz : 0 < z) : 0 < z ^ 2 / n := by
  have hn' : (0 : ℝ) < n := by exact_mod_cast hn
  exact div_pos (pow_pos hz 2) hn'

theorem wilson_c_eq (hn : 1 ≤ n) : Wilson.c k n z = scoreCentre (z ^ 2 / n) (k / n) := by
  have hn' : (n : ℝ) ≠ 0 := by exact_mod_cast (by omega : n ≠ 0)
  have hhalf : z * z / (2 * n : ℤ) = z ^ 2 / n / 2 := by
    push_cast
    field_simp
  rw [Wilson.c, Wilson.den, scoreCentre, hhalf, sq]

/-- The factor `z` of the half width belongs under the root. -/
theorem wilson_h_eq (hn : 1 ≤ n) (hz : 0 < z) :
    Wilson.h Real.sqrt k n z = scoreRadius (z ^ 2 / n) (k / n) := by
  have hn' : (n : ℝ) ≠ 0 := by exact_mod_cast (by omega : n ≠ 0)
  have hroot : z * √((k / n : ℝ) * (1 - k / n) / n + z * z / (4 * n * n : ℤ))
      = √(scoreDiscriminant (z ^ 2 / n) (k / n)) := by
    have hscale : scoreDiscriminant (z ^ 2 / n) (k / n)
        = z ^ 2 * ((k / n : ℝ) * (1 - k / n) / n + z * z / (4 * n * n : ℤ)) := by
      rw [scoreDiscriminant]
      push_cast
      field_simp
      ring
    rw [hscale, Real.sqrt_mul (sq_nonneg z), Real.sqrt_sq hz.le]
  rw [Wilson.h, Wilson.den, scoreRadius]
  simp only [hroot, sq]

/-- **The clamps change nothing**: both ends are accepted, so they are proportions. -/
theorem wilson_ends_mem (hk : 0 ≤ k) (hkn : k ≤ n) (hn : 1 ≤ n) (hz : 0 < z) :
    0 ≤ Wilson.c k n z - Wilson.h Real.sqrt k n z ∧
      Wilson.c k n z + Wilson.h Real.sqrt k n z ≤ 1 := by
  have ha := criticalValue_pos hn hz
  have hp := proportion_mem_Icc hk hkn hn
  rw [wilson_c_eq hn, wilson_h_eq hn hz]
  exact ⟨((scoreAccepts_lower ha hp).mem_Icc ha).1, ((scoreAccepts_upper ha hp).mem_Icc ha).2⟩

theorem wilson_eq_score (hk : 0 ≤ k) (hkn : k ≤ n) (hn : 1 ≤ n) (hz : 0 < z) :
    wilson Real.sqrt k n z
      = (scoreCentre (z ^ 2 / n) (k / n) - scoreRadius (z ^ 2 / n) (k / n),
        scoreCentre (z ^ 2 / n) (k / n) + scoreRadius (z ^ 2 / n) (k / n)) := by
  obtain ⟨hlo, hhi⟩ := wilson_ends_mem hk hkn hn hz
  rw [wilson, max_eq_right hlo, min_eq_right hhi, wilson_c_eq hn, wilson_h_eq hn hz]

/-- The proportion lies in its interval. -/
theorem wilson_mem (hk : 0 ≤ k) (hkn : k ≤ n) (hn : 1 ≤ n) (hz : 0 < z) :
    (wilson Real.sqrt k n z).1 ≤ k / n ∧ (k / n : ℝ) ≤ (wilson Real.sqrt k n z).2 := by
  rw [wilson_eq_score hk hkn hn hz]
  exact score_mem_Icc (criticalValue_pos hn hz) (proportion_mem_Icc hk hkn hn)

theorem wilson_mem_iff (hk : 0 ≤ k) (hkn : k ≤ n) (hn : 1 ≤ n) (hz : 0 < z) (t : ℝ) :
    (wilson Real.sqrt k n z).1 ≤ t ∧ t ≤ (wilson Real.sqrt k n z).2
      ↔ (k / n - t) ^ 2 ≤ z ^ 2 * t * (1 - t) / n := by
  have haccepts : (k / n - t) ^ 2 ≤ z ^ 2 * t * (1 - t) / n
      ↔ ScoreAccepts (z ^ 2 / n) (k / n) t := by
    rw [ScoreAccepts, show z ^ 2 * t * (1 - t) / n = z ^ 2 / n * (t * (1 - t)) by ring]
  rw [haccepts, scoreAccepts_iff (criticalValue_pos hn hz) (proportion_mem_Icc hk hkn hn),
    wilson_eq_score hk hkn hn hz, abs_le]
  constructor
  · rintro ⟨hlo, hhi⟩
    constructor <;> linarith
  · rintro ⟨hlo, hhi⟩
    constructor <;> linarith

theorem wilson_lt (hk : 0 ≤ k) (hlt : k < k') (hkn : k' ≤ n) (hn : 1 ≤ n) (hz : 0 < z) :
    (wilson Real.sqrt k n z).1 < (wilson Real.sqrt k' n z).1 ∧
      (wilson Real.sqrt k n z).2 < (wilson Real.sqrt k' n z).2 := by
  have ha := criticalValue_pos hn hz
  have hp := proportion_mem_Icc hk (by omega) hn
  have hq := proportion_mem_Icc (by omega) hkn hn
  have hn' : (0 : ℝ) < n := by exact_mod_cast hn
  have hpq : (k / n : ℝ) < k' / n := by
    rw [div_lt_div_iff_of_pos_right hn']
    exact_mod_cast hlt
  rw [wilson_eq_score hk (by omega) hn hz, wilson_eq_score (by omega) hkn hn hz]
  exact ⟨score_lower_lt ha hp hq hpq, score_upper_lt ha hp hq hpq⟩

/-- **`wilson` inverts the score test.** Its interval has exactly the proportions the test accepts.
It lies in the unit interval without being clamped and contains the observed proportion, so no
error bar is negative; and each of its ends is strictly increasing in `k`. -/
theorem wilson_inverts_score_test (hk : 0 ≤ k) (hkn : k ≤ n) (hn : 1 ≤ n) (hz : 0 < z) :
    (∀ t : ℝ, (wilson Real.sqrt k n z).1 ≤ t ∧ t ≤ (wilson Real.sqrt k n z).2
      ↔ (k / n - t) ^ 2 ≤ z ^ 2 * t * (1 - t) / n) ∧
    0 ≤ Wilson.c k n z - Wilson.h Real.sqrt k n z ∧
    Wilson.c k n z + Wilson.h Real.sqrt k n z ≤ 1 ∧
    wilson Real.sqrt k n z = (Wilson.c k n z - Wilson.h Real.sqrt k n z,
      Wilson.c k n z + Wilson.h Real.sqrt k n z) ∧
    (wilson Real.sqrt k n z).1 ≤ k / n ∧ (k / n : ℝ) ≤ (wilson Real.sqrt k n z).2 ∧
    ∀ k' : ℤ, k < k' → k' ≤ n →
      (wilson Real.sqrt k n z).1 < (wilson Real.sqrt k' n z).1 ∧
        (wilson Real.sqrt k n z).2 < (wilson Real.sqrt k' n z).2 := by
  obtain ⟨hlo, hhi⟩ := wilson_ends_mem hk hkn hn hz
  obtain ⟨hbelow, habove⟩ := wilson_mem hk hkn hn hz
  refine ⟨wilson_mem_iff hk hkn hn hz, hlo, hhi, ?_, hbelow, habove, ?_⟩
  · rw [wilson, max_eq_right hlo, min_eq_right hhi]
  · intro k' hlt hkn'
    exact wilson_lt hk hlt hkn' hn hz

/-- 25 late wake-ups in 500, at the critical value the report uses. A proportion of 4 % is accepted,
one of 10 % is not. -/
theorem wilson_inverts_score_test_some :
    ((wilson Real.sqrt 25 500 (1.96 : ℝ)).1 ≤ 0.04 ∧
        0.04 ≤ (wilson Real.sqrt 25 500 (1.96 : ℝ)).2) ∧
      ¬((wilson Real.sqrt 25 500 (1.96 : ℝ)).1 ≤ 0.1 ∧
        0.1 ≤ (wilson Real.sqrt 25 500 (1.96 : ℝ)).2) ∧
      (wilson Real.sqrt 25 500 (1.96 : ℝ)).1 < (wilson Real.sqrt 26 500 (1.96 : ℝ)).1 := by
  obtain ⟨htest, -, -, -, -, -, hmono⟩ :=
    wilson_inverts_score_test (k := 25) (n := 500) (z := 1.96) (by norm_num) (by norm_num)
      (by norm_num) (by norm_num)
  refine ⟨(htest 0.04).mpr (by norm_num), fun h => ?_, (hmono 26 (by norm_num) (by norm_num)).1⟩
  have haccepted := (htest 0.1).mp h
  norm_num at haccepted

end Real

end HrtimerStudy
