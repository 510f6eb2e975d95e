import HrtimerStudy.Lib.Quantile
import HrtimerStudy.Report.Wilson

/-!
# `summarise`

The summary record of `report_analysis.py`: order statistics, bootstrap intervals, a threshold
count with its Wilson interval, and the share of the largest errors, in exact arithmetic. NumPy's
statistics are written out as documented; its square root is a parameter, and what its random
generator returns is an index matrix, of which nothing is known but its shape.

## Main definitions

* `Np.percentile`, `Np.median`, `Np.mean`, `Np.std` — the statistics
* `IndexMatrix`, `bootCi` — the bootstrap interval
* `Record`, `summarise` — the record

## Main results

* `Np.percentile_eq_quantile`, `Np.median_eq_quantile` — both are quantiles
* `bootCi_mem` — whatever the resamples, the interval is one and lies in the range of the sample
* `summarise_coherent` — **the fields of a record agree with each other**
-/

namespace HrtimerStudy

variable {K : Type*} [Field K] [LinearOrder K]

/-! ### NumPy -/

namespace Np

/-- Linear interpolation in the sorted sample at position `p * (n - 1) / 100`. -/
def percentile [FloorRing K] (x : List K) (p : K) : K :=
  interpolate (orderStat x) (p * (x.length - 1) / 100)

def mean (x : List K) : K := x.sum / x.length

/-- The middle value, or the mean of the two middle values. -/
def median (x : List K) : K :=
  if x.length % 2 = 1 then orderStat x (x.length / 2 : ℕ)
  else mean [orderStat x (x.length / 2 - 1 : ℕ), orderStat x (x.length / 2 : ℕ)]

def std (sqrt : K → K) (x : List K) : K := sqrt (mean (x.map fun v => (v - mean x) ^ 2))

end Np

/-! ### The bootstrap -/

/-- What `RNG.integers(0, len(x), size=(n, len(x)))` may return for a sample of size `size`. -/
structure IndexMatrix (size : ℕ) where
  rows : List (List (Fin size))
  rows_ne : rows ≠ []
  length_row : ∀ row ∈ rows, row.length = size

/-- `x[idx]`. -/
def resample (x : List K) (idx : IndexMatrix x.length) : List (List K) :=
  idx.rows.map fun row => row.map x.get

def bootCi [FloorRing K] (x : List K) (fn : List K → K) (idx : IndexMatrix x.length) : K × K :=
  let vals := (resample x idx).map fn
  (Np.percentile vals 2.5, Np.percentile vals 97.5)

/-! ### The record -/

def slackUs : K := 50

/-- The dictionary, under the names of its keys. -/
structure Record (K : Type*) where
  n : ℕ
  minUs : K
  p25Us : K
  medianUs : K
  medianCiLo : K
  medianCiHi : K
  p75Us : K
  iqrUs : K
  p90Us : K
  p95Us : K
  p99Us : K
  p99CiLo : K
  p99CiHi : K
  maxUs : K
  meanUs : K
  sdUs : K
  pctBelow50us : K
  nOver1ms : ℕ
  pctOver1ms : K
  pctOver1msLo : K
  pctOver1msHi : K
  top5ShareOfSumPct : K
  p99OverMedian : K

/-- The record of a sample, or `none` for the `ValueError` of an empty one. The matrices are those
of the two calls of `boot_ci`. -/
def summarise [FloorRing K] (sqrt : K → K) (x : List K) (medianIdx p99Idx : IndexMatrix x.length) :
    Option (Record K) := do
  let minUs ← x.min?
  let maxUs ← x.max?
  let (medLo, medHi) := bootCi x Np.median medianIdx
  let (p99Lo, p99Hi) := bootCi x (fun a => Np.percentile a 99) p99Idx
  let k := x.countP (1000 < ·)
  let (lo, hi) := wilson sqrt k x.length 1.96
  let s := x.insertionSort (· ≤ ·)
  return {
    n := x.length
    minUs := minUs
    p25Us := Np.percentile x 25
    medianUs := Np.median x
    medianCiLo := medLo
    medianCiHi := medHi
    p75Us := Np.percentile x 75
    iqrUs := Np.percentile x 75 - Np.percentile x 25
    p90Us := Np.percentile x 90
    p95Us := Np.percentile x 95
    p99Us := Np.percentile x 99
    p99CiLo := p99Lo
    p99CiHi := p99Hi
    maxUs := maxUs
    meanUs := Np.mean x
    sdUs := Np.std sqrt x
    pctBelow50us := 100 * (x.countP (· < slackUs) / x.length)
    nOver1ms := k
    pctOver1ms := 100 * k / x.length
    pctOver1msLo := 100 * lo
    pctOver1msHi := 100 * hi
    top5ShareOfSumPct := 100 * (s.drop (s.length - 5)).sum / s.sum
    p99OverMedian := Np.percentile x 99 / Np.median x }

/-! ### Both are quantiles -/

omit [LinearOrder K] in
theorem Np.mean_pair (a b : K) : Np.mean [a, b] = (a + b) / 2 := by simp [Np.mean]

section Quantiles

variable [FloorRing K]

theorem Np.percentile_eq_quantile (x : List K) (p : K) :
    Np.percentile x p = quantile x (p / 100) := by
  rw [Np.percentile, quantile]
  congr 1
  ring

variable [IsStrictOrderedRing K]

/-- An even sample has its middle halfway between two ranks. -/
theorem Np.median_eq_quantile {x : List K} (hx : x ≠ []) : Np.median x = quantile x (1 / 2) := by
  have hpos := List.length_pos_iff.mpr hx
  rw [Np.median, quantile]
  rcases Nat.even_or_odd' x.length with ⟨m, hm | hm⟩
  · have hmod : ¬x.length % 2 = 1 := by omega
    have hdiv : x.length / 2 = m := by omega
    have hpos' : (1 / 2 : K) * (x.length - 1) = ((m - 1 : ℤ) : K) + 1 / 2 := by
      rw [hm]
      push_cast
      ring
    have hfloor : ⌊((m - 1 : ℤ) : K) + 1 / 2⌋ = m - 1 := by
      rw [Int.floor_intCast_add]
      norm_num
    have hrank : ((m - 1 : ℕ) : ℤ) = (m : ℤ) - 1 := by omega
    rw [if_neg hmod, hdiv, hpos', interpolate_eq_succ, hfloor, hrank, sub_add_cancel,
      Np.mean_pair]
    push_cast
    ring
  · have hmod : x.length % 2 = 1 := by omega
    have hdiv : x.length / 2 = m := by omega
    have hpos' : (1 / 2 : K) * (x.length - 1) = (m : ℤ) := by
      rw [hm]
      push_cast
      ring
    rw [if_pos hmod, hdiv, hpos', interpolate_of_floor_eq_ceil _ (by simp), Int.floor_intCast]

/-- The percentiles of a non-empty sample are increasing. -/
theorem Np.percentile_mono {x : List K} (hx : x ≠ []) {p q : K} (hp : 0 ≤ p) (hpq : p ≤ q)
    (hq : q ≤ 100) : Np.percentile x p ≤ Np.percentile x q := by
  rw [Np.percentile_eq_quantile, Np.percentile_eq_quantile]
  exact quantile_le_quantile_of_le hx (by positivity) (by linarith) (by linarith)

theorem Np.percentile_mem {x : List K} (hx : x ≠ []) {p : K} (hp : p ∈ Set.Icc (0 : K) 100)
    {m M : K} (h : ∀ v ∈ x, v ∈ Set.Icc m M) : Np.percentile x p ∈ Set.Icc m M := by
  rw [Np.percentile_eq_quantile]
  exact quantile_mem_of_forall hx ⟨by linarith [hp.1], by linarith [hp.2]⟩ h

theorem Np.median_mem {x : List K} (hx : x ≠ []) {m M : K} (h : ∀ v ∈ x, v ∈ Set.Icc m M) :
    Np.median x ∈ Set.Icc m M := by
  rw [Np.median_eq_quantile hx]
  exact quantile_mem_of_forall hx (by norm_num) h

/-! ### The fields of a record -/

/-- **The bootstrap interval**: its ends are in order and in the range of the sample, for every
statistic that is in the range of its argument. -/
theorem bootCi_mem {x : List K} (hx : x ≠ []) (fn : List K → K) {m M : K}
    (hfn : ∀ a : List K, a ≠ [] → (∀ v ∈ a, v ∈ Set.Icc m M) → fn a ∈ Set.Icc m M)
    (h : ∀ v ∈ x, v ∈ Set.Icc m M) (idx : IndexMatrix x.length) :
    m ≤ (bootCi x fn idx).1 ∧ (bootCi x fn idx).1 ≤ (bootCi x fn idx).2 ∧
      (bootCi x fn idx).2 ≤ M := by
  have hvals : (resample x idx).map fn ≠ [] := by simpa [resample] using idx.rows_ne
  have hmem : ∀ v ∈ (resample x idx).map fn, v ∈ Set.Icc m M := by
    intro v hv
    obtain ⟨a, ha, rfl⟩ := List.mem_map.mp hv
    obtain ⟨row, hrow, rfl⟩ := List.mem_map.mp ha
    refine hfn _ ?_ ?_
    · have hlen := idx.length_row row hrow
      have hpos := List.length_pos_iff.mpr hx
      rw [ne_eq, List.map_eq_nil_iff, ← List.length_eq_zero_iff]
      omega
    · intro v hv
      obtain ⟨i, -, rfl⟩ := List.mem_map.mp hv
      exact h _ (List.get_mem x i)
  have hlo := Np.percentile_mem hvals (p := 2.5) (by norm_num) hmem
  have hhi := Np.percentile_mem hvals (p := 97.5) (by norm_num) hmem
  exact ⟨hlo.1, Np.percentile_mono hvals (by norm_num) (by norm_num) (by norm_num), hhi.2⟩

/-- **The count against a percentile.** A percentile above a threshold has the entries from its
upper rank on above it, and one that is not leaves only those after its lower rank. -/
theorem Np.count_of_percentile {x : List K} (hx : x ≠ []) {p : K} (hp : p ∈ Set.Icc (0 : K) 100)
    (t : K) :
    (t < Np.percentile x p →
      (x.length : ℤ) - ⌈p * ((x.length : K) - 1) / 100⌉ ≤ x.countP (t < ·)) ∧
    (Np.percentile x p ≤ t →
      (x.countP (t < ·) : ℤ) ≤ x.length - 1 - ⌊p * ((x.length : K) - 1) / 100⌋) := by
  have hpos : p * ((x.length : K) - 1) / 100 = p / 100 * (x.length - 1) := by ring
  obtain ⟨h₀, h₁⟩ := position_bounds hx (p := p / 100) ⟨by linarith [hp.1], by linarith [hp.2]⟩
  obtain ⟨i, j, hi, hj, hij, -, hjn⟩ := exists_neighbours h₀ h₁
  have hbetween : Np.percentile x p ∈ Set.Icc (orderStat x i) (orderStat x j) := by
    have hmem := interpolate_mem_Icc (x := orderStat x) (t := p / 100 * (x.length - 1))
      (by rw [hi, hj]; exact orderStat_mono hij hjn)
    rwa [hi, hj, ← quantile, ← Np.percentile_eq_quantile] at hmem
  rw [hpos, hi, hj]
  constructor
  · intro ht
    have hle := le_countP_gt_of_lt_orderStat hjn (ht.trans_le hbetween.2)
    omega
  · intro ht
    have hle := countP_gt_le_of_orderStat_le (by omega) (hbetween.1.trans ht)
    omega

/-- **The share of the largest entries** of a positive sample. -/
theorem top5_bounds {x : List K} (hn : 5 ≤ x.length) (hpos : ∀ e ∈ x, 0 < e) :
    let s := x.insertionSort (· ≤ ·)
    (500 : K) / x.length ≤ 100 * (s.drop (s.length - 5)).sum / s.sum ∧
      100 * (s.drop (s.length - 5)).sum / s.sum ≤ 100 := by
  intro s
  have hperm : s.Perm x := List.perm_insertionSort _ x
  have hlen : s.length = x.length := hperm.length_eq
  have hpos' : ∀ e ∈ s, 0 < e := fun e he => hpos e (hperm.subset he)
  have hsum : 0 < s.sum := List.sum_pos s hpos' (by
    intro hnil
    rw [hnil] at hlen
    simp at hlen
    omega)
  have hn' : (0 : K) < x.length := by exact_mod_cast (by omega : 0 < x.length)
  have hparts := List.sum_take_add_sum_drop s (s.length - 5)
  have hhead : 0 ≤ (s.take (s.length - 5)).sum :=
    List.sum_nonneg fun e he => (hpos' e (List.mem_of_mem_take he)).le
  have hshare := mul_sum_le_length_mul_sum_drop (List.pairwise_insertionSort (· ≤ ·) x)
    (k := 5) (by rw [List.length_insertionSort]; exact hn)
  constructor
  · rw [div_le_div_iff₀ hn' hsum]
    rw [Nat.cast_ofNat] at hshare
    change 5 * s.sum ≤ s.length * (s.drop (s.length - 5)).sum at hshare
    rw [hlen] at hshare ⊢
    linarith
  · rw [div_le_iff₀ hsum]
    linarith

end Quantiles

/-! ### Coherence -/

/-- **A record agrees with itself**: its intervals are in order and in the range of the sample, the
count fits the 99th percentile, the proportion lies in its interval, and the shares and ratios have
the bounds their names promise; whatever the resamples. -/
theorem summarise_coherent {x : List ℝ} (hn : 5 ≤ x.length) (hpos : ∀ e ∈ x, 0 < e)
    (medianIdx p99Idx : IndexMatrix x.length) :
    ∃ r, summarise Real.sqrt x medianIdx p99Idx = some r ∧
      (r.minUs ≤ r.medianCiLo ∧ r.medianCiLo ≤ r.medianCiHi ∧ r.medianCiHi ≤ r.maxUs) ∧
      (r.minUs ≤ r.p99CiLo ∧ r.p99CiLo ≤ r.p99CiHi ∧ r.p99CiHi ≤ r.maxUs) ∧
      (1000 < r.p99Us → (x.length : ℤ) - ⌈99 * ((x.length : ℝ) - 1) / 100⌉ ≤ r.nOver1ms) ∧
      (r.p99Us ≤ 1000 → (r.nOver1ms : ℤ) ≤ x.length - 1 - ⌊99 * ((x.length : ℝ) - 1) / 100⌋) ∧
      (r.pctOver1msLo ≤ r.pctOver1ms ∧ r.pctOver1ms ≤ r.pctOver1msHi) ∧
      0 ≤ r.iqrUs ∧ 1 ≤ r.p99OverMedian ∧
      500 / x.length ≤ r.top5ShareOfSumPct ∧ r.top5ShareOfSumPct ≤ 100 := by
  have hne : x ≠ [] := by
    rintro rfl
    simp at hn
  obtain ⟨lo, hlo⟩ := Option.isSome_iff_exists.mp (List.isSome_min?_of_ne_nil hne)
  obtain ⟨hi, hhi⟩ := Option.isSome_iff_exists.mp (List.isSome_max?_of_ne_nil hne)
  have hrange : ∀ v ∈ x, v ∈ Set.Icc lo hi := fun v hv =>
    ⟨(List.min?_eq_some_iff.mp hlo).2 v hv, (List.max?_eq_some_iff.mp hhi).2 v hv⟩
  have hmedian := bootCi_mem hne Np.median (fun a ha => Np.median_mem ha) hrange medianIdx
  have hp99 := bootCi_mem hne (fun a => Np.percentile a 99)
    (fun a ha => Np.percentile_mem ha (by norm_num)) hrange p99Idx
  obtain ⟨habove, hbelow⟩ := Np.count_of_percentile hne (p := 99) (by norm_num) 1000
  have hwilson := wilson_mem (k := x.countP (1000 < ·)) (n := x.length) (z := 1.96)
    (by omega) (by exact_mod_cast List.countP_le_length) (by omega) (by norm_num)
  have hmedian_pos : 0 < Np.median x :=
    (hpos lo (List.min?_eq_some_iff.mp hlo).1).trans_le (Np.median_mem hne hrange).1
  have hmedian_le : Np.median x ≤ Np.percentile x 99 := by
    rw [Np.median_eq_quantile hne, Np.percentile_eq_quantile]
    exact quantile_le_quantile_of_le hne (by norm_num) (by norm_num) (by norm_num)
  have hquartiles := Np.percentile_mono hne (p := 25) (q := 75) (by norm_num) (by norm_num)
    (by norm_num)
  rw [summarise, hlo, hhi]
  refine ⟨_, rfl, hmedian, hp99, habove, hbelow, ?_, sub_nonneg.mpr hquartiles,
    (one_le_div hmedian_pos).mpr hmedian_le, top5_bounds hn hpos⟩
  -- per cent of the three proportions
  simp only [Int.cast_natCast] at hwilson
  rw [mul_div_assoc]
  constructor
  · exact mul_le_mul_of_nonneg_left hwilson.1 (by norm_num)
  · exact mul_le_mul_of_nonneg_left hwilson.2 (by norm_num)

/-- Two resamples of five entries: one has the last of them only. -/
def twoResamples : IndexMatrix 5 where
  rows := [[0, 3, 1, 1, 2], [4, 4, 4, 4, 4]]
  rows_ne := List.cons_ne_nil _ _
  length_row := by decide

theorem summarise_coherent_five :
    ∃ r, summarise Real.sqrt [1, 2, 3, 4, 2000] twoResamples twoResamples = some r ∧
      r.medianCiLo ≤ r.medianCiHi ∧ r.medianCiHi ≤ r.maxUs ∧ 1 ≤ r.p99OverMedian ∧
      r.top5ShareOfSumPct ≤ 100 := by
  obtain ⟨r, hr, ⟨-, hmedian, hmax⟩, -, -, -, -, -, hratio, -, hshare⟩ :=
    summarise_coherent (x := [1, 2, 3, 4, 2000]) (by simp) (by norm_num) twoResamples twoResamples
  exact ⟨r, hr, hmedian, hmax, hratio, hshare⟩

end HrtimerStudy
