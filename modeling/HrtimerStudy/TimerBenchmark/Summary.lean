import HrtimerStudy.Lib.Moments
import HrtimerStudy.Scripts.Percentile

/-!
# The printed summary

The last part of `main` in `timer_benchmark.c`: sort the errors, take the ends of the array, run
the two loops for the mean and the squared deviations, and call `percentile` four times. `double`
operations are rounded by one function and `long double` operations by another; exact arithmetic
rounds by neither.

The statistics are then characterised without reference to how they are computed (`idealSummary`),
and what the summary of a run says about the measurements is proved of that.

## Main definitions

* `summary` — the statistics as `main` computes them
* `idealSummary` — the same statistics of a sample, as order statistics, moments and quantiles

## Main results

* `summary_exact` — in exact arithmetic the code computes the ideal summary
* `summary_ordered` — the printed order statistics are ordered, whatever the rounding
* `summary_nonexpansive` — **two runs**: no statistic moves further than the measurements
* `moments_consistent` — the mean and the deviation against the order statistics
-/

namespace HrtimerStudy

namespace TimerBenchmark

/-! ### The code -/

/-- How results of the two floating-point types are rounded. -/
structure Arithmetic where
  double : ℚ → ℚ
  longDouble : ℚ → ℚ

/-- Exact arithmetic. -/
def Arithmetic.exact : Arithmetic := ⟨id, id⟩

/-- The values `main` prints. `variance` is the argument of `sqrtl`. -/
structure Summary where
  min : ℤ
  max : ℤ
  mean : ℚ
  variance : ℚ
  p50 : ℤ
  p90 : ℤ
  p95 : ℤ
  p99 : ℤ

/-- `sqrtl(variance_sum / trials)`. -/
noncomputable def Summary.standardDeviation (s : Summary) : ℝ := √(s.variance : ℝ)

/-- The statistics of the measured errors, or `none` for a read outside the array. -/
def summary (arith : Arithmetic) (qsort : Qsort) (errors : List ℤ) : Option Summary := do
  let trials : ℤ := errors.length
  let errors := qsort.sort errors
  let min ← readAt errors 0
  let max ← readAt errors (trials - 1)
  let sum : ℚ := errors.foldl (fun (sum : ℚ) (e : ℤ) => arith.longDouble (sum + e)) 0
  let mean := arith.longDouble (sum / trials)
  let varianceSum : ℚ := errors.foldl (fun (varianceSum : ℚ) (e : ℤ) =>
    let difference := arith.longDouble (e - mean)
    arith.longDouble (varianceSum + arith.longDouble (difference * difference))) 0
  let p50 ← percentile arith.double errors trials (arith.double 0.50)
  let p90 ← percentile arith.double errors trials (arith.double 0.90)
  let p95 ← percentile arith.double errors trials (arith.double 0.95)
  let p99 ← percentile arith.double errors trials (arith.double 0.99)
  return {
    min, max, mean, variance := arith.longDouble (varianceSum / trials), p50, p90, p95, p99 }

/-! ### What it is meant to compute -/

/-- The errors of a run in increasing order, as a family of rationals. -/
def ranked (errors : List ℤ) (n : ℕ) (i : Fin n) : ℚ := ((orderStat errors (i : ℕ) : ℤ) : ℚ)

/-- The summary of a sample of size `n`. Only order statistics occur, so the order in which the
errors were measured plays no part. -/
def idealSummary (errors : List ℤ) (n : ℕ) : Summary where
  min := orderStat errors 0
  max := orderStat errors (n - 1 : ℕ)
  mean := HrtimerStudy.mean (ranked errors n)
  variance := HrtimerStudy.variance (ranked errors n)
  p50 := trunc (quantile (errors.map (Int.cast : ℤ → ℚ)) 0.50)
  p90 := trunc (quantile (errors.map (Int.cast : ℤ → ℚ)) 0.90)
  p95 := trunc (quantile (errors.map (Int.cast : ℤ → ℚ)) 0.95)
  p99 := trunc (quantile (errors.map (Int.cast : ℤ → ℚ)) 0.99)

/-! ### The loops -/

/-- An accumulating loop over an array is a sum. -/
theorem foldl_add_eq_sum (f : ℤ → ℚ) (l : List ℤ) (c : ℚ) :
    l.foldl (fun acc e => acc + f e) c = c + ∑ i : Fin l.length, f l[i.val] := by
  rw [Fin.sum_univ_fun_getElem]
  induction l generalizing c with
  | nil => simp
  | cons e l ih => rw [List.foldl_cons, ih, List.map_cons, List.sum_cons, add_assoc]

theorem readAt_sort (qsort : Qsort) {errors : List ℤ} {k : ℕ} (hk : k < errors.length) :
    readAt (qsort.sort errors) k = some (orderStat errors k) := by
  have hlen := List.length_insertionSort (· ≤ ·) errors
  rw [qsort.sort_eq_insertionSort, readAt_eq_some (by omega), orderStat_natCast (by omega)]

/-- A loop over the sorted array adds up a function of the order statistics. -/
theorem foldl_sort_div (qsort : Qsort) (errors : List ℤ) (f : ℚ → ℚ) :
    (qsort.sort errors).foldl (fun (acc : ℚ) (e : ℤ) => acc + f e) 0 / errors.length
      = HrtimerStudy.mean fun i => f (ranked errors errors.length i) := by
  have hlen := qsort.length_sort errors
  rw [foldl_add_eq_sum fun e => f e, zero_add, HrtimerStudy.mean, Fintype.card_fin]
  refine congrArg (· / _) (Fintype.sum_equiv (finCongr hlen) _ _ fun i => ?_)
  have hi : (i : ℕ) < errors.length := hlen ▸ i.isLt
  have hread := readAt_sort qsort hi
  rw [readAt_eq_some (by omega), Option.some.injEq] at hread
  exact congrArg f (congrArg Int.cast hread)

/-- **In exact arithmetic the code computes the ideal summary.** -/
theorem summary_exact (qsort : Qsort) {errors : List ℤ} (hne : errors ≠ []) :
    summary .exact qsort errors = some (idealSummary errors errors.length) := by
  have hpos := List.length_pos_iff.mpr hne
  have hmin := readAt_sort qsort hpos
  have hmax : readAt (qsort.sort errors) (errors.length - 1 : ℕ) = some _ :=
    readAt_sort qsort (by omega)
  have hlast : ((errors.length - 1 : ℕ) : ℤ) = (errors.length : ℤ) - 1 := by omega
  rw [hlast] at hmax
  have hmean := foldl_sort_div qsort errors id
  have hvar := foldl_sort_div qsort errors fun e =>
    (e - HrtimerStudy.mean (ranked errors errors.length)) ^ 2
  simp only [id_eq] at hmean
  simp only [sq] at hvar
  have hp := fun p hp => percentile_eq_quantile qsort hne (p := p) hp
  simp only [summary, Arithmetic.exact, id_eq, Int.cast_natCast]
  rw [hmean, hvar, hp 0.50 (by norm_num), hp 0.90 (by norm_num), hp 0.95 (by norm_num),
    hp 0.99 (by norm_num), hmax, ← Nat.cast_zero, hmin]
  simp only [idealSummary, hlast, Option.bind_eq_bind, Option.bind_some, ← sq]
  rfl

/-! ### The printed order statistics are ordered -/

/-- The array `main` passes to `percentile`. -/
def sortedArray (qsort : Qsort) (errors : List ℤ) (hne : errors ≠ [])
    (hsize : (errors.length : ℤ) ≤ intMax) (hrange : ∀ e ∈ errors, 0 ≤ e ∧ e ≤ 2 ^ 53) :
    ErrorArray where
  values := qsort.sort errors
  sorted := qsort.sorted errors
  range v hv := hrange v ((qsort.perm errors).subset hv)
  pos := List.length_pos_iff.mpr (qsort.sort_ne_nil hne)
  size := by rwa [qsort.length_sort]

/-- **The printed order statistics are ordered**, for any rounding of the `double` operations that
is monotone and exact on representable integers, and any rounding of the others. -/
theorem summary_ordered (fl : Rounding ℚ (2 ^ 53)) (longDouble : ℚ → ℚ) (qsort : Qsort)
    {errors : List ℤ} (hne : errors ≠ []) (hsize : (errors.length : ℤ) ≤ intMax)
    (hrange : ∀ e ∈ errors, 0 ≤ e ∧ e ≤ 2 ^ 53) :
    (∀ p q : ℚ, 0 ≤ p → p ≤ q → q ≤ 1 → ∃ first r s last : ℤ,
      readAt (qsort.sort errors) 0 = some first ∧
      percentile fl (qsort.sort errors) errors.length p = some r ∧
      percentile fl (qsort.sort errors) errors.length q = some s ∧
      readAt (qsort.sort errors) (errors.length - 1) = some last ∧
      first ≤ r ∧ r ≤ s ∧ s ≤ last) ∧
    ∃ s, summary ⟨fl, longDouble⟩ qsort errors = some s ∧
      s.min ≤ s.p50 ∧ s.p50 ≤ s.p90 ∧ s.p90 ≤ s.p95 ∧ s.p95 ≤ s.p99 ∧ s.p99 ≤ s.max := by
  have hlen := qsort.length_sort errors
  have hbetween := fun p q hp hpq hq =>
    (sortedArray qsort errors hne hsize hrange).percentile_between fl (p := p) (q := q) hp hpq hq
  simp only [ErrorArray.count, sortedArray, hlen] at hbetween
  refine ⟨hbetween, ?_⟩
  -- the literals are rounded too, which keeps them ordered and inside the unit interval
  have h₀ : 0 ≤ fl 0.50 := by
    rw [← fl.apply_zero (by norm_num)]
    exact fl.mono (by norm_num)
  have h₁ : fl 0.99 ≤ 1 := by
    rw [← fl.apply_one (by norm_num)]
    exact fl.mono (by norm_num)
  have h5090 : fl 0.50 ≤ fl 0.90 := fl.mono (by norm_num)
  have h9095 : fl 0.90 ≤ fl 0.95 := fl.mono (by norm_num)
  have h9599 : fl 0.95 ≤ fl 0.99 := fl.mono (by norm_num)
  obtain ⟨min, p50, p90, _, hmin, hp50, hp90, -, hmin50, h50, -⟩ :=
    hbetween _ _ h₀ h5090 (h9095.trans (h9599.trans h₁))
  obtain ⟨_, _, p95, _, -, hp90', hp95, -, -, h90, -⟩ :=
    hbetween _ _ (h₀.trans h5090) h9095 (h9599.trans h₁)
  obtain ⟨_, _, p99, max, -, hp95', hp99, hmax, -, h95, h99⟩ :=
    hbetween _ _ (h₀.trans (h5090.trans h9095)) h9599 h₁
  obtain rfl := Option.some.inj (hp90.symm.trans hp90')
  obtain rfl := Option.some.inj (hp95.symm.trans hp95')
  have hsummary : ∃ mean variance, summary ⟨fl, longDouble⟩ qsort errors
      = some ⟨min, max, mean, variance, p50, p90, p95, p99⟩ := by
    simp [summary, hmin, hmax, hp50, hp90, hp95, hp99]
  obtain ⟨mean, variance, hsummary⟩ := hsummary
  exact ⟨_, hsummary, hmin50, h50, h90, h95, h99⟩

theorem summary_ordered_grid :
    ∃ s, summary ⟨Rounding.gridDown ℚ (2 ^ 53) 4 (by decide), id⟩ .insertion [7, 2, 4] = some s ∧
      s.min ≤ s.p50 ∧ s.p50 ≤ s.p90 ∧ s.p90 ≤ s.p95 ∧ s.p95 ≤ s.p99 ∧ s.p99 ≤ s.max :=
  (summary_ordered (Rounding.gridDown ℚ (2 ^ 53) 4 (by decide)) id .insertion
    (List.cons_ne_nil 7 [2, 4]) (by decide) (by decide)).2

/-! ### Two runs -/

/-- The mean and the variance as reals, for the square root. -/
theorem cast_mean {n : ℕ} (x : Fin n → ℚ) :
    ((HrtimerStudy.mean x : ℚ) : ℝ) = HrtimerStudy.mean fun i => (x i : ℝ) := by
  simp [HrtimerStudy.mean]

theorem cast_variance {n : ℕ} (x : Fin n → ℚ) :
    ((HrtimerStudy.variance x : ℚ) : ℝ) = HrtimerStudy.variance fun i => (x i : ℝ) := by
  simp [HrtimerStudy.variance, HrtimerStudy.mean]

theorem standardDeviation_idealSummary (errors : List ℤ) (n : ℕ) :
    (idealSummary errors n).standardDeviation = stdDev fun i => (ranked errors n i : ℝ) := by
  rw [Summary.standardDeviation, idealSummary, cast_variance, stdDev]

theorem abs_ranked_sub_le {a b : List ℤ} {d : ℤ} (h : PairedBy (fun x y => |x - y| ≤ d) a b)
    (i : Fin a.length) : |ranked a a.length i - ranked b a.length i| ≤ d := by
  have := abs_orderStat_sub_le h i.isLt
  rw [ranked, ranked]
  exact_mod_cast this

theorem ranked_le_ranked {a b : List ℤ} (h : PairedBy (· ≤ ·) a b) (i : Fin a.length) :
    ranked a a.length i ≤ ranked b a.length i := by
  have := orderStat_le_orderStat h i.isLt
  rw [ranked, ranked]
  exact_mod_cast this

/-- A truncated percentile moves by at most the integer `d` the errors move by. -/
theorem abs_trunc_quantile_sub_le {a b : List ℤ} (ha : a ≠ []) {d : ℤ}
    (h : PairedBy (fun x y => |x - y| ≤ d) a b) {p : ℚ} (hp : p ∈ Set.Icc (0 : ℚ) 1) :
    |trunc (quantile (a.map (Int.cast : ℤ → ℚ)) p) - trunc (quantile (b.map Int.cast) p)| ≤ d := by
  refine abs_trunc_sub_trunc_le (abs_quantile_sub_le (h.map fun x y hxy => ?_) (by simpa) hp)
  exact_mod_cast hxy

theorem trunc_quantile_le {a b : List ℤ} (ha : a ≠ []) (h : PairedBy (· ≤ ·) a b) {p : ℚ}
    (hp : p ∈ Set.Icc (0 : ℚ) 1) :
    trunc (quantile (a.map (Int.cast : ℤ → ℚ)) p) ≤ trunc (quantile (b.map Int.cast) p) := by
  refine trunc_mono (quantile_le_quantile (h.map fun x y hxy => ?_) (by simpa) hp)
  exact_mod_cast hxy

/-- **The summary is non-expansive.** Two runs whose errors differ by at most `d` under some
pairing of their trials differ by at most `d` in every statistic; and if no error decreases,
neither does a statistic of location. -/
theorem summary_nonexpansive (qsort : Qsort) {a b : List ℤ} (ha : a ≠ []) {d : ℤ}
    (h : PairedBy (fun x y => |x - y| ≤ d) a b) :
    ∃ s t, summary .exact qsort a = some s ∧ summary .exact qsort b = some t ∧
      |s.min - t.min| ≤ d ∧ |s.max - t.max| ≤ d ∧ |s.mean - t.mean| ≤ d ∧
      |s.standardDeviation - t.standardDeviation| ≤ d ∧
      |s.p50 - t.p50| ≤ d ∧ |s.p90 - t.p90| ≤ d ∧ |s.p95 - t.p95| ≤ d ∧ |s.p99 - t.p99| ≤ d ∧
      (PairedBy (fun x y => |x - y| ≤ d ∧ x ≤ y) a b →
        s.min ≤ t.min ∧ s.max ≤ t.max ∧ s.mean ≤ t.mean ∧
        s.p50 ≤ t.p50 ∧ s.p90 ≤ t.p90 ∧ s.p95 ≤ t.p95 ∧ s.p99 ≤ t.p99) := by
  have hlen := h.length_eq
  have hpos := List.length_pos_iff.mpr ha
  have hb : b ≠ [] := List.length_pos_iff.mp (hlen ▸ hpos)
  have : Nonempty (Fin a.length) := ⟨⟨0, hpos⟩⟩
  have hd : (0 : ℝ) ≤ d := by
    have := (abs_nonneg _).trans (abs_orderStat_sub_le h hpos)
    exact_mod_cast this
  refine ⟨_, _, summary_exact qsort ha, summary_exact qsort hb, ?_⟩
  rw [standardDeviation_idealSummary, standardDeviation_idealSummary, ← hlen]
  refine ⟨abs_orderStat_sub_le h hpos, abs_orderStat_sub_le h (by omega),
    abs_mean_sub_mean_le (abs_ranked_sub_le h), abs_stdDev_sub_stdDev_le hd fun i => ?_,
    abs_trunc_quantile_sub_le ha h (by norm_num), abs_trunc_quantile_sub_le ha h (by norm_num),
    abs_trunc_quantile_sub_le ha h (by norm_num), abs_trunc_quantile_sub_le ha h (by norm_num),
    fun hle => ?_⟩
  · have := abs_ranked_sub_le h i
    exact_mod_cast this
  · have hle : PairedBy (· ≤ ·) a b := hle.mono fun _ _ hxy => hxy.2
    exact ⟨orderStat_le_orderStat hle hpos, orderStat_le_orderStat hle (by omega),
      mean_mono (ranked_le_ranked hle), trunc_quantile_le ha hle (by norm_num),
      trunc_quantile_le ha hle (by norm_num), trunc_quantile_le ha hle (by norm_num),
      trunc_quantile_le ha hle (by norm_num)⟩

theorem summary_nonexpansive_swapped :
    ∃ s t, summary .exact .insertion [3, 1] = some s ∧ summary .exact .insertion [2, 4] = some t ∧
      |s.mean - t.mean| ≤ 1 ∧ |s.standardDeviation - t.standardDeviation| ≤ 1 ∧
      |s.p99 - t.p99| ≤ 1 ∧ s.mean ≤ t.mean ∧ s.p99 ≤ t.p99 := by
  have hpaired : PairedBy (fun x y : ℤ => |x - y| ≤ 1 ∧ x ≤ y) [3, 1] [2, 4] :=
    ⟨[4, 2], by decide, by decide⟩
  obtain ⟨s, t, hs, ht, -, -, hmean, hdeviation, -, -, -, hp99, hle⟩ :=
    summary_nonexpansive .insertion (List.cons_ne_nil 3 [1]) (d := 1)
      (hpaired.mono fun _ _ hxy => hxy.1)
  obtain ⟨-, -, hmean', -, -, -, hp99'⟩ := hle hpaired
  exact ⟨s, t, hs, ht, by exact_mod_cast hmean, by exact_mod_cast hdeviation, hp99, hmean', hp99'⟩

/-! ### Moments against order statistics -/

theorem ranked_mem_Icc (errors : List ℤ) (i : Fin errors.length) :
    ranked errors errors.length i ∈ Set.Icc
      ((idealSummary errors errors.length).min : ℚ) (idealSummary errors errors.length).max := by
  have hi := i.isLt
  have hlo : orderStat errors (0 : ℕ) ≤ orderStat errors (i : ℕ) :=
    orderStat_mono (Nat.zero_le _) hi
  have hhi : orderStat errors (i : ℕ) ≤ orderStat errors (errors.length - 1 : ℕ) :=
    orderStat_mono (by omega) (by omega)
  rw [ranked, idealSummary]
  exact ⟨by exact_mod_cast hlo, by exact_mod_cast hhi⟩

/-- The interpolated median lies between an error and its mirror image in rank. -/
theorem median_mem_uIcc (errors : List ℤ) (i : Fin errors.length) :
    quantile (errors.map (Int.cast : ℤ → ℚ)) 0.50 ∈ Set.uIcc (ranked errors errors.length i)
      (ranked errors errors.length i.rev) := by
  have h := quantile_half_mem_uIcc (l := errors.map (Int.cast : ℤ → ℚ)) (i := i) (by simp)
  rw [orderStat_map Int.cast_strictMono Int.cast_zero,
    orderStat_map Int.cast_strictMono Int.cast_zero, List.length_map] at h
  have hrev : errors.length - 1 - (i : ℕ) = (i.rev : ℕ) := by rw [Fin.val_rev]; omega
  rw [hrev] at h
  rw [show (0.50 : ℚ) = 1 / 2 by norm_num]
  exact h

/-- **The mean is within one standard deviation of the median**, which is the `p50` the scripts
report. -/
theorem abs_mean_sub_median_le {errors : List ℤ} (hne : errors ≠ []) :
    |((idealSummary errors errors.length).mean : ℝ)
        - (quantile (errors.map (Int.cast : ℤ → ℚ)) 0.50 : ℚ)|
      ≤ (idealSummary errors errors.length).standardDeviation := by
  have : Nonempty (Fin errors.length) := ⟨⟨0, List.length_pos_iff.mpr hne⟩⟩
  rw [standardDeviation_idealSummary]
  have hmean : ((idealSummary errors errors.length).mean : ℝ)
      = HrtimerStudy.mean fun i => (ranked errors errors.length i : ℝ) := cast_mean _
  rw [hmean]
  refine abs_mean_sub_le_stdDev Fin.revPerm fun i => ?_
  have h := median_mem_uIcc errors i
  rw [Set.mem_uIcc] at h ⊢
  exact_mod_cast h

/-- The median of integers is a half-integer. -/
theorem exists_two_mul_median (errors : List ℤ) :
    ∃ k : ℤ, 2 * quantile (errors.map (Int.cast : ℤ → ℚ)) 0.50 = k := by
  have hint : ∀ k, orderStat (errors.map (Int.cast : ℤ → ℚ)) k = (orderStat errors k : ℤ) :=
    orderStat_map Int.cast_strictMono Int.cast_zero errors
  rw [quantile, List.length_map, interpolate, hint, hint, Int.fract]
  generalize hlo : ⌊(0.50 : ℚ) * (errors.length - 1)⌋ = lo
  generalize ⌈(0.50 : ℚ) * (errors.length - 1)⌉ = hi
  refine ⟨2 * orderStat errors lo
    + (errors.length - 1 - 2 * lo) * (orderStat errors hi - orderStat errors lo), ?_⟩
  push_cast
  ring

/-- **The moments agree with the order statistics.** The mean lies in the range, the deviation is
bounded by the room on both sides of the mean, and the median is within one deviation of it, with
half a nanosecond more for the truncated `p50`. -/
theorem moments_consistent (qsort : Qsort) {errors : List ℤ} (hne : errors ≠ []) :
    ∃ (s : Summary) (median : ℚ), summary .exact qsort errors = some s ∧
      Analyze.percentile errors 0.50 = some median ∧
      s.min ≤ s.mean ∧ s.mean ≤ s.max ∧
      s.standardDeviation ^ 2 ≤ (s.max - s.mean) * (s.mean - s.min) ∧
      s.standardDeviation ≤ (s.max - s.min) / 2 ∧
      |(s.mean : ℝ) - s.p50| ≤ s.standardDeviation + 1 / 2 ∧
      |(s.mean : ℝ) - median| ≤ s.standardDeviation := by
  have hn : Nonempty (Fin errors.length) := ⟨⟨0, List.length_pos_iff.mpr hne⟩⟩
  have hlo := fun i => (ranked_mem_Icc errors i).1
  have hhi := fun i => (ranked_mem_Icc errors i).2
  have hsd := standardDeviation_idealSummary errors errors.length
  have hmedian := abs_mean_sub_median_le hne
  refine ⟨_, _, summary_exact qsort hne, Analyze.percentile_eq_quantile hne (by norm_num),
    le_mean hlo, mean_le hhi, ?_, ?_, ?_, hmedian⟩
  · have hvar := variance_le_mul hlo hhi
    rw [hsd, stdDev_sq, ← cast_variance]
    exact_mod_cast hvar
  · rw [hsd]
    exact stdDev_le_half_range (fun i => by exact_mod_cast hlo i) fun i => by exact_mod_cast hhi i
  · obtain ⟨k, hk⟩ := exists_two_mul_median errors
    have hhalf := abs_trunc_sub_le_half hk
    have hp50 : |((quantile (errors.map (Int.cast : ℤ → ℚ)) 0.50 : ℚ) : ℝ)
        - (idealSummary errors errors.length).p50| ≤ 1 / 2 := by
      have hcast := (Rat.cast_le (K := ℝ)).mpr hhalf
      rw [abs_sub_comm]
      push_cast at hcast
      exact hcast
    exact (abs_sub_le _ _ _).trans (add_le_add hmedian hp50)

theorem moments_consistent_skewed :
    ∃ s, summary .exact .insertion [9, 0, 0] = some s ∧ s.mean ≤ s.max ∧
      s.standardDeviation ^ 2 ≤ (s.max - s.mean) * (s.mean - s.min) ∧
      |(s.mean : ℝ) - s.p50| ≤ s.standardDeviation + 1 / 2 ∧
      |(s.mean : ℝ) - (0 : ℚ)| ≤ s.standardDeviation := by
  obtain ⟨s, median, hs, hmedian, -, hmax, hvariance, -, hp50, hslack⟩ :=
    moments_consistent .insertion (List.cons_ne_nil 9 [0, 0])
  have hvalue : Analyze.percentile [9, 0, 0] 0.50 = some 0 := by decide +kernel
  obtain rfl := Option.some.inj (hvalue.symm.trans hmedian)
  exact ⟨s, hs, hmax, hvariance, hp50, hslack⟩

end TimerBenchmark

end HrtimerStudy
