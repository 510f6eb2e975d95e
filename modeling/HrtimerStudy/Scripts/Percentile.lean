import HrtimerStudy.Lib.Quantile
import HrtimerStudy.TimerBenchmark.Percentile

/-!
# The percentiles of the analysis and plotting scripts

`percentile` of `analyze_final.py` / `analyze_native.py` (one text in both files) and the nested
`percentile` of `plot_final.py` / `plot_native.py`, in exact arithmetic. They differ from the C
function and from each other in the choice of the upper neighbour, in the conditions for an early
return, in where the sample is sorted, and in the unit. All three compute the same `quantile`.

## Main definitions

* `item` — Python's indexing
* `Analyze.percentile`, `Plot.percentile` — the two functions
* `Plot.toMicroseconds` — the list the plotting scripts build before they sort it

## Main results

* `Analyze.percentile_eq_quantile`, `Plot.percentile_eq_quantile`,
  `TimerBenchmark.percentile_eq_quantile` — each implementation computes the quantile
* `percentiles_agree` — hence they agree, up to the truncation and the unit
-/

namespace HrtimerStudy

/-! ### Python lists -/

/-- `values[k]`, counting from the end for a negative `k`, or `none` for an `IndexError`. -/
def item {α : Type*} (values : List α) (k : ℤ) : Option α :=
  if 0 ≤ k then values[k.toNat]?
  else if -values.length ≤ k then values[(values.length + k).toNat]?
  else none

theorem item_natCast {α : Type*} {values : List α} {k : ℕ} (hk : k < values.length) :
    item values k = some values[k] := by
  simp [item, hk]

/-! ### The functions -/

namespace Analyze

/-- `sorted` returns the increasing rearrangement, which is one list whatever the algorithm. -/
def percentile (values : List ℤ) (p : ℚ) : Option ℚ :=
  let values := values.insertionSort (· ≤ ·)
  if values.length = 1 then (item values 0).map Int.cast
  else
    let position := ((values.length : ℚ) - 1) * p
    let lower := trunc position
    let upper := min (lower + 1) ((values.length : ℤ) - 1)
    if lower = upper then (item values lower).map Int.cast
    else do
      let fraction := position - lower
      let a ← item values lower
      let b ← item values upper
      return a + fraction * (b - a : ℤ)

end Analyze

namespace Plot

/-- `error_ns / 1000.0` for every row. -/
def toMicroseconds (errors : List ℤ) : List ℚ := errors.map fun e : ℤ => (e : ℚ) / 1000

/-- The nested function: `errors` is already sorted, and `n` is its length. -/
def percentile (errors : List ℚ) (n : ℤ) (p : ℚ) : Option ℚ :=
  let position := p * (n - 1)
  let lower := trunc position
  let upper := min (lower + 1) (n - 1)
  if lower = upper then item errors lower
  else do
    let fraction := position - lower
    let a ← item errors lower
    let b ← item errors upper
    return a + fraction * (b - a)

end Plot

/-! ### Each computes the quantile -/

/-- The order statistics of an integer sample, read as rationals. -/
theorem orderStat_map_cast {l : List ℤ} {k : ℕ} (hk : k < (l.insertionSort (· ≤ ·)).length) :
    orderStat (l.map (Int.cast : ℤ → ℚ)) k = (l.insertionSort (· ≤ ·))[k] := by
  rw [orderStat_map Int.cast_strictMono Int.cast_zero, orderStat_natCast hk]

theorem Plot.percentile_eq_quantile {errors : List ℚ} (hne : errors ≠ []) {p : ℚ}
    (hp : p ∈ Set.Icc (0 : ℚ) 1) :
    Plot.percentile (errors.insertionSort (· ≤ ·)) errors.length p = some (quantile errors p) := by
  obtain ⟨h₀, h₁⟩ := position_bounds hne hp
  have hlen := List.length_insertionSort (· ≤ ·) errors
  have hlast : p * (errors.length - 1) ≤ ((errors.length - 1 : ℤ) : ℚ) := by push_cast; exact h₁
  obtain ⟨i, -, hi, -, -, -, hin⟩ := exists_neighbours h₀ h₁
  have heq := interpolate_of_eq_min (x := orderStat errors) hlast
  have hsucc := min_eq_succ hlast
  rw [Plot.percentile, Int.cast_natCast, trunc_of_nonneg h₀, quantile]
  rw [hi] at heq hsucc ⊢
  by_cases hmin : (i : ℤ) = min ((i : ℤ) + 1) (errors.length - 1)
  · rw [if_pos hmin, heq hmin, item_natCast (by omega), orderStat_natCast (by omega)]
  · have hlt : (i : ℤ) + 1 ≤ errors.length - 1 := (hsucc hmin).symm.le.trans (min_le_right _ _)
    rw [if_neg hmin, hsucc hmin, interpolate_eq_succ, hi, ← Nat.cast_succ,
      item_natCast (by omega), item_natCast (by omega), orderStat_natCast (by omega),
      orderStat_natCast (by omega)]
    rfl

theorem Analyze.percentile_eq_quantile {values : List ℤ} (hne : values ≠ []) {p : ℚ}
    (hp : p ∈ Set.Icc (0 : ℚ) 1) :
    Analyze.percentile values p = some (quantile (values.map Int.cast) p) := by
  have hne' : values.map (Int.cast : ℤ → ℚ) ≠ [] := by simpa using hne
  obtain ⟨h₀, h₁⟩ := position_bounds hne' hp
  rw [List.length_map] at h₀ h₁
  have hlen := List.length_insertionSort (· ≤ ·) values
  have hlast : p * (values.length - 1) ≤ ((values.length - 1 : ℤ) : ℚ) := by push_cast; exact h₁
  obtain ⟨i, -, hi, -, -, -, hin⟩ := exists_neighbours h₀ h₁
  have heq := interpolate_of_eq_min (x := orderStat (values.map Int.cast)) hlast
  have hsucc := min_eq_succ hlast
  rw [Analyze.percentile, hlen, quantile, List.length_map]
  dsimp only
  rw [mul_comm, trunc_of_nonneg h₀]
  rw [hi] at heq hsucc ⊢
  by_cases hone : values.length = 1
  · -- the early return for one sample is the general formula at its only rank
    obtain rfl : i = 0 := by omega
    rw [if_pos hone, heq (by omega), orderStat_map_cast (by omega)]
    exact congrArg _ (item_natCast (k := 0) (by omega))
  rw [if_neg hone]
  by_cases hmin : (i : ℤ) = min ((i : ℤ) + 1) (values.length - 1)
  · rw [if_pos hmin, heq hmin, item_natCast (by omega), orderStat_map_cast (by omega)]
    rfl
  · have hlt : (i : ℤ) + 1 ≤ values.length - 1 := (hsucc hmin).symm.le.trans (min_le_right _ _)
    rw [if_neg hmin, hsucc hmin, interpolate_eq_succ, hi, ← Nat.cast_succ,
      item_natCast (by omega), item_natCast (by omega), orderStat_map_cast (by omega),
      orderStat_map_cast (by omega)]
    simp

/-- In exact arithmetic the C function truncates the quantile. -/
theorem TimerBenchmark.percentile_eq_quantile (qsort : TimerBenchmark.Qsort) {errors : List ℤ}
    (hne : errors ≠ []) {p : ℚ} (hp : p ∈ Set.Icc (0 : ℚ) 1) :
    TimerBenchmark.percentile id (qsort.sort errors) errors.length p
      = some (trunc (quantile (errors.map Int.cast) p)) := by
  have hne' : errors.map (Int.cast : ℤ → ℚ) ≠ [] := by simpa using hne
  obtain ⟨h₀, h₁⟩ := position_bounds hne' hp
  rw [List.length_map] at h₀ h₁
  obtain ⟨i, j, hi, hj, hij, hji, hjn⟩ := exists_neighbours h₀ h₁
  have hlen := List.length_insertionSort (· ≤ ·) errors
  have hpos : TimerBenchmark.position id errors.length p = p * (errors.length - 1) := by
    simp [TimerBenchmark.position]
  have hlower : TimerBenchmark.lowerIndex id errors.length p = i := by
    rw [TimerBenchmark.lowerIndex, hpos, hi]
  have hupper : TimerBenchmark.upperIndex id errors.length p = j := by
    rw [TimerBenchmark.upperIndex, hpos, hj]
  rw [quantile, List.length_map, qsort.sort_eq_insertionSort]
  rcases eq_or_ne i j with rfl | hne
  · rw [TimerBenchmark.percentile_of_eq hlower hupper (by omega),
      interpolate_of_floor_eq_ceil _ (hi.trans hj.symm), hi, orderStat_map_cast (by omega),
      trunc_intCast]
  · rw [TimerBenchmark.percentile_of_ne hlower hupper hne (by omega) (by omega), hpos,
      interpolate, Int.fract, hi, hj, orderStat_map_cast (by omega), orderStat_map_cast (by omega)]
    simp [TimerBenchmark.interpolated]

/-! ### Agreement -/

/-- **The three implementations agree.** The C percentile of the sorted array is the scripts'
percentile of the list, truncated toward zero; the plots show the same percentile in microseconds;
and the three are less than a nanosecond apart. -/
theorem percentiles_agree (qsort : TimerBenchmark.Qsort) {errors : List ℤ} (hne : errors ≠ [])
    {p : ℚ} (hp : p ∈ Set.Icc (0 : ℚ) 1) :
    ∃ (logged : ℤ) (summarised plotted : ℚ),
      TimerBenchmark.percentile id (qsort.sort errors) errors.length p = some logged ∧
      Analyze.percentile errors p = some summarised ∧
      Plot.percentile ((Plot.toMicroseconds errors).insertionSort (· ≤ ·)) errors.length p
        = some plotted ∧
      logged = trunc summarised ∧ plotted = summarised / 1000 ∧
      |(logged : ℚ) - summarised| < 1 ∧ |logged - 1000 * plotted| < 1 := by
  have hscale : Plot.toMicroseconds errors
      = (errors.map (Int.cast : ℤ → ℚ)).map ((1 / 1000 : ℚ) * ·) := by
    rw [Plot.toMicroseconds, List.map_map]
    exact List.map_congr_left fun e _ => by simp only [Function.comp_apply]; ring
  have hus : Plot.toMicroseconds errors ≠ [] := by simpa [Plot.toMicroseconds] using hne
  have hplot := Plot.percentile_eq_quantile hus hp
  rw [hscale, quantile_mul_const _ (by norm_num), ← hscale, Plot.toMicroseconds, List.length_map]
    at hplot
  have hlt := abs_trunc_sub_lt_one (quantile (errors.map (Int.cast : ℤ → ℚ)) p)
  refine ⟨_, _, _, TimerBenchmark.percentile_eq_quantile qsort hne hp,
    Analyze.percentile_eq_quantile hne hp, hplot, rfl, by ring, hlt, ?_⟩
  rw [show (1000 : ℚ) * (1 / 1000 * quantile (errors.map Int.cast) p)
    = quantile (errors.map Int.cast) p by ring]
  exact hlt

theorem percentiles_agree_signed :
    TimerBenchmark.percentile id (TimerBenchmark.Qsort.insertion.sort [5, -3, 8, 8]) 4 (1 / 10)
        = some (trunc (-3 / 5 : ℚ)) ∧
      Plot.percentile ((Plot.toMicroseconds [5, -3, 8, 8]).insertionSort (· ≤ ·)) 4 (1 / 10)
        = some (-3 / 5 / 1000) := by
  obtain ⟨logged, summarised, plotted, hlogged, hsummarised, hplotted, rfl, rfl, -, -⟩ :=
    percentiles_agree .insertion (List.cons_ne_nil 5 [-3, 8, 8]) (p := 1 / 10) (by norm_num)
  have hvalue : Analyze.percentile [5, -3, 8, 8] (1 / 10) = some (-3 / 5) := by decide +kernel
  obtain rfl := Option.some.inj (hvalue.symm.trans hsummarised)
  exact ⟨hlogged, hplotted⟩

end HrtimerStudy
