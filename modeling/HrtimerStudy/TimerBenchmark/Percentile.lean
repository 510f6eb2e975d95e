import HrtimerStudy.Lib.OrderStatistics
import HrtimerStudy.Lib.Rounding

/-!
# `percentile` and its sort order

`percentile` of `timer_benchmark.c`, with every floating-point operation rounded by a function
`fl`: the two conversions from `int` and the two from `int64_t`, the multiplication that gives the
position, the subtraction that gives the fraction, and the product and the sum of the
interpolation. Exact arithmetic is `fl = id`. A read outside the array is `none`.

Nothing below depends on a particular format. `Rounding ℚ (2 ^ 53)` is monotone and exact on the
integers a `double` holds, and that is enough for the indices, for the rank of the result and for
its monotonicity in `p`.

## Main definitions

* `compareInt64`, `Qsort` — the sort order, and a library `qsort` that respects it
* `percentile` — the C function
* `ErrorArray` — what the caller guarantees: a sorted array of representable errors

## Main results

* `ErrorArray.percentile_spec` — the indices are in range and the result is between its neighbours
* `ErrorArray.percentile_mono` — a larger `p` never gives a smaller percentile
* `ErrorArray.percentile_between` — and neither leaves the range of the array
* `percentile_rank` — the rank guarantee in terms of counts
-/

namespace HrtimerStudy

namespace TimerBenchmark

/-- `INT_MAX` of the 32-bit `int` that counts the trials. -/
def intMax : ℤ := 2147483647

/-! ### Sorting -/

def compareInt64 (x y : ℤ) : ℤ := if x < y then -1 else if x > y then 1 else 0

theorem compareInt64_nonpos_iff {x y : ℤ} : compareInt64 x y ≤ 0 ↔ x ≤ y := by
  rw [compareInt64]
  split_ifs <;> omega

/-- The library's `qsort`, called with `compare_int64`: some rearrangement of the array in which
no element compares greater than a later one. Which of several it is, is up to the library. -/
structure Qsort where
  sort : List ℤ → List ℤ
  perm : ∀ l, (sort l).Perm l
  ordered : ∀ l, (sort l).Pairwise fun x y => compareInt64 x y ≤ 0

namespace Qsort

variable (qsort : Qsort)

theorem sorted (l : List ℤ) : (qsort.sort l).Pairwise (· ≤ ·) :=
  (qsort.ordered l).imp compareInt64_nonpos_iff.mp

@[simp] theorem length_sort (l : List ℤ) : (qsort.sort l).length = l.length :=
  (qsort.perm l).length_eq

theorem sort_ne_nil {l : List ℤ} (h : l ≠ []) : qsort.sort l ≠ [] := by
  intro hnil
  have hlen := qsort.length_sort l
  rw [hnil] at hlen
  exact h (List.eq_nil_of_length_eq_zero hlen.symm)

/-- The comparison is total on the values, so the sorted array does not depend on the library. -/
theorem sort_eq_insertionSort (l : List ℤ) : qsort.sort l = l.insertionSort (· ≤ ·) :=
  ((qsort.perm l).trans (List.perm_insertionSort _ l).symm).eq_of_pairwise'
    (qsort.sorted l) (List.pairwise_insertionSort _ l)

/-- Insertion sort meets the contract. -/
def insertion : Qsort where
  sort := List.insertionSort (· ≤ ·)
  perm := List.perm_insertionSort _
  ordered l := (List.pairwise_insertionSort (· ≤ ·) l).imp compareInt64_nonpos_iff.mpr

end Qsort

/-! ### The function -/

section Percentile

variable (fl : ℚ → ℚ)

/-- `values[k]`, or `none` outside the array. -/
def readAt (values : List ℤ) (k : ℤ) : Option ℤ := if 0 ≤ k then values[k.toNat]? else none

/-- `p * (count - 1)`. -/
def position (count : ℤ) (p : ℚ) : ℚ := fl (p * fl (count - 1 : ℤ))

/-- `(int)floor(position)`. -/
def lowerIndex (count : ℤ) (p : ℚ) : ℤ := ⌊position fl count p⌋

/-- `(int)ceil(position)`. -/
def upperIndex (count : ℤ) (p : ℚ) : ℤ := ⌈position fl count p⌉

/-- `(int64_t)(a + fraction * (b - a))`. -/
def interpolated (a b : ℤ) (fraction : ℚ) : ℤ :=
  trunc (fl (fl a + fl (fraction * fl (b - a : ℤ))))

def percentile (values : List ℤ) (count : ℤ) (p : ℚ) : Option ℤ :=
  let lower := lowerIndex fl count p
  let upper := upperIndex fl count p
  if lower = upper then readAt values lower
  else do
    let fraction := fl (position fl count p - fl lower)
    let a ← readAt values lower
    let b ← readAt values upper
    return interpolated fl a b fraction

end Percentile

@[simp] theorem readAt_natCast (values : List ℤ) (k : ℕ) : readAt values k = values[k]? := by
  simp [readAt]

theorem readAt_eq_some {values : List ℤ} {k : ℕ} (hk : k < values.length) :
    readAt values k = some values[k] := by
  rw [readAt_natCast, List.getElem?_eq_getElem hk]

/-! ### Rounded interpolation between two representable integers -/

section Interpolated

variable (fl : Rounding ℚ (2 ^ 53)) {a b : ℤ}

/-- The interpolation does not overshoot its neighbours, whatever the rounding. -/
theorem interpolated_mem_Icc (ha : 0 ≤ a) (hab : a ≤ b) (hb : b ≤ 2 ^ 53) {f : ℚ}
    (hf : f ∈ Set.Icc (0 : ℚ) 1) : interpolated fl a b f ∈ Set.Icc a b := by
  have hgap : fl (b - a : ℤ) = (b - a : ℤ) := fl.apply_int (by omega) (by omega)
  have hgap₀ : (0 : ℚ) ≤ (b - a : ℤ) := by exact_mod_cast sub_nonneg.mpr hab
  have hprod : fl (f * (b - a : ℤ)) ∈ Set.Icc ((0 : ℤ) : ℚ) (b - a : ℤ) := by
    refine fl.mem_Icc le_rfl (by norm_num) (by omega) (by omega) ⟨?_, ?_⟩
    · simpa using mul_nonneg hf.1 hgap₀
    · exact mul_le_of_le_one_left hgap₀ hf.2
  have hsum : fl (a + fl (f * (b - a : ℤ))) ∈ Set.Icc (a : ℚ) b := by
    have hlo : 0 ≤ fl (f * (b - a : ℤ)) := by simpa only [Int.cast_zero] using hprod.1
    have hhi : fl (f * (b - a : ℤ)) ≤ b - a := by simpa only [Int.cast_sub] using hprod.2
    exact fl.mem_Icc ha (by omega) (by omega) hb ⟨by linarith, by linarith⟩
  rw [interpolated, hgap, fl.apply_int ha (by omega)]
  exact trunc_mem_Icc hsum

theorem interpolated_mono (ha : 0 ≤ a) (hab : a ≤ b) (hb : b ≤ 2 ^ 53) :
    Monotone (interpolated fl a b) := by
  intro f g hfg
  have hgap : fl (b - a : ℤ) = (b - a : ℤ) := fl.apply_int (by omega) (by omega)
  have hgap₀ : (0 : ℚ) ≤ (b - a : ℤ) := by exact_mod_cast sub_nonneg.mpr hab
  rw [interpolated, interpolated, hgap]
  have hprod : fl (f * (b - a : ℤ)) ≤ fl (g * (b - a : ℤ)) :=
    fl.mono (mul_le_mul_of_nonneg_right hfg hgap₀)
  exact trunc_mono (fl.mono (by linarith))

end Interpolated

/-! ### Positions -/

section Position

variable (fl : Rounding ℚ (2 ^ 53)) {count : ℤ}

theorem position_mono (hcount : 1 ≤ count) (hmax : count ≤ intMax) :
    Monotone (position fl count) := by
  intro p q hpq
  rw [intMax] at hmax
  have h₀ : (0 : ℚ) ≤ (count - 1 : ℤ) := by exact_mod_cast (by omega : 0 ≤ count - 1)
  rw [position, position, fl.apply_int (by omega) (by omega)]
  exact fl.mono (mul_le_mul_of_nonneg_right hpq h₀)

theorem position_mem_Icc (hcount : 1 ≤ count) (hmax : count ≤ intMax) {p : ℚ}
    (hp : p ∈ Set.Icc (0 : ℚ) 1) : position fl count p ∈ Set.Icc ((0 : ℤ) : ℚ) (count - 1 : ℤ) := by
  rw [intMax] at hmax
  have h₀ : (0 : ℚ) ≤ (count - 1 : ℤ) := by exact_mod_cast (by omega : 0 ≤ count - 1)
  rw [position, fl.apply_int (by omega) (by omega)]
  refine fl.mem_Icc le_rfl (by norm_num) (by omega) (by omega) ⟨?_, ?_⟩
  · simpa using mul_nonneg hp.1 h₀
  · exact mul_le_of_le_one_left h₀ hp.2

theorem indices_bounds (hcount : 1 ≤ count) (hmax : count ≤ intMax) {p : ℚ}
    (hp : p ∈ Set.Icc (0 : ℚ) 1) :
    0 ≤ lowerIndex fl count p ∧ lowerIndex fl count p ≤ upperIndex fl count p ∧
      upperIndex fl count p ≤ count - 1 ∧ upperIndex fl count p ≤ lowerIndex fl count p + 1 := by
  obtain ⟨hlo, hhi⟩ := position_mem_Icc fl hcount hmax hp
  exact ⟨Int.le_floor.mpr hlo, Int.floor_le_ceil _, Int.ceil_le.mpr hhi,
    Int.ceil_le_floor_add_one _⟩

/-- The rounded fraction of a position stays in the unit interval. -/
theorem fraction_mem_Icc (x : ℚ) {lower : ℤ} (hlower : lower = ⌊x⌋) (h₀ : 0 ≤ lower)
    (hmax : lower ≤ intMax) : fl (x - fl lower) ∈ Set.Icc (0 : ℚ) 1 := by
  rw [intMax] at hmax
  have hfl := Int.floor_le x
  have hlt := Int.lt_floor_add_one x
  rw [fl.apply_int h₀ (by omega)]
  have := fl.mem_Icc (a := 0) (b := 1) le_rfl (by norm_num) (by norm_num) (by norm_num)
    (x := x - lower) (by subst hlower; constructor <;> push_cast <;> linarith)
  simpa using this

end Position

/-! ### The two ways out of `percentile` -/

section Exits

variable {fl : ℚ → ℚ} {values : List ℤ} {count : ℤ} {p : ℚ} {lower upper : ℕ}

theorem percentile_of_eq (hlower : lowerIndex fl count p = lower)
    (hupper : upperIndex fl count p = lower) (hlt : lower < values.length) :
    percentile fl values count p = some values[lower] := by
  simp only [percentile, hlower, hupper, if_true]
  exact readAt_eq_some hlt

theorem percentile_of_ne (hlower : lowerIndex fl count p = lower)
    (hupper : upperIndex fl count p = upper) (hne : lower ≠ upper) (hl : lower < values.length)
    (hu : upper < values.length) :
    percentile fl values count p =
      some (interpolated fl values[lower] values[upper]
        (fl (position fl count p - fl (lower : ℤ)))) := by
  have hne' : (lower : ℤ) ≠ upper := by exact_mod_cast hne
  simp only [percentile, hlower, hupper, if_neg hne', readAt_eq_some hl, readAt_eq_some hu]
  rfl

end Exits

/-! ### Sorted arrays of representable errors -/

/-- An array `percentile` may be called with: sorted, with at most `INT_MAX` and at least one
element, each of them an integer a `double` represents. -/
structure ErrorArray where
  values : List ℤ
  sorted : values.Pairwise (· ≤ ·)
  range : ∀ v ∈ values, 0 ≤ v ∧ v ≤ 2 ^ 53
  pos : 1 ≤ values.length
  size : (values.length : ℤ) ≤ intMax

namespace ErrorArray

variable (e : ErrorArray) (fl : Rounding ℚ (2 ^ 53)) {p q : ℚ}

/-- The `count` argument of the calls. -/
def count : ℤ := e.values.length

theorem count_pos : 1 ≤ e.count := by
  have := e.pos
  rw [count]
  omega

theorem range_getElem {i : ℕ} (hi : i < e.values.length) :
    0 ≤ e.values[i] ∧ e.values[i] ≤ 2 ^ 53 :=
  e.range _ (List.getElem_mem hi)

/-- **The indices are in range, and the result lies between its two neighbours.** -/
theorem percentile_spec (hp : p ∈ Set.Icc (0 : ℚ) 1) :
    ∃ lower upper : ℕ, ∃ (hl : lower < e.values.length) (hu : upper < e.values.length),
      lowerIndex fl e.count p = lower ∧ upperIndex fl e.count p = upper ∧
      lower ≤ upper ∧ upper ≤ lower + 1 ∧
      ∃ r, percentile fl e.values e.count p = some r ∧
        r ∈ Set.Icc e.values[lower] e.values[upper] := by
  obtain ⟨h₀, hle, hmax, hsucc⟩ := indices_bounds fl e.count_pos e.size hp
  obtain ⟨lower, hlower⟩ := Int.eq_ofNat_of_zero_le h₀
  obtain ⟨upper, hupper⟩ := Int.eq_ofNat_of_zero_le (h₀.trans hle)
  rw [hlower, hupper] at hle hsucc
  rw [hupper, count] at hmax
  have hu : upper < e.values.length := by omega
  have hl : lower < e.values.length := by omega
  refine ⟨lower, upper, hl, hu, hlower, hupper, by omega, by omega, ?_⟩
  rcases eq_or_ne lower upper with rfl | hne
  · exact ⟨_, percentile_of_eq hlower hupper hl, le_rfl, le_rfl⟩
  · have hlu : e.values[lower] ≤ e.values[upper] := sorted_getElem_le e.sorted (by omega) hu
    have hsize := e.size
    exact ⟨_, percentile_of_ne hlower hupper hne hl hu,
      interpolated_mem_Icc fl (e.range_getElem hl).1 hlu (e.range_getElem hu).2
        (fraction_mem_Icc fl _ hlower.symm (by omega) (by omega))⟩

/-- **A larger `p` never gives a smaller percentile.** Either the cell of `q` starts where that of
`p` ends, or both lie in one cell and differ in the fraction only. -/
theorem percentile_mono (hp : 0 ≤ p) (hpq : p ≤ q) (hq : q ≤ 1) {r s : ℤ}
    (hr : percentile fl e.values e.count p = some r)
    (hs : percentile fl e.values e.count q = some s) : r ≤ s := by
  have hpos : position fl e.count p ≤ position fl e.count q :=
    position_mono fl e.count_pos e.size hpq
  obtain ⟨l, u, hl, hu, hlp, hup, hlu, hul, r', hr', hr₁, hr₂⟩ :=
    e.percentile_spec fl ⟨hp, hpq.trans hq⟩
  obtain ⟨l', u', hl', hu', hlq, huq, hlu', hul', s', hs', hs₁, hs₂⟩ :=
    e.percentile_spec fl ⟨hp.trans hpq, hq⟩
  obtain rfl : r = r' := Option.some.inj (hr.symm.trans hr')
  obtain rfl : s = s' := Option.some.inj (hs.symm.trans hs')
  have hll : (l : ℤ) ≤ l' := by
    rw [← hlp, ← hlq]
    exact Int.floor_mono hpos
  have huu : (u : ℤ) ≤ u' := by
    rw [← hup, ← huq]
    exact Int.ceil_mono hpos
  rcases le_or_gt u l' with hcell | hcell
  · calc r ≤ e.values[u] := hr₂
      _ ≤ e.values[l'] := sorted_getElem_le e.sorted hcell hl'
      _ ≤ s := hs₁
  · obtain rfl : l' = l := by omega
    obtain rfl : u' = u := by omega
    have hne : l' ≠ u' := by omega
    rw [percentile_of_ne hlp hup hne hl hu] at hr
    rw [percentile_of_ne hlq huq hne hl hu] at hs
    rw [← Option.some.inj hr, ← Option.some.inj hs]
    have hgap : e.values[l'] ≤ e.values[u'] := sorted_getElem_le e.sorted hlu hu
    exact interpolated_mono fl (e.range_getElem hl).1 hgap (e.range_getElem hu).2
      (fl.mono (sub_le_sub_right hpos _))

/-- Two percentiles against each other and against the ends of the array. -/
theorem percentile_between (hp : 0 ≤ p) (hpq : p ≤ q) (hq : q ≤ 1) :
    ∃ first r s last : ℤ, readAt e.values 0 = some first ∧
      percentile fl e.values e.count p = some r ∧ percentile fl e.values e.count q = some s ∧
      readAt e.values (e.count - 1) = some last ∧ first ≤ r ∧ r ≤ s ∧ s ≤ last := by
  have hpos := e.pos
  have hlast : e.count - 1 = (e.values.length - 1 : ℕ) := by rw [count]; omega
  obtain ⟨l, -, hl, -, -, -, -, -, r, hr, hr₁, -⟩ := e.percentile_spec fl ⟨hp, hpq.trans hq⟩
  obtain ⟨-, u, -, hu, -, -, -, -, s, hs, -, hs₂⟩ := e.percentile_spec fl ⟨hp.trans hpq, hq⟩
  refine ⟨e.values[0], r, s, e.values[e.values.length - 1], ?_, hr, hs, ?_,
    (sorted_getElem_le e.sorted (Nat.zero_le l) hl).trans hr₁,
    e.percentile_mono fl hp hpq hq hr hs,
    hs₂.trans (sorted_getElem_le e.sorted (by omega) (by omega))⟩
  · exact readAt_eq_some (k := 0) (by omega)
  · rw [hlast, readAt_eq_some (by omega)]

end ErrorArray

/-- **The rank guarantee.** With `lower` and `upper` the indices the code computes, the result has
at least `lower + 1` samples up to it and at least `count - upper` from it on, and comparing it
with an integer threshold says as much about the samples. -/
theorem percentile_rank (fl : Rounding ℚ (2 ^ 53)) (e : ErrorArray) {p : ℚ}
    (hp : p ∈ Set.Icc (0 : ℚ) 1) :
    ∃ lower upper : ℕ, ∃ (hl : lower < e.values.length) (hu : upper < e.values.length), ∃ r : ℤ,
      lowerIndex fl e.count p = lower ∧ upperIndex fl e.count p = upper ∧
      lower ≤ upper ∧ upper ≤ e.values.length - 1 ∧ upper ≤ lower + 1 ∧
      percentile fl e.values e.count p = some r ∧
      e.values[lower] ≤ r ∧ r ≤ e.values[upper] ∧
      lower + 1 ≤ e.values.countP (· ≤ r) ∧
      e.values.length - upper ≤ e.values.countP (r ≤ ·) ∧
      ∀ t : ℤ, (t < r → e.values.length - upper ≤ e.values.countP (t < ·)) ∧
        (r ≤ t → lower + 1 ≤ e.values.countP (· ≤ t)) := by
  obtain ⟨lower, upper, hl, hu, hlower, hupper, hlu, hul, r, hr, hr₁, hr₂⟩ :=
    e.percentile_spec fl hp
  refine ⟨lower, upper, hl, hu, r, hlower, hupper, hlu, by omega, hul, hr, hr₁, hr₂,
    succ_le_countP_le e.sorted hl hr₁, length_sub_le_countP_ge e.sorted hu hr₂, fun t => ?_⟩
  constructor
  · intro ht
    exact length_sub_le_countP_gt e.sorted hu (ht.trans_le hr₂)
  · intro ht
    exact succ_le_countP_le e.sorted hl (hr₁.trans ht)

theorem percentile_rank_grid :
    ∃ r : ℤ, percentile (Rounding.gridDown ℚ (2 ^ 53) 4 (by decide)) [3, 5, 9] 3 (1 / 3) = some r ∧
      3 ≤ r ∧ r ≤ 5 ∧ 1 ≤ [3, 5, 9].countP (· ≤ r) ∧ 2 ≤ [3, 5, 9].countP (r ≤ ·) := by
  obtain ⟨lower, upper, hl, hu, r, hlower, hupper, -, -, -, hr, hr₁, hr₂, hle, hge, -⟩ :=
    percentile_rank (Rounding.gridDown ℚ (2 ^ 53) 4 (by decide))
      ⟨[3, 5, 9], by decide, by decide, by decide, by decide⟩ (p := 1 / 3) (by norm_num)
  obtain rfl : lower = 0 := Int.natCast_inj.mp (hlower.symm.trans (by decide +kernel))
  obtain rfl : upper = 1 := Int.natCast_inj.mp (hupper.symm.trans (by decide +kernel))
  exact ⟨r, hr, hr₁, hr₂, hle, hge⟩

end TimerBenchmark

end HrtimerStudy
