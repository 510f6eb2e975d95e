import Mathlib.Algebra.Order.Floor.Ring
import Mathlib.Algebra.Order.Ring.Abs
import Mathlib.Tactic.Linarith
import Mathlib.Tactic.Ring

/-!
# Linear interpolation of a sequence

The value of a sequence at a fractional position: the two neighbours weighted by the fractional
part. A percentile is this function applied to the order statistics of a sample, whichever way a
program finds the neighbours, so it is what the implementations are compared through.

## Main definitions

* `interpolate x t` — the sequence `x` at position `t`

## Main results

* `interpolate_eq_succ` — the upper neighbour may be taken one further than the lower
* `interpolate_of_eq_min`, `min_eq_succ` — or cut off at the last index
* `interpolate_mem_Icc` — the value lies between the neighbours
* `interpolate_le_of_le` — monotone in the position, for a monotone `x`
* `interpolate_le_interpolate`, `abs_interpolate_sub_le` — monotone and non-expansive in `x`
-/

namespace HrtimerStudy

variable {K : Type*} [Field K] [LinearOrder K] [FloorRing K]

/-- The sequence `x` at position `t`, linear between neighbouring indices. -/
def interpolate (x : ℤ → K) (t : K) : K := x ⌊t⌋ + Int.fract t * (x ⌈t⌉ - x ⌊t⌋)

/-- At a position with equal floor and ceiling nothing is interpolated. -/
theorem interpolate_of_floor_eq_ceil (x : ℤ → K) {t : K} (h : ⌊t⌋ = ⌈t⌉) :
    interpolate x t = x ⌊t⌋ := by
  simp [interpolate, h]

/-- A convex combination of the neighbours, which is how every bound below is read off. -/
theorem interpolate_eq_convex (x : ℤ → K) (t : K) :
    interpolate x t = (1 - Int.fract t) * x ⌊t⌋ + Int.fract t * x ⌈t⌉ := by
  rw [interpolate]; ring

theorem interpolate_add_const (x : ℤ → K) (d t : K) :
    interpolate (fun k => x k + d) t = interpolate x t + d := by
  rw [interpolate, interpolate]; ring

theorem interpolate_mul_const (x : ℤ → K) (c t : K) :
    interpolate (fun k => c * x k) t = c * interpolate x t := by
  rw [interpolate, interpolate]; ring

variable [IsStrictOrderedRing K]

theorem ceil_eq_floor_add_one {t : K} (h : ⌊t⌋ ≠ ⌈t⌉) : ⌈t⌉ = ⌊t⌋ + 1 :=
  le_antisymm (Int.ceil_le_floor_add_one t) (lt_of_le_of_ne (Int.floor_le_ceil t) h)

/-- The upper neighbour may be taken to be the successor of the lower one: where the two choices
differ, the position is an index and the difference has weight zero. -/
theorem interpolate_eq_succ (x : ℤ → K) (t : K) :
    interpolate x t = x ⌊t⌋ + (t - ⌊t⌋) * (x (⌊t⌋ + 1) - x ⌊t⌋) := by
  by_cases h : ⌊t⌋ = ⌈t⌉
  · have ht : t = ⌊t⌋ := le_antisymm (by rw [h]; exact Int.le_ceil t) (Int.floor_le t)
    rw [interpolate_of_floor_eq_ceil x h, show t - ⌊t⌋ = 0 from sub_eq_zero.mpr ht]
    ring
  · rw [interpolate, ceil_eq_floor_add_one h, Int.fract]

theorem interpolate_mem_Icc {x : ℤ → K} {t : K} (h : x ⌊t⌋ ≤ x ⌈t⌉) :
    interpolate x t ∈ Set.Icc (x ⌊t⌋) (x ⌈t⌉) := by
  have hf₀ := Int.fract_nonneg t
  have hf₁ := (Int.fract_lt_one t).le
  have hgap : 0 ≤ x ⌈t⌉ - x ⌊t⌋ := sub_nonneg.mpr h
  constructor
  · have := mul_nonneg hf₀ hgap
    rw [interpolate]; linarith
  · have := mul_le_of_le_one_left hgap hf₁
    rw [interpolate]; linarith

/-- **Interpolation is monotone in the position** where the sequence is monotone. -/
theorem interpolate_le_of_le {x : ℤ → K} {s t : K} (hst : s ≤ t)
    (hx : ∀ i j, ⌊s⌋ ≤ i → i ≤ j → j ≤ ⌈t⌉ → x i ≤ x j) : interpolate x s ≤ interpolate x t := by
  have hfloor : ⌊s⌋ ≤ ⌊t⌋ := Int.floor_mono hst
  have hceil : ⌈s⌉ ≤ ⌈t⌉ := Int.ceil_mono hst
  have hs := Int.floor_le_ceil s
  have ht := Int.floor_le_ceil t
  have hsucc := Int.ceil_le_floor_add_one s
  have hbelow : interpolate x s ≤ x ⌈s⌉ := (interpolate_mem_Icc (hx _ _ le_rfl hs hceil)).2
  have habove : x ⌊t⌋ ≤ interpolate x t := (interpolate_mem_Icc (hx _ _ hfloor ht le_rfl)).1
  rcases le_or_gt ⌈s⌉ ⌊t⌋ with hle | hgt
  · exact hbelow.trans ((hx _ _ hs hle ht).trans habove)
  · -- both positions lie between the same two indices
    have hfloor' : ⌊s⌋ = ⌊t⌋ := by omega
    have hceil' : ⌈s⌉ = ⌈t⌉ := by
      have hsucc' := Int.ceil_le_floor_add_one t
      omega
    have hfract : Int.fract s ≤ Int.fract t := by
      rw [Int.fract, Int.fract, hfloor']
      linarith
    have hgap : 0 ≤ x ⌈t⌉ - x ⌊t⌋ := sub_nonneg.mpr (hx _ _ hfloor ht le_rfl)
    rw [interpolate, interpolate, hfloor', hceil']
    linarith [mul_le_mul_of_nonneg_right hfract hgap]

/-- Interpolation is monotone in the sequence. -/
theorem interpolate_le_interpolate {x y : ℤ → K} {t : K} (hlo : x ⌊t⌋ ≤ y ⌊t⌋)
    (hhi : x ⌈t⌉ ≤ y ⌈t⌉) : interpolate x t ≤ interpolate y t := by
  have h₁ := mul_le_mul_of_nonneg_left hlo (sub_nonneg.mpr (Int.fract_lt_one t).le)
  have h₂ := mul_le_mul_of_nonneg_left hhi (Int.fract_nonneg t)
  rw [interpolate_eq_convex, interpolate_eq_convex]
  exact add_le_add h₁ h₂

section LastIndex

variable {x : ℤ → K} {n : ℤ} {t : K}

/-- With the upper neighbour cut off at the last index, the two neighbours coincide only there. -/
theorem interpolate_of_eq_min (ht : t ≤ (n - 1 : ℤ)) (h : ⌊t⌋ = min (⌊t⌋ + 1) (n - 1)) :
    interpolate x t = x ⌊t⌋ := by
  have hfloor : ⌊t⌋ = n - 1 := by omega
  have hceil : ⌈t⌉ ≤ n - 1 := Int.ceil_le.mpr ht
  have hle := Int.floor_le_ceil t
  exact interpolate_of_floor_eq_ceil x (by omega)

/-- Elsewhere the upper neighbour is the successor of the lower one, and not beyond the end. -/
theorem min_eq_succ (ht : t ≤ (n - 1 : ℤ)) (h : ⌊t⌋ ≠ min (⌊t⌋ + 1) (n - 1)) :
    min (⌊t⌋ + 1) (n - 1) = ⌊t⌋ + 1 := by
  have hfloor : ⌊t⌋ ≤ n - 1 := by exact_mod_cast (Int.floor_le t).trans ht
  omega

end LastIndex

/-- Interpolation does not enlarge the distance of two sequences. -/
theorem abs_interpolate_sub_le {x y : ℤ → K} {t d : K} (hlo : |x ⌊t⌋ - y ⌊t⌋| ≤ d)
    (hhi : |x ⌈t⌉ - y ⌈t⌉| ≤ d) : |interpolate x t - interpolate y t| ≤ d := by
  obtain ⟨hlo₁, hlo₂⟩ := abs_le.mp hlo
  obtain ⟨hhi₁, hhi₂⟩ := abs_le.mp hhi
  have hxy := interpolate_le_interpolate (x := x) (y := fun k => y k + d) (t := t)
    (by linarith) (by linarith)
  have hyx := interpolate_le_interpolate (x := y) (y := fun k => x k + d) (t := t)
    (by linarith) (by linarith)
  rw [interpolate_add_const] at hxy hyx
  rw [abs_le]
  constructor <;> linarith

end HrtimerStudy
