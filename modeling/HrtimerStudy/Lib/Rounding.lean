import Mathlib.Algebra.Order.Floor.Ring
import Mathlib.Algebra.Order.Archimedean.Basic
import Mathlib.Data.Int.ConditionallyCompleteOrder
import Mathlib.Data.Rat.Floor
import Mathlib.Tactic.Linarith

/-!
# Abstract rounding and truncation toward zero

Floating-point code is studied here through two facts about its rounding only: a larger exact
result is never rounded to a smaller value, and the integers of moderate size are representable.
Exact arithmetic and every directed or nearest rounding of a binary format with a wide enough
significand have both, so what is proved for a `Rounding` holds for all of them at once.

## Main definitions

* `Rounding K M` — a monotone rounding of `K` that is exact on the integers up to `M`
* `trunc` — the conversion to an integer that discards the fraction

## Main results

* `Rounding.mem_Icc` — rounding does not leave an interval with representable end points
* `trunc_mono`, `trunc_add_le` — truncation keeps the order, and moves by at most an integer shift
-/

namespace HrtimerStudy

variable {K : Type*} [Field K] [LinearOrder K]

/-! ### Rounding -/

/-- A rounding of exact results: monotone, and exact on the integers of absolute value at
most `M`. -/
structure Rounding (K : Type*) [Field K] [LinearOrder K] (M : ℤ) where
  /-- The representable value an exact result is replaced by. -/
  round : K → K
  /-- Rounding keeps the order. -/
  mono : Monotone round
  /-- The integers up to `M` are representable. -/
  round_int : ∀ n : ℤ, |n| ≤ M → round n = n

namespace Rounding

variable {M : ℤ}

instance : CoeFun (Rounding K M) fun _ => K → K := ⟨round⟩

/-- Exact arithmetic, as the rounding that changes nothing. -/
def exact (K : Type*) [Field K] [LinearOrder K] (M : ℤ) : Rounding K M :=
  ⟨id, monotone_id, fun _ _ => rfl⟩

theorem apply_int (fl : Rounding K M) {n : ℤ} (h₀ : 0 ≤ n) (h : n ≤ M) : fl n = n :=
  fl.round_int n (by rwa [abs_of_nonneg h₀])

theorem apply_zero (fl : Rounding K M) (hM : 0 ≤ M) : fl 0 = 0 := by
  simpa using fl.apply_int le_rfl hM

theorem apply_one (fl : Rounding K M) (hM : 1 ≤ M) : fl 1 = 1 := by
  simpa using fl.apply_int (n := 1) (by decide) hM

/-- **Rounding does not leave an interval with representable end points.** -/
theorem mem_Icc (fl : Rounding K M) {a b : ℤ} (ha₀ : 0 ≤ a) (ha : a ≤ M) (hb₀ : 0 ≤ b)
    (hb : b ≤ M) {x : K} (hx : x ∈ Set.Icc (a : K) b) : fl x ∈ Set.Icc (a : K) b := by
  have hlo : fl a ≤ fl x := fl.mono hx.1
  have hhi : fl x ≤ fl b := fl.mono hx.2
  rw [fl.apply_int ha₀ ha] at hlo
  rw [fl.apply_int hb₀ hb] at hhi
  exact ⟨hlo, hhi⟩

variable [IsStrictOrderedRing K] [FloorRing K]

/-- Rounding down to the multiples of `1 / s`: a grid with a fixed step. -/
def gridDown (K : Type*) [Field K] [LinearOrder K] [IsStrictOrderedRing K] [FloorRing K] (M : ℤ)
    (s : ℕ) (hs : 0 < s) : Rounding K M where
  round x := ⌊x * s⌋ / s
  mono x y hxy := by
    have hs' : (0 : K) < s := by exact_mod_cast hs
    have hfloor : ⌊x * s⌋ ≤ ⌊y * s⌋ := Int.floor_mono (mul_le_mul_of_nonneg_right hxy hs'.le)
    exact div_le_div_of_nonneg_right (by exact_mod_cast hfloor) hs'.le
  round_int n _ := by
    have hs' : (s : K) ≠ 0 := by exact_mod_cast hs.ne'
    have hfloor : ⌊(n : K) * s⌋ = n * s := by
      rw [show (n : K) * s = ((n * s : ℤ) : K) by push_cast; rfl, Int.floor_intCast]
    rw [hfloor]
    push_cast
    exact mul_div_cancel_right₀ _ hs'

end Rounding

/-! ### Truncation toward zero -/

section Trunc

variable [FloorRing K]

/-- The conversion of `x` to an integer type that discards the fraction. -/
def trunc (x : K) : ℤ := if 0 ≤ x then ⌊x⌋ else ⌈x⌉

theorem trunc_of_nonneg {x : K} (h : 0 ≤ x) : trunc x = ⌊x⌋ := if_pos h

theorem trunc_of_neg {x : K} (h : x < 0) : trunc x = ⌈x⌉ := if_neg (not_le.mpr h)

theorem trunc_mono : Monotone (trunc : K → ℤ) := by
  intro x y hxy
  rcases le_or_gt 0 x with hx | hx
  · rw [trunc_of_nonneg hx, trunc_of_nonneg (hx.trans hxy)]
    exact Int.floor_mono hxy
  · rw [trunc_of_neg hx]
    rcases le_or_gt 0 y with hy | hy
    · rw [trunc_of_nonneg hy]
      have hx₀ : ⌈x⌉ ≤ 0 := Int.ceil_le.mpr (by exact_mod_cast hx.le)
      exact hx₀.trans (Int.floor_nonneg.mpr hy)
    · rw [trunc_of_neg hy]
      exact Int.ceil_mono hxy

variable [IsStrictOrderedRing K]

@[simp] theorem trunc_intCast (n : ℤ) : trunc (n : K) = n := by
  rcases le_or_gt (0 : K) n with h | h
  · rw [trunc_of_nonneg h, Int.floor_intCast]
  · rw [trunc_of_neg h, Int.ceil_intCast]

/-- Truncation does not leave an interval with integer end points. -/
theorem trunc_mem_Icc {a b : ℤ} {x : K} (hx : x ∈ Set.Icc (a : K) b) :
    trunc x ∈ Set.Icc a b := by
  have hlo := trunc_mono hx.1
  have hhi := trunc_mono hx.2
  rw [trunc_intCast] at hlo hhi
  exact ⟨hlo, hhi⟩

theorem abs_trunc_sub_lt_one (x : K) : |(trunc x : K) - x| < 1 := by
  rw [abs_lt]
  rcases le_or_gt 0 x with hx | hx
  · rw [trunc_of_nonneg hx]
    have h₁ := Int.floor_le x
    have h₂ := Int.lt_floor_add_one x
    constructor <;> linarith
  · rw [trunc_of_neg hx]
    have h₁ := Int.le_ceil x
    have h₂ := Int.ceil_lt_add_one x
    constructor <;> linarith

/-- A half-integer is truncated by at most one half. -/
theorem abs_trunc_sub_le_half {x : K} {k : ℤ} (h : 2 * x = k) : |(trunc x : K) - x| ≤ 1 / 2 := by
  have hlt := abs_trunc_sub_lt_one x
  have hint : 2 * ((trunc x : K) - x) = ((2 * trunc x - k : ℤ) : K) := by
    push_cast
    rw [← h]
    ring
  have hlt' : |((2 * trunc x - k : ℤ) : K)| < 2 := by
    rw [← hint, abs_mul, abs_two]
    linarith
  have hle : |2 * trunc x - k| ≤ 1 := Int.lt_add_one_iff.mp (by exact_mod_cast hlt')
  have hle' : |((2 * trunc x - k : ℤ) : K)| ≤ 1 := by exact_mod_cast hle
  rw [← hint, abs_mul, abs_two] at hle'
  linarith

/-- Moving the argument up by an integer moves the truncation by at most as much. The two sides
differ only when the shift crosses zero, where truncation changes its direction. -/
theorem trunc_add_le (x : K) {d : ℤ} (hd : 0 ≤ d) : trunc (x + d) ≤ trunc x + d := by
  rcases le_or_gt 0 x with hx | hx
  · have hd' : (0 : K) ≤ d := by exact_mod_cast hd
    rw [trunc_of_nonneg hx, trunc_of_nonneg (add_nonneg hx hd'), Int.floor_add_intCast]
  · rcases le_or_gt 0 (x + d) with hxd | hxd
    · rw [trunc_of_neg hx, trunc_of_nonneg hxd, Int.floor_add_intCast]
      exact add_le_add_left (Int.floor_le_ceil x) d
    · rw [trunc_of_neg hx, trunc_of_neg hxd, Int.ceil_add_intCast]

/-- Truncation does not stretch an integer distance. -/
theorem abs_trunc_sub_trunc_le {x y : K} {d : ℤ} (h : |x - y| ≤ d) :
    |trunc x - trunc y| ≤ d := by
  have hd : 0 ≤ d := by exact_mod_cast (abs_nonneg _).trans h
  obtain ⟨h₁, h₂⟩ := abs_le.mp h
  have hxy : trunc x ≤ trunc y + d :=
    (trunc_mono (show x ≤ y + d by linarith)).trans (trunc_add_le y hd)
  have hyx : trunc y ≤ trunc x + d :=
    (trunc_mono (show y ≤ x + d by linarith)).trans (trunc_add_le x hd)
  rw [abs_le]
  constructor <;> linarith

end Trunc

end HrtimerStudy
