import Mathlib.Data.Int.Order.Basic
import Mathlib.Tactic.SplitIfs

/-!
# 64-bit signed integers

The two ways of doing arithmetic in `int64_t`: in C a result outside the type is undefined, in
NumPy it wraps around.

## Main definitions

* `Fits64` — the values of the type
* `int64` — a value, or `none` for an overflow
* `wrap64` — the value modulo `2 ^ 64`

## Main results

* `wrap64_sub_left_inj` — subtracting a constant is injective even with wrap-around
-/

namespace HrtimerStudy

/-- `x` is a value of type `int64_t`. -/
def Fits64 (x : ℤ) : Prop := -9223372036854775808 ≤ x ∧ x ≤ 9223372036854775807

instance (x : ℤ) : Decidable (Fits64 x) := inferInstanceAs (Decidable (_ ∧ _))

/-- The value of an `int64_t` expression, if there is one. -/
def int64 (x : ℤ) : Option ℤ := if Fits64 x then some x else none

theorem int64_eq_some {x y : ℤ} : int64 x = some y ↔ Fits64 x ∧ x = y := by
  rw [int64]
  split_ifs with h <;> simp [h]

/-- The value of an expression that wraps around. -/
def wrap64 (x : ℤ) : ℤ := (x + 9223372036854775808) % 18446744073709551616 - 9223372036854775808

theorem wrap64_of_fits {x : ℤ} (h : Fits64 x) : wrap64 x = x := by
  obtain ⟨hlo, hhi⟩ := h
  rw [wrap64]
  omega

/-- Two values of the type with one difference modulo `2 ^ 64` to a third are equal. -/
theorem wrap64_sub_left_inj {x y r : ℤ} (hx : Fits64 x) (hy : Fits64 y)
    (h : wrap64 (x - r) = wrap64 (y - r)) : x = y := by
  obtain ⟨hxlo, hxhi⟩ := hx
  obtain ⟨hylo, hyhi⟩ := hy
  rw [wrap64, wrap64] at h
  omega

/-- Between two values of the type, or between one and zero, everything is one. -/
theorem Fits64.of_between {x y : ℤ} (hy : Fits64 y) (h : 0 ≤ x ∧ x < y ∨ y < x ∧ x ≤ 0) :
    Fits64 x := by
  obtain ⟨hlo, hhi⟩ := hy
  exact ⟨by omega, by omega⟩

end HrtimerStudy
