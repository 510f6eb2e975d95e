import HrtimerStudy.Lib.Interpolation
import HrtimerStudy.Lib.OrderStatistics
import Mathlib.Data.List.GetD

/-!
# Quantiles of a finite sample

The quantile a percentile function is meant to compute: the order statistics of the sample,
interpolated linearly at position `p * (n - 1)`. It is stated once, for samples of any linearly
ordered field, and the comparisons of two samples are proved here for it, so that an
implementation inherits them by being shown to compute it.

## Main definitions

* `orderStat l k` — the entry of rank `k`
* `quantile l p` — the interpolated quantile

## Main results

* `orderStat_map`, `quantile_mul_const` — a change of unit
* `quantile_le_quantile`, `abs_quantile_sub_le` — monotone and non-expansive in the sample
* `quantile_le_quantile_of_le` — monotone in `p`
* `quantile_mem_Icc`, `quantile_half_mem_uIcc` — enclosing order statistics, and for the median
-/

namespace HrtimerStudy

/-! ### Order statistics as a sequence -/

section OrderStat

variable {α : Type*} [LinearOrder α] [Zero α]

/-- The entry of rank `k` of a sample. -/
def orderStat (l : List α) (k : ℤ) : α := (l.insertionSort (· ≤ ·)).getD k.toNat 0

theorem orderStat_natCast {l : List α} {k : ℕ} (hk : k < (l.insertionSort (· ≤ ·)).length) :
    orderStat l k = (l.insertionSort (· ≤ ·))[k] := by
  rw [orderStat, Int.toNat_natCast, List.getD_eq_getElem _ _ hk]

theorem orderStat_mono {l : List α} {i j : ℕ} (hij : i ≤ j) (hj : j < l.length) :
    orderStat l i ≤ orderStat l j := by
  have hlen := List.length_insertionSort (· ≤ ·) l
  rw [orderStat_natCast (by omega), orderStat_natCast (by omega)]
  exact sorted_getElem_le (List.pairwise_insertionSort _ l) hij (by omega)

theorem orderStat_mem {l : List α} {k : ℕ} (hk : k < l.length) : orderStat l k ∈ l := by
  have hlen := List.length_insertionSort (· ≤ ·) l
  rw [orderStat_natCast (by omega)]
  exact (List.perm_insertionSort _ l).subset (List.getElem_mem _)

/-- Between two ranks of the sample the order statistics are increasing. -/
theorem orderStat_le_of_le {l : List α} {i j : ℤ} (hi : 0 ≤ i) (hij : i ≤ j) (hj : j < l.length) :
    orderStat l i ≤ orderStat l j := by
  obtain ⟨i, rfl⟩ := Int.eq_ofNat_of_zero_le hi
  obtain ⟨j, rfl⟩ := Int.eq_ofNat_of_zero_le (hi.trans hij)
  exact orderStat_mono (by omega) (by omega)

/-- At most `k` entries are above a bound for the entry of rank `n - 1 - k`. -/
theorem countP_gt_le_of_orderStat_le {l : List α} {k : ℕ} (hk : k < l.length) {t : α}
    (ht : orderStat l k ≤ t) : l.countP (t < ·) ≤ l.length - 1 - k := by
  have hlen := List.length_insertionSort (· ≤ ·) l
  rw [orderStat_natCast (by omega)] at ht
  have hle := succ_le_countP_le (List.pairwise_insertionSort (· ≤ ·) l) (by omega) ht
  rw [(List.perm_insertionSort (· ≤ ·) l).countP_eq] at hle
  have hsplit := List.length_eq_countP_add_countP (fun x => decide (x ≤ t)) (l := l)
  have hneg : l.countP (fun x => ¬ decide (x ≤ t) = true) = l.countP (t < ·) :=
    List.countP_congr fun x _ => by simp
  omega

/-- At least `n - k` entries are above what is exceeded by the entry of rank `k`. -/
theorem le_countP_gt_of_lt_orderStat {l : List α} {k : ℕ} (hk : k < l.length) {t : α}
    (ht : t < orderStat l k) : l.length - k ≤ l.countP (t < ·) := by
  have hlen := List.length_insertionSort (· ≤ ·) l
  rw [orderStat_natCast (by omega)] at ht
  have hle := length_sub_le_countP_gt (List.pairwise_insertionSort (· ≤ ·) l) (by omega) ht
  rwa [(List.perm_insertionSort (· ≤ ·) l).countP_eq, hlen] at hle

/-- A strictly increasing change of scale that keeps zero acts rank by rank. -/
theorem orderStat_map {β : Type*} [LinearOrder β] [Zero β] {f : α → β} (hf : StrictMono f)
    (h₀ : f 0 = 0) (l : List α) (k : ℤ) : orderStat (l.map f) k = f (orderStat l k) := by
  have hsort : (l.map f).insertionSort (· ≤ ·) = (l.insertionSort (· ≤ ·)).map f :=
    (List.map_insertionSort (· ≤ ·) (· ≤ ·) f l fun _ _ _ _ => hf.le_iff_le.symm).symm
  have hmap := List.getD_map (l := l.insertionSort (· ≤ ·)) (d := 0) (n := k.toNat) f
  rw [orderStat, orderStat, hsort, ← hmap, h₀]

theorem orderStat_le_orderStat {a b : List α} {k : ℕ} (h : PairedBy (· ≤ ·) a b)
    (hk : k < a.length) : orderStat a k ≤ orderStat b k := by
  have hlen := h.length_eq
  have ha := List.length_insertionSort (· ≤ ·) a
  have hb := List.length_insertionSort (· ≤ ·) b
  rw [orderStat_natCast (by omega), orderStat_natCast (by omega)]
  exact getElem_le_getElem_of_paired h (List.perm_insertionSort _ a)
    (List.pairwise_insertionSort _ a) (List.perm_insertionSort _ b)
    (List.pairwise_insertionSort _ b) (by omega) (by omega)

end OrderStat

theorem abs_orderStat_sub_le {α : Type*} [AddCommGroup α] [LinearOrder α] [IsOrderedAddMonoid α]
    {a b : List α} {d : α} (h : PairedBy (fun x y => |x - y| ≤ d) a b) {k : ℕ}
    (hk : k < a.length) : |orderStat a k - orderStat b k| ≤ d := by
  have hlen := h.length_eq
  have ha := List.length_insertionSort (· ≤ ·) a
  have hb := List.length_insertionSort (· ≤ ·) b
  rw [orderStat_natCast (by omega), orderStat_natCast (by omega)]
  exact abs_getElem_sub_getElem_le h (List.perm_insertionSort _ a)
    (List.pairwise_insertionSort _ a) (List.perm_insertionSort _ b)
    (List.pairwise_insertionSort _ b) (by omega) (by omega)

/-! ### The quantile -/

variable {K : Type*} [Field K] [LinearOrder K] [FloorRing K]

/-- The `p`-quantile of a sample: its order statistics at position `p * (n - 1)`. -/
def quantile (l : List K) (p : K) : K := interpolate (orderStat l) (p * (l.length - 1))

variable [IsStrictOrderedRing K]

/-- A position inside the sample has both neighbours inside the sample. -/
theorem exists_neighbours {n : ℕ} {t : K} (h₀ : 0 ≤ t) (h₁ : t ≤ n - 1) :
    ∃ i j : ℕ, ⌊t⌋ = i ∧ ⌈t⌉ = j ∧ i ≤ j ∧ j ≤ i + 1 ∧ j < n := by
  have hfloor : 0 ≤ ⌊t⌋ := Int.floor_nonneg.mpr h₀
  have hle := Int.floor_le_ceil t
  have hsucc := Int.ceil_le_floor_add_one t
  have hceil : ⌈t⌉ ≤ (n : ℤ) - 1 := Int.ceil_le.mpr (by push_cast; exact h₁)
  exact ⟨⌊t⌋.toNat, ⌈t⌉.toNat, by omega, by omega, by omega, by omega, by omega⟩

theorem position_bounds {l : List K} (hl : l ≠ []) {p : K} (hp : p ∈ Set.Icc (0 : K) 1) :
    0 ≤ p * (l.length - 1) ∧ p * (l.length - 1) ≤ (l.length : K) - 1 := by
  have hlen : (1 : K) ≤ l.length := by exact_mod_cast List.length_pos_iff.mpr hl
  have hlast : (0 : K) ≤ l.length - 1 := sub_nonneg.mpr hlen
  exact ⟨mul_nonneg hp.1 hlast, mul_le_of_le_one_left hlast hp.2⟩

/-- **A change of unit.** -/
theorem quantile_mul_const (l : List K) {c : K} (hc : 0 < c) (p : K) :
    quantile (l.map (c * ·)) p = c * quantile l p := by
  rw [quantile, quantile, List.length_map, ← interpolate_mul_const]
  exact congrArg (interpolate · _)
    (funext (orderStat_map (strictMono_mul_left_of_pos hc) (mul_zero c) l))

/-- A quantile lies between any two order statistics whose ranks enclose its position. -/
theorem quantile_mem_Icc {l : List K} {p : K} {i j : ℕ} (hi : (i : K) ≤ p * (l.length - 1))
    (hj : p * (l.length - 1) ≤ j) (hjn : j < l.length) :
    quantile l p ∈ Set.Icc (orderStat l i) (orderStat l j) := by
  have h₀ : 0 ≤ p * (l.length - 1) := (Nat.cast_nonneg i).trans hi
  have h₁ : p * (l.length - 1) ≤ (l.length : K) - 1 := by
    have : ((j + 1 : ℕ) : K) ≤ l.length := by exact_mod_cast hjn
    push_cast at this
    linarith
  have hfloor : (i : ℤ) ≤ ⌊p * ((l.length : K) - 1)⌋ := Int.le_floor.mpr (by exact_mod_cast hi)
  have hceil : ⌈p * ((l.length : K) - 1)⌉ ≤ (j : ℤ) := Int.ceil_le.mpr (by exact_mod_cast hj)
  obtain ⟨lo, hi', hlo, hhi, hle, -, hlt⟩ := exists_neighbours h₀ h₁
  rw [hlo] at hfloor
  rw [hhi] at hceil
  have hmem : quantile l p ∈ Set.Icc (orderStat l lo) (orderStat l hi') := by
    have := interpolate_mem_Icc (x := orderStat l) (t := p * (l.length - 1))
      (by rw [hlo, hhi]; exact orderStat_mono hle hlt)
    rwa [hlo, hhi] at this
  exact ⟨(orderStat_mono (by omega) (by omega)).trans hmem.1,
    hmem.2.trans (orderStat_mono (by omega) hjn)⟩

/-- **The quantile is monotone in `p`.** -/
theorem quantile_le_quantile_of_le {l : List K} (hl : l ≠ []) {p q : K} (hp : 0 ≤ p)
    (hpq : p ≤ q) (hq : q ≤ 1) : quantile l p ≤ quantile l q := by
  have hlo := (position_bounds hl ⟨hp, hpq.trans hq⟩).1
  have hhi := (position_bounds hl ⟨hp.trans hpq, hq⟩).2
  have hlast : (0 : K) ≤ l.length - 1 := by
    have : (1 : K) ≤ l.length := by exact_mod_cast List.length_pos_iff.mpr hl
    linarith
  refine interpolate_le_of_le (mul_le_mul_of_nonneg_right hpq hlast) fun i j hi hij hj => ?_
  have hi₀ : 0 ≤ ⌊p * ((l.length : K) - 1)⌋ := Int.floor_nonneg.mpr hlo
  have hjn : ⌈q * ((l.length : K) - 1)⌉ ≤ (l.length : ℤ) - 1 :=
    Int.ceil_le.mpr (by push_cast; exact hhi)
  exact orderStat_le_of_le (by omega) hij (by omega)

/-- A quantile lies in every interval that has all the entries. -/
theorem quantile_mem_of_forall {l : List K} (hl : l ≠ []) {p : K} (hp : p ∈ Set.Icc (0 : K) 1)
    {m M : K} (h : ∀ v ∈ l, v ∈ Set.Icc m M) : quantile l p ∈ Set.Icc m M := by
  obtain ⟨h₀, h₁⟩ := position_bounds hl hp
  have hpos := List.length_pos_iff.mpr hl
  have hlast : ((l.length - 1 : ℕ) : K) = l.length - 1 := by rw [Nat.cast_sub hpos, Nat.cast_one]
  have hmem := quantile_mem_Icc (i := 0) (j := l.length - 1) (by simpa using h₀)
    (by rw [hlast]; exact h₁) (by omega)
  exact ⟨(h _ (orderStat_mem hpos)).1.trans hmem.1,
    hmem.2.trans (h _ (orderStat_mem (by omega))).2⟩

/-- **The median lies between mirrored order statistics.** -/
theorem quantile_half_mem_uIcc {l : List K} {i : ℕ} (hi : i < l.length) :
    quantile l (1 / 2) ∈ Set.uIcc (orderStat l i) (orderStat l (l.length - 1 - i : ℕ)) := by
  have hhalf : ∀ j k : ℕ, j + k + 1 = l.length → j ≤ k →
      quantile l (1 / 2) ∈ Set.Icc (orderStat l j) (orderStat l k) := by
    intro j k hsum hjk
    have hlen : (l.length : K) - 1 = j + k := by rw [← hsum]; push_cast; ring
    have hjk' : (j : K) ≤ k := by exact_mod_cast hjk
    exact quantile_mem_Icc (by rw [hlen]; linarith) (by rw [hlen]; linarith) (by omega)
  rcases le_total i (l.length - 1 - i) with h | h
  · exact Set.Icc_subset_uIcc (hhalf _ _ (by omega) h)
  · exact Set.Icc_subset_uIcc' (hhalf _ _ (by omega) h)

section TwoSamples

variable {a b : List K} {p : K}

/-- **The quantile is monotone in the sample**, whatever the order of the entries. -/
theorem quantile_le_quantile (h : PairedBy (· ≤ ·) a b) (ha : a ≠ []) (hp : p ∈ Set.Icc (0 : K) 1) :
    quantile a p ≤ quantile b p := by
  obtain ⟨h₀, h₁⟩ := position_bounds ha hp
  obtain ⟨i, j, hi, hj, hij, -, hjn⟩ := exists_neighbours h₀ h₁
  rw [quantile, quantile, ← h.length_eq]
  refine interpolate_le_interpolate ?_ ?_
  · rw [hi]; exact orderStat_le_orderStat h (by omega)
  · rw [hj]; exact orderStat_le_orderStat h hjn

/-- **The quantile is non-expansive in the sample**, whatever the order of the entries. -/
theorem abs_quantile_sub_le {d : K} (h : PairedBy (fun x y => |x - y| ≤ d) a b) (ha : a ≠ [])
    (hp : p ∈ Set.Icc (0 : K) 1) : |quantile a p - quantile b p| ≤ d := by
  obtain ⟨h₀, h₁⟩ := position_bounds ha hp
  obtain ⟨i, j, hi, hj, hij, -, hjn⟩ := exists_neighbours h₀ h₁
  rw [quantile, quantile, ← h.length_eq]
  refine abs_interpolate_sub_le ?_ ?_
  · rw [hi]; exact abs_orderStat_sub_le h (by omega)
  · rw [hj]; exact abs_orderStat_sub_le h hjn

end TwoSamples

end HrtimerStudy
