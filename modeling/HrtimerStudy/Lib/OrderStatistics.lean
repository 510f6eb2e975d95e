import Mathlib.Algebra.BigOperators.Ring.List
import Mathlib.Algebra.Order.BigOperators.Group.List
import Mathlib.Algebra.Order.Field.Basic
import Mathlib.Algebra.Order.Group.Abs
import Mathlib.Data.List.Forall2
import Mathlib.Data.List.Pairwise
import Mathlib.Data.List.Perm.Basic
import Mathlib.Data.List.Sort
import Mathlib.Tactic.Linarith

/-!
# Order statistics

Facts about the sorted rearrangement of a finite sample that do not depend on how it is sorted:
the rank of an entry as a count, and the comparison of the order statistics of two samples
that are compared entry by entry under some pairing.

## Main definitions

* `PairedBy R a b` — the entries of `a` are related by `R` to those of `b`, in some order

## Main results

* `succ_le_countP_le`, `length_sub_le_countP_ge` — the rank of a sorted list's entry as a count
* `getElem_le_getElem_of_paired` — **sorting is monotone**: order statistics inherit a comparison
* `abs_getElem_sub_getElem_le` — **sorting is a contraction** for the largest difference
* `mul_sum_le_length_mul_sum_drop` — the largest entries have at least their share of the sum
-/

namespace HrtimerStudy

variable {α : Type*}

/-! ### Pairings -/

/-- The entries of `a` are related by `R` to the entries of some rearrangement of `b`. -/
def PairedBy (R : α → α → Prop) (a b : List α) : Prop :=
  ∃ b', b'.Perm b ∧ List.Forall₂ R a b'

namespace PairedBy

variable {R S : α → α → Prop} {a b : List α}

theorem length_eq (h : PairedBy R a b) : a.length = b.length := by
  obtain ⟨b', hperm, hall⟩ := h
  rw [hall.length_eq, hperm.length_eq]

theorem mono (h : PairedBy R a b) (hRS : ∀ x y, R x y → S x y) : PairedBy S a b := by
  obtain ⟨b', hperm, hall⟩ := h
  exact ⟨b', hperm, hall.imp hRS⟩

theorem map (h : PairedBy R a b) {β : Type*} {Q : β → β → Prop} {f g : α → β}
    (hfg : ∀ x y, R x y → Q (f x) (g y)) : PairedBy Q (a.map f) (b.map g) := by
  obtain ⟨b', hperm, hall⟩ := h
  refine ⟨b'.map g, hperm.map g, ?_⟩
  rw [List.forall₂_map_left_iff, List.forall₂_map_right_iff]
  exact hall.imp hfg

/-- A pairing can be read from the other side. -/
theorem swap (h : PairedBy R a b) : PairedBy (fun x y => R y x) b a := by
  obtain ⟨b', hperm, hall⟩ := h
  obtain ⟨a', hall', hperm'⟩ :=
    List.perm_comp_forall₂ (r := fun x y => R y x) hperm.symm hall.flip
  exact ⟨a', hperm', hall'⟩

end PairedBy

/-! ### Ranks in a sorted list -/

section Order

variable [LinearOrder α] {l : List α}

theorem sorted_getElem_le (hl : l.Pairwise (· ≤ ·)) {i j : ℕ} (hij : i ≤ j) (hj : j < l.length) :
    l[i] ≤ l[j] :=
  hl.rel_get_of_le (a := ⟨i, by omega⟩) (b := ⟨j, hj⟩) hij

/-- An entry of rank `i` has `i + 1` entries up to it. -/
theorem succ_le_countP_le (hl : l.Pairwise (· ≤ ·)) {i : ℕ} (hi : i < l.length) {t : α}
    (ht : l[i] ≤ t) : i + 1 ≤ l.countP (· ≤ t) := by
  have hhead : (l.take (i + 1)).countP (· ≤ t) = i + 1 := by
    rw [List.countP_eq_length.mpr, List.length_take, min_eq_left hi]
    intro x hx
    obtain ⟨j, hj, rfl⟩ := List.mem_take_iff_getElem.mp hx
    have hji : j ≤ i := by omega
    simpa using (sorted_getElem_le hl hji hi).trans ht
  calc i + 1 = (l.take (i + 1)).countP (· ≤ t) := hhead.symm
    _ ≤ l.countP (· ≤ t) := (List.take_sublist _ _).countP_le

/-- An entry of rank `i` has `length - i` entries from it on. -/
theorem length_sub_le_countP_ge (hl : l.Pairwise (· ≤ ·)) {i : ℕ} (hi : i < l.length) {t : α}
    (ht : t ≤ l[i]) : l.length - i ≤ l.countP (t ≤ ·) := by
  have htail : (l.drop i).countP (t ≤ ·) = l.length - i := by
    rw [List.countP_eq_length.mpr, List.length_drop]
    intro x hx
    obtain ⟨j, hj, rfl⟩ := List.mem_drop_iff_getElem.mp hx
    simpa using ht.trans (sorted_getElem_le hl (Nat.le_add_right i j) (by omega))
  calc l.length - i = (l.drop i).countP (t ≤ ·) := htail.symm
    _ ≤ l.countP (t ≤ ·) := (List.drop_sublist _ _).countP_le

/-- Entries above a threshold: those from rank `i` on. -/
theorem length_sub_le_countP_gt (hl : l.Pairwise (· ≤ ·)) {i : ℕ} (hi : i < l.length) {t : α}
    (ht : t < l[i]) : l.length - i ≤ l.countP (t < ·) :=
  (length_sub_le_countP_ge hl hi le_rfl).trans <|
    List.countP_mono_left fun x _ hx => by simpa using ht.trans_le (by simpa using hx)

/-- An entry of rank `i` above `t` leaves at most `i` entries up to `t`. -/
theorem countP_le_le_of_lt_getElem (hl : l.Pairwise (· ≤ ·)) {i : ℕ} (hi : i < l.length) {t : α}
    (ht : t < l[i]) : l.countP (· ≤ t) ≤ i := by
  have hgt := length_sub_le_countP_gt hl hi ht
  have hsplit := List.length_eq_countP_add_countP (fun x => decide (x ≤ t)) (l := l)
  have hneg : l.countP (fun x => ¬ decide (x ≤ t) = true) = l.countP (t < ·) :=
    List.countP_congr fun x _ => by simp
  omega

/-! ### Comparing two samples -/

theorem countP_le_le_of_forall₂ {a b : List α} (h : List.Forall₂ (· ≤ ·) a b) (t : α) :
    b.countP (· ≤ t) ≤ a.countP (· ≤ t) := by
  induction h with
  | nil => simp
  | @cons x y a b hxy _ ih =>
    simp only [List.countP_cons, decide_eq_true_eq]
    by_cases hy : y ≤ t
    · simp [hy, hxy.trans hy, ih]
    · simp only [hy, if_false]
      omega

/-- **Sorting is monotone.** If the entries of one sample are at most those of another, under
any pairing, then so are its order statistics. Were one of them larger, fewer entries of the first
sample than of the second would lie below the other. -/
theorem getElem_le_getElem_of_paired {a b sa sb : List α} (h : PairedBy (· ≤ ·) a b)
    (ha : sa.Perm a) (hsa : sa.Pairwise (· ≤ ·)) (hb : sb.Perm b) (hsb : sb.Pairwise (· ≤ ·))
    {i : ℕ} (hia : i < sa.length) (hib : i < sb.length) : sa[i] ≤ sb[i] := by
  obtain ⟨b', hperm, hall⟩ := h
  by_contra hlt
  have hlt : sb[i] < sa[i] := not_le.mp hlt
  have hcount : i + 1 ≤ i := calc
    i + 1 ≤ sb.countP (· ≤ sb[i]) := succ_le_countP_le hsb hib le_rfl
    _ = b'.countP (· ≤ sb[i]) := (hb.trans hperm.symm).countP_eq _
    _ ≤ a.countP (· ≤ sb[i]) := countP_le_le_of_forall₂ hall _
    _ = sa.countP (· ≤ sb[i]) := ha.symm.countP_eq _
    _ ≤ i := countP_le_le_of_lt_getElem hsa hia hlt
  omega

end Order

/-- **Sorting is a contraction.** If the entries of two samples differ by at most `d`, under any
pairing, then so do their order statistics. -/
theorem abs_getElem_sub_getElem_le [AddCommGroup α] [LinearOrder α] [IsOrderedAddMonoid α] {d : α}
    {a b sa sb : List α} (h : PairedBy (fun x y => |x - y| ≤ d) a b)
    (ha : sa.Perm a) (hsa : sa.Pairwise (· ≤ ·)) (hb : sb.Perm b) (hsb : sb.Pairwise (· ≤ ·))
    {i : ℕ} (hia : i < sa.length) (hib : i < sb.length) : |sa[i] - sb[i]| ≤ d := by
  have hshift : ∀ l : List α, l.Pairwise (· ≤ ·) → (l.map (· + d)).Pairwise (· ≤ ·) := fun l hl =>
    hl.map _ fun x y hxy => add_le_add_left hxy d
  have hab : PairedBy (· ≤ ·) a (b.map (· + d)) := by
    have := h.map (Q := (· ≤ ·)) (f := id) (g := (· + d)) fun x y hxy => by
      have := (abs_le.mp hxy).2
      exact sub_le_iff_le_add'.mp this
    simpa using this
  have hba : PairedBy (· ≤ ·) b (a.map (· + d)) := by
    have := h.swap.map (Q := (· ≤ ·)) (f := id) (g := (· + d)) fun x y hxy => by
      have := (abs_le.mp hxy).1
      exact neg_le_sub_iff_le_add.mp this
    simpa using this
  have h₁ := getElem_le_getElem_of_paired hab ha hsa (hb.map (· + d)) (hshift sb hsb) hia
    (by simpa using hib)
  have h₂ := getElem_le_getElem_of_paired hba hb hsb (ha.map (· + d)) (hshift sa hsa) hib
    (by simpa using hia)
  rw [List.getElem_map] at h₁ h₂
  rw [abs_le]
  exact ⟨neg_le_sub_iff_le_add.mpr h₂, sub_le_iff_le_add'.mpr h₁⟩

/-! ### The mean of the largest entries -/

/-- If every entry of one list is at most every entry of another, so are their means. -/
theorem length_mul_sum_le {K : Type*} [Field K] [LinearOrder K] [IsStrictOrderedRing K]
    {a b : List K} (h : ∀ x ∈ a, ∀ y ∈ b, x ≤ y) :
    (b.length : K) * a.sum ≤ a.length * b.sum := by
  have hsum : ∀ x ∈ a, (b.length : K) * x ≤ b.sum := by
    intro x hx
    have hle := List.card_nsmul_le_sum b x (h x hx)
    rwa [nsmul_eq_mul] at hle
  have hle := List.sum_le_card_nsmul (a.map ((b.length : K) * ·)) b.sum (by simpa using hsum)
  rwa [List.length_map, nsmul_eq_mul, List.sum_map_mul_left, List.map_id'] at hle

/-- **The largest entries** have at least their share of the sum. -/
theorem mul_sum_le_length_mul_sum_drop {K : Type*} [Field K] [LinearOrder K]
    [IsStrictOrderedRing K] {l : List K} (hl : l.Pairwise (· ≤ ·)) {k : ℕ} (hk : k ≤ l.length) :
    (k : K) * l.sum ≤ l.length * (l.drop (l.length - k)).sum := by
  have hparts := (List.pairwise_append.mp
    ((List.take_append_drop (l.length - k) l).symm ▸ hl : List.Pairwise _ (_ ++ _))).2.2
  have hle := length_mul_sum_le hparts
  have hsum := List.sum_take_add_sum_drop l (l.length - k)
  rw [List.length_drop, List.length_take, Nat.sub_sub_self hk,
    min_eq_left (Nat.sub_le _ _), Nat.cast_sub hk, sub_mul] at hle
  rw [← hsum, mul_add]
  linarith

end HrtimerStudy
