import Mathlib.Data.List.Nodup
import Mathlib.Data.List.Perm.Basic

/-!
# Numbered places

Pieces of a list are put into numbered places, one after the other; a place that gets several of
them keeps them in the order in which they came. Read from the first place to the last, the places
hold the pieces in another order, or in the same one: that depends on the numbers.

## Main definitions

* `place`, `inPlaces` — the content of one place, and of all

## Main results

* `flatten_inPlaces_perm` — nothing is lost
* `flatten_inPlaces` — where the numbers ascend, the order is kept
* `pairwise_of_flatten_inPlaces` — if all elements differ, it is kept only there
-/

namespace HrtimerStudy

variable {α β : Type*}

/-- What is in the place number `k`. -/
def place (k : ℕ) (pieces : List (ℕ × List α)) : List α :=
  pieces.flatMap fun piece => if piece.1 = k then piece.2 else []

/-- What is in the first `n` places. -/
def inPlaces (n : ℕ) (pieces : List (ℕ × List α)) : List (List α) :=
  (List.range n).map fun k => place k pieces

/-- The numbers of the pieces that are not empty ascend. -/
def Ascending (pieces : List (ℕ × List α)) : Prop :=
  pieces.Pairwise fun a b => a.2 = [] ∨ b.2 = [] ∨ a.1 ≤ b.1

variable {n k : ℕ} {piece : ℕ × List α} {pieces : List (ℕ × List α)}

theorem flatten_inPlaces_eq : (inPlaces n pieces).flatten =
    (List.range n).flatMap fun k => place k pieces := List.flatMap_def.symm

theorem place_cons_self : place piece.1 (piece :: pieces) = piece.2 ++ place piece.1 pieces := by
  rw [place, List.flatMap_cons, if_pos rfl]
  rfl

theorem place_cons_of_ne (h : piece.1 ≠ k) : place k (piece :: pieces) = place k pieces := by
  rw [place, List.flatMap_cons, if_neg h]
  rfl

theorem place_cons_of_nil (h : piece.2 = []) : place k (piece :: pieces) = place k pieces := by
  rw [place, List.flatMap_cons, h, ite_self]
  rfl

theorem mem_place {a : α} : a ∈ place k pieces ↔ ∃ b ∈ pieces, b.1 = k ∧ a ∈ b.2 := by
  rw [place, List.mem_flatMap]
  refine exists_congr fun b => and_congr_right fun _ => ?_
  by_cases hb : b.1 = k
  · simp [hb]
  · simp [hb]

theorem inPlaces_cons_of_nil (h : piece.2 = []) :
    inPlaces n (piece :: pieces) = inPlaces n pieces :=
  List.map_congr_left fun _ _ => place_cons_of_nil h

/-- The places before a number, this one, and those after it. -/
theorem range_split (h : k < n) :
    List.range n = List.range k ++ k :: List.range' (k + 1) (n - k - 1) := by
  have hcons : k :: List.range' (k + 1) (n - k - 1) = List.range' k (n - k) := by
    rw [← List.range'_succ]
    congr 1
    omega
  rw [hcons, List.range_eq_range', List.range_eq_range']
  have happend := @List.range'_append_1 0 k (n - k)
  rw [Nat.zero_add, Nat.add_sub_cancel' (Nat.le_of_lt h)] at happend
  exact happend.symm

/-- A first piece whose number is the least comes out first. -/
theorem flatten_inPlaces_cons (hn : piece.1 < n)
    (hleast : ∀ b ∈ pieces, b.2 = [] ∨ piece.1 ≤ b.1) :
    (inPlaces n (piece :: pieces)).flatten = piece.2 ++ (inPlaces n pieces).flatten := by
  have hbefore : ∀ k ∈ List.range piece.1, place k pieces = [] := by
    intro k hk
    rw [List.eq_nil_iff_forall_not_mem]
    intro a ha
    obtain ⟨b, hb, rfl, hab⟩ := mem_place.mp ha
    rcases hleast b hb with hnil | hle
    · rw [hnil] at hab
      cases hab
    · exact absurd (List.mem_range.mp hk) (Nat.not_lt.mpr hle)
  have hfirst : (List.range piece.1).flatMap (fun k => place k (piece :: pieces)) = [] := by
    refine List.flatMap_eq_nil_iff.mpr fun k hk => ?_
    rw [place_cons_of_ne (Nat.ne_of_gt (List.mem_range.mp hk)), hbefore k hk]
  have hlast : (List.range' (piece.1 + 1) (n - piece.1 - 1)).flatMap
        (fun k => place k (piece :: pieces)) =
      (List.range' (piece.1 + 1) (n - piece.1 - 1)).flatMap fun k => place k pieces := by
    refine List.flatMap_congr fun k hk => place_cons_of_ne ?_
    have hge := (List.mem_range'_1.mp hk).1
    omega
  rw [flatten_inPlaces_eq, flatten_inPlaces_eq, range_split hn, List.flatMap_append,
    List.flatMap_append, List.flatMap_cons, List.flatMap_cons, hfirst, hlast, place_cons_self,
    List.flatMap_eq_nil_iff.mpr hbefore, List.nil_append, List.nil_append, List.append_assoc]

/-- **Where the numbers ascend**, the order is kept. -/
theorem flatten_inPlaces (hn : ∀ b ∈ pieces, b.1 < n) (h : Ascending pieces) :
    (inPlaces n pieces).flatten = pieces.flatMap Prod.snd := by
  induction pieces with
  | nil =>
    rw [flatten_inPlaces_eq]
    exact List.flatMap_eq_nil_iff.mpr fun _ _ => rfl
  | cons piece pieces ih =>
    obtain ⟨hfirst, hrest⟩ := List.pairwise_cons.mp h
    obtain ⟨hpiece, hpieces⟩ := List.forall_mem_cons.mp hn
    rw [List.flatMap_cons]
    by_cases hnil : piece.2 = []
    · rw [inPlaces_cons_of_nil hnil, hnil, ih hpieces hrest]
      rfl
    · rw [flatten_inPlaces_cons hpiece fun b hb => (hfirst b hb).resolve_left hnil,
        ih hpieces hrest]

/-- **Nothing is lost.** -/
theorem flatten_inPlaces_perm (hn : ∀ b ∈ pieces, b.1 < n) :
    (inPlaces n pieces).flatten.Perm (pieces.flatMap Prod.snd) := by
  induction pieces with
  | nil =>
    rw [flatten_inPlaces hn List.Pairwise.nil]
  | cons piece pieces ih =>
    obtain ⟨hpiece, hpieces⟩ := List.forall_mem_cons.mp hn
    -- one piece and the others are put into their places side by side
    have hsingle : (inPlaces n [piece]).flatten = piece.2 := by
      rw [flatten_inPlaces (by simpa using hpiece) (List.pairwise_singleton ..),
        List.flatMap_singleton]
    have hcons : (fun k => place k (piece :: pieces)) =
        fun k => place k [piece] ++ place k pieces := by
      funext k
      rw [place, List.flatMap_cons, place, List.flatMap_singleton]
      rfl
    rw [flatten_inPlaces_eq, hcons]
    refine (List.flatMap_append_perm _ _ _).symm.trans ?_
    rw [← flatten_inPlaces_eq, ← flatten_inPlaces_eq, hsingle, List.flatMap_cons]
    exact (ih hpieces).append_left _

/-- **If all elements differ**, the order is kept only where the numbers ascend. -/
theorem pairwise_of_flatten_inPlaces (hn : ∀ b ∈ pieces, b.1 < n)
    (hnodup : (pieces.flatMap Prod.snd).Nodup)
    (h : (inPlaces n pieces).flatten = pieces.flatMap Prod.snd) : Ascending pieces := by
  induction pieces with
  | nil => exact List.Pairwise.nil
  | cons piece pieces ih =>
    obtain ⟨hpiece, hpieces⟩ := List.forall_mem_cons.mp hn
    rw [List.flatMap_cons] at hnodup h
    have hrest := hnodup.of_append_right
    cases hcons : piece.2 with
    | nil =>
      rw [inPlaces_cons_of_nil hcons, hcons, List.nil_append] at h
      exact List.pairwise_cons.mpr ⟨fun b _ => Or.inl hcons, ih hpieces hrest h⟩
    | cons a as =>
      have hleast : ∀ b ∈ pieces, b.2 = [] ∨ piece.1 ≤ b.1 := by
        intro b hb
        by_contra hless
        rw [not_or, Nat.not_le] at hless
        obtain ⟨hne, hlt⟩ := hless
        -- otherwise the first element would be one of the pieces after the first
        obtain ⟨c, hc⟩ := List.exists_mem_of_ne_nil _ hne
        rw [flatten_inPlaces_eq, range_split hpiece, List.flatMap_append, hcons] at h
        have hbefore : c ∈ (List.range piece.1).flatMap fun k => place k (piece :: pieces) := by
          refine List.mem_flatMap.mpr ⟨b.1, List.mem_range.mpr hlt, ?_⟩
          exact mem_place.mpr ⟨b, List.mem_cons_of_mem _ hb, rfl, hc⟩
        obtain ⟨d, ds, hds⟩ := List.exists_cons_of_ne_nil (List.ne_nil_of_mem hbefore)
        rw [hds, List.cons_append, List.cons_append] at h
        obtain rfl : d = a := (List.cons.inj h).1
        have hd : d ∈ (List.range piece.1).flatMap fun k => place k (piece :: pieces) := by
          rw [hds]
          exact List.mem_cons_self ..
        obtain ⟨k, hk, hd⟩ := List.mem_flatMap.mp hd
        rw [place_cons_of_ne (Nat.ne_of_gt (List.mem_range.mp hk))] at hd
        obtain ⟨e, he, -, hde⟩ := mem_place.mp hd
        refine List.disjoint_of_nodup_append hnodup (a := d) ?_ ?_
        · rw [hcons]
          exact List.mem_cons_self ..
        · exact List.mem_flatMap.mpr ⟨e, he, hde⟩
      refine List.pairwise_cons.mpr ⟨fun b hb => Or.inr (hleast b hb), ih hpieces hrest ?_⟩
      rw [flatten_inPlaces_cons hpiece hleast] at h
      exact List.append_cancel_left h

/-- What is done with the content of each place can be done with the pieces. -/
theorem flatten_inPlaces_map {f : List α → List β} (hnil : f [] = [])
    (happend : ∀ l m, f (l ++ m) = f l ++ f m) :
    f (inPlaces n pieces).flatten =
      (inPlaces n (pieces.map fun piece => (piece.1, f piece.2))).flatten := by
  have hflatMap {γ : Type} (g : γ → List α) (l : List γ) :
      f (l.flatMap g) = l.flatMap fun c => f (g c) := by
    induction l with
    | nil => exact hnil
    | cons c l ih => rw [List.flatMap_cons, List.flatMap_cons, happend, ih]
  have hplace (k : ℕ) :
      f (place k pieces) = place k (pieces.map fun piece => (piece.1, f piece.2)) := by
    induction pieces with
    | nil => exact hnil
    | cons piece pieces ih =>
      rw [place, List.flatMap_cons, List.map_cons, place, List.flatMap_cons, happend]
      congr 1
      split_ifs
      · rfl
      · exact hnil
  rw [flatten_inPlaces_eq, flatten_inPlaces_eq, hflatMap]
  exact List.flatMap_congr fun k _ => hplace k

end HrtimerStudy
