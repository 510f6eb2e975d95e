import Mathlib.Data.List.Sort
import Mathlib.Data.List.TakeWhile

/-!
# Queues ordered by a key

A queue is a list of different elements in the order of their keys, and elements of one key are
served in the order of their arrival. The keys are a function of the elements and may change while
an element is queued; an element whose neighbours permit its new key may stay where it is.

## Main definitions

* `Ordered` — the keys do not decrease
* `insertBehind` — an element joins the queue behind those of its own key
* `nextOf`, `prevOf` — the neighbours of an element

## Main results

* `Ordered.insertBehind` — joining keeps the order
* `head?_insertBehind` — an element joins at the head only if its key is less than all others
* `Ordered.update` — **a change of key in place** that the neighbours permit keeps the order
-/

namespace HrtimerStudy

variable {α K : Type*} [LinearOrder K] {key key' : α → K} {a b : α} {l p r : List α}

/-- The keys do not decrease. -/
def Ordered (key : α → K) (l : List α) : Prop := l.Pairwise fun a b => key a ≤ key b

/-- Join the queue behind the elements whose key is not greater. -/
def insertBehind (key : α → K) (a : α) (l : List α) : List α :=
  l.orderedInsert (fun a b => key a < key b) a

theorem Ordered.congr (h : Ordered key l) (hkey : ∀ b ∈ l, key' b = key b) : Ordered key' l := by
  refine List.Pairwise.imp_of_mem ?_ h
  intro b c hb hc hbc
  rwa [hkey b hb, hkey c hc]

theorem Ordered.erase [DecidableEq α] (h : Ordered key l) (a : α) : Ordered key (l.erase a) :=
  h.sublist List.erase_sublist

theorem Ordered.head?_le (h : Ordered key l) (ha : l.head? = some a) (hb : b ∈ l) :
    key a ≤ key b := by
  cases l with
  | nil => cases hb
  | cons c l =>
    obtain rfl := Option.some.inj ha
    rcases List.mem_cons.mp hb with rfl | hb
    · exact le_rfl
    · exact (List.pairwise_cons.mp h).1 b hb

/-! ### Joining -/

theorem perm_insertBehind (key : α → K) (a : α) (l : List α) :
    (insertBehind key a l).Perm (a :: l) :=
  List.perm_orderedInsert _ a l

theorem mem_insertBehind : b ∈ insertBehind key a l ↔ b = a ∨ b ∈ l := by
  rw [(perm_insertBehind key a l).mem_iff, List.mem_cons]

theorem insertBehind_ne_nil : insertBehind key a l ≠ [] :=
  List.ne_nil_of_mem (mem_insertBehind.mpr (Or.inl rfl))

theorem nodup_insertBehind (ha : a ∉ l) (hl : l.Nodup) : (insertBehind key a l).Nodup :=
  (perm_insertBehind key a l).nodup_iff.mpr (List.nodup_cons.mpr ⟨ha, hl⟩)

theorem Ordered.insertBehind (h : Ordered key l) (a : α) :
    Ordered key (insertBehind key a l) := by
  induction l with
  | nil => exact List.pairwise_singleton _ a
  | cons b l ih =>
    obtain ⟨hb, hl⟩ := List.pairwise_cons.mp h
    rw [HrtimerStudy.insertBehind, List.orderedInsert_cons]
    split_ifs with hab
    · refine List.pairwise_cons.mpr ⟨?_, h⟩
      intro c hc
      rcases List.mem_cons.mp hc with rfl | hc
      · exact hab.le
      · exact hab.le.trans (hb c hc)
    · refine List.pairwise_cons.mpr ⟨?_, ih hl⟩
      intro c hc
      rcases mem_insertBehind.mp hc with rfl | hc
      · exact not_lt.mp hab
      · exact hb c hc

/-- The new head is either the element that has joined or the old head. -/
theorem head?_insertBehind (key : α → K) (a : α) (l : List α) :
    (insertBehind key a l).head? = some a ∧ (∀ b ∈ l.head?, key a < key b) ∨
      (insertBehind key a l).head? = l.head? ∧ ∃ b ∈ l.head?, key b ≤ key a := by
  cases l with
  | nil => exact Or.inl ⟨rfl, by simp⟩
  | cons b l =>
    rw [insertBehind, List.orderedInsert_cons]
    split_ifs with hab
    · exact Or.inl ⟨rfl, by simpa using hab⟩
    · exact Or.inr ⟨rfl, b, rfl, not_lt.mp hab⟩

/-! ### Neighbours -/

/-- A queue, split at one of its elements. -/
theorem exists_split (hnodup : l.Nodup) (ha : a ∈ l) :
    ∃ p r, l = p ++ a :: r ∧ a ∉ p ∧ a ∉ r := by
  obtain ⟨p, r, rfl⟩ := List.append_of_mem ha
  have hdisjoint := List.nodup_append.mp hnodup
  refine ⟨p, r, rfl, fun hp => ?_, (List.nodup_cons.mp hdisjoint.2.1).1⟩
  exact hdisjoint.2.2 a hp a (List.mem_cons_self ..) rfl

section Neighbours

variable [DecidableEq α]

/-- The element behind `a`. -/
def nextOf (l : List α) (a : α) : Option α := (l.dropWhile fun b => b ≠ a).tail.head?

/-- The element before `a`. -/
def prevOf (l : List α) (a : α) : Option α := (l.takeWhile fun b => b ≠ a).getLast?

theorem nextOf_of_notMem (ha : a ∉ l) : nextOf l a = none := by
  have hl : l.dropWhile (fun b => b ≠ a) = [] := by
    rw [List.dropWhile_eq_nil_iff]
    intro b hb
    exact decide_eq_true fun h => ha (h ▸ hb)
  rw [nextOf, hl]
  rfl

theorem nextOf_append (ha : a ∉ p) : nextOf (p ++ a :: r) a = r.head? := by
  have hp : ∀ b ∈ p, (decide (b ≠ a)) = true := by
    intro b hb
    rw [decide_eq_true_eq]
    rintro rfl
    exact ha hb
  rw [nextOf, List.dropWhile_append_of_pos hp, List.dropWhile_cons_of_neg (by simp), List.tail_cons]

theorem prevOf_append (ha : a ∉ p) : prevOf (p ++ a :: r) a = p.getLast? := by
  have hp : ∀ b ∈ p, (decide (b ≠ a)) = true := by
    intro b hb
    rw [decide_eq_true_eq]
    rintro rfl
    exact ha hb
  rw [prevOf, List.takeWhile_append_of_pos hp, List.takeWhile_cons_of_neg (by simp),
    List.append_nil]

/-- Nobody is before the head, and it alone has nobody before it. -/
theorem prevOf_eq_none_iff (hnodup : l.Nodup) (ha : a ∈ l) :
    prevOf l a = none ↔ l.head? = some a := by
  obtain ⟨p, r, rfl, hp, -⟩ := exists_split hnodup ha
  rw [prevOf_append hp, List.getLast?_eq_none_iff]
  constructor
  · rintro rfl
    rfl
  · intro hhead
    cases p with
    | nil => rfl
    | cons b p =>
      obtain rfl := Option.some.inj hhead
      exact absurd (List.mem_cons_self ..) hp

theorem mem_of_mem_nextOf (h : b ∈ nextOf l a) : b ∈ l :=
  (List.dropWhile_sublist _).subset (List.mem_of_mem_tail (List.mem_of_mem_head? h))

theorem mem_of_mem_prevOf (h : b ∈ prevOf l a) : b ∈ l :=
  (List.takeWhile_sublist _).subset (List.mem_of_getLast? h)

theorem ne_of_mem_nextOf (hnodup : l.Nodup) (ha : a ∈ l) (h : b ∈ nextOf l a) : b ≠ a := by
  obtain ⟨p, r, rfl, hp, hr⟩ := exists_split hnodup ha
  rw [nextOf_append hp] at h
  exact ne_of_mem_of_not_mem (List.mem_of_mem_head? h) hr

theorem Ordered.le_nextOf (h : Ordered key l) (hnodup : l.Nodup) (ha : a ∈ l)
    (hb : b ∈ nextOf l a) : key a ≤ key b := by
  obtain ⟨p, r, rfl, hp, -⟩ := exists_split hnodup ha
  rw [nextOf_append hp] at hb
  exact (List.pairwise_cons.mp (List.pairwise_append.mp h).2.1).1 b (List.mem_of_mem_head? hb)

/-- **A change of key in place.** -/
theorem Ordered.update (h : Ordered key l) (hnodup : l.Nodup) (ha : a ∈ l)
    (hkey : ∀ b ∈ l, b ≠ a → key' b = key b) (hnext : ∀ b ∈ nextOf l a, key' a ≤ key b)
    (hprev : ∀ b ∈ prevOf l a, key b ≤ key' a) : Ordered key' l := by
  obtain ⟨p, r, rfl, hp, hr⟩ := exists_split hnodup ha
  rw [nextOf_append hp] at hnext
  rw [prevOf_append hp] at hprev
  obtain ⟨hordp, hordr, hcross⟩ := List.pairwise_append.mp h
  have hkeyp : ∀ b ∈ p, key' b = key b := by
    intro b hb
    exact hkey b (List.mem_append_left _ hb) (ne_of_mem_of_not_mem hb hp)
  have hkeyr : ∀ b ∈ r, key' b = key b := by
    intro b hb
    exact hkey b (List.mem_append_right _ (List.mem_cons_of_mem _ hb)) (ne_of_mem_of_not_mem hb hr)
  have hordr' : Ordered key r := (List.pairwise_cons.mp hordr).2
  have hbefore : ∀ b ∈ p, key b ≤ key' a := by
    intro b hb
    obtain ⟨q, c, rfl⟩ := List.eq_nil_or_concat' p |>.resolve_left (List.ne_nil_of_mem hb)
    have hlast : key c ≤ key' a := hprev c (by simp)
    rcases List.mem_append.mp hb with hq | hc
    · exact ((List.pairwise_append.mp hordp).2.2 b hq c (List.mem_singleton_self c)).trans hlast
    · obtain rfl := List.mem_singleton.mp hc
      exact hlast
  have hbehind : ∀ b ∈ r, key' a ≤ key b := by
    intro b hb
    cases hhead : r.head? with
    | none =>
      rw [List.head?_eq_none_iff] at hhead
      rw [hhead] at hb
      cases hb
    | some c => exact (hnext c hhead).trans (hordr'.head?_le hhead hb)
  have hordp' : Ordered key p := hordp
  refine List.pairwise_append.mpr
    ⟨hordp'.congr hkeyp, List.pairwise_cons.mpr ⟨?_, hordr'.congr hkeyr⟩, ?_⟩
  · intro b hb
    rw [hkeyr b hb]
    exact hbehind b hb
  · intro b hb c hc
    rw [hkeyp b hb]
    rcases List.mem_cons.mp hc with rfl | hc
    · exact hbefore b hb
    · rw [hkeyr c hc]
      exact hcross b hb c (List.mem_cons_of_mem _ hc)

end Neighbours

end HrtimerStudy
