import HrtimerStudy.Lib.Decimal
import Mathlib.Data.List.Infix

/-!
# Lines, fields, and texts cut short

A text of newline-terminated lines, each a list of comma-separated fields, and the shape of its
prefixes: some whole lines, then part of one; in that part, some whole fields, then part of one.

## Main definitions

* `unlines` — the text of a list of lines
* `csvLine`, `csvFields` — a line and its fields

## Main results

* `prefix_unlines` — a prefix of a text is some of its lines and a prefix of the next
* `csvFields_of_prefix` — a prefix of a line is some of its fields and a prefix of the next
-/

namespace HrtimerStudy

/-! ### Prefixes around a separator -/

/-- A prefix of two pieces with a separator between them ends in the first piece, or contains it
and the separator. -/
theorem prefix_append_cons {α : Type*} {p l r : List α} {a : α} (h : p <+: l ++ a :: r) :
    p <+: l ∨ ∃ p', p = l ++ a :: p' ∧ p' <+: r := by
  induction l generalizing p with
  | nil =>
    cases p with
    | nil => exact Or.inl (List.nil_prefix)
    | cons b p =>
      obtain ⟨rfl, hp⟩ := List.cons_prefix_cons.mp h
      exact Or.inr ⟨p, rfl, hp⟩
  | cons c l ih =>
    cases p with
    | nil => exact Or.inl (List.nil_prefix)
    | cons b p =>
      obtain ⟨rfl, hp⟩ := List.cons_prefix_cons.mp h
      rcases ih hp with hp | ⟨p', rfl, hp'⟩
      · exact Or.inl (List.cons_prefix_cons.mpr ⟨rfl, hp⟩)
      · exact Or.inr ⟨p', rfl, hp'⟩

/-! ### Lines -/

/-- The text of a list of lines, each of them terminated. -/
def unlines (ls : List Text) : Text := (ls.map (· ++ ['\n'])).flatten

@[simp] theorem unlines_nil : unlines [] = [] := rfl

theorem unlines_cons (l : Text) (ls : List Text) : unlines (l :: ls) = l ++ '\n' :: unlines ls := by
  simp [unlines]

theorem unlines_append (ls ms : List Text) : unlines (ls ++ ms) = unlines ls ++ unlines ms := by
  simp [unlines]

theorem mem_unlines {ls : List Text} {c : Char} (h : c ∈ unlines ls) :
    c = '\n' ∨ ∃ l ∈ ls, c ∈ l := by
  rw [unlines, List.mem_flatten] at h
  obtain ⟨t, ht, hc⟩ := h
  obtain ⟨l, hl, rfl⟩ := List.mem_map.mp ht
  rcases List.mem_append.mp hc with hc | hc
  · exact Or.inr ⟨l, hl, hc⟩
  · exact Or.inl (List.mem_singleton.mp hc)

/-- **A prefix of a text** is the text of some of its lines, followed by a prefix of the next one
if there is a next one. -/
theorem prefix_unlines {ls : List Text} {p : Text} (h : p <+: unlines ls) :
    ∃ k q, k ≤ ls.length ∧ p = unlines (ls.take k) ++ q ∧
      (q = [] ∨ ∃ hk : k < ls.length, q <+: ls[k]) := by
  induction ls generalizing p with
  | nil => exact ⟨0, [], le_rfl, by simpa using h, Or.inl rfl⟩
  | cons l ls ih =>
    rw [unlines_cons] at h
    rcases prefix_append_cons h with hp | ⟨p', rfl, hp'⟩
    · exact ⟨0, p, Nat.zero_le _, rfl, Or.inr ⟨by simp, hp⟩⟩
    · obtain ⟨k, q, hk, rfl, hq⟩ := ih hp'
      refine ⟨k + 1, q, Nat.succ_le_succ hk, ?_, ?_⟩
      · rw [List.take_succ_cons, unlines_cons, List.append_assoc, List.cons_append]
      · rcases hq with hq | ⟨hk', hq⟩
        · exact Or.inl hq
        · exact Or.inr ⟨Nat.succ_lt_succ hk', hq⟩

/-! ### Fields -/

/-- A line of comma-separated fields. -/
def csvLine (fs : List Text) : Text := [','].intercalate fs

/-- The fields of a line. -/
def csvFields (line : Text) : List Text := line.splitOn ','

theorem csvFields_csvLine {fs : List Text} (hne : fs ≠ []) (hfs : ∀ f ∈ fs, ',' ∉ f) :
    csvFields (csvLine fs) = fs :=
  List.splitOn_intercalate ',' hfs hne

theorem csvLine_cons_cons (f g : Text) (fs : List Text) :
    csvLine (f :: g :: fs) = f ++ ',' :: csvLine (g :: fs) := by
  simp [csvLine, List.intercalate_cons_cons]

@[simp] theorem csvLine_singleton (f : Text) : csvLine [f] = f := by simp [csvLine]

theorem mem_csvLine {fs : List Text} {c : Char} (h : c ∈ csvLine fs) :
    c = ',' ∨ ∃ f ∈ fs, c ∈ f := by
  induction fs with
  | nil => simp [csvLine] at h
  | cons f fs ih =>
    cases fs with
    | nil =>
      rw [csvLine_singleton] at h
      exact Or.inr ⟨f, List.mem_singleton_self f, h⟩
    | cons g fs =>
      rw [csvLine_cons_cons, List.mem_append, List.mem_cons] at h
      rcases h with h | rfl | h
      · exact Or.inr ⟨f, List.mem_cons_self .., h⟩
      · exact Or.inl rfl
      · rcases ih h with hc | ⟨f', hf', hc⟩
        · exact Or.inl hc
        · exact Or.inr ⟨f', List.mem_cons_of_mem _ hf', hc⟩

/-- **A prefix of a line** splits into some of its fields and a prefix of the next one. -/
theorem csvFields_of_prefix {fs : List Text} (hne : fs ≠ []) (hfs : ∀ f ∈ fs, ',' ∉ f)
    {q : Text} (h : q <+: csvLine fs) :
    ∃ j f, ∃ hj : j < fs.length, f <+: fs[j] ∧ csvFields q = fs.take j ++ [f] := by
  induction fs generalizing q with
  | nil => exact absurd rfl hne
  | cons a fs ih =>
    have ha : ',' ∉ a := hfs a (List.mem_cons_self ..)
    have hfirst : q <+: a → csvFields q = [q] := fun hq =>
      List.splitOn_eq_singleton fun hmem => ha (hq.subset hmem)
    cases fs with
    | nil =>
      rw [csvLine_singleton] at h
      exact ⟨0, q, by simp, h, hfirst h⟩
    | cons b fs =>
      rw [csvLine_cons_cons] at h
      rcases prefix_append_cons h with hq | ⟨q', rfl, hq'⟩
      · exact ⟨0, q, by simp, hq, hfirst hq⟩
      · obtain ⟨j, f, hj, hf, hsplit⟩ :=
          ih (List.cons_ne_nil _ _) (fun f hf => hfs f (List.mem_cons_of_mem _ hf)) hq'
        refine ⟨j + 1, f, Nat.succ_lt_succ hj, hf, ?_⟩
        rw [csvFields, List.splitOn_append_cons_self_of_not_mem ha, ← csvFields, hsplit,
          List.take_succ_cons, List.cons_append]

end HrtimerStudy
