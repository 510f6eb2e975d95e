import HrtimerStudy.Lib.Decimal
import Mathlib.Data.List.Nodup
import Mathlib.Data.List.Perm.Basic

/-!
# Parsed documents

The tree that BeautifulSoup makes of an HTML text, its strings in document order, and the ways to
look for tags in it. A comment is a kind of string. Strings are objects, told apart by their
identity, so that "this string, once, at this place" can be said of a list of them.

Whether a string can be seen in the HTML and whether `get_text` collects it are two questions. A
comment is neither seen nor collected, but the text of a ruby annotation is seen and, for most tags,
not collected, and a CDATA section is collected and not seen.

White space does not matter here: a string is solid if it has something else, and texts are
compared with their white space left out.

## Main definitions

* `NavigableString`, `Nodes`, `Tag` — the tree
* `Nodes.strings`, `Nodes.visible`, `Nodes.collected`, `Nodes.getText` — its strings
* `Nodes.findAll`, `Nodes.findChildren`, `Nodes.find` — its tags
* `solid`, `squash` — without white space

## Main results

* `append_perm_of_nodup` — two ways to split a list between two sets of strings are one
* `squash_flatMap_text` — the text of a list of strings is that of the solid ones
-/

namespace HrtimerStudy

/-! ### The tree -/

/-- An object of `NavigableString` or of a subclass. It may be `hidden` in the HTML, as a comment
is, and its class may be among the `interesting` ones, those that `get_text` of a tag collects. Only
the tags `rt`, `rp`, `script`, `style` and `template` collect other classes. -/
structure NavigableString where
  id : ℕ
  hidden : Bool
  interesting : Bool
  text : Text
  deriving DecidableEq

/-- The attributes that matter to somebody. -/
structure Attrs where
  classes : List String
  src : Option String

/-- The children of a tag, or of the document. -/
inductive Nodes
  | nil
  | str (s : NavigableString) (rest : Nodes)
  | tag (name : String) (attrs : Attrs) (children rest : Nodes)

structure Tag where
  name : String
  attrs : Attrs
  children : Nodes

namespace Nodes

/-- All strings, in document order. -/
def strings : Nodes → List NavigableString
  | .nil => []
  | .str s rest => s :: rest.strings
  | .tag _ _ children rest => children.strings ++ rest.strings

/-- Those that can be seen. -/
def visible (ns : Nodes) : List NavigableString := ns.strings.filter fun s => !s.hidden

/-- Those that `get_text` collects. -/
def collected (ns : Nodes) : List NavigableString := ns.strings.filter fun s => s.interesting

/-- The visible text of the tag with these children. -/
def visibleText (ns : Nodes) : Text := ns.visible.flatMap NavigableString.text

/-- `get_text`. -/
def getText (ns : Nodes) : Text := ns.collected.flatMap NavigableString.text

/-- `find_all` of the tag with these children: the descendants with such a name, in document
order. -/
def findAll (p : String → Bool) : Nodes → List Tag
  | .nil => []
  | .str _ rest => findAll p rest
  | .tag name attrs children rest =>
    (if p name then [⟨name, attrs, children⟩] else []) ++ findAll p children ++ findAll p rest

/-- `find_all` with `recursive=False`. -/
def findChildren (p : String → Bool) : Nodes → List Tag
  | .nil => []
  | .str _ rest => findChildren p rest
  | .tag name attrs children rest =>
    (if p name then [⟨name, attrs, children⟩] else []) ++ findChildren p rest

/-- `find`. -/
def find (p : String → Bool) (ns : Nodes) : Option Tag := (ns.findAll p).head?

end Nodes

/-! ### White space -/

/-- The string is white space. -/
def NavigableString.blank (s : NavigableString) : Bool := s.text.all isSpace

/-- The strings that are more than white space. -/
def solid (l : List NavigableString) : List NavigableString := l.filter fun s => !s.blank

/-- A text without its white space. -/
def squash (t : Text) : Text := t.filter fun c => !isSpace c

@[simp] theorem solid_nil : solid [] = [] := rfl

@[simp] theorem solid_append (l m : List NavigableString) : solid (l ++ m) = solid l ++ solid m :=
  List.filter_append l m

theorem solid_cons (s : NavigableString) (l : List NavigableString) :
    solid (s :: l) = solid [s] ++ solid l := solid_append [s] l

theorem mem_solid {s : NavigableString} {l : List NavigableString} :
    s ∈ solid l ↔ s ∈ l ∧ s.blank = false := by
  simp [solid]

theorem solid_subset (l : List NavigableString) : solid l ⊆ l := fun _ h => (mem_solid.mp h).1

theorem solid_eq_nil_iff {l : List NavigableString} :
    solid l = [] ↔ ∀ s ∈ l, s.blank = true := by
  simp [solid]

@[simp] theorem squash_nil : squash [] = [] := rfl

@[simp] theorem squash_append (t u : Text) : squash (t ++ u) = squash t ++ squash u :=
  List.filter_append t u

theorem squash_eq_nil {s : NavigableString} (h : s.blank = true) : squash s.text = [] := by
  rw [squash, List.filter_eq_nil_iff]
  intro c hc
  simpa using List.all_eq_true.mp h c hc

theorem squash_flatMap {α : Type} (f : α → Text) (l : List α) :
    squash (l.flatMap f) = l.flatMap fun a => squash (f a) := by
  induction l with
  | nil => rfl
  | cons a l ih => rw [List.flatMap_cons, List.flatMap_cons, squash_append, ih]

/-- **The text of some strings** is that of the solid ones among them. -/
theorem squash_flatMap_text (l : List NavigableString) :
    squash ((solid l).flatMap NavigableString.text) = squash (l.flatMap NavigableString.text) := by
  induction l with
  | nil => rfl
  | cons s l ih =>
    rw [solid_cons, List.flatMap_append, squash_append, ih, List.flatMap_cons, squash_append]
    by_cases h : s.blank
    · have hnil : solid [s] = [] := solid_eq_nil_iff.mpr (by simpa using h)
      rw [hnil, squash_eq_nil h]
      rfl
    · have hself : solid [s] = [s] := by simp [solid, h]
      rw [hself, List.flatMap_singleton]

/-- Whether a string is there can be seen unless it is blank. -/
theorem solid_ite_eq {s : NavigableString} {p q : Bool} (h : s.blank = true ∨ p = q) :
    solid (if p then [s] else []) = solid (if q then [s] else []) := by
  rcases h with h | rfl
  · have hnil : solid [s] = [] := solid_eq_nil_iff.mpr (by simpa using h)
    cases p <;> cases q <;> simp [hnil]
  · rfl

theorem eq_of_solid_ite_perm {s : NavigableString} {p q : Bool}
    (h : (solid (if p then [s] else [])).Perm (solid (if q then [s] else []))) :
    s.blank = true ∨ p = q := by
  by_cases hblank : s.blank = true
  · exact Or.inl hblank
  · have hself : solid [s] = [s] := by simp [solid, hblank]
    cases p <;> cases q <;> simp_all

/-! ### Strings -/

namespace Nodes

section Strings

variable (s : NavigableString) (name : String) (attrs : Attrs) (children rest : Nodes)

theorem visible_str : (Nodes.str s rest).visible =
    (if !s.hidden then [s] else []) ++ rest.visible := by
  rw [visible, strings, List.filter_cons]
  cases s.hidden <;> rfl

theorem visible_tag :
    (Nodes.tag name attrs children rest).visible = children.visible ++ rest.visible :=
  List.filter_append ..

theorem collected_str : (Nodes.str s rest).collected =
    (if s.interesting then [s] else []) ++ rest.collected := by
  rw [collected, strings, List.filter_cons]
  cases s.interesting <;> rfl

theorem collected_tag :
    (Nodes.tag name attrs children rest).collected = children.collected ++ rest.collected :=
  List.filter_append ..

end Strings

theorem visible_sublist (ns : Nodes) : ns.visible.Sublist ns.strings := List.filter_sublist

theorem mem_visible {ns : Nodes} {s : NavigableString} :
    s ∈ ns.visible ↔ s ∈ ns.strings ∧ s.hidden = false := by
  simp [visible]

/-- The strings of a tag that is found are strings of the tree. -/
theorem strings_sublist_of_mem_findAll {p : String → Bool} {ns : Nodes} {t : Tag}
    (h : t ∈ ns.findAll p) : t.children.strings.Sublist ns.strings := by
  induction ns with
  | nil => cases h
  | str s rest ih => exact (ih h).cons s
  | tag name attrs children rest ihc ihr =>
    rw [findAll, List.mem_append, List.mem_append] at h
    rcases h with (h | h) | h
    · split_ifs at h
      · obtain rfl := List.mem_singleton.mp h
        exact List.sublist_append_left _ _
      · cases h
    · exact (ihc h).trans (List.sublist_append_left _ _)
    · exact (ihr h).trans (List.sublist_append_right _ _)

/-- A child that is found is found. -/
theorem mem_findAll_of_mem_findChildren {p : String → Bool} {ns : Nodes} {t : Tag}
    (h : t ∈ ns.findChildren p) : t ∈ ns.findAll p := by
  induction ns with
  | nil => cases h
  | str s rest ih => exact ih h
  | tag name attrs children rest ihc ihr =>
    rw [findChildren, List.mem_append] at h
    rw [findAll, List.mem_append, List.mem_append]
    rcases h with h | h
    · exact Or.inl (Or.inl h)
    · exact Or.inr (ihr h)

theorem mem_findAll_of_find {p : String → Bool} {ns : Nodes} {t : Tag} (h : ns.find p = some t) :
    t ∈ ns.findAll p := List.mem_of_head? h

/-- What is found in a tag that is found is found. -/
theorem mem_findAll_trans {p q : String → Bool} {ns : Nodes} {t u : Tag} (ht : t ∈ ns.findAll p)
    (hu : u ∈ t.children.findAll q) : u ∈ ns.findAll q := by
  induction ns with
  | nil => cases ht
  | str s rest ih => exact ih ht
  | tag name attrs children rest ihc ihr =>
    rw [findAll, List.mem_append, List.mem_append] at ht ⊢
    rcases ht with (ht | ht) | ht
    · split_ifs at ht
      · obtain rfl := List.mem_singleton.mp ht
        exact Or.inl (Or.inr hu)
      · cases ht
    · exact Or.inl (Or.inr (ihc ht))
    · exact Or.inr (ihr ht)

end Nodes

/-! ### Two sets of strings -/

/-- A list without duplicates does not end in elements that it starts with. -/
theorem eq_nil_of_nodup_append {α : Type*} {a b : List α} (hnodup : (a ++ b).Nodup)
    (h : b ⊆ a) : b = [] := by
  rw [List.eq_nil_iff_forall_not_mem]
  intro e he
  exact List.disjoint_of_nodup_append hnodup (h he) he

/-- **Elements of two disjoint sets**, first those of the one and then those of the other: what is
in one is in one. -/
theorem append_perm_of_nodup {α : Type*} {a b c d l m : List α} (hnodup : (l ++ m).Nodup)
    (ha : a ⊆ l) (hb : b ⊆ m) (hc : c ⊆ l) (hd : d ⊆ m) (h : (a ++ b).Perm (c ++ d)) :
    a.Perm c ∧ b.Perm d := by
  classical
  have hdisj := List.disjoint_of_nodup_append hnodup
  have hfilter : ∀ x y : List α, x ⊆ l → y ⊆ m → (x ++ y).filter (· ∈ l) = x := by
    intro x y hx hy
    have hleft : x.filter (· ∈ l) = x := List.filter_eq_self.mpr fun e he => by simpa using hx he
    have hright : y.filter (· ∈ l) = [] :=
      List.filter_eq_nil_iff.mpr fun e he => by simpa using fun hl => hdisj hl (hy he)
    rw [List.filter_append, hleft, hright, List.append_nil]
  have hac : a.Perm c := by
    rw [← hfilter a b ha hb, ← hfilter c d hc hd]
    exact h.filter _
  exact ⟨hac, (List.perm_append_left_iff c).mp ((hac.symm.append_right b).trans h)⟩

end HrtimerStudy
