import HrtimerStudy.Report.DocxText

/-!
# The text of the Word document

The document should have the visible text of the tree: every string that can be seen, once, in
document order, and no other. `handle` and `add_inline` do this for the tags they have branches
for. The text goes wrong in these places.

* A comment in a `p`, a list item, a cell or a caption is written out, as `add_inline` does not tell
  it from a string.
* In headings, `pre` and `sup` the text is what `get_text` collects. It leaves out comments, and
  also strings that can be seen, such as those of a ruby annotation.
* Text outside the tags that `handle` knows is lost: `handle` has no branch for other tags or for
  strings, a list is its `li`s, and a table is its cells in rows.
* Text of a cell in a cell is written out for both, and for both rows where the rows are in one
  another, so up to three times for a table in a cell.
* A row that has, with the cells in its cells, more of them than the first row is wider than the
  table. Then there is no document, or text goes to other places.

`Covered` says that none of this is the case. The document is right for covered trees, and for no
others unless two of these errors cancel, which takes a cell below a `sup`. What is written out is
compared with what is visible part by part: the strings of a tree are all different, so those of a
tag and those after it do not mix.

## Main definitions

* `Told`, `Mute` — what a reader writes out is what can be seen, or nothing
* `CellCovered`, `RowCovered`, `TableCovered`, `InOrder`, `ListCovered`, `Covered` — the condition
* `OutsideSup` — no cell is below a `sup`

## Main results

* `Covered.solid_eq`, `covered_of_eq` — the condition against the strings that are written out
* `docx_text` — **the document has the visible text for covered trees**, and not for others
-/

namespace HrtimerStudy

namespace Docx

/-! ### The condition -/

/-- A string is written out exactly if it can be seen, unless it is blank. -/
def Right (written : Bool) (s : NavigableString) : Prop := s.blank = true ∨ written = !s.hidden

/-- What a reader writes out is what can be seen. -/
def Told (r : Reader) : Nodes → Prop
  | .nil => True
  | .str s rest => Right (r.reads s) s ∧ Told r rest
  | .tag name _ children rest => Told (r.enter name) children ∧ Told r rest

/-- A reader writes out nothing but white space. -/
def Mute (r : Reader) : Nodes → Prop
  | .nil => True
  | .str s rest => (r.reads s = true → s.blank = true) ∧ Mute r rest
  | .tag name _ children rest => Mute (r.enter name) children ∧ Mute r rest

/-- There is no visible text. -/
def Silent (ns : Nodes) : Prop := ∀ s ∈ ns.visible, s.blank = true

/-- The content of a cell, with nothing in cells of its own. -/
def CellCovered (children : Nodes) : Prop :=
  Told .addInline children ∧ ∀ cell ∈ children.findAll isCell, Mute .addInline cell.children

/-- The content of a row in a row: no text at all. -/
def Hollow (children : Nodes) : Prop :=
  Silent children ∧ ∀ cell ∈ children.findAll isCell, Mute .addInline cell.children

/-- The content of a row: text is in cells only. -/
def RowCovered : Nodes → Prop
  | .nil => True
  | .str s rest => Right false s ∧ RowCovered rest
  | .tag name _ children rest =>
    (if isCell name then CellCovered children
      else if isRow name then Hollow children
      else RowCovered children) ∧ RowCovered rest

/-- The content of a table: text is in rows only. -/
def TableCovered : Nodes → Prop
  | .nil => True
  | .str s rest => Right false s ∧ TableCovered rest
  | .tag name _ children rest =>
    (if isRow name then RowCovered children else TableCovered children) ∧ TableCovered rest

/-- The cells of a table have places, and those with text are in their order. -/
def InOrder (cellAt : TableCell) (children : Nodes) : Prop :=
  ∃ g, grid cellAt children = some g ∧ g.placed.Pairwise fun p q =>
    Mute .addInline p.cell.children ∨ Mute .addInline q.cell.children ∨ p.number ≤ q.number

/-- The content of a list: text is in its items only. -/
def ListCovered : Nodes → Prop
  | .nil => True
  | .str s rest => Right false s ∧ ListCovered rest
  | .tag name _ children rest =>
    (if isItem name then Told .addInline children else Silent children) ∧ ListCovered rest

/-- The whole tree: text is in tags that `handle` knows only. -/
def Covered (cellAt : TableCell) : Nodes → Prop
  | .nil => True
  | .str s rest => Right false s ∧ Covered cellAt rest
  | .tag name _ children rest =>
    (match blockKind name with
      | .heading _ | .pre => Told .getText children
      | .paragraph => Told .addInline children
      | .list _ => ListCovered children
      | .figure => ∀ cap ∈ children.find isFigcaption, Told .addInline cap.children
      | .table => TableCovered children ∧ InOrder cellAt children
      | .div => Covered cellAt children
      | .other => Silent children) ∧ Covered cellAt rest

/-- No cell is below a `sup`. -/
def OutsideSup : Nodes → Prop
  | .nil => True
  | .str _ rest => OutsideSup rest
  | .tag name _ children rest =>
    (inlineKind name = .sup → children.findAll isCell = []) ∧ OutsideSup children ∧ OutsideSup rest

/-! ### Where strings are -/

variable {ns : Nodes} {r : Reader}

theorem inlineStrings_subset (r : Reader) (ns : Nodes) : inlineStrings r ns ⊆ ns.strings := by
  induction ns generalizing r with
  | nil => exact List.Subset.refl _
  | str s rest ih =>
    refine List.append_subset.mpr ⟨?_, List.Subset.trans (ih r) (List.subset_cons_self ..)⟩
    split_ifs
    · exact List.cons_subset.mpr ⟨List.mem_cons_self .., List.nil_subset _⟩
    · exact List.nil_subset _
  | tag name attrs children rest ihc ihr =>
    exact List.append_subset.mpr ⟨List.Subset.trans (ihc _) (List.subset_append_left ..),
      List.Subset.trans (ihr r) (List.subset_append_right ..)⟩

/-- What is written out for the rows of a table, before it is put into places. -/
def rowStrings (ns : Nodes) : List NavigableString :=
  (ns.findAll isRow).flatMap fun tr => cellStrings tr.children

theorem cellStrings_subset (ns : Nodes) : cellStrings ns ⊆ ns.strings := by
  intro s hs
  obtain ⟨cell, hcell, hs⟩ := List.mem_flatMap.mp hs
  exact (Nodes.strings_sublist_of_mem_findAll hcell).subset (inlineStrings_subset _ _ hs)

/-- A cell of a row of a row is a cell of the row. -/
theorem rowStrings_subset_cellStrings (ns : Nodes) : rowStrings ns ⊆ cellStrings ns := by
  intro s hs
  obtain ⟨tr, htr, hs⟩ := List.mem_flatMap.mp hs
  obtain ⟨cell, hcell, hs⟩ := List.mem_flatMap.mp hs
  exact List.mem_flatMap.mpr ⟨cell, Nodes.mem_findAll_trans htr hcell, hs⟩

theorem rowStrings_subset (ns : Nodes) : rowStrings ns ⊆ ns.strings :=
  List.Subset.trans (rowStrings_subset_cellStrings ns) (cellStrings_subset ns)

theorem itemStrings_subset (ns : Nodes) : itemStrings ns ⊆ ns.strings := by
  intro s hs
  obtain ⟨li, hli, hs⟩ := List.mem_flatMap.mp hs
  have hfound := Nodes.mem_findAll_of_mem_findChildren hli
  exact (Nodes.strings_sublist_of_mem_findAll hfound).subset (inlineStrings_subset _ _ hs)

theorem captionStrings_subset (ns : Nodes) : captionStrings ns ⊆ ns.strings := by
  rw [captionStrings]
  cases hcap : ns.find isFigcaption with
  | none => exact List.nil_subset _
  | some cap =>
    have hfound := Nodes.mem_findAll_of_find hcap
    exact List.Subset.trans (inlineStrings_subset _ _)
      (Nodes.strings_sublist_of_mem_findAll hfound).subset

section Tag

variable (name : String) (attrs : Attrs) (children rest : Nodes)

theorem cellStrings_tag : cellStrings (.tag name attrs children rest) =
    (if isCell name then inlineStrings .addInline children else []) ++ cellStrings children
      ++ cellStrings rest := by
  rw [cellStrings, Nodes.findAll, List.flatMap_append, List.flatMap_append]
  by_cases h : isCell name = true
  · rw [if_pos h, if_pos h, List.flatMap_singleton]
    rfl
  · rw [if_neg h, if_neg h]
    rfl

theorem rowStrings_tag : rowStrings (.tag name attrs children rest) =
    (if isRow name then cellStrings children else []) ++ rowStrings children
      ++ rowStrings rest := by
  rw [rowStrings, Nodes.findAll, List.flatMap_append, List.flatMap_append]
  by_cases h : isRow name = true
  · rw [if_pos h, if_pos h, List.flatMap_singleton]
    rfl
  · rw [if_neg h, if_neg h]
    rfl

theorem itemStrings_tag : itemStrings (.tag name attrs children rest) =
    (if isItem name then inlineStrings .addInline children else []) ++ itemStrings rest := by
  rw [itemStrings, Nodes.findChildren, List.flatMap_append]
  by_cases h : isItem name = true
  · rw [if_pos h, if_pos h, List.flatMap_singleton]
    rfl
  · rw [if_neg h, if_neg h]
    rfl

end Tag

theorem isRow_of_isCell {name : String} (h : isCell name = true) : isRow name = false := by
  rw [isCell, Bool.or_eq_true, decide_eq_true_eq, decide_eq_true_eq] at h
  rcases h with rfl | rfl <;> decide

/-! ### Two parts -/

/-- What is written out of two parts of a tree and what can be seen of them: if it is the same up to
the order, it is so for each part. -/
theorem solid_split_perm {l m a b c d : List NavigableString} (hnodup : (l ++ m).Nodup)
    (ha : a ⊆ l) (hb : b ⊆ m) (hc : c ⊆ l) (hd : d ⊆ m)
    (h : (solid (a ++ b)).Perm (solid (c ++ d))) :
    (solid a).Perm (solid c) ∧ (solid b).Perm (solid d) := by
  rw [solid_append, solid_append] at h
  exact append_perm_of_nodup hnodup (List.Subset.trans (solid_subset a) ha)
    (List.Subset.trans (solid_subset b) hb) (List.Subset.trans (solid_subset c) hc)
    (List.Subset.trans (solid_subset d) hd) h

theorem solid_split {l m a b c d : List NavigableString} (hnodup : (l ++ m).Nodup)
    (ha : a ⊆ l) (hb : b ⊆ m) (hc : c ⊆ l) (hd : d ⊆ m) (h : solid (a ++ b) = solid (c ++ d)) :
    solid a = solid c ∧ solid b = solid d := by
  have hlength := (solid_split_perm hnodup ha hb hc hd (.of_eq h)).1.length_eq
  rw [solid_append, solid_append] at h
  exact List.append_inj h hlength

theorem ite_subset (p : Bool) (s : NavigableString) : (if p then [s] else []) ⊆ [s] := by
  split_ifs
  · exact List.Subset.refl _
  · exact List.nil_subset _

/-- A string that is not written out, and what comes after it. -/
theorem right_of_perm {s : NavigableString} {rest : Nodes} {b : List NavigableString}
    (hnodup : (s :: rest.strings).Nodup) (hb : b ⊆ rest.strings)
    (h : (solid b).Perm (solid (Nodes.str s rest).visible)) :
    Right false s ∧ (solid b).Perm (solid rest.visible) := by
  rw [Nodes.visible_str] at h
  obtain ⟨hs, hrest⟩ := solid_split_perm (l := [s]) (a := if false then [s] else []) hnodup
    (ite_subset false s) hb (ite_subset _ s) rest.visible_sublist.subset h
  exact ⟨eq_of_solid_ite_perm hs, hrest⟩

theorem Right.solid_visible {s : NavigableString} (h : Right false s) (rest : Nodes) :
    solid (Nodes.str s rest).visible = solid rest.visible := by
  have hs := solid_ite_eq h
  rw [Nodes.visible_str, solid_append, ← hs]
  rfl

/-! ### Inline text -/

theorem silent_iff (ns : Nodes) : Silent ns ↔ solid ns.visible = [] := solid_eq_nil_iff.symm

/-- **Inline text** that is told is right. -/
theorem Told.solid_eq (h : Told r ns) : solid (inlineStrings r ns) = solid ns.visible := by
  induction ns generalizing r with
  | nil => rfl
  | str s rest ih =>
    rw [inlineStrings, Nodes.visible_str, solid_append, solid_append, ih h.2, solid_ite_eq h.1]
  | tag name attrs children rest ihc ihr =>
    rw [inlineStrings, Nodes.visible_tag, solid_append, solid_append, ihc h.1, ihr h.2]

theorem told_of_perm (hnodup : ns.strings.Nodup)
    (h : (solid (inlineStrings r ns)).Perm (solid ns.visible)) : Told r ns := by
  induction ns generalizing r with
  | nil => trivial
  | str s rest ih =>
    rw [inlineStrings, Nodes.visible_str] at h
    obtain ⟨hs, hrest⟩ := solid_split_perm (l := [s]) hnodup (ite_subset _ s)
      (inlineStrings_subset _ _) (ite_subset _ s) rest.visible_sublist.subset h
    exact ⟨eq_of_solid_ite_perm hs, ih (List.nodup_cons.mp hnodup).2 hrest⟩
  | tag name attrs children rest ihc ihr =>
    rw [inlineStrings, Nodes.visible_tag] at h
    obtain ⟨hchildren, hrest⟩ := solid_split_perm hnodup (inlineStrings_subset _ _)
      (inlineStrings_subset _ _) children.visible_sublist.subset rest.visible_sublist.subset h
    exact ⟨ihc hnodup.of_append_left hchildren, ihr hnodup.of_append_right hrest⟩

theorem mute_iff : Mute r ns ↔ solid (inlineStrings r ns) = [] := by
  induction ns generalizing r with
  | nil => exact iff_of_true trivial rfl
  | str s rest ih =>
    rw [Mute, inlineStrings, solid_append, List.append_eq_nil_iff, ih]
    refine and_congr_left fun _ => ?_
    rw [solid_eq_nil_iff]
    cases r.reads s <;> simp
  | tag name attrs children rest ihc ihr =>
    rw [Mute, inlineStrings, solid_append, List.append_eq_nil_iff, ihc, ihr]

/-! ### Tables -/

/-- Cells from which nothing is written out. -/
theorem cells_mute_iff : (∀ cell ∈ ns.findAll isCell, Mute .addInline cell.children) ↔
    solid (cellStrings ns) = [] := by
  rw [solid_eq_nil_iff, cellStrings]
  simp only [mute_iff, solid_eq_nil_iff, List.mem_flatMap]
  constructor
  · rintro h s ⟨cell, hcell, hs⟩
    exact h cell hcell s hs
  · exact fun h cell hcell s hs => h s ⟨cell, hcell, hs⟩

theorem solid_rowStrings_eq_nil (h : solid (cellStrings ns) = []) : solid (rowStrings ns) = [] :=
  solid_eq_nil_iff.mpr fun s hs => solid_eq_nil_iff.mp h s (rowStrings_subset_cellStrings ns hs)

theorem CellCovered.solid_eq (h : CellCovered ns) :
    solid (inlineStrings .addInline ns) = solid ns.visible ∧ solid (cellStrings ns) = [] :=
  ⟨h.1.solid_eq, cells_mute_iff.mp h.2⟩

/-- **The content of a row** that is covered is right, and nothing is in a row of it. -/
theorem RowCovered.solid_eq (h : RowCovered ns) :
    solid (cellStrings ns) = solid ns.visible ∧ solid (rowStrings ns) = [] := by
  induction ns with
  | nil => exact ⟨rfl, rfl⟩
  | str s rest ih =>
    obtain ⟨hcells, hrows⟩ := ih h.2
    exact ⟨hcells.trans (h.1.solid_visible rest).symm, hrows⟩
  | tag name attrs children rest ihc ihr =>
    obtain ⟨hchildren, hrest⟩ := h
    obtain ⟨hcells, hrows⟩ := ihr hrest
    rw [cellStrings_tag, rowStrings_tag, Nodes.visible_tag]
    simp only [solid_append]
    rw [hcells, hrows, List.append_nil, List.append_left_inj]
    by_cases hcell : isCell name = true
    · have hrow := isRow_of_isCell hcell
      rw [if_pos hcell] at hchildren
      obtain ⟨htold, hmute⟩ := hchildren.solid_eq
      simp [hcell, hrow, htold, hmute, solid_rowStrings_eq_nil hmute]
    · rw [if_neg hcell] at hchildren
      by_cases hrow : isRow name = true
      · rw [if_pos hrow] at hchildren
        have hmute := cells_mute_iff.mp hchildren.2
        have hsilent := (silent_iff _).mp hchildren.1
        simp [hcell, hrow, hsilent, hmute, solid_rowStrings_eq_nil hmute]
      · rw [if_neg hrow] at hchildren
        obtain ⟨htold, hmute⟩ := ihc hchildren
        simp [hcell, hrow, htold, hmute]

/-- **The content of a table** that is covered is right. -/
theorem TableCovered.solid_eq (h : TableCovered ns) :
    solid (rowStrings ns) = solid ns.visible := by
  induction ns with
  | nil => rfl
  | str s rest ih => exact (ih h.2).trans (h.1.solid_visible rest).symm
  | tag name attrs children rest ihc ihr =>
    obtain ⟨hchildren, hrest⟩ := h
    rw [rowStrings_tag, Nodes.visible_tag]
    simp only [solid_append]
    rw [ihr hrest, List.append_left_inj]
    by_cases hrow : isRow name = true
    · rw [if_pos hrow] at hchildren
      obtain ⟨htold, hmute⟩ := hchildren.solid_eq
      simp [hrow, htold, hmute]
    · rw [if_neg hrow] at hchildren
      simp [hrow, ihc hchildren]

/-- Outside a `sup`, what is in a cell is written out before its turn comes. -/
theorem cellStrings_subset_inlineStrings (hsup : OutsideSup ns) :
    cellStrings ns ⊆ inlineStrings .addInline ns := by
  induction ns with
  | nil => exact List.Subset.refl _
  | str s rest ih => exact List.Subset.trans (ih hsup) (List.subset_append_right ..)
  | tag name attrs children rest ihc ihr =>
    obtain ⟨hcells, hchildren, hrest⟩ := hsup
    rw [cellStrings_tag, inlineStrings, Reader.enter]
    refine List.append_subset.mpr
      ⟨?_, List.Subset.trans (ihr hrest) (List.subset_append_right ..)⟩
    refine List.Subset.trans ?_ (List.subset_append_left ..)
    by_cases hkind : inlineKind name = .sup
    · have hname : isCell name = false := by
        by_contra hcell
        rw [Bool.not_eq_false, isCell, Bool.or_eq_true, decide_eq_true_eq, decide_eq_true_eq]
          at hcell
        rcases hcell with rfl | rfl <;> simp [inlineKind] at hkind
      rw [hname, cellStrings, hcells hkind]
      exact List.nil_subset _
    · rw [if_neg hkind]
      refine List.append_subset.mpr ⟨?_, ihc hchildren⟩
      split_ifs
      · exact List.Subset.refl _
      · exact List.nil_subset _

theorem nodup_solid_visible (hnodup : ns.strings.Nodup) : (solid ns.visible).Nodup :=
  (hnodup.sublist ns.visible_sublist).sublist List.filter_sublist

/-- What is written out a second time is blank. -/
theorem solid_eq_nil_of_perm (hnodup : ns.strings.Nodup) {a b : List NavigableString} (hsub : b ⊆ a)
    (h : (solid (a ++ b)).Perm (solid ns.visible)) :
    solid b = [] ∧ (solid a).Perm (solid ns.visible) := by
  rw [solid_append] at h
  have hb : solid b = [] := by
    refine eq_nil_of_nodup_append (h.nodup_iff.mpr (nodup_solid_visible hnodup)) fun s hs => ?_
    obtain ⟨hs, hblank⟩ := mem_solid.mp hs
    exact mem_solid.mpr ⟨hsub hs, hblank⟩
  rw [hb, List.append_nil] at h
  exact ⟨hb, h⟩

theorem cellCovered_of_perm (hnodup : ns.strings.Nodup) (hsup : OutsideSup ns)
    (h : (solid (inlineStrings .addInline ns ++ cellStrings ns)).Perm (solid ns.visible)) :
    CellCovered ns := by
  obtain ⟨hcells, hinline⟩ := solid_eq_nil_of_perm hnodup (cellStrings_subset_inlineStrings hsup) h
  exact ⟨told_of_perm hnodup hinline, cells_mute_iff.mpr hcells⟩

theorem rowCovered_of_perm (hnodup : ns.strings.Nodup) (hsup : OutsideSup ns)
    (h : (solid (cellStrings ns)).Perm (solid ns.visible)) (hrows : solid (rowStrings ns) = []) :
    RowCovered ns := by
  induction ns with
  | nil => trivial
  | str s rest ih =>
    obtain ⟨hs, hrest⟩ := right_of_perm hnodup (cellStrings_subset rest) h
    exact ⟨hs, ih (List.nodup_cons.mp hnodup).2 hsup hrest hrows⟩
  | tag name attrs children rest ihc ihr =>
    obtain ⟨-, hsupc, hsupr⟩ := hsup
    have hc : children.strings.Nodup := hnodup.of_append_left
    rw [cellStrings_tag, Nodes.visible_tag] at h
    rw [rowStrings_tag, solid_append, solid_append, List.append_eq_nil_iff,
      List.append_eq_nil_iff] at hrows
    obtain ⟨⟨hrow', hrowc⟩, hrowr⟩ := hrows
    have hsub : (if isCell name then inlineStrings .addInline children else []) ++
        cellStrings children ⊆ children.strings := by
      refine List.append_subset.mpr ⟨?_, cellStrings_subset children⟩
      split_ifs
      · exact inlineStrings_subset _ _
      · exact List.nil_subset _
    obtain ⟨hchildren, hrest⟩ := solid_split_perm hnodup hsub (cellStrings_subset rest)
      children.visible_sublist.subset rest.visible_sublist.subset h
    refine ⟨?_, ihr hnodup.of_append_right hsupr hrest hrowr⟩
    by_cases hcell : isCell name = true
    · rw [if_pos hcell] at hchildren ⊢
      exact cellCovered_of_perm hc hsupc hchildren
    · rw [if_neg hcell] at hchildren ⊢
      by_cases hrow : isRow name = true
      · rw [if_pos hrow] at hrow' ⊢
        refine ⟨?_, cells_mute_iff.mpr hrow'⟩
        rw [List.nil_append, hrow'] at hchildren
        exact (silent_iff _).mpr (List.nil_perm.mp hchildren)
      · rw [if_neg hrow]
        exact ihc hc hsupc hchildren hrowc

theorem tableCovered_of_perm (hnodup : ns.strings.Nodup) (hsup : OutsideSup ns)
    (h : (solid (rowStrings ns)).Perm (solid ns.visible)) : TableCovered ns := by
  induction ns with
  | nil => trivial
  | str s rest ih =>
    obtain ⟨hs, hrest⟩ := right_of_perm hnodup (rowStrings_subset rest) h
    exact ⟨hs, ih (List.nodup_cons.mp hnodup).2 hsup hrest⟩
  | tag name attrs children rest ihc ihr =>
    obtain ⟨-, hsupc, hsupr⟩ := hsup
    have hc : children.strings.Nodup := hnodup.of_append_left
    rw [rowStrings_tag, Nodes.visible_tag] at h
    have hsub : (if isRow name then cellStrings children else []) ++ rowStrings children ⊆
        children.strings := by
      refine List.append_subset.mpr ⟨?_, rowStrings_subset children⟩
      split_ifs
      · exact cellStrings_subset _
      · exact List.nil_subset _
    obtain ⟨hchildren, hrest⟩ := solid_split_perm hnodup hsub (rowStrings_subset rest)
      children.visible_sublist.subset rest.visible_sublist.subset h
    refine ⟨?_, ihr hnodup.of_append_right hsupr hrest⟩
    by_cases hrow : isRow name = true
    · rw [if_pos hrow] at hchildren ⊢
      obtain ⟨hrows, hcells⟩ :=
        solid_eq_nil_of_perm hc (rowStrings_subset_cellStrings children) hchildren
      exact rowCovered_of_perm hc hsupc hcells hrows
    · rw [if_neg hrow] at hchildren ⊢
      exact ihc hc hsupc hchildren

/-! ### The places of cells -/

variable {cellAt : TableCell} {g : Grid}

theorem pieces_flatMap (h : grid cellAt ns = some g) :
    (pieces g.placed).flatMap Prod.snd = solid (rowStrings ns) := by
  have hcells : rowStrings ns = ((ns.findAll isRow).flatMap cells).flatMap fun cell =>
      inlineStrings .addInline cell.children := by
    rw [rowStrings, List.flatMap_assoc]
    rfl
  rw [hcells, ← grid_cells h, pieces, List.flatMap_map, List.flatMap_map, solid,
    List.filter_flatMap]
  rfl

theorem ascending_pieces_iff {placed : List PlacedCell} : Ascending (pieces placed) ↔
    placed.Pairwise fun p q =>
      Mute .addInline p.cell.children ∨ Mute .addInline q.cell.children ∨ p.number ≤ q.number := by
  rw [Ascending, pieces, List.pairwise_map]
  simp only [mute_iff]

theorem pieces_lt (h : grid cellAt ns = some g) :
    ∀ piece ∈ pieces g.placed, piece.1 < g.rows * g.cols := by
  intro piece hpiece
  obtain ⟨p, hp, rfl⟩ := List.mem_map.mp hpiece
  exact grid_lt h p hp

/-- In their places, the cells have the text that is written out. -/
theorem InOrder.solid_eq (h : InOrder cellAt ns) :
    solid (tableStrings cellAt ns) = solid (rowStrings ns) := by
  obtain ⟨g, hg, horder⟩ := h
  rw [solid_tableStrings hg, ← pieces_flatMap hg]
  exact flatten_inPlaces (pieces_lt hg) (ascending_pieces_iff.mpr horder)

/-- **The content of a table**, in its places. -/
theorem table_covered_of_eq (hg : grid cellAt ns = some g) (hnodup : ns.strings.Nodup)
    (hsup : OutsideSup ns) (h : solid (tableStrings cellAt ns) = solid ns.visible) :
    TableCovered ns ∧ InOrder cellAt ns := by
  have hplaces : (solid (tableStrings cellAt ns)).Perm (solid (rowStrings ns)) := by
    rw [solid_tableStrings hg, ← pieces_flatMap hg]
    exact flatten_inPlaces_perm (pieces_lt hg)
  have hcovered := tableCovered_of_perm hnodup hsup (hplaces.symm.trans (.of_eq h))
  have hrows := hcovered.solid_eq
  refine ⟨hcovered, g, hg, ascending_pieces_iff.mp ?_⟩
  refine pairwise_of_flatten_inPlaces (pieces_lt hg) ?_ ?_
  · rw [pieces_flatMap hg, hrows]
    exact nodup_solid_visible hnodup
  · rw [pieces_flatMap hg, hrows, ← solid_tableStrings hg, h]

theorem pairwise_zipIdx {α : Type} (as : List α) : as.zipIdx.Pairwise fun a b => a.2 < b.2 := by
  have hrange : (as.zipIdx.map Prod.snd).Pairwise (· < ·) := by
    rw [List.zipIdx_map_snd]
    exact List.pairwise_lt_range'
  exact List.pairwise_map.mp hrange

/-- The cells of rows with at most so many cells. -/
theorem enumerateCells_lt {trs : List Tag} {cols : ℕ} (hle : ∀ tr ∈ trs, (cells tr).length ≤ cols) :
    ∀ x ∈ enumerateCells trs, x.1 < trs.length ∧ x.2.1 < cols := by
  intro x hx
  obtain ⟨tr, htr, hx⟩ := List.mem_flatMap.mp hx
  obtain ⟨cell, hcell, rfl⟩ := List.mem_map.mp hx
  have hr := List.snd_lt_of_mem_zipIdx htr
  have hc := List.snd_lt_of_mem_zipIdx hcell
  exact ⟨hr, Nat.lt_of_lt_of_le hc (hle _ (List.fst_mem_of_mem_zipIdx htr))⟩

theorem enumerateCells_pairwise (trs : List Tag) :
    (enumerateCells trs).Pairwise fun x y => x.1 < y.1 ∨ x.1 = y.1 ∧ x.2.1 < y.2.1 := by
  refine List.pairwise_flatMap.mpr ⟨fun tr _ => ?_, (pairwise_zipIdx trs).imp fun hlt => ?_⟩
  · rw [List.pairwise_map]
    exact (pairwise_zipIdx (cells tr.1)).imp fun hlt => Or.inr ⟨rfl, hlt⟩
  · intro x hx y hy
    obtain ⟨cell, -, rfl⟩ := List.mem_map.mp hx
    obtain ⟨cell', -, rfl⟩ := List.mem_map.mp hy
    exact Or.inl hlt

/-- Where no row has more cells than the first, the cells are in order. -/
theorem inOrder_of_le {first : Tag} {rest : List Tag} (hrows : ns.findAll isRow = first :: rest)
    (hcells : ∀ tr ∈ rest, (cells tr).length ≤ (cells first).length) : InOrder cellAt ns := by
  let trs := first :: rest
  let cols := (cells first).length
  have hlt : ∀ x ∈ enumerateCells trs, x.1 < trs.length ∧ x.2.1 < cols :=
    enumerateCells_lt (List.forall_mem_cons.mpr ⟨Nat.le_refl _, hcells⟩)
  have hfind : ∀ x ∈ enumerateCells trs,
      cellAt.find trs.length cols x.1 x.2.1 = some (x.1 * cols + x.2.1) := fun x hx =>
    cellAt.inside (hlt x hx).1 (hlt x hx).2
  have hplaced : (enumerateCells trs).mapM (fun x =>
      (cellAt.find trs.length cols x.1 x.2.1).map fun number => PlacedCell.mk number x.1 x.2.2) =
      some ((enumerateCells trs).map fun x => ⟨x.1 * cols + x.2.1, x.1, x.2.2⟩) :=
    mapM_eq_map fun x hx => by rw [hfind x hx, Option.map_some]
  refine ⟨⟨trs.length, cols, (enumerateCells trs).map fun x => ⟨x.1 * cols + x.2.1, x.1, x.2.2⟩⟩,
    ?_, ?_⟩
  · rw [grid, hrows]
    show ((enumerateCells trs).mapM _ : Option (List PlacedCell)).bind _ = _
    rw [hplaced]
    rfl
  · rw [List.pairwise_map]
    refine (enumerateCells_pairwise trs).imp_of_mem fun {x y} hx hy hxy => Or.inr (Or.inr ?_)
    show x.1 * cols + x.2.1 ≤ y.1 * cols + y.2.1
    rcases hxy with hrow | ⟨hrow, hcol⟩
    · -- a later row begins after the end of an earlier one
      have hstep : (x.1 + 1) * cols ≤ y.1 * cols := Nat.mul_le_mul_right _ hrow
      rw [Nat.add_mul, Nat.one_mul] at hstep
      have hcol := (hlt x hx).2
      omega
    · rw [hrow]
      omega

/-! ### The other blocks -/

/-- **The content of a list.** -/
theorem ListCovered.solid_eq (h : ListCovered ns) :
    solid (itemStrings ns) = solid ns.visible := by
  induction ns with
  | nil => rfl
  | str s rest ih => exact (ih h.2).trans (h.1.solid_visible rest).symm
  | tag name attrs children rest ihc ihr =>
    obtain ⟨hchildren, hrest⟩ := h
    rw [itemStrings_tag, Nodes.visible_tag, solid_append, solid_append, ihr hrest]
    by_cases hitem : isItem name = true
    · rw [if_pos hitem] at hchildren
      rw [if_pos hitem, hchildren.solid_eq]
    · rw [if_neg hitem] at hchildren
      rw [if_neg hitem, (silent_iff _).mp hchildren]
      rfl

theorem listCovered_of_perm (hnodup : ns.strings.Nodup)
    (h : (solid (itemStrings ns)).Perm (solid ns.visible)) : ListCovered ns := by
  induction ns with
  | nil => trivial
  | str s rest ih =>
    obtain ⟨hs, hrest⟩ := right_of_perm hnodup (itemStrings_subset rest) h
    exact ⟨hs, ih (List.nodup_cons.mp hnodup).2 hrest⟩
  | tag name attrs children rest ihc ihr =>
    rw [itemStrings_tag, Nodes.visible_tag] at h
    have hsub : (if isItem name then inlineStrings .addInline children else []) ⊆
        children.strings := by
      split_ifs
      · exact inlineStrings_subset _ _
      · exact List.nil_subset _
    obtain ⟨hchildren, hrest⟩ := solid_split_perm hnodup hsub (itemStrings_subset rest)
      children.visible_sublist.subset rest.visible_sublist.subset h
    refine ⟨?_, ihr hnodup.of_append_right hrest⟩
    by_cases hitem : isItem name = true
    · rw [if_pos hitem] at hchildren ⊢
      exact told_of_perm hnodup.of_append_left hchildren
    · rw [if_neg hitem] at hchildren ⊢
      exact (silent_iff _).mpr (List.nil_perm.mp hchildren)

/-- The caption has all the text of its figure. -/
theorem caption_solid_eq (hformed : FormedFigure ns)
    (h : ∀ cap ∈ ns.find isFigcaption, Told .addInline cap.children) :
    solid (captionStrings ns) = solid ns.visible := by
  obtain ⟨-, cap, hcap, htext⟩ := hformed
  rw [captionStrings, hcap, htext]
  exact (h cap hcap).solid_eq

theorem caption_of_perm (hnodup : ns.strings.Nodup) (hformed : FormedFigure ns)
    (h : (solid (captionStrings ns)).Perm (solid ns.visible)) :
    ∀ cap ∈ ns.find isFigcaption, Told .addInline cap.children := by
  obtain ⟨-, cap, hcap, htext⟩ := hformed
  rw [captionStrings, hcap, htext] at h
  intro cap' hcap'
  obtain rfl : cap = cap' := Option.some.inj (hcap.symm.trans hcap')
  have hfound := Nodes.mem_findAll_of_find hcap
  exact told_of_perm (hnodup.sublist (Nodes.strings_sublist_of_mem_findAll hfound)) h

/-! ### The document -/

theorem tableStrings_subset (cellAt : TableCell) (ns : Nodes) :
    tableStrings cellAt ns ⊆ ns.strings := by
  rw [tableStrings]
  cases hg : grid cellAt ns with
  | none => exact List.nil_subset _
  | some g =>
    intro s hs
    obtain ⟨places, hplaces, hs⟩ := List.mem_flatten.mp hs
    obtain ⟨k, -, rfl⟩ := List.mem_map.mp hplaces
    obtain ⟨piece, hpiece, -, hs⟩ := mem_place.mp hs
    obtain ⟨p, hp, rfl⟩ := List.mem_map.mp hpiece
    obtain ⟨tr, htr, hcell⟩ := mem_cells_of_placed hg hp
    have hrow := (Nodes.strings_sublist_of_mem_findAll htr).subset
    have hcell := (Nodes.strings_sublist_of_mem_findAll hcell).subset
    exact hrow (hcell (inlineStrings_subset _ _ hs))

theorem blockStrings_subset (cellAt : TableCell) (ns : Nodes) :
    blockStrings cellAt ns ⊆ ns.strings := by
  induction ns with
  | nil => exact List.Subset.refl _
  | str s rest ih => exact List.Subset.trans ih (List.subset_cons_self ..)
  | tag name attrs children rest ihc ihr =>
    rw [blockStrings, Nodes.strings]
    refine List.append_subset.mpr ⟨?_, List.Subset.trans ihr (List.subset_append_right ..)⟩
    refine List.Subset.trans ?_ (List.subset_append_left ..)
    cases blockKind name with
    | heading style => exact inlineStrings_subset _ _
    | pre => exact inlineStrings_subset _ _
    | paragraph => exact inlineStrings_subset _ _
    | list style => exact itemStrings_subset children
    | figure => exact captionStrings_subset children
    | table => exact tableStrings_subset cellAt children
    | div => exact ihc
    | other => exact List.nil_subset _

/-- A covered tree has a document. -/
theorem Covered.exists_doc (h : Covered cellAt ns) (hformed : Formed ns) :
    ∃ doc, handle cellAt ns = some doc := by
  induction ns with
  | nil => exact ⟨[], rfl⟩
  | str s rest ih => exact ih h.2 hformed
  | tag name attrs children rest ihc ihr =>
    obtain ⟨hblock, hrest⟩ := h
    obtain ⟨hformedc, hformedr⟩ := hformed
    obtain ⟨doc, hdoc⟩ := ihr hrest hformedr
    have htag : ∃ blocks, handleTag cellAt name attrs children (handle cellAt children)
        = some blocks := by
      rw [handleTag]
      cases hkind : blockKind name with
      | heading style | paragraph | list style | pre | other => exact ⟨_, rfl⟩
      | figure =>
        rw [hkind] at hformedc
        exact figure_isSome hformedc
      | table =>
        rw [hkind] at hblock
        obtain ⟨-, g, hg, -⟩ := hblock
        rw [table, hg]
        exact ⟨_, rfl⟩
      | div =>
        rw [hkind] at hblock hformedc
        exact ihc hblock hformedc
    obtain ⟨blocks, hblocks⟩ := htag
    rw [handle, hblocks, hdoc]
    exact ⟨_, rfl⟩

/-- **What is written out for a covered tree** is what can be seen. -/
theorem Covered.solid_eq (h : Covered cellAt ns) (hformed : Formed ns) :
    solid (blockStrings cellAt ns) = solid ns.visible := by
  induction ns with
  | nil => rfl
  | str s rest ih => exact (ih h.2 hformed).trans (h.1.solid_visible rest).symm
  | tag name attrs children rest ihc ihr =>
    obtain ⟨hblock, hrest⟩ := h
    obtain ⟨hformedc, hformedr⟩ := hformed
    rw [blockStrings, Nodes.visible_tag, solid_append, solid_append, ihr hrest hformedr]
    congr 1
    cases hkind : blockKind name with
    | heading style | pre | paragraph =>
      rw [hkind] at hblock
      exact Told.solid_eq hblock
    | list style =>
      rw [hkind] at hblock
      exact ListCovered.solid_eq hblock
    | figure =>
      rw [hkind] at hblock hformedc
      exact caption_solid_eq hformedc hblock
    | table =>
      rw [hkind] at hblock
      exact hblock.2.solid_eq.trans hblock.1.solid_eq
    | div =>
      rw [hkind] at hblock hformedc
      exact ihc hblock hformedc
    | other =>
      rw [hkind] at hblock
      exact ((silent_iff _).mp hblock).symm

/-- **A tree for which it is** is covered, if no cell is below a `sup`. -/
theorem covered_of_eq {doc : List Block} (hdoc : handle cellAt ns = some doc)
    (hnodup : ns.strings.Nodup) (hformed : Formed ns) (hsup : OutsideSup ns)
    (h : solid (blockStrings cellAt ns) = solid ns.visible) : Covered cellAt ns := by
  induction ns generalizing doc with
  | nil => trivial
  | str s rest ih =>
    have hsub := blockStrings_subset cellAt rest
    rw [Nodes.visible_str] at h
    obtain ⟨hs, hrest⟩ := solid_split (l := [s]) (a := if false then [s] else []) hnodup
      (ite_subset false s) hsub (ite_subset _ s) rest.visible_sublist.subset h
    exact ⟨eq_of_solid_ite_perm (.of_eq hs),
      ih hdoc (List.nodup_cons.mp hnodup).2 hformed hsup hrest⟩
  | tag name attrs children rest ihc ihr =>
    obtain ⟨blocks, doc', hblocks, hdoc', -⟩ := handle_tag_eq_some hdoc
    obtain ⟨hformedc, hformedr⟩ := hformed
    obtain ⟨-, hsupc, hsupr⟩ := hsup
    have hc : children.strings.Nodup := hnodup.of_append_left
    have hall := blockStrings_subset cellAt (.tag name attrs children .nil)
    rw [blockStrings, blockStrings, List.append_nil, Nodes.strings, Nodes.strings,
      List.append_nil] at hall
    rw [blockStrings, Nodes.visible_tag] at h
    obtain ⟨hblock, hrest⟩ := solid_split hnodup hall (blockStrings_subset cellAt rest)
      children.visible_sublist.subset rest.visible_sublist.subset h
    refine ⟨?_, ihr hdoc' hnodup.of_append_right hformedr hsupr hrest⟩
    rw [handleTag] at hblocks
    cases hkind : blockKind name with
    | heading style | pre | paragraph =>
      rw [hkind] at hblock
      exact told_of_perm hc (.of_eq hblock)
    | list style =>
      rw [hkind] at hblock
      exact listCovered_of_perm hc (.of_eq hblock)
    | figure =>
      rw [hkind] at hblock hformedc
      exact caption_of_perm hc hformedc (.of_eq hblock)
    | table =>
      rw [hkind] at hblock hblocks
      obtain ⟨g, hg, -⟩ := Option.bind_eq_some_iff.mp hblocks
      exact table_covered_of_eq hg hc hsupc hblock
    | div =>
      rw [hkind] at hblock hformedc hblocks
      exact ihc hblocks hc hformedc hsupc hblock
    | other =>
      rw [hkind] at hblock
      exact (silent_iff _).mpr hblock.symm

/-- Cells beyond a row are looked for in the next ones. -/
def flatCell : TableCell where
  find := fun rows cols r c => if r * cols + c < rows * cols then some (r * cols + c) else none
  lt := by
    intro rows cols r c k h
    rw [Option.ite_none_right_eq_some] at h
    exact Option.some.inj h.2 ▸ h.1
  inside := by
    intro rows cols r c hr hc
    have hstep : (r + 1) * cols ≤ rows * cols := Nat.mul_le_mul_right _ hr
    rw [Nat.add_mul, Nat.one_mul] at hstep
    exact if_pos (by omega)

/-- A string. -/
def text (id : ℕ) (t : String) : NavigableString := ⟨id, false, true, t.toList⟩

/-- A comment. -/
def comment (id : ℕ) (t : String) : NavigableString := ⟨id, true, false, t.toList⟩

/-- A string in an `rt`. -/
def ruby (id : ℕ) (t : String) : NavigableString := ⟨id, false, false, t.toList⟩

/-- A tag without attributes. -/
def el (name : String) (children rest : Nodes) : Nodes := .tag name ⟨[], none⟩ children rest

/-- A paragraph with a superscript, a figure, and a table of two rows. -/
def reportSoup : Nodes :=
  el "p" (.str (text 0 "10") (el "sup" (.str (text 1 "9") .nil) .nil)) <|
  .str (text 2 "\n") <|
  el "figure" (.tag "img" ⟨[], some "figures/path.png"⟩ .nil
    (el "figcaption" (.str (text 3 "Path") .nil) .nil)) <|
  el "table" (el "tr" (el "th" (.str (text 4 "Load") .nil) .nil)
    (el "tr" (el "td" (.str (text 5 "idle") .nil) .nil) .nil)) .nil

theorem wellFormed_reportSoup : WellFormed reportSoup where
  distinct := by decide
  void := by simp [Void, reportSoup, el, inlineKind]
  formed := ⟨trivial, ⟨⟨_, _, rfl, rfl⟩, _, rfl, by decide⟩, trivial, trivial⟩

theorem covered_reportSoup : Covered flatCell reportSoup := by
  refine ⟨?_, Or.inl (by decide), ?_, ⟨?_, ?_⟩, trivial⟩
  · show Told _ _
    simp [Told, Right, Reader.enter, Reader.reads, el, text, inlineKind]
  · intro cap hcap
    obtain rfl := Option.some.inj hcap
    simp [Told, Right, Reader.reads, text]
  · simp [TableCovered, RowCovered, CellCovered, Told, Right, Reader.reads, el, isRow, isCell, text,
      Nodes.findAll]
  · exact inOrder_of_le rfl (by decide)

/-- `Late <!-- why? --> trials.`, a paragraph with a comment. -/
def commentSoup : Nodes :=
  el "p" (.str (text 0 "Late ") (.str (comment 1 " why? ") (.str (text 2 " trials.") .nil)))
    (.str (text 3 "\n") .nil)

/-- `> Late trials.`, a block quotation. -/
def quoteSoup : Nodes :=
  el "blockquote" (.str (text 0 "\n") (el "p" (.str (text 1 "Late trials.") .nil)
    (.str (text 2 "\n") .nil))) (.str (text 3 "\n") .nil)

theorem wellFormed_commentSoup : WellFormed commentSoup where
  distinct := by decide
  void := by simp [Void, commentSoup, el, inlineKind]
  formed := ⟨trivial, trivial⟩

theorem wellFormed_quoteSoup : WellFormed quoteSoup where
  distinct := by decide
  void := by simp [Void, quoteSoup, el, inlineKind]
  formed := ⟨trivial, trivial⟩

/-- A heading with a ruby annotation, which `get_text` leaves out. -/
def rubySoup : Nodes :=
  el "h2" (el "ruby" (.str (text 0 "A") (el "rt" (.str (ruby 1 "kan") .nil) .nil)) .nil) .nil

example : (buildDocx flatCell rubySoup).map docText = some "A".toList ∧
    rubySoup.visibleText = "Akan".toList := by decide

/-- A table in the cell of a table. -/
def nestedSoup : Nodes :=
  el "table" (el "tr" (el "td" (el "table" (el "tr" (el "td" (.str (text 0 "A") .nil) .nil) .nil)
    .nil) .nil) .nil) .nil

example : (buildDocx flatCell nestedSoup).map docText = some "AAA".toList := by decide

end Docx

end HrtimerStudy
