import HrtimerStudy.Report.Docx
import Mathlib.Data.List.TakeWhile

/-!
# What the document writes out

Every run of the document has the text of some strings of the tree, up to white space. So the
document as a whole writes out a list of strings, in some order and some of them perhaps more than
once. It is found here, part by part, without the formats and without the document.

## Main definitions

* `Writes` — some runs write out some strings
* `Reader` — the two ways in which strings are read
* `inlineStrings`, `cellStrings`, `tableStrings`, `itemStrings`, `captionStrings`, `blockStrings` —
  what the parts of `build_docx` write out
* `Formed`, `WellFormed` — the trees the report may be

## Main results

* `Writes.text` — the text of the runs is that of the strings
* `handle_writes` — a document writes out `blockStrings`
-/

namespace HrtimerStudy

namespace Docx

/-! ### White space in runs -/

theorem squash_eq_nil_of_forall {t : Text} (h : ∀ c ∈ t, isSpace c = true) : squash t = [] := by
  rw [squash, List.filter_eq_nil_iff]
  intro c hc
  simp [h c hc]

theorem isSpace_newline : isSpace '\n' = true := by decide

theorem squash_oneLine (t : Text) : squash (oneLine t) = squash t := by
  induction t with
  | nil => rfl
  | cons c t ih =>
    have hcons : oneLine (c :: t) = [if c = '\n' then ' ' else c] ++ oneLine t := rfl
    have hchar : squash [if c = '\n' then ' ' else c] = squash [c] := by
      by_cases hc : c = '\n'
      · rw [if_pos hc, hc]
        decide
      · rw [if_neg hc]
    rw [hcons, squash_append, hchar, ih, ← squash_append, List.singleton_append]

theorem squash_rstripNewlines (t : Text) : squash (rstripNewlines t) = squash t := by
  have hsplit : t = rstripNewlines t ++ (t.reverse.takeWhile fun c => c = '\n').reverse := by
    rw [rstripNewlines, ← List.reverse_append, List.takeWhile_append_dropWhile,
      List.reverse_reverse]
  have hnil : squash (t.reverse.takeWhile fun c => c = '\n').reverse = [] := by
    refine squash_eq_nil_of_forall fun c hc => ?_
    have hc' : c = '\n' := by simpa using List.mem_takeWhile_imp (List.mem_reverse.mp hc)
    rw [hc']
    exact isSpace_newline
  conv_rhs => rw [hsplit, squash_append, hnil, List.append_nil]

/-! ### Runs and their strings -/

/-- A run has the text of its strings, up to white space. -/
def Run.Honest (run : Run) : Prop :=
  squash run.text = squash (run.source.flatMap NavigableString.text)

/-- The runs write out these strings, up to white space. -/
structure Writes (runs : List Run) (l : List NavigableString) : Prop where
  honest : ∀ run ∈ runs, run.Honest
  source : solid (runs.flatMap Run.source) = solid l

theorem writes_nil : Writes [] [] where
  honest := fun _ h => by cases h
  source := rfl

theorem Writes.append {runs runs' : List Run} {l l' : List NavigableString} (h : Writes runs l)
    (h' : Writes runs' l') : Writes (runs ++ runs') (l ++ l') where
  honest := List.forall_mem_append.mpr ⟨h.honest, h'.honest⟩
  source := by rw [List.flatMap_append, solid_append, solid_append, h.source, h'.source]

theorem writes_flatMap {α : Type} {f : α → List Run} {g : α → List NavigableString} {as : List α}
    (h : ∀ a ∈ as, Writes (f a) (g a)) : Writes (as.flatMap f) (as.flatMap g) := by
  induction as with
  | nil => exact writes_nil
  | cons a as ih =>
    obtain ⟨ha, has⟩ := List.forall_mem_cons.mp h
    exact ha.append (ih has)

theorem writes_singleton {run : Run} (h : run.Honest) : Writes [run] run.source where
  honest := by simpa using h
  source := by simp

/-- Formats do not matter. -/
theorem Writes.map {runs : List Run} {l : List NavigableString} (h : Writes runs l)
    {f : Run → Run} (hf : ∀ run, (f run).text = run.text ∧ (f run).source = run.source) :
    Writes (runs.map f) l where
  honest := by
    intro run hrun
    obtain ⟨run', hrun', rfl⟩ := List.mem_map.mp hrun
    rw [Run.Honest, (hf run').1, (hf run').2]
    exact h.honest run' hrun'
  source := by
    rw [List.flatMap_map, ← h.source]
    exact congrArg solid (List.flatMap_congr fun run _ => (hf run).2)

/-- The text that comes out is that of the strings. -/
theorem Writes.text {runs : List Run} {l : List NavigableString} (h : Writes runs l) :
    squash (runs.flatMap Run.text) = squash (l.flatMap NavigableString.text) := by
  rw [← squash_flatMap_text l, ← h.source, squash_flatMap_text, squash_flatMap, List.flatMap_assoc,
    squash_flatMap]
  exact List.flatMap_congr h.honest

/-! ### What is written out -/

/-- `add_inline` reads every string, and calls `get_text` for a `sup`. -/
inductive Reader
  | addInline
  | getText

def Reader.reads : Reader → NavigableString → Bool
  | .addInline, _ => true
  | .getText, s => s.interesting

/-- Who reads the children of a tag. -/
def Reader.enter (r : Reader) (name : String) : Reader :=
  if inlineKind name = .sup then .getText else r

/-- What a reader writes out. -/
def inlineStrings (r : Reader) : Nodes → List NavigableString
  | .nil => []
  | .str s rest => (if r.reads s then [s] else []) ++ inlineStrings r rest
  | .tag name _ children rest => inlineStrings (r.enter name) children ++ inlineStrings r rest

/-- What is written out for the cells of a row. -/
def cellStrings (ns : Nodes) : List NavigableString :=
  (ns.findAll isCell).flatMap fun cell => inlineStrings .addInline cell.children

/-- What is written out for a table: the strings of its cells, in their places. -/
def tableStrings (cellAt : TableCell) (ns : Nodes) : List NavigableString :=
  (grid cellAt ns).elim [] fun g => (inPlaces (g.rows * g.cols)
    (g.placed.map fun p => (p.number, inlineStrings .addInline p.cell.children))).flatten

/-- What is written out for a list. -/
def itemStrings (ns : Nodes) : List NavigableString :=
  (ns.findChildren isItem).flatMap fun li => inlineStrings .addInline li.children

/-- What is written out for a figure. -/
def captionStrings (ns : Nodes) : List NavigableString :=
  (ns.find isFigcaption).elim [] fun cap => inlineStrings .addInline cap.children

/-- What `handle` writes out. -/
def blockStrings (cellAt : TableCell) : Nodes → List NavigableString
  | .nil => []
  | .str _ rest => blockStrings cellAt rest
  | .tag name _ children rest =>
    (match blockKind name with
      | .heading _ | .pre => inlineStrings .getText children
      | .paragraph => inlineStrings .addInline children
      | .list _ => itemStrings children
      | .figure => captionStrings children
      | .table => tableStrings cellAt children
      | .div => blockStrings cellAt children
      | .other => []) ++ blockStrings cellAt rest

/-- `get_text` does not care about tags. -/
theorem inlineStrings_getText (ns : Nodes) : inlineStrings .getText ns = ns.collected := by
  induction ns with
  | nil => rfl
  | str s rest ih => rw [inlineStrings, Nodes.collected_str, ih, Reader.reads]
  | tag name attrs children rest ihc ihr =>
    have henter : Reader.enter .getText name = .getText := ite_self _
    rw [inlineStrings, Nodes.collected_tag, henter, ihc, ihr]

/-! ### Well-formed trees -/

/-- A figure has a picture with a source, and a caption with all its text. -/
def FormedFigure (children : Nodes) : Prop :=
  (∃ img src, children.find isImg = some img ∧ img.attrs.src = some src) ∧
    ∃ cap, children.find isFigcaption = some cap ∧
      solid children.visible = solid cap.children.visible

/-- The figures that `handle` comes to are well-formed. -/
def Formed : Nodes → Prop
  | .nil => True
  | .str _ rest => Formed rest
  | .tag name _ children rest =>
    (match blockKind name with
      | .figure => FormedFigure children
      | .div => Formed children
      | .heading _ | .paragraph | .list _ | .pre | .table | .other => True) ∧ Formed rest

/-- A `br` has no content. -/
def Void : Nodes → Prop
  | .nil => True
  | .str _ rest => Void rest
  | .tag name _ children rest =>
    (inlineKind name = .br → children = .nil) ∧ Void children ∧ Void rest

/-- The trees of reports. -/
structure WellFormed (soup : Nodes) : Prop where
  distinct : soup.strings.Nodup
  void : Void soup
  formed : Formed soup

theorem void_of_mem_findAll {p : String → Bool} {ns : Nodes} {t : Tag} (h : Void ns)
    (ht : t ∈ ns.findAll p) : Void t.children := by
  induction ns with
  | nil => cases ht
  | str s rest ih => exact ih h ht
  | tag name attrs children rest ihc ihr =>
    obtain ⟨-, hchildren, hrest⟩ := h
    rw [Nodes.findAll, List.mem_append, List.mem_append] at ht
    rcases ht with (ht | ht) | ht
    · split_ifs at ht
      · obtain rfl := List.mem_singleton.mp ht
        exact hchildren
      · cases ht
    · exact ihc hchildren ht
    · exact ihr hrest ht

/-! ### The document writes it out -/

theorem writes_stringRun (bold italic code : Bool) (size : Option ℕ) (s : NavigableString) :
    Writes (stringRun bold italic code size s) [s] := by
  rw [stringRun]
  by_cases hempty : oneLine s.text = []
  · rw [if_pos hempty]
    refine ⟨fun _ h => (List.not_mem_nil h).elim, ?_⟩
    have htext : s.text = [] := List.map_eq_nil_iff.mp hempty
    rw [List.flatMap_nil, solid_nil, eq_comm, solid_eq_nil_iff]
    simp [NavigableString.blank, htext]
  · rw [if_neg hempty]
    refine writes_singleton ?_
    rw [Run.Honest]
    simpa using squash_oneLine s.text

theorem writes_addInline (bold italic code : Bool) (size : Option ℕ) {ns : Nodes} (h : Void ns) :
    Writes (addInline bold italic code size ns) (inlineStrings .addInline ns) := by
  induction ns generalizing bold italic code size with
  | nil => exact writes_nil
  | str s rest ih => exact (writes_stringRun bold italic code size s).append (ih _ _ _ _ h)
  | tag name attrs children rest ihc ihr =>
    obtain ⟨hbr, hchildren, hrest⟩ := h
    refine Writes.append ?_ (ihr _ _ _ _ hrest)
    rw [Reader.enter]
    cases hkind : inlineKind name with
    | strong | em | code | other => exact ihc _ _ _ _ hchildren
    | sup =>
      rw [if_pos rfl, inlineStrings_getText]
      exact writes_singleton rfl
    | br =>
      rw [hbr hkind]
      have hbreak : (plainRun ['\n'] []).Honest := by
        rw [Run.Honest]
        exact squash_eq_nil_of_forall (by simp [plainRun, isSpace_newline])
      exact writes_singleton hbreak

theorem writes_heading (style : String) (children : Nodes) :
    Writes (heading style children).runs (inlineStrings .getText children) := by
  rw [heading, Block.runs, inlineStrings_getText]
  by_cases hempty : children.getText = []
  · rw [if_pos hempty]
    refine ⟨fun _ h => (List.not_mem_nil h).elim, ?_⟩
    rw [List.flatMap_nil, solid_nil, eq_comm, solid_eq_nil_iff]
    intro s hs
    have htext : s.text = [] := List.flatMap_eq_nil_iff.mp hempty s hs
    simp [NavigableString.blank, htext]
  · rw [if_neg hempty]
    exact writes_singleton rfl

theorem writes_preformatted (children : Nodes) :
    Writes (preformatted children).runs (inlineStrings .getText children) := by
  rw [inlineStrings_getText]
  exact writes_singleton (squash_rstripNewlines children.getText)

theorem writes_listItems (style : String) {children : Nodes} (h : Void children) :
    Writes (docRuns (listItems style children)) (itemStrings children) := by
  rw [docRuns, listItems, List.flatMap_map]
  refine writes_flatMap fun li hli => writes_addInline _ _ _ _ ?_
  exact void_of_mem_findAll h (Nodes.mem_findAll_of_mem_findChildren hli)

theorem docRuns_singleton (block : Block) : docRuns [block] = block.runs :=
  List.flatMap_singleton ..

theorem writes_figure {children : Nodes} {blocks : List Block} (h : Void children)
    (hblocks : figure children = some blocks) :
    Writes (docRuns blocks) (captionStrings children) := by
  simp only [figure, Option.bind_eq_bind, Option.bind_eq_some_iff] at hblocks
  obtain ⟨img, -, src, -, cap, hcap, hblocks⟩ := hblocks
  obtain rfl := Option.some.inj hblocks
  rw [captionStrings, hcap]
  show Writes (docRuns [.paragraph "Normal" _]) (inlineStrings .addInline cap.children)
  rw [docRuns_singleton]
  exact writes_addInline _ _ _ _ (void_of_mem_findAll h (Nodes.mem_findAll_of_find hcap))

/-- A well-formed figure is written. -/
theorem figure_isSome {children : Nodes} (h : FormedFigure children) :
    ∃ blocks, figure children = some blocks := by
  obtain ⟨⟨img, src, himg, hsrc⟩, cap, hcap, -⟩ := h
  refine ⟨[.picture src, .paragraph "Normal" (addInline false false false (some 90) cap.children)],
    ?_⟩
  rw [figure, himg, hcap]
  simp only [Option.bind_eq_bind, Option.bind_some, hsrc]
  rfl

/-! ### Tables -/

/-- What a loop that may raise an exception makes of a list. -/
theorem forall₂_of_mapM {α β : Type} {f : α → Option β} {as : List α} {bs : List β}
    (h : as.mapM f = some bs) : List.Forall₂ (fun a b => f a = some b) as bs := by
  induction as generalizing bs with
  | nil =>
    obtain rfl := Option.some.inj h
    exact List.Forall₂.nil
  | cons a as ih =>
    simp only [List.mapM_cons, Option.bind_eq_bind, Option.bind_eq_some_iff] at h
    obtain ⟨b, hb, cs, hcs, hbs⟩ := h
    obtain rfl := Option.some.inj hbs
    exact List.Forall₂.cons hb (ih hcs)

theorem mapM_eq_map {α β : Type} {f : α → Option β} {g : α → β} {as : List α}
    (h : ∀ a ∈ as, f a = some (g a)) : as.mapM f = some (as.map g) := by
  induction as with
  | nil => rfl
  | cons a as ih =>
    obtain ⟨hfirst, hrest⟩ := List.forall_mem_cons.mp h
    rw [List.mapM_cons, hfirst, ih hrest]
    rfl

theorem forall_of_forall₂ {α β : Type} {r : α → β → Prop} {p : β → Prop} {as : List α}
    {bs : List β} (h : List.Forall₂ r as bs) (hp : ∀ a b, r a b → p b) : ∀ b ∈ bs, p b := by
  induction h with
  | nil => exact fun _ hb => absurd hb List.not_mem_nil
  | cons hab _ ih => exact List.forall_mem_cons.mpr ⟨hp _ _ hab, ih⟩

variable {cellAt : TableCell} {ns : Nodes} {g : Grid}

/-- The grid has a row for each `tr`, and a place for each cell. -/
theorem grid_eq_some (h : grid cellAt ns = some g) : ∃ cols,
    (ns.findAll isRow).head?.map (fun tr => (cells tr).length) = some cols ∧
      g.rows = (ns.findAll isRow).length ∧ g.cols = cols ∧
      List.Forall₂ (fun x p => cellAt.find g.rows g.cols x.1 x.2.1 = some p.number ∧
        p.row = x.1 ∧ p.cell = x.2.2) (enumerateCells (ns.findAll isRow)) g.placed := by
  rw [grid] at h
  split at h
  · cases h
  · next first rest hrows =>
    simp only [Option.bind_eq_bind, Option.bind_eq_some_iff] at h
    obtain ⟨placed, hplaced, hg⟩ := h
    obtain rfl := Option.some.inj hg
    rw [hrows]
    refine ⟨_, rfl, rfl, rfl, (forall₂_of_mapM hplaced).imp fun x p hp => ?_⟩
    obtain ⟨number, hnumber, rfl⟩ := Option.map_eq_some_iff.mp hp
    exact ⟨hnumber, rfl, rfl⟩

theorem enumerateCells_map (trs : List Tag) :
    (enumerateCells trs).map (fun x => x.2.2) = trs.flatMap cells := by
  rw [enumerateCells, List.map_flatMap]
  have hrow : ∀ tr : Tag × ℕ,
      ((cells tr.1).zipIdx.map fun cell => (tr.2, cell.2, cell.1)).map (fun x => x.2.2)
        = cells tr.1 := by
    intro tr
    rw [List.map_map]
    exact List.zipIdx_map_fst 0 _
  rw [List.flatMap_congr fun tr _ => hrow tr, ← List.flatMap_map, List.zipIdx_map_fst]

/-- Every cell is there. -/
theorem grid_cells (h : grid cellAt ns = some g) :
    g.placed.map PlacedCell.cell = (ns.findAll isRow).flatMap cells := by
  obtain ⟨-, -, -, -, hplaced⟩ := grid_eq_some h
  rw [← enumerateCells_map]
  generalize enumerateCells (ns.findAll isRow) = xs at hplaced ⊢
  generalize g.placed = placed at hplaced ⊢
  induction hplaced with
  | nil => rfl
  | cons hp _ ih => rw [List.map_cons, List.map_cons, ih, hp.2.2]

theorem grid_lt (h : grid cellAt ns = some g) : ∀ p ∈ g.placed, p.number < g.rows * g.cols := by
  obtain ⟨-, -, -, -, hplaced⟩ := grid_eq_some h
  exact forall_of_forall₂ hplaced fun x p hx => cellAt.lt hx.1

theorem mem_cells_of_placed (h : grid cellAt ns = some g) {p : PlacedCell} (hp : p ∈ g.placed) :
    ∃ tr ∈ ns.findAll isRow, p.cell ∈ cells tr := by
  have hmem := List.mem_map_of_mem (f := PlacedCell.cell) hp
  rw [grid_cells h] at hmem
  exact List.mem_flatMap.mp hmem

theorem void_of_placed (hvoid : Void ns) (h : grid cellAt ns = some g) {p : PlacedCell}
    (hp : p ∈ g.placed) : Void p.cell.children := by
  obtain ⟨tr, htr, hcell⟩ := mem_cells_of_placed h hp
  exact void_of_mem_findAll (void_of_mem_findAll hvoid htr) hcell

theorem writes_cellRuns (header small : Bool) {cell : Tag} (h : Void cell.children) :
    Writes (cellRuns header small cell) (inlineStrings .addInline cell.children) := by
  refine (writes_addInline _ _ _ _ h).map fun run => ?_
  split_ifs
  · exact ⟨rfl, rfl⟩
  · exact ⟨rfl, rfl⟩

/-- The strings of some cells in their places, without white space. -/
def pieces (placed : List PlacedCell) : List (ℕ × List NavigableString) :=
  placed.map fun p => (p.number, solid (inlineStrings .addInline p.cell.children))

theorem solid_tableStrings (h : grid cellAt ns = some g) :
    solid (tableStrings cellAt ns) = (inPlaces (g.rows * g.cols) (pieces g.placed)).flatten := by
  rw [tableStrings, h, Option.elim_some, flatten_inPlaces_map solid_nil solid_append, List.map_map]
  rfl

theorem writes_table {blocks : List Block} (hvoid : Void ns)
    (hblocks : table cellAt ns = some blocks) :
    Writes (docRuns blocks) (tableStrings cellAt ns) := by
  simp only [table, Option.bind_eq_bind, Option.bind_eq_some_iff] at hblocks
  obtain ⟨g, hg, hblocks⟩ := hblocks
  obtain rfl := Option.some.inj hblocks
  have hruns (p : PlacedCell) (hp : p ∈ g.placed) :
      Writes (cellRuns (decide (p.row = 0)) (decide (8 < g.cols)) p.cell)
        (inlineStrings .addInline p.cell.children) :=
    writes_cellRuns _ _ (void_of_placed hvoid hg hp)
  have hdoc : ∀ cells : List (List Run),
      docRuns [.table g.cols cells, .paragraph "Normal" []] = cells.flatten := by
    intro cells
    simp [docRuns, Block.runs]
  rw [hdoc]
  constructor
  · intro run hrun
    have hmem := (flatten_inPlaces_perm ?_).mem_iff.mp hrun
    · obtain ⟨piece, hpiece, hrun⟩ := List.mem_flatMap.mp hmem
      obtain ⟨p, hp, rfl⟩ := List.mem_map.mp hpiece
      exact (hruns p hp).honest run hrun
    · intro piece hpiece
      obtain ⟨p, hp, rfl⟩ := List.mem_map.mp hpiece
      exact grid_lt hg p hp
  · rw [solid_tableStrings hg,
      flatten_inPlaces_map (f := fun runs => solid (runs.flatMap Run.source)) rfl
        (fun l m => by rw [List.flatMap_append, solid_append]), List.map_map, pieces]
    congr 2
    exact List.map_congr_left fun p hp => congrArg (Prod.mk p.number) (hruns p hp).source

/-! ### The whole document -/

/-- The blocks of a tag and those of the nodes after it. -/
theorem handle_tag_eq_some {name : String} {attrs : Attrs} {children rest : Nodes}
    {doc : List Block} (h : handle cellAt (.tag name attrs children rest) = some doc) :
    ∃ blocks doc', handleTag cellAt name attrs children (handle cellAt children) = some blocks ∧
      handle cellAt rest = some doc' ∧ doc = blocks ++ doc' := by
  simp only [handle, Option.bind_eq_bind, Option.bind_eq_some_iff] at h
  obtain ⟨blocks, hblocks, doc', hdoc', h⟩ := h
  exact ⟨blocks, doc', hblocks, hdoc', (Option.some.inj h).symm⟩

/-- **A document writes out `blockStrings`.** -/
theorem handle_writes {ns : Nodes} {doc : List Block} (hvoid : Void ns)
    (hdoc : handle cellAt ns = some doc) : Writes (docRuns doc) (blockStrings cellAt ns) := by
  induction ns generalizing doc with
  | nil =>
    obtain rfl := Option.some.inj hdoc
    exact writes_nil
  | str s rest ih => exact ih hvoid hdoc
  | tag name attrs children rest ihc ihr =>
    obtain ⟨-, hvoidc, hvoidr⟩ := hvoid
    obtain ⟨blocks, doc', hblocks, hdoc', rfl⟩ := handle_tag_eq_some hdoc
    rw [docRuns, List.flatMap_append, blockStrings]
    refine Writes.append ?_ (ihr hvoidr hdoc')
    rw [handleTag] at hblocks
    cases hkind : blockKind name with
    | heading style =>
      rw [hkind] at hblocks
      obtain rfl := Option.some.inj hblocks
      rw [← docRuns, docRuns_singleton]
      exact writes_heading style children
    | pre =>
      rw [hkind] at hblocks
      obtain rfl := Option.some.inj hblocks
      rw [← docRuns, docRuns_singleton]
      exact writes_preformatted children
    | paragraph =>
      rw [hkind] at hblocks
      obtain rfl := Option.some.inj hblocks
      rw [← docRuns, docRuns_singleton]
      exact writes_addInline _ _ _ _ hvoidc
    | list style =>
      rw [hkind] at hblocks
      obtain rfl := Option.some.inj hblocks
      exact writes_listItems style hvoidc
    | figure =>
      rw [hkind] at hblocks
      exact writes_figure hvoidc hblocks
    | table =>
      rw [hkind] at hblocks
      exact writes_table hvoidc hblocks
    | div =>
      rw [hkind] at hblocks
      exact ihc hvoidc hblocks
    | other =>
      rw [hkind] at hblocks
      obtain rfl := Option.some.inj hblocks
      exact writes_nil

end Docx

end HrtimerStudy
