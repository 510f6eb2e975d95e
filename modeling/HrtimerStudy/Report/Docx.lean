import HrtimerStudy.Lib.Buckets
import HrtimerStudy.Lib.Soup

/-!
# The Word document

`add_inline` and `build_docx` of `build_report.py`: the runs, paragraphs, tables and pictures that
are added to the document for the tree of the rendered report. The tree comes from CommonMark with
tables and raw HTML, so it may have any tags in any places.

A document is what is added to it; the layout of paragraphs, cells and pictures is left out, and
sizes are in tenths of a point. A step that raises an exception is `none`.

The cells of a row are all that `find_all` finds, those in cells included, so a row may have more of
them than the table has columns. What `Table.cell` of python-docx does then is not documented: it
is a parameter, `TableCell`.

## Main definitions

* `Run`, `Block` — what documents are made of
* `addInline` — the inline recursion
* `TableCell`, `grid` — the places of the cells of a table
* `handle`, `buildDocx` — the recursion over blocks
* `Block.runs`, `docText` — what comes out
-/

namespace HrtimerStudy

namespace Docx

/-! ### Documents -/

/-- A run. The last field is history: the strings whose text it is. -/
structure Run where
  text : Text
  bold : Bool
  italic : Bool
  font : Option String
  size : Option ℕ
  superscript : Bool
  source : List NavigableString

/-- A paragraph or a picture in one, or a table with its cells, row by row. -/
inductive Block
  | paragraph (style : String) (runs : List Run)
  | picture (src : String)
  | table (cols : ℕ) (cells : List (List Run))

/-- The runs of a block, in their order. -/
def Block.runs : Block → List Run
  | .paragraph _ runs => runs
  | .picture _ => []
  | .table _ cells => cells.flatten

def docRuns (doc : List Block) : List Run := doc.flatMap Block.runs

/-- The text of a document. -/
def docText (doc : List Block) : Text := (docRuns doc).flatMap Run.text

/-- The strings it comes from. -/
def docSource (doc : List Block) : List NavigableString := (docRuns doc).flatMap Run.source

/-- A run without any format. -/
def plainRun (text : Text) (source : List NavigableString) : Run :=
  { text := text
    bold := false
    italic := false
    font := none
    size := none
    superscript := false
    source := source }

/-! ### `add_inline` -/

/-- The branches of `add_inline` for a tag. -/
inductive InlineKind
  | strong
  | em
  | code
  | sup
  | br
  | other
  deriving DecidableEq

def inlineKind : String → InlineKind
  | "strong" | "b" => .strong
  | "em" | "i" => .em
  | "code" => .code
  | "sup" => .sup
  | "br" => .br
  | _ => .other

/-- `str(child).replace("\n", " ")`. -/
def oneLine (t : Text) : Text := t.map fun c => if c = '\n' then ' ' else c

/-- The run of a string. A comment is an instance of `NavigableString`. -/
def stringRun (bold italic code : Bool) (size : Option ℕ) (s : NavigableString) : List Run :=
  if oneLine s.text = [] then []
  else
    [{ text := oneLine s.text
       bold := bold
       italic := italic
       font := if code then some "Consolas" else none
       size := if code then some (size.getD 105 - 13) else size
       superscript := false
       source := [s] }]

/-- The runs that are added for the children of a tag. -/
def addInline (bold italic code : Bool) (size : Option ℕ) : Nodes → List Run
  | .nil => []
  | .str s rest => stringRun bold italic code size s ++ addInline bold italic code size rest
  | .tag name _ children rest =>
    (match inlineKind name with
      | .strong => addInline true italic code size children
      | .em => addInline bold true code size children
      | .code => addInline bold italic true size children
      | .sup => [{ plainRun children.getText children.collected with superscript := true }]
      | .br => [plainRun ['\n'] []]
      | .other => addInline bold italic code size children)
      ++ addInline bold italic code size rest

/-! ### The blocks -/

/-- The branches of `handle` for a tag. -/
inductive BlockKind
  | heading (style : String)
  | paragraph
  | list (style : String)
  | pre
  | figure
  | table
  | div
  | other
  deriving DecidableEq

def blockKind : String → BlockKind
  | "h1" => .heading "Title"
  | "h2" => .heading "Heading 1"
  | "h3" => .heading "Heading 2"
  | "p" => .paragraph
  | "ul" => .list "List Bullet"
  | "ol" => .list "List Number"
  | "pre" => .pre
  | "figure" => .figure
  | "table" => .table
  | "div" => .div
  | _ => .other

/-- The size of the runs of a `p`. -/
def paragraphSize (classes : List String) : Option ℕ :=
  if "subtitle" ∈ classes then some 125
  else if "meta" ∈ classes then some 92
  else if "caption" ∈ classes then some 90
  else if "ref" ∈ classes then some 93
  else none

/-- `add_paragraph` with the text of a tag. -/
def heading (style : String) (children : Nodes) : Block :=
  .paragraph style
    (if children.getText = [] then [] else [plainRun children.getText children.collected])

def isItem (name : String) : Bool := name = "li"

def listItems (style : String) (children : Nodes) : List Block :=
  (children.findChildren isItem).map fun li =>
    .paragraph style (addInline false false false none li.children)

/-- `rstrip("\n")`. -/
def rstripNewlines (t : Text) : Text := (t.reverse.dropWhile fun c => c = '\n').reverse

def preformatted (children : Nodes) : Block :=
  .paragraph "Normal"
    [{ plainRun (rstripNewlines children.getText) children.collected with
        font := some "Consolas"
        size := some 84 }]

def isImg (name : String) : Bool := name = "img"

def isFigcaption (name : String) : Bool := name = "figcaption"

/-- The picture and its caption. -/
def figure (children : Nodes) : Option (List Block) := do
  let img ← children.find isImg
  let src ← img.attrs.src
  let cap ← children.find isFigcaption
  return [.picture src,
    .paragraph "Normal" (addInline false false false (some 90) cap.children)]

def isRow (name : String) : Bool := name = "tr"

def isCell (name : String) : Bool := name = "th" || name = "td"

/-- The cells of a row. -/
def cells (tr : Tag) : List Tag := tr.children.findAll isCell

/-- The runs of a cell; those of the first row are bold. -/
def cellRuns (header small : Bool) (cell : Tag) : List Run :=
  (addInline header false false (some (if small then 75 else 86)) cell.children).map fun run =>
    if run.font = some "Consolas" then run else { run with font := some "Segoe UI" }

/-- `Table.cell`: the number, counted row by row, of the cell that is found for a row and a column
in a table with so many rows and columns, or none when an exception is raised. -/
structure TableCell where
  find : (rows cols r c : ℕ) → Option ℕ
  lt : ∀ {rows cols r c k : ℕ}, find rows cols r c = some k → k < rows * cols
  inside : ∀ {rows cols r c : ℕ}, r < rows → c < cols → find rows cols r c = some (r * cols + c)

/-- A cell of the tree, its row, and the number of the cell of the document where it goes. -/
structure PlacedCell where
  number : ℕ
  row : ℕ
  cell : Tag

/-- The rows and the columns of the new table, and what goes there. -/
structure Grid where
  rows : ℕ
  cols : ℕ
  placed : List PlacedCell

/-- The cells of some rows in turn, with the number of their row and their own number in it. -/
def enumerateCells (trs : List Tag) : List (ℕ × ℕ × Tag) :=
  trs.zipIdx.flatMap fun tr => (cells tr.1).zipIdx.map fun cell => (tr.2, cell.2, cell.1)

/-- The two loops over the cells of a table. -/
def grid (cellAt : TableCell) (children : Nodes) : Option Grid :=
  match children.findAll isRow with
  | [] => none
  | first :: rest => do
    let rows := (first :: rest).length
    let cols := (cells first).length
    let placed ← (enumerateCells (first :: rest)).mapM fun x =>
      (cellAt.find rows cols x.1 x.2.1).map fun number => PlacedCell.mk number x.1 x.2.2
    return ⟨rows, cols, placed⟩

/-- The table and the empty paragraph after it. -/
def table (cellAt : TableCell) (children : Nodes) : Option (List Block) := do
  let g ← grid cellAt children
  let small := decide (8 < g.cols)
  return [.table g.cols (inPlaces (g.rows * g.cols)
      (g.placed.map fun p => (p.number, cellRuns (decide (p.row = 0)) small p.cell))),
    .paragraph "Normal" []]

/-- The branch of `handle` for a tag, given what it adds for the children. -/
def handleTag (cellAt : TableCell) (name : String) (attrs : Attrs) (children : Nodes)
    (inner : Option (List Block)) : Option (List Block) :=
  match blockKind name with
  | .heading style => some [heading style children]
  | .paragraph =>
    some [.paragraph "Normal"
      (addInline false false false (paragraphSize attrs.classes) children)]
  | .list style => some (listItems style children)
  | .pre => some [preformatted children]
  | .figure => figure children
  | .table => table cellAt children
  | .div => inner
  | .other => some []

/-- `handle` of every node in turn. -/
def handle (cellAt : TableCell) : Nodes → Option (List Block)
  | .nil => some []
  | .str _ rest => handle cellAt rest
  | .tag name attrs children rest => do
    let blocks ← handleTag cellAt name attrs children (handle cellAt children)
    return blocks ++ (← handle cellAt rest)

/-- What `build_docx` adds to the document for a tree. -/
def buildDocx (cellAt : TableCell) (soup : Nodes) : Option (List Block) := handle cellAt soup

end Docx

end HrtimerStudy
