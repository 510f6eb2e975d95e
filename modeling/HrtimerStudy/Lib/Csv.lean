import HrtimerStudy.Lib.Lines

/-!
# Python's `csv` module

The reader of Python's `csv` module with the `excel` dialect (comma, double quote, doubled quotes,
not strict), character by character as the interpreter's parser does it, over the lines of a file
opened with `newline=""`; and `DictReader` on top of it.

The parser is the whole automaton, quoting included. On a text without quotes and carriage returns
it comes down to splitting at newlines and commas, which is what `reader_eq` says.

## Main definitions

* `fileLines` — the lines of a file, with their terminators
* `Csv.processChar`, `Csv.records`, `Csv.reader` — the parser
* `Csv.DictRow`, `Csv.dictReader` — rows as dictionaries

## Main results

* `Csv.reader_eq`, `Csv.dictReader_eq` — the records and the rows of a text without quotes
-/

namespace HrtimerStudy

/-! ### Lines of a file -/

/-- The lines of a file opened with `newline=""`: a line feed, a carriage return, or both in this
order end a line and stay part of it. -/
def fileLines : Text → List Text
  | [] => []
  | '\n' :: rest => ['\n'] :: fileLines rest
  | '\r' :: '\n' :: rest => ['\r', '\n'] :: fileLines rest
  | '\r' :: rest => ['\r'] :: fileLines rest
  | c :: rest =>
    match fileLines rest with
    | [] => [[c]]
    | l :: ls => (c :: l) :: ls

namespace Csv

/-! ### The parser -/

/-- The states of the parser; `excel` has no escape character, so its states are left out. -/
inductive State
  | startRecord
  | startField
  | inField
  | inQuotedField
  | quoteInQuotedField
  | eatCrnl
  deriving DecidableEq

/-- The parser between two characters: the field being read, and the fields before it. -/
structure Parser where
  state : State
  field : Text
  fields : List Text

namespace Parser

/-- The parser at the start of a record. -/
def fresh : Parser := ⟨.startRecord, [], []⟩

def goto (p : Parser) (s : State) : Parser := { p with state := s }

def saveField (p : Parser) : Parser := { p with field := [], fields := p.fields ++ [p.field] }

def addChar (p : Parser) (c : Char) : Parser := { p with field := p.field ++ [c] }

end Parser

/-- A character where a field starts; `none` is the end of the line. -/
def startField (p : Parser) : Option Char → Parser
  | none => p.saveField.goto .startRecord
  | some c =>
    if c = '\n' ∨ c = '\r' then p.saveField.goto .eatCrnl
    else if c = '"' then p.goto .inQuotedField
    else if c = ',' then p.saveField.goto .startField
    else (p.addChar c).goto .inField

/-- One character, or the end of the line, or `none` for a `csv.Error`. -/
def processChar (p : Parser) (c : Option Char) : Option Parser :=
  match p.state, c with
  | .startRecord, none => some p
  | .startRecord, some c =>
    if c = '\n' ∨ c = '\r' then some (p.goto .eatCrnl) else some (startField p (some c))
  | .startField, c => some (startField p c)
  | .inField, none => some (p.saveField.goto .startRecord)
  | .inField, some c =>
    if c = '\n' ∨ c = '\r' then some (p.saveField.goto .eatCrnl)
    else if c = ',' then some (p.saveField.goto .startField)
    else some (p.addChar c)
  | .inQuotedField, none => some p
  | .inQuotedField, some c =>
    if c = '"' then some (p.goto .quoteInQuotedField) else some (p.addChar c)
  | .quoteInQuotedField, none => some (p.saveField.goto .startRecord)
  | .quoteInQuotedField, some c =>
    if c = '"' then some ((p.addChar c).goto .inQuotedField)
    else if c = ',' then some (p.saveField.goto .startField)
    else if c = '\n' ∨ c = '\r' then some (p.saveField.goto .eatCrnl)
    else some ((p.addChar c).goto .inField)
  | .eatCrnl, none => some (p.goto .startRecord)
  | .eatCrnl, some c => if c = '\n' ∨ c = '\r' then some p else none

/-- One line of input. -/
def processLine (p : Parser) (line : Text) : Option Parser := do
  let p ← line.foldlM (fun p c => processChar p (some c)) p
  processChar p none

/-- The records of the remaining lines. A record ends with the line after which the parser is back
at the start of one; at the end of the file an unfinished field is still a field. -/
def records : Parser → List Text → Option (List (List Text))
  | p, [] =>
    if p.field ≠ [] ∨ p.state = .inQuotedField then some [p.saveField.fields] else some []
  | p, line :: rest => do
    let p ← processLine p line
    if p.state = .startRecord then
      let rs ← records .fresh rest
      return p.fields :: rs
    else records p rest

/-- The records of a file. -/
def reader (text : Text) : Option (List (List Text)) := records .fresh (fileLines text)

/-! ### `DictReader` -/

/-- A row: its fields against the field names. -/
structure DictRow where
  fieldnames : List Text
  row : List Text

/-- The assignments that build the dictionary: the fields in order, then `None` for every field
name without a field. Fields without a name are collected under the key `None`, which no lookup
below uses. -/
def DictRow.assignments (r : DictRow) : List (Text × Option Text) :=
  (r.fieldnames.zip r.row).map (fun kv => (kv.1, some kv.2))
    ++ (r.fieldnames.drop r.row.length).map (fun k => (k, none))

/-- `row[key]`, or `none` for a `KeyError`. Of several assignments to a key the last one counts. -/
def DictRow.get (r : DictRow) (key : Text) : Option (Option Text) :=
  ((r.assignments.filter fun kv => kv.1 = key).getLast?).map Prod.snd

/-- The rows of a file: the first record names the fields, and empty records are skipped. -/
def dictReader (text : Text) : Option (List DictRow) := do
  match ← reader text with
  | [] => return []
  | fieldnames :: rows =>
    return (rows.filter fun row => row ≠ []).map fun row => ⟨fieldnames, row⟩

/-! ### Texts without quotes -/

/-- A character that neither ends a line nor opens a quote. -/
def Unquoted (c : Char) : Prop := c ≠ '\n' ∧ c ≠ '\r' ∧ c ≠ '"'

instance : DecidablePred Unquoted := fun _ => inferInstanceAs (Decidable (_ ∧ _))

/-- The record a line without quotes stands for. -/
def recordOf (line : Text) : List Text := if line = [] then [] else csvFields line

theorem foldlM_cons (p : Parser) (c : Char) (cs : Text) :
    (c :: cs).foldlM (fun p c => processChar p (some c)) p
      = (processChar p (some c)).bind fun p => cs.foldlM (fun p c => processChar p (some c)) p := by
  rw [List.foldlM_cons]
  rfl

theorem processLine_cons (p : Parser) (c : Char) (cs : Text) :
    processLine p (c :: cs) = (processChar p (some c)).bind fun p => processLine p cs := by
  simp only [processLine, foldlM_cons, Option.bind_eq_bind, Option.bind_assoc]

/-- Inside a record and outside quotes, the rest of the line is split at its commas, and its first
piece continues the field being read. -/
theorem processLine_inside {p : Parser} (hp : p.state = .startField ∨ p.state = .inField)
    {line : Text} (hline : ∀ c ∈ line, Unquoted c) {eol : Text} (heol : eol = [] ∨ eol = ['\n']) :
    processLine p (line ++ eol)
      = some ⟨.startRecord, [], p.fields ++ (csvFields line).modifyHead (p.field ++ ·)⟩ := by
  induction line generalizing p with
  | nil =>
    obtain ⟨state, field, fields⟩ := p
    rcases heol with rfl | rfl <;> rcases hp with rfl | rfl <;>
      simp [processLine, processChar, startField, csvFields, Parser.goto, Parser.saveField]
  | cons c cs ih =>
    have hcs : ∀ d ∈ cs, Unquoted d := fun d hd => hline d (List.mem_cons_of_mem _ hd)
    obtain ⟨hn, hr, hq⟩ := hline c (List.mem_cons_self ..)
    rw [List.cons_append, processLine_cons, csvFields, List.splitOn_cons_eq_if_modifyHead]
    by_cases hc : c = ','
    · have hstep : processChar p (some c) = some (p.saveField.goto .startField) := by
        rcases hp with hp | hp <;> simp [processChar, startField, hp, hc]
      rw [hstep, Option.bind_some, ih (Or.inl rfl) hcs]
      cases hsplit : csvFields cs with
      | nil => exact absurd hsplit (List.splitOn_ne_nil _ _)
      | cons f fs =>
        rw [csvFields] at hsplit
        simp [hc, hsplit, Parser.goto, Parser.saveField]
    · have hstep : processChar p (some c) = some ((p.addChar c).goto .inField) := by
        rcases hp with hp | hp <;>
          simp [processChar, startField, hp, hn, hr, hq, hc, Parser.goto, Parser.addChar]
      rw [hstep, Option.bind_some, ih (Or.inr rfl) hcs]
      simp [hc, Parser.goto, Parser.addChar, csvFields, Function.comp_def]

/-- A line without quotes is one record. -/
theorem processLine_fresh {line : Text} (hline : ∀ c ∈ line, Unquoted c) {eol : Text}
    (heol : eol = [] ∨ eol = ['\n']) :
    processLine .fresh (line ++ eol) = some ⟨.startRecord, [], recordOf line⟩ := by
  cases line with
  | nil =>
    rcases heol with rfl | rfl <;>
      simp [processLine, processChar, recordOf, Parser.fresh, Parser.goto]
  | cons c cs =>
    -- the first character is read as at the start of a field
    have hfirst : processLine .fresh (c :: cs ++ eol)
        = processLine (Parser.fresh.goto .startField) (c :: cs ++ eol) := by
      obtain ⟨hn, hr, -⟩ := hline c (List.mem_cons_self ..)
      rw [List.cons_append, processLine_cons, processLine_cons]
      simp [processChar, startField, Parser.fresh, Parser.goto, Parser.saveField, Parser.addChar,
        hn, hr]
    rw [hfirst, processLine_inside (Or.inl rfl) hline heol]
    cases hsplit : csvFields (c :: cs) <;> simp [recordOf, hsplit, Parser.fresh, Parser.goto]

/-! ### Whole files -/

theorem fileLines_cons {c : Char} (hn : c ≠ '\n') (hr : c ≠ '\r') (rest : Text) :
    fileLines (c :: rest) = match fileLines rest with
      | [] => [[c]]
      | l :: ls => (c :: l) :: ls := by
  rw [fileLines] <;> simp_all

theorem fileLines_line {l : Text} (hl : ∀ c ∈ l, Unquoted c) (rest : Text) :
    fileLines (l ++ '\n' :: rest) = (l ++ ['\n']) :: fileLines rest := by
  induction l with
  | nil => rw [List.nil_append, fileLines, List.nil_append]
  | cons c l ih =>
    obtain ⟨hn, hr, -⟩ := hl c (List.mem_cons_self ..)
    rw [List.cons_append, fileLines_cons hn hr, ih fun d hd => hl d (List.mem_cons_of_mem _ hd),
      List.cons_append]

/-- The lines after the last terminator: one, or none if nothing is there. -/
def lastLine (q : Text) : List Text := if q = [] then [] else [q]

theorem fileLines_last {q : Text} (hq : ∀ c ∈ q, Unquoted c) : fileLines q = lastLine q := by
  induction q with
  | nil => rfl
  | cons c q ih =>
    obtain ⟨hn, hr, -⟩ := hq c (List.mem_cons_self ..)
    rw [fileLines_cons hn hr, ih fun d hd => hq d (List.mem_cons_of_mem _ hd), lastLine, lastLine]
    split_ifs with h <;> simp_all

variable {ls : List Text} {q : Text}

theorem fileLines_unlines (hls : ∀ l ∈ ls, ∀ c ∈ l, Unquoted c) (hq : ∀ c ∈ q, Unquoted c) :
    fileLines (unlines ls ++ q) = ls.map (· ++ ['\n']) ++ lastLine q := by
  induction ls with
  | nil => simpa using fileLines_last hq
  | cons l ls ih =>
    rw [unlines_cons, List.append_assoc, List.cons_append,
      fileLines_line (hls l (List.mem_cons_self ..)),
      ih fun m hm => hls m (List.mem_cons_of_mem _ hm), List.map_cons, List.cons_append]

theorem records_cons {line : Text} {rest : List Text} {fields : List Text}
    (h : processLine .fresh line = some ⟨.startRecord, [], fields⟩) :
    records .fresh (line :: rest) = (records .fresh rest).map (fields :: ·) := by
  rw [records, h]
  simp [Option.map_eq_bind]

/-- **The records of a text without quotes**: one for each line, and one for what follows the last
terminator. -/
theorem reader_eq (hls : ∀ l ∈ ls, ∀ c ∈ l, Unquoted c) (hq : ∀ c ∈ q, Unquoted c) :
    reader (unlines ls ++ q) = some ((ls ++ lastLine q).map recordOf) := by
  rw [reader, fileLines_unlines hls hq]
  induction ls with
  | nil =>
    rw [List.map_nil, List.nil_append, lastLine]
    split_ifs with h
    · rfl
    · have hline := processLine_fresh hq (Or.inl (Eq.refl []))
      rw [List.append_nil] at hline
      rw [records_cons hline]
      rfl
  | cons l ls ih =>
    have hline := processLine_fresh (hls l (List.mem_cons_self ..)) (Or.inr (Eq.refl ['\n']))
    rw [List.map_cons, List.cons_append, records_cons hline,
      ih fun m hm => hls m (List.mem_cons_of_mem _ hm)]
    rfl

/-- The rows of a text without quotes and without empty lines. -/
theorem dictReader_eq {header : Text} (hheader : ∀ c ∈ header, Unquoted c) (hne : header ≠ [])
    (hls : ∀ l ∈ ls, l ≠ [] ∧ ∀ c ∈ l, Unquoted c) (hq : ∀ c ∈ q, Unquoted c) :
    dictReader (unlines (header :: ls) ++ q)
      = some ((ls ++ lastLine q).map fun l => ⟨csvFields header, csvFields l⟩) := by
  have hall : ∀ l ∈ header :: ls, ∀ c ∈ l, Unquoted c := by
    intro l hl
    rcases List.mem_cons.mp hl with rfl | hl
    · exact hheader
    · exact (hls l hl).2
  have hlines : ∀ l ∈ ls ++ lastLine q, l ≠ [] := by
    intro l hl
    rcases List.mem_append.mp hl with hl | hl
    · exact (hls l hl).1
    · rw [lastLine] at hl
      split_ifs at hl with h
      · exact absurd hl (List.not_mem_nil)
      · rwa [List.mem_singleton.mp hl]
  have hrecord : (ls ++ lastLine q).map recordOf = (ls ++ lastLine q).map csvFields :=
    List.map_congr_left fun l hl => if_neg (hlines l hl)
  have hfilter : ((ls ++ lastLine q).map csvFields).filter (fun row => row ≠ [])
      = (ls ++ lastLine q).map csvFields := by
    rw [List.filter_eq_self]
    intro row hrow
    obtain ⟨l, -, rfl⟩ := List.mem_map.mp hrow
    simp [csvFields]
  rw [dictReader, reader_eq hall hq, List.cons_append, List.map_cons, recordOf, if_neg hne, hrecord]
  simp only [Option.bind_eq_bind, Option.bind_some, Option.pure_def, hfilter, List.map_map]
  rfl

/-- Nothing but part of a header: no rows. -/
theorem dictReader_header (hq : ∀ c ∈ q, Unquoted c) : dictReader q = some [] := by
  have h := @reader_eq [] q (by simp) hq
  rw [unlines_nil, List.nil_append, List.nil_append] at h
  rw [dictReader, h, lastLine]
  split_ifs <;> rfl

end Csv

end HrtimerStudy
