import HrtimerStudy.Lib.Lines
import HrtimerStudy.Lib.SignedInt
import Mathlib.Data.List.Nodup

/-!
# Data frames read from a CSV file

What a program may rely on when it reads a table of integers with a `read_csv` it cannot see into.
Only texts without quotes, white space and carriage returns are looked at, and only tables with no
more fields in a row than in the header.

Of a value nothing is known but the integer it is equal to, if any: `123` and `123.0` are both
`int 123`, while a missing value and a text are `other`. In a column with such a value the others
may have been converted, so nothing is said about them.

## Main definitions

* `Value`, `Frame` — values, and columns of one length
* `IsTable` — the header and the rows of a plain text
* `ReadsTables` — the contract of a `read_csv` about tables with one header
* `plainReadCsv` — a `read_csv` that meets it

## Main results

* `readsTables_plainReadCsv` — the contract can be met
-/

namespace HrtimerStudy

/-! ### Values and frames -/

/-- A value of a frame: equal to an integer, or to none. -/
inductive Value
  | int (z : ℤ)
  | other
  deriving DecidableEq

namespace Value

/-- `==`; a missing value is not equal to itself. -/
def eq : Value → Value → Bool
  | .int x, .int y => x = y
  | _, _ => false

/-- `-` on values of type `int64`. -/
def sub : Value → Value → Value
  | .int x, .int y => .int (wrap64 (x - y))
  | _, _ => .other

/-- The value of a field: an integer, or something that is none. -/
def ofField : Option Text → Value
  | none => .other
  | some f =>
    match intLiteral f with
    | none => .other
    | some z => .int z

theorem eq_iff {x y : Value} : x.eq y = true ↔ ∃ z, x = .int z ∧ y = .int z := by
  cases x <;> cases y <;> simp [eq, eq_comm]

theorem ofField_decimal (z : ℤ) : ofField (some (decimal z)) = .int z := by
  rw [ofField, intLiteral_decimal]

end Value

/-- A frame: its number of rows, and a column of that length for some names. -/
structure Frame where
  length : ℕ
  column : Text → Option (List Value)
  length_column : ∀ name values, column name = some values → values.length = length

/-- `(xs == ys).all()`. -/
def allEq (xs ys : List Value) : Bool := (List.zipWith Value.eq xs ys).all id

theorem allEq_iff {xs ys : List Value} :
    allEq xs ys = true ↔ ∀ (k : ℕ) (x y : Value), xs[k]? = some x → ys[k]? = some y →
      x.eq y = true := by
  rw [allEq, List.all_eq_true]
  constructor
  · intro h k x y hx hy
    have hk : (List.zipWith Value.eq xs ys)[k]? = some (x.eq y) := by
      rw [List.getElem?_zipWith, hx, hy]
    exact h _ (List.mem_of_getElem? hk)
  · intro h b hb
    obtain ⟨k, hk⟩ := List.mem_iff_getElem?.mp hb
    obtain ⟨x, y, hx, hy, rfl⟩ := List.getElem?_zipWith_eq_some.mp hk
    exact h k x y hx hy

/-! ### Tables as text -/

/-- A character that stands for itself wherever it is in a field. -/
def PlainChar (c : Char) : Prop := c ≠ '"' ∧ isSpace c = false

instance : DecidablePred PlainChar := fun _ => inferInstanceAs (Decidable (_ ∧ _))

/-- The lines of a text, without the empty ones. -/
def nonemptyLines (text : Text) : List Text := (text.splitOn '\n').filter fun l => l ≠ []

/-- `text` has this header and these rows. -/
structure IsTable (text : Text) (header : List Text) (rows : List (List Text)) : Prop where
  plain : ∀ c ∈ text, c = '\n' ∨ PlainChar c
  lines : (nonemptyLines text).map csvFields = header :: rows
  names : header.Nodup
  length_le : ∀ row ∈ rows, row.length ≤ header.length

/-- A field with no number in it: it is absent, empty, or a lone minus sign. -/
def NoNumber (field : Option Text) : Prop := field = none ∨ field = some [] ∨ field = some ['-']

/-- A row of integers with a field for every name. -/
def Complete (header row : List Text) : Prop :=
  row.length = header.length ∧ ∀ f ∈ row, ∃ z, intLiteral f = some z ∧ Fits64 z

/-- What is relied on in a `read_csv` for tables with the header `names`; `none` stands for an
exception. A file without lines is an error. Under a header alone, whatever its names become, there
are no rows. Under `names`, empty lines are skipped and every other line is a row; a field with no
number in it gives a value that is equal to no integer; and in a table of complete rows every field
is read exactly. -/
structure ReadsTables (names : List Text) (readCsv : Text → Option Frame) : Prop where
  empty : readCsv [] = none
  header : ∀ {text other frame}, IsTable text other [] → readCsv text = some frame →
    frame.length = 0
  length_eq : ∀ {text rows frame}, IsTable text names rows → readCsv text = some frame →
    frame.length = rows.length
  other : ∀ {text rows frame}, IsTable text names rows → readCsv text = some frame →
    ∀ {j : ℕ} {name column}, names[j]? = some name → frame.column name = some column →
    ∀ {k : ℕ} {row}, rows[k]? = some row → NoNumber row[j]? → column[k]? = some Value.other
  complete : ∀ {text rows}, IsTable text names rows → (∀ row ∈ rows, Complete names row) →
    ∃ frame, readCsv text = some frame ∧ ∀ {j : ℕ} {name}, names[j]? = some name →
      frame.column name = some (rows.map fun row => Value.ofField row[j]?)

/-! ### A plain reader -/

/-- A `read_csv` that reads every field as `Value.ofField` does. -/
def plainReadCsv (text : Text) : Option Frame :=
  match (nonemptyLines text).map csvFields with
  | [] => none
  | header :: rows => some {
      length := rows.length
      column := fun name =>
        (header.idxOf? name).map fun j : ℕ => rows.map fun row => Value.ofField row[j]?
      length_column := by
        intro name values h
        obtain ⟨j, -, rfl⟩ := Option.map_eq_some_iff.mp h
        exact List.length_map .. }

theorem idxOf?_of_nodup {header : List Text} (hnodup : header.Nodup) {j : ℕ} {name : Text}
    (h : header[j]? = some name) : header.idxOf? name = some j := by
  obtain ⟨hj, rfl⟩ := List.getElem?_eq_some_iff.mp h
  rw [List.idxOf?_eq_some_iff]
  refine ⟨hj, by simp, fun i hi => ?_⟩
  have hne : header[i] ≠ header[j] := fun heq =>
    absurd (hnodup.getElem_inj_iff.mp heq) (by omega)
  simpa using hne

theorem plainReadCsv_eq {text : Text} {header : List Text} {rows : List (List Text)}
    (h : IsTable text header rows) : ∃ frame, plainReadCsv text = some frame ∧
      frame.length = rows.length ∧ ∀ {j : ℕ} {name}, header[j]? = some name →
        frame.column name = some (rows.map fun row => Value.ofField row[j]?) := by
  rw [plainReadCsv]
  rw [h.lines]
  refine ⟨_, rfl, rfl, fun {j name} hname => ?_⟩
  simp only [idxOf?_of_nodup h.names hname, Option.map_some]

theorem Value.ofField_of_noNumber {field : Option Text} (h : NoNumber field) :
    Value.ofField field = .other := by
  rcases h with rfl | rfl | rfl <;> rfl

/-- The contract can be met. -/
theorem readsTables_plainReadCsv (names : List Text) : ReadsTables names plainReadCsv := by
  have hlength : ∀ {text header rows frame}, IsTable text header rows →
      plainReadCsv text = some frame → frame.length = rows.length := by
    intro text header rows frame htable hread
    obtain ⟨frame', hread', hlength, -⟩ := plainReadCsv_eq htable
    obtain rfl : frame' = frame := Option.some.inj (hread'.symm.trans hread)
    exact hlength
  refine ⟨rfl, hlength, hlength, ?_, ?_⟩
  · intro text rows frame htable hread j name column hname hcolumn k row hrow hfield
    obtain ⟨frame', hread', -, hcolumns⟩ := plainReadCsv_eq htable
    obtain rfl : frame' = frame := Option.some.inj (hread'.symm.trans hread)
    obtain rfl := Option.some.inj ((hcolumns hname).symm.trans hcolumn)
    rw [List.getElem?_map, hrow, Option.map_some, Value.ofField_of_noNumber hfield]
  · intro text rows htable _
    obtain ⟨frame, hread, -, hcolumns⟩ := plainReadCsv_eq htable
    exact ⟨frame, hread, hcolumns⟩

/-! ### Lines of a text -/

theorem nonemptyLines_unlines {ls : List Text} {q : Text} (hls : ∀ l ∈ ls, l ≠ [] ∧ '\n' ∉ l)
    (hq : '\n' ∉ q) :
    nonemptyLines (unlines ls ++ q) = ls ++ (if q = [] then [] else [q]) := by
  induction ls with
  | nil =>
    rw [unlines_nil, List.nil_append, List.nil_append, nonemptyLines,
      List.splitOn_eq_singleton hq]
    split_ifs with h <;> simp [h]
  | cons l ls ih =>
    obtain ⟨hne, hnl⟩ := hls l (List.mem_cons_self ..)
    have htail := ih fun m hm => hls m (List.mem_cons_of_mem _ hm)
    rw [nonemptyLines] at htail
    rw [nonemptyLines, unlines_cons, List.append_assoc, List.cons_append,
      List.splitOn_append_cons_self_of_not_mem hnl, List.filter_cons_of_pos (by simpa using hne),
      htail, List.cons_append]

end HrtimerStudy
