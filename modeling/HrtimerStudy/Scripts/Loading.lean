import HrtimerStudy.Lib.Csv
import HrtimerStudy.Scripts.Percentile
import HrtimerStudy.TimerBenchmark.MeasurementLoop

/-!
# Loading a measurement file

The part of `analyze_final.py` / `analyze_native.py` and of `plot_final.py` / `plot_native.py` that
reads a CSV file into a list of errors and checks that there are 500 of them, on the text that
`timer_benchmark` leaves on standard output.

The scripts read the file lazily and the model reads it at once; this decides which of several
exceptions is raised, never whether one is.

## Main definitions

* `PyError`, `intField` — the exceptions, and `int(row[key])`
* `readRows` — `int()` on all four columns
* `Analyze.load`, `Plot.loadErrors` — the loading code

## Main results

* `dictRows_eq` — the rows of a text that ends somewhere in a row
* `csv_round_trip` — what a run has printed reads back as its completed trials
-/

namespace HrtimerStudy

open TimerBenchmark

/-! ### Reading -/

inductive PyError
  | csvError
  | keyError
  | typeError
  | valueError
  | stopIteration
  deriving DecidableEq

def dictRows (text : Text) : Except PyError (List Csv.DictRow) :=
  match Csv.dictReader text with
  | none => .error .csvError
  | some rows => .ok rows

/-- `int(row[key])`: a missing key, a field that is `None`, or a text that is no integer. -/
def intField (row : Csv.DictRow) (key : Text) : Except PyError ℤ :=
  match row.get key with
  | none => .error .keyError
  | some none => .error .typeError
  | some (some text) =>
    match pyInt text with
    | none => .error .valueError
    | some z => .ok z

def trialKey : Text := "trial".toList
def requestedNsKey : Text := "requested_ns".toList
def actualNsKey : Text := "actual_ns".toList
def errorNsKey : Text := "error_ns".toList

/-- A row with `int()` applied to its fields. -/
structure Row where
  trial : ℤ
  requestedNs : ℤ
  actualNs : ℤ
  errorNs : ℤ

def intRow (row : Csv.DictRow) : Except PyError Row := do
  return {
    trial := ← intField row trialKey
    requestedNs := ← intField row requestedNsKey
    actualNs := ← intField row actualNsKey
    errorNs := ← intField row errorNsKey }

def readRows (text : Text) : Except PyError (List Row) := do
  (← dictRows text).mapM intRow

/-! ### The scripts -/

/-- The loop over the rows. `convert` is what a script does with an error before it appends it. -/
def errorColumn {α : Type} (convert : ℤ → α) (reader : List Csv.DictRow) :
    Except PyError (List α) :=
  reader.mapM fun row => do return convert (← intField row errorNsKey)

/-- The loop and the check of the number of rows, as in all four scripts. -/
def loadErrors {α : Type} (convert : ℤ → α) (text : Text) : Except PyError (List α) := do
  let errors ← errorColumn convert (← dictRows text)
  if errors.length ≠ 500 then throw .valueError
  return errors

namespace Analyze

def loadErrors (text : Text) : Except PyError (List ℤ) := HrtimerStudy.loadErrors id text

/-- The errors, and the requested delay from the first row. -/
def load (text : Text) : Except PyError (List ℤ × ℤ) := do
  let errors ← loadErrors text
  match ← dictRows text with
  | [] => throw .stopIteration
  | firstRow :: _ => return (errors, ← intField firstRow requestedNsKey)

end Analyze

namespace Plot

/-- The errors in microseconds. -/
def loadErrors (text : Text) : Except PyError (List ℚ) :=
  HrtimerStudy.loadErrors (fun e : ℤ => (e : ℚ) / 1000) text

end Plot

/-! ### The printed format -/

def columns : List Text := [trialKey, requestedNsKey, actualNsKey, errorNsKey]

theorem csvFields_header : csvFields header = columns := by decide

theorem unquoted_header : ∀ c ∈ header, Csv.Unquoted c := by
  have hall : header.all (fun c => decide (Csv.Unquoted c)) = true := by decide
  simpa only [List.all_eq_true, decide_eq_true_eq] using hall

theorem unquoted_decimal {z : ℤ} {c : Char} (h : c ∈ decimal z) : Csv.Unquoted c := by
  rcases mem_decimal h with rfl | hdigit
  · decide
  · refine ⟨?_, ?_, ?_⟩ <;> rintro rfl <;> exact absurd hdigit (by decide)

theorem comma_not_mem_decimal (z : ℤ) : ',' ∉ decimal z := by
  intro h
  rcases mem_decimal h with hc | hc <;> exact absurd hc (by decide)

section Row

variable {i r a e : ℤ}

/-- The fields of a row. -/
def fields (i r a e : ℤ) : List Text := [decimal i, decimal r, decimal a, decimal e]

theorem comma_not_mem_fields {f : Text} (h : f ∈ fields i r a e) : ',' ∉ f := by
  simp only [fields, List.mem_cons, List.not_mem_nil, or_false] at h
  rcases h with rfl | rfl | rfl | rfl <;> exact comma_not_mem_decimal _

theorem csvFields_row : csvFields (row i r a e) = fields i r a e :=
  csvFields_csvLine (List.cons_ne_nil _ _) fun _ => comma_not_mem_fields

theorem unquoted_row {c : Char} (h : c ∈ row i r a e) : Csv.Unquoted c := by
  rcases mem_csvLine h with rfl | ⟨f, hf, hc⟩
  · decide
  · simp only [List.mem_cons, List.not_mem_nil, or_false] at hf
    rcases hf with rfl | rfl | rfl | rfl <;> exact unquoted_decimal hc

theorem row_ne_nil : row i r a e ≠ [] := by
  rw [row, csvLine_cons_cons]
  exact List.append_ne_nil_of_right_ne_nil _ (List.cons_ne_nil _ _)

/-- A complete row is read without loss. -/
theorem intField_row :
    intField ⟨columns, fields i r a e⟩ errorNsKey = .ok e ∧
      intField ⟨columns, fields i r a e⟩ requestedNsKey = .ok r ∧
      intRow ⟨columns, fields i r a e⟩ = .ok ⟨i, r, a, e⟩ := by
  have htrial : Csv.DictRow.get ⟨columns, fields i r a e⟩ trialKey = some (some (decimal i)) := rfl
  have hrequested : Csv.DictRow.get ⟨columns, fields i r a e⟩ requestedNsKey
      = some (some (decimal r)) := rfl
  have hactual : Csv.DictRow.get ⟨columns, fields i r a e⟩ actualNsKey
      = some (some (decimal a)) := rfl
  have herror : Csv.DictRow.get ⟨columns, fields i r a e⟩ errorNsKey
      = some (some (decimal e)) := rfl
  refine ⟨?_, ?_, ?_⟩
  · simp only [intField, herror, pyInt_decimal]
  · simp only [intField, hrequested, pyInt_decimal]
  · simp only [intRow, intField, htrial, hrequested, hactual, herror, pyInt_decimal]
    rfl

end Row

/-! ### Reading what was printed -/

section Printed

variable (args : Args) (samples : List Sample)

/-- The dictionary of a completed trial. -/
def dictRow (mk : Sample × ℕ) : Csv.DictRow :=
  ⟨columns, fields (mk.2 + 1) args.requestedNs mk.1.actualNs mk.1.errorNs⟩

theorem rows_eq_map : rows args samples = samples.zipIdx.map fun mk =>
    row (mk.2 + 1) args.requestedNs mk.1.actualNs mk.1.errorNs :=
  List.mapIdx_eq_zipIdx_map

variable {samples}

theorem length_rows : (rows args samples).length = samples.length := List.length_mapIdx

theorem getElem_rows {k : ℕ} (hk : k < samples.length) (hk' : k < (rows args samples).length) :
    (rows args samples)[k]
      = row (k + 1) args.requestedNs samples[k].actualNs samples[k].errorNs :=
  List.getElem_mapIdx

theorem take_rows (k : ℕ) : (rows args samples).take k = rows args (samples.take k) := by
  refine List.ext_getElem (by simp [length_rows]) fun i hi hi' => ?_
  simp [rows]

/-- **A prefix of what was printed** is part of the header, or the rows of some first trials and
part of the next row. -/
theorem prefix_printed {p : Text} (h : p <+: unlines (header :: rows args samples)) :
    p <+: header ∨ ∃ k q, p = unlines (header :: rows args (samples.take k)) ++ q ∧
      k ≤ samples.length ∧ (q = [] ∨ ∃ hk : k < samples.length,
        q <+: row (k + 1) args.requestedNs samples[k].actualNs samples[k].errorNs) := by
  obtain ⟨k, q, hk, rfl, hq⟩ := prefix_unlines h
  rw [List.length_cons, length_rows] at hk
  cases k with
  | zero =>
    refine Or.inl ?_
    rcases hq with rfl | ⟨_, hq⟩
    · exact List.nil_prefix
    · exact hq
  | succ k =>
    refine Or.inr ⟨k, q, by rw [List.take_succ_cons, take_rows], by omega, ?_⟩
    rcases hq with rfl | ⟨hk', hq⟩
    · exact Or.inl rfl
    · rw [List.length_cons, length_rows] at hk'
      have hlt : k < samples.length := by omega
      refine Or.inr ⟨hlt, ?_⟩
      rwa [List.getElem_cons_succ, getElem_rows args hlt] at hq

/-- **The rows of a text** that ends in `q`, somewhere in a row: those of the completed trials, and
one more for `q` unless it is empty. -/
theorem dictRows_eq (samples : List Sample) {q : Text} (hq : ∀ c ∈ q, Csv.Unquoted c) :
    dictRows (unlines (header :: rows args samples) ++ q)
      = .ok (samples.zipIdx.map (dictRow args)
        ++ (Csv.lastLine q).map fun l => ⟨columns, csvFields l⟩) := by
  have hrows : ∀ l ∈ rows args samples, l ≠ [] ∧ ∀ c ∈ l, Csv.Unquoted c := by
    intro l hl
    rw [rows_eq_map, List.mem_map] at hl
    obtain ⟨mk, -, rfl⟩ := hl
    exact ⟨row_ne_nil, fun c => unquoted_row⟩
  have hread := Csv.dictReader_eq unquoted_header (by decide) hrows hq
  rw [csvFields_header, List.map_append, rows_eq_map, List.map_map] at hread
  rw [dictRows, rows_eq_map, hread]
  have hrow : ((fun l => ⟨columns, csvFields l⟩ : Text → Csv.DictRow) ∘ fun mk : Sample × ℕ =>
      row (mk.2 + 1) args.requestedNs mk.1.actualNs mk.1.errorNs) = dictRow args := by
    funext mk
    rw [Function.comp_apply, csvFields_row, dictRow]
  rw [hrow]

/-- Reading the list of rows that `g` reads one by one. -/
theorem mapM_eq_ok {α β : Type} {f : α → Except PyError β} {g : α → β} {l : List α}
    (h : ∀ x ∈ l, f x = .ok (g x)) : l.mapM f = .ok (l.map g) := by
  induction l with
  | nil => rfl
  | cons x l ih =>
    rw [List.mapM_cons, h x (List.mem_cons_self ..), ih fun y hy => h y (List.mem_cons_of_mem _ hy)]
    rfl

/-- The loop over the rows has one result for each of them. -/
theorem length_of_mapM_ok {α β : Type} {f : α → Except PyError β} {l : List α} {r : List β}
    (h : l.mapM f = .ok r) : r.length = l.length := by
  induction l generalizing r with
  | nil =>
    cases h
    rfl
  | cons x l ih =>
    rw [List.mapM_cons] at h
    cases hx : f x with
    | error e =>
      rw [hx] at h
      cases h
    | ok y =>
      cases hl : l.mapM f with
      | error e =>
        rw [hx, hl] at h
        cases h
      | ok ys =>
        rw [hx, hl] at h
        cases h
        rw [List.length_cons, List.length_cons, ih hl]

theorem loadErrors_eq {α : Type} {convert : ℤ → α} {text : Text} {rows : List Csv.DictRow}
    {errors : List α} (hrows : dictRows text = .ok rows)
    (herrors : errorColumn convert rows = .ok errors) :
    loadErrors convert text = if errors.length = 500 then .ok errors else .error .valueError := by
  rw [loadErrors, hrows]
  show (errorColumn convert rows >>= _) = _
  rw [herrors]
  by_cases hlen : errors.length = 500
  · rw [if_pos hlen]
    exact if_neg (not_not.mpr hlen)
  · rw [if_neg hlen]
    exact if_pos hlen

theorem loadErrors_error {α : Type} {convert : ℤ → α} {text : Text} {rows : List Csv.DictRow}
    {e : PyError} (hrows : dictRows text = .ok rows)
    (herrors : errorColumn convert rows = .error e) : loadErrors convert text = .error e := by
  rw [loadErrors, hrows]
  show (errorColumn convert rows >>= _) = _
  rw [herrors]
  rfl

/-- Any other number of rows is an error, whatever is in them. -/
theorem loadErrors_short {α : Type} (convert : ℤ → α) {text : Text} {rows : List Csv.DictRow}
    (hrows : dictRows text = .ok rows) (hlen : rows.length ≠ 500) :
    ∃ e, loadErrors convert text = .error e := by
  cases h : errorColumn convert rows with
  | error e => exact ⟨e, loadErrors_error hrows h⟩
  | ok errors =>
    rw [loadErrors_eq hrows h, length_of_mapM_ok h, if_neg hlen]
    exact ⟨_, rfl⟩

theorem errorColumn_dictRow {α : Type} (convert : ℤ → α) :
    errorColumn convert (samples.zipIdx.map (dictRow args))
      = .ok (samples.map fun m => convert m.errorNs) := by
  have hfst : samples.map (fun m => convert m.errorNs)
      = samples.zipIdx.map fun mk => convert mk.1.errorNs := by
    conv_lhs => rw [← List.zipIdx_map_fst 0 samples]
    rw [List.map_map]
    rfl
  rw [errorColumn, List.mapM_map, hfst]
  refine mapM_eq_ok fun mk _ => ?_
  rw [Function.comp_apply, dictRow, intField_row.1]
  rfl

/-- What has been printed before a row is begun. -/
theorem dictRows_printed :
    dictRows (unlines (header :: rows args samples)) = .ok (samples.zipIdx.map (dictRow args)) := by
  have hrows := dictRows_eq args samples (q := []) (by simp)
  rwa [List.append_nil, Csv.lastLine, if_pos rfl, List.map_nil, List.append_nil] at hrows

theorem loadErrors_printed {α : Type} (convert : ℤ → α) :
    loadErrors convert (unlines (header :: rows args samples))
      = if samples.length = 500 then .ok (samples.map fun m => convert m.errorNs)
        else .error .valueError := by
  rw [loadErrors_eq (dictRows_printed args) (errorColumn_dictRow args convert), List.length_map]

theorem analyzeLoad_printed :
    Analyze.load (unlines (header :: rows args samples))
      = if samples.length = 500 then .ok (samples.map (·.errorNs), args.requestedNs)
        else .error .valueError := by
  rw [Analyze.load, Analyze.loadErrors, loadErrors_printed, dictRows_printed]
  by_cases hlen : samples.length = 500
  · rw [if_pos hlen, if_pos hlen]
    cases samples with
    | nil => simp at hlen
    | cons m samples =>
      show (do
        return (_, ← intField (dictRow args (m, 0)) requestedNsKey)) = _
      rw [dictRow, intField_row.2.1]
      rfl
  · rw [if_neg hlen, if_neg hlen]
    rfl

theorem readRows_printed :
    readRows (unlines (header :: rows args samples))
      = .ok (samples.mapIdx fun k m => ⟨k + 1, args.requestedNs, m.actualNs, m.errorNs⟩) := by
  rw [readRows, dictRows_printed, List.mapIdx_eq_zipIdx_map]
  show (samples.zipIdx.map (dictRow args)).mapM intRow = _
  rw [List.mapM_map]
  exact mapM_eq_ok fun mk _ => intField_row.2.2

end Printed

/-! ### The round trip -/

/-- **What a run has printed reads back as its completed trials.** Wherever a run is, on its way or
stopped, it has completed some first trials. Their samples are exact differences of the readings
of the clock; the text on standard output has one row for each of them, in order; the 500-row check
of the scripts passes exactly when there are 500; and the errors the scripts then work on are the
entries of the array, which is full when the loop is left. -/
theorem csv_round_trip (args : Args) (clock : Clock) (n : ℕ) :
    ∃ samples : List Sample,
      (samples.length ≤ args.trials ∧
        AtPoint args clock samples.length (stateAt args clock n).i (stateAt args clock n).point) ∧
      (∀ (k : ℕ) (m : Sample), samples[k]? = some m → ∃ start finish,
        clock (k + 1) (nsToTimespec args.requestedNs) = ⟨some start, 0, some finish⟩ ∧
          m.actualNs = finish.ns - start.ns ∧ m.errorNs = m.actualNs - args.requestedNs) ∧
      readRows (stateAt args clock n).stdout
        = .ok (samples.mapIdx fun k m => ⟨k + 1, args.requestedNs, m.actualNs, m.errorNs⟩) ∧
      (stateAt args clock n).errors = samples.map (fun m => some m.errorNs)
        ++ List.replicate (args.trials.toNat - samples.length) none ∧
      Analyze.load (stateAt args clock n).stdout
        = (if samples.length = 500 then .ok (samples.map (·.errorNs), args.requestedNs)
          else .error .valueError) ∧
      Plot.loadErrors (stateAt args clock n).stdout
        = (if samples.length = 500 then .ok (Plot.toMicroseconds (samples.map (·.errorNs)))
          else .error .valueError) := by
  obtain ⟨samples, h⟩ := inv_stateAt args clock n
  refine ⟨samples, ⟨h.length_le, h.atPoint⟩, ?_, ?_, h.errors, ?_, ?_⟩
  · intro k m hk
    obtain ⟨start, finish, hcalls, hexact, -⟩ := trial_completed_iff.mp (h.completed k m hk)
    exact ⟨start, finish, hcalls, hexact⟩
  · rw [h.stdout, readRows_printed]
  · rw [h.stdout, analyzeLoad_printed]
  · rw [h.stdout, Plot.loadErrors, loadErrors_printed, Plot.toMicroseconds, List.map_map]
    rfl

end HrtimerStudy
