import HrtimerStudy.Lib.DataFrame
import HrtimerStudy.Scripts.CutFile

/-!
# `read_errors_us`

The loading function of `report_analysis.py`, with its four assertions, on the output of
`timer_benchmark`. pandas is not part of the repository: its `read_csv` is a parameter, of which
only the contract `ReadsTables columns` is used. The division by 1000 is exact.

## Main definitions

* `readErrorsUs` — the function; an exception is `none`
* `fileOf` — the text of a table, in the format of the benchmark
* `Valid` — what the assertions say about a table of integers

## Main results

* `readErrorsUs_table` — a table is accepted exactly when it is valid
* `readErrorsUs_of_length`, `readErrorsUs_of_header`, `readErrorsUs_of_noNumber` — other tables that
  are rejected
* `isTable_fileOf` — the text of a table with something after it is a table
-/

namespace HrtimerStudy

open TimerBenchmark

/-! ### The function -/

/-- `np.arange(1, 501)`. -/
def trialNumbers : List Value := (List.range 500).map fun k : ℕ => .int (k + 1)

/-- `x / 1000.0`; what is no integer has no use after the assertions. -/
def Value.thousandth : Value → Option ℚ
  | .int z => some ((z : ℚ) / 1000)
  | .other => none

/-- The last assertion, which is made only if a delay is expected. -/
def asExpected (expectedNs : Option ℤ) (requestedNs : List Value) : Bool :=
  match expectedNs with
  | none => true
  | some expected => requestedNs.all fun x => x.eq (.int expected)

def readErrorsUs (readCsv : Text → Option Frame) (path : Text) (expectedNs : Option ℤ) :
    Option (List (Option ℚ)) := do
  let df ← readCsv path
  guard (df.length = 500)
  let trial ← df.column trialKey
  guard (allEq trial trialNumbers)
  let actualNs ← df.column actualNsKey
  let requestedNs ← df.column requestedNsKey
  let errorNs ← df.column errorNsKey
  guard (allEq (List.zipWith Value.sub actualNs requestedNs) errorNs)
  guard (asExpected expectedNs requestedNs)
  return errorNs.map Value.thousandth

/-! ### Tables of integers -/

namespace Row

def line (r : Row) : Text := row r.trial r.requestedNs r.actualNs r.errorNs

def fields (r : Row) : List Text := HrtimerStudy.fields r.trial r.requestedNs r.actualNs r.errorNs

/-- All four fields are of type `int64`. -/
structure Fits (r : Row) : Prop where
  trial : Fits64 r.trial
  requestedNs : Fits64 r.requestedNs
  actualNs : Fits64 r.actualNs
  errorNs : Fits64 r.errorNs

end Row

/-- The text of a table. -/
def fileOf (rows : List Row) : Text := unlines (header :: rows.map Row.line)

/-- What the assertions say about a table of integers. -/
structure Valid (expectedNs : ℤ) (rows : List Row) : Prop where
  length : rows.length = 500
  trial : ∀ (k : ℕ) (r : Row), rows[k]? = some r → r.trial = k + 1
  consistent : ∀ r ∈ rows, wrap64 (r.actualNs - r.requestedNs) = r.errorNs
  expected : ∀ r ∈ rows, r.requestedNs = expectedNs

section Table

variable {readCsv : Text → Option Frame} {text : Text} {expectedNs : Option ℤ}

/-- What is accepted has passed the four assertions. -/
theorem readErrorsUs_eq_some {result : List (Option ℚ)} :
    readErrorsUs readCsv text expectedNs = some result ↔
      ∃ df trial actualNs requestedNs errorNs, readCsv text = some df ∧ df.length = 500 ∧
        df.column trialKey = some trial ∧ df.column actualNsKey = some actualNs ∧
        df.column requestedNsKey = some requestedNs ∧ df.column errorNsKey = some errorNs ∧
        allEq trial trialNumbers = true ∧
        allEq (List.zipWith Value.sub actualNs requestedNs) errorNs = true ∧
        asExpected expectedNs requestedNs = true ∧ errorNs.map Value.thousandth = result := by
  simp only [readErrorsUs, Option.bind_eq_bind, Option.bind_eq_some_iff, Option.guard_eq_some',
    Option.pure_def, Option.some.injEq, exists_const]
  constructor
  · rintro ⟨df, hread, hlen, trial, htrial, hnumbers, actualNs, hactual, requestedNs, hrequested,
      errorNs, herror, hconsistent, hexpected, hresult⟩
    exact ⟨df, trial, actualNs, requestedNs, errorNs, hread, hlen, htrial, hactual, hrequested,
      herror, hnumbers, hconsistent, hexpected, hresult⟩
  · rintro ⟨df, trial, actualNs, requestedNs, errorNs, hread, hlen, htrial, hactual, hrequested,
      herror, hnumbers, hconsistent, hexpected, hresult⟩
    exact ⟨df, hread, hlen, trial, htrial, hnumbers, actualNs, hactual, requestedNs, hrequested,
      errorNs, herror, hconsistent, hexpected, hresult⟩

variable {rows : List Row}

/-- The text of a field is read as its value. -/
theorem map_ofField (f : Row → ℤ) (j : ℕ) (hf : ∀ r : Row, r.fields[j]? = some (decimal (f r))) :
    (rows.map Row.fields).map (fun fields => Value.ofField fields[j]?)
      = rows.map fun r => Value.int (f r) := by
  rw [List.map_map]
  refine List.map_congr_left fun r _ => ?_
  rw [Function.comp_apply, hf, Value.ofField_decimal]

theorem allEq_trialNumbers (hlen : rows.length = 500) :
    allEq (rows.map fun r => .int r.trial) trialNumbers = true
      ↔ ∀ (k : ℕ) (r : Row), rows[k]? = some r → r.trial = k + 1 := by
  have hnumber : ∀ k, k < 500 → trialNumbers[k]? = some (.int (k + 1)) := by
    intro k hk
    rw [trialNumbers, List.getElem?_map, List.getElem?_range hk, Option.map_some]
  have hlt : ∀ (k : ℕ) (r : Row), rows[k]? = some r → k < 500 := fun k r hk =>
    hlen ▸ (List.getElem?_eq_some_iff.mp hk).1
  rw [allEq_iff]
  constructor
  · intro h k r hk
    have heq := h k (.int r.trial) (.int (k + 1)) (by rw [List.getElem?_map, hk, Option.map_some])
      (hnumber k (hlt k r hk))
    exact of_decide_eq_true heq
  · intro h k x y hx hy
    rw [List.getElem?_map, Option.map_eq_some_iff] at hx
    obtain ⟨r, hr, rfl⟩ := hx
    rw [hnumber k (hlt k r hr)] at hy
    obtain rfl := Option.some.inj hy
    exact decide_eq_true (h k r hr)

theorem allEq_errorNs :
    allEq (List.zipWith Value.sub (rows.map fun r => .int r.actualNs)
        (rows.map fun r => .int r.requestedNs)) (rows.map fun r => .int r.errorNs) = true
      ↔ ∀ r ∈ rows, wrap64 (r.actualNs - r.requestedNs) = r.errorNs := by
  rw [allEq, List.zipWith_map, List.zipWith_self, List.zipWith_map, List.zipWith_self,
    List.all_eq_true]
  constructor
  · intro h r hr
    exact of_decide_eq_true (h _ (List.mem_map_of_mem hr))
  · intro h b hb
    obtain ⟨r, hr, rfl⟩ := List.mem_map.mp hb
    exact decide_eq_true (h r hr)

theorem asExpected_requestedNs {expected : ℤ} :
    asExpected (some expected) (rows.map fun r => .int r.requestedNs) = true
      ↔ ∀ r ∈ rows, r.requestedNs = expected := by
  rw [asExpected, List.all_map, List.all_eq_true]
  exact forall₂_congr fun r _ => decide_eq_true_iff

/-- The vector a table stands for. -/
def microseconds (rows : List Row) : List (Option ℚ) :=
  rows.map fun r => some ((r.errorNs : ℚ) / 1000)

/-- **A table of integers is accepted exactly when it is valid**, with the vector of its errors. -/
theorem readErrorsUs_table (hread : ReadsTables columns readCsv) (hfits : ∀ r ∈ rows, r.Fits)
    (htable : IsTable text columns (rows.map Row.fields)) {expected : ℤ}
    {result : List (Option ℚ)} :
    readErrorsUs readCsv text (some expected) = some result
      ↔ Valid expected rows ∧ microseconds rows = result := by
  have hcomplete : ∀ fields ∈ rows.map Row.fields, Complete columns fields := by
    intro fields hfields
    obtain ⟨r, hr, rfl⟩ := List.mem_map.mp hfields
    refine ⟨rfl, fun f hf => ?_⟩
    have hr' := hfits r hr
    simp only [Row.fields, HrtimerStudy.fields, List.mem_cons, List.not_mem_nil, or_false] at hf
    rcases hf with rfl | rfl | rfl | rfl
    · exact ⟨_, intLiteral_decimal _, hr'.trial⟩
    · exact ⟨_, intLiteral_decimal _, hr'.requestedNs⟩
    · exact ⟨_, intLiteral_decimal _, hr'.actualNs⟩
    · exact ⟨_, intLiteral_decimal _, hr'.errorNs⟩
  obtain ⟨frame, hframe, hcolumn⟩ := hread.complete htable hcomplete
  have hlength : frame.length = rows.length := by
    rw [hread.length_eq htable hframe, List.length_map]
  have htrial : frame.column trialKey = some (rows.map fun r => .int r.trial) :=
    (hcolumn (j := 0) rfl).trans (congrArg some (map_ofField Row.trial 0 fun _ => rfl))
  have hrequested : frame.column requestedNsKey = some (rows.map fun r => .int r.requestedNs) :=
    (hcolumn (j := 1) rfl).trans (congrArg some (map_ofField Row.requestedNs 1 fun _ => rfl))
  have hactual : frame.column actualNsKey = some (rows.map fun r => .int r.actualNs) :=
    (hcolumn (j := 2) rfl).trans (congrArg some (map_ofField Row.actualNs 2 fun _ => rfl))
  have herror : frame.column errorNsKey = some (rows.map fun r => .int r.errorNs) :=
    (hcolumn (j := 3) rfl).trans (congrArg some (map_ofField Row.errorNs 3 fun _ => rfl))
  have hvector : (rows.map fun r => Value.int r.errorNs).map Value.thousandth
      = microseconds rows := List.map_map
  rw [readErrorsUs_eq_some]
  constructor
  · rintro ⟨df, trial, actualNs, requestedNs, errorNs, hdf, hlen, ht, ha, hr, he, hnumbers,
      hconsistent, hexpected, hresult⟩
    obtain rfl : frame = df := Option.some.inj (hframe.symm.trans hdf)
    obtain rfl := Option.some.inj (htrial.symm.trans ht)
    obtain rfl := Option.some.inj (hactual.symm.trans ha)
    obtain rfl := Option.some.inj (hrequested.symm.trans hr)
    obtain rfl := Option.some.inj (herror.symm.trans he)
    have hlen' : rows.length = 500 := hlength.symm.trans hlen
    exact ⟨⟨hlen', (allEq_trialNumbers hlen').mp hnumbers, allEq_errorNs.mp hconsistent,
      asExpected_requestedNs.mp hexpected⟩, hvector.symm.trans hresult⟩
  · rintro ⟨hvalid, hresult⟩
    exact ⟨frame, _, _, _, _, hframe, hlength.trans hvalid.length, htrial, hactual, hrequested,
      herror, (allEq_trialNumbers hvalid.length).mpr hvalid.trial,
      allEq_errorNs.mpr hvalid.consistent, asExpected_requestedNs.mpr hvalid.expected,
      hvector.trans hresult⟩

/-! ### Rejected tables -/

/-- Any other number of rows is rejected, whatever is in them. -/
theorem readErrorsUs_of_length (hread : ReadsTables columns readCsv) {fields : List (List Text)}
    (htable : IsTable text columns fields) (hlen : fields.length ≠ 500) :
    readErrorsUs readCsv text expectedNs = none := by
  rw [Option.eq_none_iff_forall_ne_some]
  intro result hresult
  obtain ⟨df, -, -, -, -, hdf, hlen', -⟩ := readErrorsUs_eq_some.mp hresult
  exact hlen ((hread.length_eq htable hdf).symm.trans hlen')

/-- A header alone is rejected, whatever its names are. -/
theorem readErrorsUs_of_header (hread : ReadsTables columns readCsv) {names : List Text}
    (htable : IsTable text names []) : readErrorsUs readCsv text expectedNs = none := by
  rw [Option.eq_none_iff_forall_ne_some]
  intro result hresult
  obtain ⟨df, -, -, -, -, hdf, hlen, -⟩ := readErrorsUs_eq_some.mp hresult
  exact absurd ((hread.header htable hdf).symm.trans hlen) (by decide)

/-- A row without an error is rejected. -/
theorem readErrorsUs_of_noNumber (hread : ReadsTables columns readCsv) {fields : List (List Text)}
    (htable : IsTable text columns fields) {row : List Text} (hrow : row ∈ fields)
    (hfield : NoNumber row[3]?) : readErrorsUs readCsv text expectedNs = none := by
  rw [Option.eq_none_iff_forall_ne_some]
  intro result hresult
  obtain ⟨df, trial, actualNs, requestedNs, errorNs, hdf, -, -, hactual, hrequested, herror, -,
    hconsistent, -, -⟩ := readErrorsUs_eq_some.mp hresult
  obtain ⟨k, hk⟩ := List.mem_iff_getElem?.mp hrow
  have hother := hread.other htable hdf (j := 3) rfl herror hk hfield
  have hlt : k < df.length := by
    rw [← df.length_column _ _ herror]
    exact (List.getElem?_eq_some_iff.mp hother).1
  have hactual' : k < actualNs.length := by rwa [df.length_column _ _ hactual]
  have hrequested' : k < requestedNs.length := by rwa [df.length_column _ _ hrequested]
  have hdifference : (List.zipWith Value.sub actualNs requestedNs)[k]?
      = some (actualNs[k].sub requestedNs[k]) := by
    rw [List.getElem?_zipWith, List.getElem?_eq_getElem hactual',
      List.getElem?_eq_getElem hrequested']
  have heq := allEq_iff.mp hconsistent k _ _ hdifference hother
  obtain ⟨z, -, hz⟩ := Value.eq_iff.mp heq
  cases hz

end Table

/-! ### Texts of tables -/

theorem plainChar_header : ∀ c ∈ header, PlainChar c := by
  have hall : header.all (fun c => decide (PlainChar c)) = true := by decide
  simpa only [List.all_eq_true, decide_eq_true_eq] using hall

theorem plainChar_decimal {z : ℤ} {c : Char} (h : c ∈ decimal z) : PlainChar c := by
  refine ⟨(unquoted_decimal h).2.2, ?_⟩
  rcases mem_decimal h with rfl | hdigit
  · decide
  · exact isSpace_eq_false_of_isDigit hdigit

theorem plainChar_row {i r a e : ℤ} {c : Char} (h : c ∈ row i r a e) : PlainChar c := by
  rcases mem_csvLine h with rfl | ⟨f, hf, hc⟩
  · decide
  · simp only [List.mem_cons, List.not_mem_nil, or_false] at hf
    rcases hf with rfl | rfl | rfl | rfl <;> exact plainChar_decimal hc

theorem PlainChar.ne_newline {c : Char} (h : PlainChar c) : c ≠ '\n' := by
  rintro rfl
  exact absurd h.2 (by decide)

theorem plainChar_line {rows : List Row} {l : Text} (hl : l ∈ header :: rows.map Row.line) :
    l ≠ [] ∧ ∀ c ∈ l, PlainChar c := by
  rcases List.mem_cons.mp hl with rfl | hl
  · exact ⟨by decide, plainChar_header⟩
  · obtain ⟨r, -, rfl⟩ := List.mem_map.mp hl
    exact ⟨row_ne_nil, fun c => plainChar_row⟩

/-- **The text of a table**, followed by the beginning of another row. -/
theorem isTable_fileOf (rows : List Row) {q : Text} (hq : ∀ c ∈ q, PlainChar c)
    (hlen : (csvFields q).length ≤ 4) :
    IsTable (fileOf rows ++ q) columns
      (rows.map Row.fields ++ if q = [] then [] else [csvFields q]) where
  plain := by
    intro c hc
    rcases List.mem_append.mp hc with hc | hc
    · rcases mem_unlines hc with hc | ⟨l, hl, hc⟩
      · exact Or.inl hc
      · exact Or.inr ((plainChar_line hl).2 c hc)
    · exact Or.inr (hq c hc)
  lines := by
    have hlines : ∀ l ∈ header :: rows.map Row.line, l ≠ [] ∧ '\n' ∉ l := fun l hl =>
      ⟨(plainChar_line hl).1, fun hmem => ((plainChar_line hl).2 _ hmem).ne_newline rfl⟩
    have hfields : (rows.map Row.line).map csvFields = rows.map Row.fields := by
      rw [List.map_map]
      exact List.map_congr_left fun r _ => csvFields_row
    rw [fileOf, nonemptyLines_unlines hlines fun hmem => (hq _ hmem).ne_newline rfl,
      List.cons_append, List.map_cons, List.map_append, csvFields_header, hfields]
    split_ifs <;> rfl
  names := by decide
  length_le := by
    intro fields hfields
    rcases List.mem_append.mp hfields with hfields | hfields
    · obtain ⟨r, -, rfl⟩ := List.mem_map.mp hfields
      exact le_rfl
    · split_ifs at hfields
      · cases hfields
      · rw [List.mem_singleton.mp hfields]
        exact hlen

theorem isTable_fileOf_nil {rows : List Row} :
    IsTable (fileOf rows) columns (rows.map Row.fields) := by
  have h := isTable_fileOf rows (q := []) (by simp) (by decide)
  rwa [List.append_nil, if_pos rfl, List.append_nil] at h

/-- A last row without a newline is a row. -/
theorem isTable_fileOf_line {rows : List Row} {r : Row} :
    IsTable (fileOf rows ++ r.line) columns ((rows ++ [r]).map Row.fields) := by
  have hne : r.line ≠ [] := row_ne_nil
  have hfields : csvFields r.line = r.fields := csvFields_row
  have h := isTable_fileOf rows (q := r.line) (fun c => plainChar_row)
    (by rw [hfields]; exact le_rfl)
  rwa [if_neg hne, hfields, ← List.map_singleton, ← List.map_append] at h

/-- Part of the header is a header. -/
theorem isTable_header {q : Text} (hq : q <+: header) (hne : q ≠ []) :
    IsTable q (csvFields q) [] where
  plain := fun c hc => Or.inr (plainChar_header c (hq.subset hc))
  lines := by
    have hnl : '\n' ∉ q := fun hmem => (plainChar_header _ (hq.subset hmem)).ne_newline rfl
    rw [nonemptyLines, List.splitOn_eq_singleton hnl, List.filter_cons_of_pos (by simpa using hne)]
    rfl
  names := by
    have hprefixes : ∀ k < 38, (csvFields (header.take k)).Nodup := by decide
    rw [List.prefix_iff_eq_take.mp hq]
    exact hprefixes _ (Nat.lt_succ_of_le hq.length_le)
  length_le := by
    intro row hrow
    cases hrow

end HrtimerStudy
