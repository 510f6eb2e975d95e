import HrtimerStudy.Scripts.Loading

/-!
# Loading a file that was cut short

`printf` results are not checked and the runner does not look at the exit status, so the file of a
completed run may end at any byte. The loading code of the scripts guards against that with the
number of rows alone. The last row counts as a row as soon as its last field is begun, so a cut
inside the last number leaves a file that is accepted with a wrong error.

## Main definitions

* `Harmless` — the scripts raise, or work on the errors of the run
* `beforeLast` — the output up to the last number

## Main results

* `loadErrors_cut_before`, `loadErrors_cut_inside` — the two kinds of cut
* `cut_harmless_iff` — a cut is harmless unless it leaves some but not all digits of the last error
-/

namespace HrtimerStudy

open TimerBenchmark

/-! ### The last number -/

section LastNumber

variable (args : Args) (samples : List Sample) (m : Sample)

/-- The last row without its last field. -/
def rowStart (args : Args) (i : ℤ) (m : Sample) : Text :=
  csvLine [decimal i, decimal args.requestedNs, decimal m.actualNs, []]

theorem row_eq_append (i : ℤ) :
    row i args.requestedNs m.actualNs m.errorNs = rowStart args i m ++ decimal m.errorNs := by
  simp [row, rowStart, csvLine_cons_cons]

/-- The output up to the last number. -/
def beforeLast : Text :=
  unlines (header :: rows args samples) ++ rowStart args (samples.length + 1) m

theorem printed_concat :
    unlines (header :: rows args (samples ++ [m]))
      = beforeLast args samples m ++ decimal m.errorNs ++ ['\n'] := by
  rw [rows_concat, ← List.cons_append, unlines_append, row_eq_append, beforeLast]
  simp [unlines_cons]

theorem unquoted_rowStart {i : ℤ} {c : Char} (h : c ∈ rowStart args i m) : Csv.Unquoted c :=
  unquoted_row (row_eq_append args m i ▸ List.mem_append_left _ h)

/-- A row that is begun, with the text `f` where the last number was to be. -/
theorem csvFields_rowStart {i : ℤ} {f : Text} (hf : ',' ∉ f) :
    csvFields (rowStart args i m ++ f)
      = [decimal i, decimal args.requestedNs, decimal m.actualNs, f] := by
  have happend : rowStart args i m ++ f
      = csvLine [decimal i, decimal args.requestedNs, decimal m.actualNs, f] := by
    simp [rowStart, csvLine_cons_cons]
  rw [happend, csvFields_csvLine (List.cons_ne_nil _ _)]
  intro g hg
  simp only [List.mem_cons, List.not_mem_nil, or_false] at hg
  rcases hg with rfl | rfl | rfl | rfl
  · exact comma_not_mem_decimal _
  · exact comma_not_mem_decimal _
  · exact comma_not_mem_decimal _
  · exact hf

variable {samples m}

theorem dictRows_beforeLast (samples : List Sample) (m : Sample) {k : ℕ} :
    dictRows (beforeLast args samples m ++ (decimal m.errorNs).take k)
      = .ok (samples.zipIdx.map (dictRow args) ++ [⟨columns,
        [decimal (samples.length + 1), decimal args.requestedNs, decimal m.actualNs,
          (decimal m.errorNs).take k]⟩]) := by
  have hcomma : ',' ∉ (decimal m.errorNs).take k := fun h =>
    comma_not_mem_decimal _ (List.mem_of_mem_take h)
  have hunquoted : ∀ c ∈ rowStart args (samples.length + 1) m ++ (decimal m.errorNs).take k,
      Csv.Unquoted c := by
    intro c hc
    rcases List.mem_append.mp hc with hc | hc
    · exact unquoted_rowStart args m hc
    · exact unquoted_decimal (List.mem_of_mem_take hc)
  have hne : rowStart args (samples.length + 1) m ++ (decimal m.errorNs).take k ≠ [] := by
    rw [rowStart, csvLine_cons_cons]
    simp
  have h := dictRows_eq args samples hunquoted
  rwa [Csv.lastLine, if_neg hne, List.map_singleton, csvFields_rowStart args m hcomma,
    ← List.append_assoc] at h

/-! ### Cuts before the last number and inside it -/

theorem errorColumn_concat (samples : List Sample) {α : Type} (convert : ℤ → α) (d : Csv.DictRow) :
    errorColumn convert (samples.zipIdx.map (dictRow args) ++ [d])
      = match intField d errorNsKey with
        | .error e => .error e
        | .ok z => .ok ((samples.map fun m => convert m.errorNs) ++ [convert z]) := by
  have happend : errorColumn convert (samples.zipIdx.map (dictRow args) ++ [d])
      = do
        let errors ← errorColumn convert (samples.zipIdx.map (dictRow args))
        let last ← errorColumn convert [d]
        return errors ++ last := List.mapM_append
  have hlast : errorColumn convert [d] = do return [convert (← intField d errorNsKey)] := by
    simp [errorColumn]
  rw [happend, errorColumn_dictRow, hlast]
  cases intField d errorNsKey <;> rfl

/-- A row that is begun, with no text in its last field: some of the other fields, then part of the
next one. -/
theorem csvFields_of_prefix_rowStart {i : ℤ} {q : Text} (hq : q <+: rowStart args i m) :
    ∃ j f, j < 4 ∧ (j = 3 → f = []) ∧
      csvFields q = [decimal i, decimal args.requestedNs, decimal m.actualNs].take j ++ [f] := by
  have hcomma : ∀ f ∈ [decimal i, decimal args.requestedNs, decimal m.actualNs, []], ',' ∉ f := by
    intro f hf
    simp only [List.mem_cons, List.not_mem_nil, or_false] at hf
    rcases hf with rfl | rfl | rfl | rfl
    · exact comma_not_mem_decimal _
    · exact comma_not_mem_decimal _
    · exact comma_not_mem_decimal _
    · exact List.not_mem_nil
  obtain ⟨j, f, hj, hf, hfields⟩ := csvFields_of_prefix (List.cons_ne_nil _ _) hcomma hq
  refine ⟨j, f, hj, ?_, ?_⟩
  · rintro rfl
    exact List.prefix_nil.mp hf
  · rw [hfields]
    match j, hj with
    | 0, _ | 1, _ | 2, _ | 3, _ => rfl

theorem intField_of_prefix_rowStart {i : ℤ} {q : Text} (hq : q <+: rowStart args i m) :
    ∃ e, intField ⟨columns, csvFields q⟩ errorNsKey = .error e := by
  obtain ⟨j, f, hj, hf, hfields⟩ := csvFields_of_prefix_rowStart args hq
  rw [hfields]
  match j, hj, hf with
  | 0, _, _ => exact ⟨.typeError, rfl⟩
  | 1, _, _ => exact ⟨.typeError, rfl⟩
  | 2, _, _ => exact ⟨.typeError, rfl⟩
  | 3, _, hf =>
    obtain rfl := hf rfl
    exact ⟨.valueError, rfl⟩

/-- What is left by a cut before the last number: part of the header, some rows and part of a row
before the last one, or all rows before the last one and part of it. -/
theorem prefix_beforeLast {p : Text} (hp : p <+: beforeLast args samples m) :
    p <+: header ∨
      (∃ k q, ∃ hk : k < samples.length, p = unlines (header :: rows args (samples.take k)) ++ q ∧
        q <+: row (k + 1) args.requestedNs samples[k].actualNs samples[k].errorNs) ∨
      ∃ q, p = unlines (header :: rows args samples) ++ q ∧
        q <+: rowStart args (samples.length + 1) m := by
  rcases List.prefix_or_prefix_of_prefix hp (List.prefix_append _ _) with hshort | ⟨q, rfl⟩
  · rcases prefix_printed args hshort with hheader | ⟨k, q, hpq, hk, hq⟩
    · exact Or.inl hheader
    · rcases hk.lt_or_eq with hk' | rfl
      · refine Or.inr (Or.inl ⟨k, q, hk', hpq, ?_⟩)
        rcases hq with rfl | ⟨_, hq⟩
        · exact List.nil_prefix
        · exact hq
      · rw [List.take_length] at hpq
        refine Or.inr (Or.inr ⟨q, hpq, ?_⟩)
        rcases hq with rfl | ⟨hlt, -⟩
        · exact List.nil_prefix
        · exact absurd hlt (lt_irrefl _)
  · exact Or.inr (Or.inr ⟨q, rfl, (List.prefix_append_right_inj _).mp hp⟩)

/-- **A cut before the last number** is an error: there are too few rows, or the last row has no
text in its last field. -/
theorem loadErrors_cut_before (samples : List Sample) (m : Sample) {α : Type} (convert : ℤ → α)
    (hlen : samples.length = 499) {p : Text} (hp : p <+: beforeLast args samples m) :
    ∃ e, loadErrors convert p = .error e := by
  rcases prefix_beforeLast args hp with hheader | ⟨k, q, hk, rfl, hq⟩ | ⟨q, rfl, hq⟩
  · have hrows : dictRows p = .ok [] := by
      rw [dictRows, Csv.dictReader_header fun c hc => unquoted_header c (hheader.subset hc)]
    exact loadErrors_short convert hrows (by decide)
  · -- at most 499 rows, whether or not another one is begun
    have hrows := dictRows_eq args (samples.take k) fun c hc =>
      unquoted_row (hq.subset hc)
    refine loadErrors_short convert hrows ?_
    have hlast : (Csv.lastLine q).length ≤ 1 := by
      rw [Csv.lastLine]
      split_ifs <;> simp
    simp only [List.length_append, List.length_map, List.length_zipIdx, List.length_take]
    omega
  · -- the last row is missing, or it ends before its last field has a text
    have hrows := dictRows_eq args samples fun c hc =>
      unquoted_rowStart args m (hq.subset hc)
    rw [Csv.lastLine] at hrows
    split_ifs at hrows with hnil
    · refine loadErrors_short convert hrows ?_
      simp [hlen]
    · obtain ⟨e, he⟩ := intField_of_prefix_rowStart args hq
      refine ⟨e, loadErrors_error hrows ?_⟩
      rw [List.map_singleton, errorColumn_concat, he]

/-- **A cut inside the last number**: the last error is what is left of it. -/
theorem loadErrors_cut_inside {α : Type} (convert : ℤ → α) (hlen : samples.length = 499) {k : ℕ} :
    loadErrors convert (beforeLast args samples m ++ (decimal m.errorNs).take k)
      = match pyInt ((decimal m.errorNs).take k) with
        | none => .error .valueError
        | some z => .ok ((samples.map fun m => convert m.errorNs) ++ [convert z]) := by
  have hrows := dictRows_beforeLast args samples m (k := k)
  have hcolumn := errorColumn_concat args samples convert ⟨columns,
    [decimal (samples.length + 1), decimal args.requestedNs, decimal m.actualNs,
      (decimal m.errorNs).take k]⟩
  have hfield : intField ⟨columns,
      [decimal (samples.length + 1), decimal args.requestedNs, decimal m.actualNs,
        (decimal m.errorNs).take k]⟩ errorNsKey
      = match pyInt ((decimal m.errorNs).take k) with
        | none => .error .valueError
        | some z => .ok z := rfl
  rw [hfield] at hcolumn
  cases hread : pyInt ((decimal m.errorNs).take k) with
  | none =>
    rw [hread] at hcolumn
    exact loadErrors_error hrows hcolumn
  | some z =>
    rw [hread] at hcolumn
    rw [loadErrors_eq hrows hcolumn, if_pos (by simp [hlen])]

end LastNumber

/-! ### The requested delay -/

/-- 500 rows of a prefix include a complete first one, which has the requested delay. -/
theorem analyzeLoad_of_cut {args : Args} {samples : List Sample} {p : Text}
    (hp : p <+: unlines (header :: rows args samples)) {errors : List ℤ}
    (h : Analyze.loadErrors p = .ok errors) : Analyze.load p = .ok (errors, args.requestedNs) := by
  have hread : ∀ rows, dictRows p = .ok rows → rows.length = 500 := by
    intro rows hrows
    by_contra hne
    obtain ⟨e, he⟩ := loadErrors_short id hrows hne
    rw [Analyze.loadErrors, he] at h
    cases h
  rcases prefix_printed args hp with hheader | ⟨k, q, rfl, -, hq⟩
  · have hrows : dictRows p = .ok [] := by
      rw [dictRows, Csv.dictReader_header fun c hc => unquoted_header c (hheader.subset hc)]
    exact absurd (hread _ hrows) (by decide)
  · have hunquoted : ∀ c ∈ q, Csv.Unquoted c := by
      intro c hc
      rcases hq with rfl | ⟨_, hq⟩
      · cases hc
      · exact unquoted_row (hq.subset hc)
    have hrows := dictRows_eq args (samples.take k) hunquoted
    have hlen := hread _ hrows
    cases htake : samples.take k with
    | nil =>
      rw [htake, Csv.lastLine] at hlen
      split_ifs at hlen <;> simp at hlen
    | cons m ms =>
      rw [htake] at hrows h
      rw [Analyze.load, h, hrows]
      show (do
        return (_, ← intField (dictRow args (m, 0)) requestedNsKey)) = _
      rw [dictRow, intField_row.2.1]
      rfl

/-! ### Harmless cuts -/

/-- Loading raises, or it obtains what it should. -/
def Harmless {α : Type} (loaded : Except PyError α) (expected : α) : Prop :=
  ∀ x, loaded = .ok x → x = expected

namespace TimerBenchmark.CompletedRun

variable (r : CompletedRun 500) (c : ℕ)

def lastError : ℤ := r.errors.getLastD 0

/-- A cut after `c` bytes leaves some of the digits of the last number, but not all of them. -/
def CutsLastNumber : Prop :=
  r.stdout.length < c + 1 + digitCount r.lastError ∧ c + 1 < r.stdout.length

/-- The output around the last number. -/
theorem exists_last : ∃ samples m, samples.length = 499 ∧
    r.stdout = beforeLast r.args samples m ++ decimal m.errorNs ++ ['\n'] ∧
    r.stdout = unlines (header :: rows r.args (samples ++ [m])) ∧
    r.errors = samples.map (·.errorNs) ++ [m.errorNs] ∧ r.lastError = m.errorNs := by
  obtain ⟨samples, hlen, -, hstdout, herrors⟩ := r.exists_samples
  rcases List.eq_nil_or_concat samples with rfl | ⟨first, m, rfl⟩
  · simp at hlen
  · rw [List.concat_eq_append] at *
    have hlen' : first.length = 499 := by
      rw [List.length_append, List.length_singleton] at hlen
      omega
    have herrors' : r.errors = first.map (·.errorNs) ++ [m.errorNs] := by
      rw [herrors, List.map_append, List.map_singleton]
    refine ⟨first, m, hlen', ?_, hstdout, herrors', ?_⟩
    · rw [hstdout, printed_concat]
    · rw [lastError, herrors', List.getLastD_concat]

variable {r c}

/-- A cut after the last number is begun. -/
theorem take_stdout {samples : List Sample} {m : Sample}
    (hstdout : r.stdout = beforeLast r.args samples m ++ decimal m.errorNs ++ ['\n'])
    (hlo : (beforeLast r.args samples m).length ≤ c) (hhi : c < r.stdout.length) :
    r.stdout.take c = beforeLast r.args samples m
      ++ (decimal m.errorNs).take (c - (beforeLast r.args samples m).length) := by
  rw [hstdout, List.length_append, List.length_append, List.length_singleton] at hhi
  have hle : c ≤ (beforeLast r.args samples m ++ decimal m.errorNs).length := by
    rw [List.length_append]
    omega
  rw [hstdout, List.take_append_of_le_length hle, List.take_append, List.take_of_length_le hlo]

/-- **A cut elsewhere** is an error, or all errors are there. -/
theorem loadErrors_of_not_cuts {α : Type} (convert : ℤ → α) (h : ¬r.CutsLastNumber c) :
    (∃ e, loadErrors convert (r.stdout.take c) = .error e) ∨
      loadErrors convert (r.stdout.take c) = .ok (r.errors.map convert) := by
  obtain ⟨samples, m, hlen, hstdout, hprinted, herrors, hlast⟩ := r.exists_last
  have hmap : r.errors.map convert = (samples.map fun m => convert m.errorNs)
      ++ [convert m.errorNs] := by
    rw [herrors, List.map_append, List.map_map]
    rfl
  have hlength : r.stdout.length
      = (beforeLast r.args samples m).length + (decimal m.errorNs).length + 1 := by
    rw [hstdout, List.length_append, List.length_append, List.length_singleton]
  rcases Nat.lt_or_ge c (beforeLast r.args samples m).length with hbefore | hbegun
  · refine Or.inl (loadErrors_cut_before r.args samples m convert hlen ?_)
    rw [hstdout, List.append_assoc, List.take_append_of_le_length hbefore.le]
    exact List.take_prefix _ _
  · rcases Nat.lt_or_ge c r.stdout.length with hcut | hwhole
    · rw [take_stdout hstdout hbegun hcut, loadErrors_cut_inside r.args convert hlen]
      rw [CutsLastNumber, hlast] at h
      rcases Nat.lt_or_ge (c + 1) r.stdout.length with hinside | hend
      · -- no digit of the number is left
        have hdigits : c - (beforeLast r.args samples m).length + digitCount m.errorNs
            ≤ (decimal m.errorNs).length := by
          by_contra hdigit
          exact h ⟨by omega, hinside⟩
        refine Or.inl ⟨.valueError, ?_⟩
        rcases take_decimal_of_no_digit hdigits with hnil | hminus
        · rw [hnil, pyInt_nil]
        · rw [hminus, pyInt_minus]
      · -- only the final newline is lost
        rw [List.take_of_length_le (by omega), pyInt_decimal]
        exact Or.inr (by rw [hmap])
    · rw [List.take_of_length_le hwhole, hprinted, loadErrors_printed, if_pos (by simp [hlen])]
      exact Or.inr (by rw [hmap, List.map_append]; rfl)

/-- **A cut inside the last number** is accepted with another error in its place. -/
theorem loadErrors_of_cuts (h : r.CutsLastNumber c) :
    ∃ z, z ≠ r.lastError ∧ ∀ {α : Type} (convert : ℤ → α),
      loadErrors convert (r.stdout.take c)
        = .ok (r.errors.dropLast.map convert ++ [convert z]) := by
  obtain ⟨samples, m, hlen, hstdout, -, herrors, hlast⟩ := r.exists_last
  obtain ⟨hdigit, hcut⟩ := h
  have hlength : r.stdout.length
      = (beforeLast r.args samples m).length + (decimal m.errorNs).length + 1 := by
    rw [hstdout, List.length_append, List.length_append, List.length_singleton]
  have hcount := length_decimal m.errorNs
  rw [hlast] at hdigit ⊢
  have hbegun : (beforeLast r.args samples m).length ≤ c := by
    split_ifs at hcount <;> omega
  obtain ⟨z, hnear, hz⟩ := take_decimal_of_digit (z := m.errorNs)
    (k := c - (beforeLast r.args samples m).length) (by omega) (by omega)
  refine ⟨z, by omega, fun convert => ?_⟩
  rw [take_stdout hstdout hbegun (by omega), loadErrors_cut_inside r.args convert hlen,
    hz, pyInt_decimal, herrors, List.dropLast_concat, List.map_map]
  rfl

/-- Loading as such, whatever is done with each error, as long as it keeps errors apart. -/
theorem loadErrors_harmless_iff {α : Type} {convert : ℤ → α} (hconvert : convert.Injective) :
    Harmless (loadErrors convert (r.stdout.take c)) (r.errors.map convert)
      ↔ ¬r.CutsLastNumber c := by
  constructor
  · intro hharmless hcuts
    obtain ⟨z, hne, hload⟩ := loadErrors_of_cuts hcuts
    obtain ⟨samples, m, -, -, -, herrors, hlast⟩ := r.exists_last
    have heq := hharmless _ (hload convert)
    rw [herrors, List.dropLast_concat, List.map_append, List.append_cancel_left_eq] at heq
    rw [hlast] at hne
    exact hne (hconvert (List.singleton_inj.mp heq))
  · intro hcuts x hx
    rcases loadErrors_of_not_cuts convert hcuts with ⟨e, he⟩ | hok
    · rw [he] at hx
      cases hx
    · rw [hok] at hx
      exact (Except.ok.inj hx).symm

theorem analyzeLoad_harmless_iff :
    Harmless (Analyze.load (r.stdout.take c)) (r.errors, r.args.requestedNs)
      ↔ ¬r.CutsLastNumber c := by
  obtain ⟨samples, m, -, -, hprinted, -, -⟩ := r.exists_last
  have hprefix : r.stdout.take c <+: unlines (header :: rows r.args (samples ++ [m])) :=
    hprinted ▸ List.take_prefix _ _
  rw [← loadErrors_harmless_iff Function.injective_id, List.map_id]
  constructor
  · intro hharmless errors herrors
    exact congrArg Prod.fst (hharmless _ (analyzeLoad_of_cut hprefix herrors))
  · rintro hharmless ⟨errors, requestedNs⟩ hload
    cases herrors : Analyze.loadErrors (r.stdout.take c) with
    | error e =>
      rw [Analyze.load, herrors] at hload
      cases hload
    | ok errors' =>
      rw [analyzeLoad_of_cut hprefix herrors] at hload
      cases hload
      rw [hharmless _ herrors]

theorem plotLoadErrors_harmless_iff :
    Harmless (Plot.loadErrors (r.stdout.take c)) (Plot.toMicroseconds r.errors)
      ↔ ¬r.CutsLastNumber c := by
  refine loadErrors_harmless_iff fun x y hxy => ?_
  have h : (x : ℚ) / 1000 = (y : ℚ) / 1000 := hxy
  exact_mod_cast (div_left_inj' (by norm_num : (1000 : ℚ) ≠ 0)).mp h

end TimerBenchmark.CompletedRun

/-- **Exactly the cuts inside the last number do harm.** For the output of a completed run of 500
trials, cut after any number of bytes, the loading code of the scripts raises or works on the 500
errors of the run if and only if the cut leaves no digit of the last error or all of them. -/
theorem cut_harmless_iff (r : CompletedRun 500) (c : ℕ) :
    (Harmless (Analyze.load (r.stdout.take c)) (r.errors, r.args.requestedNs) ∧
      Harmless (Plot.loadErrors (r.stdout.take c)) (Plot.toMicroseconds r.errors))
      ↔ ¬r.CutsLastNumber c := by
  rw [CompletedRun.analyzeLoad_harmless_iff, CompletedRun.plotLoadErrors_harmless_iff, and_self_iff]

/-! ### A harmful cut -/

/-- 500 trials of one millisecond, one per second, each 123 ns late. -/
def lateArgs : Args := ⟨1000000, 500, by decide, by decide, by decide, by decide⟩

def lateClock : Clock := fun i _ => ⟨some ⟨i, 0⟩, 0, some ⟨i, 1000123⟩⟩

theorem completed_late :
    Completed lateArgs lateClock (List.replicate 500 ⟨1000123, 123⟩) := by
  intro k m hk
  have hlt := (List.getElem?_eq_some_iff.mp hk).1
  rw [List.length_replicate] at hlt
  obtain rfl := List.eq_of_mem_replicate (List.mem_of_getElem? hk)
  refine trial_completed_iff.mpr ⟨_, _, rfl, ⟨?_, rfl⟩, ⟨?_, ?_⟩, ⟨?_, ?_⟩, ?_, ?_⟩
  all_goals simp only [Timespec.ns, Fits64]; omega

def lateRun : CompletedRun 500 where
  args := lateArgs
  clock := lateClock
  steps := 1501
  trials_eq := rfl
  summary := by
    have hlen : ((List.replicate 500 (⟨1000123, 123⟩ : Sample)).length : ℤ) = lateArgs.trials := by
      rw [List.length_replicate]
      rfl
    exact (completed_late.stateAt hlen (by decide) (by decide)).1

theorem lateRun_output : ∃ first m, first.length = 499 ∧
    lateRun.stdout = unlines (header :: rows lateRun.args (first ++ [m])) ∧ m.errorNs = 123 ∧
    first.map (·.errorNs) = List.replicate 499 123 ∧
    lateRun.errors = List.replicate 499 123 ++ [123] := by
  obtain ⟨samples, hlen, hcompleted, hprinted, herrors⟩ := lateRun.exists_samples
  obtain rfl : samples = List.replicate 499 ⟨1000123, 123⟩ ++ [⟨1000123, 123⟩] :=
    (hcompleted.unique completed_late (by rw [List.length_replicate]; omega)).trans
      List.replicate_succ'
  refine ⟨_, _, List.length_replicate, hprinted, rfl, List.map_replicate, ?_⟩
  rw [herrors, List.map_append, List.map_replicate, List.map_singleton]

/-- Without its last two bytes the file of this run is accepted, and its last error is 12. -/
theorem lateRun_misread :
    lateRun.errors = List.replicate 500 123 ∧
      Analyze.load (lateRun.stdout.take (lateRun.stdout.length - 2))
        = .ok (List.replicate 499 123 ++ [12], 1000000) ∧
      ¬Harmless (Analyze.load (lateRun.stdout.take (lateRun.stdout.length - 2)))
        (lateRun.errors, lateRun.args.requestedNs) := by
  obtain ⟨first, m, hlen, hprinted, hm, hfirst, herrors⟩ := lateRun_output
  have hstdout := hprinted
  rw [printed_concat, hm] at hstdout
  have hlength : lateRun.stdout.length = (beforeLast lateRun.args first m).length + 4 := by
    rw [hstdout, List.length_append, List.length_append]
    rfl
  have hkept : lateRun.stdout.length - 2 - (beforeLast lateRun.args first m).length = 2 := by omega
  have hload : Analyze.loadErrors (lateRun.stdout.take (lateRun.stdout.length - 2))
      = .ok (List.replicate 499 123 ++ [12]) := by
    rw [← hm] at hstdout
    have hread : pyInt ((decimal m.errorNs).take 2) = some 12 := by
      rw [hm]
      decide
    rw [CompletedRun.take_stdout hstdout (by omega) (by omega), hkept, Analyze.loadErrors,
      loadErrors_cut_inside lateRun.args id hlen, hread, ← hfirst]
    rfl
  have hprefix : lateRun.stdout.take (lateRun.stdout.length - 2)
      <+: unlines (header :: rows lateRun.args (first ++ [m])) := by
    rw [← hprinted]
    exact List.take_prefix _ _
  have hanalyze := analyzeLoad_of_cut hprefix hload
  refine ⟨?_, hanalyze, fun hharmless => ?_⟩
  · exact herrors.trans List.replicate_succ'.symm
  · have heq := congrArg Prod.fst (hharmless _ hanalyze)
    rw [herrors, List.append_cancel_left_eq] at heq
    exact absurd heq (by decide)

end HrtimerStudy
