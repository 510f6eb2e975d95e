import HrtimerStudy.Report.ReadErrors

/-!
# What the validation of a file guarantees

The four assertions of `read_errors_us` leave no freedom: the trial numbers, the requested delay and
the errors determine a valid table, although the difference of the times is computed modulo
`2 ^ 64`. Hence every damage to the table of a run is detected, and so is every cut of its text,
except the one that only loses the final newline.

## Main definitions

* `Damage` — the ways to damage a table
* `runRows` — the table of a run

## Main results

* `Valid.unique`, `Damage.not_valid` — a valid table is determined, and damage makes it invalid
* `readErrorsUs_cut_before`, `readErrorsUs_cut_inside` — cuts are rejected
* `readErrorsUs_validates` — the function validates its file
-/

namespace HrtimerStudy

open TimerBenchmark

/-! ### Valid tables -/

section Valid

variable {rows rows' : List Row} {expected : ℤ}

/-- **A valid table is determined** by the requested delay and the errors. -/
theorem Valid.unique (h : Valid expected rows) (h' : Valid expected rows')
    (hfits : ∀ r ∈ rows, r.Fits) (hfits' : ∀ r ∈ rows', r.Fits)
    (herrors : microseconds rows = microseconds rows') : rows = rows' := by
  refine List.ext_getElem (h.length.trans h'.length.symm) fun k hk hk' => ?_
  have hmem := List.getElem_mem hk
  have hmem' := List.getElem_mem hk'
  have htrial : rows[k].trial = rows'[k].trial := by
    rw [h.trial k _ (List.getElem?_eq_getElem hk), h'.trial k _ (List.getElem?_eq_getElem hk')]
  have hrequested : rows[k].requestedNs = rows'[k].requestedNs := by
    rw [h.expected _ hmem, h'.expected _ hmem']
  have herror : rows[k].errorNs = rows'[k].errorNs := by
    have heq : (microseconds rows)[k]? = (microseconds rows')[k]? := by rw [herrors]
    rw [microseconds, microseconds, List.getElem?_map, List.getElem?_map,
      List.getElem?_eq_getElem hk, List.getElem?_eq_getElem hk', Option.map_some, Option.map_some,
      Option.some.injEq, Option.some.injEq] at heq
    exact_mod_cast (div_left_inj' (by norm_num : (1000 : ℚ) ≠ 0)).mp heq
  have hactual : rows[k].actualNs = rows'[k].actualNs := by
    refine wrap64_sub_left_inj (r := rows[k].requestedNs) (hfits _ hmem).actualNs
      (hfits' _ hmem').actualNs ?_
    rw [h.consistent _ hmem, hrequested, h'.consistent _ hmem', herror]
  calc rows[k] = ⟨rows[k].trial, rows[k].requestedNs, rows[k].actualNs, rows[k].errorNs⟩ := rfl
    _ = ⟨rows'[k].trial, rows'[k].requestedNs, rows'[k].actualNs, rows'[k].errorNs⟩ := by
        rw [htrial, hrequested, hactual, herror]
    _ = rows'[k] := rfl

/-- A row with another value in one of its fields. -/
inductive Row.Altered (r : Row) : Row → Prop
  | trial (z : ℤ) (hz : z ≠ r.trial) : Altered r { r with trial := z }
  | requestedNs (z : ℤ) (hz : z ≠ r.requestedNs) : Altered r { r with requestedNs := z }
  | actualNs (z : ℤ) (hz : z ≠ r.actualNs) : Altered r { r with actualNs := z }
  | errorNs (z : ℤ) (hz : z ≠ r.errorNs) : Altered r { r with errorNs := z }

/-- A table with at least one row deleted, with a copy of a row, with two rows exchanged, or with
one field of one row changed. -/
inductive Damage : List Row → List Row → Prop
  | delete {rows rows' : List Row} (h : rows'.Sublist rows) (hne : rows' ≠ rows) :
      Damage rows rows'
  | duplicate {before after : List Row} {r : Row} (h : r ∈ before ++ after) :
      Damage (before ++ after) (before ++ r :: after)
  | exchange {before between after : List Row} {r s : Row} (h : r ≠ s) :
      Damage (before ++ r :: (between ++ s :: after)) (before ++ s :: (between ++ r :: after))
  | alter {before after : List Row} {r r' : Row} (h : r.Altered r') :
      Damage (before ++ r :: after) (before ++ r' :: after)

theorem Valid.trial_append {before after : List Row} {r : Row}
    (h : Valid expected (before ++ r :: after)) : r.trial = before.length + 1 :=
  h.trial before.length r (by simp)

theorem Valid.not_altered {before after : List Row} {r r' : Row}
    (h : Valid expected (before ++ r :: after)) (h' : Valid expected (before ++ r' :: after))
    (hfits : r.Fits) (hfits' : r'.Fits) : ¬r.Altered r' := by
  have hconsistent := h.consistent r (by simp)
  have hconsistent' := h'.consistent r' (by simp)
  have hexpected := h.expected r (by simp)
  have hexpected' := h'.expected r' (by simp)
  rintro (⟨z, hz⟩ | ⟨z, hz⟩ | ⟨z, hz⟩ | ⟨z, hz⟩)
  · exact hz (h'.trial_append.trans h.trial_append.symm)
  · exact hz (hexpected'.trans hexpected.symm)
  · exact hz (wrap64_sub_left_inj hfits'.actualNs hfits.actualNs
      (hconsistent'.trans hconsistent.symm))
  · exact hz (hconsistent'.symm.trans hconsistent)

/-- **Damage is detected.** -/
theorem Damage.not_valid (h : Damage rows rows') (hvalid : Valid expected rows)
    (hfits : ∀ r ∈ rows, r.Fits) (hfits' : ∀ r ∈ rows', r.Fits) : ¬Valid expected rows' := by
  intro hvalid'
  cases h with
  | delete hsub hne => exact hne (hsub.eq_of_length (hvalid'.length.trans hvalid.length.symm))
  | duplicate hmem =>
    have hlen := hvalid.length
    have hlen' := hvalid'.length
    simp only [List.length_append, List.length_cons] at hlen hlen'
    omega
  | @exchange before between after r s hne =>
    -- the row that comes first now has the number of its old place
    have hold : Valid expected ((before ++ r :: between) ++ s :: after) := by
      rwa [List.append_assoc, List.cons_append]
    have hs := hold.trial_append
    have hs' := hvalid'.trial_append
    rw [List.length_append, List.length_cons] at hs
    omega
  | alter halter =>
    exact hvalid.not_altered hvalid' (hfits _ (by simp)) (hfits' _ (by simp)) halter

end Valid

/-! ### The table of a run -/

section Run

variable {args : Args} {clock : Clock} {samples : List Sample}

/-- The table of completed trials. -/
def runRows (args : Args) (samples : List Sample) : List Row :=
  samples.mapIdx fun k m => ⟨k + 1, args.requestedNs, m.actualNs, m.errorNs⟩

theorem fileOf_runRows : fileOf (runRows args samples) = unlines (header :: rows args samples) := by
  rw [fileOf, runRows, List.mapIdx_eq_zipIdx_map, List.map_map, rows_eq_map]
  rfl

theorem runRows_concat (m : Sample) :
    runRows args (samples ++ [m])
      = runRows args samples
        ++ [⟨samples.length + 1, args.requestedNs, m.actualNs, m.errorNs⟩] := by
  simp [runRows, List.mapIdx_append]

theorem getElem?_runRows {k : ℕ} {r : Row} (h : (runRows args samples)[k]? = some r) :
    ∃ m, samples[k]? = some m ∧ r = ⟨k + 1, args.requestedNs, m.actualNs, m.errorNs⟩ := by
  rw [runRows, List.getElem?_mapIdx, Option.map_eq_some_iff] at h
  obtain ⟨m, hm, rfl⟩ := h
  exact ⟨m, hm, rfl⟩

theorem fits_runRows (h : Completed args clock samples) (hlen : samples.length ≤ 500) :
    ∀ r ∈ runRows args samples, r.Fits := by
  intro r hr
  obtain ⟨k, hk⟩ := List.mem_iff_getElem?.mp hr
  obtain ⟨m, hm, rfl⟩ := getElem?_runRows hk
  obtain ⟨start, finish, -, -, -, -, hactual, herror⟩ := trial_completed_iff.mp (h k m hm)
  have hlt := (List.getElem?_eq_some_iff.mp hm).1
  have htrial : Fits64 ((k : ℤ) + 1) := ⟨by omega, by omega⟩
  have hrequested : Fits64 args.requestedNs :=
    ⟨by have := args.requestedNs_pos; omega, args.requestedNs_le⟩
  exact ⟨htrial, hrequested, hactual, herror⟩

/-- **The table of a completed run is valid.** -/
theorem valid_runRows (h : Completed args clock samples) (hlen : samples.length = 500) :
    Valid args.requestedNs (runRows args samples) where
  length := by rw [runRows, List.length_mapIdx, hlen]
  trial := by
    intro k r hk
    obtain ⟨m, -, rfl⟩ := getElem?_runRows hk
    rfl
  consistent := by
    intro r hr
    obtain ⟨k, hk⟩ := List.mem_iff_getElem?.mp hr
    obtain ⟨m, hm, rfl⟩ := getElem?_runRows hk
    obtain ⟨start, finish, -, ⟨-, herror⟩, -, -, -, hfits⟩ := trial_completed_iff.mp (h k m hm)
    rw [← herror, wrap64_of_fits hfits]
  expected := by
    intro r hr
    obtain ⟨k, hk⟩ := List.mem_iff_getElem?.mp hr
    obtain ⟨m, -, rfl⟩ := getElem?_runRows hk
    rfl

theorem map_errorNs_runRows (args : Args) (samples : List Sample) :
    (runRows args samples).map Row.errorNs = samples.map (·.errorNs) := by
  refine List.ext_getElem (by simp [runRows]) fun k hk hk' => ?_
  simp [runRows]

end Run

/-! ### Cuts -/

section Cut

variable {readCsv : Text → Option Frame} {args : Args} {clock : Clock} {samples : List Sample}
  {m : Sample} {expectedNs : Option ℤ}

theorem readErrorsUs_nil (hread : ReadsTables columns readCsv) :
    readErrorsUs readCsv [] expectedNs = none := by
  rw [readErrorsUs, hread.empty]
  rfl

theorem length_csvFields_le {i r a e : ℤ} {q : Text} (hq : q <+: row i r a e) :
    (csvFields q).length ≤ 4 := by
  obtain ⟨j, f, hj, -, hfields⟩ :=
    csvFields_of_prefix (List.cons_ne_nil _ _) (fun _ => comma_not_mem_fields) hq
  have hj' : j < 4 := hj
  rw [hfields, List.length_append, List.length_take, List.length_singleton]
  omega

/-- The rows before a row that is begun. -/
theorem isTable_begun {q : Text} {i r a e : ℤ} (hq : q <+: row i r a e) :
    IsTable (unlines (header :: rows args samples) ++ q) columns
      ((runRows args samples).map Row.fields ++ if q = [] then [] else [csvFields q]) := by
  rw [← fileOf_runRows]
  exact isTable_fileOf _ (fun c hc => plainChar_row (hq.subset hc)) (length_csvFields_le hq)

/-- A last row whose last field has no number in it is rejected. -/
theorem readErrorsUs_of_last (hread : ReadsTables columns readCsv) {q : Text} {i r a e : ℤ}
    (hq : q <+: row i r a e) (hne : q ≠ []) (hfield : NoNumber (csvFields q)[3]?) :
    readErrorsUs readCsv (unlines (header :: rows args samples) ++ q) expectedNs = none := by
  have htable : IsTable (unlines (header :: rows args samples) ++ q) columns _ := isTable_begun hq
  rw [if_neg hne] at htable
  exact readErrorsUs_of_noNumber hread htable (List.mem_append_right _ (List.mem_singleton_self _))
    hfield

/-- A cut before the last number is rejected. -/
theorem readErrorsUs_cut_before (hread : ReadsTables columns readCsv) (hlen : samples.length = 499)
    {p : Text} (hp : p <+: beforeLast args samples m) :
    readErrorsUs readCsv p expectedNs = none := by
  rcases prefix_beforeLast args hp with hheader | ⟨k, q, hk, rfl, hq⟩ | ⟨q, rfl, hq⟩
  · by_cases hnil : p = []
    · rw [hnil, readErrorsUs_nil hread]
    · exact readErrorsUs_of_header hread (isTable_header hheader hnil)
  · -- at most 499 rows, whether or not another one is begun
    refine readErrorsUs_of_length hread (isTable_begun hq) ?_
    have hlast : (if q = [] then [] else [csvFields q]).length ≤ 1 := by split_ifs <;> simp
    rw [List.length_append, List.length_map, runRows, List.length_mapIdx, List.length_take]
    omega
  · -- the last row is missing, or it ends before its last field has a text
    have hrow : q <+: row (samples.length + 1) args.requestedNs m.actualNs m.errorNs := by
      rw [row_eq_append]
      exact hq.trans (List.prefix_append _ _)
    by_cases hnil : q = []
    · refine readErrorsUs_of_length hread (isTable_begun hrow) ?_
      rw [if_pos hnil, List.append_nil, List.length_map, runRows, List.length_mapIdx]
      omega
    · refine readErrorsUs_of_last hread hrow hnil ?_
      obtain ⟨j, f, hj, hf, hfields⟩ := csvFields_of_prefix_rowStart args hq
      rw [hfields]
      match j, hj, hf with
      | 0, _, _ | 1, _, _ | 2, _, _ => exact Or.inl rfl
      | 3, _, hf => exact Or.inr (Or.inl (congrArg some (hf rfl)))

/-- A cut inside the last number is rejected. -/
theorem readErrorsUs_cut_inside (hread : ReadsTables columns readCsv)
    (hcompleted : Completed args clock (samples ++ [m])) (hlen : samples.length = 499) {k : ℕ}
    (hk : k < (decimal m.errorNs).length) :
    readErrorsUs readCsv (beforeLast args samples m ++ (decimal m.errorNs).take k)
      (some args.requestedNs) = none := by
  have hlen' : (samples ++ [m]).length = 500 := by simp [hlen]
  have hvalid := valid_runRows hcompleted hlen'
  have hfits := fits_runRows hcompleted hlen'.le
  rw [runRows_concat] at hvalid hfits
  rw [beforeLast, List.append_assoc]
  rcases Nat.lt_or_ge (decimal m.errorNs).length (k + digitCount m.errorNs) with hdigit | hnone
  · -- the last row has another error
    obtain ⟨z, hnear, htake⟩ := take_decimal_of_digit hdigit hk
    have hline : rowStart args (samples.length + 1) m ++ (decimal m.errorNs).take k
        = Row.line ⟨samples.length + 1, args.requestedNs, m.actualNs, z⟩ := by
      rw [htake]
      exact (row_eq_append args ⟨m.actualNs, z⟩ _).symm
    have hlast := hfits ⟨samples.length + 1, args.requestedNs, m.actualNs, m.errorNs⟩ (by simp)
    have hfits' : ∀ r ∈ runRows args samples
        ++ [⟨samples.length + 1, args.requestedNs, m.actualNs, z⟩], r.Fits := by
      intro r hr
      rcases List.mem_append.mp hr with hr | hr
      · exact hfits r (List.mem_append_left _ hr)
      · rw [List.mem_singleton.mp hr]
        exact { hlast with errorNs := hlast.errorNs.of_between hnear }
    rw [hline, ← fileOf_runRows, Option.eq_none_iff_forall_ne_some]
    intro result hresult
    have hvalid' := ((readErrorsUs_table hread hfits' isTable_fileOf_line).mp hresult).1
    have hne : z ≠ m.errorNs := by omega
    have halter := Row.Altered.errorNs
      (r := ⟨samples.length + 1, args.requestedNs, m.actualNs, m.errorNs⟩) z hne
    exact hvalid.not_altered hvalid' (hfits _ (by simp)) (hfits' _ (by simp)) halter
  · -- the last field has no number in it
    have hcomma : ',' ∉ (decimal m.errorNs).take k := fun h =>
      comma_not_mem_decimal _ (List.mem_of_mem_take h)
    have hrow : rowStart args (samples.length + 1) m ++ (decimal m.errorNs).take k
        <+: row (samples.length + 1) args.requestedNs m.actualNs m.errorNs := by
      rw [row_eq_append]
      exact (List.prefix_append_right_inj _).mpr (List.take_prefix _ _)
    have hne : rowStart args (samples.length + 1) m ++ (decimal m.errorNs).take k ≠ [] := by
      rw [rowStart, csvLine_cons_cons]
      simp
    refine readErrorsUs_of_last hread hrow hne ?_
    rw [csvFields_rowStart args m hcomma]
    rcases take_decimal_of_no_digit hnone with hnil | hminus
    · exact Or.inr (Or.inl (congrArg some hnil))
    · exact Or.inr (Or.inr (congrArg some hminus))

/-- The text without its last newline is the text of the same table. -/
theorem isTable_unterminated : IsTable (beforeLast args samples m ++ decimal m.errorNs) columns
    ((runRows args (samples ++ [m])).map Row.fields) := by
  rw [beforeLast, List.append_assoc, ← row_eq_append, ← fileOf_runRows, runRows_concat]
  exact isTable_fileOf_line
    (r := ⟨samples.length + 1, args.requestedNs, m.actualNs, m.errorNs⟩)

/-- The proper prefixes of a text that ends in a number and a newline. -/
theorem prefix_number_newline {p before number : Text} (hp : p <+: before ++ number ++ ['\n'])
    (hne : p ≠ before ++ number ++ ['\n']) (hne' : p ≠ before ++ number) :
    p <+: before ∨ ∃ k < number.length, p = before ++ number.take k := by
  rcases List.prefix_concat_iff.mp hp with hwhole | hp
  · exact absurd hwhole hne
  · rcases List.prefix_or_prefix_of_prefix hp (List.prefix_append _ _) with hbefore | ⟨q, rfl⟩
    · exact Or.inl hbefore
    · have hq : q <+: number := (List.prefix_append_right_inj _).mp hp
      refine Or.inr ⟨q.length, ?_, ?_⟩
      · refine hq.length_le.lt_of_ne fun heq => hne' ?_
        rw [hq.eq_of_length heq]
      · rw [← List.prefix_iff_eq_take.mp hq]

end Cut

/-! ### The guarantee -/

/-- **`read_errors_us` validates its file.** The output of a completed run of 500 trials is the text
of a table. Complete, it is accepted with the errors in trial order, divided by 1000; without its
last newline it gives the same; every other prefix of it is rejected; and so is every damaged
table. Two tables that are accepted with the same delay and the same vector are one. -/
theorem readErrorsUs_validates {readCsv : Text → Option Frame} (hread : ReadsTables columns readCsv)
    (r : CompletedRun 500) :
    ∃ rows : List Row, r.stdout = fileOf rows ∧ rows.map Row.errorNs = r.errors ∧
      readErrorsUs readCsv r.stdout (some r.args.requestedNs)
        = some (r.errors.map fun e : ℤ => some ((e : ℚ) / 1000)) ∧
      readErrorsUs readCsv r.stdout.dropLast (some r.args.requestedNs)
        = some (r.errors.map fun e : ℤ => some ((e : ℚ) / 1000)) ∧
      (∀ p, p <+: r.stdout → p ≠ r.stdout → p ≠ r.stdout.dropLast →
        readErrorsUs readCsv p (some r.args.requestedNs) = none) ∧
      (∀ rows', Damage rows rows' → (∀ row ∈ rows', row.Fits) →
        readErrorsUs readCsv (fileOf rows') (some r.args.requestedNs) = none) ∧
      ∀ expectedNs rows₁ rows₂ result, (∀ row ∈ rows₁, row.Fits) → (∀ row ∈ rows₂, row.Fits) →
        readErrorsUs readCsv (fileOf rows₁) (some expectedNs) = some result →
        readErrorsUs readCsv (fileOf rows₂) (some expectedNs) = some result → rows₁ = rows₂ := by
  obtain ⟨samples, hlen, hcompleted, hprinted, herrors⟩ := r.exists_samples
  have hlen' : samples.length = 500 := by exact_mod_cast hlen
  have hvalid := valid_runRows hcompleted hlen'
  have hfits := fits_runRows hcompleted hlen'.le
  have hvector : microseconds (runRows r.args samples)
      = r.errors.map fun e : ℤ => some ((e : ℚ) / 1000) := by
    rw [herrors, ← map_errorNs_runRows r.args _, List.map_map]
    rfl
  have hstdout : r.stdout = fileOf (runRows r.args samples) := by rw [hprinted, fileOf_runRows]
  -- the text ends in the last error and a newline
  obtain ⟨first, m, rfl⟩ : ∃ first m, samples = first ++ [m] := by
    rcases List.eq_nil_or_concat samples with rfl | ⟨first, m, h⟩
    · simp at hlen'
    · exact ⟨first, m, h.trans List.concat_eq_append⟩
  have hfirst : first.length = 499 := by
    rw [List.length_append, List.length_singleton] at hlen'
    omega
  have hend : r.stdout = beforeLast r.args first m ++ decimal m.errorNs ++ ['\n'] := by
    rw [hprinted, printed_concat]
  have hdrop : r.stdout.dropLast = beforeLast r.args first m ++ decimal m.errorNs := by
    rw [hend, List.dropLast_concat]
  refine ⟨runRows r.args (first ++ [m]), hstdout, ?_, ?_, ?_, ?_, ?_, ?_⟩
  · rw [map_errorNs_runRows, herrors]
  · rw [hstdout]
    exact (readErrorsUs_table hread hfits isTable_fileOf_nil).mpr ⟨hvalid, hvector⟩
  · rw [hdrop]
    exact (readErrorsUs_table hread hfits isTable_unterminated).mpr ⟨hvalid, hvector⟩
  · intro p hp hne hne'
    rw [hdrop] at hne'
    rw [hend] at hp hne
    rcases prefix_number_newline hp hne hne' with hbefore | ⟨k, hk, rfl⟩
    · exact readErrorsUs_cut_before hread hfirst hbefore
    · exact readErrorsUs_cut_inside hread hcompleted hfirst hk
  · intro rows' hdamage hfits'
    rw [Option.eq_none_iff_forall_ne_some]
    intro result hresult
    have hvalid' := ((readErrorsUs_table hread hfits' isTable_fileOf_nil).mp hresult).1
    exact hdamage.not_valid hvalid hfits hfits' hvalid'
  · intro expectedNs rows₁ rows₂ result hfits₁ hfits₂ hresult₁ hresult₂
    obtain ⟨hvalid₁, hvector₁⟩ := (readErrorsUs_table hread hfits₁ isTable_fileOf_nil).mp hresult₁
    obtain ⟨hvalid₂, hvector₂⟩ := (readErrorsUs_table hread hfits₂ isTable_fileOf_nil).mp hresult₂
    exact hvalid₁.unique hvalid₂ hfits₁ hfits₂ (hvector₁.trans hvector₂.symm)

/-- A run whose sleeps are all 123 ns late, read by a plain reader. -/
theorem readErrorsUs_lateRun :
    readErrorsUs plainReadCsv lateRun.stdout (some 1000000)
      = some (List.replicate 499 (some (123 / 1000)) ++ [some (123 / 1000)]) := by
  obtain ⟨rows, -, -, hcomplete, -⟩ := readErrorsUs_validates (readsTables_plainReadCsv _) lateRun
  obtain ⟨-, -, -, -, -, -, herrors⟩ := lateRun_output
  refine hcomplete.trans ?_
  rw [herrors, List.map_append, List.map_replicate, List.map_singleton]
  norm_num

end HrtimerStudy
