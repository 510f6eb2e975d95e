import Mathlib.Data.Int.Order.Basic
import Mathlib.Data.List.TakeDrop
import Mathlib.Tactic.Linarith
import Mathlib.Tactic.Ring

/-!
# Decimal integers as text

Printing an integer in decimal and reading it back, as C's `%d` and Python's `int` do, and what is
left when the text of a number is cut short. A cut number is the dangerous case of a truncated
file: it is still a number, and a different one.

## Main definitions

* `decimal` — the text of an integer, as `printf` prints it
* `intLiteral` — the value of an optional minus sign and digits, and nothing else
* `pyInt` — Python's `int`, which also accepts white space, a plus sign and underscores

## Main results

* `intLiteral_decimal`, `pyInt_decimal` — **round trip**
* `take_decimal_of_no_digit` — a cut that leaves no digit is not a number
* `take_decimal_of_digit` — any other proper cut is a different number
-/

namespace HrtimerStudy

/-- A text as the list of its characters. -/
abbrev Text := List Char

/-! ### Printing -/

/-- The decimal digits of `n`, without leading zeros. -/
def digits (n : ℕ) : Text := Nat.toDigits 10 n

/-- `%d` and `%lld`. -/
def decimal : ℤ → Text
  | .ofNat n => digits n
  | .negSucc n => '-' :: digits (n + 1)

theorem digits_ne_nil (n : ℕ) : digits n ≠ [] := Nat.toDigits_ne_nil

theorem isDigit_of_mem_digits {n : ℕ} {c : Char} (h : c ∈ digits n) : c.isDigit = true :=
  Nat.isDigit_of_mem_toDigits (by decide) (by decide) h

theorem length_digits_of_lt_ten {n : ℕ} (h : n < 10) : (digits n).length = 1 := by
  rw [digits, Nat.toDigits_of_lt_base h, List.length_singleton]

/-- The text of an integer is digits, after a minus sign or none. -/
theorem mem_decimal {z : ℤ} {c : Char} (h : c ∈ decimal z) : c = '-' ∨ c.isDigit = true := by
  cases z with
  | ofNat n => exact Or.inr (isDigit_of_mem_digits h)
  | negSucc n =>
    rcases List.mem_cons.mp h with h | h
    · exact Or.inl h
    · exact Or.inr (isDigit_of_mem_digits h)

/-- A sign and the digits of the absolute value. -/
theorem decimal_eq (z : ℤ) :
    decimal z = (if z < 0 then ['-'] else []) ++ digits z.natAbs := by
  cases z with
  | ofNat n => simp [decimal]
  | negSucc n => simp [decimal, Int.negSucc_lt_zero]

/-! ### Reading -/

/-- The value of a non-empty sequence of digits. -/
def natLiteral (ds : Text) : Option ℕ :=
  if ds ≠ [] ∧ ds.all Char.isDigit then some (Nat.ofDigitChars 10 ds 0) else none

/-- The value of an optional minus sign followed by digits. -/
def intLiteral : Text → Option ℤ
  | '-' :: ds => (natLiteral ds).map fun n : ℕ => -(n : ℤ)
  | ds => (natLiteral ds).map fun n : ℕ => (n : ℤ)

theorem natLiteral_of_digits {ds : Text} (hne : ds ≠ []) (hds : ∀ c ∈ ds, c.isDigit = true) :
    natLiteral ds = some (Nat.ofDigitChars 10 ds 0) :=
  if_pos ⟨hne, List.all_eq_true.mpr hds⟩

theorem intLiteral_minus (ds : Text) :
    intLiteral ('-' :: ds) = (natLiteral ds).map fun n : ℕ => -(n : ℤ) := rfl

/-- Without a minus sign in front, an integer literal is a natural one. -/
theorem intLiteral_of_digits {ds : Text} (hds : ∀ c ∈ ds, c.isDigit = true) :
    intLiteral ds = (natLiteral ds).map fun n : ℕ => (n : ℤ) := by
  rw [intLiteral]
  rintro ds' rfl
  exact absurd (hds '-' (List.mem_cons_self ..)) (by decide)

theorem natLiteral_digits (n : ℕ) : natLiteral (digits n) = some n := by
  rw [natLiteral_of_digits (digits_ne_nil n) fun _ => isDigit_of_mem_digits, digits,
    Nat.ofDigitChars_ten_toDigits]

/-- **Round trip.** -/
theorem intLiteral_decimal (z : ℤ) : intLiteral (decimal z) = some z := by
  cases z with
  | ofNat n =>
    rw [decimal, intLiteral_of_digits fun _ => isDigit_of_mem_digits, natLiteral_digits]
    rfl
  | negSucc n =>
    rw [decimal, intLiteral_minus, natLiteral_digits]
    rfl

/-! ### Cut numbers -/

/-- Dropping digits from the end of a number leaves the digits of a smaller one. -/
theorem take_digits {n k : ℕ} (hk₀ : 0 < k) (hk : k < (digits n).length) :
    ∃ n', 0 < n' ∧ n' < n ∧ (digits n).take k = digits n' := by
  induction n using Nat.strongRecOn with
  | ind n ih =>
    rcases Nat.lt_or_ge n 10 with hn | hn
    · rw [length_digits_of_lt_ten hn] at hk
      omega
    · have hsplit : digits n = digits (n / 10) ++ [(n % 10).digitChar] :=
        Nat.toDigits_of_base_le (by decide) hn
      rw [hsplit, List.length_append, List.length_singleton] at hk
      rw [hsplit, List.take_append_of_le_length (Nat.le_of_lt_succ hk)]
      rcases (Nat.le_of_lt_succ hk).lt_or_eq with hk' | rfl
      · obtain ⟨n', hpos, hlt, htake⟩ := ih (n / 10) (by omega) hk'
        exact ⟨n', hpos, by omega, htake⟩
      · exact ⟨n / 10, by omega, by omega, List.take_length⟩

/-- Number of digits of an integer. -/
def digitCount (z : ℤ) : ℕ := (digits z.natAbs).length

theorem length_decimal (z : ℤ) :
    (decimal z).length = (if z < 0 then 1 else 0) + digitCount z := by
  rw [decimal_eq, List.length_append, digitCount]
  split_ifs <;> rfl

/-- **A cut that leaves no digit is not a number**: nothing, or a lone minus sign. -/
theorem take_decimal_of_no_digit {z : ℤ} {k : ℕ} (h : k + digitCount z ≤ (decimal z).length) :
    (decimal z).take k = [] ∨ (decimal z).take k = ['-'] := by
  rw [length_decimal] at h
  rw [decimal_eq]
  split_ifs at h ⊢ with hz
  · have hk : k = 0 ∨ k = 1 := by omega
    rcases hk with rfl | rfl
    · exact Or.inl rfl
    · exact Or.inr rfl
  · obtain rfl : k = 0 := by omega
    exact Or.inl rfl

/-- **Any other proper cut is a different number**, nearer to zero. -/
theorem take_decimal_of_digit {z : ℤ} {k : ℕ} (h : (decimal z).length < k + digitCount z)
    (hk : k < (decimal z).length) :
    ∃ z', (0 ≤ z' ∧ z' < z ∨ z < z' ∧ z' ≤ 0) ∧ (decimal z).take k = decimal z' := by
  rw [length_decimal] at h hk
  rw [decimal_eq z]
  rw [digitCount] at h hk
  by_cases hz : z < 0
  · have habs : (z.natAbs : ℤ) = -z := Int.ofNat_natAbs_of_nonpos hz.le
    simp only [hz, if_true] at h hk ⊢
    obtain ⟨j, rfl⟩ : ∃ j, k = j + 1 := ⟨k - 1, by omega⟩
    obtain ⟨n', hpos, hlt, htake⟩ := take_digits (n := z.natAbs) (k := j) (by omega) (by omega)
    refine ⟨-(n' : ℤ), by omega, ?_⟩
    rw [List.singleton_append, List.take_succ_cons, htake, decimal_eq, if_pos (by omega),
      Int.natAbs_neg, Int.natAbs_natCast]
    rfl
  · have habs : (z.natAbs : ℤ) = z := Int.natAbs_of_nonneg (not_lt.mp hz)
    simp only [hz, if_false] at h hk ⊢
    obtain ⟨n', -, hlt, htake⟩ := take_digits (n := z.natAbs) (k := k) (by omega) (by omega)
    refine ⟨(n' : ℤ), by omega, ?_⟩
    rw [List.nil_append, htake, decimal_eq, if_neg (by omega), Int.natAbs_natCast]
    rfl

/-! ### Python's `int` -/

/-- The characters `str.strip` removes. -/
def isSpace (c : Char) : Bool :=
  let n := c.toNat
  (9 ≤ n && n ≤ 13) || (28 ≤ n && n ≤ 32) || n == 0x85 || n == 0xA0 || n == 0x1680 ||
    (0x2000 ≤ n && n ≤ 0x200A) || n == 0x2028 || n == 0x2029 || n == 0x202F || n == 0x205F ||
    n == 0x3000

def strip (s : Text) : Text := ((s.dropWhile isSpace).reverse.dropWhile isSpace).reverse

/-- Digits with single underscores between them; `afterDigit` says whether one may follow. -/
def digitGroups (value : ℕ) (afterDigit : Bool) : Text → Option ℕ
  | [] => if afterDigit then some value else none
  | c :: cs =>
    if c.isDigit then digitGroups (10 * value + (c.toNat - '0'.toNat)) true cs
    else if c = '_' ∧ afterDigit then digitGroups value false cs
    else none

/-- `int(s)` for a string of ASCII digits, or `none` for a `ValueError`. -/
def pyInt (s : Text) : Option ℤ :=
  match strip s with
  | '-' :: ds => (digitGroups 0 false ds).map fun n : ℕ => -(n : ℤ)
  | '+' :: ds => (digitGroups 0 false ds).map fun n : ℕ => (n : ℤ)
  | ds => (digitGroups 0 false ds).map fun n : ℕ => (n : ℤ)

theorem digitGroups_of_digits {ds : Text} (hds : ∀ c ∈ ds, c.isDigit = true) (value : ℕ) :
    digitGroups value true ds = some (Nat.ofDigitChars 10 ds value) := by
  induction ds generalizing value with
  | nil => simp [digitGroups]
  | cons c cs ih =>
    rw [digitGroups, if_pos (hds c (List.mem_cons_self ..)), Nat.ofDigitChars_cons]
    exact ih (fun d hd => hds d (List.mem_cons_of_mem _ hd)) _

theorem digitGroups_of_natLiteral {ds : Text} {n : ℕ} (h : natLiteral ds = some n) :
    digitGroups 0 false ds = some n := by
  rw [natLiteral] at h
  split_ifs at h with hds
  obtain ⟨hne, hall⟩ := hds
  rw [List.all_eq_true] at hall
  cases ds with
  | nil => exact absurd rfl hne
  | cons c cs =>
    rw [digitGroups, if_pos (hall c (List.mem_cons_self ..)),
      digitGroups_of_digits fun d hd => hall d (List.mem_cons_of_mem _ hd)]
    rw [Nat.ofDigitChars_cons] at h
    exact h

theorem isSpace_eq_false_of_isDigit {c : Char} (h : c.isDigit = true) : isSpace c = false := by
  simp only [Char.isDigit, Bool.and_eq_true, decide_eq_true_eq, UInt32.le_iff_toNat_le] at h
  have hlo : 48 ≤ c.toNat := h.1
  have hhi : c.toNat ≤ 57 := h.2
  simp only [isSpace, Bool.or_eq_false_iff, Bool.and_eq_false_iff, decide_eq_false_iff_not,
    beq_eq_false_iff_ne]
  omega

theorem strip_of_no_space {s : Text} (h : ∀ c ∈ s, isSpace c = false) : strip s = s := by
  have hdrop : ∀ t : Text, (∀ c ∈ t, isSpace c = false) → t.dropWhile isSpace = t := by
    intro t ht
    cases t with
    | nil => rfl
    | cons c cs => simp [ht c (List.mem_cons_self ..)]
  rw [strip, hdrop s h, hdrop s.reverse fun c hc => h c (List.mem_reverse.mp hc),
    List.reverse_reverse]

/-- What is an integer literal, Python's `int` reads as that integer. -/
theorem pyInt_of_intLiteral {s : Text} {z : ℤ} (h : intLiteral s = some z) : pyInt s = some z := by
  have hdigits : ∀ {ds : Text} {n : ℕ}, natLiteral ds = some n → ∀ c ∈ ds, c.isDigit = true := by
    intro ds n hn
    rw [natLiteral] at hn
    split_ifs at hn with hds
    exact List.all_eq_true.mp hds.2
  unfold intLiteral at h
  split at h
  · next ds =>
    obtain ⟨n, hn, rfl⟩ := Option.map_eq_some_iff.mp h
    have hspace : ∀ c ∈ '-' :: ds, isSpace c = false := by
      intro c hc
      rcases List.mem_cons.mp hc with rfl | hc
      · decide
      · exact isSpace_eq_false_of_isDigit (hdigits hn c hc)
    rw [pyInt, strip_of_no_space hspace]
    simp [digitGroups_of_natLiteral hn]
  · obtain ⟨n, hn, rfl⟩ := Option.map_eq_some_iff.mp h
    have hs := hdigits hn
    rw [pyInt, strip_of_no_space fun c hc => isSpace_eq_false_of_isDigit (hs c hc)]
    split
    · exact absurd (hs '-' (List.mem_cons_self ..)) (by decide)
    · exact absurd (hs '+' (List.mem_cons_self ..)) (by decide)
    · rw [digitGroups_of_natLiteral hn]
      rfl

/-- **Round trip through `printf` and `int`.** -/
theorem pyInt_decimal (z : ℤ) : pyInt (decimal z) = some z :=
  pyInt_of_intLiteral (intLiteral_decimal z)

theorem pyInt_nil : pyInt [] = none := by decide

theorem pyInt_minus : pyInt ['-'] = none := by decide

end HrtimerStudy
