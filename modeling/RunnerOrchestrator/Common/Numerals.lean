import RunnerOrchestrator.Common.Text
import RunnerOrchestrator.Foundation.Reading
import RunnerOrchestrator.Foundation.Runs

/-! # Numbers in texts

What `%d` and `%ld` print is what `atoi` and any reader of the program's output find: a
number ends where no digit follows.
-/

namespace RunnerOrchestrator

/-- The digits of a number, most significant first. -/
def digits (n : Nat) : CString := (Nat.toDigits 10 n).map fun c => c.toNat.toUInt8

theorem decimal_of_neg {i : Int} (h : i < 0) : decimal i = 45 :: digits i.natAbs := if_pos h

theorem decimal_of_nonneg {i : Int} (h : 0 ≤ i) : decimal i = digits i.natAbs :=
  if_neg (Int.not_lt.mpr h)

/-- A text behind which a number does not go on. -/
def EndsNumber (rest : CString) : Prop := ∀ c ∈ rest.head?, isDigit c = false

instance (rest : CString) : Decidable (EndsNumber rest) :=
  inferInstanceAs (Decidable (∀ c ∈ rest.head?, isDigit c = false))

theorem endsNumber_nil : EndsNumber [] := by
  intro c hc
  cases hc

/-! ## Digits -/

theorem toDigits_range {n : Nat} {c : Char} (h : c ∈ Nat.toDigits 10 n) :
    48 ≤ c.toNat ∧ c.toNat ≤ 57 := by
  have hd : c.isDigit = true := Nat.isDigit_of_mem_toDigits (by decide) (by decide) h
  simpa [Char.isDigit, UInt32.le_iff_toNat_le] using hd

theorem toNat_digit {n : Nat} {c : Char} (h : c ∈ Nat.toDigits 10 n) :
    c.toNat.toUInt8.toNat = c.toNat := by
  have hrange := toDigits_range h
  show c.toNat % 256 = c.toNat
  omega

theorem isDigit_of_mem_digits {n : Nat} {d : UInt8} (h : d ∈ digits n) : isDigit d = true := by
  rcases List.mem_map.mp h with ⟨c, hc, rfl⟩
  have hrange := toDigits_range hc
  have hval := toNat_digit hc
  simp only [isDigit, UInt8.le_iff_toNat_le, hval, Bool.and_eq_true, decide_eq_true_eq]
  exact hrange

theorem digits_ne_nil (n : Nat) : digits n ≠ [] := by
  rw [digits, ne_eq, List.map_eq_nil_iff]
  exact Nat.toDigits_ne_nil

theorem takeWhile_digits (n : Nat) {rest : CString} (h : EndsNumber rest) :
    (digits n ++ rest).takeWhile isDigit = digits n :=
  Runs.takeWhile_run (fun _ hd => isDigit_of_mem_digits hd) h

theorem dropWhile_digits (n : Nat) {rest : CString} (h : EndsNumber rest) :
    (digits n ++ rest).dropWhile isDigit = rest := by
  have hsplit := List.takeWhile_append_dropWhile (p := isDigit) (l := digits n ++ rest)
  rw [takeWhile_digits n h] at hsplit
  exact List.append_cancel_left hsplit

theorem foldl_digits (cs : List Char) (init : Nat)
    (h : ∀ c ∈ cs, c.toNat.toUInt8.toNat = c.toNat) :
    (cs.map fun c => c.toNat.toUInt8).foldl (fun n c => 10 * n + (c.toNat - 48)) init =
      Nat.ofDigitChars 10 cs init := by
  induction cs generalizing init with
  | nil => rfl
  | cons c cs ih =>
      have hc := h c List.mem_cons_self
      have htail : ∀ d ∈ cs, d.toNat.toUInt8.toNat = d.toNat := fun d hd =>
        h d (List.mem_cons_of_mem c hd)
      rw [List.map_cons, List.foldl_cons, ih _ htail, Nat.ofDigitChars_cons, hc]
      rfl

theorem digitsValue_digits (n : Nat) {rest : CString} (h : EndsNumber rest) :
    digitsValue (digits n ++ rest) = n := by
  rw [digitsValue, takeWhile_digits n h, digits, foldl_digits _ _ fun _ => toNat_digit]
  exact Nat.ofDigitChars_toDigits (by decide) (by decide)

/-! ## A reader -/

def readNat (s : CString) : Option (Nat × CString) :=
  if s.takeWhile isDigit = [] then none else some (digitsValue s, s.dropWhile isDigit)

theorem readNat_digits (n : Nat) {rest : CString} (h : EndsNumber rest) :
    readNat (digits n ++ rest) = some (n, rest) := by
  rw [readNat, takeWhile_digits n h, if_neg (digits_ne_nil n), digitsValue_digits n h,
    dropWhile_digits n h]

/-- A sign only in front of negative numbers. -/
def readInt (s : CString) : Option (Int × CString) :=
  if s.head? = some 45 then (readNat s.tail).map fun out => (-(out.1 : Int), out.2)
  else (readNat s).map fun out => ((out.1 : Int), out.2)

theorem head?_digits (n : Nat) (rest : CString) :
    ∃ d, (digits n ++ rest).head? = some d ∧ isDigit d = true := by
  rcases List.exists_cons_of_ne_nil (digits_ne_nil n) with ⟨d, ds, hds⟩
  refine ⟨d, by rw [hds]; rfl, isDigit_of_mem_digits (n := n) ?_⟩
  rw [hds]
  exact List.mem_cons_self

theorem readInt_decimal (i : Int) {rest : CString} (h : EndsNumber rest) :
    readInt (decimal i ++ rest) = some (i, rest) := by
  by_cases hneg : i < 0
  · rw [decimal_of_neg hneg, List.cons_append, readInt, List.head?_cons, if_pos rfl, List.tail_cons,
      readNat_digits _ h, Option.map_some]
    have hval : -(i.natAbs : Int) = i := by omega
    rw [hval]
  · have hval : (i.natAbs : Int) = i := by omega
    have hsign : (digits i.natAbs ++ rest).head? ≠ some 45 := by
      rcases head?_digits i.natAbs rest with ⟨d, hd, hdigit⟩
      intro heq
      rw [hd, Option.some.injEq] at heq
      rw [heq] at hdigit
      exact absurd hdigit (by decide)
    rw [decimal_of_nonneg (Int.not_lt.mp hneg), readInt, if_neg hsign, readNat_digits _ h,
      Option.map_some, hval]

def intFormat : Reading.Format Int UInt8 where
  write := decimal
  read := readInt
  follows := EndsNumber
  read_write _ _ := readInt_decimal _

/-! ## `atoi` -/

theorem dropWhile_pad {pad : CString} (hpad : ∀ c ∈ pad, isSpace c = true) {rest : CString}
    (h : ∀ c ∈ rest.head?, isSpace c = false) : (pad ++ rest).dropWhile isSpace = rest := by
  have hsplit := List.takeWhile_append_dropWhile (p := isSpace) (l := pad ++ rest)
  rw [Runs.takeWhile_run hpad h] at hsplit
  exact List.append_cancel_left hsplit

theorem isSpace_of_isDigit {d : UInt8} (h : isDigit d = true) : isSpace d = false := by
  simp only [isDigit, isSpace, UInt8.le_iff_toNat_le, Bool.and_eq_true, decide_eq_true_eq,
    Bool.or_eq_false_iff, decide_eq_false_iff_not, Bool.and_eq_false_iff] at h ⊢
  have hlow : 48 ≤ d.toNat := h.1
  refine ⟨?_, Or.inr ?_⟩
  · rintro rfl
    exact absurd hlow (by decide)
  · show ¬ d.toNat ≤ 13
    omega

/-- White space in front and any text behind that does not go on with a digit. -/
theorem strtol_decimal {i : Int} (hlow : -2 ^ 63 ≤ i) (hhigh : i ≤ 2 ^ 63 - 1) {pad rest : CString}
    (hpad : ∀ c ∈ pad, isSpace c = true) (h : EndsNumber rest) :
    strtol (pad ++ (decimal i ++ rest)) = i := by
  by_cases hneg : i < 0
  · have hspace : ∀ c ∈ (decimal i ++ rest).head?, isSpace c = false := by
      rw [decimal_of_neg hneg]
      simp [isSpace]
    rw [strtol, dropWhile_pad hpad hspace, decimal_of_neg hneg, List.cons_append]
    show max (-(digitsValue (digits i.natAbs ++ rest) : Int)) (-2 ^ 63) = i
    rw [digitsValue_digits _ h]
    omega
  · rcases head?_digits i.natAbs rest with ⟨d, hd, hdigit⟩
    have hspace : ∀ c ∈ (digits i.natAbs ++ rest).head?, isSpace c = false := by
      intro c hc
      rw [hd, Option.mem_some_iff] at hc
      rw [← hc]
      exact isSpace_of_isDigit hdigit
    rw [decimal_of_nonneg (Int.not_lt.mp hneg), strtol, dropWhile_pad hpad hspace]
    have hval := digitsValue_digits i.natAbs h
    split
    · next hcons =>
      rw [hcons, List.head?_cons, Option.some.injEq] at hd
      rw [← hd] at hdigit
      exact absurd hdigit (by decide)
    · next hcons =>
      rw [hcons, List.head?_cons, Option.some.injEq] at hd
      rw [← hd] at hdigit
      exact absurd hdigit (by decide)
    · rw [hval]
      omega

theorem atoi_decimal (n : Int32) {pad rest : CString} (hpad : ∀ c ∈ pad, isSpace c = true)
    (h : EndsNumber rest) : atoi (pad ++ (decimal n.toInt ++ rest)) = n := by
  have hlt := n.toInt_lt
  have hle := n.le_toInt
  rw [atoi, strtol_decimal (by omega) (by omega) hpad h]
  exact Int32.ofInt_toInt n

end RunnerOrchestrator
