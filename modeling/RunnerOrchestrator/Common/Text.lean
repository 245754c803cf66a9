import Mathlib.Algebra.Order.Ring.Int
import Mathlib.Data.List.Basic

/-! # C strings and decimal conversions

A C string is the list of its bytes before the terminating NUL. Conversions of
`%d`, `%ld` and `atoi` are over the integers; their fixed widths enter where a
value is read from or written to a field of the protocol.
-/

namespace RunnerOrchestrator

abbrev CString := List UInt8

/-- The bytes of an ASCII literal. -/
def text (s : String) : CString := s.toList.map fun c => c.toNat.toUInt8

/-- `snprintf` and `strncpy` into a buffer of `size` bytes that always ends in NUL. -/
def bounded (size : Nat) (s : CString) : CString := s.take (size - 1)

/-! ## Printing -/

/-- `%d` and `%ld`. -/
def decimal (i : Int) : CString :=
  let digits := (Nat.toDigits 10 i.natAbs).map fun c => c.toNat.toUInt8
  if i < 0 then 45 :: digits else digits

/-! ## Reading -/

/-- `isspace` in the C locale. -/
def isSpace (c : UInt8) : Bool := c = 32 || (9 ≤ c && c ≤ 13)

def isDigit (c : UInt8) : Bool := 48 ≤ c && c ≤ 57

def digitsValue (s : CString) : Nat :=
  (s.takeWhile isDigit).foldl (fun n c => 10 * n + (c.toNat - 48)) 0

/-- `strtol` in base 10: it saturates at the ends of `long`. -/
def strtol (s : CString) : Int :=
  match s.dropWhile isSpace with
  | 45 :: rest => max (-(digitsValue rest : Int)) (-2 ^ 63)
  | 43 :: rest => min (digitsValue rest : Int) (2 ^ 63 - 1)
  | rest => min (digitsValue rest : Int) (2 ^ 63 - 1)

/-- `atoi` converts the `long` of `strtol` to `int`. -/
def atoi (s : CString) : Int32 := Int32.ofInt (strtol s)

example : atoi (text " -17x") = -17 := by decide

/-! ## Lengths of decimal texts -/

theorem length_decimal_le {i : Int} {k : Nat} (hk : 0 < k) (h : i.natAbs < 10 ^ k) :
    (decimal i).length ≤ k + 1 := by
  have hlen : (Nat.toDigits 10 i.natAbs).length ≤ k :=
    (Nat.length_toDigits_le_iff (by decide) hk).mpr h
  unfold decimal
  split
  · simpa using hlen
  · simpa using Nat.le_succ_of_le hlen

theorem length_decimal_int32 (n : Int32) : (decimal n.toInt).length ≤ 11 := by
  have hlt := n.toInt_lt
  have hle := n.le_toInt
  exact length_decimal_le (k := 10) (by decide) (by omega)

theorem length_decimal_int64 (n : Int64) : (decimal n.toInt).length ≤ 20 := by
  have hlt := n.toInt_lt
  have hle := n.le_toInt
  exact length_decimal_le (k := 19) (by decide) (by omega)

/-- A decimal text holds no newline. -/
theorem newline_not_mem_decimal (i : Int) : (10 : UInt8) ∉ decimal i := by
  have hdigits : (10 : UInt8) ∉ (Nat.toDigits 10 i.natAbs).map fun c => c.toNat.toUInt8 := by
    intro h
    obtain ⟨c, hc, heq⟩ := List.mem_map.mp h
    have hd : c.isDigit = true := Nat.isDigit_of_mem_toDigits (by decide) (by decide) hc
    have hrange : 48 ≤ c.toNat ∧ c.toNat ≤ 57 := by
      simpa [Char.isDigit, UInt32.le_iff_toNat_le] using hd
    have hval : c.toNat % 256 = 10 := by
      simpa using congrArg UInt8.toNat heq
    omega
  unfold decimal
  split
  · simpa using hdigits
  · exact hdigits

end RunnerOrchestrator
