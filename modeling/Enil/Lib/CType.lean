import Mathlib.Data.List.Basic
import Mathlib.Data.Nat.Digits.Defs

/-!
# Integers and characters of C

`int` with its bound and its conversion, and the characters of `ctype.h` by their numbers.
-/

namespace Enil.Lib

/-! ## The type `int` -/

def intMax : Nat := 2 ^ 31 - 1

def toCInt (n : Int) : Int :=
  if n % 4294967296 ≤ intMax then n % 4294967296 else n % 4294967296 - 4294967296

theorem toCInt_emod (n : Int) :
    toCInt n = n % 4294967296 ∨ toCInt n = n % 4294967296 - 4294967296 := by
  unfold toCInt
  split
  · exact .inl rfl
  · exact .inr rfl

theorem toCInt_mem (n : Int) : -intMax - 1 ≤ toCInt n ∧ toCInt n ≤ intMax := by
  unfold toCInt intMax
  split <;> omega

theorem toCInt_of_le {n : Nat} (h : n ≤ intMax) : toCInt n = n := by
  have hmod := toCInt_emod n
  have hmem := toCInt_mem n
  unfold intMax at h hmem
  omega

theorem toCInt_add (a b : Int) : toCInt (toCInt a + toCInt b) = toCInt (a + b) := by
  have ha := toCInt_emod a
  have hb := toCInt_emod b
  have hsum := toCInt_emod (toCInt a + toCInt b)
  have hab := toCInt_emod (a + b)
  have hmem := toCInt_mem (toCInt a + toCInt b)
  have hmem' := toCInt_mem (a + b)
  unfold intMax at hmem hmem'
  omega

/-! ## Characters -/

def isSpace (c : Nat) : Bool := c == 32 || (9 ≤ c && c ≤ 13)

def isDigit (c : Nat) : Bool := 48 ≤ c && c ≤ 57

/-- The number that decimal digits write. -/
def digits (cs : List Nat) : Nat := cs.foldl (fun n c => 10 * n + (c - 48)) 0

theorem isDigit_iff {c : Nat} : isDigit c = true ↔ 48 ≤ c ∧ c ≤ 57 := by
  simp only [isDigit, Bool.and_eq_true, decide_eq_true_eq]

theorem isSpace_of_isDigit {c : Nat} (h : isDigit c = true) : isSpace c = false := by
  rw [isDigit_iff] at h
  simp only [isSpace, Bool.or_eq_false_iff, Bool.and_eq_false_iff, decide_eq_false_iff_not,
    beq_eq_false_iff_ne, ne_eq]
  omega

theorem isDigit_toNat (c : Char) : isDigit c.toNat = c.isDigit := by
  rw [Bool.eq_iff_iff, isDigit_iff]
  simp only [Char.isDigit, Bool.and_eq_true, decide_eq_true_eq, ge_iff_le, UInt32.le_iff_toNat_le]
  exact Iff.rfl

/-- A digit is one byte. -/
theorem toNat_digit {c : Char} (h : c.isDigit = true) : (UInt8.ofNat c.toNat).toNat = c.toNat := by
  have := isDigit_iff.mp ((isDigit_toNat c).trans h)
  rw [UInt8.toNat_ofNat']
  omega

theorem isDigit_byte {c : Char} (h : c.isDigit = true) :
    isDigit (UInt8.ofNat c.toNat).toNat = true := by
  rw [toNat_digit h, isDigit_toNat, h]

/-- A number is written in digits. -/
theorem isDigit_repr {n : Nat} {c : Char} (h : c ∈ (Nat.repr n).toList) : c.isDigit = true := by
  rw [Nat.toList_repr] at h
  exact Nat.isDigit_of_mem_toDigits (by omega) (by omega) h

theorem digits_map {cs : List Char} (n : Nat) :
    (cs.map Char.toNat).foldl (fun n c => 10 * n + (c - 48)) n = Nat.ofDigitChars 10 cs n := by
  induction cs generalizing n with
  | nil => rw [List.map_nil, List.foldl_nil, Nat.ofDigitChars_nil]
  | cons c cs ih =>
    rw [List.map_cons, List.foldl_cons, ih, Nat.ofDigitChars_cons]
    rfl

/-- The digits of a number write it. -/
theorem digits_repr (n : Nat) : digits ((Nat.repr n).toList.map Char.toNat) = n := by
  rw [digits, digits_map, Nat.toList_repr, Nat.ofDigitChars_ten_toDigits]

end Enil.Lib
