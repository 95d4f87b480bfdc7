import Mathlib.Algebra.Ring.Int.Defs

/-!
# Whole numbers in JavaScript

The bit operators of JavaScript take the low 32 bits of a number, and give a signed number
or, for `>>>`, an unsigned one. Whatever the sign, the low 32 bits of a result are those of
the operation on words.
-/

namespace Enil.Lib.Js

/-- The number of a word with its sign. -/
def signed (w : UInt32) : Int := w.toBitVec.toInt

def unsigned (w : UInt32) : Int := w.toNat

def shl (a n : Int) : Int := signed (UInt32.ofInt a <<< UInt32.ofInt n)

def ushr (a n : Int) : Int := unsigned (UInt32.ofInt a >>> UInt32.ofInt n)

def or (a b : Int) : Int := signed (UInt32.ofInt a ||| UInt32.ofInt b)

def xor (a b : Int) : Int := signed (UInt32.ofInt a ^^^ UInt32.ofInt b)

def imul (a b : Int) : Int := signed (UInt32.ofInt a * UInt32.ofInt b)

@[simp] theorem ofInt_unsigned (w : UInt32) : UInt32.ofInt (unsigned w) = w := by
  have hlt := w.toNat_lt
  have hpow : (2 : Int) ^ 32 = 4294967296 := rfl
  unfold UInt32.ofInt unsigned
  rw [hpow, Int.emod_eq_of_lt (by omega) (by omega), Int.toNat_natCast, UInt32.ofNat_toNat]

@[simp] theorem ofInt_signed (w : UInt32) : UInt32.ofInt (signed w) = w := by
  have hmod : signed w % 2 ^ 32 = unsigned w := by
    have hlt := w.toNat_lt
    unfold signed unsigned
    rw [BitVec.toInt_eq_toNat_bmod, UInt32.toNat_toBitVec]
    generalize w.toNat = n at hlt ⊢
    rw [show (2 : Int) ^ 32 = ((2 ^ 32 : Nat) : Int) from rfl, Int.bmod_emod]
    exact Int.emod_eq_of_lt (by omega) (by omega)
  rw [UInt32.ofInt, hmod, unsigned, Int.toNat_natCast, UInt32.ofNat_toNat]

theorem ofInt_natCast (n : Nat) : UInt32.ofInt n = UInt32.ofNat n := by
  have hmod : ((n : Int) % 2 ^ 32).toNat = n % 2 ^ 32 := by omega
  rw [UInt32.ofInt, hmod, UInt32.ofNat_mod_size]

theorem unsigned_mem (w : UInt32) : 0 ≤ unsigned w ∧ unsigned w < 4294967296 := by
  have hlt := w.toNat_lt
  unfold unsigned
  omega

theorem signed_mem (w : UInt32) : -2147483648 ≤ signed w ∧ signed w < 2147483648 := by
  have hle := w.toBitVec.le_toInt
  have hlt := w.toBitVec.toInt_lt
  unfold signed
  omega

end Enil.Lib.Js
