import Mathlib.Algebra.Ring.Nat
import Mathlib.Data.List.Basic
import Mathlib.Tactic.Common

/-!
# LEB128

Numbers in base 128, the lowest digit first: every byte but the last has its high bit. An
encoding need not be the shortest one, and none is the beginning of another.
-/

namespace Enil.Lib.Leb128

/-- The bytes are an encoding of the number. -/
inductive Encodes : List UInt8 → Nat → Prop where
  | last (b : UInt8) (h : b.toNat < 128) : Encodes [b] b.toNat
  | more (b : UInt8) (h : 128 ≤ b.toNat) {c : List UInt8} {n : Nat} (hc : Encodes c n) :
      Encodes (b :: c) (b.toNat - 128 + 128 * n)

/-- The shortest encoding. -/
def encode (n : Nat) : List UInt8 :=
  if n < 128 then [UInt8.ofNat n] else UInt8.ofNat (n % 128 + 128) :: encode (n / 128)
decreasing_by omega

/-- The number in front, and what follows. -/
def decode : List UInt8 → Option (Nat × List UInt8)
  | [] => none
  | b :: s =>
    if b.toNat < 128 then some (b.toNat, s)
    else (decode s).map fun d => (b.toNat - 128 + 128 * d.1, d.2)

theorem encodes_encode (n : Nat) : Encodes (encode n) n := by
  induction n using encode.induct with
  | case1 n h =>
    have hn : (UInt8.ofNat n).toNat = n := by
      rw [UInt8.toNat_ofNat']
      omega
    have hlast := Encodes.last (UInt8.ofNat n) (by omega)
    rw [encode, if_pos h]
    rwa [hn] at hlast
  | case2 n h ih =>
    have hn : (UInt8.ofNat (n % 128 + 128)).toNat = n % 128 + 128 := by
      rw [UInt8.toNat_ofNat']
      omega
    have hmore := Encodes.more (UInt8.ofNat (n % 128 + 128)) (by omega) ih
    rw [encode, if_neg h]
    rw [hn] at hmore
    convert hmore using 1
    omega

theorem decode_append {c s : List UInt8} {n : Nat} (h : Encodes c n) :
    decode (c ++ s) = some (n, s) := by
  induction h with
  | last b h => exact if_pos h
  | more b h _ ih =>
    rw [List.cons_append, decode, if_neg (by omega), ih]
    rfl

/-! ## Signed numbers -/

/-- The shortest signed encoding; the sign is the second bit of the last byte. -/
def encodeSigned (z : Int) : List UInt8 :=
  if -64 ≤ z ∧ z < 64 then [UInt8.ofNat (z % 128).toNat]
  else UInt8.ofNat ((z % 128).toNat + 128) :: encodeSigned (z / 128)
termination_by z.natAbs
decreasing_by omega

def decodeSigned : List UInt8 → Option (Int × List UInt8)
  | [] => none
  | b :: s =>
    if b.toNat < 128 then some (if b.toNat < 64 then b.toNat else b.toNat - 128, s)
    else (decodeSigned s).map fun d => (b.toNat - 128 + 128 * d.1, d.2)

theorem decodeSigned_append (z : Int) (s : List UInt8) :
    decodeSigned (encodeSigned z ++ s) = some (z, s) := by
  induction z using encodeSigned.induct with
  | case1 z h =>
    have hn : (UInt8.ofNat (z % 128).toNat).toNat = (z % 128).toNat := by
      rw [UInt8.toNat_ofNat']
      omega
    rw [encodeSigned, if_pos h, List.singleton_append, decodeSigned, hn, if_pos (by omega)]
    refine congrArg (fun w => some (w, s)) ?_
    split <;> omega
  | case2 z h ih =>
    have hn : (UInt8.ofNat ((z % 128).toNat + 128)).toNat = (z % 128).toNat + 128 := by
      rw [UInt8.toNat_ofNat']
      omega
    rw [encodeSigned, if_neg h, List.cons_append, decodeSigned, hn, if_neg (by omega), ih,
      Option.map_some]
    refine congrArg (fun w => some (w, s)) ?_
    omega

/-! ## Prefixes -/

/-- What stands in front is read in one way. -/
theorem Encodes.unique {c c' s s' : List UInt8} {n n' : Nat} (h : Encodes c n)
    (h' : Encodes c' n') (heq : c ++ s = c' ++ s') : c = c' ∧ n = n' ∧ s = s' := by
  have hd := decode_append (s := s) h
  rw [heq, decode_append h'] at hd
  cases hd
  exact ⟨List.append_cancel_right heq, rfl, rfl⟩

/-- A byte holds a digit. -/
theorem Encodes.lt_pow {c : List UInt8} {n : Nat} (h : Encodes c n) : n < 128 ^ c.length := by
  induction h with
  | last b h =>
    rw [List.length_singleton, Nat.pow_one]
    exact h
  | more b h _ ih =>
    have hb := b.toNat_lt
    rw [List.length_cons, Nat.pow_succ]
    omega

theorem Encodes.length_pos {c : List UInt8} {n : Nat} (h : Encodes c n) : 0 < c.length := by
  cases h <;> exact Nat.succ_pos _

end Enil.Lib.Leb128
