import Enil.Json.Basic
import Enil.Lib.JsInt
import Enil.Lib.Loop
import Enil.Lib.Xxh32
import Enil.Worker.Legy

/-!
# The checksum of LEGY in JavaScript

`xxhash32` computes with numbers: it adds doubles and takes their low 32 bits again. On every
view of a buffer it gives the number of the XXH32 hash of the bytes in view.
-/

namespace Enil.Js

open Lib Lib.Js

structure Uint8Array where
  buffer : List UInt8
  byteOffset : Nat
  length : Nat
  inside : byteOffset + length ≤ buffer.length

namespace Uint8Array

variable (a : Uint8Array)

def bytes : List UInt8 := (a.buffer.drop a.byteOffset).take a.length

def get (i : Nat) : Int := (a.buffer.getD (a.byteOffset + i) 0).toNat

/-- `view.getUint32(i,true)` of a DataView over the view; it throws behind the end. -/
def getUint32 (i : Nat) : Option Int :=
  if i + 4 ≤ a.length then
    some (XXH32.littleEndian ((a.buffer.drop (a.byteOffset + i)).take 4))
  else none

end Uint8Array

/-- `a + b`, rounded to a double. -/
def add (a b : Int) : Int := Json.truncate (Json.toDouble (a + b))

def p1 : Int := 0x9e3779b1
def p2 : Int := 0x85ebca77
def p3 : Int := 0xc2b2ae3d
def p4 : Int := 0x27d4eb2f
def p5 : Int := 0x165667b1

def rot (v n : Int) : Int := ushr (or (shl v n) (ushr v (32 - n))) 0

def round (v x : Int) : Int := ushr (imul (rot (ushr (add v (imul x p2)) 0) 13) p1) 0

structure Stripes where
  i : Nat
  v1 : Int
  v2 : Int
  v3 : Int
  v4 : Int

section

variable (a : Uint8Array)

/-- `i<=a.length-n` -/
def inside (i n : Nat) : Bool := decide ((i : Int) ≤ a.length - n)

def stripeTurn (s : Stripes) : Option Stripes := do
  let x1 ← a.getUint32 s.i
  let x2 ← a.getUint32 (s.i + 4)
  let x3 ← a.getUint32 (s.i + 8)
  let x4 ← a.getUint32 (s.i + 12)
  some ⟨s.i + 16, round s.v1 x1, round s.v2 x2, round s.v3 x3, round s.v4 x4⟩

def wordTurn (s : Nat × Int) : Option (Nat × Int) := do
  let x ← a.getUint32 s.1
  some (s.1 + 4, ushr (imul (rot (ushr (add s.2 (imul x p3)) 0) 17) p4) 0)

def byteTurn (s : Nat × Int) : Option (Nat × Int) :=
  some (s.1 + 1, ushr (imul (rot (ushr (add s.2 (imul (a.get s.1) p5)) 0) 11) p1) 0)

/-- The stripes; a short array has none. -/
def stripeLoop : Option (Nat × Int) :=
  if 16 ≤ a.length then
    (whileTurns (fun s => inside a s.i 16) (stripeTurn a) (a.length + 1)
      ⟨0, ushr (add p1 p2) 0, p2, 0, ushr (-p1) 0⟩).map fun s =>
        (s.i, ushr (add (add (add (rot s.v1 1) (rot s.v2 7)) (rot s.v3 12)) (rot s.v4 18)) 0)
  else some (0, p5)

/-- xxhash32; `none` where it throws or does not end. -/
def xxhash32 : Option Int := do
  let (i, h) ← stripeLoop a
  let h := ushr (add h a.length) 0
  let (i, h) ← whileTurns (fun s => inside a s.1 4) (wordTurn a) (a.length + 1) (i, h)
  let (_, h) ← whileTurns (fun s => decide (s.1 < a.length)) (byteTurn a) (a.length + 1) (i, h)
  let h := Js.xor h (ushr h 15)
  let h := imul h p2
  let h := Js.xor h (ushr h 13)
  let h := imul h p3
  some (ushr (Js.xor h (ushr h 16)) 0)

end

/-! ## The numbers as words -/

theorem add_eq {a b : Int} (h : (a + b).natAbs ≤ 2 ^ 53) : add a b = a + b := by
  rw [add, Json.toDouble_of_le h, Json.truncate_intCast]

/-- The low bits of a sum that a double holds. -/
theorem ushr_add {a b : Int} (h : (a + b).natAbs ≤ 9007199254740992) :
    ushr (add a b) 0 = unsigned (UInt32.ofInt a + UInt32.ofInt b) := by
  rw [ushr, add_eq h, UInt32.ofInt_add, show UInt32.ofInt 0 = 0 from rfl, UInt32.shiftRight_zero]

theorem rot_eq (v n : Int) :
    rot v n = unsigned (XXH32.rotateLeft (UInt32.ofInt v) (UInt32.ofInt n)) := by
  have hback : UInt32.ofInt (32 - n) = 32 - UInt32.ofInt n := by
    rw [Int.sub_eq_add_neg, UInt32.ofInt_add, UInt32.ofInt_neg, UInt32.sub_eq_add_neg]
    rfl
  unfold rot Js.or shl ushr XXH32.rotateLeft
  rw [ofInt_signed, ofInt_signed, ofInt_unsigned, hback, show UInt32.ofInt 0 = 0 from rfl,
    UInt32.shiftRight_zero]

theorem mul_eq (v p : Int) : ushr (imul v p) 0 = unsigned (UInt32.ofInt v * UInt32.ofInt p) := by
  rw [ushr, imul, ofInt_signed, show UInt32.ofInt 0 = 0 from rfl, UInt32.shiftRight_zero]

/-- A turn of a loop: a product is added, and the sum turned and multiplied. -/
theorem turn_eq (v x p n q : Int) (w : UInt32) (hv : v = unsigned w) :
    ushr (imul (rot (ushr (add v (imul x p)) 0) n) q) 0 =
      unsigned (XXH32.rotateLeft (w + UInt32.ofInt x * UInt32.ofInt p) (UInt32.ofInt n) *
        UInt32.ofInt q) := by
  have hw := unsigned_mem w
  have hp := signed_mem (UInt32.ofInt x * UInt32.ofInt p)
  have hadd : (v + imul x p).natAbs ≤ 9007199254740992 := by
    unfold imul
    omega
  rw [mul_eq, rot_eq, ushr_add hadd, ofInt_unsigned, ofInt_unsigned, hv, ofInt_unsigned, imul,
    ofInt_signed]

theorem round_eq (v x : UInt32) :
    round (unsigned v) (unsigned x) = unsigned (XXH32.round v x) := by
  unfold round
  rw [turn_eq _ _ _ _ _ v rfl, ofInt_unsigned]
  rfl

/-! ## The bytes in view -/

namespace Uint8Array

variable (a : Uint8Array)

theorem length_bytes : a.bytes.length = a.length := by
  have := a.inside
  rw [bytes, List.length_take, List.length_drop]
  omega

theorem littleEndian_lt (s : List UInt8) : XXH32.littleEndian s < 256 ^ s.length := by
  induction s with
  | nil => exact Nat.one_pos
  | cons b s ih =>
    have hb := b.toNat_lt
    rw [XXH32.littleEndian, List.length_cons, Nat.pow_succ]
    omega

theorem getUint32_eq {i : Nat} (h : i + 4 ≤ a.length) :
    a.getUint32 i = some (unsigned (XXH32.word (a.bytes.drop i))) := by
  have htake : (a.buffer.drop (a.byteOffset + i)).take 4 = (a.bytes.drop i).take 4 := by
    rw [bytes, List.drop_take, List.take_take, List.drop_drop, Nat.min_eq_left (by omega)]
  have hlt := littleEndian_lt ((a.bytes.drop i).take 4)
  have hle : ((a.bytes.drop i).take 4).length ≤ 4 := List.length_take_le ..
  have hpow : 256 ^ ((a.bytes.drop i).take 4).length ≤ 256 ^ 4 :=
    Nat.pow_le_pow_right (by omega) hle
  have hsize : XXH32.littleEndian ((a.bytes.drop i).take 4) < UInt32.size := by
    have : 256 ^ 4 = UInt32.size := rfl
    omega
  rw [getUint32, if_pos h, htake, unsigned, XXH32.word, UInt32.toNat_ofNat_of_lt' hsize]

theorem get_eq {i : Nat} {b : UInt8} {rest : List UInt8} (h : a.bytes.drop i = b :: rest) :
    a.get i = unsigned b.toUInt32 := by
  have hget : (a.bytes)[i]? = some b := by
    rw [← List.head?_drop, h]
    rfl
  have hi : i < a.length := by
    rw [← a.length_bytes]
    exact (List.getElem?_eq_some_iff.mp hget).1
  have hbuffer : a.buffer[a.byteOffset + i]? = some b := by
    rwa [bytes, List.getElem?_take_of_lt hi, List.getElem?_drop] at hget
  rw [get, List.getD_eq_getElem?_getD, hbuffer, Option.getD_some, unsigned, UInt8.toNat_toUInt32]

end Uint8Array

/-! ## The loops -/

variable {a : Uint8Array}

def Stripes.of (i : Nat) (l : XXH32.Lanes) : Stripes :=
  ⟨i, unsigned l.acc1, unsigned l.acc2, unsigned l.acc3, unsigned l.acc4⟩

theorem stripeTurn_eq {i : Nat} (h : i + 16 ≤ a.length) (l : XXH32.Lanes) :
    stripeTurn a (.of i l) = some (.of (i + 16) (l.stripe (a.bytes.drop i))) := by
  simp only [stripeTurn, Stripes.of, Option.bind_eq_bind, XXH32.Lanes.stripe, List.drop_drop]
  rw [a.getUint32_eq (by omega), Option.bind_some, a.getUint32_eq (by omega), Option.bind_some,
    a.getUint32_eq (by omega), Option.bind_some, a.getUint32_eq (by omega), Option.bind_some]
  simp only [round_eq]

theorem inside_iff {i n : Nat} : inside a i n = true ↔ i + n ≤ a.length := by
  unfold inside
  rw [decide_eq_true_eq]
  omega

theorem length_of_drop {i : Nat} {s : List UInt8} (hs : a.bytes.drop i = s) :
    s.length = a.length - i := by
  rw [← hs, List.length_drop, a.length_bytes]

/-- The loop over the stripes takes the bytes from `i` on as the hash does. -/
theorem stripeTurns_eq (l : XXH32.Lanes) (s : List UInt8) {i n : Nat} (hs : a.bytes.drop i = s)
    (hi : i ≤ a.length) (hn : s.length < n) :
    ∃ j, whileTurns (fun s => inside a s.i 16) (stripeTurn a) n (.of i l) =
        some (.of j (XXH32.stripes l s).1) ∧
      a.bytes.drop j = (XXH32.stripes l s).2 ∧ j ≤ a.length := by
  induction l, s using XXH32.stripes.induct generalizing i n with
  | case1 l s hge ih =>
    have hlen := length_of_drop hs
    obtain ⟨n, rfl⟩ : ∃ m, n = m + 1 := ⟨n - 1, by omega⟩
    have hdrop : a.bytes.drop (i + 16) = s.drop 16 := by rw [← hs, List.drop_drop]
    have hfuel : (s.drop 16).length < n := by
      rw [List.length_drop]
      omega
    obtain ⟨j, hrun, hj, hle⟩ := ih hdrop (by omega) hfuel
    have hturn := stripeTurn_eq (a := a) (i := i) (by omega) l
    rw [hs] at hturn
    rw [XXH32.stripes, if_pos hge]
    refine ⟨j, (whileTurns_turn ?_ hturn).trans hrun, hj, hle⟩
    exact inside_iff.mpr (by simp only [Stripes.of]; omega)
  | case2 l s hlt =>
    have hlen := length_of_drop hs
    obtain ⟨n, rfl⟩ : ∃ m, n = m + 1 := ⟨n - 1, by omega⟩
    have hcond : inside a i 16 = false := by
      rw [← Bool.not_eq_true, inside_iff]
      omega
    rw [XXH32.stripes, if_neg hlt]
    exact ⟨i, whileTurns_done hcond, hs, hi⟩

theorem wordTurn_eq {i : Nat} (h : i + 4 ≤ a.length) (acc : UInt32) :
    wordTurn a (i, unsigned acc) = some (i + 4, unsigned
      (XXH32.rotateLeft (acc + XXH32.word (a.bytes.drop i) * XXH32.prime3) 17 * XXH32.prime4)) := by
  unfold wordTurn
  rw [a.getUint32_eq h, Option.bind_eq_bind, Option.bind_some]
  dsimp only
  rw [turn_eq _ _ _ _ _ acc rfl, ofInt_unsigned]
  rfl

theorem wordTurns_eq (acc : UInt32) (s : List UInt8) {i n : Nat} (hs : a.bytes.drop i = s)
    (hi : i ≤ a.length) (hn : s.length < n) :
    ∃ j, whileTurns (fun s => inside a s.1 4) (wordTurn a) n (i, unsigned acc) =
        some (j, unsigned (XXH32.tailWords acc s).1) ∧
      a.bytes.drop j = (XXH32.tailWords acc s).2 ∧ j ≤ a.length := by
  induction acc, s using XXH32.tailWords.induct generalizing i n with
  | case1 acc s hge ih =>
    have hlen := length_of_drop hs
    obtain ⟨n, rfl⟩ : ∃ m, n = m + 1 := ⟨n - 1, by omega⟩
    have hdrop : a.bytes.drop (i + 4) = s.drop 4 := by rw [← hs, List.drop_drop]
    have hfuel : (s.drop 4).length < n := by
      rw [List.length_drop]
      omega
    obtain ⟨j, hrun, hj, hle⟩ := ih hdrop (by omega) hfuel
    have hturn := wordTurn_eq (a := a) (i := i) (by omega) acc
    rw [hs] at hturn
    rw [XXH32.tailWords, if_pos hge]
    refine ⟨j, (whileTurns_turn ?_ hturn).trans hrun, hj, hle⟩
    exact inside_iff.mpr (by dsimp only; omega)
  | case2 acc s hlt =>
    have hlen := length_of_drop hs
    obtain ⟨n, rfl⟩ : ∃ m, n = m + 1 := ⟨n - 1, by omega⟩
    have hcond : inside a i 4 = false := by
      rw [← Bool.not_eq_true, inside_iff]
      omega
    rw [XXH32.tailWords, if_neg hlt]
    exact ⟨i, whileTurns_done hcond, hs, hi⟩

theorem byteTurns_eq (acc : UInt32) (s : List UInt8) {i n : Nat} (hs : a.bytes.drop i = s)
    (hi : i ≤ a.length) (hn : s.length < n) :
    whileTurns (fun s => decide (s.1 < a.length)) (byteTurn a) n (i, unsigned acc) =
      some (a.length, unsigned (XXH32.tailBytes acc s)) := by
  induction s generalizing i n acc with
  | nil =>
    have hlen := length_of_drop hs
    rw [List.length_nil] at hlen
    obtain ⟨n, rfl⟩ : ∃ m, n = m + 1 := ⟨n - 1, by omega⟩
    obtain rfl : i = a.length := by omega
    exact whileTurns_done (decide_eq_false (Nat.lt_irrefl _))
  | cons b s ih =>
    have hlen := length_of_drop hs
    rw [List.length_cons] at hlen hn
    obtain ⟨n, rfl⟩ : ∃ m, n = m + 1 := ⟨n - 1, by omega⟩
    have hdrop : a.bytes.drop (i + 1) = s := by rw [← List.drop_drop, hs, List.drop_one, List.tail_cons]
    have hturn : byteTurn a (i, unsigned acc) = some (i + 1, unsigned
        (XXH32.rotateLeft (acc + b.toUInt32 * XXH32.prime5) 11 * XXH32.prime1)) := by
      unfold byteTurn
      rw [a.get_eq hs, turn_eq _ _ _ _ _ acc rfl, ofInt_unsigned]
      rfl
    refine (whileTurns_turn ?_ hturn).trans (ih _ hdrop (by omega) (by omega))
    exact decide_eq_true (by omega)

/-! ## The hash -/

theorem stripes_init :
    (⟨0, ushr (add p1 p2) 0, p2, 0, ushr (-p1) 0⟩ : Stripes) = .of 0 (.init 0) := by
  have hsum : ushr (add p1 p2) 0 = unsigned (UInt32.ofInt p1 + UInt32.ofInt p2) :=
    ushr_add (by decide)
  rw [hsum]
  rfl

theorem converge_eq (l : XXH32.Lanes) :
    ushr (add (add (add (rot (unsigned l.acc1) 1) (rot (unsigned l.acc2) 7))
      (rot (unsigned l.acc3) 12)) (rot (unsigned l.acc4) 18)) 0 = unsigned l.converge := by
  simp only [rot_eq, ofInt_unsigned]
  have h1 := unsigned_mem (XXH32.rotateLeft l.acc1 (UInt32.ofInt 1))
  have h2 := unsigned_mem (XXH32.rotateLeft l.acc2 (UInt32.ofInt 7))
  have h3 := unsigned_mem (XXH32.rotateLeft l.acc3 (UInt32.ofInt 12))
  have h4 := unsigned_mem (XXH32.rotateLeft l.acc4 (UInt32.ofInt 18))
  have h12 := add_eq (a := unsigned (XXH32.rotateLeft l.acc1 (UInt32.ofInt 1)))
    (b := unsigned (XXH32.rotateLeft l.acc2 (UInt32.ofInt 7))) (by omega)
  rw [h12, add_eq (b := unsigned (XXH32.rotateLeft l.acc3 (UInt32.ofInt 12))) (by omega),
    ushr_add (by omega), UInt32.ofInt_add, UInt32.ofInt_add, ofInt_unsigned, ofInt_unsigned,
    ofInt_unsigned, ofInt_unsigned]
  rfl

theorem avalanche_eq (h : UInt32) :
    let h1 := imul (Js.xor (unsigned h) (ushr (unsigned h) 15)) p2
    let h2 := imul (Js.xor h1 (ushr h1 13)) p3
    ushr (Js.xor h2 (ushr h2 16)) 0 = unsigned (XXH32.avalanche h) := by
  simp only [Js.xor, imul, ushr, ofInt_signed, ofInt_unsigned]
  rfl

theorem stripeLoop_eq (a : Uint8Array) :
    ∃ i, stripeLoop a = some (i, unsigned (XXH32.converged 0 a.bytes).1) ∧
      a.bytes.drop i = (XXH32.converged 0 a.bytes).2 ∧ i ≤ a.length := by
  unfold stripeLoop XXH32.converged
  by_cases hge : 16 ≤ a.length
  · have hlt : ¬ a.bytes.length < 16 := by
      rw [a.length_bytes]
      omega
    obtain ⟨i, hrun, hi, hle⟩ := stripeTurns_eq (a := a) (.init 0) a.bytes (i := 0) rfl
      (Nat.zero_le _) (show a.bytes.length < a.length + 1 by rw [a.length_bytes]; omega)
    rw [if_pos hge, if_neg hlt]
    refine ⟨i, ?_, hi, hle⟩
    rw [stripes_init, hrun, Option.map_some, Stripes.of]
    exact congrArg (fun h => some (i, h)) (converge_eq _)
  · have hlt : a.bytes.length < 16 := by
      rw [a.length_bytes]
      omega
    rw [if_neg hge, if_pos hlt]
    exact ⟨0, rfl, rfl, Nat.zero_le _⟩

/-- On every view of a buffer the checksum is the XXH32 hash of the bytes in view. -/
theorem xxhash32_eq (a : Uint8Array) (hlen : a.length < 2 ^ 31) :
    xxhash32 a = some (unsigned (XXH32.xxh32 0 a.bytes)) := by
  obtain ⟨i, hstripes, hi, hile⟩ := stripeLoop_eq a
  have hacc := unsigned_mem (XXH32.converged 0 a.bytes).1
  have hadd : ushr (add (unsigned (XXH32.converged 0 a.bytes).1) a.length) 0 =
      unsigned ((XXH32.converged 0 a.bytes).1 + UInt32.ofNat a.bytes.length) := by
    rw [ushr_add (by omega), ofInt_unsigned, a.length_bytes, ofInt_natCast]
  have hrest := length_of_drop hi
  obtain ⟨j, hwords, hj, hjle⟩ := wordTurns_eq
    ((XXH32.converged 0 a.bytes).1 + UInt32.ofNat a.bytes.length) _ hi hile
    (show _ < a.length + 1 by omega)
  have htail := length_of_drop hj
  have hbytes := byteTurns_eq (XXH32.tailWords
    ((XXH32.converged 0 a.bytes).1 + UInt32.ofNat a.bytes.length) (XXH32.converged 0 a.bytes).2).1 _
    hj hjle (show _ < a.length + 1 by omega)
  simp only [xxhash32, hstripes, hadd, hwords, hbytes, Option.bind_eq_bind, Option.bind_some]
  rw [avalanche_eq]
  rfl

/-- Three bytes in the middle of a buffer. -/
theorem xxhash32_view :
    xxhash32 ⟨[0, 97, 98, 99, 0], 1, 3, by decide⟩ =
      some (unsigned (XXH32.xxh32 0 [97, 98, 99])) :=
  xxhash32_eq _ (by decide)

/-! ## The checksum of the messages -/

/-- Behind the bits of `m` a shifted number is added. -/
theorem or_shiftLeft {m i : Nat} (h : m < 2 ^ i) (n : Nat) : m ||| n <<< i = m + n * 2 ^ i := by
  rw [Nat.or_comm, ← Nat.shiftLeft_add_eq_or_of_lt h, Nat.shiftLeft_eq, Nat.add_comm]

theorem toNat_shiftLeft {b : UInt8} {n : UInt32} (h : n.toNat ≤ 24) :
    (b.toUInt32 <<< n).toNat = b.toNat <<< n.toNat := by
  have hb := b.toNat_lt
  have hpow : 2 ^ n.toNat ≤ 2 ^ 24 := Nat.pow_le_pow_right (by omega) h
  have hlt : b.toNat * 2 ^ n.toNat < 2 ^ 32 :=
    calc b.toNat * 2 ^ n.toNat ≤ 255 * 2 ^ 24 := Nat.mul_le_mul (by omega) hpow
      _ < 2 ^ 32 := by omega
  rw [UInt32.toNat_shiftLeft, UInt8.toNat_toUInt32, Nat.mod_eq_of_lt (show n.toNat < 32 by omega),
    Nat.shiftLeft_eq, Nat.mod_eq_of_lt hlt]

theorem or_shifts (a b c d : UInt8) :
    a.toUInt32 ||| b.toUInt32 <<< 8 ||| c.toUInt32 <<< 16 ||| d.toUInt32 <<< 24 =
      UInt32.ofNat (XXH32.littleEndian [a, b, c, d]) := by
  have ha := a.toNat_lt
  have hb := b.toNat_lt
  have hc := c.toNat_lt
  have hd := d.toNat_lt
  apply UInt32.toNat_inj.mp
  have hvalue : XXH32.littleEndian [a, b, c, d] =
      a.toNat + b.toNat * 2 ^ 8 + c.toNat * 2 ^ 16 + d.toNat * 2 ^ 24 := by
    simp only [XXH32.littleEndian]
    omega
  rw [UInt32.toNat_or, UInt32.toNat_or, UInt32.toNat_or, toNat_shiftLeft (by decide),
    toNat_shiftLeft (by decide), toNat_shiftLeft (by decide), UInt8.toNat_toUInt32,
    UInt32.toNat_ofNat', hvalue]
  change a.toNat ||| b.toNat <<< 8 ||| c.toNat <<< 16 ||| d.toNat <<< 24 = _
  rw [or_shiftLeft (show a.toNat < 2 ^ 8 from ha),
    or_shiftLeft (show a.toNat + b.toNat * 2 ^ 8 < 2 ^ 16 by omega),
    or_shiftLeft (show a.toNat + b.toNat * 2 ^ 8 + c.toNat * 2 ^ 16 < 2 ^ 24 by omega),
    Nat.mod_eq_of_lt (by omega)]

theorem words_of_le {s : List UInt8} (h : 4 ≤ s.length) :
    words s = (XXH32.word s :: (words (s.drop 4)).1, (words (s.drop 4)).2) := by
  rcases s with _ | ⟨a, _ | ⟨b, _ | ⟨c, _ | ⟨d, rest⟩⟩⟩⟩
  iterate 4 exact absurd h (by simp)
  rw [words, or_shifts]
  rfl

theorem words_of_lt {s : List UInt8} (h : s.length < 4) : words s = ([], s) := by
  rcases s with _ | ⟨a, _ | ⟨b, _ | ⟨c, _ | ⟨d, rest⟩⟩⟩⟩
  iterate 4 rfl
  simp only [List.length_cons] at h
  omega

def lanes (v : Lanes) : XXH32.Lanes := ⟨v.v1, v.v2, v.v3, v.v4⟩

theorem length_words (s : List UInt8) : 4 * (words s).1.length ≤ s.length := by
  induction s using words.induct with
  | case1 a b c d rest ih =>
    simp only [words, List.length_cons]
    omega
  | case2 rest h =>
    rw [words.eq_2 _ h]
    exact Nat.zero_le _

theorem absorb_of_lt {v : Lanes} {ws : List UInt32} (h : ws.length < 4) :
    v.absorb ws = (v, ws) := by
  rcases ws with _ | ⟨a, _ | ⟨b, _ | ⟨c, _ | ⟨d, rest⟩⟩⟩⟩
  iterate 4 rfl
  simp only [List.length_cons] at h
  omega

theorem absorb_stripes (v : Lanes) (s : List UInt8) :
    lanes (v.absorb (words s).1).1 = (XXH32.stripes (lanes v) s).1 ∧
      (v.absorb (words s).1).2 = (words (XXH32.stripes (lanes v) s).2).1 ∧
      (words s).2 = (words (XXH32.stripes (lanes v) s).2).2 := by
  generalize hl : lanes v = l
  induction l, s using XXH32.stripes.induct generalizing v with
  | case1 l s hge ih =>
    subst hl
    have h12 : 12 ≤ (s.drop 4).length := by rw [List.length_drop]; omega
    have h8 : 8 ≤ (s.drop 8).length := by rw [List.length_drop]; omega
    have h4 : 4 ≤ (s.drop 12).length := by rw [List.length_drop]; omega
    have hwords : words s = (XXH32.word s :: XXH32.word (s.drop 4) :: XXH32.word (s.drop 8) ::
        XXH32.word (s.drop 12) :: (words (s.drop 16)).1, (words (s.drop 16)).2) := by
      rw [words_of_le (by omega), words_of_le (s := s.drop 4) (by omega), List.drop_drop,
        words_of_le (s := s.drop 8) (by omega), List.drop_drop, words_of_le h4, List.drop_drop]
    rw [hwords, XXH32.stripes, if_pos hge, Lanes.absorb]
    exact ih _ rfl
  | case2 l s hlt =>
    have hfew : (words s).1.length < 4 := by
      have := length_words s
      omega
    rw [XXH32.stripes, if_neg hlt, absorb_of_lt hfew]
    exact ⟨hl, rfl, rfl⟩

theorem foldl_tailWords (h : UInt32) (s : List UInt8) :
    (words s).1.foldl (fun h w => Enil.rot (h + w * Enil.p3) 17 * Enil.p4) h =
        (XXH32.tailWords h s).1 ∧
      (words s).2 = (XXH32.tailWords h s).2 := by
  induction h, s using XXH32.tailWords.induct with
  | case1 h s hge ih =>
    rw [words_of_le hge, XXH32.tailWords, if_pos hge, List.foldl_cons]
    exact ih
  | case2 h s hlt =>
    rw [words_of_lt (by omega), XXH32.tailWords, if_neg hlt]
    exact ⟨rfl, rfl⟩

/-- The words and the bytes that are left go into the accumulator of both. -/
theorem tail_eq (h : UInt32) (s : List UInt8) :
    (words s).2.foldl (fun h b => Enil.rot (h + b.toUInt32 * Enil.p5) 11 * Enil.p1)
        ((words s).1.foldl (fun h w => Enil.rot (h + w * Enil.p3) 17 * Enil.p4) h) =
      XXH32.tailBytes (XXH32.tailWords h s).1 (XXH32.tailWords h s).2 := by
  obtain ⟨hwords, hbytes⟩ := foldl_tailWords h s
  rw [hwords, hbytes]
  rfl

/-- The checksum of the messages is the hash. -/
theorem legy_xxhash32_eq (s : List UInt8) : Enil.xxhash32 s = XXH32.xxh32 0 s := by
  unfold Enil.xxhash32 XXH32.xxh32 XXH32.converged
  by_cases hge : 16 ≤ s.length
  · obtain ⟨hlanes, hwords, hbytes⟩ := absorb_stripes .init s
    have hsum : (Lanes.init.absorb (words s).1).1.sum =
        (XXH32.stripes (lanes .init) s).1.converge := by
      rw [← hlanes]
      rfl
    have htail := tail_eq ((XXH32.stripes (lanes .init) s).1.converge + UInt32.ofNat s.length)
      (XXH32.stripes (lanes .init) s).2
    simp only [if_pos hge, if_neg (show ¬ s.length < 16 by omega), hsum, hwords, hbytes, htail]
    rfl
  · have htail := tail_eq (0 + XXH32.prime5 + UInt32.ofNat s.length) s
    simp only [if_neg hge, if_pos (show s.length < 16 by omega), ← htail]
    rfl

end Enil.Js
