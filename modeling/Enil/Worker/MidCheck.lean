import Enil.Lib.Wasm
import Enil.Worker.NativeMids

/-!
# The check for native identifiers

The instructions that `adaptBody` puts in front of a body are one block. It returns a copy of
a string that is a native identifier; of any other string it is left with the memory and the
locals of the body as they were.
-/

namespace Enil.NativeMids

open Lib Lib.Wasm

/-! ## The instructions -/

section

variable (ptr index ch : Nat)

def checkLayout : List Instr := [
  .op (.localGet 2), .op (.load8U 0 11), .op (.const 128), .op .and, .op .eqz, .brIf 0]

def checkLength : List Instr := [
  .op (.localGet 2), .op (.load 2 4), .op (.const 33), .op .ne, .brIf 0]

/-- u, c or r in front. -/
def checkFirst : List Instr := [
  .op (.localGet 2), .op (.load 2 0), .op (.localSet ptr),
  .op (.localGet ptr), .op (.load8U 0 0), .op (.localSet ch),
  .op (.localGet ch), .op (.const 117), .op .eq,
  .op (.localGet ch), .op (.const 99), .op .eq, .op .or,
  .op (.localGet ch), .op (.const 114), .op .eq, .op .or, .op .eqz, .brIf 0]

def checkDigit : List Instr := [
  .op (.localGet ptr), .op (.localGet index), .op .add, .op (.load8U 0 0), .op (.localSet ch),
  .op (.localGet ch), .op (.const 48), .op .sub, .op (.const 9), .op .leU,
  .op (.localGet ch), .op (.const 97), .op .sub, .op (.const 5), .op .leU, .op .or, .op .eqz,
  .brIf 1,
  .op (.localGet index), .op (.const 1), .op .add, .op (.localSet index),
  .op (.localGet index), .op (.const 33), .op .ltU, .brIf 0]

def checkDigits : List Instr := [
  .op (.const 1), .op (.localSet index), .loop (checkDigit ptr index ch)]

def returnCopy : List Instr := [
  .op (.const 33), .op (.call 48), .op (.localSet ch),
  .op (.localGet ch), .op (.localGet ptr), .op (.const 33), .op (.call 50), .op .drop,
  .op (.localGet 0), .op (.localGet ch), .op (.store 2 0),
  .op (.localGet 0), .op (.localGet ch), .op (.const 33), .op .add, .op (.store 2 4),
  .op (.localGet 0), .op (.localGet ch), .op (.const 33), .op .add, .op (.store 2 8),
  .ret]

def midCheck : List Instr :=
  checkLayout ++ (checkLength ++ (checkFirst ptr ch ++ (checkDigits ptr index ch ++
    returnCopy ptr ch)))

/-! ## The binary form -/

theorem emitConstant_eq : ∀ n ∈ [1, 5, 9, 33, 48, 97, 99, 114, 117, 128],
    emitConstant n = 0x41 :: Leb128.encodeSigned n := by decide +kernel

theorem encode_zero : Leb128.encode 0 = [0] := by
  rw [Leb128.encode, if_pos (by omega)]
  rfl

theorem encode_one : Leb128.encode 1 = [1] := by
  rw [Leb128.encode, if_pos (by omega)]
  rfl

theorem encode_two : Leb128.encode 2 = [2] := by
  rw [Leb128.encode, if_pos (by omega)]
  rfl

theorem emitLayout_eq : emitLayout ptr ch =
    encodeSeq checkLayout ++ (encodeSeq checkLength ++ encodeSeq (checkFirst ptr ch)) := by
  have h33 : emitConstant 33 = 0x41 :: Leb128.encodeSigned 33 := emitConstant_eq 33 (by decide)
  have h99 : emitConstant 99 = 0x41 :: Leb128.encodeSigned 99 := emitConstant_eq 99 (by decide)
  have h114 : emitConstant 114 = 0x41 :: Leb128.encodeSigned 114 :=
    emitConstant_eq 114 (by decide)
  have h117 : emitConstant 117 = 0x41 :: Leb128.encodeSigned 117 :=
    emitConstant_eq 117 (by decide)
  have h128 : emitConstant 128 = 0x41 :: Leb128.encodeSigned 128 :=
    emitConstant_eq 128 (by decide)
  unfold emitLayout checkLayout checkLength checkFirst
  simp only [emitGet, emitSet, emitByte, emitLoad, emitReject, uint_eq, h33, h99, h114, h117,
    h128]
  simp only [encodeSeq, Instr.encode, Op.encode, encode_zero, encode_two, List.cons_append,
    List.nil_append, List.append_assoc]

theorem emitDigits_eq : emitDigits ptr index ch = encodeSeq (checkDigits ptr index ch) := by
  have h1 : emitConstant 1 = 0x41 :: Leb128.encodeSigned 1 := emitConstant_eq 1 (by decide)
  have h5 : emitConstant 5 = 0x41 :: Leb128.encodeSigned 5 := emitConstant_eq 5 (by decide)
  have h9 : emitConstant 9 = 0x41 :: Leb128.encodeSigned 9 := emitConstant_eq 9 (by decide)
  have h33 : emitConstant 33 = 0x41 :: Leb128.encodeSigned 33 := emitConstant_eq 33 (by decide)
  have h48 : emitConstant 48 = 0x41 :: Leb128.encodeSigned 48 := emitConstant_eq 48 (by decide)
  have h97 : emitConstant 97 = 0x41 :: Leb128.encodeSigned 97 := emitConstant_eq 97 (by decide)
  unfold emitDigits checkDigits checkDigit
  simp only [emitGet, emitSet, emitByte, emitReject, uint_eq, h1, h5, h9, h33, h48, h97]
  simp only [encodeSeq, Instr.encode, Op.encode, encode_zero, encode_one, List.cons_append,
    List.nil_append, List.append_assoc]

theorem emitCopy_eq : emitCopy ptr ch ++ [0x0f] = encodeSeq (returnCopy ptr ch) := by
  have h33 : emitConstant 33 = 0x41 :: Leb128.encodeSigned 33 := emitConstant_eq 33 (by decide)
  unfold emitCopy returnCopy
  simp only [emitGet, emitSet, emitStore, emitCall, uint_eq, h33]
  simp only [encodeSeq, Instr.encode, Op.encode, encode_zero, encode_two, List.cons_append,
    List.nil_append, List.append_assoc]

/-- What is emitted is a block of these instructions. -/
theorem emitCode_eq :
    emitCode ptr index ch = 0x02 :: 0x40 :: (encodeSeq (midCheck ptr index ch) ++ [0x0b]) := by
  have hend : emitCopy ptr ch ++ [0x0f, 0x0b] = emitCopy ptr ch ++ [0x0f] ++ [0x0b] := by
    rw [List.append_assoc]
    rfl
  unfold emitCode midCheck
  rw [List.append_assoc, hend, emitCopy_eq, emitLayout_eq, emitDigits_eq, encodeSeq_append,
    encodeSeq_append, encodeSeq_append, encodeSeq_append]
  simp only [List.append_assoc, List.cons_append, List.nil_append]

end

/-! ## Characters -/

def isHexDigit (b : UInt8) : Bool := (48 ≤ b && b ≤ 57) || (97 ≤ b && b ≤ 102)

/-- u, c or r -/
def isPrefix (b : UInt8) : Bool := b == 117 || b == 99 || b == 114

theorem and_128_eq_zero (b : UInt8) :
    (b.toUInt32 &&& UInt32.ofInt 128 == 0) = !decide (128 ≤ b.toNat) := by
  have hall : ∀ n : Fin 256, ((UInt8.ofNat n).toUInt32 &&& UInt32.ofInt 128 == 0) =
      !decide (128 ≤ (UInt8.ofNat n).toNat) := by decide +kernel
  have h := hall ⟨b.toNat, b.toNat_lt⟩
  rwa [UInt8.ofNat_toNat] at h

theorem isPrefix_eq (b : UInt8) :
    ofBool (b.toUInt32 == UInt32.ofInt 117) ||| ofBool (b.toUInt32 == UInt32.ofInt 99) |||
      ofBool (b.toUInt32 == UInt32.ofInt 114) = ofBool (isPrefix b) := by
  have hall : ∀ n : Fin 256, ofBool ((UInt8.ofNat n).toUInt32 == UInt32.ofInt 117) |||
      ofBool ((UInt8.ofNat n).toUInt32 == UInt32.ofInt 99) |||
      ofBool ((UInt8.ofNat n).toUInt32 == UInt32.ofInt 114) =
        ofBool (isPrefix (UInt8.ofNat n)) := by decide +kernel
  have h := hall ⟨b.toNat, b.toNat_lt⟩
  rwa [UInt8.ofNat_toNat] at h

/-- Two ranges by subtraction without sign. -/
theorem isHexDigit_eq (b : UInt8) :
    ofBool (decide (b.toUInt32 - UInt32.ofInt 48 ≤ UInt32.ofInt 9)) |||
      ofBool (decide (b.toUInt32 - UInt32.ofInt 97 ≤ UInt32.ofInt 5)) = ofBool (isHexDigit b) := by
  have hall : ∀ n : Fin 256,
      ofBool (decide ((UInt8.ofNat n).toUInt32 - UInt32.ofInt 48 ≤ UInt32.ofInt 9)) |||
      ofBool (decide ((UInt8.ofNat n).toUInt32 - UInt32.ofInt 97 ≤ UInt32.ofInt 5)) =
        ofBool (isHexDigit (UInt8.ofNat n)) := by decide +kernel
  have h := hall ⟨b.toNat, b.toNat_lt⟩
  rwa [UInt8.ofNat_toNat] at h

/-! ## Checks -/

section

variable {env : Env} {L : Nat → UInt32} {c ptr index ch : Nat} {m : Memory}

/-- Instructions that go on if `ok` and else branch out of the block. -/
def Checks (env : Env) (is : List Instr) (s t : State) (ok : Prop) : Prop := ∀ rest,
  (ok → ∀ r, Runs env rest t r → Runs env (is ++ rest) s r) ∧
    (¬ ok → Runs env (is ++ rest) s (.branch 0, t))

theorem checks_layout (hc : 2 < c) (hin : (L 2).toNat + 12 ≤ m.size) :
    Checks env checkLayout ⟨L, c, [], m⟩ ⟨L, c, [], m⟩
      (128 ≤ (m.byte ((L 2).toNat + 11)).toNat) := by
  intro rest
  have hrun : ∀ r, Runs env (.brIf 0 :: rest)
      ⟨L, c, [ofBool !decide (128 ≤ (m.byte ((L 2).toNat + 11)).toNat)], m⟩ r →
      Runs env (checkLayout ++ rest) ⟨L, c, [], m⟩ r := by
    intro r h
    rw [← and_128_eq_zero] at h
    exact run_localGet hc (run_load8U (by omega) (run_const (run_and (run_eqz h))))
  constructor
  · intro hok r h
    exact hrun r (run_brIf_false (by rw [decide_eq_true hok]; rfl) h)
  · intro hbad
    exact hrun _ (run_brIf_true (by rw [decide_eq_false hbad]; rfl))

theorem checks_length (hc : 2 < c) (hin : (L 2).toNat + 12 ≤ m.size) :
    Checks env checkLength ⟨L, c, [], m⟩ ⟨L, c, [], m⟩ (m.word ((L 2).toNat + 4) = 33) := by
  intro rest
  have hrun : ∀ r, Runs env (.brIf 0 :: rest)
      ⟨L, c, [ofBool (m.word ((L 2).toNat + 4) != UInt32.ofInt 33)], m⟩ r →
      Runs env (checkLength ++ rest) ⟨L, c, [], m⟩ r := fun r h =>
    run_localGet hc (run_load (by omega) (run_const (run_ne h)))
  constructor
  · intro hok r h
    exact hrun r (run_brIf_false (by rw [hok]; rfl) h)
  · intro hbad
    exact hrun _ (run_brIf_true (bne_iff_ne.mpr hbad))

/-- The locals behind the check of the first character. -/
def firstLocals (L : Nat → UInt32) (m : Memory) (ptr ch : Nat) : Nat → UInt32 :=
  Function.update (Function.update L ptr (m.word (L 2).toNat)) ch
    (m.byte (m.word (L 2).toNat).toNat).toUInt32

theorem checks_first (hptr : 2 < ptr) (hch : ptr < ch) (hc : ch < c)
    (hin : (L 2).toNat + 12 ≤ m.size) (hdata : (m.word (L 2).toNat).toNat + 1 ≤ m.size) :
    Checks env (checkFirst ptr ch) ⟨L, c, [], m⟩ ⟨firstLocals L m ptr ch, c, [], m⟩
      (isPrefix (m.byte (m.word (L 2).toNat).toNat) = true) := by
  intro rest
  have hrun : ∀ r, Runs env (.brIf 0 :: rest) ⟨firstLocals L m ptr ch, c,
      [ofBool !isPrefix (m.byte (m.word (L 2).toNat).toNat)], m⟩ r →
      Runs env (checkFirst ptr ch ++ rest) ⟨L, c, [], m⟩ r := by
    intro r h
    rw [← ofBool_eqz, ← isPrefix_eq] at h
    refine run_localGet (by omega) (run_load (by omega) (run_localSet (by omega)
      (run_localGet (by omega) ?_)))
    rw [Function.update_self]
    refine run_load8U (by omega) (run_localSet hc (run_localGet hc ?_))
    rw [Function.update_self]
    refine run_const (run_eq (run_localGet hc ?_))
    rw [Function.update_self]
    refine run_const (run_eq (run_or (run_localGet hc ?_)))
    rw [Function.update_self]
    exact run_const (run_eq (run_or (run_eqz h)))
  constructor
  · intro hok r h
    exact hrun r (run_brIf_false (by rw [hok]; rfl) h)
  · intro hbad
    exact hrun _ (run_brIf_true (by rw [Bool.eq_false_iff.mpr hbad]; rfl))

/-! ## The loop over the digits -/

theorem toNat_add_ofNat {w : UInt32} {i : Nat} (hw : w.toNat + 33 ≤ m.size) (hi : i < 33) :
    (w + UInt32.ofNat i).toNat = w.toNat + i := by
  have hsize := m.size_le
  rw [UInt32.toNat_add, UInt32.toNat_ofNat', Nat.mod_eq_of_lt (show i < 2 ^ 32 by omega),
    Nat.mod_eq_of_lt (by omega)]

def turnLocals (L : Nat → UInt32) (m : Memory) (index ch i : Nat) (w : UInt32) : Nat → UInt32 :=
  Function.update (Function.update L ch (m.byte (w.toNat + i)).toUInt32) index
    (UInt32.ofNat (i + 1))

section

variable {w : UInt32} {i : Nat}

/-- Up to the branch of a turn: the digit is in `ch`. -/
theorem run_digit (hindex : ptr < index) (hch : index < ch) (hc : ch < c) (hw : L ptr = w)
    (hi : L index = UInt32.ofNat i) (hlt : i < 33) (hin : w.toNat + 33 ≤ m.size)
    {is : List Instr} {r : Wasm.Outcome × State}
    (h : Runs env is ⟨Function.update L ch (m.byte (w.toNat + i)).toUInt32, c,
      [ofBool !isHexDigit (m.byte (w.toNat + i))], m⟩ r) :
    Runs env (.op (.localGet ptr) :: .op (.localGet index) :: .op .add :: .op (.load8U 0 0) ::
      .op (.localSet ch) :: .op (.localGet ch) :: .op (.const 48) :: .op .sub :: .op (.const 9) ::
      .op .leU :: .op (.localGet ch) :: .op (.const 97) :: .op .sub :: .op (.const 5) ::
      .op .leU :: .op .or :: .op .eqz :: is) ⟨L, c, [], m⟩ r := by
  have haddr := toNat_add_ofNat hin hlt
  rw [← ofBool_eqz, ← isHexDigit_eq, ← haddr] at h
  refine run_localGet (by omega) (run_localGet (by omega) (run_add ?_))
  rw [hw, hi]
  refine run_load8U (by omega) (run_localSet hc (run_localGet hc ?_))
  rw [Function.update_self]
  refine run_const (run_sub (run_const (run_leU (run_localGet hc ?_))))
  rw [Function.update_self]
  exact run_const (run_sub (run_const (run_leU (run_or (run_eqz h)))))

/-- A turn with no digit leaves the block. -/
theorem run_checkDigit_bad (hindex : ptr < index) (hch : index < ch) (hc : ch < c)
    (hw : L ptr = w) (hi : L index = UInt32.ofNat i) (hlt : i < 33) (hin : w.toNat + 33 ≤ m.size)
    (hbad : isHexDigit (m.byte (w.toNat + i)) = false) :
    Runs env (checkDigit ptr index ch) ⟨L, c, [], m⟩ (.branch 1,
      ⟨Function.update L ch (m.byte (w.toNat + i)).toUInt32, c, [], m⟩) :=
  run_digit hindex hch hc hw hi hlt hin (run_brIf_true (by rw [hbad]; rfl))

/-- A turn with a digit goes on with the next one, or it is the last. -/
theorem run_checkDigit_ok (hindex : ptr < index) (hch : index < ch) (hc : ch < c)
    (hw : L ptr = w) (hi : L index = UInt32.ofNat i) (hlt : i < 33) (hin : w.toNat + 33 ≤ m.size)
    (hok : isHexDigit (m.byte (w.toNat + i)) = true) :
    Runs env (checkDigit ptr index ch) ⟨L, c, [], m⟩
      (if i + 1 < 33 then .branch 0 else .next, ⟨turnLocals L m index ch i w, c, [], m⟩) := by
  have hnext : UInt32.ofNat i + UInt32.ofInt 1 = UInt32.ofNat (i + 1) := by
    rw [UInt32.ofNat_add]
    rfl
  have hcond : decide (UInt32.ofNat (i + 1) < UInt32.ofInt 33) = decide (i + 1 < 33) := by
    have hval : (UInt32.ofNat (i + 1)).toNat = i + 1 := by
      rw [UInt32.toNat_ofNat']
      omega
    have h33 : (UInt32.ofInt 33).toNat = 33 := rfl
    rw [decide_eq_decide, UInt32.lt_iff_toNat_lt, hval, h33]
  have hget : Function.update L ch (m.byte (w.toNat + i)).toUInt32 index = UInt32.ofNat i := by
    rw [Function.update_of_ne (by omega), hi]
  refine run_digit hindex hch hc hw hi hlt hin (run_brIf_false (by rw [hok]; rfl) ?_)
  refine run_localGet (by omega) (run_const (run_add (run_localSet (by omega)
    (run_localGet (by omega) ?_))))
  rw [Function.update_self, hget, hnext]
  refine run_const (run_ltU ?_)
  rw [hcond]
  by_cases hmore : i + 1 < 33
  · rw [if_pos hmore, decide_eq_true hmore]
    exact run_brIf_true rfl
  · rw [if_neg hmore, decide_eq_false hmore]
    exact run_brIf_false rfl .nil

/-- From digit `i` on the loop checks the digits; it changes its own locals only. -/
theorem checks_loop (hindex : ptr < index) (hch : index < ch) (hc : ch < c)
    (hw : L ptr = w) (hi : L index = UInt32.ofNat i) (hlt : i < 33)
    (hin : w.toNat + 33 ≤ m.size) :
    ∃ L', (∀ x, x ≠ index → x ≠ ch → L' x = L x) ∧
      Checks env [.loop (checkDigit ptr index ch)] ⟨L, c, [], m⟩ ⟨L', c, [], m⟩
        (∀ j, i ≤ j → j < 33 → isHexDigit (m.byte (w.toNat + j)) = true) := by
  obtain ⟨k, hk⟩ : ∃ k, i + k = 32 := ⟨32 - i, by omega⟩
  induction k generalizing i L with
  | zero =>
    obtain rfl : i = 32 := by omega
    cases hdigit : isHexDigit (m.byte (w.toNat + 32)) with
    | true =>
      refine ⟨turnLocals L m index ch 32 w, ?_, fun rest => ⟨fun _ r h => ?_, fun hbad => ?_⟩⟩
      · intro x hx hx'
        rw [turnLocals, Function.update_of_ne hx, Function.update_of_ne hx']
      · exact .loop_next (run_checkDigit_ok hindex hch hc hw hi hlt hin hdigit) h
      · refine absurd (fun j hj hj' => ?_) hbad
        obtain rfl : j = 32 := by omega
        exact hdigit
    | false =>
      refine ⟨Function.update L ch (m.byte (w.toNat + 32)).toUInt32, ?_,
        fun rest => ⟨fun hok => ?_, fun _ => ?_⟩⟩
      · intro x _ hx'
        rw [Function.update_of_ne hx']
      · have := hok 32 (Nat.le_refl _) hlt
        rw [hdigit] at this
        cases this
      · exact .loop_branch (run_checkDigit_bad hindex hch hc hw hi hlt hin hdigit)
  | succ k ih =>
    cases hdigit : isHexDigit (m.byte (w.toNat + i)) with
    | true =>
      have hturn : Runs env (checkDigit ptr index ch) ⟨L, c, [], m⟩
          (if i + 1 < 33 then .branch 0 else .next, ⟨turnLocals L m index ch i w, c, [], m⟩) :=
        run_checkDigit_ok hindex hch hc hw hi hlt hin hdigit
      rw [if_pos (show i + 1 < 33 by omega)] at hturn
      have hw' : turnLocals L m index ch i w ptr = w := by
        rw [turnLocals, Function.update_of_ne (by omega), Function.update_of_ne (by omega), hw]
      obtain ⟨L', hL', hchecks⟩ := ih hw' (Function.update_self ..) (by omega) (by omega)
      refine ⟨L', ?_, fun rest => ⟨fun hok r h => ?_, fun hbad => ?_⟩⟩
      · intro x hx hx'
        rw [hL' x hx hx', turnLocals, Function.update_of_ne hx, Function.update_of_ne hx']
      · exact .loop_again hturn ((hchecks rest).1 (fun j hj hj' => hok j (by omega) hj') r h)
      · refine .loop_again hturn ((hchecks rest).2 fun hall => hbad fun j hj hj' => ?_)
        by_cases hji : j = i
        · rw [hji]
          exact hdigit
        · exact hall j (by omega) hj'
    | false =>
      refine ⟨Function.update L ch (m.byte (w.toNat + i)).toUInt32, ?_,
        fun rest => ⟨fun hok => ?_, fun _ => ?_⟩⟩
      · intro x _ hx'
        rw [Function.update_of_ne hx']
      · have := hok i (Nat.le_refl _) hlt
        rw [hdigit] at this
        cases this
      · exact .loop_branch (run_checkDigit_bad hindex hch hc hw hi hlt hin hdigit)

theorem checks_digits (hindex : ptr < index) (hch : index < ch) (hc : ch < c)
    (hw : L ptr = w) (hin : w.toNat + 33 ≤ m.size) :
    ∃ L', (∀ x, x ≠ index → x ≠ ch → L' x = L x) ∧
      Checks env (checkDigits ptr index ch) ⟨L, c, [], m⟩ ⟨L', c, [], m⟩
        (∀ j, 1 ≤ j → j < 33 → isHexDigit (m.byte (w.toNat + j)) = true) := by
  have hw' : Function.update L index (UInt32.ofInt 1) ptr = w := by
    rw [Function.update_of_ne (by omega), hw]
  have hi : Function.update L index (UInt32.ofInt 1) index = UInt32.ofNat 1 :=
    Function.update_self ..
  obtain ⟨L', hL', hchecks⟩ := @checks_loop env _ c ptr index ch m w 1 hindex hch hc hw' hi
    (by omega) hin
  refine ⟨L', fun x hx hx' => ?_, fun rest => ⟨fun hok r h => ?_, fun hbad => ?_⟩⟩
  · rw [hL' x hx hx', Function.update_of_ne hx]
  · exact run_const (run_localSet (by omega) ((hchecks rest).1 hok r h))
  · exact run_const (run_localSet (by omega) ((hchecks rest).2 hbad))

/-! ## The copy -/

/-- The vector at `a` of a block of 33 bytes at `p`. -/
def storeVector (m : Memory) (a : Nat) (p : UInt32) : Memory :=
  ((m.storeWord a p).storeWord (a + 4) (p + 33)).storeWord (a + 8) (p + 33)

theorem run_returnCopy (hch : ch < c) (hptr : ptr ≠ ch) (hptr' : ptr < c) (hch' : ch ≠ 0)
    {malloc memcpy : List UInt32 → Memory → Option (List UInt32 × Memory)}
    (hmalloc : env 48 = some ⟨1, malloc⟩) (hmemcpy : env 50 = some ⟨3, memcpy⟩)
    {p d : UInt32} {m1 m2 : Memory} (hblock : malloc [33] m = some ([p], m1))
    (hcopy : memcpy [p, L ptr, 33] m1 = some ([d], m2)) (hin : (L 0).toNat + 12 ≤ m2.size) :
    Runs env (returnCopy ptr ch) ⟨L, c, [], m⟩
      (.ret, ⟨Function.update L ch p, c, [], storeVector m2 (L 0).toNat p⟩) := by
  have h0 : Function.update L ch p 0 = L 0 := Function.update_of_ne hch'.symm ..
  refine run_const (run_call (l := [33]) (q := [p]) hmalloc rfl hblock
    (run_localSet hch (run_localGet hch ?_)))
  rw [Function.update_self]
  refine run_localGet hptr' ?_
  rw [Function.update_of_ne hptr]
  refine run_const (run_call (l := [33, L ptr, p]) (q := [d]) hmemcpy rfl hcopy
    (run_drop (run_localGet (by omega) (run_localGet hch ?_))))
  rw [Function.update_self, h0]
  refine run_store (by omega) (run_localGet (by omega) (run_localGet hch ?_))
  rw [Function.update_self, h0]
  refine run_const (run_add (run_store (by simp only [Memory.size_storeWord]; omega)
    (run_localGet (by omega) (run_localGet hch ?_))))
  rw [Function.update_self, h0]
  exact run_const (run_add (run_store (by simp only [Memory.size_storeWord]; omega) .ret))

end

end

/-! ## Strings in memory -/

/-- The last byte of a string of the long layout has its high bit. -/
def IsLong (m : Memory) (a : Nat) : Prop := 128 ≤ (m.byte (a + 11)).toNat

/-- The bytes of a string of the long layout: their address and their number come first. -/
def longText (m : Memory) (a : Nat) : List UInt8 :=
  (List.range (m.word (a + 4)).toNat).map fun i => m.byte ((m.word a).toNat + i)

/-- A string object, with its bytes elsewhere if it is long. -/
structure IsString (m : Memory) (a : Nat) : Prop where
  inside : a + 12 ≤ m.size
  data : IsLong m a → (m.word a).toNat + (m.word (a + 4)).toNat ≤ m.size

/-- A native identifier: u, c or r and 32 hexadecimal digits. -/
def IsNativeMid (s : List UInt8) : Prop := ∃ b digits, s = b :: digits ∧ isPrefix b = true ∧
  digits.length = 32 ∧ ∀ d ∈ digits, isHexDigit d = true

/-- What is checked is that the text is a native identifier. -/
theorem isNativeMid_longText {m : Memory} {a : Nat} : IsNativeMid (longText m a) ↔
    m.word (a + 4) = 33 ∧ isPrefix (m.byte (m.word a).toNat) = true ∧
      ∀ j, 1 ≤ j → j < 33 → isHexDigit (m.byte ((m.word a).toNat + j)) = true := by
  constructor
  · rintro ⟨b, digits, htext, hb, hlen, hdigits⟩
    have hsize := congrArg List.length htext
    rw [longText, List.length_map, List.length_range, List.length_cons, hlen] at hsize
    have hword : m.word (a + 4) = 33 := UInt32.toNat_inj.mp hsize
    have hget : ∀ j < 33, (b :: digits)[j]? = some (m.byte ((m.word a).toNat + j)) := by
      intro j hj
      rw [← htext, longText, hsize, List.getElem?_map, List.getElem?_range hj]
      rfl
    have hfirst := hget 0 (by omega)
    rw [List.getElem?_cons_zero, Nat.add_zero] at hfirst
    cases hfirst
    refine ⟨hword, hb, fun j hj hj' => hdigits _ ?_⟩
    obtain ⟨k, rfl⟩ : ∃ k, j = k + 1 := ⟨j - 1, by omega⟩
    have := hget (k + 1) hj'
    rw [List.getElem?_cons_succ] at this
    exact List.mem_of_getElem? this
  · rintro ⟨hword, hb, hdigits⟩
    refine ⟨_, (List.range 32).map fun i => m.byte ((m.word a).toNat + (i + 1)), ?_, hb, ?_, ?_⟩
    · have h33 : (33 : UInt32).toNat = 32 + 1 := rfl
      rw [longText, hword, h33, List.range_succ_eq_map, List.map_cons, List.map_map]
      rfl
    · rw [List.length_map, List.length_range]
    · intro d hd
      obtain ⟨i, hi, rfl⟩ := List.mem_map.mp hd
      rw [List.mem_range] at hi
      exact hdigits (i + 1) (by omega) (by omega)

/-! ## A call of the body -/

/-- memcpy on blocks that do not overlap. -/
def IsMemcpy (memcpy : List UInt32 → Memory → Option (List UInt32 × Memory)) : Prop :=
  ∀ (dst src n : UInt32) (m : Memory), dst.toNat + n.toNat ≤ m.size →
    src.toNat + n.toNat ≤ m.size →
    (dst.toNat + n.toNat ≤ src.toNat ∨ src.toNat + n.toNat ≤ dst.toNat) →
    memcpy [dst, src, n] m = some ([dst], m.copy dst.toNat src.toNat n.toNat)

/-- The block `p` of 33 bytes is fresh: none of it is in use, and what is in use is kept. -/
structure IsFresh (inUse : Nat → Prop) (m m' : Memory) (p : UInt32) : Prop where
  size_le : m.size ≤ m'.size
  inside : p.toNat + 33 ≤ m'.size
  fresh : ∀ i < 33, ¬ inUse (p.toNat + i)
  keeps : ∀ a, inUse a → m'.byte a = m.byte a

/-- A frame at the entry of the body, which has `n` locals behind its three parameters: where
the result goes is the first one, and the third one is a string. Function 48 is malloc and
gives the block `p`, function 50 is memcpy. -/
structure IsEntry (env : Env) (s : State) (n : Nat) (inUse : Nat → Prop) (p : UInt32) : Prop where
  count : s.count = 3 + n + 3
  stack : s.stack = []
  zero : ∀ x, 3 ≤ x → s.locals x = 0
  string : IsString s.mem (s.locals 2).toNat
  data : IsLong s.mem (s.locals 2).toNat → ∀ i < (s.mem.word ((s.locals 2).toNat + 4)).toNat,
    inUse ((s.mem.word (s.locals 2).toNat).toNat + i)
  result : (s.locals 0).toNat + 12 ≤ s.mem.size ∧ ∀ i < 12, inUse ((s.locals 0).toNat + i)
  malloc : ∃ f m', env 48 = some ⟨1, f⟩ ∧ f [33] s.mem = some ([p], m') ∧
    IsFresh inUse s.mem m' p
  memcpy : ∃ f, env 50 = some ⟨3, f⟩ ∧ IsMemcpy f

/-- The vector at `a` is a copy of a text in the block `p`, and the rest of the memory in use is
as it was. -/
structure IsCopy (inUse : Nat → Prop) (m m' : Memory) (a : Nat) (p : UInt32)
    (text : List UInt8) : Prop where
  first : m'.word a = p
  last : m'.word (a + 4) = p + 33
  capacity : m'.word (a + 8) = p + 33
  copied : (List.range 33).map (fun i => m'.byte (p.toNat + i)) = text
  fresh : ∀ i < 33, ¬ inUse (p.toNat + i)
  keeps : ∀ b, inUse b → b < a ∨ a + 12 ≤ b → m'.byte b = m.byte b

/-! ## The recognition -/

section

variable {env : Env} {s : State} {n : Nat} {inUse : Nat → Prop} {p : UInt32}

/-- The block that is put in front of a body with `n` locals. -/
def midBlock (n : Nat) : List Instr := [.block (midCheck (3 + n) (3 + n + 1) (3 + n + 2))]

/-- Blocks of which one is in use and none of the other is do not overlap. -/
theorem disjoint_of_fresh {a b : Nat} (hfresh : ∀ i < 33, ¬ inUse (a + i))
    (huse : ∀ i < 33, inUse (b + i)) : a + 33 ≤ b ∨ b + 33 ≤ a := by
  by_contra hcross
  by_cases hle : a ≤ b
  · have h := huse 0 (by omega)
    have := hfresh (b - a) (by omega)
    rw [show a + (b - a) = b + 0 by omega] at this
    exact this h
  · have h := huse (a - b) (by omega)
    have := hfresh 0 (by omega)
    rw [show a + 0 = b + (a - b) by omega] at this
    exact this h

theorem firstLocals_ptr {L : Nat → UInt32} {m : Memory} :
    firstLocals L m (3 + n) (3 + n + 2) (3 + n) = m.word (L 2).toNat := by
  rw [firstLocals, Function.update_of_ne (by omega), Function.update_self]

theorem firstLocals_of_lt {L : Nat → UInt32} {m : Memory} {x : Nat} (hx : x < 3 + n) :
    firstLocals L m (3 + n) (3 + n + 2) x = L x := by
  rw [firstLocals, Function.update_of_ne (by omega), Function.update_of_ne (by omega)]

/-- The memory behind the call of memcpy and the stores is that of a copy. -/
theorem isCopy_storeVector {m m' : Memory} {a : Nat} {w : UInt32} {text : List UInt8}
    (hfresh : IsFresh inUse m m' p) (ha : ∀ i < 12, inUse (a + i))
    (hw : ∀ i < 33, inUse (w.toNat + i))
    (htext : (List.range 33).map (fun i => m.byte (w.toNat + i)) = text) :
    IsCopy inUse m (storeVector (m'.copy p.toNat w.toNat 33) a p) a p text := by
  have hkeep : ∀ b, b < a ∨ a + 12 ≤ b → (storeVector (m'.copy p.toNat w.toNat 33) a p).byte b =
      (m'.copy p.toNat w.toNat 33).byte b := by
    intro b hb
    rw [storeVector, Memory.byte_storeWord_of_not (by omega),
      Memory.byte_storeWord_of_not (by omega), Memory.byte_storeWord_of_not (by omega)]
  have hout : ∀ i < 33, p.toNat + i < a ∨ a + 12 ≤ p.toNat + i := by
    intro i hi
    by_contra hin
    have h := ha (p.toNat + i - a) (by omega)
    rw [show a + (p.toNat + i - a) = p.toNat + i by omega] at h
    exact hfresh.fresh i hi h
  refine ⟨?_, ?_, Memory.word_storeWord .., ?_, hfresh.fresh, fun b hb hne => ?_⟩
  · rw [storeVector, Memory.word_storeWord_of_not (by omega),
      Memory.word_storeWord_of_not (by omega), Memory.word_storeWord]
  · rw [storeVector, Memory.word_storeWord_of_not (by omega), Memory.word_storeWord]
  · rw [← htext]
    apply List.map_congr_left
    intro i hi
    rw [List.mem_range] at hi
    rw [hkeep _ (hout i hi), Memory.byte_copy hi, hfresh.keeps _ (hw i hi)]
  · have hblock : b < p.toNat ∨ p.toNat + 33 ≤ b := by
      by_contra hin
      have h := hfresh.fresh (b - p.toNat) (by omega)
      rw [show p.toNat + (b - p.toNat) = b by omega] at h
      exact h hb
    rw [hkeep b hne, Memory.byte_copy_of_not hblock, hfresh.keeps b hb]

/-- The check of the digits where the first one of the characters is in place. -/
theorem checks_digits_of_first {L : Nat → UInt32} {m : Memory}
    (hin : (m.word (L 2).toNat).toNat + 33 ≤ m.size) :
    ∃ L', (∀ x < 3 + n, L' x = L x) ∧ L' (3 + n) = m.word (L 2).toNat ∧
      Checks env (checkDigits (3 + n) (3 + n + 1) (3 + n + 2))
        ⟨firstLocals L m (3 + n) (3 + n + 2), 3 + n + 3, [], m⟩ ⟨L', 3 + n + 3, [], m⟩
        (∀ j, 1 ≤ j → j < 33 → isHexDigit (m.byte ((m.word (L 2).toNat).toNat + j)) = true) := by
  obtain ⟨L', hL', hchecks⟩ := checks_digits (show 3 + n < 3 + n + 1 by omega)
    (show 3 + n + 1 < 3 + n + 2 by omega) (show 3 + n + 2 < 3 + n + 3 by omega) firstLocals_ptr
    hin
  refine ⟨L', fun x hx => ?_, ?_, hchecks⟩
  · rw [hL' x (by omega) (by omega), firstLocals_of_lt hx]
  · rw [hL' _ (by omega) (by omega), firstLocals_ptr]

/-- A native identifier in the long layout is copied. -/
theorem runs_native (h : IsEntry env s n inUse p) (hlong : IsLong s.mem (s.locals 2).toNat)
    (htext : IsNativeMid (longText s.mem (s.locals 2).toNat)) :
    ∃ t, Runs env (midBlock n) s (.ret, t) ∧
      IsCopy inUse s.mem t.mem (s.locals 0).toNat p (longText s.mem (s.locals 2).toNat) := by
  obtain ⟨L, c, st, m⟩ := s
  have hcount : c = 3 + n + 3 := h.count
  have hstack : st = [] := h.stack
  subst hcount hstack
  have hin := h.string.inside
  have hdata := h.string.data hlong
  have huse := h.data hlong
  obtain ⟨hresult, hresultUse⟩ := h.result
  obtain ⟨hlen, hfirst, hdigits⟩ := isNativeMid_longText.mp htext
  obtain ⟨malloc, m', hmalloc, hblock, hfresh⟩ := h.malloc
  obtain ⟨memcpy, hmemcpy, hcopies⟩ := h.memcpy
  simp only at hin hdata huse hlen hfirst hdigits hresult hresultUse hlong hblock hfresh ⊢
  have h33 : (33 : UInt32).toNat = 33 := rfl
  rw [hlen, h33] at hdata huse
  have hsize := hfresh.size_le
  have hcopy := hcopies p (m.word (L 2).toNat) 33 m' (by rw [h33]; exact hfresh.inside)
    (by rw [h33]; omega) (by rw [h33]; exact disjoint_of_fresh hfresh.fresh huse)
  obtain ⟨L', hL', hptr, hchecks⟩ := checks_digits_of_first hdata
  have hzero : L' 0 = L 0 := hL' 0 (by omega)
  rw [← hptr] at hcopy
  have hreturn := run_returnCopy (show 3 + n + 2 < 3 + n + 3 by omega)
    (show 3 + n ≠ 3 + n + 2 by omega) (show 3 + n < 3 + n + 3 by omega) (by omega) hmalloc hmemcpy
    hblock hcopy (by rw [hzero]; exact Nat.le_trans hresult hsize)
  have hrun : Runs env (midCheck (3 + n) (3 + n + 1) (3 + n + 2)) ⟨L, 3 + n + 3, [], m⟩ _ :=
    (checks_layout (by omega) hin _).1 hlong _ ((checks_length (by omega) hin _).1 hlen _
      ((checks_first (by omega) (by omega) (by omega) hin (by omega) _).1 hfirst _
        ((hchecks _).1 hdigits _ hreturn)))
  refine ⟨_, .block_ret hrun, ?_⟩
  rw [hptr, hzero, h33]
  refine isCopy_storeVector hfresh hresultUse huse ?_
  rw [longText, hlen]
  rfl

/-- Of any other string the block is left as it was entered. -/
theorem runs_other (h : IsEntry env s n inUse p)
    (hother : ¬ (IsLong s.mem (s.locals 2).toNat ∧
      IsNativeMid (longText s.mem (s.locals 2).toNat))) :
    ∃ t, Runs env (midBlock n) s (.next, t) ∧ t.mem = s.mem ∧ t.stack = s.stack ∧
      t.count = s.count ∧ ∀ x < 3 + n, t.locals x = s.locals x := by
  obtain ⟨L, c, st, m⟩ := s
  have hcount : c = 3 + n + 3 := h.count
  have hstack : st = [] := h.stack
  subst hcount hstack
  have hin := h.string.inside
  have hdata := h.string.data
  simp only at hin hdata hother ⊢
  have hleave : ∀ {L' : Nat → UInt32}, (∀ x < 3 + n, L' x = L x) →
      Runs env (midCheck (3 + n) (3 + n + 1) (3 + n + 2)) ⟨L, 3 + n + 3, [], m⟩
        (.branch 0, ⟨L', 3 + n + 3, [], m⟩) →
      ∃ t, Runs env (midBlock n) ⟨L, 3 + n + 3, [], m⟩ (.next, t) ∧ t.mem = m ∧ t.stack = [] ∧
        t.count = 3 + n + 3 ∧ ∀ x < 3 + n, t.locals x = L x := by
    intro L' hL' hrun
    exact ⟨_, .block_next (.inr rfl) hrun .nil, rfl, rfl, rfl, hL'⟩
  by_cases hlong : IsLong m (L 2).toNat
  · by_cases hlen : m.word ((L 2).toNat + 4) = 33
    · have hsize : (m.word (L 2).toNat).toNat + 33 ≤ m.size := by
        have := hdata hlong
        rwa [hlen] at this
      by_cases hfirst : isPrefix (m.byte (m.word (L 2).toNat).toNat) = true
      · obtain ⟨L', hL', _, hchecks⟩ := checks_digits_of_first hsize
        have hbad : ¬ ∀ j, 1 ≤ j → j < 33 →
            isHexDigit (m.byte ((m.word (L 2).toNat).toNat + j)) = true := fun hall =>
          hother ⟨hlong, isNativeMid_longText.mpr ⟨hlen, hfirst, hall⟩⟩
        refine hleave hL' ?_
        exact (checks_layout (by omega) hin _).1 hlong _ ((checks_length (by omega) hin _).1 hlen _
          ((checks_first (by omega) (by omega) (by omega) hin (by omega) _).1 hfirst _
            ((hchecks _).2 hbad)))
      · have hL' : ∀ x < 3 + n, firstLocals L m (3 + n) (3 + n + 2) x = L x := fun _ hx =>
          firstLocals_of_lt hx
        refine hleave hL' ?_
        exact (checks_layout (by omega) hin _).1 hlong _ ((checks_length (by omega) hin _).1 hlen _
          ((checks_first (by omega) (by omega) (by omega) hin (by omega) _).2 hfirst))
    · refine hleave (fun _ _ => rfl) ?_
      exact (checks_layout (by omega) hin _).1 hlong _ ((checks_length (by omega) hin _).2 hlen)
  · exact hleave (fun _ _ => rfl) ((checks_layout (by omega) hin _).2 hlong)

end

/-! ## The body -/

structure Group where
  size : List UInt8
  count : Nat
  type : UInt8
  encodes : Leb128.Encodes size count

def Group.bytes (g : Group) : List UInt8 := g.size ++ [g.type]

def totalCount (groups : List Group) : Nat := (groups.map Group.count).sum

structure Body where
  size : List UInt8
  groups : List Group
  instructions : List UInt8
  encodes : Leb128.Encodes size groups.length

namespace Body

def bytes (b : Body) : List UInt8 := b.size ++ (b.groups.flatMap Group.bytes ++ b.instructions)

def localCount (b : Body) : Nat := totalCount b.groups

structure IsValid (b : Body) : Prop where
  size : b.size.length ≤ 5
  sizes : ∀ g ∈ b.groups, g.size.length ≤ 5
  few : b.localCount < 4294967296

end Body

theorem encodes_three : Leb128.Encodes [3] 3 := .last 3 (by decide)

/-- Three locals of type i32. -/
def scratch : Group := ⟨[3], 3, 0x7f, encodes_three⟩

theorem encodes_scratch (groups : List Group) :
    Leb128.Encodes (uint (groups.length + 1)) (groups ++ [scratch]).length := by
  rw [List.length_append]
  exact encodes_uint _

def Body.adapted (b : Body) : Body where
  size := uint (b.groups.length + 1)
  groups := b.groups ++ [scratch]
  instructions := emitCode (3 + b.localCount) (3 + b.localCount + 1) (3 + b.localCount + 2) ++
    b.instructions
  encodes := encodes_scratch b.groups

theorem plus_eq {a b : Nat} (h : a + b ≤ 2 ^ 53) : plus a b = a + b := by
  rw [plus, Js.add_eq (by omega)]
  omega

theorem skipGroups_of_drop {body rest : List UInt8} {groups : List Group} {n pos : Nat}
    (hsizes : ∀ g ∈ groups, g.size.length ≤ 5) (hcount : n + totalCount groups ≤ 2 ^ 53)
    (hdrop : body.drop pos = groups.flatMap Group.bytes ++ rest) :
    skipGroups body groups.length (n, pos) =
      some (n + totalCount groups, pos + (groups.flatMap Group.bytes).length) := by
  induction groups generalizing n pos with
  | nil => rfl
  | cons g gs ih =>
    have htotal : totalCount (g :: gs) = g.count + totalCount gs := by
      rw [totalCount, List.map_cons, List.sum_cons, totalCount]
    rw [htotal] at hcount ⊢
    rw [List.flatMap_cons, Group.bytes, List.append_assoc, List.append_assoc] at hdrop
    have hread := readUint_of_drop g.encodes hdrop (hsizes g List.mem_cons_self)
    have hrest : body.drop (pos + g.size.length + 1) = gs.flatMap Group.bytes ++ rest := by
      have hskip : body.drop (pos + g.size.length + 1) =
          (body.drop pos).drop (g.size.length + 1) := by
        rw [List.drop_drop, Nat.add_assoc]
      rw [hskip, hdrop, ← List.drop_drop, List.drop_left]
      rfl
    rw [List.length_cons, skipGroups, hread, Option.bind_eq_bind, Option.bind_some]
    simp only [plus_eq (show n + g.count ≤ 2 ^ 53 by omega)]
    rw [ih (fun x hx => hsizes x (List.mem_cons_of_mem g hx)) (by omega) hrest, List.flatMap_cons,
      List.length_append, Group.bytes, List.length_append, List.length_singleton]
    refine congrArg some (Prod.ext ?_ ?_)
    · simp only
      omega
    · simp only
      omega

theorem subarray_append (a m z : List UInt8) :
    subarray (a ++ (m ++ z)) a.length (a.length + m.length) = m := by
  rw [subarray, ← List.append_assoc, ← List.length_append, List.take_left, List.drop_left]

/-- A body is adapted to the one with the check in front. -/
theorem adaptBody_bytes {digest : List UInt8 → String} {b : Body} (h : b.IsValid)
    (hdigest : digest b.bytes = bodySha256) : adaptBody digest b.bytes = some b.adapted.bytes := by
  have hgroups := b.encodes.lt_pow
  have hpow := Nat.pow_le_pow_right (show 0 < 128 by omega) h.size
  have hfew : totalCount b.groups < 4294967296 := h.few
  have hread : readUint b.bytes 0 = some (b.groups.length, 0 + b.size.length) :=
    readUint_of_drop b.encodes rfl h.size
  rw [Nat.zero_add] at hread
  have hstart : b.bytes.drop b.size.length = b.groups.flatMap Group.bytes ++ b.instructions := by
    rw [Body.bytes, List.drop_left]
  have hskip := skipGroups_of_drop h.sizes (show 0 + totalCount b.groups ≤ 2 ^ 53 by omega) hstart
  have hlocals := subarray_append b.size (b.groups.flatMap Group.bytes) b.instructions
  have hrest : b.bytes.drop (b.size.length + (b.groups.flatMap Group.bytes).length) =
      b.instructions := by
    rw [← List.drop_drop, hstart, List.drop_left]
  have hptr : plus 3 (0 + totalCount b.groups) = 3 + b.localCount := by
    rw [plus_eq (by omega), Nat.zero_add, Body.localCount]
  have hlocalCount : b.localCount < 4294967296 := hfew
  have hgroupsCount : plus b.groups.length 1 = b.groups.length + 1 := plus_eq (by omega)
  have hindex : plus (3 + b.localCount) 1 = 3 + b.localCount + 1 := plus_eq (by omega)
  have hch : plus (3 + b.localCount) 2 = 3 + b.localCount + 2 := plus_eq (by omega)
  rw [adaptBody, if_neg (not_not_intro hdigest), hread]
  simp only [Option.bind_eq_bind, Option.bind_some, hskip, hptr, hrest, hgroupsCount, hindex, hch]
  rw [Body.bytes, hlocals]
  simp only [Body.adapted, Body.bytes, scratch, Group.bytes, List.flatMap_append,
    List.flatMap_cons, List.flatMap_nil, List.append_assoc, List.cons_append, List.nil_append]

/-- The bytes begin with a block, and `rest` follows its end. -/
def BeginsWith (bytes : List UInt8) (block : List Instr) (rest : List UInt8) : Prop :=
  ∃ s, bytes = 0x02 :: 0x40 :: s ∧ decodeSeq (s.length + 1) s = some (block, rest)

theorem beginsWith_adapted (b : Body) : BeginsWith b.adapted.instructions
    (midCheck (3 + b.localCount) (3 + b.localCount + 1) (3 + b.localCount + 2))
    b.instructions := by
  refine ⟨encodeSeq (midCheck (3 + b.localCount) (3 + b.localCount + 1) (3 + b.localCount + 2)) ++
    0x0b :: b.instructions, ?_, ?_⟩
  · rw [Body.adapted, emitCode_eq]
    simp only [List.cons_append, List.append_assoc, List.nil_append]
  · apply decodeSeq_encodeSeq
    rw [List.length_append]
    omega

/-- A native identifier in the long layout. -/
def HoldsNativeMid (m : Memory) (a : Nat) : Prop := IsLong m a ∧ IsNativeMid (longText m a)

/-- The adapted body has three locals more and begins with a block. On a string that is a native
identifier in the long layout, and on no other one, the block returns a fresh copy of it;
otherwise it is left for the body as it was, with the memory, the parameters and the locals of
the body as at the entry. -/
theorem adaptBody_recognises {digest : List UInt8 → String} {b : Body} (hvalid : b.IsValid)
    (hdigest : digest b.bytes = bodySha256) :
    ∃ (t : Body) (block : List Instr), adaptBody digest b.bytes = some t.bytes ∧
      t.groups = b.groups ++ [scratch] ∧ BeginsWith t.instructions block b.instructions ∧
      ∀ env s inUse p, IsEntry env s b.localCount inUse p →
        (HoldsNativeMid s.mem (s.locals 2).toNat ↔ ∃ e, Runs env [.block block] s (.ret, e) ∧
          IsCopy inUse s.mem e.mem (s.locals 0).toNat p (longText s.mem (s.locals 2).toNat)) ∧
        (¬ HoldsNativeMid s.mem (s.locals 2).toNat → ∃ e, Runs env [.block block] s (.next, e) ∧
          e.mem = s.mem ∧ e.stack = [] ∧ (∀ x < 3, e.locals x = s.locals x) ∧
          ∀ x, 3 ≤ x → x < 3 + b.localCount → e.locals x = 0) := by
  refine ⟨b.adapted, _, adaptBody_bytes hvalid hdigest, rfl, beginsWith_adapted b,
    fun env s inUse p h => ?_⟩
  have hother : ¬ HoldsNativeMid s.mem (s.locals 2).toNat → _ := runs_other h
  refine ⟨⟨fun hmid => runs_native h hmid.1 hmid.2, fun hret => ?_⟩, fun hmid => ?_⟩
  · by_contra hmid
    obtain ⟨e, hret, -⟩ := hret
    obtain ⟨e', hnext, -⟩ := hother hmid
    cases hret.unique hnext
  · obtain ⟨e, hnext, hmem, hstack, -, hlocals⟩ := hother hmid
    refine ⟨e, hnext, hmem, hstack.trans h.stack, fun x hx => hlocals x (by omega),
      fun x hle hx => ?_⟩
    rw [hlocals x hx, h.zero x hle]

def emptyBody : Body := ⟨[0], [], [0x0b], .last 0 (by decide)⟩

/-- The string at 16 has its 33 bytes at 64: u and then a 32 times. -/
def entryMemory : Memory where
  size := 65536
  byte a :=
    if a = 16 then 64
    else if a = 20 then 33
    else if a = 27 then 128
    else if a = 64 then 117
    else if 64 < a ∧ a < 97 then 97
    else 0
  size_le := by omega

/-- The result goes to 32. -/
def entry : State := ⟨fun x => if x = 0 then 32 else if x = 2 then 16 else 0, 6, [], entryMemory⟩

def entryMemcpy (l : List UInt32) (m : Memory) : Option (List UInt32 × Memory) :=
  some ([l.headD 0], m.copy (l.headD 0).toNat (l.getD 1 0).toNat (l.getD 2 0).toNat)

/-- malloc gives the block at 1024. -/
def entryEnv : Env := fun f =>
  if f = 48 then some ⟨1, fun _ m => some ([1024], m)⟩
  else if f = 50 then some ⟨3, entryMemcpy⟩
  else none

theorem isEntry_entry : IsEntry entryEnv entry 0 (· < 1024) 1024 where
  count := rfl
  stack := rfl
  zero x hx := by
    simp only [entry]
    rw [if_neg (by omega), if_neg (by omega)]
  string := ⟨by decide, fun _ => by decide⟩
  data _ i hi := by
    have hlen : (entry.mem.word ((entry.locals 2).toNat + 4)).toNat = 33 := by decide
    have hptr : (entry.mem.word (entry.locals 2).toNat).toNat = 64 := by decide
    omega
  result := by
    have hresult : (entry.locals 0).toNat = 32 := by decide
    have hsize : entry.mem.size = 65536 := rfl
    exact ⟨by omega, fun i hi => by omega⟩
  malloc := by
    have hp : (1024 : UInt32).toNat = 1024 := rfl
    refine ⟨_, entryMemory, rfl, rfl, Nat.le_refl _, by decide, fun i _ => ?_, fun _ _ => rfl⟩
    omega
  memcpy := ⟨entryMemcpy, rfl, fun _ _ _ _ _ _ _ => rfl⟩

theorem adaptBody_recognises_entry :
    ∃ out block, adaptBody (fun _ => bodySha256) [0, 0x0b] = some out ∧
      ∃ e, Runs entryEnv [.block block] entry (.ret, e) ∧ e.mem.word 32 = 1024 ∧
        (List.range 33).map (fun i => e.mem.byte (1024 + i)) = 117 :: List.replicate 32 97 := by
  have hvalid : emptyBody.IsValid := ⟨by decide, fun g hg => (by cases hg), by decide⟩
  obtain ⟨t, block, hout, -, -, hruns⟩ :=
    @adaptBody_recognises (fun _ => bodySha256) emptyBody hvalid rfl
  have htext : longText entry.mem (entry.locals 2).toNat = 117 :: List.replicate 32 97 := by decide
  have hmid : HoldsNativeMid entry.mem (entry.locals 2).toNat := by
    refine ⟨show 128 ≤ (entry.mem.byte ((entry.locals 2).toNat + 11)).toNat by decide, 117,
      List.replicate 32 97, htext, by decide, List.length_replicate, fun d hd => ?_⟩
    rw [List.eq_of_mem_replicate hd]
    decide
  obtain ⟨e, hret, hcopy⟩ := (hruns entryEnv entry (· < 1024) 1024 isEntry_entry).1.mp hmid
  exact ⟨t.bytes, block, hout, e, hret, hcopy.first, hcopy.copied.trans htext⟩

end Enil.NativeMids
