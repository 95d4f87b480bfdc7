import Enil.Lib.Loop
import Enil.Lib.Sections
import Enil.Worker.XxHash
import Mathlib.Data.Nat.Bitwise

/-!
# The adaptation of the WASM module

`adaptNativeMids` copies a module section by section and puts instructions into one body of
its code section, whose lengths are written anew. What comes out has the sections and the
bodies of what went in, but for that body.
-/

namespace Enil.NativeMids

open Lib

/-! ## Integers -/

def uint (n : Nat) : List UInt8 :=
  let b := n &&& 127
  let n := n / 128
  if n ≠ 0 then UInt8.ofNat (b ||| 128) :: uint n else [UInt8.ofNat b]
decreasing_by omega

/-- `reader(bytes).uint()` at `pos`: the number and the position behind it. -/
def readUintLoop (bytes : List UInt8) (pos n shift : Nat) : Option (Nat × Nat) :=
  if bytes.length ≤ pos ∨ 35 ≤ shift then none
  else
    let b := (bytes.getD pos 0).toNat
    let n := n + (b &&& 127) * 2 ^ shift
    if b &&& 128 ≠ 0 then readUintLoop bytes (pos + 1) n (shift + 7) else some (n, pos + 1)
termination_by 35 - shift
decreasing_by omega

def readUint (bytes : List UInt8) (pos : Nat) : Option (Nat × Nat) := readUintLoop bytes pos 0 0

/-- The bytes of the longest integer that is read. -/
def maxUintBytes : Nat := 5

/-- `bytes.subarray(i, j)` -/
def subarray (bytes : List UInt8) (i j : Nat) : List UInt8 := (bytes.take j).drop i

/-! ## The instructions -/

section

def emitGet (n : Nat) : List UInt8 := 0x20 :: uint n

def emitSet (n : Nat) : List UInt8 := 0x21 :: uint n

/-- A number that is not negative as signed LEB128: the sign bit of the last byte is cleared by
another byte. -/
def signedUint (n : Nat) : List UInt8 :=
  let b := uint n
  let last := b.getLastD 0
  if last &&& 64 ≠ 0 then b.dropLast ++ [last ||| 128, 0] else b

def emitConstant (n : Nat) : List UInt8 := 0x41 :: signedUint n

def emitLoad (offset : Nat) : List UInt8 := [0x28, 2] ++ uint offset

def emitByte (offset : Nat) : List UInt8 := [0x2d, 0] ++ uint offset

def emitStore (offset : Nat) : List UInt8 := [0x36, 2] ++ uint offset

def emitCall (n : Nat) : List UInt8 := 0x10 :: uint n

def emitReject (depth : UInt8) : List UInt8 := [0x0d, depth]

variable (ptr index ch : Nat)

/-- Up to the check of the first character. -/
def emitLayout : List UInt8 :=
  emitGet 2 ++ emitByte 11 ++ emitConstant 128 ++ [0x71, 0x45] ++ emitReject 0 ++
  emitGet 2 ++ emitLoad 4 ++ emitConstant 33 ++ [0x47] ++ emitReject 0 ++
  emitGet 2 ++ emitLoad 0 ++ emitSet ptr ++
  emitGet ptr ++ emitByte 0 ++ emitSet ch ++
  emitGet ch ++ emitConstant 117 ++ [0x46] ++
  emitGet ch ++ emitConstant 99 ++ [0x46, 0x72] ++
  emitGet ch ++ emitConstant 114 ++ [0x46, 0x72, 0x45] ++ emitReject 0

/-- The loop over the digits. -/
def emitDigits : List UInt8 :=
  emitConstant 1 ++ emitSet index ++
  [0x03, 0x40] ++
  emitGet ptr ++ emitGet index ++ [0x6a] ++ emitByte 0 ++ emitSet ch ++
  emitGet ch ++ emitConstant 48 ++ [0x6b] ++ emitConstant 9 ++ [0x4d] ++
  emitGet ch ++ emitConstant 97 ++ [0x6b] ++ emitConstant 5 ++ [0x4d, 0x72, 0x45] ++
  emitReject 1 ++
  emitGet index ++ emitConstant 1 ++ [0x6a] ++ emitSet index ++
  emitGet index ++ emitConstant 33 ++ [0x49] ++ emitReject 0 ++
  [0x0b]

def emitCopy : List UInt8 :=
  emitConstant 33 ++ emitCall 48 ++ emitSet ch ++
  emitGet ch ++ emitGet ptr ++ emitConstant 33 ++ emitCall 50 ++ [0x1a] ++
  emitGet 0 ++ emitGet ch ++ emitStore 0 ++
  emitGet 0 ++ emitGet ch ++ emitConstant 33 ++ [0x6a] ++ emitStore 4 ++
  emitGet 0 ++ emitGet ch ++ emitConstant 33 ++ [0x6a] ++ emitStore 8

def emitCode : List UInt8 :=
  [0x02, 0x40] ++ emitLayout ptr ch ++ emitDigits ptr index ch ++ emitCopy ptr ch ++ [0x0f, 0x0b]

end

/-! ## A body -/

def bodySha256 : String := "e14b073dd95c6ffe57b3b754961b96b8e88842bac4813770044e62d8b083a9ff"

def codeBodyIndex : Nat := 250

/-- `a + b` of numbers. -/
def plus (a b : Nat) : Nat := (Js.add a b).toNat

/-- The loop over the groups of locals: their number and where the instructions start. -/
def skipGroups (body : List UInt8) : Nat → Nat × Nat → Option (Nat × Nat)
  | 0, s => some s
  | i + 1, s => do
    let (n, pos) ← readUint body s.2
    skipGroups body i (plus s.1 n, pos + 1)

/-- adaptBody; `digest` is SHA-256 in hexadecimal digits, `none` is an exception. -/
def adaptBody (digest : List UInt8 → String) (body : List UInt8) : Option (List UInt8) :=
  if digest body ≠ bodySha256 then none
  else do
    let (groups, localsStart) ← readUint body 0
    let (localCount, instructionsStart) ← skipGroups body groups (0, localsStart)
    let ptr := plus 3 localCount
    some (uint (plus groups 1) ++ subarray body localsStart instructionsStart ++
      ([3, 0x7f] ++ emitCode ptr (plus ptr 1) (plus ptr 2)) ++ body.drop instructionsStart)

/-! ## The module -/

/-- `r.pos`, what is written, and `adapted`. -/
structure Progress where
  pos : Nat
  output : List UInt8
  adapted : Bool

section

variable (digest : List UInt8 → String) (valid : List UInt8 → Bool) (input : List UInt8)

/-- What body `i` is copied to. -/
def copyBody (i : Nat) (body : List UInt8) : Option (List UInt8) :=
  if i = codeBodyIndex then adaptBody digest body else some body

/-- The loop over the bodies from body `i` on; `stop` is the end of the section. -/
def copyBodies (stop : Nat) : Nat → Nat → Progress → Option Progress
  | 0, _, s => some s
  | n + 1, i, s => do
    let (length, pos) ← readUint input s.pos
    let bodyEnd := pos + length
    if bodyEnd > stop then none
    else
      let body ← copyBody digest i (subarray input pos bodyEnd)
      copyBodies stop n (i + 1)
        ⟨bodyEnd, s.output ++ (uint body.length ++ body), s.adapted || i == codeBodyIndex⟩

/-- The code section from its count on. -/
def copyCode (stop : Nat) (s : Progress) : Option Progress :=
  if s.adapted then none
  else do
    let (count, pos) ← readUint input s.pos
    let t ← copyBodies digest input stop count 0 ⟨pos, uint count, false⟩
    if t.pos ≠ stop then none
    else some { t with output := s.output ++ (10 :: (uint t.output.length ++ t.output)) }

/-- A turn of the loop over the sections. -/
def copySection (s : Progress) : Option Progress := do
  let id := input.getD s.pos 0
  let (size, pos) ← readUint input (s.pos + 1)
  let stop := pos + size
  if stop > input.length then none
  else if id ≠ 10 then
    some { s with pos := stop, output := s.output ++ subarray input s.pos stop }
  else copyCode digest input stop { s with pos := pos }

def sectionTurn (s : Progress) : Turn Progress (Option Progress) :=
  if s.pos < input.length then
    match copySection digest input s with
    | none => .leave none
    | some t => .again t
  else .leave (some s)

/-- "\0asm" and the version. -/
def magic : List UInt8 := [0, 97, 115, 109, 1, 0, 0, 0]

/-- What follows the loop. -/
def finish (s : Progress) : Option (List UInt8) :=
  if !s.adapted then none
  else if !valid s.output then none
  else some s.output

/-- adaptNativeMids with at most `n` turns of the loop over the sections, `none` where these are
too few; in it, `none` is an exception. -/
def adaptNativeMids (n : Nat) : Option (Option (List UInt8)) :=
  if subarray input 0 8 ≠ magic then some none
  else (loop (sectionTurn digest input) n ⟨8, magic, false⟩).map fun r => r.bind (finish valid)

end

/-! ## Integers read and written -/

theorem and_127 (n : Nat) : n &&& 127 = n % 128 := Nat.and_two_pow_sub_one_eq_mod n 7

theorem or_128 {n : Nat} (h : n < 128) : n ||| 128 = n + 128 := by
  rw [Nat.or_comm]
  exact (Nat.two_pow_add_eq_or_of_lt (i := 7) h 1).symm.trans (Nat.add_comm ..)

theorem uint_eq (n : Nat) : uint n = Leb128.encode n := by
  induction n using Leb128.encode.induct with
  | case1 n h =>
    rw [uint, Leb128.encode, if_pos h]
    simp only [and_127]
    rw [if_neg (by omega), Nat.mod_eq_of_lt h]
  | case2 n h ih =>
    rw [uint, Leb128.encode, if_neg h]
    simp only [and_127]
    rw [if_pos (by omega), or_128 (Nat.mod_lt _ (by omega)), ih]

theorem encodes_uint (n : Nat) : Leb128.Encodes (uint n) n := by
  rw [uint_eq]
  exact Leb128.encodes_encode n

/-- The high bit of a byte. -/
theorem and_128_ne_zero {b : Nat} (h : b < 256) : b &&& 128 ≠ 0 ↔ 128 ≤ b := by
  have hbit : b &&& 128 = (b.testBit 7).toNat * 128 := Nat.and_two_pow b 7
  rw [hbit, Nat.testBit_eq_decide_div_mod_eq]
  by_cases hle : 128 ≤ b
  · have hdiv : b / 2 ^ 7 % 2 = 1 := by omega
    rw [decide_eq_true hdiv]
    exact ⟨fun _ => hle, fun _ => by decide⟩
  · have hdiv : ¬ b / 2 ^ 7 % 2 = 1 := by omega
    rw [decide_eq_false hdiv]
    exact ⟨fun hne => absurd rfl hne, fun h => absurd h hle⟩

theorem drop_eq_getD_cons {bytes : List UInt8} {pos : Nat} (h : pos < bytes.length) :
    bytes.drop pos = bytes.getD pos 0 :: bytes.drop (pos + 1) := by
  rw [List.drop_eq_getElem_cons h, List.getD_eq_getElem _ _ h]

/-- From some turn of the loop on, with what it has added up. -/
theorem readUintLoop_eq_some {bytes : List UInt8} {pos n shift m q : Nat}
    (h : readUintLoop bytes pos n shift = some (m, q)) :
    ∃ c k, Leb128.Encodes c k ∧ shift + 7 * c.length < 42 ∧ m = n + k * 2 ^ shift ∧
      q = pos + c.length ∧ q ≤ bytes.length ∧ bytes.drop pos = c ++ bytes.drop q := by
  induction pos, n, shift using readUintLoop.induct bytes with
  | case1 pos n shift hend =>
    rw [readUintLoop, if_pos hend] at h
    cases h
  | case2 pos n shift hend b n' hmore ih =>
    rw [readUintLoop, if_neg hend] at h
    simp only [b] at hmore
    rw [if_pos hmore] at h
    obtain ⟨c, k, hc, hshort, hm, hq, hle, hdrop⟩ := ih h
    have hlt := (bytes.getD pos 0).toNat_lt
    have hhigh := (and_128_ne_zero hlt).mp hmore
    refine ⟨bytes.getD pos 0 :: c, _, .more _ hhigh hc, ?_, ?_, ?_, hle, ?_⟩
    · rw [List.length_cons]
      omega
    · rw [hm]
      simp only [n', b, and_127]
      have hdigit : (bytes.getD pos 0).toNat % 128 = (bytes.getD pos 0).toNat - 128 := by omega
      rw [hdigit, Nat.pow_add, Nat.add_assoc, Nat.add_mul]
      congr 2
      rw [Nat.mul_comm (2 ^ shift), ← Nat.mul_assoc, Nat.mul_comm k]
    · rw [hq, List.length_cons]
      omega
    · rw [drop_eq_getD_cons (by omega), hdrop]
      rfl
  | case3 pos n shift hend b hlast =>
    rw [readUintLoop, if_neg hend] at h
    simp only [b] at hlast
    rw [if_neg hlast] at h
    cases h
    have hlt := (bytes.getD pos 0).toNat_lt
    have hlow : (bytes.getD pos 0).toNat < 128 := by
      rw [and_128_ne_zero hlt] at hlast
      omega
    refine ⟨[bytes.getD pos 0], _, .last _ hlow, ?_, ?_, rfl, by omega, ?_⟩
    · rw [List.length_singleton]
      omega
    · simp only [and_127, Nat.mod_eq_of_lt hlow]
    · exact drop_eq_getD_cons (by omega)

/-- No integer that is read has more than five bytes. -/
theorem readUint_eq_some {bytes : List UInt8} {pos n q : Nat}
    (h : readUint bytes pos = some (n, q)) :
    ∃ c, Leb128.Encodes c n ∧ c.length ≤ maxUintBytes ∧ q = pos + c.length ∧ q ≤ bytes.length ∧
      bytes.drop pos = c ++ bytes.drop q := by
  obtain ⟨c, k, hc, hshort, hn, hrest⟩ := readUintLoop_eq_some h
  obtain rfl : n = k := by omega
  have hmax : maxUintBytes = 5 := rfl
  exact ⟨c, hc, by omega, hrest⟩

theorem of_drop_eq_cons {bytes s : List UInt8} {pos : Nat} {b : UInt8}
    (h : bytes.drop pos = b :: s) :
    pos < bytes.length ∧ bytes.getD pos 0 = b ∧ bytes.drop (pos + 1) = s := by
  have hlt : pos < bytes.length := by
    have := congrArg List.length h
    rw [List.length_drop, List.length_cons] at this
    omega
  rw [drop_eq_getD_cons hlt] at h
  obtain ⟨hb, hs⟩ := List.cons.inj h
  exact ⟨hlt, hb, hs⟩

/-- An encoding of at most five bytes is read. -/
theorem readUintLoop_of_drop {bytes c rest : List UInt8} {pos n shift k : Nat}
    (hc : Leb128.Encodes c k) (hdrop : bytes.drop pos = c ++ rest)
    (hshort : shift + 7 * c.length ≤ 35) :
    readUintLoop bytes pos n shift = some (n + k * 2 ^ shift, pos + c.length) := by
  induction hc generalizing pos n shift with
  | last b h =>
    obtain ⟨hlt, hb, -⟩ := of_drop_eq_cons hdrop
    have hlast : ¬ (b.toNat &&& 128) ≠ 0 := by
      rw [and_128_ne_zero b.toNat_lt]
      omega
    rw [List.length_singleton] at hshort
    rw [readUintLoop, if_neg (by omega)]
    simp only [hb]
    rw [if_neg hlast, and_127, Nat.mod_eq_of_lt h]
    rfl
  | @more b h c k hc ih =>
    obtain ⟨hlt, hb, hrest⟩ := of_drop_eq_cons hdrop
    have hmore : (b.toNat &&& 128) ≠ 0 := (and_128_ne_zero b.toNat_lt).mpr h
    have hbyte := b.toNat_lt
    rw [List.length_cons] at hshort
    rw [readUintLoop, if_neg (by omega)]
    simp only [hb]
    have hdigit : b.toNat % 128 = b.toNat - 128 := by omega
    rw [if_pos hmore, and_127, hdigit, ih hrest (by omega)]
    · refine congrArg some (Prod.ext ?_ ?_)
      · simp only [Nat.pow_add, Nat.add_mul, Nat.add_assoc]
        congr 2
        rw [Nat.mul_comm (2 ^ shift), ← Nat.mul_assoc, Nat.mul_comm k]
      · simp only [List.length_cons]
        omega

theorem readUint_of_drop {bytes c rest : List UInt8} {pos n : Nat} (hc : Leb128.Encodes c n)
    (hdrop : bytes.drop pos = c ++ rest) (hshort : c.length ≤ 5) :
    readUint bytes pos = some (n, pos + c.length) := by
  rw [readUint, readUintLoop_of_drop hc hdrop (by omega), Nat.pow_zero, Nat.mul_one, Nat.zero_add]

/-! ## The bodies -/

section

variable {digest : List UInt8 → String} {valid : List UInt8 → Bool} {input : List UInt8}

/-- Each block has its copy, the first one that of body `i`. -/
inductive Copied (digest : List UInt8 → String) : Nat → List Sized → List Sized → Prop where
  | nil (i : Nat) : Copied digest i [] []
  | cons {i : Nat} {b c : Sized} {bs cs : List Sized}
      (h : copyBody digest i b.content = some c.content) (hrest : Copied digest (i + 1) bs cs) :
      Copied digest i (b :: bs) (c :: cs)

theorem Copied.length_eq {i : Nat} {bs cs : List Sized} (h : Copied digest i bs cs) :
    bs.length = cs.length := by
  induction h with
  | nil i => rfl
  | cons _ _ ih => rw [List.length_cons, List.length_cons, ih]

theorem Copied.getElem? {i k : Nat} {bs cs : List Sized} (h : Copied digest i bs cs) {b : Sized}
    (hb : bs[k]? = some b) :
    ∃ c, cs[k]? = some c ∧ copyBody digest (i + k) b.content = some c.content := by
  induction h generalizing k with
  | nil i => cases hb
  | @cons i a c bs cs hcopy _ ih =>
    cases k with
    | zero =>
      cases hb
      exact ⟨c, rfl, hcopy⟩
    | succ k =>
      obtain ⟨c', hc', hcopy'⟩ := ih hb
      rw [show i + 1 + k = i + (k + 1) by omega] at hcopy'
      exact ⟨c', hc', hcopy'⟩

theorem length_subarray {i j : Nat} (hij : i ≤ j) (hj : j ≤ input.length) :
    (subarray input i j).length = j - i := by
  rw [subarray, List.length_drop, List.length_take]
  omega

theorem drop_eq_subarray_append {i j : Nat} (hij : i ≤ j) :
    input.drop i = subarray input i j ++ input.drop j := by
  have hj' : j = i + (j - i) := by omega
  conv_lhs => rw [← List.take_append_drop (j - i) (input.drop i)]
  rw [subarray, List.drop_take, List.drop_drop, ← hj']

/-- A block that is read, with its end. -/
theorem readUint_sized {pos q n : Nat} (h : readUint input pos = some (n, q))
    (hend : q + n ≤ input.length) :
    ∃ b : Sized, b.Within maxUintBytes ∧ b.content = subarray input q (q + n) ∧
      q + n = pos + b.bytes.length ∧ input.drop pos = b.bytes ++ input.drop (q + n) := by
  obtain ⟨c, hc, hshort, hq, -, hdrop⟩ := readUint_eq_some h
  have hlen := length_subarray (show q ≤ q + n by omega) hend
  have hcontent : Leb128.Encodes c (subarray input q (q + n)).length := by
    rw [hlen, Nat.add_sub_cancel_left]
    exact hc
  refine ⟨⟨c, _, hcontent⟩, hshort, rfl, ?_, ?_⟩
  · simp only [Sized.bytes, List.length_append, hlen]
    omega
  · rw [hdrop, Sized.bytes, List.append_assoc,
      ← drop_eq_subarray_append (show q ≤ q + n by omega)]

theorem bytes_of (content : List UInt8) :
    (Sized.of content).bytes = uint content.length ++ content := by
  rw [Sized.bytes, Sized.of, uint_eq]

theorem copyBodies_eq_some {stop n i : Nat} {s t : Progress} (hstop : stop ≤ input.length)
    (h : copyBodies digest input stop n i s = some t) :
    ∃ bs cs, bs.length = n ∧ (∀ b ∈ bs, b.Within maxUintBytes) ∧ Copied digest i bs cs ∧
      input.drop s.pos = bs.flatMap Sized.bytes ++ input.drop t.pos ∧
      t.output = s.output ++ cs.flatMap Sized.bytes ∧
      t.pos = s.pos + (bs.flatMap Sized.bytes).length ∧
      (t.adapted = true ↔ s.adapted = true ∨ i ≤ codeBodyIndex ∧ codeBodyIndex < i + n) := by
  induction n generalizing i s with
  | zero =>
    cases h
    refine ⟨[], [], rfl, by simp, .nil i, rfl, (List.append_nil _).symm, rfl, ?_⟩
    rw [or_iff_left (by omega)]
  | succ n ih =>
    obtain ⟨⟨length, pos⟩, hread, h⟩ := Option.bind_eq_some_iff.mp h
    simp only at h
    split at h
    · cases h
    · rename_i hend
      obtain ⟨body, hbody, h⟩ := Option.bind_eq_some_iff.mp h
      obtain ⟨b, hbshort, hb, hpos, hdrop⟩ := readUint_sized hread (by omega)
      obtain ⟨bs, cs, hlen, hshort, hcopied, hinput, hout, htpos, hadapted⟩ := ih h
      rw [← hb] at hbody
      refine ⟨b :: bs, .of body :: cs, ?_, ?_, .cons hbody hcopied, ?_, ?_, ?_, ?_⟩
      · rw [List.length_cons, hlen]
      · exact List.forall_mem_cons.mpr ⟨hbshort, hshort⟩
      · rw [hdrop, hinput, List.flatMap_cons, List.append_assoc]
      · rw [hout, List.flatMap_cons, bytes_of, List.append_assoc]
      · rw [htpos, List.flatMap_cons, List.length_append, hpos, Nat.add_assoc]
      · rw [hadapted, Bool.or_eq_true, beq_iff_eq, or_assoc]
        apply or_congr_right
        omega

/-! ## The sections -/

/-- The copy of a section: of a code section each body has its copy, any other one is the same. -/
def Matches (digest : List UInt8 → String) (s t : Section) : Prop :=
  s.id = t.id ∧ (s.id ≠ 10 → s = t) ∧
    (s.id = 10 → ∃ bs cs, IsVectorWithin maxUintBytes s.block.content bs ∧
      IsVector t.block.content cs ∧ Copied digest 0 bs cs)

/-- A code section with a body that is adapted. -/
def HasHelper (s : Section) : Prop :=
  s.id = 10 ∧ ∀ bs, IsVector s.block.content bs → codeBodyIndex < bs.length

structure CopiedTo (digest : List UInt8 → String) (input : List UInt8) (s : Progress)
    (ss ts : List Section) : Prop where
  inside : s.pos ≤ input.length
  read : input = magic ++ ss.flatMap Section.bytes ++ input.drop s.pos
  written : s.output = magic ++ ts.flatMap Section.bytes
  short : ∀ s ∈ ss, s.block.Within maxUintBytes
  pairs : List.Forall₂ (Matches digest) ss ts
  adapted : s.adapted = true → ∃ t ∈ ss, HasHelper t

theorem isVector_unique {content : List UInt8} {bs cs : List Sized} (h : IsVector content bs)
    (h' : IsVector content cs) : bs.length = cs.length := by
  obtain ⟨c, hc, rfl⟩ := h
  obtain ⟨c', hc', heq⟩ := h'
  exact (hc.unique hc' heq).2.1

/-- A code section that is copied. -/
theorem copyCode_eq_some {size pos : Nat} {s t : Progress} (hin : pos + size ≤ input.length)
    (hread : readUint input (s.pos + 1) = some (size, pos))
    (h : copyCode digest input (pos + size) { s with pos := pos } = some t) :
    ∃ b c : Sized, b.Within maxUintBytes ∧ t.pos = pos + size ∧
      t.output = s.output ++ (10 :: c.bytes) ∧
      input.drop (s.pos + 1) = b.bytes ++ input.drop t.pos ∧
      ∃ bs cs, IsVectorWithin maxUintBytes b.content bs ∧ IsVector c.content cs ∧
        Copied digest 0 bs cs ∧ (t.adapted = true → codeBodyIndex < bs.length) := by
  obtain ⟨b, hbshort, hb, -, hdrop⟩ := readUint_sized hread hin
  unfold copyCode at h
  split at h
  · cases h
  · obtain ⟨⟨count, first⟩, hcount, h⟩ := Option.bind_eq_some_iff.mp h
    obtain ⟨u, hbodies, h⟩ := Option.bind_eq_some_iff.mp h
    obtain ⟨c, hc, hcshort, -, -, hinput⟩ := readUint_eq_some hcount
    obtain ⟨bs, cs, hlen, hshort, hcopied, hrest, hout, -, hadapted⟩ :=
      copyBodies_eq_some hin hbodies
    split at h
    · cases h
    · rename_i hstop
      simp only [ne_eq, Decidable.not_not] at hstop
      cases h
      simp only at hinput hrest hout
      have hcontent : b.content = c ++ bs.flatMap Sized.bytes := by
        rw [hrest, hstop, ← List.append_assoc,
          drop_eq_subarray_append (show pos ≤ pos + size by omega)] at hinput
        rw [hb]
        exact List.append_cancel_right hinput
      refine ⟨b, .of u.output, hbshort, hstop, ?_, ?_, bs, cs, ?_, ?_, hcopied, ?_⟩
      · rw [bytes_of]
      · rw [hstop]
        exact hdrop
      · exact ⟨c, by rwa [hlen], hcshort, hshort, hcontent⟩
      · exact ⟨uint count, by rw [← hcopied.length_eq, hlen]; exact encodes_uint count, hout⟩
      · intro h
        rw [hlen]
        rcases hadapted.mp h with h | ⟨-, h⟩
        · cases h
        · omega

/-- One more section is copied. -/
theorem CopiedTo.extend {s t : Progress} {ss ts : List Section} {a b : Section}
    (hs : CopiedTo digest input s ss ts) (hin : t.pos ≤ input.length)
    (hread : input.drop s.pos = a.bytes ++ input.drop t.pos)
    (hwritten : t.output = s.output ++ b.bytes) (hshort : a.block.Within maxUintBytes)
    (hmatch : Matches digest a b)
    (hadapted : t.adapted = true → s.adapted = true ∨ HasHelper a) :
    CopiedTo digest input t (ss ++ [a]) (ts ++ [b]) where
  inside := hin
  read := by
    have := hs.read
    rw [hread] at this
    rw [List.flatMap_append, List.flatMap_cons, List.flatMap_nil, List.append_nil]
    simpa only [List.append_assoc] using this
  written := by
    rw [hwritten, hs.written, List.flatMap_append, List.flatMap_cons, List.flatMap_nil,
      List.append_nil, List.append_assoc]
  short := by
    intro c hc
    obtain hc | hc := List.mem_append.mp hc
    · exact hs.short c hc
    · rw [List.mem_singleton.mp hc]
      exact hshort
  pairs := List.rel_append hs.pairs (.cons hmatch .nil)
  adapted := by
    intro h
    obtain h | h := hadapted h
    · obtain ⟨u, hu, hhelper⟩ := hs.adapted h
      exact ⟨u, List.mem_append_left _ hu, hhelper⟩
    · exact ⟨a, List.mem_append_right _ List.mem_cons_self, h⟩

/-- Each turn of the loop goes on in the input. -/
theorem pos_lt_of_copySection {s t : Progress} (h : copySection digest input s = some t) :
    s.pos < t.pos := by
  obtain ⟨⟨size, pos⟩, hread, h⟩ := Option.bind_eq_some_iff.mp h
  obtain ⟨c, -, -, hq, -, -⟩ := readUint_eq_some hread
  simp only at h
  split at h
  · cases h
  · split at h
    · cases h
      simp only
      omega
    · obtain ⟨-, -, -, hpos, -⟩ := copyCode_eq_some (by omega) hread h
      omega

/-- A turn of the loop copies a section. -/
theorem CopiedTo.copySection {s t : Progress} {ss ts : List Section}
    (hs : CopiedTo digest input s ss ts) (hlt : s.pos < input.length)
    (h : copySection digest input s = some t) :
    ∃ a b, CopiedTo digest input t (ss ++ [a]) (ts ++ [b]) := by
  obtain ⟨⟨size, pos⟩, hread, h⟩ := Option.bind_eq_some_iff.mp h
  have hhead := drop_eq_getD_cons hlt
  simp only at h
  split at h
  · cases h
  · rename_i hend
    have hin : pos + size ≤ input.length := by omega
    split at h
    · rename_i hid
      obtain ⟨b, hshort, -, hstop, hdrop⟩ := readUint_sized hread hin
      cases h
      have hraw : input.drop s.pos =
          (⟨input.getD s.pos 0, b⟩ : Section).bytes ++ input.drop (pos + size) := by
        rw [hhead, hdrop]
        rfl
      have hcopy : subarray input s.pos (pos + size) =
          (⟨input.getD s.pos 0, b⟩ : Section).bytes := by
        rw [drop_eq_subarray_append (show s.pos ≤ pos + size by omega)] at hraw
        exact List.append_cancel_right hraw
      refine ⟨_, _, hs.extend hin hraw (by rw [hcopy]) hshort ?_ .inl⟩
      exact ⟨rfl, fun _ => rfl, fun h => absurd h hid⟩
    · rename_i hid
      simp only [ne_eq, Decidable.not_not] at hid
      obtain ⟨b, c, hshort, hpos, hout, hdrop, bs, cs, hbs, hcs, hcopied, hadapted⟩ :=
        copyCode_eq_some hin hread h
      refine ⟨⟨10, b⟩, ⟨10, c⟩, hs.extend (by omega) ?_ hout hshort ?_ ?_⟩
      · rw [hhead, hdrop, hid]
        rfl
      · exact ⟨rfl, fun h => absurd rfl h, fun _ => ⟨bs, cs, hbs, hcs, hcopied⟩⟩
      · intro h
        refine .inr ⟨rfl, fun bs' hbs' => ?_⟩
        rw [isVector_unique hbs' hbs.isVector]
        exact hadapted h

/-- The loop leaves behind the last section, or with an exception. -/
theorem CopiedTo.leaves {s : Progress} {ss ts : List Section}
    (hs : CopiedTo digest input s ss ts) {r : Option Progress}
    (h : Leaves (sectionTurn digest input) s r) :
    ∀ t, r = some t → input.length ≤ t.pos ∧ ∃ ss ts, CopiedTo digest input t ss ts := by
  induction h generalizing ss ts with
  | @leave s r hleave =>
    rintro t rfl
    unfold sectionTurn at hleave
    split at hleave
    · split at hleave <;> cases hleave
    · cases hleave
      exact ⟨by omega, ss, ts, hs⟩
  | @again s u r hagain _ ih =>
    unfold sectionTurn at hagain
    split at hagain
    · rename_i hlt
      split at hagain
      · cases hagain
      · rename_i v hcopy
        cases hagain
        obtain ⟨a, b, hv⟩ := hs.copySection hlt hcopy
        exact ih hv
    · cases hagain

theorem sectionTurn_lt {s t : Progress} (h : sectionTurn digest input s = .again t) :
    input.length - t.pos < input.length - s.pos := by
  unfold sectionTurn at h
  split at h
  · split at h
    · cases h
    · rename_i u hcopy
      cases h
      have := pos_lt_of_copySection hcopy
      omega
  · cases h

theorem copiedTo_start (h : subarray input 0 8 = magic) :
    CopiedTo digest input ⟨8, magic, false⟩ [] [] := by
  have hlen : 8 ≤ input.length := by
    have := congrArg List.length h
    simp only [subarray, magic, List.length_drop, List.length_take, List.length_cons,
      List.length_nil] at this
    omega
  refine ⟨hlen, ?_, rfl, by simp, .nil, nofun⟩
  have hdrop : input.drop 0 = subarray input 0 8 ++ input.drop 8 :=
    drop_eq_subarray_append (Nat.zero_le 8)
  rw [h, List.drop_zero] at hdrop
  exact hdrop

/-- With a turn for each byte the loop comes to its end. -/
theorem adaptNativeMids_ends : ∃ r, ∀ n, input.length < n →
    adaptNativeMids digest valid input n = some r := by
  unfold adaptNativeMids
  split
  · exact ⟨none, fun _ _ => rfl⟩
  · obtain ⟨r, hr⟩ := exists_loop (n := input.length + 1) (s := ⟨8, magic, false⟩)
      (@sectionTurn_lt digest input) (by omega)
    refine ⟨r.bind (finish valid), fun n hn => ?_⟩
    rw [(loop_eq_some sectionTurn_lt (by omega)).mpr (leaves_of_loop hr), Option.map_some]

/-- What an adapted module has to do with the one it comes from. -/
theorem adaptNativeMids_copied {n : Nat} {out : List UInt8}
    (h : adaptNativeMids digest valid input n = some (some out)) :
    valid out = true ∧ ∃ ss ts, input = magic ++ ss.flatMap Section.bytes ∧
      out = magic ++ ts.flatMap Section.bytes ∧ (∀ s ∈ ss, s.block.Within maxUintBytes) ∧
      List.Forall₂ (Matches digest) ss ts ∧ ∃ s ∈ ss, HasHelper s := by
  unfold adaptNativeMids at h
  split at h
  · cases h
  · rename_i hmagic
    simp only [ne_eq, Decidable.not_not] at hmagic
    obtain ⟨r, hr, hbind⟩ := Option.map_eq_some_iff.mp h
    obtain ⟨t, rfl, hfinish⟩ := Option.bind_eq_some_iff.mp hbind
    obtain ⟨hend, ss, ts, ht⟩ := (copiedTo_start hmagic).leaves (leaves_of_loop hr) t rfl
    unfold finish at hfinish
    split_ifs at hfinish with hadapted hvalid
    cases hfinish
    rw [Bool.not_eq_true', Bool.not_eq_false] at hadapted hvalid
    have hread := ht.read
    rw [List.drop_eq_nil_of_le hend, List.append_nil] at hread
    exact ⟨hvalid, ss, ts, hread, ht.written, ht.short, ht.pairs, ht.adapted hadapted⟩

/-- The sections but the custom ones have different identifiers. -/
def Distinct (ss : List Section) : Prop := ((ss.map Section.id).filter (· != 0)).Nodup

/-- Sections that may be copied: none twice, and of the code section the bodies can be read. No
integer is longer than those that are read. -/
def IsWellFormed (input : List UInt8) : Prop := ∃ ss, input = magic ++ ss.flatMap Section.bytes ∧
  Distinct ss ∧ ∀ s ∈ ss, s.block.Within maxUintBytes ∧
    (s.id = 10 → ∃ bs, IsVectorWithin maxUintBytes s.block.content bs)

/-- A section behind whose identifier stands an integer that is too long. -/
theorem not_isWellFormed_of_long {c : List UInt8} {n : Nat} (id : UInt8) (rest : List UInt8)
    (hc : Leb128.Encodes c n) (hlong : maxUintBytes < c.length) :
    ¬ IsWellFormed (magic ++ id :: (c ++ rest)) := by
  rintro ⟨ss, hinput, -, hss⟩
  have hbytes := List.append_cancel_left hinput
  cases ss with
  | nil => cases hbytes
  | cons s ss =>
    rw [List.flatMap_cons, Section.bytes, List.cons_append, Sized.bytes, List.append_assoc] at hbytes
    obtain ⟨-, hblock⟩ := List.cons.inj hbytes
    obtain ⟨hsize, -⟩ := hc.unique s.block.encodes hblock
    have hshort : s.block.size.length ≤ maxUintBytes := (hss s List.mem_cons_self).1
    rw [hsize] at hlong
    omega

/-- Two sections that are the same, or code sections with the same bodies but for one, which is
adapted. -/
def IsFramed (digest : List UInt8 → String) (s t : Section) : Prop :=
  s.id = t.id ∧ (s.id ≠ 10 → s = t) ∧
    (s.id = 10 → ∃ bs cs, IsVector s.block.content bs ∧ IsVector t.block.content cs ∧
      bs.length = cs.length ∧
      (∀ k ≠ codeBodyIndex, bs[k]?.map Sized.content = cs[k]?.map Sized.content) ∧
      ∀ b, bs[codeBodyIndex]? = some b → ∃ c, cs[codeBodyIndex]? = some c ∧
        adaptBody digest b.content = some c.content)

theorem Copied.map_content {bs cs : List Sized} (h : Copied digest 0 bs cs) {k : Nat}
    (hk : k ≠ codeBodyIndex) : bs[k]?.map Sized.content = cs[k]?.map Sized.content := by
  cases hb : bs[k]? with
  | none =>
    rw [List.getElem?_eq_none_iff, h.length_eq, ← List.getElem?_eq_none_iff] at hb
    rw [hb]
  | some b =>
    obtain ⟨c, hc, hcopy⟩ := h.getElem? hb
    rw [Nat.zero_add, copyBody, if_neg hk] at hcopy
    rw [hc]
    exact hcopy

theorem Matches.isFramed {s t : Section} (h : Matches digest s t) : IsFramed digest s t := by
  obtain ⟨hid, hsame, hcode⟩ := h
  refine ⟨hid, hsame, fun h10 => ?_⟩
  obtain ⟨bs, cs, hbs, hcs, hcopied⟩ := hcode h10
  refine ⟨bs, cs, hbs.isVector, hcs, hcopied.length_eq, fun k hk => hcopied.map_content hk, fun b hb => ?_⟩
  obtain ⟨c, hc, hcopy⟩ := hcopied.getElem? hb
  rw [Nat.zero_add, copyBody, if_pos rfl] at hcopy
  exact ⟨c, hc, hcopy⟩

theorem map_id_eq {ss ts : List Section} (h : List.Forall₂ (Matches digest) ss ts) :
    ss.map Section.id = ts.map Section.id := by
  induction h with
  | nil => rfl
  | cons h _ ih => rw [List.map_cons, List.map_cons, h.1, ih]

theorem exists_isVector {ss ts : List Section} (h : List.Forall₂ (Matches digest) ss ts) :
    ∀ s ∈ ss, s.id = 10 → ∃ bs, IsVectorWithin maxUintBytes s.block.content bs := by
  induction h with
  | nil => nofun
  | cons h _ ih =>
    rw [List.forall_mem_cons]
    refine ⟨fun h10 => ?_, ih⟩
    obtain ⟨bs, -, hbs, -⟩ := h.2.2 h10
    exact ⟨bs, hbs⟩

end

/-- The adaptation ends on every input and throws on every one that is not well formed. What it
gives is valid and has the sections of the input in their order, with one body adapted. A valid
module has no section twice. -/
theorem adaptNativeMids_frame {digest : List UInt8 → String} {valid : List UInt8 → Bool}
    (hvalid : ∀ ts, valid (magic ++ ts.flatMap Section.bytes) = true → Distinct ts) :
    (∀ input, ∃ r, ∀ n, input.length < n → adaptNativeMids digest valid input n = some r) ∧
    (∀ input n, ¬ IsWellFormed input → input.length < n →
      adaptNativeMids digest valid input n = some none) ∧
    ∀ input n out, adaptNativeMids digest valid input n = some (some out) → valid out = true ∧
      ∃ ss ts, input = magic ++ ss.flatMap Section.bytes ∧
        out = magic ++ ts.flatMap Section.bytes ∧ List.Forall₂ (IsFramed digest) ss ts ∧
        ∃ s ∈ ss, HasHelper s := by
  refine ⟨fun input => adaptNativeMids_ends, fun input n hbad hn => ?_, fun input n out h => ?_⟩
  · obtain ⟨r, hr⟩ := @adaptNativeMids_ends digest valid input
    cases r with
    | none => exact hr n hn
    | some out =>
      obtain ⟨hout, ss, ts, hinput, rfl, hshort, hpairs, -⟩ := adaptNativeMids_copied (hr n hn)
      have hdistinct := hvalid ts hout
      rw [Distinct, ← map_id_eq hpairs] at hdistinct
      exact absurd ⟨ss, hinput, hdistinct,
        fun s hs => ⟨hshort s hs, exists_isVector hpairs s hs⟩⟩ hbad
  · obtain ⟨hout, ss, ts, hinput, hts, -, hpairs, hhelper⟩ := adaptNativeMids_copied h
    exact ⟨hout, ss, ts, hinput, hts, hpairs.imp fun _ _ h => h.isFramed, hhelper⟩

/-- Sections in which no identifier but that of the custom ones stands twice. -/
def distinctIds (bytes : List UInt8) : Bool :=
  (Section.readIds bytes.length (bytes.drop 8)).any fun ids => decide (ids.filter (· != 0)).Nodup

/-- A length of six bytes. -/
def overlong : List UInt8 := [128, 128, 128, 128, 128, 0]

theorem encodes_overlong : Leb128.Encodes overlong 0 :=
  .more 128 (by decide) (.more 128 (by decide) (.more 128 (by decide) (.more 128 (by decide)
    (.more 128 (by decide) (.last 0 (by decide))))))

theorem adaptNativeMids_frame_distinctIds :
    (∀ input, ∃ r, ∀ n, input.length < n →
      adaptNativeMids (fun _ => bodySha256) distinctIds input n = some r) ∧
    (∀ id n, 15 < n →
      adaptNativeMids (fun _ => bodySha256) distinctIds (magic ++ id :: overlong) n = some none) ∧
    ∀ input n out, adaptNativeMids (fun _ => bodySha256) distinctIds input n = some (some out) →
      distinctIds out = true ∧
      ∃ ss ts, input = magic ++ ss.flatMap Section.bytes ∧
        out = magic ++ ts.flatMap Section.bytes ∧
        List.Forall₂ (IsFramed fun _ => bodySha256) ss ts ∧ ∃ s ∈ ss, HasHelper s := by
  have hdistinct (ts : List Section)
      (h : distinctIds (magic ++ ts.flatMap Section.bytes) = true) : Distinct ts := by
    have hdrop : (magic ++ ts.flatMap Section.bytes).drop 8 = ts.flatMap Section.bytes := rfl
    have hlen : ts.length ≤ (magic ++ ts.flatMap Section.bytes).length := by
      have := Section.length_le_flatMap ts
      rw [List.length_append]
      omega
    rw [distinctIds, hdrop, Section.readIds_flatMap hlen, Option.any_some, decide_eq_true_eq] at h
    exact h
  obtain ⟨hends, hthrows, hframed⟩ :=
    @adaptNativeMids_frame (fun _ => bodySha256) distinctIds hdistinct
  refine ⟨hends, fun id n hn => hthrows _ n ?_ hn, hframed⟩
  have hlong := not_isWellFormed_of_long id [] encodes_overlong (by decide)
  rwa [List.append_nil] at hlong

end Enil.NativeMids
