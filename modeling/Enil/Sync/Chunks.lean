import Enil.Lib.Buffer
import Enil.Json.Utf8
import Enil.Line.Send

/-!
# The chunks of a ciphertext

`parse_key_id` and `build_ciphertext` decode the chunks of a message into buffers, the
second one behind the other into the same buffer. What `split_v2_ciphertext` cut up is put
together again. Where a chunk is not what a sender would have written the buffers may be
too small, or an offset into them negative.
-/

namespace Enil

open Lib

/-- A call of EVP_DecodeBlock: what it returns and the bytes it stores. -/
abbrev BlockDecoder := List UInt8 → Int × List UInt8

def equalsSign : UInt8 := 61

/-- evp_decode_exact. -/
def evpDecodeExactInto (block : BlockDecoder) (cs : List UInt8) : Int × List UInt8 :=
  if cs = [] then (0, [])
  else
    let decoded := (block cs).1
    (if decoded < 0 then -1 else decoded - (cs.drop (cs.length - 2)).count equalsSign,
      (block cs).2)

/-- The whole groups of four characters. -/
def wholeGroups (cs : List UInt8) : List UInt8 := cs.take (cs.length - cs.length % 4)

/-- enil_b64_decode to the offset `off` of a buffer. -/
def b64Decode (block : BlockDecoder) (cs : List UInt8) (off : Int) (b : Buffer) : Int × Buffer :=
  let (n, stored) := evpDecodeExactInto block (wholeGroups cs)
  (n, b.store off stored)

/-- A conversion to `long long`. -/
def toLongLong (n : Int) : Int := Int.bmod n (2 ^ 64)

/-- parse_key_id, and what becomes of its buffer. -/
def parseKeyId (block : BlockDecoder) : Option (List UInt8) → Int × Buffer
  | none => (0, .alloc 32)
  | some cs =>
    let (len, b) := b64Decode block cs 0 (.alloc 32)
    (if len ≤ 0 then 0
      else (b.read (min len.toNat 32)).foldl (fun out x => toLongLong (out * 256 + x.toNat)) 0,
      b)

/-- The chunks of `build_ciphertext` decoded one behind the other. The lengths of three
strings in memory times three fit a `size_t`. -/
def decodeChunks (block : BlockDecoder) (c0 c1 c2 : List UInt8) (version : Int) :
    Option String × Buffer :=
  let b := Buffer.alloc ((c0.length + c1.length + c2.length) * 3 / 4 + 4)
  let (n0, b) := b64Decode block c0 0 b
  let (n1, n2, b) :=
    if version = 1 then
      let (n1, b) := b64Decode block c1 n0 b
      let (n2, b) := b64Decode block c2 (n0 + n1) b
      (n1, n2, b)
    else
      let (n2, b) := b64Decode block c2 n0 b
      let (n1, b) := b64Decode block c1 (n0 + n2) b
      (n1, n2, b)
  (if n0 < 0 ∨ n1 < 0 ∨ n2 < 0 then none else some (b64Encode (b.read (n0 + n1 + n2).toNat)), b)

/-- The first three chunks, where all of them are strings. -/
def firstChunks : Json → Option (List UInt8 × List UInt8 × List UInt8)
  | .arr (x0 :: x1 :: x2 :: _) =>
    match x0.getStringValue, x1.getStringValue, x2.getStringValue with
    | some c0, some c1, some c2 => some (cString c0, cString c1, cString c2)
    | _, _, _ => none
  | _ => none

/-- build_ciphertext, and the buffer it allocated. -/
def buildCiphertext (block : BlockDecoder) (chunks : Json) (version : Int) :
    Option String × Option Buffer :=
  match firstChunks chunks with
  | none => (none, none)
  | some (c0, c1, c2) =>
    let (result, b) := decodeChunks block c0 c1 c2 version
    (result, some b)

/-! ## What was split is put together -/

/-- An EVP_DecodeBlock that gives back what was encoded, at any length. -/
def Evp.block (evp : Evp) : BlockDecoder := fun cs =>
  match evp.decodeBlock (cs.map fun b => Char.ofNat b.toNat) with
  | none => (-1, [])
  | some bytes => (bytes.length, bytes)

theorem alphabet_ascii : ∀ c ∈ Base64.alphabet, 0 < c.toNat ∧ c.toNat < 128 := by
  have hall : (Base64.alphabet.all fun c => 0 < c.toNat && c.toNat < 128) = true := by
    decide
  intro c hc
  simpa using List.all_eq_true.mp hall c hc

theorem encode_ascii {bs : List UInt8} {c : Char} (h : c ∈ Base64.encode bs) :
    0 < c.toNat ∧ c.toNat < 128 := by
  rcases Base64.mem_encode h with h | rfl
  · exact alphabet_ascii c h
  · decide

theorem cString_b64Encode (bs : List UInt8) :
    cString (b64Encode bs) = (Base64.encode bs).map fun c => UInt8.ofNat c.toNat :=
  cString_ofList_ascii fun _ hc => encode_ascii hc

theorem charOfByte {c : Char} (h : c.toNat < 128) : Char.ofNat (UInt8.ofNat c.toNat).toNat = c := by
  rw [UInt8.toNat_ofNat', Nat.mod_eq_of_lt (by omega), Char.ofNat_toNat]

theorem byte_eq_equalsSign {c : Char} (h : c.toNat < 128) :
    UInt8.ofNat c.toNat = equalsSign ↔ c = '=' := by
  constructor
  · intro hc
    rw [← charOfByte h, hc]
    rfl
  · rintro rfl
    rfl

theorem count_equalsSign {cs : List Char} (h : ∀ c ∈ cs, c.toNat < 128) :
    (cs.map fun c => UInt8.ofNat c.toNat).count equalsSign = cs.count '=' := by
  induction cs with
  | nil => rfl
  | cons c cs ih =>
    obtain ⟨hc, hcs⟩ := List.forall_mem_cons.mp h
    rw [List.map_cons, List.count_cons, List.count_cons, ih hcs]
    simp only [beq_iff_eq, byte_eq_equalsSign hc]

/-- enil_b64_decode of an encoded text: its length, and the text with the zero bytes of the
padding behind it. -/
theorem b64Decode_b64Encode (evp : Evp) (bs : List UInt8) (off : Int) (b : Buffer) :
    b64Decode evp.block (cString (b64Encode bs)) off b =
      ((bs.length : Int),
        b.store off (bs ++ List.replicate (Base64.padding bs.length) 0)) := by
  have hascii : ∀ c ∈ Base64.encode bs, c.toNat < 128 := fun c hc => (encode_ascii hc).2
  have hlen := Base64.length_encode bs
  have hwhole : wholeGroups (cString (b64Encode bs)) =
      (Base64.encode bs).map fun c => UInt8.ofNat c.toNat := by
    rw [wholeGroups, cString_b64Encode, List.length_map, hlen, Nat.mul_mod_left, Nat.sub_zero,
      ← hlen, List.take_of_length_le (by rw [List.length_map])]
  unfold b64Decode evpDecodeExactInto
  rw [hwhole]
  by_cases hnil : Base64.encode bs = []
  · rw [hnil, List.length_nil] at hlen
    obtain rfl : bs = [] := List.length_eq_zero_iff.mp (by omega)
    rfl
  · have hchars : ((Base64.encode bs).map fun c => UInt8.ofNat c.toNat).map
        (fun x => Char.ofNat x.toNat) = Base64.encode bs := by
      rw [List.map_map]
      exact (List.map_congr_left fun c hc => charOfByte (hascii c hc)).trans (List.map_id' _)
    have hpad : (((Base64.encode bs).map fun c => UInt8.ofNat c.toNat).drop
        (((Base64.encode bs).map fun c => UInt8.ofNat c.toNat).length - 2)).count equalsSign =
        Base64.padding bs.length := by
      rw [List.length_map, ← List.map_drop, count_equalsSign fun c hc =>
        hascii c (List.mem_of_mem_drop hc), Base64.count_pad_encode]
    have hneg : ¬ ((bs ++ List.replicate (Base64.padding bs.length) (0 : UInt8)).length : Int) <
        0 := by
      omega
    rw [if_neg (by simpa using hnil)]
    simp only [Evp.block, hchars, evp.decode_encode, if_neg hneg, hpad]
    simp

theorem toLongLong_of_lt {n : Int} (h₀ : 0 ≤ n) (h : n < 2 ^ 63) : toLongLong n = n := by
  unfold toLongLong
  rw [Int.bmod_eq_of_le] <;> omega

/-- Four bytes are far from what a `long long` holds. -/
theorem foldl_four (a b c d : UInt8) :
    [a, b, c, d].foldl (fun out x => toLongLong (out * 256 + x.toNat)) 0 =
      ((a.toNat * 256 + b.toNat) * 256 + c.toNat) * 256 + d.toNat := by
  have ha := a.toNat_lt
  have hb := b.toNat_lt
  have hc := c.toNat_lt
  have hd := d.toNat_lt
  rw [List.foldl_cons, List.foldl_cons, List.foldl_cons, List.foldl_cons, List.foldl_nil,
    zero_mul, zero_add, toLongLong_of_lt (n := a.toNat) (by omega) (by omega),
    toLongLong_of_lt (n := a.toNat * 256 + b.toNat) (by omega) (by omega),
    toLongLong_of_lt (n := (a.toNat * 256 + b.toNat) * 256 + c.toNat) (by omega) (by omega),
    toLongLong_of_lt (by omega) (by omega)]

theorem toNat_lowByte (n : Int) : ((UInt8.ofNat (n % 256).toNat).toNat : Int) = n % 256 := by
  rw [UInt8.toNat_ofNat']
  omega

/-- The bytes of an `int`, put together again. -/
theorem bigEndian_value {n : Int} (h₀ : 0 ≤ n) (h : n < 2 ^ 31) :
    (bigEndian n).foldl (fun out x => toLongLong (out * 256 + x.toNat)) 0 = n := by
  refine (foldl_four _ _ _ _).trans ?_
  simp only [toNat_lowByte, Int.shiftRight_eq_div_pow]
  omega

theorem parseKeyId_bigEndian (evp : Evp) {n : Int} (h₀ : 0 ≤ n) (h : n < 2 ^ 31) :
    (parseKeyId evp.block (some (cString (b64Encode (bigEndian n))))).1 = n := by
  have hlen : (bigEndian n).length = 4 := rfl
  have hread : ((Buffer.alloc 32).store 0
      (bigEndian n ++ List.replicate (Base64.padding 4) 0)).read 4 = bigEndian n :=
    Buffer.read_store (b := .alloc 32) (k := 0) (m := 4) (by simp [hlen])
  unfold parseKeyId
  simp only [b64Decode_b64Encode, hlen]
  rw [if_neg (by omega)]
  exact (congrArg _ hread).trans (bigEndian_value h₀ h)

/-- The chunks of a ciphertext of version 2 put together again. -/
theorem decodeChunks_split (evp : Evp) {raw : List UInt8} (h : 29 ≤ raw.length) :
    (decodeChunks evp.block (cString (b64Encode (raw.take 16)))
      (cString (b64Encode (raw.drop 28))) (cString (b64Encode ((raw.drop 16).take 12))) 2).1 =
      some (b64Encode raw) := by
  have h0 : (raw.take 16).length = 16 := by rw [List.length_take]; omega
  have h2 : ((raw.drop 16).take 12).length = 12 := by rw [List.length_take, List.length_drop]; omega
  have h1 : (raw.drop 28).length = raw.length - 28 := List.length_drop
  have hsecond : ¬ (2 : Int) = 1 := by omega
  unfold decodeChunks
  simp only [b64Decode_b64Encode, h0, h1, h2, hsecond, if_false]
  rw [if_neg (by omega)]
  have hlen : ((16 : Nat) + (raw.length - 28 : Nat) + (12 : Nat) : Int).toNat =
      (0 + 16) + 12 + (raw.length - 28) := by omega
  rw [hlen]
  have hread : ∀ (b : Buffer) (k₀ k₁ k₂ : Nat),
      (((b.store (0 : Nat) (raw.take 16 ++ List.replicate k₀ 0)).store (0 + 16 : Nat)
        ((raw.drop 16).take 12 ++ List.replicate k₂ 0)).store (0 + 16 + 12 : Nat)
        (raw.drop 28 ++ List.replicate k₁ 0)).read (0 + 16 + 12 + (raw.length - 28)) = raw := by
    intro b k₀ k₁ k₂
    rw [Buffer.read_store (by simp [h1]), Buffer.read_store (by simp [h2]),
      Buffer.read_store (by simp [h0]), List.take_left' h0, List.take_left' h1, List.take_left' h2]
    have hrest : raw.drop 28 = (raw.drop 16).drop 12 := by rw [List.drop_drop]
    rw [hrest, List.append_assoc, List.append_assoc, List.take_append_drop,
      List.take_append_drop]
    rfl
  exact congrArg (fun bytes => some (b64Encode bytes)) (hread _ _ _ _)

theorem buildCiphertext_strings (block : BlockDecoder) (c0 c1 c2 : String) (cs : List Json)
    (version : Int) :
    (buildCiphertext block (.arr (.str c0 :: .str c1 :: .str c2 :: cs)) version).1 =
      (decodeChunks block (cString c0) (cString c1) (cString c2) version).1 := rfl

/-- The chunks of a ciphertext give back the ciphertext and the ids of both keys. -/
theorem chunks_round_trip (evp : Evp) (raw : List UInt8) (senderKeyId receiverKeyId : Int)
    (hraw : 29 ≤ raw.length) (hs : 0 ≤ senderKeyId ∧ senderKeyId < 2 ^ 31)
    (hr : 0 ≤ receiverKeyId ∧ receiverKeyId < 2 ^ 31) :
    ∃ chunks : Chunks, splitV2Ciphertext raw senderKeyId receiverKeyId = some chunks ∧
      (buildCiphertext evp.block (.arr (chunks.toList.map .str)) 2).1 = some (b64Encode raw) ∧
      (parseKeyId evp.block (some (cString chunks[3]))).1 = senderKeyId ∧
      (parseKeyId evp.block (some (cString chunks[4]))).1 = receiverKeyId := by
  refine ⟨_, if_neg (by omega), ?_, parseKeyId_bigEndian evp hs.1 hs.2,
    parseKeyId_bigEndian evp hr.1 hr.2⟩
  exact (buildCiphertext_strings _ _ _ _ _ _).trans (decodeChunks_split evp hraw)

theorem chunks_round_trip_counted :
    ∃ chunks : Chunks, splitV2Ciphertext (List.replicate 29 7) 5 (2 ^ 31 - 1) = some chunks ∧
      (buildCiphertext Evp.groups.block (.arr (chunks.toList.map .str)) 2).1 =
        some (b64Encode (List.replicate 29 7)) ∧
      (parseKeyId Evp.groups.block (some (cString chunks[3]))).1 = 5 ∧
      (parseKeyId Evp.groups.block (some (cString chunks[4]))).1 = 2 ^ 31 - 1 :=
  chunks_round_trip Evp.groups (List.replicate 29 7) 5 (2 ^ 31 - 1) (by decide) (by decide)
    (by omega)

/-! ## What is stored -/

/-- EVP_DecodeBlock on the characters it is given: the groups of four it converts, three
bytes each, before it comes to the end or to a malformed one, and whether there was none. -/
structure GroupDecoder where
  convert : List UInt8 → List (Vector UInt8 3) × Bool
  length_le : ∀ cs, (convert cs).1.length ≤ cs.length / 4

namespace GroupDecoder

variable (d : GroupDecoder)

/-- The call with `(int)n4`. -/
def called (cs : List UInt8) : List (Vector UInt8 3) × Bool :=
  d.convert (cs.take (toCInt cs.length).toNat)

def block : BlockDecoder := fun cs =>
  (if (d.called cs).2 then 3 * (d.called cs).1.length else -1,
    (d.called cs).1.flatMap Vector.toList)

/-- The number of groups converted of a chunk. -/
def groups (cs : List UInt8) : Nat :=
  if wholeGroups cs = [] then 0 else (d.called (wholeGroups cs)).1.length

/-- The value of enil_b64_decode for a chunk; a negative one refuses it. -/
def value (cs : List UInt8) : Int := (evpDecodeExactInto d.block (wholeGroups cs)).1

def stored (cs : List UInt8) : List UInt8 := (evpDecodeExactInto d.block (wholeGroups cs)).2

theorem b64Decode_eq (cs : List UInt8) (off : Int) (b : Buffer) :
    b64Decode d.block cs off b = (d.value cs, b.store off (d.stored cs)) := rfl

theorem length_flatMap (gs : List (Vector UInt8 3)) :
    (gs.flatMap Vector.toList).length = 3 * gs.length := by
  induction gs with
  | nil => rfl
  | cons g gs ih =>
    rw [List.flatMap_cons, List.length_append, ih, Vector.length_toList, List.length_cons]
    omega

theorem length_stored (cs : List UInt8) : (d.stored cs).length = 3 * d.groups cs := by
  unfold stored evpDecodeExactInto groups
  split
  · rfl
  · exact length_flatMap _

/-- No more groups than the chunk has. -/
theorem groups_le (cs : List UInt8) : 4 * d.groups cs ≤ cs.length := by
  unfold groups
  split
  · omega
  · have hconvert := d.length_le ((wholeGroups cs).take (toCInt (wholeGroups cs).length).toNat)
    have hwhole : (wholeGroups cs).length ≤ cs.length := by
      rw [wholeGroups, List.length_take]
      omega
    unfold called
    rw [List.length_take] at hconvert
    omega

theorem value_le (cs : List UInt8) : d.value cs ≤ 3 * d.groups cs := by
  unfold value evpDecodeExactInto groups block
  split
  · exact le_refl _
  · dsimp only
    split
    · omega
    · split
      · omega
      · omega

/-- The buffer of a key id holds ten groups. -/
theorem within_parseKeyId (cs : List UInt8) :
    (parseKeyId d.block (some cs)).2.Within ↔ d.groups cs ≤ 10 := by
  unfold parseKeyId
  simp only [b64Decode_eq]
  rw [Buffer.within_store, ← List.length_eq_zero_iff, length_stored, Buffer.size_alloc]
  constructor
  · rintro ⟨h, -⟩
    omega
  · intro h
    exact ⟨by omega, Buffer.within_alloc 32⟩

/-- Three chunks decoded one behind the other into a buffer with room for all of them. -/
theorem within_three {x y z : List UInt8} {size : Nat}
    (hsize : (x.length + y.length + z.length) * 3 / 4 ≤ size) :
    ((((Buffer.alloc size).store 0 (d.stored x)).store (d.value x) (d.stored y)).store
        (d.value x + d.value y) (d.stored z)).Within ↔
      (0 ≤ d.value x ∨ d.groups y = 0) ∧ (0 ≤ d.value x + d.value y ∨ d.groups z = 0) := by
  have hgx := d.groups_le x
  have hgy := d.groups_le y
  have hgz := d.groups_le z
  have hvx := d.value_le x
  have hvy := d.value_le y
  simp only [Buffer.within_store, Buffer.size_store, Buffer.size_alloc,
    ← List.length_eq_zero_iff, length_stored]
  constructor
  · rintro ⟨hthird, hsecond, -, -⟩
    exact ⟨by omega, by omega⟩
  · rintro ⟨hsecond, hthird⟩
    exact ⟨by omega, by omega, by omega, Buffer.within_alloc size⟩

end GroupDecoder

/-- The chunks that are parsed as key ids. -/
def keyChunks (chunks : List Json) : List (Option String) :=
  ((chunks.drop 3).take 2).map Json.getStringValue

/-- What is decoded of an array of chunks is stored inside the buffers for it. -/
structure DecodedWithin (d : GroupDecoder) (chunks : List Json) (version : Int) : Prop where
  keyIds : ∀ c ∈ keyChunks chunks, (parseKeyId d.block (c.map cString)).2.Within
  ciphertext : ∀ b, (buildCiphertext d.block (.arr chunks) version).2 = some b → b.Within

/-- The chunks of the ciphertext in the order in which they are decoded. -/
def decodeOrder (chunks : List Json) (version : Int) :
    Option (List UInt8 × List UInt8 × List UInt8) :=
  (firstChunks (.arr chunks)).map fun (c0, c1, c2) =>
    if version = 1 then (c0, c1, c2) else (c0, c2, c1)

/-- No key id has more than ten groups, and where the chunks before one are refused it has
none. -/
structure Harmless (d : GroupDecoder) (chunks : List Json) (version : Int) : Prop where
  keyIds : ∀ c, some c ∈ keyChunks chunks → d.groups (cString c) ≤ 10
  second : ∀ x y z, decodeOrder chunks version = some (x, y, z) →
    0 ≤ d.value x ∨ d.groups y = 0
  third : ∀ x y z, decodeOrder chunks version = some (x, y, z) →
    0 ≤ d.value x + d.value y ∨ d.groups z = 0

theorem within_decodeChunks (d : GroupDecoder) {c0 c1 c2 x y z : List UInt8} {version : Int}
    (h : (if version = 1 then (c0, c1, c2) else (c0, c2, c1)) = (x, y, z)) :
    (decodeChunks d.block c0 c1 c2 version).2.Within ↔
      (0 ≤ d.value x ∨ d.groups y = 0) ∧ (0 ≤ d.value x + d.value y ∨ d.groups z = 0) := by
  by_cases hversion : version = 1
  · rw [if_pos hversion] at h
    cases h
    simp only [decodeChunks, GroupDecoder.b64Decode_eq, if_pos hversion]
    exact d.within_three (by omega)
  · rw [if_neg hversion] at h
    cases h
    simp only [decodeChunks, GroupDecoder.b64Decode_eq, if_neg hversion]
    exact d.within_three (by omega)

/-- Where a buffer is allocated the chunks are decoded into it in their order. -/
theorem buildCiphertext_within (d : GroupDecoder) (chunks : List Json) (version : Int) :
    (∀ b, (buildCiphertext d.block (.arr chunks) version).2 = some b → b.Within) ↔
      ∀ x y z, decodeOrder chunks version = some (x, y, z) →
        (0 ≤ d.value x ∨ d.groups y = 0) ∧ (0 ≤ d.value x + d.value y ∨ d.groups z = 0) := by
  unfold buildCiphertext decodeOrder
  cases firstChunks (.arr chunks) with
  | none => simp
  | some cs =>
    obtain ⟨c0, c1, c2⟩ := cs
    simp only [Option.some.injEq, Option.map_some]
    constructor
    · intro h x y z hxyz
      exact (within_decodeChunks d hxyz).mp (h _ rfl)
    · rintro h b rfl
      exact (within_decodeChunks d rfl).mpr (h _ _ _ rfl)

/-- The chunks are decoded within bounds if and only if they are harmless. -/
theorem decodedWithin_iff (d : GroupDecoder) (chunks : List Json) (version : Int) :
    DecodedWithin d chunks version ↔ Harmless d chunks version := by
  have hbuilt := buildCiphertext_within d chunks version
  constructor
  · rintro ⟨hkeys, hcipher⟩
    refine ⟨fun c hc => (d.within_parseKeyId _).mp (hkeys _ hc),
      fun x y z h => (hbuilt.mp hcipher x y z h).1, fun x y z h => (hbuilt.mp hcipher x y z h).2⟩
  · rintro ⟨hkeys, hsecond, hthird⟩
    refine ⟨fun c hc => ?_, hbuilt.mpr fun x y z h => ⟨hsecond x y z h, hthird x y z h⟩⟩
    cases c with
    | none => exact Buffer.within_alloc 32
    | some c => exact (d.within_parseKeyId _).mpr (hkeys c hc)

/-! ## Chunks that are not -/

/-- The three bytes of four characters of the alphabet. -/
def convertGroup (a b c e : UInt8) : Option (Vector UInt8 3) := do
  let n := (← Base64.value (Char.ofNat a.toNat)) * 262144 +
    (← Base64.value (Char.ofNat b.toNat)) * 4096 +
    (← Base64.value (Char.ofNat c.toNat)) * 64 + (← Base64.value (Char.ofNat e.toNat))
  return #v[UInt8.ofNat (n / 65536), UInt8.ofNat (n / 256), UInt8.ofNat n]

/-- Group after group up to a malformed one. -/
def convertGroups : List UInt8 → List (Vector UInt8 3) × Bool
  | a :: b :: c :: e :: rest =>
    match convertGroup a b c e with
    | none => ([], false)
    | some g => (g :: (convertGroups rest).1, (convertGroups rest).2)
  | cs => ([], cs.isEmpty)

theorem convertGroups_length_le (cs : List UInt8) :
    (convertGroups cs).1.length ≤ cs.length / 4 := by
  fun_induction convertGroups cs with
  | case1 a b c e rest h => simp
  | case2 a b c e rest g h ih =>
    simp only [List.length_cons]
    omega
  | case3 cs h => simp

def strictDecoder : GroupDecoder := ⟨convertGroups, convertGroups_length_le⟩

/-- A key id of eleven groups. -/
def longKeyId : List Json :=
  [.str "AAAA", .str "AAAA", .str "AAAA", .str (String.ofList (List.replicate 44 'A')), .str "AAAA"]

/-- A first chunk that is refused. -/
def refusedChunk : List Json :=
  [.str "!!!!", .str "AAAA", .str "AAAA", .str "AAAA", .str "AAAA"]

theorem longKeyId_groups :
    strictDecoder.groups (cString (String.ofList (List.replicate 44 'A'))) = 11 := by
  have hascii : ∀ c ∈ List.replicate 44 'A', 0 < c.toNat ∧ c.toNat < 128 := by
    intro c hc
    rw [List.eq_of_mem_replicate hc]
    decide
  rw [cString_ofList_ascii hascii]
  decide

/-- A key id that is too long, and a chunk decoded in front of the buffer. -/
theorem longKeyId_overflows : ¬ DecodedWithin strictDecoder longKeyId 2 ∧
    ¬ DecodedWithin strictDecoder refusedChunk 2 := by
  constructor
  · intro h
    have hkey := (strictDecoder.within_parseKeyId _).mp
      (h.keyIds (some (String.ofList (List.replicate 44 'A'))) List.mem_cons_self)
    rw [longKeyId_groups] at hkey
    omega
  · intro h
    have hsecond := (buildCiphertext_within strictDecoder refusedChunk 2).mp h.ciphertext
      (utf8 "!!!!") (utf8 "AAAA") (utf8 "AAAA") (by decide +kernel)
    revert hsecond
    decide +kernel

end Enil
