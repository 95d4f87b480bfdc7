import Enil.Lib.CType
import Enil.Lib.Chars
import Enil.Lib.Keystream
import Mathlib.Algebra.Ring.Nat

/-!
# The encryption of files

Key, nonce and key of the tag are cut out of one block derived from the key material. The
ciphertext is the plaintext and a keystream, its tag stands behind it. The length goes to
the cipher as an `int`. HMAC and the keystream are parameters, and so is what a new buffer
of the heap holds.
-/

namespace Enil.FileCrypto

open Lib

/-- How a call ends; `outside` where it reads outside of its input. -/
inductive Outcome (α : Type) where
  | ok (a : α)
  | failed
  | outside

def Outcome.map {α β : Type} (f : α → β) : Outcome α → Outcome β
  | .ok a => .ok (f a)
  | .failed => .failed
  | .outside => .outside

theorem Outcome.map_eq_ok {α β : Type} {f : α → β} {x : Outcome α} {b : β} :
    x.map f = .ok b ↔ ∃ a, x = .ok a ∧ f a = b := by
  cases x <;> simp [Outcome.map]

/-- HMAC-SHA256 of a key and data. -/
abbrev Hmac := List UInt8 → List UInt8 → Chars 32

/-- AES-256-CTR of a key and a counter block. A negative length is refused by some versions of
the library; others take it for a huge one. -/
structure Evp where
  keystream : List UInt8 → List UInt8 → Nat → UInt8
  refusesNegative : Bool

/-- "FileEncryption" -/
def kInfo : List UInt8 := [70, 105, 108, 101, 69, 110, 99, 114, 121, 112, 116, 105, 111, 110]

section

variable (hmac : Hmac) (evp : Evp)

/-- The loop of `file_hkdf`; `rest` bytes are still to be written. -/
def hkdfBlocks (prk : List UInt8) (counter : UInt8) (tPrev : List UInt8) (rest : Nat) :
    List UInt8 :=
  if rest = 0 then []
  else
    let t := (hmac prk (tPrev ++ kInfo ++ [counter])).bytes
    t.take rest ++ hkdfBlocks prk (counter + 1) t (rest - 32)
termination_by rest
decreasing_by omega

def fileHkdf (ikm : List UInt8) (outLen : Nat) : List UInt8 :=
  hkdfBlocks hmac (hmac (List.replicate 32 0) ikm).bytes 1 [] outLen

structure Keys where
  encKey : List UInt8
  macKey : List UInt8
  nonce : List UInt8

def fileDeriveKeys (km : List UInt8) : Keys :=
  let out := fileHkdf hmac km 76
  ⟨out.take 32, (out.drop 32).take 32, (out.drop 64).take 12⟩

/-- `malloc(n)` of a heap that holds these bytes. -/
def malloc (heap : Nat → UInt8) (n : Nat) : List UInt8 := (List.range n).map heap

/-- file_ctr_crypt: the first `(int)in_len` bytes of the buffer are written. -/
def fileCtrCrypt (heap : Nat → UInt8) (encKey nonce input : List UInt8) : Outcome (List UInt8) :=
  let counter := nonce ++ List.replicate 4 0
  let out := malloc heap input.length
  let n := toCInt input.length
  if n < 0 then if evp.refusesNegative then .failed else .outside
  else .ok (xorStream (evp.keystream encKey counter) (input.take n.toNat) ++ out.drop n.toNat)

def fileEncryptWithKm (heap : Nat → UInt8) (plain km : List UInt8) : Outcome (List UInt8) :=
  let keys := fileDeriveKeys hmac km
  (fileCtrCrypt evp heap keys.encKey keys.nonce plain).map fun cipher =>
    cipher ++ (hmac keys.macKey cipher).bytes

/-- `n` bytes at an offset of the input. -/
def readAt (s : List UInt8) (off : Int) (n : Int) : Option (List UInt8) :=
  if 0 ≤ off ∧ off + n ≤ s.length then some ((s.drop off.toNat).take n.toNat) else none

def fileDecrypt (heap : Nat → UInt8) (km enc : List UInt8) : Outcome (List UInt8) :=
  if enc.length < 32 then .failed
  else
    let ctLen : Int := enc.length - 32
    let keys := fileDeriveKeys hmac km
    match readAt enc 0 ctLen, readAt enc ctLen 32 with
    | some ct, some tag =>
      if (hmac keys.macKey ct).bytes ≠ tag then .failed
      else fileCtrCrypt evp heap keys.encKey keys.nonce ct
    | _, _ => .outside

/-- What is encrypted is decrypted to the plaintext, whatever the heap holds. -/
def RoundTrips (km plain : List UInt8) : Prop := ∀ heap heap', ∃ enc,
  fileEncryptWithKm hmac evp heap plain km = .ok enc ∧
    fileDecrypt hmac evp heap' km enc = .ok plain

/-- The last 32 bytes are the tag of the bytes before them. -/
def Tagged (km enc : List UInt8) : Prop := 32 ≤ enc.length ∧
  enc.drop (enc.length - 32) =
    (hmac (fileDeriveKeys hmac km).macKey (enc.take (enc.length - 32))).bytes

/-- Nothing is read outside of the input, and only a tagged one is decrypted. -/
def Guarded (km enc : List UInt8) : Prop := ∀ heap,
  fileDecrypt hmac evp heap km enc ≠ .outside ∧
    ∀ plain, fileDecrypt hmac evp heap km enc = .ok plain → Tagged hmac km enc

end

/-! ## Lengths -/

/-- An `int` that is not negative is at most the length, and less if the length is no `int`. -/
theorem toNat_toCInt {n : Nat} (h : 0 ≤ toCInt n) :
    (toCInt n).toNat ≤ n ∧ (intMax < n → (toCInt n).toNat < n) := by
  have hmod := toCInt_emod n
  have hmem := toCInt_mem n
  unfold intMax at *
  omega

section

variable {hmac : Hmac} {evp : Evp} {heap heap' : Nat → UInt8} {encKey nonce km enc s : List UInt8}

theorem length_hkdfBlocks (prk : List UInt8) (counter : UInt8) (tPrev : List UInt8) (rest : Nat) :
    (hkdfBlocks hmac prk counter tPrev rest).length = rest := by
  induction counter, tPrev, rest using hkdfBlocks.induct hmac prk with
  | case1 counter tPrev => rw [hkdfBlocks, if_pos rfl, List.length_nil]
  | case2 counter tPrev rest h t ih =>
    rw [hkdfBlocks, if_neg h, List.length_append, List.length_take, Chars.length_eq, ih]
    omega

/-- The three keys have their sizes and are the whole block. -/
theorem fileDeriveKeys_append (km : List UInt8) :
    (fileDeriveKeys hmac km).encKey ++ (fileDeriveKeys hmac km).macKey ++
        (fileDeriveKeys hmac km).nonce = fileHkdf hmac km 76 ∧
      (fileDeriveKeys hmac km).encKey.length = 32 ∧
      (fileDeriveKeys hmac km).macKey.length = 32 ∧
      (fileDeriveKeys hmac km).nonce.length = 12 := by
  have hlen : (fileHkdf hmac km 76).length = 76 := length_hkdfBlocks ..
  generalize hout : fileHkdf hmac km 76 = out at hlen
  simp only [fileDeriveKeys, hout, List.length_take, List.length_drop, hlen]
  refine ⟨?_, rfl, rfl, rfl⟩
  rw [← List.take_add, List.take_of_length_le (l := out.drop 64) (by simp [hlen]),
    List.take_append_drop]

/-! ## The cipher -/

theorem fileCtrCrypt_of_le (h : s.length ≤ intMax) :
    fileCtrCrypt evp heap encKey nonce s =
      .ok (xorStream (evp.keystream encKey (nonce ++ List.replicate 4 0)) s) := by
  have hneg : ¬ ((s.length : Int) < 0) := by omega
  have hheap : (malloc heap s.length).drop s.length = [] := by
    rw [List.drop_eq_nil_iff, malloc, List.length_map, List.length_range]
  simp only [fileCtrCrypt, toCInt_of_le h]
  rw [if_neg hneg, Int.toNat_natCast, List.take_length, hheap, List.append_nil]

theorem fileCtrCrypt_ne_outside : fileCtrCrypt evp heap encKey nonce s ≠ .outside ↔
    evp.refusesNegative = true ∨ 0 ≤ toCInt s.length := by
  simp only [fileCtrCrypt]
  split
  · rename_i hneg
    have hnot : ¬ 0 ≤ toCInt s.length := by omega
    rw [or_iff_left hnot]
    split
    · rename_i h
      exact ⟨fun _ => h, nofun⟩
    · rename_i h
      exact ⟨fun hout => absurd rfl hout, fun hyes => absurd hyes h⟩
  · rename_i hpos
    exact ⟨fun _ => .inr (Int.not_lt.mp hpos), nofun⟩

/-- Of any length the buffer has the length of the input. -/
theorem length_fileCtrCrypt {t : List UInt8} (h : fileCtrCrypt evp heap encKey nonce s = .ok t) :
    t.length = s.length := by
  simp only [fileCtrCrypt] at h
  split at h
  · split at h <;> cases h
  · rename_i hpos
    have hle := (toNat_toCInt (Int.not_lt.mp hpos)).1
    cases h
    rw [List.length_append, length_xorStream, List.length_take, List.length_drop, malloc,
      List.length_map, List.length_range]
    omega

/-- Where the length is no `int`, the last byte is that of the heap. -/
theorem getLast?_fileCtrCrypt {t : List UInt8} (hlong : intMax < s.length)
    (h : fileCtrCrypt evp heap encKey nonce s = .ok t) :
    t.getLast? = some (heap (s.length - 1)) := by
  simp only [fileCtrCrypt] at h
  split at h
  · split at h <;> cases h
  · rename_i hpos
    have hlt := (toNat_toCInt (Int.not_lt.mp hpos)).2 hlong
    have hlast : (malloc heap s.length).getLast? = some (heap (s.length - 1)) := by
      rw [malloc, List.getLast?_map, List.getLast?_range, if_neg (by omega)]
      rfl
    have hdrop : ((malloc heap s.length).drop (toCInt s.length).toNat).getLast? =
        some (heap (s.length - 1)) := by
      rw [List.getLast?_drop, if_neg (by simpa [malloc] using hlt), hlast]
    cases h
    rw [List.getLast?_append, hdrop]
    rfl

/-! ## Decryption -/

theorem readAt_eq {off n : Nat} (h : off + n ≤ s.length) :
    readAt s off n = some ((s.drop off).take n) := by
  rw [readAt, if_pos (by omega), Int.toNat_natCast, Int.toNat_natCast]

/-- Both pieces of the input are read within it. -/
theorem fileDecrypt_eq (h : 32 ≤ enc.length) :
    fileDecrypt hmac evp heap km enc =
      if (hmac (fileDeriveKeys hmac km).macKey (enc.take (enc.length - 32))).bytes ≠
          enc.drop (enc.length - 32) then .failed
      else fileCtrCrypt evp heap (fileDeriveKeys hmac km).encKey (fileDeriveKeys hmac km).nonce
        (enc.take (enc.length - 32)) := by
  have hct : ((enc.length : Int) - 32) = ((enc.length - 32 : Nat) : Int) := by omega
  have hread : readAt enc 0 ((enc.length - 32 : Nat) : Int) = some (enc.take (enc.length - 32)) :=
    readAt_eq (show 0 + (enc.length - 32) ≤ enc.length by omega)
  have htag : readAt enc ((enc.length - 32 : Nat) : Int) 32 =
      some (enc.drop (enc.length - 32)) := by
    have hall : (enc.drop (enc.length - 32)).take 32 = enc.drop (enc.length - 32) :=
      List.take_of_length_le (by rw [List.length_drop]; omega)
    rw [← hall]
    exact readAt_eq (n := 32) (by omega)
  simp only [fileDecrypt, hct]
  rw [if_neg (by omega), hread, htag]

/-- A ciphertext and its tag. -/
theorem fileDecrypt_append (cipher : List UInt8) :
    fileDecrypt hmac evp heap km
        (cipher ++ (hmac (fileDeriveKeys hmac km).macKey cipher).bytes) =
      fileCtrCrypt evp heap (fileDeriveKeys hmac km).encKey (fileDeriveKeys hmac km).nonce
        cipher := by
  generalize htag : hmac (fileDeriveKeys hmac km).macKey cipher = tag
  have hlen : (cipher ++ tag.bytes).length = cipher.length + 32 := by
    rw [List.length_append, tag.length_eq]
  rw [fileDecrypt_eq (by omega), hlen, Nat.add_sub_cancel, List.take_left, List.drop_left, htag,
    if_neg (fun h => h rfl)]

/-- The outcomes of a decryption: the input has no tag, or it goes to the cipher. -/
theorem fileDecrypt_of_not_tagged (h : ¬ Tagged hmac km enc) :
    fileDecrypt hmac evp heap km enc = .failed := by
  by_cases hlen : enc.length < 32
  · exact if_pos hlen
  · rw [fileDecrypt_eq (by omega), if_pos]
    exact fun htag => h ⟨by omega, htag.symm⟩

theorem fileDecrypt_of_tagged (h : Tagged hmac km enc) :
    fileDecrypt hmac evp heap km enc = fileCtrCrypt evp heap (fileDeriveKeys hmac km).encKey
      (fileDeriveKeys hmac km).nonce (enc.take (enc.length - 32)) := by
  rw [fileDecrypt_eq h.1, if_neg]
  exact fun hne => hne h.2.symm

/-! ## The round trip -/

theorem roundTrips_of_le {plain : List UInt8} (h : plain.length ≤ intMax) :
    RoundTrips hmac evp km plain := by
  intro heap heap'
  refine ⟨_, Outcome.map_eq_ok.mpr ⟨_, fileCtrCrypt_of_le h, rfl⟩, ?_⟩
  rw [fileDecrypt_append, fileCtrCrypt_of_le (by rwa [length_xorStream]), xorStream_xorStream]

/-- Behind the length that the cipher gets the heap is decrypted, and what it holds need not be
the plaintext. -/
theorem le_of_roundTrips {plain : List UInt8} (h : RoundTrips hmac evp km plain) :
    plain.length ≤ intMax := by
  by_contra hlong
  have hlong : intMax < plain.length := by omega
  obtain ⟨b, hb⟩ : ∃ b, plain.getLast? = some b := by
    cases hlast : plain.getLast? with
    | some b => exact ⟨b, rfl⟩
    | none =>
      rw [List.getLast?_eq_none_iff] at hlast
      rw [hlast] at hlong
      exact absurd hlong (Nat.not_lt_zero _)
  obtain ⟨c, hc⟩ : ∃ c, c ≠ b := by
    by_cases hzero : b = 0
    · exact ⟨1, by rw [hzero]; decide⟩
    · exact ⟨0, Ne.symm hzero⟩
  obtain ⟨enc, henc, hdec⟩ := h (fun _ => 0) (fun _ => c)
  obtain ⟨cipher, hcipher, rfl⟩ := Outcome.map_eq_ok.mp henc
  have hlen := length_fileCtrCrypt hcipher
  rw [fileDecrypt_append] at hdec
  have hlast := getLast?_fileCtrCrypt (by omega) hdec
  rw [hb] at hlast
  exact hc (Option.some.inj hlast).symm

theorem guarded_iff : Guarded hmac evp km enc ↔
    (Tagged hmac km enc → evp.refusesNegative = true ∨ 0 ≤ toCInt (enc.length - 32 : Nat)) := by
  have hlen : 32 ≤ enc.length → (enc.take (enc.length - 32)).length = enc.length - 32 := by
    intro h
    rw [List.length_take]
    omega
  constructor
  · intro h htag
    have hinside := (h fun _ => 0).1
    rwa [fileDecrypt_of_tagged htag, fileCtrCrypt_ne_outside, hlen htag.1] at hinside
  · intro h heap
    by_cases htag : Tagged hmac km enc
    · refine ⟨?_, fun _ _ => htag⟩
      rw [fileDecrypt_of_tagged htag, fileCtrCrypt_ne_outside, hlen htag.1]
      exact h htag
    · rw [fileDecrypt_of_not_tagged htag]
      exact ⟨nofun, nofun⟩

end

/-- What is encrypted is decrypted if and only if its length is an `int`. Decryption reads
within its input and gives bytes for a tagged input only, unless the length of a tagged one is
negative as an `int` and the library takes that. -/
theorem fileCrypto_iff (hmac : Hmac) (evp : Evp) :
    (∀ km plain, RoundTrips hmac evp km plain ↔ plain.length ≤ intMax) ∧
    ∀ km enc, Guarded hmac evp km enc ↔
      (Tagged hmac km enc → evp.refusesNegative = true ∨ 0 ≤ toCInt (enc.length - 32 : Nat)) :=
  ⟨fun _ _ => ⟨le_of_roundTrips, roundTrips_of_le⟩, fun _ _ => guarded_iff⟩

/-- Of 4 GiB no byte is encrypted. -/
theorem fileCrypto_long : ¬ ∀ (hmac : Hmac) (evp : Evp) (km plain : List UInt8),
    km.length = 32 → RoundTrips hmac evp km plain := by
  intro hall
  have h := hall (fun _ _ => .zeros 32) ⟨fun _ _ _ => 0, true⟩ (.replicate 32 0)
    (.replicate 4294967296 0) List.length_replicate
  have hle := le_of_roundTrips h
  rw [List.length_replicate] at hle
  exact absurd hle (by decide)

end Enil.FileCrypto
