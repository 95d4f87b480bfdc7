import Enil.Lib.Base64
import Enil.Worker.LegyHeaders

/-!
# LEGY messages

A message is encrypted with a fresh key: a version, the headers and the body. Behind
the ciphertext stands a checksum, which the decoder finds by the length of the whole.
What is encoded is decoded again.
-/

namespace Enil

open Lib

/-! ## The checksum -/

def rot (v n : UInt32) : UInt32 := v <<< n ||| v >>> (32 - n)

def p1 : UInt32 := 0x9e3779b1
def p2 : UInt32 := 0x85ebca77
def p3 : UInt32 := 0xc2b2ae3d
def p4 : UInt32 := 0x27d4eb2f
def p5 : UInt32 := 0x165667b1

/-- The little-endian words, and the bytes after them. -/
def words : List UInt8 → List UInt32 × List UInt8
  | a :: b :: c :: d :: rest =>
    let w := a.toUInt32 ||| b.toUInt32 <<< 8 ||| c.toUInt32 <<< 16 ||| d.toUInt32 <<< 24
    (w :: (words rest).1, (words rest).2)
  | rest => ([], rest)

structure Lanes where
  v1 : UInt32
  v2 : UInt32
  v3 : UInt32
  v4 : UInt32

def Lanes.init : Lanes := ⟨p1 + p2, p2, 0, 0 - p1⟩

def round (v x : UInt32) : UInt32 := rot (v + x * p2) 13 * p1

/-- The words in fours, and the words after them. -/
def Lanes.absorb (v : Lanes) : List UInt32 → Lanes × List UInt32
  | a :: b :: c :: d :: ws =>
    Lanes.absorb ⟨round v.v1 a, round v.v2 b, round v.v3 c, round v.v4 d⟩ ws
  | ws => (v, ws)

def Lanes.sum (v : Lanes) : UInt32 := rot v.v1 1 + rot v.v2 7 + rot v.v3 12 + rot v.v4 18

def xxhash32 (a : List UInt8) : UInt32 :=
  let (ws, tail) := words a
  let (h, ws) :=
    if 16 ≤ a.length then
      let (v, ws) := Lanes.init.absorb ws
      (v.sum, ws)
    else (p5, ws)
  let h := h + UInt32.ofNat a.length
  let h := ws.foldl (fun h w => rot (h + w * p3) 17 * p4) h
  let h := tail.foldl (fun h b => rot (h + b.toUInt32 * p5) 11 * p1) h
  let h := (h ^^^ h >>> 15) * p2
  let h := (h ^^^ h >>> 13) * p3
  h ^^^ h >>> 16

def u32 (n : UInt32) : List UInt8 :=
  [(n >>> 24).toUInt8, (n >>> 16).toUInt8, (n >>> 8).toUInt8, n.toUInt8]

def legyMac (key data : List UInt8) : List UInt8 :=
  let ip := key.map (· ^^^ 0x36)
  let op := key.map (· ^^^ 0x5c)
  u32 (xxhash32 (op ++ u32 (xxhash32 (ip ++ data))))

example : xxhash32 [] = 0x02cc5d05 := by decide

example : xxhash32 [97, 98, 99] = 0x32d153ff := by decide

/-! ## The cipher -/

structure AesKey where
  bytes : List UInt8
  length_eq : bytes.length = 16

/-- AES-CBC with the fixed vector, and the wrapping of a key for the server. Decryption
inverts encryption, and ciphertexts are whole blocks. -/
structure Cipher where
  encrypt : AesKey → List UInt8 → List UInt8
  decrypt : AesKey → List UInt8 → Option (List UInt8)
  wrap : AesKey → List UInt8
  decrypt_encrypt : ∀ k xs, decrypt k (encrypt k xs) = some xs
  blocks : ∀ k xs, (encrypt k xs).length % 16 = 0
  nonempty : ∀ k xs, 0 < (encrypt k xs).length

/-! ## Encoding -/

/-- b64: strict base64. -/
def b64 (s : String) : Option (List UInt8) := Base64.decode s.toList

def base64 (a : List UInt8) : String := .ofList (Base64.encode a)

/-- A slash and after it letters, digits and slashes. -/
def isPath (path : String) : Bool :=
  match path.toList with
  | '/' :: cs => !cs.isEmpty && cs.all fun c => c.isAlphanum || c == '/'
  | _ => false

def isTokenChar (c : Char) : Bool := c.isAlphanum || c == '_' || c == '-'

/-- What stands behind the first colon. -/
def behindColon (token : String) : List Char := (token.toList.dropWhile (· != ':')).tail

/-- A part before the first colon, and behind it three parts between dots. -/
def isThreePart (token : String) : Bool :=
  token.toList.contains ':' && token.toList.head? != some ':' &&
    match (behindColon token).splitOnP (· == '.') with
    | [a, b, c] => [a, b, c].all fun part => !part.isEmpty && part.all isTokenChar
    | _ => false

/-- The value of `x-lt`. -/
def tokenHeader (accessToken : String) : String :=
  if isThreePart accessToken then .ofList (behindColon accessToken) else accessToken

def requestHeaders (path accessToken : String) : List (String × String) :=
  ("x-lpqs", path) ::
    if accessToken = "" then [] else [("x-lt", tokenHeader accessToken)]

structure LegyRequest where
  body : String
  key : String
  xLcs : String

variable (cipher : Cipher) (number : String → Option Int)

/-- legyEncode with the random key; `none` is an exception. -/
def legyEncode (key : AesKey) (path body accessToken : String) : Option LegyRequest := do
  if !isPath path || accessToken.toList.any (fun c => c == '\r' || c == '\n') then none
  else
    let raw ← b64 body
    let headers ← encodeHeaders (requestHeaders path accessToken)
    let encrypted := cipher.encrypt key (7 :: (headers ++ raw))
    return {
      body := base64 (encrypted ++ legyMac key.bytes encrypted)
      key := base64 key.bytes
      xLcs := "0008" ++ base64 (cipher.wrap key) }

/-! ## Decoding -/

structure LegyResponse where
  body : String
  headers : Headers
  status : Int

/-- The ciphertext of a message, its checksum compared where it has one. -/
def ciphertext (key raw : List UInt8) : Option (List UInt8) :=
  if raw.length % 16 = 4 then
    let cipher := raw.take (raw.length - 4)
    if legyMac key cipher = raw.drop (raw.length - 4) then some cipher else none
  else if raw.length % 16 ≠ 0 then none
  else some raw

/-- The status of a response; `number` is Number on a string, where that is an integer. -/
def statusOf (headers : Headers) : Option Int :=
  match headers "x-lc" with
  | none => some 200
  | some "" => some 200
  | some s => (number s).filter fun n => 100 ≤ n ∧ n ≤ 599

def legyDecode (key body : String) : Option LegyResponse := do
  let k ← b64 key
  let raw ← b64 body
  if h : k.length = 16 then
    if raw.length < 16 then none
    else
      let encrypted ← ciphertext k raw
      let plain ← cipher.decrypt ⟨k, h⟩ encrypted
      if plain.head? ≠ some 7 then none
      else
        let (headers, data) ← (decodeHeaders plain.tail).result
        let status ← statusOf number headers
        return { body := base64 data, headers := headers, status := status }
  else none

/-! ## The round trip -/

theorem b64_base64 (a : List UInt8) : b64 (base64 a) = some a := by
  rw [b64, base64, String.toList_ofList, Base64.decode_encode]

@[simp] theorem length_legyMac (key data : List UInt8) : (legyMac key data).length = 4 := rfl

/-- The length of the whole tells that a checksum follows. -/
theorem ciphertext_append {key encrypted : List UInt8} (h : encrypted.length % 16 = 0) :
    ciphertext key (encrypted ++ legyMac key encrypted) = some encrypted := by
  have hlen : (encrypted ++ legyMac key encrypted).length = encrypted.length + 4 := by
    rw [List.length_append, length_legyMac]
  unfold ciphertext
  rw [hlen, if_pos (by omega), Nat.add_sub_cancel, List.take_left, List.drop_left]
  exact if_pos rfl

/-- What `x-lt` carries has no byte order mark in front if the token has none. -/
theorem head?_tokenHeader {token : String} (h : token.toList.head? ≠ some '\uFEFF') :
    (tokenHeader token).toList.head? ≠ some '\uFEFF' := by
  have hdot : ('\uFEFF' == '.') = false := by decide
  have hchar : isTokenChar '\uFEFF' = false := by decide
  unfold tokenHeader
  split
  · rename_i hthree
    rw [String.toList_ofList]
    simp only [isThreePart, Bool.and_eq_true] at hthree
    intro hhead
    obtain ⟨cs, hcs⟩ := List.head?_eq_some_iff.mp hhead
    have hparts := hthree.2
    rw [hcs, List.splitOnP_cons_eq_if_modifyHead, hdot] at hparts
    split at hparts
    · rename_i a b c hsplit
      cases hrest : cs.splitOnP (· == '.') with
      | nil => exact List.splitOnP_ne_nil _ _ hrest
      | cons x xs =>
        rw [hrest] at hsplit
        obtain ⟨rfl, -⟩ := List.cons.inj hsplit
        simp [hchar] at hparts
    · cases hparts
  · exact h

/-- The headers a request is decoded to. -/
def sentHeaders (path accessToken : String) : Headers := fun name =>
  if name = "x-lpqs" then some path
  else if name = "x-lt" ∧ accessToken ≠ "" then some (tokenHeader accessToken)
  else none

theorem head?_path {path : String} (h : isPath path = true) :
    path.toList.head? ≠ some '\uFEFF' := by
  unfold isPath at h
  split at h
  · rename_i cs hcs
    rw [hcs, List.head?_cons]
    decide
  · cases h

theorem decode_requestHeaders {path accessToken : String} (hpath : isPath path = true)
    (hbom : accessToken.toList.head? ≠ some '\uFEFF') :
    decodeEntries (fun _ => none)
        ((requestHeaders path accessToken).map fun e => (utf8 e.1, utf8 e.2)) =
      some (sentHeaders path accessToken) := by
  have hdecode : ∀ {s : String}, s.toList.head? ≠ some '\uFEFF' →
      textDecode (utf8 s) = some s := by
    intro s hs
    rw [textDecode_utf8, withoutBom_of_head hs]
  have hlpqs : textDecode (utf8 "x-lpqs") = some "x-lpqs" := hdecode (by decide)
  have hlt : textDecode (utf8 "x-lt") = some "x-lt" := hdecode (by decide)
  have hne : "x-lt" ≠ "x-lpqs" := by decide
  unfold requestHeaders
  split
  · rename_i htoken
    simp only [List.map_cons, List.map_nil, decodeEntries, hlpqs, hdecode (head?_path hpath),
      Option.bind_eq_bind, Option.bind_some, Option.some.injEq]
    funext name
    simp [sentHeaders, htoken, Function.update_apply]
  · rename_i htoken
    simp only [List.map_cons, List.map_nil, decodeEntries, hlpqs, hlt,
      hdecode (head?_path hpath), hdecode (head?_tokenHeader hbom), Option.bind_eq_bind,
      Option.bind_some, Option.some.injEq]
    funext name
    by_cases hname : name = "x-lt"
    · simp [sentHeaders, htoken, hname, hne]
    · simp [sentHeaders, htoken, Function.update_apply, hname]

/-- What `legyEncode` accepts and gives. -/
theorem legyEncode_eq {key : AesKey} {path body accessToken : String} {out : LegyRequest}
    (h : legyEncode cipher key path body accessToken = some out) :
    isPath path = true ∧ ∃ raw headers, b64 body = some raw ∧
      encodeHeaders (requestHeaders path accessToken) = some headers ∧
      out.key = base64 key.bytes ∧
      out.body = base64 (cipher.encrypt key (7 :: (headers ++ raw)) ++
        legyMac key.bytes (cipher.encrypt key (7 :: (headers ++ raw)))) := by
  unfold legyEncode at h
  split_ifs at h with hbad
  simp only [Bool.or_eq_true, not_or, Bool.not_eq_true, Bool.not_eq_false'] at hbad
  obtain ⟨raw, hraw, h⟩ := Option.bind_eq_some_iff.mp h
  obtain ⟨headers, hheaders, h⟩ := Option.bind_eq_some_iff.mp h
  cases h
  exact ⟨hbad.1, raw, headers, hraw, hheaders, rfl, rfl⟩

theorem legyDecode_encode {key : AesKey} {path body accessToken : String} {out : LegyRequest}
    (hbom : accessToken.toList.head? ≠ some '\uFEFF')
    (h : legyEncode cipher key path body accessToken = some out) :
    ∃ raw, b64 body = some raw ∧ legyDecode cipher number out.key out.body =
      some { body := base64 raw, headers := sentHeaders path accessToken, status := 200 } := by
  obtain ⟨hpath, raw, headers, hraw, hheaders, hkey, hbody⟩ := legyEncode_eq cipher h
  refine ⟨raw, hraw, ?_⟩
  obtain ⟨hsmall, hframe⟩ := encodeHeaders_iff.mp hheaders
  have hdecoded : (decodeHeaders (headers ++ raw)).result =
      some (sentHeaders path accessToken, raw) :=
    decodeHeaders_result.mpr ⟨_, hsmall, by rw [hframe], decode_requestHeaders hpath hbom⟩
  have hstatus : statusOf number (sentHeaders path accessToken) = some 200 := by
    have hnone : sentHeaders path accessToken "x-lc" = none := by
      simp [sentHeaders]
    rw [statusOf, hnone]
  have hblocks := cipher.blocks key (7 :: (headers ++ raw))
  have hpos := cipher.nonempty key (7 :: (headers ++ raw))
  have hlong : ¬ (cipher.encrypt key (7 :: (headers ++ raw)) ++
      legyMac key.bytes (cipher.encrypt key (7 :: (headers ++ raw)))).length < 16 := by
    rw [List.length_append, length_legyMac]
    omega
  rw [legyDecode, hkey, hbody, b64_base64, b64_base64]
  simp only [Option.bind_eq_bind, Option.bind_some]
  rw [dif_pos key.length_eq, if_neg hlong, ciphertext_append hblocks, Option.bind_some,
    cipher.decrypt_encrypt, Option.bind_some]
  simp only [List.head?_cons, ne_eq, not_true_eq_false, if_false, List.tail_cons, hdecoded,
    Option.bind_some, hstatus]
  rfl

/-! ## Framing -/

/-- The bytes begin with a block of UTF-8 entries behind its length. -/
def IsFramed (a : List UInt8) : Prop := ∃ entries data, (block entries).length < 65536 ∧
  a = frame entries ++ data ∧ ∀ e ∈ entries, IsUtf8 e.1 ∧ IsUtf8 e.2

theorem decodeHeaders_ok_iff {a : List UInt8} : (decodeHeaders a).ok ↔ IsFramed a := by
  unfold Traced.ok IsFramed
  rw [Option.isSome_iff_exists]
  constructor
  · rintro ⟨⟨headers, data⟩, h⟩
    obtain ⟨entries, hsmall, ha, hd⟩ := decodeHeaders_result.mp h
    exact ⟨entries, data, hsmall, ha, isSome_decodeEntries.mp ⟨headers, hd⟩⟩
  · rintro ⟨entries, data, hsmall, ha, hutf8⟩
    obtain ⟨headers, hd⟩ := isSome_decodeEntries.mpr hutf8
    exact ⟨(headers, data), decodeHeaders_result.mpr ⟨entries, hsmall, ha, hd⟩⟩

/-- A request that is encoded is decoded to its body and its headers. The decoder of
headers accepts the framed bytes and no others; it reads no byte that is not there, and
of bytes it accepts none behind the block. -/
theorem legy_framing :
    (∀ (key : AesKey) (path body accessToken : String) (out : LegyRequest),
      accessToken.toList.head? ≠ some '\uFEFF' →
      legyEncode cipher key path body accessToken = some out →
      ∃ raw, b64 body = some raw ∧ legyDecode cipher number out.key out.body =
        some { body := base64 raw, headers := sentHeaders path accessToken, status := 200 }) ∧
    (∀ a, (decodeHeaders a).ok ↔ IsFramed a) ∧
    ∀ a, (∀ i ∈ (decodeHeaders a).trace, i < a.length) ∧
      ((decodeHeaders a).ok → ∀ i ∈ (decodeHeaders a).trace, i < blockEnd a) := by
  refine ⟨fun key path body accessToken out => legyDecode_encode cipher number,
    fun a => decodeHeaders_ok_iff, fun a => ⟨decodeHeaders_reads a, fun hok => ?_⟩⟩
  obtain ⟨r, hr⟩ := Option.isSome_iff_exists.mp hok
  exact decodeHeaders_inside hr

/-- Blocks filled up and not encrypted. -/
def plainCipher : Cipher where
  encrypt _ xs := xs ++ List.replicate (16 - xs.length % 16) (UInt8.ofNat (16 - xs.length % 16))
  decrypt _ ys := ys.getLast?.map fun n => ys.take (ys.length - n.toNat)
  wrap _ := []
  decrypt_encrypt k xs := by
    have hlt : 16 - xs.length % 16 < 256 := by omega
    rw [List.getLast?_append_of_ne_nil _ (by simp; omega), List.getLast?_replicate, if_neg (by omega),
      Option.map_some, UInt8.toNat_ofNat', Nat.mod_eq_of_lt hlt, List.length_append,
      List.length_replicate, Nat.add_sub_cancel, List.take_left]
  blocks k xs := by
    rw [List.length_append, List.length_replicate]
    omega
  nonempty k xs := by
    rw [List.length_append, List.length_replicate]
    omega

def zeroKey : AesKey := ⟨List.replicate 16 0, rfl⟩

theorem legy_framing_request : ∃ out,
    legyEncode plainCipher zeroKey "/S4" "giEA" "u1:a.b.c" = some out ∧
    ∃ raw, b64 "giEA" = some raw ∧ legyDecode plainCipher (fun _ => none) out.key out.body =
      some { body := base64 raw, headers := sentHeaders "/S4" "u1:a.b.c", status := 200 } := by
  have hraw : b64 "giEA" = some [0x82, 0x21, 0] := by decide
  have hhead : "u1:a.b.c".toList.head? ≠ some '\uFEFF' := by decide
  have hrequest : requestHeaders "/S4" "u1:a.b.c" = [("x-lpqs", "/S4"), ("x-lt", "a.b.c")] := by
    decide
  obtain ⟨headers, hheaders⟩ : ∃ xs, encodeHeaders (requestHeaders "/S4" "u1:a.b.c") = some xs := by
    refine ⟨_, encodeHeaders_iff.mpr ⟨?_, rfl⟩⟩
    rw [hrequest]
    simp only [block, fields, field, List.map_cons, List.map_nil, List.flatMap_cons,
      List.flatMap_nil, List.length_append, length_be16, length_utf8, List.length_nil]
    decide
  have hencode : ∃ out, legyEncode plainCipher zeroKey "/S4" "giEA" "u1:a.b.c" = some out := by
    rw [legyEncode, if_neg (by decide), hraw, hheaders]
    exact ⟨_, rfl⟩
  obtain ⟨out, hout⟩ := hencode
  exact ⟨out, hout, (legy_framing plainCipher fun _ => none).1 zeroKey _ _ _ out hhead hout⟩

/-- A block of no bytes: its count is read behind it. -/
theorem headers_read_behind : ¬ ∀ a, ∀ i ∈ (decodeHeaders a).trace, i < blockEnd a := by
  intro hall
  have h := hall [0, 0, 0, 0] 3
  revert h
  decide

end Enil
