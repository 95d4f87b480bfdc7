import Enil.Lib.Base64

/-!
# Base64 in strings

`enil_b64_encode` and `enil_b64_decode_alloc` over the block coders of OpenSSL. The block
decoder writes whole groups; the wrapper takes the bytes of the padding off again.
-/

namespace Enil

open Lib

/-- The external EVP_DecodeBlock. What EVP_EncodeBlock wrote it gives back with a zero byte
for each character of the padding. -/
structure Evp where
  decodeBlock : List Char → Option (List UInt8)
  decode_encode : ∀ bs, decodeBlock (Base64.encode bs) =
    some (bs ++ List.replicate (Base64.padding bs.length) 0)

/-- A decoder of well-formed groups. -/
def Evp.groups : Evp := ⟨Base64.decodeBlock, Base64.decodeBlock_encode⟩

def b64Encode (bs : List UInt8) : String := String.ofList (Base64.encode bs)

def evpDecodeExact (evp : Evp) (cs : List Char) : Option (List UInt8) :=
  if cs = [] then some []
  else (evp.decodeBlock cs).map fun bs =>
    bs.take (bs.length - (cs.drop (cs.length - 2)).count '=')

def b64DecodeAlloc (evp : Evp) (s : String) : Option (List UInt8) :=
  if s.toList.length % 4 ≠ 0 then none else evpDecodeExact evp s.toList

theorem b64DecodeAlloc_encode (evp : Evp) (bs : List UInt8) :
    b64DecodeAlloc evp (b64Encode bs) = some bs := by
  have hlen := Base64.length_encode bs
  unfold b64DecodeAlloc b64Encode
  rw [String.toList_ofList, if_neg (by omega)]
  unfold evpDecodeExact
  split
  · rename_i hnil
    rw [hnil, List.length_nil] at hlen
    have hbs : bs = [] := List.length_eq_zero_iff.mp (by omega)
    rw [hbs]
  · rw [evp.decode_encode, Option.map_some, Base64.count_pad_encode, List.length_append,
      List.length_replicate, Nat.add_sub_cancel, List.take_left]

end Enil
