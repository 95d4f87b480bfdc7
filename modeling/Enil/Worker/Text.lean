import Enil.Json.Utf8

/-!
# Texts in bytes

TextEncoder and TextDecoder. A decoder takes a byte order mark off the front.
-/

namespace Enil

/-- The text without a byte order mark in front. -/
def withoutBom (s : String) : String :=
  match s.toList with
  | '\uFEFF' :: cs => .ofList cs
  | _ => s

def IsUtf8 (bytes : List UInt8) : Prop := ByteArray.IsValidUTF8 ⟨bytes.toArray⟩

/-- TextDecoder.decode; `none` is a malformed text. -/
def textDecode (bytes : List UInt8) : Option String :=
  (String.fromUTF8? ⟨bytes.toArray⟩).map withoutBom

theorem withoutBom_of_head {s : String} (h : s.toList.head? ≠ some '\uFEFF') :
    withoutBom s = s := by
  unfold withoutBom
  split
  · rename_i cs hcs
    rw [hcs] at h
    exact absurd rfl h
  · rfl

theorem textDecode_utf8 (s : String) : textDecode (utf8 s) = some (withoutBom s) := by
  have hs : String.fromUTF8? s.toUTF8 = some s := dif_pos s.isValidUTF8
  rw [textDecode, utf8_toByteArray, hs, Option.map_some]

theorem isSome_textDecode {bytes : List UInt8} : (textDecode bytes).isSome ↔ IsUtf8 bytes := by
  unfold textDecode String.fromUTF8? IsUtf8
  rw [Option.isSome_map]
  split <;> simp_all

end Enil
