import Mathlib.Data.List.Basic
import Mathlib.Data.List.TakeWhile

/-!
# The bytes of a string

A string of the program is its UTF-8 bytes, one character after the other.
-/

namespace Enil

/-- The bytes of a string, as TextEncoder gives them too. -/
def utf8 (s : String) : List UInt8 := s.toUTF8.toList

theorem byteArray_loop (bs : ByteArray) (i : Nat) (r : List UInt8) :
    ByteArray.toList.loop bs i r = r.reverse ++ bs.data.toList.drop i := by
  fun_induction ByteArray.toList.loop bs i r with
  | case1 i r h ih =>
    have hi : i < bs.data.toList.length := h
    have hget : bs.get! i = bs.data.toList[i] := getElem!_pos bs.data i h
    rw [ih, List.drop_eq_getElem_cons hi, hget, List.reverse_cons, List.append_assoc,
      List.singleton_append]
  | case2 i r h =>
    have hi : bs.data.toList.length ≤ i := Nat.le_of_not_lt h
    rw [List.drop_eq_nil_of_le hi, List.append_nil]

theorem utf8_toByteArray (s : String) : (⟨(utf8 s).toArray⟩ : ByteArray) = s.toUTF8 := by
  have hdata : s.toUTF8.toList = s.toUTF8.data.toList := byteArray_loop s.toUTF8 0 []
  rw [utf8, hdata]

theorem utf8_injective {s t : String} (h : utf8 s = utf8 t) : s = t := by
  apply String.toByteArray_inj.mp
  have hs := utf8_toByteArray s
  rw [h, utf8_toByteArray] at hs
  exact hs.symm

theorem length_utf8 (s : String) : (utf8 s).length = s.utf8ByteSize := by
  have hdata : s.toUTF8.toList = s.toUTF8.data.toList := byteArray_loop s.toUTF8 0 []
  rw [utf8, hdata]
  exact s.toUTF8.data.length_toList

theorem utf8_eq_flatMap (s : String) : utf8 s = s.toList.flatMap String.utf8EncodeChar := by
  have hdata : s.toUTF8.toList = s.toUTF8.data.toList := byteArray_loop s.toUTF8 0 []
  rw [utf8, hdata, String.toUTF8_eq_toByteArray, ← String.utf8Encode_toList]
  simp [List.utf8Encode]

theorem utf8_append (s t : String) : utf8 (s ++ t) = utf8 s ++ utf8 t := by
  simp [utf8_eq_flatMap]

/-- A character of seven bits is its own byte. -/
theorem utf8EncodeChar_ascii {c : Char} (h : c.toNat < 128) :
    String.utf8EncodeChar c = [UInt8.ofNat c.toNat] := by
  unfold String.utf8EncodeChar
  have hc : c.val.toNat ≤ 0x7f := by
    have : c.val.toNat = c.toNat := rfl
    omega
  simp only [hc, if_true]
  rfl

theorem utf8_ofList_ascii {cs : List Char} (h : ∀ c ∈ cs, c.toNat < 128) :
    utf8 (String.ofList cs) = cs.map fun c => UInt8.ofNat c.toNat := by
  rw [utf8_eq_flatMap, String.toList_ofList, List.map_eq_flatMap]
  apply List.flatMap_congr
  intro c hc
  exact utf8EncodeChar_ascii (h c hc)

/-- A string where it ends at a NUL, as C reads it. -/
def cString (s : String) : List UInt8 := (utf8 s).takeWhile (· ≠ 0)

theorem cString_ofList_ascii {cs : List Char} (h : ∀ c ∈ cs, 0 < c.toNat ∧ c.toNat < 128) :
    cString (String.ofList cs) = cs.map fun c => UInt8.ofNat c.toNat := by
  rw [cString, utf8_ofList_ascii fun c hc => (h c hc).2, List.takeWhile_eq_self_iff]
  intro b hb
  obtain ⟨c, hc, rfl⟩ := List.mem_map.mp hb
  obtain ⟨hpos, hlt⟩ := h c hc
  simp only [ne_eq, decide_eq_true_eq]
  intro hzero
  have := congrArg UInt8.toNat hzero
  rw [UInt8.toNat_ofNat', UInt8.toNat_zero] at this
  omega

end Enil
