import Mathlib.Data.List.Basic

/-!
# Keystreams

A stream of bytes is added to a text byte by byte. Added twice it leaves the text.
-/

namespace Enil.Lib

def xorStream (stream : Nat → UInt8) (s : List UInt8) : List UInt8 :=
  s.mapIdx fun i b => b ^^^ stream i

variable {stream : Nat → UInt8} {s : List UInt8}

@[simp] theorem length_xorStream : (xorStream stream s).length = s.length :=
  List.length_mapIdx

theorem xor_xor_self (a b : UInt8) : a ^^^ b ^^^ b = a := by
  rw [UInt8.xor_assoc, UInt8.xor_self, UInt8.xor_zero]

@[simp] theorem xorStream_xorStream : xorStream stream (xorStream stream s) = s := by
  apply List.ext_getElem
  · rw [length_xorStream, length_xorStream]
  · intro i _ _
    simp only [xorStream, List.getElem_mapIdx, xor_xor_self]

end Enil.Lib
