import Mathlib.Data.List.Basic
import Mathlib.Data.List.TakeWhile

/-!
# Character arrays

An array of fixed size and the texts it holds: the bytes of the text, the terminator and
zeros to the end. Such an array is decided by its text.
-/

namespace Enil.Lib

/-- What a string function reads of bytes with a terminator. -/
def cText (s : List UInt8) : List UInt8 := s.takeWhile (· != 0)

theorem notMem_cText (s : List UInt8) : 0 ∉ cText s := by
  intro h
  have := List.mem_takeWhile_imp h
  simp at this

theorem cText_of_notMem {s : List UInt8} (h : 0 ∉ s) : cText s = s := by
  refine List.takeWhile_eq_self_iff.mpr fun b hb => ?_
  rw [bne_iff_ne]
  rintro rfl
  exact h hb

theorem cText_append {s : List UInt8} (h : 0 ∉ s) (t : List UInt8) :
    cText (s ++ 0 :: t) = s := by
  unfold cText
  rw [List.takeWhile_append_of_pos, List.takeWhile_cons_of_neg (by simp), List.append_nil]
  intro b hb
  rw [bne_iff_ne]
  rintro rfl
  exact h hb

/-- `char[n]` -/
structure Chars (n : Nat) where
  bytes : List UInt8
  length_eq : bytes.length = n
  deriving DecidableEq

namespace Chars

variable {n : Nat}

@[ext] theorem ext {a b : Chars n} (h : a.bytes = b.bytes) : a = b := by
  cases a
  cases b
  cases h
  rfl

theorem length_zeros (n : Nat) : (List.replicate n (0 : UInt8)).length = n :=
  List.length_replicate

def zeros (n : Nat) : Chars n := ⟨List.replicate n 0, length_zeros n⟩

theorem length_store (b : Chars n) {s : List UInt8} (h : s.length ≤ n) :
    (s ++ b.bytes.drop s.length).length = n := by
  rw [List.length_append, List.length_drop, b.length_eq]
  omega

/-- `memcpy` to the start. -/
def store (b : Chars n) (s : List UInt8) (h : s.length ≤ n) : Chars n :=
  ⟨s ++ b.bytes.drop s.length, length_store b h⟩

theorem length_text (s : List UInt8) :
    ((s ++ List.replicate n 0).take n).length = n := by
  rw [List.length_take, List.length_append, List.length_replicate]
  omega

/-- An initialiser: the text, and zeros behind it. -/
def text (n : Nat) (s : List UInt8) : Chars n := ⟨(s ++ List.replicate n 0).take n, length_text s⟩

/-- What a string function reads; `none` where it reads on behind the array. -/
def string (b : Chars n) : Option (List UInt8) :=
  if b.bytes.contains 0 then some (cText b.bytes) else none

/-- `strcmp(b, s) == 0` with a text without zeros. -/
def equals (b : Chars n) (s : List UInt8) : Bool := (s ++ [0]).isPrefixOf b.bytes

/-- The array holds the text, and zeros behind it. -/
structure Holds (b : Chars n) (s : List UInt8) : Prop where
  noZero : 0 ∉ s
  fits : s.length < n
  bytes_eq : b.bytes = s ++ List.replicate (n - s.length) 0

variable {b b' : Chars n} {s : List UInt8}

theorem Holds.unique (h : b.Holds s) (h' : b'.Holds s) : b = b' :=
  ext (h.bytes_eq.trans h'.bytes_eq.symm)

theorem Holds.bytes_cons (h : b.Holds s) :
    b.bytes = s ++ 0 :: List.replicate (n - s.length - 1) 0 := by
  have hn : n - s.length = n - s.length - 1 + 1 := by
    have := h.fits
    omega
  rw [h.bytes_eq, hn, List.replicate_succ, Nat.add_sub_cancel]

theorem Holds.string_eq (h : b.Holds s) : b.string = some s := by
  have hzero : b.bytes.contains 0 = true := by
    rw [List.contains_iff_mem, h.bytes_cons]
    exact List.mem_append_right _ List.mem_cons_self
  rw [string, if_pos hzero, h.bytes_cons, cText_append h.noZero]

theorem Holds.equals_iff (h : b.Holds s) {t : List UInt8} (ht : 0 ∉ t) :
    b.equals t = true ↔ s = t := by
  rw [equals, List.isPrefixOf_iff_prefix, h.bytes_cons]
  constructor
  · rintro ⟨u, hu⟩
    rw [List.append_assoc, List.singleton_append] at hu
    have := congrArg cText hu
    rw [cText_append ht, cText_append h.noZero] at this
    exact this.symm
  · rintro rfl
    exact ⟨List.replicate (n - s.length - 1) 0, by simp⟩

theorem holds_store (hzero : 0 ∉ s) (h : (s ++ [0]).length ≤ n) :
    ((zeros n).store (s ++ [0]) h).Holds s := by
  have hlen : (s ++ [0]).length = s.length + 1 := List.length_append
  refine ⟨hzero, by omega, ?_⟩
  have hn : n - s.length = n - (s.length + 1) + 1 := by omega
  change s ++ [0] ++ (List.replicate n 0).drop (s ++ [0]).length = _
  rw [hlen, List.drop_replicate, hn, List.replicate_succ, List.append_assoc,
    List.singleton_append]

theorem holds_text (hzero : 0 ∉ s) (h : s.length < n) : (text n s).Holds s := by
  refine ⟨hzero, h, ?_⟩
  change (s ++ List.replicate n 0).take n = _
  rw [List.take_append, List.take_of_length_le (Nat.le_of_lt h), List.take_replicate,
    Nat.min_eq_left (Nat.sub_le ..)]

end Chars

end Enil.Lib
