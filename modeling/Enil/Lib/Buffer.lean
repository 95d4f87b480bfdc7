import Mathlib.Data.List.GetD

/-!
# Buffers written through pointers

A buffer with the memory around it: a store may begin before the buffer or end behind it,
and is on record. What is read from the start is what was stored piece after piece.
-/

namespace Enil.Lib

/-- Of the stores the offset and the number of bytes. -/
structure Buffer where
  size : Nat
  cell : Int → UInt8
  stores : List (Int × Nat)

namespace Buffer

def alloc (size : Nat) : Buffer := ⟨size, fun _ => 0, []⟩

def store (b : Buffer) (off : Int) (bytes : List UInt8) : Buffer where
  size := b.size
  cell i := if off ≤ i ∧ i < off + bytes.length then bytes.getD (i - off).toNat 0 else b.cell i
  stores := (off, bytes.length) :: b.stores

/-- The first `n` bytes. -/
def read (b : Buffer) (n : Nat) : List UInt8 := (List.range n).map fun i : Nat => b.cell i

/-- Nothing is stored outside the buffer. -/
def Within (b : Buffer) : Prop := ∀ s ∈ b.stores, s.2 = 0 ∨ 0 ≤ s.1 ∧ s.1 + s.2 ≤ b.size

@[simp] theorem size_alloc (size : Nat) : (alloc size).size = size := rfl

@[simp] theorem size_store (b : Buffer) (off : Int) (bytes : List UInt8) :
    (b.store off bytes).size = b.size := rfl

theorem within_alloc (size : Nat) : (alloc size).Within := by
  rintro s ⟨⟩

theorem within_store {b : Buffer} {off : Int} {bytes : List UInt8} :
    (b.store off bytes).Within ↔
      (bytes = [] ∨ 0 ≤ off ∧ off + bytes.length ≤ b.size) ∧ b.Within := by
  simp only [Within, store, List.forall_mem_cons, List.length_eq_zero_iff]

theorem read_length (b : Buffer) (n : Nat) : (b.read n).length = n := by
  simp [read]

/-- A store right behind what is read. -/
theorem read_store {b : Buffer} {k m : Nat} {bytes : List UInt8} (hm : m ≤ bytes.length) :
    (b.store k bytes).read (k + m) = b.read k ++ bytes.take m := by
  apply List.ext_getElem
  · simp only [read_length, List.length_append, List.length_take]
    omega
  · intro i hi _
    rw [read_length] at hi
    simp only [read, List.getElem_map, List.getElem_range, store]
    by_cases h : i < k
    · rw [if_neg (by omega), List.getElem_append_left (by simpa using h)]
      simp
    · rw [if_pos (by omega), List.getElem_append_right (by simp; omega), List.getElem_take,
        List.getD_eq_getElem _ _ (by omega)]
      congr 1
      simp

end Buffer

end Enil.Lib
