import Mathlib.Tactic.Common

/-!
# What a crash leaves of a disk

A replacement by rename is seen at once, and lasts only once the directory is flushed. A
disk is the contents seen now with the earlier contents that a crash may bring back.
-/

namespace Enil.Lib

structure Disk (α : Type) where
  visible : α
  older : List α := []
  deriving DecidableEq, Repr

namespace Disk

variable {α : Type} (d : Disk α)

/-- The contents a crash may leave. -/
def versions : List α := d.visible :: d.older

/-- A replacement that is seen and not flushed. -/
def put (a : α) : Disk α := { visible := a, older := d.versions }

/-- What is seen is flushed. -/
def sync : Disk α := { visible := d.visible }

/-- A crash leaves the version `k`. -/
def crash (k : Nat) : Disk α := { visible := d.versions.getD k d.visible }

/-- Whatever a crash leaves, it has `P`. -/
def Holds (P : α → Prop) : Prop := ∀ a ∈ d.versions, P a

variable {d} {P Q : α → Prop}

theorem visible_mem : d.visible ∈ d.versions := List.mem_cons_self

theorem Holds.visible (h : d.Holds P) : P d.visible := h _ visible_mem

theorem Holds.mono (h : d.Holds P) (hPQ : ∀ a, P a → Q a) : d.Holds Q :=
  fun a ha => hPQ a (h a ha)

theorem holds_put {a : α} : (d.put a).Holds P ↔ P a ∧ d.Holds P := List.forall_mem_cons

theorem Holds.put {a : α} (h : d.Holds P) (ha : P a) : (d.put a).Holds P := holds_put.mpr ⟨ha, h⟩

theorem holds_sync : d.sync.Holds P ↔ P d.visible := List.forall_mem_singleton

theorem Holds.sync (h : d.Holds P) : d.sync.Holds P := holds_sync.mpr h.visible

theorem crash_mem (k : Nat) : (d.crash k).visible ∈ d.versions := by
  show d.versions.getD k d.visible ∈ d.versions
  rw [List.getD_eq_getElem?_getD]
  cases h : d.versions[k]? with
  | none => exact visible_mem
  | some a => exact List.mem_of_getElem? h

theorem Holds.crash (h : d.Holds P) (k : Nat) : (d.crash k).Holds P := by
  rintro a ha
  obtain rfl := List.mem_singleton.mp ha
  exact h _ (crash_mem k)

end Disk
end Enil.Lib
