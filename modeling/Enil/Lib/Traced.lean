import Mathlib.Data.List.Basic
import Mathlib.Data.Option.Basic

/-!
# Programs with a trace

A program that may fail and leaves a trace of what it did outside; a failure keeps
the trace up to it. `mem_trace_bind` and `result_bind` take a program apart.
-/

namespace Enil.Lib

/-- A run: the result, or `none` where it failed, and the trace. -/
structure Traced (ρ α : Type) where
  result : Option α
  trace : List ρ := []

namespace Traced

variable {ρ α β : Type}

instance : Monad (Traced ρ) where
  pure a := { result := some a }
  bind m f :=
    match m.result with
    | none => { result := none, trace := m.trace }
    | some a => { result := (f a).result, trace := m.trace ++ (f a).trace }

def ofOption (o : Option α) : Traced ρ α := { result := o }

def emit (r : ρ) : Traced ρ Unit := { result := some (), trace := [r] }

def fail : Traced ρ α := { result := none }

def ok (m : Traced ρ α) : Bool := m.result.isSome

@[simp] theorem result_pure (a : α) : (pure a : Traced ρ α).result = some a := rfl

@[simp] theorem trace_pure (a : α) : (pure a : Traced ρ α).trace = [] := rfl

@[simp] theorem result_emit (r : ρ) : (emit r).result = some () := rfl

@[simp] theorem trace_emit (r : ρ) : (emit r).trace = [r] := rfl

@[simp] theorem result_fail : (fail : Traced ρ α).result = none := rfl

@[simp] theorem trace_fail : (fail : Traced ρ α).trace = [] := rfl

@[simp] theorem result_ofOption (o : Option α) : (ofOption o : Traced ρ α).result = o := rfl

@[simp] theorem trace_ofOption (o : Option α) : (ofOption o : Traced ρ α).trace = [] := rfl

@[simp] theorem ofOption_some_bind (a : α) (f : α → Traced ρ β) : ofOption (some a) >>= f = f a :=
  rfl

@[simp] theorem ofOption_none_bind (f : α → Traced ρ β) : ofOption none >>= f = fail := rfl

@[simp] theorem fail_bind (f : α → Traced ρ β) : fail >>= f = fail := rfl

variable {m : Traced ρ α} {f : α → Traced ρ β}

theorem bind_of_none (h : m.result = none) : (m >>= f).result = none ∧ (m >>= f).trace = m.trace := by
  show (Bind.bind m f).result = none ∧ _
  simp only [Bind.bind, h, and_self]

theorem bind_of_some {a : α} (h : m.result = some a) :
    (m >>= f).result = (f a).result ∧ (m >>= f).trace = m.trace ++ (f a).trace := by
  simp only [Bind.bind, h, and_self]

theorem result_bind {b : β} :
    (m >>= f).result = some b ↔ ∃ a, m.result = some a ∧ (f a).result = some b := by
  cases h : m.result with
  | none => simp [(bind_of_none (f := f) h).1]
  | some a => simp [(bind_of_some (f := f) h).1]

theorem mem_trace_bind {r : ρ} :
    r ∈ (m >>= f).trace ↔ r ∈ m.trace ∨ ∃ a, m.result = some a ∧ r ∈ (f a).trace := by
  cases h : m.result with
  | none => simp [(bind_of_none (f := f) h).2]
  | some a => simp [(bind_of_some (f := f) h).2]

end Traced

end Enil.Lib
