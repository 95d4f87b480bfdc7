import Mathlib.Tactic.Common

/-!
# Transducers

A transducer reads its input from the left and gives out what it has recognised, or refuses
the input. A word is read by reading its parts one after the other (`advance_append`,
`scan_append`).
-/

namespace Enil.Lib

universe u v w

/-- Reads `ι` in states `σ` and gives `ο`; `finish` is for the end of the input. -/
structure Transducer (σ : Type u) (ι : Type v) (ο : Type w) where
  step : σ → ι → Option (List ο × σ)
  finish : σ → Option (List ο)

namespace Transducer

variable {σ : Type u} {ι : Type v} {ο : Type w} (T : Transducer σ ι ο)

def advance : σ → List ι → Option (List ο × σ)
  | s, [] => some ([], s)
  | s, x :: xs => (T.step s x).bind fun r => (advance r.2 xs).map fun q => (r.1 ++ q.1, q.2)

def scan (s : σ) (xs : List ι) : Option (List ο) :=
  (T.advance s xs).bind fun r => (T.finish r.2).map fun out => r.1 ++ out

variable {T}

theorem advance_nil (s : σ) : T.advance s [] = some ([], s) := rfl

theorem advance_cons (s : σ) (x : ι) (xs : List ι) : T.advance s (x :: xs) =
    (T.step s x).bind fun r => (T.advance r.2 xs).map fun q => (r.1 ++ q.1, q.2) := rfl

/-- A step that gives nothing out. -/
theorem advance_quiet {s t : σ} {x : ι} (h : T.step s x = some ([], t)) (xs : List ι) :
    T.advance s (x :: xs) = T.advance t xs := by
  rw [advance_cons, h]
  cases hr : T.advance t xs with
  | none => exact congrArg (Option.map _) hr
  | some r => exact congrArg (Option.map _) hr

theorem advance_refused {s : σ} {x : ι} (h : T.step s x = none) (xs : List ι) :
    T.advance s (x :: xs) = none := by
  rw [advance_cons, h]
  rfl

theorem advance_append {s t : σ} {xs : List ι} {out : List ο} (h : T.advance s xs = some (out, t))
    (ys : List ι) :
    T.advance s (xs ++ ys) = (T.advance t ys).map fun q => (out ++ q.1, q.2) := by
  induction xs generalizing s out with
  | nil =>
    rw [advance_nil, Option.some.injEq, Prod.mk.injEq] at h
    obtain ⟨rfl, rfl⟩ := h
    rw [List.nil_append]
    cases T.advance s ys <;> rfl
  | cons x xs ih =>
    rw [advance_cons, Option.bind_eq_some_iff] at h
    obtain ⟨r, hr, hrest⟩ := h
    obtain ⟨q, hq, heq⟩ := Option.map_eq_some_iff.mp hrest
    rw [Prod.mk.injEq] at heq
    obtain ⟨rfl, rfl⟩ := heq
    rw [List.cons_append, advance_cons, hr, Option.bind_some, ih hq]
    cases T.advance q.2 ys with
    | none => rfl
    | some p => simp [List.append_assoc]

theorem advance_append_none {s : σ} {xs : List ι} (h : T.advance s xs = none) (ys : List ι) :
    T.advance s (xs ++ ys) = none := by
  induction xs generalizing s with
  | nil => cases h
  | cons x xs ih =>
    rw [List.cons_append, advance_cons]
    rw [advance_cons] at h
    cases hr : T.step s x with
    | none => rfl
    | some r =>
      rw [hr, Option.bind_some, Option.map_eq_none_iff] at h
      rw [Option.bind_some, ih h]
      rfl

theorem scan_append {s t : σ} {xs : List ι} {out : List ο} (h : T.advance s xs = some (out, t))
    (ys : List ι) : T.scan s (xs ++ ys) = (T.scan t ys).map (out ++ ·) := by
  unfold scan
  rw [advance_append h]
  cases T.advance t ys with
  | none => rfl
  | some q =>
    show (T.finish q.2).map _ = ((T.finish q.2).map _).map _
    cases T.finish q.2 with
    | none => rfl
    | some fin => simp

theorem scan_append_none {s : σ} {xs : List ι} (h : T.advance s xs = none) (ys : List ι) :
    T.scan s (xs ++ ys) = none := by
  unfold scan
  rw [advance_append_none h]
  rfl

end Transducer

end Enil.Lib
