import Mathlib.Tactic.Common

/-!
# Loops

The body of a loop goes on with a new state or leaves with a result. `loop` runs the body
as often as a bound allows, `Leaves` says with which result it leaves. Where a measure
goes down at every turn the loop leaves, and the measure bounds its turns.
-/

namespace Enil.Lib

universe u v

inductive Turn (σ : Type u) (ρ : Type v) where
  | again (s : σ)
  | leave (r : ρ)

variable {σ : Type u} {ρ : Type v}

/-- At most `n` turns. -/
def loop (body : σ → Turn σ ρ) : Nat → σ → Option ρ
  | 0, _ => none
  | n + 1, s =>
    match body s with
    | .again t => loop body n t
    | .leave r => some r

/-- `while` with a body that may throw; at most `n` turns. -/
def whileTurns (cond : σ → Bool) (body : σ → Option σ) : Nat → σ → Option σ
  | 0, _ => none
  | n + 1, s => if cond s then (body s).bind (whileTurns cond body n) else some s

theorem whileTurns_done {cond : σ → Bool} {body : σ → Option σ} {n : Nat} {s : σ}
    (h : cond s = false) : whileTurns cond body (n + 1) s = some s := by
  rw [whileTurns, h]
  rfl

theorem whileTurns_turn {cond : σ → Bool} {body : σ → Option σ} {n : Nat} {s t : σ}
    (h : cond s = true) (ht : body s = some t) :
    whileTurns cond body (n + 1) s = whileTurns cond body n t := by
  rw [whileTurns, if_pos h, ht]
  rfl

inductive Leaves (body : σ → Turn σ ρ) : σ → ρ → Prop where
  | leave {s : σ} {r : ρ} (h : body s = .leave r) : Leaves body s r
  | again {s t : σ} {r : ρ} (h : body s = .again t) (ht : Leaves body t r) : Leaves body s r

section Leaves

variable {body : σ → Turn σ ρ} {s t : σ} {r r' : ρ} {n : Nat}

theorem leaves_leave (h : body s = .leave r) : Leaves body s r' ↔ r' = r := by
  constructor
  · rintro (h' | ⟨h', -⟩)
    · rw [h] at h'; cases h'; rfl
    · rw [h] at h'; cases h'
  · rintro rfl; exact .leave h

theorem leaves_again (h : body s = .again t) : Leaves body s r ↔ Leaves body t r := by
  constructor
  · rintro (h' | ⟨h', ht⟩)
    · rw [h] at h'; cases h'
    · rw [h] at h'; cases h'; exact ht
  · exact .again h

/-- States on which the body does the same leave with the same results. -/
theorem leaves_congr (h : body s = body t) : Leaves body s r ↔ Leaves body t r := by
  cases ht : body t with
  | again u => rw [leaves_again (h.trans ht), leaves_again ht]
  | leave r' => rw [leaves_leave (h.trans ht), leaves_leave ht]

theorem Leaves.unique (h : Leaves body s r) (h' : Leaves body s r') : r = r' := by
  induction h with
  | leave hs => exact ((leaves_leave hs).mp h').symm
  | again hs _ ih => exact ih ((leaves_again hs).mp h')

theorem leaves_of_loop (h : loop body n s = some r) : Leaves body s r := by
  induction n generalizing s with
  | zero => cases h
  | succ n ih =>
    unfold loop at h
    split at h
    · rename_i hs; exact .again hs (ih h)
    · rename_i hs; cases h; exact .leave hs

/-- A loop that leaves does so within some number of turns. -/
theorem exists_loop_of_leaves (h : Leaves body s r) : ∃ n, loop body n s = some r := by
  induction h with
  | leave hs => exact ⟨1, by rw [loop, hs]⟩
  | again hs _ ih =>
    obtain ⟨n, hn⟩ := ih
    exact ⟨n + 1, by rw [loop, hs]; exact hn⟩

/-! ## Loops with a measure -/

variable {m : σ → Nat} (hm : ∀ {s t : σ}, body s = .again t → m t < m s)
include hm

theorem exists_loop (hn : m s < n) : ∃ r, loop body n s = some r := by
  induction n generalizing s with
  | zero => omega
  | succ n ih =>
    unfold loop
    split
    · rename_i t hs
      have := hm hs
      exact ih (by omega)
    · exact ⟨_, rfl⟩

theorem loop_eq_some (hn : m s < n) : loop body n s = some r ↔ Leaves body s r := by
  constructor
  · exact leaves_of_loop
  · intro h
    obtain ⟨r', hr'⟩ := exists_loop hm hn
    rw [hr', h.unique (leaves_of_loop hr')]

end Leaves

end Enil.Lib
