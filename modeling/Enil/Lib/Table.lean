import Mathlib.Logic.Function.Basic

/-!
# Tables with a primary key

A table maps each key to its row. The operations are those of a keyed SQL
statement: `INSERT OR IGNORE` writes only where no row is, `UPDATE ... WHERE
key = ?` changes a row that is there, `INSERT OR REPLACE` writes the row. Each
returns the number of rows it changed beside the table, as SQL does.
-/

namespace Enil.Lib

universe u v

abbrev Table (κ : Type u) (ρ : Type v) := κ → Option ρ

namespace Table

variable {κ : Type u} {ρ : Type v} [DecidableEq κ]

def insertIgnore (t : Table κ ρ) (k : κ) (r : ρ) : Nat × Table κ ρ :=
  match t k with
  | some _ => (0, t)
  | none => (1, Function.update t k (some r))

/-- `UPDATE ... WHERE key = k AND p`. -/
def updateIf (t : Table κ ρ) (k : κ) (p : ρ → Bool) (f : ρ → ρ) : Nat × Table κ ρ :=
  match t k with
  | some r => if p r then (1, Function.update t k (some (f r))) else (0, t)
  | none => (0, t)

def update (t : Table κ ρ) (k : κ) (f : ρ → ρ) : Nat × Table κ ρ :=
  t.updateIf k (fun _ => true) f

def insertReplace (t : Table κ ρ) (k : κ) (r : ρ) : Nat × Table κ ρ :=
  (1, Function.update t k (some r))

theorem insertIgnore_same (t : Table κ ρ) (k : κ) (r : ρ) :
    (t.insertIgnore k r).2 k = some ((t k).getD r) := by
  unfold insertIgnore
  cases h : t k <;> simp [h]

theorem insertIgnore_of_ne (t : Table κ ρ) {k k' : κ} (r : ρ) (h : k' ≠ k) :
    (t.insertIgnore k r).2 k' = t k' := by
  unfold insertIgnore
  cases t k <;> simp [h]

theorem insertIgnore_of_some {t : Table κ ρ} {k : κ} {r : ρ} (h : t k = some r) (r' : ρ) :
    t.insertIgnore k r' = (0, t) := by
  unfold insertIgnore; rw [h]

theorem insertIgnore_of_none {t : Table κ ρ} {k : κ} (h : t k = none) (r : ρ) :
    t.insertIgnore k r = (1, Function.update t k (some r)) := by
  unfold insertIgnore; rw [h]

theorem updateIf_same (t : Table κ ρ) (k : κ) (p : ρ → Bool) (f : ρ → ρ) :
    (t.updateIf k p f).2 k = (t k).map fun r => if p r then f r else r := by
  unfold updateIf
  cases h : t k with
  | none => simp [h]
  | some r => by_cases hp : p r <;> simp [h, hp]

theorem updateIf_of_ne (t : Table κ ρ) {k k' : κ} (p : ρ → Bool) (f : ρ → ρ) (h : k' ≠ k) :
    (t.updateIf k p f).2 k' = t k' := by
  unfold updateIf
  cases t k with
  | none => rfl
  | some r => by_cases hp : p r <;> simp [h, hp]

theorem updateIf_of_some {t : Table κ ρ} {k : κ} {r : ρ} (h : t k = some r) (p : ρ → Bool)
    (f : ρ → ρ) :
    t.updateIf k p f =
      (if p r then 1 else 0, Function.update t k (some (if p r then f r else r))) := by
  unfold updateIf
  rw [h]
  by_cases hp : p r
  · simp only [hp, if_true]
  · simp only [hp, Bool.false_eq_true, if_false]
    rw [← h, Function.update_eq_self]

theorem update_of_some {t : Table κ ρ} {k : κ} {r : ρ} (h : t k = some r) (f : ρ → ρ) :
    t.update k f = (1, Function.update t k (some (f r))) := updateIf_of_some h _ f

theorem updateIf_of_none {t : Table κ ρ} {k : κ} (h : t k = none) (p : ρ → Bool) (f : ρ → ρ) :
    t.updateIf k p f = (0, t) := by
  unfold updateIf; rw [h]

theorem update_of_none {t : Table κ ρ} {k : κ} (h : t k = none) (f : ρ → ρ) :
    t.update k f = (0, t) := updateIf_of_none h _ f

@[simp] theorem update_same (t : Table κ ρ) (k : κ) (f : ρ → ρ) :
    (t.update k f).2 k = (t k).map f := by
  simp [update, updateIf_same]

theorem update_of_ne (t : Table κ ρ) {k k' : κ} (f : ρ → ρ) (h : k' ≠ k) :
    (t.update k f).2 k' = t k' := updateIf_of_ne t _ f h

/-- Rows written one after the other under their keys. -/
def insertAll (key : ρ → κ) (t : Table κ ρ) (rs : List ρ) : Table κ ρ :=
  rs.foldl (fun t r => (t.insertReplace (key r) r).2) t

/-- Under a key stands the last row that has it. -/
theorem insertAll_apply (key : ρ → κ) (t : Table κ ρ) (rs : List ρ) (k : κ) :
    insertAll key t rs k = (rs.reverse.find? fun r => key r = k).or (t k) := by
  unfold insertAll
  induction rs generalizing t with
  | nil => rfl
  | cons r rs ih =>
    rw [List.foldl_cons, ih, List.reverse_cons, List.find?_append, Option.or_assoc]
    congr 1
    show Function.update t (key r) (some r) k = _
    rcases Decidable.em (key r = k) with rfl | hk
    · simp
    · simp [hk, Ne.symm hk]

theorem insertAll_mem {key : ρ → κ} {rs : List ρ} {r : ρ} (h : r ∈ rs) (t : Table κ ρ) :
    ∃ r' ∈ rs, key r' = key r ∧ insertAll key t rs (key r) = some r' := by
  have hsome : (rs.reverse.find? fun r' => key r' = key r).isSome :=
    List.find?_isSome.mpr ⟨r, List.mem_reverse.mpr h, decide_eq_true rfl⟩
  obtain ⟨r', hr'⟩ := Option.isSome_iff_exists.mp hsome
  refine ⟨r', List.mem_reverse.mp (List.mem_of_find?_eq_some hr'), ?_, ?_⟩
  · have := List.find?_some hr'
    simpa using this
  · rw [insertAll_apply, hr']
    rfl

end Table
end Enil.Lib
