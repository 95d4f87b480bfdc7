import Enil.Lib.Machine
import Enil.Lib.Table

/-!
# Replaying a run

A run from `F` ends in `S`; the same events are then taken again from `S`. The
rule `replay` relates the state this ends in to `S`, by a relation between the first
run, the replay and `S` that each event keeps. `Pick` is the relation for one column
that is written without regard to its value: the replay has what the first run has
at the same point, or still the final value.
-/

namespace Enil.Lib

universe u v w

namespace Machine

variable {σ : Type u} {ε : Type v} (M : Machine σ ε)

/-- `P` holds of every step of the run. -/
def Along (P : σ → ε → Prop) : σ → List ε → Prop
  | _, [] => True
  | s, e :: es => P s e ∧ ∀ t, M.step s e = some t → Along P t es

variable {M} in
/-- `P` holds of the state and the event at every point of the run. -/
theorem along_iff {P : σ → ε → Prop} {s : σ} {es : List ε} :
    M.Along P s es ↔ ∀ pre e post t, es = pre ++ e :: post → M.run s pre = some t → P t e := by
  induction es generalizing s with
  | nil => simp [Along]
  | cons e es ih =>
    constructor
    · rintro ⟨he, hes⟩ pre e' post t hsplit hrun
      cases pre with
      | nil =>
        simp only [List.nil_append, List.cons.injEq] at hsplit
        simp only [run_nil, Option.some.injEq] at hrun
        rw [← hsplit.1, ← hrun]; exact he
      | cons x pre =>
        simp only [List.cons_append, List.cons.injEq] at hsplit
        obtain ⟨m, hm, hrest⟩ := run_cons_some.mp hrun
        rw [← hsplit.1] at hm
        exact ih.mp (hes m hm) pre e' post t hsplit.2 hrest
    · intro h
      refine ⟨h [] e es s rfl rfl, fun m hm => ih.mpr fun pre e' post t hsplit hrun => ?_⟩
      exact h (e :: pre) e' post t (by rw [hsplit]; rfl) (run_cons_some.mpr ⟨m, hm, hrun⟩)

/-- A relation between a first run, its replay and the final state of the first
run: it holds at the start of the replay and each event keeps it. -/
structure ReplaySim (P : σ → σ → ε → Prop) (Rel : σ → σ → σ → Prop) : Prop where
  start : ∀ {F S : σ} {es : List ε}, M.run F es = some S → Rel F S S
  step : ∀ {F R S F' : σ} {e : ε} {es : List ε}, Rel F R S → M.step F e = some F' →
    M.run F' es = some S → P S F e → ∃ R', M.step R e = some R' ∧ Rel F' R' S

variable {M}

theorem ReplaySim.run {P : σ → σ → ε → Prop} {Rel : σ → σ → σ → Prop} (h : M.ReplaySim P Rel)
    {S : σ} : ∀ {es : List ε} {F R : σ}, Rel F R S → M.run F es = some S →
      M.Along (P S) F es → ∃ R', M.run R es = some R' ∧ Rel S R' S
  | [], F, R, hrel, hrun, _ => by
    simp only [run_nil, Option.some.injEq] at hrun
    subst hrun
    exact ⟨R, rfl, hrel⟩
  | e :: es, F, R, hrel, hrun, halong => by
    obtain ⟨F', hF, hrest⟩ := run_cons_some.mp hrun
    obtain ⟨R', hR, hrel'⟩ := h.step hrel hF hrest halong.1
    obtain ⟨R'', hrun', hfinal⟩ := h.run hrel' hrest (halong.2 F' hF)
    exact ⟨R'', run_cons_some.mpr ⟨R', hR, hrun'⟩, hfinal⟩

/-- The events are possible again from the final state, and lead to one that is
related to it as its own replay. -/
theorem ReplaySim.replay {P : σ → σ → ε → Prop} {Rel : σ → σ → σ → Prop} (h : M.ReplaySim P Rel)
    {F S : σ} {es : List ε} (hrun : M.run F es = some S) (halong : M.Along (P S) F es) :
    ∃ R, M.run S es = some R ∧ Rel S R S := h.run (h.start hrun) hrun halong

end Machine

/-- The column `proj` has the final value or that of the first run. -/
def Pick {ρ : Type u} {α : Type w} (proj : ρ → α) (f r s : ρ) : Prop :=
  proj r = proj s ∨ proj r = proj f

/-- A row that may not be there yet in the first run; it is then related to that of
the end as at the end. -/
def OptRel {ρ : Type u} (rel : ρ → ρ → ρ → Prop) : Option ρ → Option ρ → Option ρ → Prop
  | none, none, none => True
  | none, some r, some s => rel s r s
  | some f, some r, some s => rel f r s
  | _, _, _ => False

namespace Pick

variable {ρ : Type u} {α : Type w} {proj : ρ → α} {f r s f' r' : ρ}

theorem final (h : Pick proj s r s) : proj r = proj s := h.elim id id

/-- Both runs leave the column. -/
theorem keep (h : Pick proj f r s) (hf : proj f' = proj f) (hr : proj r' = proj r) :
    Pick proj f' r' s :=
  h.elim (fun h => .inl (hr.trans h)) fun h => .inr ((hr.trans h).trans hf.symm)

/-- Both runs write the same. -/
theorem write (h : proj r' = proj f') : Pick proj f' r' s := .inr h

end Pick

namespace OptRel

variable {ρ : Type u} {rel : ρ → ρ → ρ → Prop} {f : ρ} {r s : Option ρ}

theorem exists_of_some (h : OptRel rel (some f) r s) :
    ∃ r' s', r = some r' ∧ s = some s' ∧ rel f r' s' := by
  cases r with
  | none => exact h.elim
  | some r =>
    cases s with
    | none => exact h.elim
    | some s => exact ⟨r, s, rfl, rfl, h⟩

/-- Where there is a row in the end, the replay has one. -/
theorem exists_of_final {f : Option ρ} {s : ρ} (h : OptRel rel f r (some s)) :
    ∃ r', r = some r' ∧ rel (f.getD s) r' s := by
  cases r with
  | none => cases f <;> exact h.elim
  | some r => cases f <;> exact ⟨r, rfl, h⟩

theorem none_of_final {f : Option ρ} (h : OptRel rel f r none) : r = none := by
  cases r with
  | none => rfl
  | some r => cases f <;> exact h.elim

/-- A row of the first run or its end, related as before. -/
theorem start (hrel : ∀ f s, rel f s s) {f : Option ρ} (h : s = none → f = none) :
    OptRel rel f s s := by
  cases s with
  | none => rw [h rfl]; trivial
  | some s => cases f <;> exact hrel _ _

section Tables

variable {κ : Type v} [DecidableEq κ] {rel : κ → ρ → ρ → ρ → Prop} {F R S : Table κ ρ}

/-- An update of one key in both runs, with and without a row in the first. -/
theorem updateIf (h : ∀ k, OptRel (rel k) (F k) (R k) (S k)) (k : κ) (p : ρ → Bool) (g : ρ → ρ)
    (hsome : ∀ {f r s}, F k = some f → S k = some s → rel k f r s →
      rel k (if p f then g f else f) (if p r then g r else r) s)
    (hnone : ∀ {r s}, F k = none → S k = some s → rel k s r s →
      rel k s (if p r then g r else r) s) (k' : κ) :
    OptRel (rel k') ((F.updateIf k p g).2 k') ((R.updateIf k p g).2 k') (S k') := by
  by_cases hk : k' = k
  · subst hk
    have hk := h k'
    rw [Table.updateIf_same, Table.updateIf_same]
    cases hF : F k' with
    | none =>
      cases hS : S k' with
      | none => rw [hF, hS] at hk; rw [none_of_final hk]; trivial
      | some s =>
        rw [hF, hS] at hk
        obtain ⟨r, hr, hrel⟩ := hk.exists_of_final
        rw [hr]
        exact hnone hF hS hrel
    | some f =>
      rw [hF] at hk
      obtain ⟨r, s, hr, hs, hrel⟩ := hk.exists_of_some
      rw [hr, hs]
      exact hsome hF hs hrel
  · rw [Table.updateIf_of_ne _ _ _ hk, Table.updateIf_of_ne _ _ _ hk]
    exact h k'

/-- A row is written in both runs. -/
theorem write (h : ∀ k, OptRel (rel k) (F k) (R k) (S k)) {k : κ} {f r s : ρ} (hs : S k = some s)
    (hrel : rel k f r s) (k' : κ) :
    OptRel (rel k') (Function.update F k (some f) k') (Function.update R k (some r) k') (S k') := by
  by_cases hk : k' = k
  · subst hk
    rw [Function.update_self, Function.update_self, hs]
    exact hrel
  · rw [Function.update_of_ne hk, Function.update_of_ne hk]
    exact h k'

end Tables

end OptRel
end Enil.Lib
