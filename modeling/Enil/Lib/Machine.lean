import Mathlib.Tactic.Common
import Mathlib.Logic.Relation

/-!
# Machines with partial steps

A machine takes a state and an event to the next state, or to `none` where the
event is not possible there. `run` takes a list of events. What holds of every
run follows from what one step preserves: `run_invariant` for a property of the
state, and `run_rel` for a preorder between the states before and after.
-/

namespace Enil.Lib

universe u v w x

/-- A partial step on states `σ` labelled by events `ε`. -/
structure Machine (σ : Type u) (ε : Type v) where
  step : σ → ε → Option σ

namespace Machine

variable {σ : Type u} {ε : Type v} (M : Machine σ ε)

def run : σ → List ε → Option σ
  | s, [] => some s
  | s, e :: es => (M.step s e).bind fun m => run m es

@[simp] theorem run_nil (s : σ) : M.run s [] = some s := rfl

theorem run_cons (s : σ) (e : ε) (es : List ε) :
    M.run s (e :: es) = (M.step s e).bind fun m => M.run m es := rfl

variable {M}

theorem run_cons_some {s t : σ} {e : ε} {es : List ε} :
    M.run s (e :: es) = some t ↔ ∃ m, M.step s e = some m ∧ M.run m es = some t := by
  rw [run_cons, Option.bind_eq_some_iff]

theorem run_append {s t : σ} {es fs : List ε} :
    M.run s (es ++ fs) = some t ↔ ∃ m, M.run s es = some m ∧ M.run m fs = some t := by
  induction es generalizing s with
  | nil => simp
  | cons e es ih =>
    simp only [List.cons_append, run_cons_some, ih]
    constructor
    · rintro ⟨m, hm, n, hn, ht⟩; exact ⟨n, ⟨m, hm, hn⟩, ht⟩
    · rintro ⟨n, ⟨m, hm, hn⟩, ht⟩; exact ⟨m, hm, n, hn, ht⟩

variable (M) in
/-- Every step taken from a state with `I` ends in one. -/
def Preserves (I : σ → Prop) : Prop :=
  ∀ {s t : σ} {e : ε}, I s → M.step s e = some t → I t

theorem run_invariant {I : σ → Prop} (hI : M.Preserves I) {s t : σ} {es : List ε}
    (hs : I s) (h : M.run s es = some t) : I t := by
  induction es generalizing s with
  | nil => simp only [run_nil, Option.some.injEq] at h; exact h ▸ hs
  | cons e es ih =>
    obtain ⟨m, hm, ht⟩ := run_cons_some.mp h
    exact ih (hI hs hm) ht

variable (M) in
/-- Every step of a run is taken where it meets `P`. -/
def Meets (P : σ → ε → Prop) : σ → List ε → Prop
  | _, [] => True
  | s, e :: es => P s e ∧ ∀ m, M.step s e = some m → Meets P m es

instance decidableMeets (P : σ → ε → Prop) [h : ∀ s e, Decidable (P s e)] :
    (s : σ) → (es : List ε) → Decidable (M.Meets P s es)
  | _, [] => inferInstanceAs (Decidable True)
  | s, e :: es =>
    match hm : M.step s e with
    | none => decidable_of_iff (P s e)
        ⟨fun hp => ⟨hp, fun m hs => by rw [hm] at hs; cases hs⟩, fun hp => hp.1⟩
    | some m =>
      have : Decidable (M.Meets P m es) := decidableMeets P m es
      decidable_of_iff (P s e ∧ M.Meets P m es)
        ⟨fun hp => ⟨hp.1, fun m' hs => by rw [hm] at hs; cases hs; exact hp.2⟩,
          fun hp => ⟨hp.1, hp.2 m hm⟩⟩

theorem Meets.after {P : σ → ε → Prop} {s m : σ} {es fs : List ε} (h : M.Meets P s (es ++ fs))
    (hrun : M.run s es = some m) : M.Meets P m fs := by
  induction es generalizing s with
  | nil => simp only [run_nil, Option.some.injEq] at hrun; exact hrun ▸ h
  | cons e es ih =>
    obtain ⟨n, hn, hrun⟩ := run_cons_some.mp hrun
    exact ih (h.2 n hn) hrun

theorem Meets.left {P : σ → ε → Prop} {s : σ} {es fs : List ε} (h : M.Meets P s (es ++ fs)) :
    M.Meets P s es := by
  induction es generalizing s with
  | nil => trivial
  | cons e es ih => exact ⟨h.1, fun m hm => ih (h.2 m hm)⟩

/-- Events that meet `P` everywhere meet it along every run. -/
theorem Meets.of_forall {P : σ → ε → Prop} {es : List ε} (h : ∀ e ∈ es, ∀ s, P s e) (s : σ) :
    M.Meets P s es := by
  induction es generalizing s with
  | nil => trivial
  | cons e es ih =>
    rw [List.forall_mem_cons] at h
    exact ⟨h.1 s, fun m _ => ih h.2 m⟩

/-- What a step has by an invariant and by what it meets, every step of the run has. -/
theorem Meets.of_invariant {I : σ → Prop} {P Q : σ → ε → Prop} (hI : M.Preserves I)
    (hQ : ∀ s e, I s → P s e → Q s e) {s : σ} {es : List ε} (hs : I s) (h : M.Meets P s es) :
    M.Meets Q s es := by
  induction es generalizing s with
  | nil => trivial
  | cons e es ih => exact ⟨hQ s e hs h.1, fun m hm => ih (hI hs hm) (h.2 m hm)⟩

theorem run_invariant_of_meets {I : σ → Prop} {P : σ → ε → Prop}
    (hI : ∀ {s t : σ} {e : ε}, I s → P s e → M.step s e = some t → I t) {s t : σ} {es : List ε}
    (hs : I s) (hP : M.Meets P s es) (h : M.run s es = some t) : I t := by
  induction es generalizing s with
  | nil => simp only [run_nil, Option.some.injEq] at h; exact h ▸ hs
  | cons e es ih =>
    obtain ⟨m, hm, ht⟩ := run_cons_some.mp h
    exact ih (hI hs hP.1 hm) (hP.2 m hm) ht

/-- Where a step from a state with `I` ends in one exactly if it meets `P`, a run passes
through such states only exactly if every step of it meets `P`. -/
theorem prefixes_iff_meets {I : σ → Prop} {P : σ → ε → Prop}
    (hstep : ∀ {s t : σ} {e : ε}, I s → M.step s e = some t → (I t ↔ P s e)) {s t : σ}
    {es : List ε} (hs : I s) (hrun : M.run s es = some t) :
    (∀ fs m, fs <+: es → M.run s fs = some m → I m) ↔ M.Meets P s es := by
  induction es generalizing s with
  | nil =>
    refine iff_of_true (fun fs m hfs hm => ?_) trivial
    rw [List.prefix_nil.mp hfs, run_nil, Option.some.injEq] at hm
    exact hm ▸ hs
  | cons e es ih =>
    obtain ⟨n, hn, hrest⟩ := run_cons_some.mp hrun
    constructor
    · intro h
      have hIn : I n := h [e] n (List.prefix_append [e] es) (run_cons_some.mpr ⟨n, hn, rfl⟩)
      refine ⟨(hstep hs hn).mp hIn, fun m hm => ?_⟩
      obtain rfl := Option.some.inj (hn.symm.trans hm)
      refine (ih hIn hrest).mp fun fs m hfs hm => ?_
      exact h (e :: fs) m (List.cons_prefix_cons.mpr ⟨rfl, hfs⟩) (run_cons_some.mpr ⟨n, hn, hm⟩)
    · rintro ⟨hp, hmeets⟩ fs m hfs hm
      have hIn : I n := (hstep hs hn).mpr hp
      cases fs with
      | nil => rw [run_nil, Option.some.injEq] at hm; exact hm ▸ hs
      | cons f fs =>
        obtain ⟨rfl, htail⟩ := List.cons_prefix_cons.mp hfs
        obtain ⟨n', hn', hm⟩ := run_cons_some.mp hm
        obtain rfl := Option.some.inj (hn.symm.trans hn')
        exact (ih hIn hrest).mpr (hmeets n hn) fs m htail hm

/-- A preorder that every step extends is extended by every run. -/
theorem run_rel {R : σ → σ → Prop} (hrefl : ∀ s, R s s)
    (htrans : ∀ {a b c}, R a b → R b c → R a c)
    (hstep : ∀ {s t : σ} {e : ε}, M.step s e = some t → R s t) {s t : σ} {es : List ε}
    (h : M.run s es = some t) : R s t := by
  induction es generalizing s with
  | nil => simp only [run_nil, Option.some.injEq] at h; exact h ▸ hrefl s
  | cons e es ih =>
    obtain ⟨m, hm, ht⟩ := run_cons_some.mp h
    exact htrans (hstep hm) (ih ht)

/-- Events that step alike run alike. -/
theorem run_congr {es fs : List ε}
    (h : List.Forall₂ (fun e f => ∀ s, M.step s e = M.step s f) es fs) (s : σ) :
    M.run s es = M.run s fs := by
  induction h generalizing s with
  | nil => rfl
  | cons hstep _ ih =>
    rw [run_cons, run_cons, hstep]
    exact congrArg _ (funext ih)

end Machine
end Enil.Lib
