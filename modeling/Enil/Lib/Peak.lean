import Mathlib.Order.MinMax

/-!
# High-water marks

A mark is a time that may be missing, with what carried it. `raise` moves it to a
stamp that is not older and drops an older one. A mark that was only ever raised is
the peak of where it began and of all it was offered: the latest of the times
(`IsPeak.time`), whatever their order, with a carrier that had that time.
-/

namespace Enil.Lib

universe u v

structure Mark (τ : Type u) (ι : Type v) where
  time : Option τ
  carrier : ι
  deriving DecidableEq, Repr

namespace Mark

variable {τ : Type u} {ι : Type v} [LinearOrder τ]

/-- The mark at one stamp. -/
def of (x : τ × ι) : Mark τ ι := ⟨some x.1, x.2⟩

def raise (m : Mark τ ι) (x : τ × ι) : Mark τ ι :=
  if m.time.all (· ≤ x.1) then Mark.of x else m

/-- A mark that is not there is before any; a time that is there is not lost. -/
def Le (m m' : Mark τ ι) : Prop := ∀ t ∈ m.time, ∃ t' ∈ m'.time, t ≤ t'

theorem Le.refl (m : Mark τ ι) : m.Le m := fun t ht => ⟨t, ht, le_refl t⟩

theorem Le.trans {a b c : Mark τ ι} (h : a.Le b) (h' : b.Le c) : a.Le c := by
  intro t ht
  obtain ⟨t', ht', hle⟩ := h t ht
  obtain ⟨t'', ht'', hle'⟩ := h' t' ht'
  exact ⟨t'', ht'', hle.trans hle'⟩

theorem raise_time (m : Mark τ ι) (x : τ × ι) :
    (m.raise x).time = some (m.time.elim x.1 (max · x.1)) := by
  obtain ⟨time, carrier⟩ := m
  unfold raise
  cases time with
  | none => rfl
  | some t =>
    simp only [Option.all_some, decide_eq_true_eq, Option.elim_some]
    split
    · rename_i hle
      show some x.1 = some (max t x.1)
      rw [max_eq_right hle]
    · rename_i hlt
      show some t = some (max t x.1)
      rw [max_eq_left (le_of_lt (not_le.mp hlt))]

theorem le_raise (m : Mark τ ι) (x : τ × ι) : m.Le (m.raise x) := by
  intro t ht
  rw [raise_time, ht]
  exact ⟨max t x.1, rfl, le_max_left t x.1⟩

theorem le_raiseAll (m : Mark τ ι) (xs : List (τ × ι)) : m.Le (xs.foldl Mark.raise m) := by
  induction xs generalizing m with
  | nil => exact .refl m
  | cons x xs ih => exact (m.le_raise x).trans (ih (m.raise x))

/-- A stamp that is not older is where the mark goes. -/
theorem raise_eq_of {m : Mark τ ι} {x : τ × ι} (h : m.Le (Mark.of x)) :
    m.raise x = Mark.of x := by
  refine if_pos ?_
  obtain ⟨time, carrier⟩ := m
  cases time with
  | none => rfl
  | some t =>
    obtain ⟨t', ht', hle⟩ := h t rfl
    obtain rfl := Option.some.inj ht'
    exact decide_eq_true hle

/-- `m'` is as late as the latest of `m` and of the stamps, and is one of them. -/
structure IsPeak (m : Mark τ ι) (xs : List (τ × ι)) (m' : Mark τ ι) : Prop where
  time : m'.time = (m.time.toList ++ xs.map Prod.fst).max?
  carrier : m' = m ∨ ∃ x ∈ xs, m' = Mark.of x

theorem IsPeak.nil (m : Mark τ ι) : IsPeak m [] m := by
  refine ⟨?_, .inl rfl⟩
  cases m.time <;> rfl

theorem max?_concat (ts : List τ) (t : τ) :
    (ts ++ [t]).max? = some (ts.max?.elim t (max · t)) := by
  cases ts with
  | nil => rfl
  | cons a ts =>
    rw [List.cons_append, List.max?_cons', List.max?_cons', List.foldl_append]
    rfl

theorem IsPeak.raise {m m' : Mark τ ι} {xs : List (τ × ι)} (h : IsPeak m xs m') (x : τ × ι) :
    IsPeak m (xs ++ [x]) (m'.raise x) := by
  constructor
  · rw [raise_time, h.time, List.map_append, ← List.append_assoc]
    exact (max?_concat _ _).symm
  · unfold Mark.raise
    split
    · exact .inr ⟨x, List.mem_append_right _ (List.mem_singleton.mpr rfl), rfl⟩
    · rcases h.carrier with hm | ⟨y, hy, hm⟩
      · exact .inl hm
      · exact .inr ⟨y, List.mem_append_left _ hy, hm⟩

theorem IsPeak.raiseAll {m m' : Mark τ ι} {xs : List (τ × ι)} (h : IsPeak m xs m')
    (ys : List (τ × ι)) : IsPeak m (xs ++ ys) (ys.foldl Mark.raise m') := by
  induction ys generalizing xs m' with
  | nil => rw [List.append_nil]; exact h
  | cons y ys ih =>
    have hrest := ih (h.raise y)
    rwa [List.append_assoc] at hrest

/-- No mark of the raising is after the peak. -/
theorem IsPeak.le {m m' : Mark τ ι} {xs : List (τ × ι)} (h : IsPeak m xs m') {t : τ}
    (ht : t ∈ m.time ∨ t ∈ xs.map Prod.fst) : ∃ t' ∈ m'.time, t ≤ t' := by
  have hmem : t ∈ m.time.toList ++ xs.map Prod.fst := by
    rw [List.mem_append, Option.mem_toList]
    exact ht
  obtain ⟨t', ht'⟩ := Option.isSome_iff_exists.mp (List.isSome_max?_of_mem hmem)
  refine ⟨t', h.time.trans ht', ?_⟩
  exact (List.max?_eq_some_iff.mp ht').2 t hmem

end Mark
end Enil.Lib
