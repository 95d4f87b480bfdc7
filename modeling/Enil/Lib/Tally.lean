import Mathlib.Data.List.Basic
import Mathlib.Data.List.Induction

/-!
# Tallies with resets

A log of entries that each add an element or reset the tally. `since` is the
elements added after the last reset; a suffix with a reset decides it alone, and
a suffix without one only extends it. `replay` is a count that entries are added to
unless they are known, and `replay_eq_since_iff` says when it ends as the tally.
-/

namespace Enil.Lib

universe u

inductive Entry (α : Type u) where
  | add (a : α)
  | reset
  deriving DecidableEq, Repr

namespace Entry

variable {α : Type u}

def tally (xs : List α) : Entry α → List α
  | add a => xs ++ [a]
  | reset => []

/-- The elements added after the last reset. -/
def since (log : List (Entry α)) : List α := log.foldl tally []

@[simp] theorem since_nil : since ([] : List (Entry α)) = [] := rfl

@[simp] theorem since_add (log : List (Entry α)) (a : α) :
    since (log ++ [add a]) = since log ++ [a] := by
  simp [since, tally]

@[simp] theorem since_reset (log : List (Entry α)) : since (log ++ [reset]) = [] := by
  simp [since, tally]

/-- An element of the tally was added. -/
theorem add_mem_of_mem_since {log : List (Entry α)} {a : α} (h : a ∈ since log) :
    add a ∈ log := by
  induction log using List.reverseRecOn with
  | nil => simp at h
  | append_singleton log e ih =>
    cases e with
    | add b =>
      rw [since_add, List.mem_append, List.mem_singleton] at h
      rcases h with h | rfl
      · exact List.mem_append_left _ (ih h)
      · simp
    | reset => simp at h

/-- A suffix with a reset decides the tally alone. -/
theorem since_append_of_reset (es : List (Entry α)) {fs : List (Entry α)} (h : reset ∈ fs) :
    since (es ++ fs) = since fs := by
  induction fs using List.reverseRecOn with
  | nil => simp at h
  | append_singleton fs e ih =>
    rw [← List.append_assoc]
    cases e with
    | reset => rw [since_reset, since_reset]
    | add a =>
      have hfs : reset ∈ fs := by simpa using h
      rw [since_add, since_add, ih hfs]

/-- A suffix without a reset extends the tally. -/
theorem since_append (es : List (Entry α)) {fs : List (Entry α)} (h : reset ∉ fs) :
    since (es ++ fs) = since es ++ since fs := by
  induction fs using List.reverseRecOn with
  | nil => simp
  | append_singleton fs e ih =>
    rw [← List.append_assoc]
    cases e with
    | reset => simp at h
    | add a =>
      have hfs : reset ∉ fs := by simpa using h
      rw [since_add, since_add, ih hfs, List.append_assoc]

/-! ## Replaying entries into a count -/

variable (known : α → Bool)

def replayStep (n : Nat) : Entry α → Nat
  | add a => if known a then n else n + 1
  | reset => 0

/-- The count after entries of which the known ones do not count. -/
def replay (n : Nat) (es : List (Entry α)) : Nat := es.foldl (replayStep known) n

variable {known}

/-- What matters of `known` is the entries replayed. -/
theorem replay_congr {known' : α → Bool} {es : List (Entry α)}
    (h : ∀ a, add a ∈ es → known a = known' a) (n : Nat) :
    replay known n es = replay known' n es := by
  induction es generalizing n with
  | nil => rfl
  | cons e es ih =>
    have hstep : replayStep known n e = replayStep known' n e := by
      cases e with
      | add a => simp only [replayStep, h a (List.mem_cons_self ..)]
      | reset => rfl
    rw [replay, List.foldl_cons, hstep]
    exact ih (fun a ha => h a (List.mem_cons_of_mem _ ha)) _

theorem replay_append_singleton (n : Nat) (es : List (Entry α)) (e : Entry α) :
    replay known n (es ++ [e]) = replayStep known (replay known n es) e := by
  simp [replay]

/-- Without a reset the unknown entries are counted on top. -/
theorem replay_of_not_reset {es : List (Entry α)} (h : reset ∉ es) (n : Nat) :
    replay known n es = n + ((since es).filter (!known ·)).length := by
  induction es using List.reverseRecOn with
  | nil => simp [replay]
  | append_singleton es e ih =>
    rw [replay_append_singleton]
    cases e with
    | reset => simp at h
    | add a =>
      have hes : reset ∉ es := by simpa using h
      rw [ih hes, since_add, List.filter_append, List.length_append]
      cases hk : known a <;> simp [replayStep, hk]
      omega

/-- After a reset only the unknown entries since then count. -/
theorem replay_of_reset {es : List (Entry α)} (h : reset ∈ es) (n : Nat) :
    replay known n es = ((since es).filter (!known ·)).length := by
  induction es using List.reverseRecOn with
  | nil => simp at h
  | append_singleton es e ih =>
    rw [replay_append_singleton]
    cases e with
    | reset => simp [replayStep]
    | add a =>
      have hes : reset ∈ es := by simpa using h
      rw [ih hes, since_add, List.filter_append, List.length_append]
      cases hk : known a <;> simp [replayStep, hk]

/-- A count taken after `as ++ bs`, with `bs ++ cs` replayed into it, is the tally of
all exactly where nothing known follows the last reset that is replayed, or, without
one, as many of `cs` are known as of `bs` are not. -/
theorem replay_eq_since_iff (as bs cs : List (Entry α)) :
    replay known (since (as ++ bs)).length (bs ++ cs) = (since (as ++ (bs ++ cs))).length ↔
      (reset ∈ bs ++ cs → ∀ a ∈ since (bs ++ cs), known a = false) ∧
      (reset ∉ bs ++ cs →
        ((since bs).filter (!known ·)).length = ((since cs).filter known).length) := by
  by_cases h : reset ∈ bs ++ cs
  · rw [replay_of_reset h, since_append_of_reset as h, List.length_filter_eq_length_iff]
    simp [h]
  · have hbs : reset ∉ bs := fun hb => h (List.mem_append_left _ hb)
    have hcs : reset ∉ cs := fun hc => h (List.mem_append_right _ hc)
    have hsplit := (since cs).length_eq_length_filter_add known
    simp only [h, not_false_eq_true, false_implies, true_and, forall_const]
    rw [replay_of_not_reset h, since_append as h, since_append as hbs, since_append bs hcs,
      List.filter_append]
    simp only [List.length_append]
    omega

end Entry
end Enil.Lib
