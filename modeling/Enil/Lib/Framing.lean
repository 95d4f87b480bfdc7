import Mathlib.Data.List.Basic

/-!
# Inputs in frames

A consumer takes its inputs one at a time and may stop. `feed` gives it a list;
`feed_flatten` says that it does not matter how the list is cut. Inputs that end at a
separator form `frames`, and `feed_frames` lets a consumer be compared with one that
takes whole frames.
-/

namespace Enil.Lib

variable {α σ τ : Type}

/-! ## Frames -/

/-- The inputs between separators, as far as a separator ends them. -/
def frames (p : α → Bool) (xs : List α) : List (List α) := (xs.splitOnP p).dropLast

/-- The inputs after the last separator. -/
def openFrame (p : α → Bool) (xs : List α) : List α :=
  (xs.splitOnP p).getLast (List.splitOnP_ne_nil p xs)

section Frames

variable {p : α → Bool} {xs ys : List α} {sep : α}

theorem frames_of_open (h : ∀ x ∈ xs, p x = false) : frames p xs = [] := by
  rw [frames, List.splitOnP_eq_singleton h]
  rfl

theorem openFrame_of_open (h : ∀ x ∈ xs, p x = false) : openFrame p xs = xs := by
  simp only [openFrame, List.splitOnP_eq_singleton h, List.getLast_singleton]

theorem frames_append_cons (h : ∀ x ∈ xs, p x = false) (hsep : p sep = true) :
    frames p (xs ++ sep :: ys) = xs :: frames p ys := by
  unfold frames
  rw [List.splitOnP_append_cons_of_forall_mem h sep hsep,
    List.dropLast_cons_of_ne_nil (List.splitOnP_ne_nil p ys)]

theorem openFrame_append_cons (h : ∀ x ∈ xs, p x = false) (hsep : p sep = true) :
    openFrame p (xs ++ sep :: ys) = openFrame p ys := by
  simp only [openFrame, List.splitOnP_append_cons_of_forall_mem h sep hsep]
  exact List.getLast_cons (List.splitOnP_ne_nil p ys)

/-- Inputs are a first frame and the inputs after it, or have no separator. -/
theorem frames_induction {motive : List α → Prop}
    (unended : ∀ xs, (∀ x ∈ xs, p x = false) → motive xs)
    (frame : ∀ xs sep ys, (∀ x ∈ xs, p x = false) → p sep = true → motive ys →
      motive (xs ++ sep :: ys)) (xs : List α) : motive xs := by
  suffices h : ∀ xs pre, (∀ x ∈ pre, p x = false) → motive (pre ++ xs) from h xs [] (by simp)
  intro xs
  induction xs with
  | nil =>
    intro pre hpre
    rw [List.append_nil]
    exact unended pre hpre
  | cons x xs ih =>
    intro pre hpre
    cases hx : p x with
    | true => exact frame pre x xs hpre hx (ih [] (by simp))
    | false =>
      rw [List.append_cons]
      refine ih (pre ++ [x]) ?_
      rw [List.forall_mem_append]
      exact ⟨hpre, by simpa using hx⟩

variable (p xs) in
theorem mem_openFrame : ∀ x ∈ openFrame p xs, p x = false := by
  induction xs using frames_induction (p := p) with
  | unended xs hxs =>
    rw [openFrame_of_open hxs]
    exact hxs
  | frame xs sep ys hxs hsep ih =>
    rw [openFrame_append_cons hxs hsep]
    exact ih

theorem mem_of_mem_frames {f : List α} (h : f ∈ frames p xs) {x : α} (hx : x ∈ f) : x ∈ xs := by
  induction xs using frames_induction (p := p) with
  | unended xs hxs =>
    rw [frames_of_open hxs] at h
    cases h
  | frame xs sep ys hxs hsep ih =>
    rw [frames_append_cons hxs hsep] at h
    rcases List.mem_cons.mp h with rfl | h
    · exact List.mem_append_left _ hx
    · exact List.mem_append_right _ (List.mem_cons_of_mem _ (ih h))

theorem mem_of_mem_openFrame {x : α} (hx : x ∈ openFrame p xs) : x ∈ xs := by
  induction xs using frames_induction (p := p) with
  | unended xs hxs => rwa [openFrame_of_open hxs] at hx
  | frame xs sep ys hxs hsep ih =>
    rw [openFrame_append_cons hxs hsep] at hx
    exact List.mem_append_right _ (List.mem_cons_of_mem _ (ih hx))

end Frames

/-! ## A consumer that may stop -/

/-- Give the inputs to `step` one at a time, as long as it goes on. -/
def feed (step : σ → α → Bool × σ) (s : σ) : List α → Bool × σ
  | [] => (true, s)
  | x :: xs =>
    match step s x with
    | (true, s) => feed step s xs
    | (false, s) => (false, s)

section Feed

variable {step step' : σ → α → Bool × σ} {spec : τ → List α → Bool × τ} {p : α → Bool}

theorem feed_cons_go {s : σ} {x : α} {xs : List α} (h : (step s x).1 = true) :
    feed step s (x :: xs) = feed step (step s x).2 xs := by
  rw [feed]
  rcases hs : step s x with ⟨go, s'⟩
  rw [hs] at h
  obtain rfl := h
  rfl

theorem feed_cons_stop {s : σ} {x : α} {xs : List α} (h : (step s x).1 = false) :
    feed step s (x :: xs) = (false, (step s x).2) := by
  rw [feed]
  rcases hs : step s x with ⟨go, s'⟩
  rw [hs] at h
  obtain rfl := h
  rfl

theorem feed_singleton (step : σ → α → Bool × σ) (s : σ) (x : α) : feed step s [x] = step s x := by
  cases h : (step s x).1 with
  | true =>
    rw [feed_cons_go h]
    exact Prod.ext h.symm rfl
  | false =>
    rw [feed_cons_stop h]
    exact Prod.ext h.symm rfl

theorem feed_append_go {s : σ} {xs ys : List α} (h : (feed step s xs).1 = true) :
    feed step s (xs ++ ys) = feed step (feed step s xs).2 ys := by
  induction xs generalizing s with
  | nil => rfl
  | cons x xs ih =>
    cases hx : (step s x).1 with
    | true =>
      rw [feed_cons_go hx] at h ⊢
      rw [List.cons_append, feed_cons_go hx]
      exact ih h
    | false =>
      rw [feed_cons_stop hx] at h
      cases h

theorem feed_append_stop {s : σ} {xs ys : List α} (h : (feed step s xs).1 = false) :
    feed step s (xs ++ ys) = (false, (feed step s xs).2) := by
  induction xs generalizing s with
  | nil => cases h
  | cons x xs ih =>
    cases hx : (step s x).1 with
    | true =>
      rw [feed_cons_go hx] at h ⊢
      rw [List.cons_append, feed_cons_go hx]
      exact ih h
    | false => rw [List.cons_append, feed_cons_stop hx, feed_cons_stop hx]

/-- It does not matter how the inputs are cut. -/
theorem feed_flatten (s : σ) (chunks : List (List α)) :
    feed (feed step) s chunks = feed step s chunks.flatten := by
  induction chunks generalizing s with
  | nil => rfl
  | cons xs chunks ih =>
    rw [List.flatten_cons]
    cases h : (feed step s xs).1 with
    | true => rw [feed_cons_go h, feed_append_go h, ih]
    | false => rw [feed_cons_stop h, feed_append_stop h]

/-- What a consumer keeps while it goes on. -/
theorem feed_invariant {I : σ → Prop} (hstep : ∀ s x, I s → (step s x).1 = true → I (step s x).2)
    {s : σ} (h : I s) (xs : List α) (hgo : (feed step s xs).1 = true) :
    I (feed step s xs).2 := by
  induction xs generalizing s with
  | nil => exact h
  | cons x xs ih =>
    cases hx : (step s x).1 with
    | true =>
      rw [feed_cons_go hx] at hgo ⊢
      exact ih (hstep s x h hx) hgo
    | false =>
      rw [feed_cons_stop hx] at hgo
      cases hgo

/-- Consumers that agree as long as an invariant holds. -/
theorem feed_congr {I : σ → Prop} (heq : ∀ s x, I s → step s x = step' s x)
    (hstep : ∀ s x, I s → (step s x).1 = true → I (step s x).2) {s : σ} (h : I s) (xs : List α) :
    feed step s xs = feed step' s xs := by
  induction xs generalizing s with
  | nil => rfl
  | cons x xs ih =>
    have hx := heq s x h
    cases hgo : (step s x).1 with
    | true =>
      rw [feed_cons_go hgo, feed_cons_go (hx ▸ hgo), ← hx]
      exact ih (hstep s x h hgo)
    | false => rw [feed_cons_stop hgo, feed_cons_stop (hx ▸ hgo), hx]

variable (step spec p) in
/-- A consumer of inputs against one of whole frames: `Q` holds between them where both
have stopped, and `R` as long as they go on, with the open frame left to be read. -/
theorem feed_frames {R Q : σ → τ → Prop} {V : α → Prop}
    (hframe : ∀ s t xs sep, R s t → (∀ x ∈ xs, V x) → (∀ x ∈ xs, p x = false) → p sep = true →
      let r := feed step s (xs ++ [sep])
      let q := spec t xs
      r.1 = q.1 ∧ if q.1 then R r.2 q.2 else Q r.2 q.2)
    {s : σ} {t : τ} (h : R s t) (xs : List α) (hv : ∀ x ∈ xs, V x) :
    let q := feed spec t (frames p xs)
    if q.1 then ∃ s', R s' q.2 ∧ feed step s xs = feed step s' (openFrame p xs)
    else (feed step s xs).1 = false ∧ Q (feed step s xs).2 q.2 := by
  induction xs using frames_induction (p := p) generalizing s t with
  | unended xs hxs =>
    simp only [frames_of_open hxs, openFrame_of_open hxs]
    exact ⟨s, h, rfl⟩
  | frame xs sep ys hxs hsep ih =>
    rw [List.forall_mem_append, List.forall_mem_cons] at hv
    obtain ⟨hvx, -, hvy⟩ := hv
    obtain ⟨hgo, hnext⟩ := hframe s t xs sep h hvx hxs hsep
    rw [frames_append_cons hxs hsep, openFrame_append_cons hxs hsep, List.append_cons]
    cases hq : (spec t xs).1 with
    | true =>
      rw [hq] at hgo hnext
      rw [feed_cons_go hq, feed_append_go hgo]
      exact ih hnext hvy
    | false =>
      rw [hq] at hgo hnext
      rw [feed_cons_stop hq, feed_append_stop hgo]
      exact ⟨rfl, hnext⟩

end Feed

end Enil.Lib
