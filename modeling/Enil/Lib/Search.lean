import Mathlib.Data.List.Basic
import Mathlib.Tactic.Common

/-!
# Patterns found one after the other

A scan that goes forward only and takes each pattern where it stands first. It finds all
of them exactly where they occur one after the other without overlap (`InOrder`): the
place of a pattern is never behind the one it has in any such arrangement.
-/

namespace Enil.Lib.Search

variable {α : Type}

/-- The patterns occur one after the other without overlap. -/
def InOrder : List (List α) → List α → Prop
  | [], _ => True
  | m :: ms, t => ∃ pre post, t = pre ++ m ++ post ∧ InOrder ms post

theorem InOrder.prepend {ms : List (List α)} {t : List α} (h : InOrder ms t) (x : List α) :
    InOrder ms (x ++ t) := by
  cases ms with
  | nil => trivial
  | cons m ms =>
    obtain ⟨pre, post, rfl, hpost⟩ := h
    exact ⟨x ++ pre, post, by simp, hpost⟩

theorem InOrder.append {ms : List (List α)} {t : List α} (h : InOrder ms t) (y : List α) :
    InOrder ms (t ++ y) := by
  induction ms generalizing t with
  | nil => trivial
  | cons m ms ih =>
    obtain ⟨pre, post, rfl, hpost⟩ := h
    exact ⟨pre, post ++ y, by simp, ih hpost⟩

/-- A pattern stands from `p.1` up to `p.2`. -/
structure Occupies (text m : List α) (p : Nat × Nat) : Prop where
  lt : p.1 < p.2
  le : p.2 ≤ text.length
  eq : (text.drop p.1).take (p.2 - p.1) = m

/-- The places are right for the patterns, in order, and none is left of `off` or goes
beyond `n`. -/
structure Placed (text : List α) (off n : Nat) (ms : List (List α)) (ps : List (Nat × Nat)) :
    Prop where
  occupies : List.Forall₂ (Occupies text) ms ps
  ordered : ps.Pairwise fun p q => p.2 ≤ q.1
  within : ∀ p ∈ ps, off ≤ p.1 ∧ p.2 ≤ n

theorem exists_of_forall₂ {β γ : Type} {R : β → γ → Prop} {xs : List β} {ys : List γ}
    (h : List.Forall₂ R xs ys) {y : γ} (hy : y ∈ ys) : ∃ x ∈ xs, R x y := by
  induction h with
  | nil => cases hy
  | cons hr _ ih =>
    rcases List.mem_cons.mp hy with rfl | hy
    · exact ⟨_, List.mem_cons_self, hr⟩
    · obtain ⟨x, hx, hxy⟩ := ih hy
      exact ⟨x, List.mem_cons_of_mem _ hx, hxy⟩

theorem Placed.lt {text : List α} {ms : List (List α)} {ps : List (Nat × Nat)} {off n : Nat}
    (h : Placed text off n ms ps) {p : Nat × Nat} (hp : p ∈ ps) : p.1 < p.2 := by
  obtain ⟨m, -, hm⟩ := exists_of_forall₂ h.occupies hp
  exact hm.lt

/-- Right places show that the patterns occur in order. -/
theorem inOrder_of_placed {text : List α} {ms : List (List α)} {ps : List (Nat × Nat)}
    {off n : Nat} (h : Placed text off n ms ps) : InOrder ms ((text.take n).drop off) := by
  induction ms generalizing ps off with
  | nil => trivial
  | cons m ms ih =>
    obtain ⟨hocc, hord, hin⟩ := h
    obtain ⟨p, ps, rfl, hp, hps⟩ : ∃ p ps', ps = p :: ps' ∧ Occupies text m p ∧
        List.Forall₂ (Occupies text) ms ps' := by
      cases hocc with
      | cons hp hps => exact ⟨_, _, rfl, hp, hps⟩
    rw [List.pairwise_cons] at hord
    obtain ⟨hoff, hn⟩ := hin p List.mem_cons_self
    have hrest : InOrder ms ((text.take n).drop p.2) :=
      ih ⟨hps, hord.2, fun q hq => ⟨hord.1 q hq, (hin q (List.mem_cons_of_mem _ hq)).2⟩⟩
    have hlt := hp.lt
    have hle := hp.le
    refine ⟨((text.take n).drop off).take (p.1 - off), (text.take n).drop p.2, ?_, hrest⟩
    have hmid : ((text.take n).drop p.1).take (p.2 - p.1) = m := by
      rw [List.drop_take, List.take_take, Nat.min_eq_left (by omega)]
      exact hp.eq
    have htail : (text.take n).drop p.1 = m ++ (text.take n).drop p.2 := by
      conv_lhs => rw [← List.take_append_drop (p.2 - p.1) ((text.take n).drop p.1)]
      rw [hmid, List.drop_drop, show p.1 + (p.2 - p.1) = p.2 by omega]
    rw [List.append_assoc, ← htail]
    conv_lhs => rw [← List.take_append_drop (p.1 - off) ((text.take n).drop off)]
    rw [List.drop_drop, show off + (p.1 - off) = p.1 by omega]

theorem occupies_drop {m pre t : List α} (hm : m ≠ []) {k : Nat} (h : m <+: t.drop k) :
    Occupies (pre ++ t) m (pre.length + k, pre.length + k + m.length) := by
  obtain ⟨post, hpost⟩ := h
  have hlen : 0 < m.length := List.length_pos_iff.mpr hm
  have hk : k + m.length ≤ t.length := by
    have := congrArg List.length hpost
    simp at this
    omega
  refine ⟨by simp only; omega, by simp; omega, ?_⟩
  simp only [Nat.add_sub_cancel_left]
  rw [List.drop_append, List.drop_of_length_le (by omega), List.nil_append,
    Nat.add_sub_cancel_left, ← hpost, List.take_left]

/-! ## The scan -/

variable [DecidableEq α]

/-- How many elements stand before the first occurrence; all of them where there is none. -/
def skip (m : List α) : List α → Nat
  | [] => 0
  | x :: xs => if m.isPrefixOf (x :: xs) then 0 else skip m xs + 1

/-- Start and end of each pattern as the scan finds it in `t`, which begins at `off`; a
pattern that is not there is put behind the end. -/
def places : Nat → List α → List (List α) → List (Nat × Nat)
  | _, _, [] => []
  | off, t, m :: ms =>
    (off + skip m t, off + skip m t + m.length) ::
      if skip m t < t.length then
        places (off + skip m t + m.length) (t.drop (skip m t + m.length)) ms
      else places (off + skip m t) [] ms

theorem prefix_drop_skip {m t : List α} (h : skip m t < t.length) : m <+: t.drop (skip m t) := by
  induction t with
  | nil => simp [skip] at h
  | cons x xs ih =>
    unfold skip at h ⊢
    split
    · rename_i hm
      exact List.isPrefixOf_iff_prefix.mp hm
    · rename_i hm
      rw [if_neg hm, List.length_cons] at h
      rw [List.drop_succ_cons]
      exact ih (by omega)

theorem skip_le_of_occurs {m : List α} (hm : m ≠ []) (pre post : List α) :
    skip m (pre ++ m ++ post) ≤ pre.length := by
  induction pre with
  | nil =>
    obtain ⟨x, xs, rfl⟩ := List.exists_cons_of_ne_nil hm
    rw [List.nil_append, List.cons_append]
    unfold skip
    have hprefix : (x :: xs).isPrefixOf (x :: (xs ++ post)) = true :=
      List.isPrefixOf_iff_prefix.mpr (List.prefix_append (x :: xs) post)
    rw [if_pos hprefix]
    exact Nat.zero_le _
  | cons x pre ih =>
    rw [List.cons_append, List.cons_append]
    unfold skip
    split
    · exact Nat.zero_le _
    · simp only [List.length_cons]
      omega

/-- The scan finds patterns that occur in order in the first `k` elements, there. -/
theorem placed_places {ms : List (List α)} (hms : ∀ m ∈ ms, m ≠ []) {a t : List α} {k : Nat}
    (h : InOrder ms (t.take k)) :
    Placed (a ++ t) a.length (a.length + k) ms (places a.length t ms) := by
  induction ms generalizing a t k with
  | nil => exact ⟨.nil, .nil, by simp [places]⟩
  | cons m ms ih =>
    obtain ⟨p, q, htake, hq⟩ := h
    have hm : m ≠ [] := hms m List.mem_cons_self
    have hlen : 0 < m.length := List.length_pos_iff.mpr hm
    have hsplit : t = p ++ m ++ (q ++ t.drop k) := by
      rw [← List.append_assoc, ← htake, List.take_append_drop]
    have hskip : skip m t ≤ p.length := by
      have := skip_le_of_occurs hm p (q ++ t.drop k)
      rwa [← hsplit] at this
    have htlen := congrArg List.length hsplit
    have hklen := congrArg List.length htake
    simp only [List.length_append, List.length_take] at htlen hklen
    have hlt : skip m t < t.length := by omega
    have hprefix := prefix_drop_skip hlt
    -- what is left of the first `k` elements behind the place found ends in `q`
    have hrest : InOrder ms ((t.drop (skip m t + m.length)).take (k - (skip m t + m.length))) := by
      rw [← List.drop_take, htake]
      have hdrop : (p ++ m ++ q).drop (skip m t + m.length) =
          (p ++ m).drop (skip m t + m.length) ++ q := by
        rw [List.drop_append, show skip m t + m.length - (p ++ m).length = 0 by simp; omega]
        rfl
      rw [hdrop]
      exact hq.prepend _
    have hnext := ih (fun m' hm' => hms m' (List.mem_cons_of_mem _ hm'))
      (a := a ++ t.take (skip m t + m.length)) hrest
    have htext : a ++ t.take (skip m t + m.length) ++ t.drop (skip m t + m.length) = a ++ t := by
      rw [List.append_assoc, List.take_append_drop]
    have hoff : (a ++ t.take (skip m t + m.length)).length =
        a.length + skip m t + m.length := by
      simp only [List.length_append, List.length_take]
      omega
    rw [htext, hoff] at hnext
    unfold places
    rw [if_pos hlt]
    refine ⟨.cons (occupies_drop hm hprefix) hnext.occupies,
      List.pairwise_cons.mpr ⟨fun r hr => (hnext.within r hr).1, hnext.ordered⟩, fun r hr => ?_⟩
    rcases List.mem_cons.mp hr with rfl | hr
    · exact ⟨by simp only; omega, by simp only; omega⟩
    · have := hnext.within r hr
      exact ⟨by omega, by omega⟩

end Enil.Lib.Search
