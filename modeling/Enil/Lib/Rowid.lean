import Mathlib.Data.List.Count
import Mathlib.Data.List.Nodup
import Mathlib.Order.Defs.LinearOrder
import Mathlib.Data.Int.Order.Basic

/-!
# Tables in rowid order

A rowid table holds its rows under increasing rowids. A cursor visits them in that order,
and a row may be rewritten while it stands there: the scan meets every row once, as it was
before the scan.
-/

namespace Enil.Lib

universe u

/-- A rowid table in the order of its rowids. -/
structure Rows (ρ : Type u) where
  entries : List (Int × ρ)
  sorted : (entries.map Prod.fst).Pairwise (· < ·)

namespace Rows

variable {ρ : Type u}

/-- The row a cursor comes to next; a new cursor has visited none. -/
def next (t : Rows ρ) (cursor : Option Int) : Option (Int × ρ) :=
  t.entries.find? fun e => cursor.all (· < e.1)

theorem sorted_map {t : Rows ρ} (g : Int × ρ → ρ) :
    ((t.entries.map fun e => (e.1, g e)).map Prod.fst).Pairwise (· < ·) := by
  rw [List.map_map]
  exact t.sorted

/-- The table with each row replaced by what `g` makes of it. -/
def mapRows (t : Rows ρ) (g : Int × ρ → ρ) : Rows ρ where
  entries := t.entries.map fun e => (e.1, g e)
  sorted := sorted_map g

/-- `UPDATE ... WHERE rowid = k`. -/
def update (t : Rows ρ) (k : Int) (f : ρ → ρ) : Rows ρ :=
  t.mapRows fun e => if e.1 = k then f e.2 else e.2

/-- The table with the rows up to the cursor rewritten. -/
def upTo (t : Rows ρ) (g : ρ → ρ) (cursor : Option Int) : Rows ρ :=
  t.mapRows fun e => if cursor.all (· < e.1) then e.2 else g e.2

theorem ext {t u : Rows ρ} (h : t.entries = u.entries) : t = u := by
  cases t; cases u; cases h; rfl

theorem mapRows_congr {t : Rows ρ} {g h : Int × ρ → ρ} (heq : ∀ e ∈ t.entries, g e = h e) :
    t.mapRows g = t.mapRows h :=
  ext (List.map_congr_left fun e he => by rw [heq e he])

theorem mapRows_mapRows (t : Rows ρ) (g h : Int × ρ → ρ) :
    (t.mapRows g).mapRows h = t.mapRows fun e => h (e.1, g e) :=
  ext (List.map_map ..)

theorem mapRows_self (t : Rows ρ) : t.mapRows Prod.snd = t :=
  ext (List.map_id _)

theorem upTo_none (t : Rows ρ) (g : ρ → ρ) : t.upTo g none = t := by
  conv_rhs => rw [← t.mapRows_self]
  exact mapRows_congr fun _ _ => rfl

theorem next_all {t : Rows ρ} {cursor : Option Int} {e : Int × ρ} (h : t.next cursor = some e) :
    cursor.all (· < e.1) = true := by
  have hfound := List.find?_some h
  exact hfound

/-- Rewriting what the cursor has passed does not change what it comes to. -/
theorem next_upTo (t : Rows ρ) (g : ρ → ρ) (cursor : Option Int) :
    (t.upTo g cursor).next cursor = t.next cursor := by
  have hmap : (t.upTo g cursor).next cursor = (t.next cursor).map fun e =>
      (e.1, if cursor.all (· < e.1) then e.2 else g e.2) := List.find?_map ..
  rw [hmap]
  cases h : t.next cursor with
  | none => rfl
  | some e => rw [Option.map_some, if_pos (next_all h)]

theorem next_mem {t : Rows ρ} {cursor : Option Int} {e : Int × ρ} (h : t.next cursor = some e) :
    e ∈ t.entries := List.mem_of_find?_eq_some h

/-- Where the cursor comes to a row, the rows it then has passed are those before and
this one. -/
theorem passed_next {t : Rows ρ} {cursor : Option Int} {e f : Int × ρ} (h : t.next cursor = some e)
    (hf : f ∈ t.entries) : e.1 < f.1 ↔ cursor.all (· < f.1) = true ∧ f.1 ≠ e.1 := by
  obtain ⟨hpe, before, after, hsplit, hbefore⟩ := List.find?_eq_some_iff_append.mp h
  have hsorted := t.sorted
  rw [hsplit, List.map_append, List.map_cons, List.pairwise_append, List.pairwise_cons] at hsorted
  obtain ⟨-, ⟨hafter, -⟩, hcross⟩ := hsorted
  rw [hsplit, List.mem_append, List.mem_cons] at hf
  rcases hf with hf | rfl | hf
  · have hlt : f.1 < e.1 := hcross _ (List.mem_map_of_mem hf) _ List.mem_cons_self
    have hno := hbefore f hf
    rw [Bool.not_eq_true'] at hno
    rw [hno]
    constructor
    · intro hgt; omega
    · rintro ⟨hc, -⟩; cases hc
  · constructor
    · intro hlt; omega
    · rintro ⟨-, hne⟩; exact absurd rfl hne
  · have hgt : e.1 < f.1 := hafter _ (List.mem_map_of_mem hf)
    refine iff_of_true hgt ⟨?_, by omega⟩
    cases cursor with
    | none => rfl
    | some c =>
      rw [Option.all_some, decide_eq_true_eq] at hpe ⊢
      omega

/-- Coming to a row and rewriting it is rewriting up to it. -/
theorem update_upTo {t : Rows ρ} {cursor : Option Int} {e : Int × ρ} (g f : ρ → ρ)
    (h : t.next cursor = some e) (hfg : f e.2 = g e.2) :
    (t.upTo g cursor).update e.1 f = t.upTo g (some e.1) := by
  rw [update, upTo, upTo, mapRows_mapRows]
  refine mapRows_congr fun d hd => ?_
  have hiff := passed_next h hd
  dsimp only
  by_cases hde : d.1 = e.1
  · have hrow : d = e := by
      refine List.inj_on_of_nodup_map ?_ hd (next_mem h) hde
      exact t.sorted.imp fun hlt => ne_of_lt hlt
    subst hrow
    rw [if_pos rfl, if_pos (next_all h), Option.all_some, if_neg (by simp), hfg]
  · rw [if_neg hde]
    cases hc : cursor.all (· < d.1) with
    | true =>
      rw [if_pos rfl, Option.all_some, if_pos (decide_eq_true (hiff.mpr ⟨hc, hde⟩))]
    | false =>
      have hno : ¬e.1 < d.1 := fun hlt => by
        rw [(hiff.mp hlt).1] at hc; cases hc
      rw [if_neg Bool.false_ne_true, Option.all_some, decide_eq_false hno,
        if_neg Bool.false_ne_true]

theorem upTo_of_fixed {t : Rows ρ} {cursor : Option Int} {e : Int × ρ} {g : ρ → ρ}
    (h : t.next cursor = some e) (hg : g e.2 = e.2) : t.upTo g cursor = t.upTo g (some e.1) := by
  rw [← update_upTo g id h hg.symm, update]
  conv_lhs => rw [← (t.upTo g cursor).mapRows_self]
  refine mapRows_congr fun d _ => ?_
  split <;> rfl

/-- At the end of the scan every row is rewritten. -/
theorem upTo_of_done {t : Rows ρ} {cursor : Option Int} {g : ρ → ρ} (h : t.next cursor = none) :
    t.upTo g cursor = t.mapRows fun e => g e.2 := by
  refine mapRows_congr fun e he => ?_
  rw [if_neg (List.find?_eq_none.mp h e he)]

/-- The rows a cursor has yet to come to. -/
def ahead (t : Rows ρ) (cursor : Option Int) : Nat :=
  t.entries.countP fun e => cursor.all (· < e.1)

theorem ahead_next {t : Rows ρ} {cursor : Option Int} {e : Int × ρ} (h : t.next cursor = some e) :
    t.ahead (some e.1) < t.ahead cursor := by
  obtain ⟨hpe, before, after, hsplit, -⟩ := List.find?_eq_some_iff_append.mp h
  have hmono : ∀ l : List (Int × ρ), (∀ d ∈ l, d ∈ t.entries) →
      (l.countP fun d => (some e.1).all (· < d.1)) ≤ l.countP fun d => cursor.all (· < d.1) :=
    fun l hl => List.countP_mono_left fun d hd hlt =>
      ((passed_next h (hl d hd)).mp (of_decide_eq_true hlt)).1
  have hbefore := hmono before fun d hd => hsplit ▸ List.mem_append_left _ hd
  have hafter := hmono after fun d hd =>
    hsplit ▸ List.mem_append_right _ (List.mem_cons_of_mem _ hd)
  unfold ahead
  rw [hsplit, List.countP_append, List.countP_append, List.countP_cons, List.countP_cons,
    if_pos hpe, Option.all_some, decide_eq_false (lt_irrefl e.1), if_neg Bool.false_ne_true]
  omega

theorem ahead_mapRows (t : Rows ρ) (g : Int × ρ → ρ) (cursor : Option Int) :
    (t.mapRows g).ahead cursor = t.ahead cursor := List.countP_map ..

end Rows
end Enil.Lib
