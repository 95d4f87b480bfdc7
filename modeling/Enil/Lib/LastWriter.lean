import Mathlib.Data.List.Induction
import Mathlib.Tactic.Common

/-!
# Lists kept as maps

A list whose entries may have a key, edited one key at a time: the entries of the key go
and a new one may be put at the end. After any number of edits a key has what its last
edit put there (`filter_edits`), and the entries of the other keys stay where they are
(`untouched_edits`), whatever the list was at first.
-/

namespace Enil.Lib

/-- What becomes of a key: its new entry, or none. -/
structure Edit (κ ε : Type) where
  target : κ
  entry : Option ε

namespace LastWriter

variable {κ ε : Type} [DecidableEq κ] (key : ε → Option κ)

def edit (l : List ε) (x : Edit κ ε) : List ε :=
  (l.filter fun e => key e ≠ some x.target) ++ x.entry.toList

def edits (l : List ε) (xs : List (Edit κ ε)) : List ε := xs.foldl (edit key) l

def last (k : κ) (xs : List (Edit κ ε)) : Option (Edit κ ε) :=
  xs.reverse.find? fun x => x.target = k

/-- The new entry has the key it is put under. -/
def Keyed (x : Edit κ ε) : Prop := ∀ e ∈ x.entry, key e = some x.target

theorem edits_append (l : List ε) (xs ys : List (Edit κ ε)) :
    edits key l (xs ++ ys) = edits key (edits key l xs) ys := List.foldl_append ..

/-- Entries are kept from the old list where the test rules the key of the edit out. -/
theorem filter_edit_of_ne {x : Edit κ ε} (hx : Keyed key x) {p : ε → Bool}
    (hp : ∀ e, key e = some x.target → p e = false) (l : List ε) :
    (edit key l x).filter p = l.filter p := by
  have hentry : x.entry.toList.filter p = [] := by
    rw [List.filter_eq_nil_iff]
    intro e he
    rw [hp e (hx e (Option.mem_toList.mp he))]
    exact Bool.false_ne_true
  unfold edit
  rw [List.filter_append, hentry, List.append_nil, List.filter_filter]
  apply List.filter_congr
  intro e _
  rcases Decidable.em (key e = some x.target) with hk | hk
  · rw [hp e hk, Bool.false_and]
  · simp [hk]

theorem filter_edit_self {x : Edit κ ε} (hx : Keyed key x) (l : List ε) :
    ((edit key l x).filter fun e => key e = some x.target) = x.entry.toList := by
  unfold edit
  rw [List.filter_append, List.filter_filter]
  have hold : (l.filter fun e => decide (key e = some x.target) &&
      decide (key e ≠ some x.target)) = [] := by
    rw [List.filter_eq_nil_iff]
    intro e _
    simp
  rw [hold, List.nil_append, List.filter_eq_self]
  intro e he
  exact decide_eq_true (hx e (Option.mem_toList.mp he))

/-- The entries of a key after the edits. -/
theorem filter_edits {xs : List (Edit κ ε)} (hxs : ∀ x ∈ xs, Keyed key x) (l : List ε)
    (k : κ) : ((edits key l xs).filter fun e => key e = some k) =
      match last k xs with
      | some x => x.entry.toList
      | none => l.filter fun e => key e = some k := by
  induction xs using List.reverseRecOn with
  | nil => rfl
  | append_singleton xs x ih =>
    have hx : Keyed key x := hxs x (by simp)
    rw [edits_append]
    show ((edit key (edits key l xs) x).filter _) = _
    unfold last
    rw [List.reverse_append, List.reverse_singleton, List.singleton_append, List.find?_cons]
    rcases Decidable.em (x.target = k) with rfl | hk
    · rw [filter_edit_self key hx]
      simp
    · have hne : ∀ e, key e = some x.target → decide (key e = some k) = false := by
        intro e he
        simp [he, hk]
      rw [filter_edit_of_ne key hx hne, ih fun y hy => hxs y (by simp [hy])]
      simp [hk, last]

/-- The entries of the keys that are not edited, and those without a key. -/
theorem untouched_edits {xs : List (Edit κ ε)} (hxs : ∀ x ∈ xs, Keyed key x) (l : List ε) :
    ((edits key l xs).filter fun e => ∀ x ∈ xs, key e ≠ some x.target) =
      l.filter fun e => ∀ x ∈ xs, key e ≠ some x.target := by
  suffices h : ∀ ys : List (Edit κ ε), (∀ y ∈ ys, y ∈ xs) →
      ((edits key l ys).filter fun e => ∀ x ∈ xs, key e ≠ some x.target) =
        l.filter fun e => ∀ x ∈ xs, key e ≠ some x.target from h xs fun _ hy => hy
  intro ys hys
  induction ys using List.reverseRecOn with
  | nil => rfl
  | append_singleton ys y ih =>
    have hy : y ∈ xs := hys y (by simp)
    rw [edits_append]
    show ((edit key (edits key l ys) y).filter _) = _
    rw [filter_edit_of_ne key (hxs y hy), ih fun z hz => hys z (by simp [hz])]
    intro e he
    simpa using ⟨y, hy, he⟩

/-- An edit that puts nothing in place of nothing. -/
theorem edit_of_absent {x : Edit κ ε} (hx : x.entry = none) {l : List ε}
    (hl : ∀ e ∈ l, key e ≠ some x.target) : edit key l x = l := by
  unfold edit
  rw [hx, Option.toList_none, List.append_nil, List.filter_eq_self]
  intro e he
  exact decide_eq_true (hl e he)

end LastWriter
end Enil.Lib
