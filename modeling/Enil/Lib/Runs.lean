import Mathlib.Data.List.Basic
import Mathlib.Data.List.Chain
import Mathlib.Tactic.Common

/-!
# Runs

A list is cut into runs of neighbours with one key. The runs put together are the list, and where
equal keys stand together no two runs have the same one.
-/

namespace Enil.Lib

variable {α β : Type*}

/-- Neighbours with one key. -/
structure Run (key : α → β) where
  value : β
  items : List α
  nonempty : items ≠ []
  same : ∀ x ∈ items, key x = value

namespace Run

variable {key : α → β}

theorem same_singleton (x : α) : ∀ y ∈ [x], key y = key x := by
  intro y hy
  rw [List.mem_singleton.mp hy]

def single (x : α) : Run key := ⟨key x, [x], List.cons_ne_nil x [], same_singleton x⟩

theorem same_cons {x : α} {r : Run key} (h : key x = r.value) :
    ∀ y ∈ x :: r.items, key y = r.value := by
  intro y hy
  rcases List.mem_cons.mp hy with rfl | hy
  · exact h
  · exact r.same y hy

def cons (x : α) (r : Run key) (h : key x = r.value) : Run key :=
  ⟨r.value, x :: r.items, List.cons_ne_nil x r.items, same_cons h⟩

end Run

section

variable (key : α → β) [DecidableEq β]

/-- One more in front. -/
def consRun (x : α) : List (Run key) → List (Run key)
  | [] => [.single x]
  | r :: rs => if h : key x = r.value then .cons x r h :: rs else .single x :: r :: rs

def runs : List α → List (Run key)
  | [] => []
  | x :: l => consRun key x (runs l)

/-- Between two of a key there are others of it only. -/
def IsGrouped (l : List α) : Prop := ∀ x z y, [x, z, y].Sublist l → key x = key y → key z = key x

end

section

variable {key : α → β}

theorem IsGrouped.sublist {l l' : List α} (h : IsGrouped key l) (hl : l'.Sublist l) :
    IsGrouped key l' :=
  fun x z y hs => h x z y (hs.trans hl)

variable [DecidableEq β]

theorem flatMap_consRun (x : α) (rs : List (Run key)) :
    (consRun key x rs).flatMap Run.items = x :: rs.flatMap Run.items := by
  cases rs with
  | nil => rfl
  | cons r rs =>
    rw [consRun]
    split <;> rfl

theorem flatMap_runs (l : List α) : (runs key l).flatMap Run.items = l := by
  induction l with
  | nil => rfl
  | cons x l ih => rw [runs, flatMap_consRun, ih]

theorem isChain_runs (l : List α) :
    (runs key l).IsChain fun r r' => r.value ≠ r'.value := by
  induction l with
  | nil => exact .nil
  | cons x l ih =>
    rw [runs]
    cases hrs : runs key l with
    | nil => exact .singleton _
    | cons r rs =>
      rw [hrs] at ih
      rw [consRun]
      split
      · cases rs with
        | nil => exact .singleton _
        | cons r' rs =>
          obtain ⟨hne, hrest⟩ := List.isChain_cons_cons.mp ih
          exact List.isChain_cons_cons.mpr ⟨hne, hrest⟩
      · rename_i hne
        exact List.isChain_cons_cons.mpr ⟨hne, ih⟩

omit [DecidableEq β] in
/-- Where equal keys stand together no two runs have the same one. -/
theorem nodup_of_isGrouped {rs : List (Run key)}
    (hchain : rs.IsChain fun r r' => r.value ≠ r'.value)
    (h : IsGrouped key (rs.flatMap Run.items)) : (rs.map Run.value).Nodup := by
  induction rs with
  | nil => exact List.nodup_nil
  | cons r rs ih =>
    rw [List.flatMap_cons] at h
    have htail := ih hchain.tail (h.sublist (List.sublist_append_right _ _))
    rw [List.map_cons, List.nodup_cons]
    refine ⟨fun hmem => ?_, htail⟩
    obtain ⟨x, hx⟩ := List.exists_mem_of_ne_nil _ r.nonempty
    cases rs with
    | nil => cases hmem
    | cons q rs =>
      have hne := (List.isChain_cons_cons.mp hchain).1
      rw [List.map_cons] at hmem
      rcases List.mem_cons.mp hmem with heq | hmem
      · exact hne heq
      · -- another run of the key would have the one next to this one between
        obtain ⟨r', hr', heq⟩ := List.mem_map.mp hmem
        obtain ⟨z, hz⟩ := List.exists_mem_of_ne_nil _ q.nonempty
        obtain ⟨y, hy⟩ := List.exists_mem_of_ne_nil _ r'.nonempty
        have hyrs : y ∈ rs.flatMap Run.items := List.mem_flatMap.mpr ⟨r', hr', hy⟩
        have hsub : [x, z, y].Sublist (r.items ++ (q :: rs).flatMap Run.items) := by
          rw [List.flatMap_cons]
          exact (List.singleton_sublist.mpr hx).append
            ((List.singleton_sublist.mpr hz).append (List.singleton_sublist.mpr hyrs))
        have hkey := h x z y hsub (by rw [r.same x hx, r'.same y hy, heq])
        rw [q.same z hz, r.same x hx] at hkey
        exact hne hkey.symm

end

end Enil.Lib
