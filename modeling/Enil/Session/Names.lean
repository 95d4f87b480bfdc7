import Enil.Session.Save
import Mathlib.Data.List.Find
import Mathlib.Data.List.Nodup
import Mathlib.Data.Set.Function

/-!
# Files over distinct names

In a set of names no two of which are equal up to case, cJSON's two ways to look
up a key agree, and a file is a function from names to values that `put`,
`delete` and `set` update in one place.
-/

namespace Enil

open Function (update)

/-- Names that differ differ in more than case. -/
def CaseDistinct (N : Set String) : Prop := Set.InjOn Json.foldCase N

namespace Fields

/-- The items have different names out of `N`, and no double keys inside. -/
structure Over (N : Set String) (fs : Fields) : Prop where
  nodup : (fs.map Prod.fst).Nodup
  mem : ∀ f ∈ fs, f.1 ∈ N
  distinct : ∀ f ∈ fs, f.2.distinct = true

variable {N : Set String} {fs gs : Fields} {k k' : String} {v : Json}

theorem get_cons (f : String × Json) (fs : Fields) (k : String) :
    get (f :: fs) k = if f.1 = k then some f.2 else get fs k := by
  simp only [get, Json.getObjectItemCaseSensitive, Json.items_obj, List.find?_cons]
  by_cases h : f.1 = k
  · simp [h]
  · have hb : (f.1 == k) = false := by simpa using h
    simp only [hb, if_neg h]

@[simp] theorem get_nil (k : String) : get [] k = none := rfl

theorem get_append (fs gs : Fields) (k : String) : get (fs ++ gs) k = (get fs k).or (get gs k) := by
  induction fs with
  | nil => simp
  | cons f fs ih =>
    rw [List.cons_append, get_cons, get_cons, ih]
    split <;> rfl

theorem mem_of_get (h : get fs k = some v) : (k, v) ∈ fs := by
  induction fs with
  | nil => simp at h
  | cons f fs ih =>
    rw [get_cons] at h
    split at h
    · rename_i hk
      subst hk
      obtain rfl := Option.some.inj h
      exact List.mem_cons_self
    · exact List.mem_cons_of_mem _ (ih h)

theorem get_eq_none_iff : get fs k = none ↔ k ∉ fs.map Prod.fst := by
  induction fs with
  | nil => simp
  | cons f fs ih =>
    rw [get_cons, List.map_cons, List.mem_cons, not_or, ← ih]
    by_cases h : f.1 = k
    · simp [h]
    · simp [h, Ne.symm h]

theorem get_of_mem (hn : (fs.map Prod.fst).Nodup) (h : (k, v) ∈ fs) : get fs k = some v := by
  induction fs with
  | nil => cases h
  | cons f fs ih =>
    rw [List.map_cons, List.nodup_cons] at hn
    rw [get_cons]
    rcases List.mem_cons.mp h with rfl | h
    · simp
    · have hne : f.1 ≠ k := by
        intro he
        exact hn.1 (List.mem_map.mpr ⟨(k, v), h, he.symm⟩)
      rw [if_neg hne]
      exact ih hn.2 h

/-! ## Updates -/

theorem keys_delete_sublist : ((delete fs k).map Prod.fst).Sublist (fs.map Prod.fst) :=
  (List.eraseP_sublist).map _

theorem get_delete (hn : (fs.map Prod.fst).Nodup) (k k' : String) :
    get (delete fs k) k' = if k' = k then none else get fs k' := by
  induction fs with
  | nil => simp [delete]
  | cons f fs ih =>
    rw [List.map_cons, List.nodup_cons] at hn
    unfold delete at ih ⊢
    by_cases hf : f.1 = k
    · rw [List.eraseP_cons_of_pos (by simpa using hf), get_cons]
      by_cases hk : k' = k
      · rw [if_pos hk, hk, get_eq_none_iff, ← hf]
        exact hn.1
      · rw [if_neg hk, if_neg (fun h => hk (h.symm.trans hf))]
    · rw [List.eraseP_cons_of_neg (by simpa using hf), get_cons, get_cons, ih hn.2]
      by_cases hk : k' = k
      · simp only [hk, if_true, if_neg hf]
      · simp only [if_neg hk]

theorem get_delete_eq (h : fs.Over N) : (delete fs k).get = update fs.get k none := by
  funext k'
  rw [get_delete h.nodup, Function.update_apply]

theorem get_put_eq (h : fs.Over N) : (put fs (k, v)).get = update fs.get k (some v) := by
  funext k'
  rw [put, get_append, get_delete h.nodup, get_cons, get_nil, Function.update_apply]
  by_cases hk : k' = k
  · simp [hk]
  · simp [hk, Ne.symm hk]

theorem keys_replace (key : String) (v : Json) (fs : Fields) :
    (replace key v fs).map Prod.fst = fs.map Prod.fst := by
  induction fs with
  | nil => rfl
  | cons f fs ih =>
    unfold replace
    split
    · rename_i h
      rw [beq_iff_eq] at h
      rw [List.map_cons, List.map_cons, h]
    · rw [List.map_cons, List.map_cons, ih]

theorem mem_replace {key : String} {v : Json} {fs : Fields} {f : String × Json}
    (hf : f ∈ replace key v fs) : f ∈ fs ∨ f.2 = v := by
  induction fs with
  | nil => cases hf
  | cons g fs ih =>
    unfold replace at hf
    split at hf
    · rcases List.mem_cons.mp hf with rfl | hf
      · exact .inr rfl
      · exact .inl (List.mem_cons_of_mem _ hf)
    · rcases List.mem_cons.mp hf with rfl | hf
      · exact .inl List.mem_cons_self
      · exact (ih hf).imp_left (List.mem_cons_of_mem _)

theorem get_replace (key : String) (v : Json) (fs : Fields) (k : String) :
    get (replace key v fs) k = if k = key ∧ (get fs key).isSome then some v else get fs k := by
  induction fs with
  | nil => simp [replace]
  | cons f fs ih =>
    unfold replace
    by_cases hf : f.1 = key
    · subst hf
      by_cases hk : k = f.1
      · simp [get_cons, hk]
      · simp [get_cons, hk, Ne.symm hk]
    · have hb : (f.1 == key) = false := by simpa using hf
      rw [hb]
      simp only [Bool.false_eq_true, if_false, get_cons, ih, if_neg hf]
      by_cases hk : k = key
      · subst hk
        simp only [if_neg hf, true_and]
      · simp only [hk, false_and, if_false]

namespace Over

theorem delete (h : fs.Over N) : (Fields.delete fs k).Over N where
  nodup := h.nodup.sublist keys_delete_sublist
  mem f hf := h.mem f (List.mem_of_mem_eraseP hf)
  distinct f hf := h.distinct f (List.mem_of_mem_eraseP hf)

theorem concat (h : fs.Over N) (hk : k ∈ N) (hv : v.distinct = true) (hnew : fs.get k = none) :
    Fields.Over N (fs ++ [(k, v)]) where
  nodup := by
    rw [List.map_append, List.map_singleton, List.nodup_append]
    refine ⟨h.nodup, List.nodup_singleton _, ?_⟩
    intro a ha b hb
    rw [List.mem_singleton.mp hb]
    rintro rfl
    exact get_eq_none_iff.mp hnew ha
  mem f hf := by
    rcases List.mem_append.mp hf with hf | hf
    · exact h.mem f hf
    · rw [List.mem_singleton.mp hf]
      exact hk
  distinct f hf := by
    rcases List.mem_append.mp hf with hf | hf
    · exact h.distinct f hf
    · rw [List.mem_singleton.mp hf]
      exact hv

theorem put (h : fs.Over N) (hk : k ∈ N) (hv : v.distinct = true) :
    (Fields.put fs (k, v)).Over N := by
  refine h.delete.concat hk hv ?_
  rw [get_delete h.nodup, if_pos rfl]

theorem replace {key : String} {v : Json} {fs : Fields} (h : fs.Over N)
    (hv : v.distinct = true) : (Fields.replace key v fs).Over N where
  nodup := by
    rw [Fields.keys_replace]
    exact h.nodup
  mem f hf := by
    have hk : f.1 ∈ fs.map Prod.fst := Fields.keys_replace key v fs ▸ List.mem_map_of_mem hf
    obtain ⟨g, hg, he⟩ := List.mem_map.mp hk
    exact he ▸ h.mem g hg
  distinct f hf := by
    rcases Fields.mem_replace hf with hf | hf
    · exact h.distinct f hf
    · rw [hf]
      exact hv

theorem get_distinct (h : fs.Over N) (hg : fs.get k = some v) : v.distinct = true :=
  h.distinct _ (mem_of_get hg)

/-! ## Case -/

variable (hN : CaseDistinct N)
include hN

/-- For names of `N`, equal up to case is equal. -/
theorem keyEq_eq (h : fs.Over N) (hk : k ∈ N) : ∀ f ∈ fs, Json.keyEq f.1 k = (f.1 == k) := by
  intro f hf
  rw [Bool.eq_iff_iff, Json.keyEq_iff, beq_iff_eq]
  exact ⟨fun he => hN (h.mem f hf) hk he, fun he => by rw [he]⟩

theorem getObjectItem_eq (h : fs.Over N) (hk : k ∈ N) :
    (Json.obj fs).getObjectItem k = fs.get k := by
  unfold Json.getObjectItem Fields.get Json.getObjectItemCaseSensitive
  rw [Json.items_obj, List.find?_congr (h.keyEq_eq hN hk)]

theorem deleteItem_eq (h : fs.Over N) (hk : k ∈ N) :
    Json.deleteItem k fs = Fields.delete fs k := by
  have hkey := h.keyEq_eq hN hk
  clear h
  unfold Json.deleteItem Fields.delete
  induction fs with
  | nil => rfl
  | cons f fs ih =>
    rw [List.forall_mem_cons] at hkey
    rw [List.eraseP_cons, List.eraseP_cons, hkey.1, ih hkey.2]

theorem set (h : fs.Over N) (hk : k ∈ N) {v : Option Json}
    (hv : ∀ j ∈ v, j.distinct = true) : (Fields.set fs k v).Over N := by
  unfold Fields.set
  rw [h.deleteItem_eq hN hk]
  cases v with
  | none => simpa using h.delete
  | some j =>
    refine h.delete.concat hk (hv j rfl) ?_
    rw [get_delete h.nodup, if_pos rfl]

theorem get_set (h : fs.Over N) (hk : k ∈ N) (v : Option Json) :
    (Fields.set fs k v).get = update fs.get k v := by
  unfold Fields.set
  rw [h.deleteItem_eq hN hk]
  cases v with
  | none =>
    simp only [Option.map_none, Option.toList_none, List.append_nil]
    exact get_delete_eq h
  | some j => exact get_put_eq h

end Over

end Fields

end Enil
