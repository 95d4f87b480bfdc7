import Enil.Lib.Pages

/-!
# The latest row with a property

A query takes the latest of the rows that have a property. A view looks for one from the
end of its rows, which are the latest there are. Where no key occurs twice the two find
the same row, as long as the view has it.
-/

namespace Enil.Lib

universe u v

variable {α : Type u} {τ : Type v} [LinearOrder τ]

/-- The row of a key that no other row has. -/
theorem find?_key_eq_some {κ : Type v} [DecidableEq κ] {key : α → κ} {rows : List α}
    (h : (rows.map key).Nodup) {k : κ} {r : α} :
    rows.find? (fun r => key r = k) = some r ↔ r ∈ rows ∧ key r = k := by
  constructor
  · intro hfind
    have hkey := List.find?_some hfind
    exact ⟨List.mem_of_find?_eq_some hfind, of_decide_eq_true hkey⟩
  · rintro ⟨hmem, hkey⟩
    have hsome : (rows.find? fun r => key r = k).isSome = true :=
      List.find?_isSome.mpr ⟨r, hmem, by simpa using hkey⟩
    obtain ⟨r', hfind⟩ := Option.isSome_iff_exists.mp hsome
    rw [hfind, Option.some.injEq]
    have hdecide := List.find?_some hfind
    have hkey' := of_decide_eq_true hdecide
    exact List.inj_on_of_nodup_map h (List.mem_of_find?_eq_some hfind) hmem
      (hkey'.trans hkey.symm)

/-- The loop from the row before `n` down to the first. -/
def scanBack (p : α → Bool) (rows : List α) : Nat → Option Nat
  | 0 => none
  | j + 1 => if (rows[j]?).any p then some j else scanBack p rows j

theorem scanBack_eq_some {p : α → Bool} {rows : List α} {n j : Nat} :
    scanBack p rows n = some j ↔ j < n ∧ (rows[j]?).any p = true ∧
      ∀ k, j < k → k < n → (rows[k]?).any p = false := by
  induction n with
  | zero => exact iff_of_false (fun h => by cases h) fun h => absurd h.1 (Nat.not_lt_zero j)
  | succ n ih =>
    unfold scanBack
    cases hn : (rows[n]?).any p with
    | true =>
      rw [if_pos rfl, Option.some.injEq]
      constructor
      · rintro rfl
        exact ⟨by omega, hn, fun k hk hlt => by omega⟩
      · rintro ⟨hj, -, hlater⟩
        by_contra hne
        rw [hlater n (by omega) (by omega)] at hn
        cases hn
    | false =>
      rw [if_neg Bool.false_ne_true, ih]
      constructor
      · rintro ⟨hj, hp, hlater⟩
        refine ⟨by omega, hp, fun k hk hlt => ?_⟩
        rcases Nat.lt_succ_iff_lt_or_eq.mp hlt with hlt | rfl
        · exact hlater k hk hlt
        · exact hn
      · rintro ⟨hj, hp, hlater⟩
        have hne : j ≠ n := by
          rintro rfl
          rw [hn] at hp
          cases hp
        exact ⟨by omega, hp, fun k hk hlt => hlater k hk (by omega)⟩

theorem scanBack_isSome {p : α → Bool} {rows : List α} {n i : Nat} (hi : i < n)
    (hp : (rows[i]?).any p = true) : ∃ j, i ≤ j ∧ scanBack p rows n = some j := by
  induction n with
  | zero => omega
  | succ n ih =>
    unfold scanBack
    split
    · exact ⟨n, by omega, rfl⟩
    · rename_i hn
      have hne : i ≠ n := by
        rintro rfl
        exact hn hp
      exact ih (by omega)

/-- Rows in order, none of the others later than one of them. -/
structure LatestRows (key : α → τ) (rows shown : List α) : Prop where
  mem : ∀ m ∈ shown, m ∈ rows
  sorted : shown.Pairwise fun a b => key a < key b
  upward : ∀ m ∈ shown, ∀ m' ∈ rows, key m ≤ key m' → m' ∈ shown

variable {key : α → τ} {rows shown : List α}

theorem LatestRows.nil : LatestRows key rows [] :=
  ⟨List.forall_mem_nil _, List.Pairwise.nil, List.forall_mem_nil _⟩

theorem LatestRows.lt (h : LatestRows key rows shown) {i j : Nat} {a b : α} (hij : i < j)
    (ha : shown[i]? = some a) (hb : shown[j]? = some b) : key a < key b := by
  obtain ⟨hi, rfl⟩ := List.getElem?_eq_some_iff.mp ha
  obtain ⟨hj, rfl⟩ := List.getElem?_eq_some_iff.mp hb
  exact List.pairwise_iff_getElem.mp h.sorted i j hi hj hij

namespace Descending

variable (o : Descending key)

/-- `ORDER BY key DESC LIMIT 1`. -/
def latest (p : α → Bool) (rows : List α) : Option α := (o.sort (rows.filter p)).head?

variable {o} {p : α → Bool}

theorem latest_eq_some (hkeys : (rows.map key).Nodup) {m : α} :
    o.latest p rows = some m ↔ m ∈ rows ∧ p m = true ∧
      ∀ m' ∈ rows, p m' = true → key m' ≤ key m := by
  have hperm := o.perm (rows.filter p)
  have hsorted := o.sorted (rows.filter p)
  unfold latest
  cases hsort : o.sort (rows.filter p) with
  | nil =>
    refine iff_of_false (fun h => by cases h) ?_
    rintro ⟨hm, hp, -⟩
    rw [hsort] at hperm
    have hmem := hperm.symm.subset (List.mem_filter.mpr ⟨hm, hp⟩)
    cases hmem
  | cons a rest =>
    rw [hsort] at hperm hsorted
    obtain ⟨hmem, hp⟩ := List.mem_filter.mp (hperm.subset List.mem_cons_self)
    have hmax : ∀ m' ∈ rows, p m' = true → key m' ≤ key a := by
      intro m' hm' hp'
      rcases List.mem_cons.mp (hperm.symm.subset (List.mem_filter.mpr ⟨hm', hp'⟩)) with rfl | hrest
      · exact le_refl _
      · exact (List.pairwise_cons.mp hsorted).1 m' hrest
    rw [List.head?_cons, Option.some.injEq]
    constructor
    · rintro rfl
      exact ⟨hmem, hp, hmax⟩
    · rintro ⟨hm, hpm, hle⟩
      have hkey := le_antisymm (hle a hmem hp) (hmax m hm hpm)
      exact List.inj_on_of_nodup_map hkeys hmem hm hkey

theorem page_latestRows (hkeys : (rows.map key).Nodup) (limit : Nat) :
    LatestRows key rows (o.page rows limit).1 := by
  have hmem : ∀ m ∈ o.sort rows, m ∈ rows := fun m hm => (o.perm rows).subset hm
  have hnodup : ((o.sort rows).map key).Nodup := ((o.perm rows).map key).nodup_iff.mpr hkeys
  have hstrict : (o.sort rows).Pairwise fun a b => key b < key a := by
    refine ((o.sorted rows).and (List.pairwise_map.mp hnodup)).imp fun h => ?_
    exact lt_of_le_of_ne h.1 (Ne.symm h.2)
  show LatestRows key rows ((o.sort rows).take limit).reverse
  refine ⟨fun m hm => ?_, ?_, fun m hm m' hm' hle => ?_⟩
  · exact hmem m (List.mem_of_mem_take (List.mem_reverse.mp hm))
  · exact List.pairwise_reverse.mpr (hstrict.sublist (List.take_sublist _ _))
  · rw [List.mem_reverse] at hm ⊢
    have hsorted := (o.perm rows).symm.subset hm'
    rw [← List.take_append_drop limit (o.sort rows), List.mem_append] at hsorted
    rcases hsorted with htake | hdrop
    · exact htake
    · have hlt := (List.pairwise_append.mp
        (by rw [List.take_append_drop]; exact hstrict :
          (_ ++ (o.sort rows).drop limit).Pairwise _)).2.2 m hm m' hdrop
      exact absurd hle (not_le.mpr hlt)

/-- From the end of the latest rows the scan finds the latest with `p`, where it is there. -/
theorem scanBack_iff (h : LatestRows key rows shown) (hkeys : (rows.map key).Nodup) {m : α} :
    (∃ j, scanBack p shown shown.length = some j ∧ shown[j]? = some m) ↔
      o.latest p rows = some m ∧ m ∈ shown := by
  rw [latest_eq_some hkeys]
  constructor
  · rintro ⟨j, hscan, hj⟩
    obtain ⟨-, hp, hlater⟩ := scanBack_eq_some.mp hscan
    rw [hj] at hp
    have hshown := List.mem_of_getElem? hj
    refine ⟨⟨h.mem m hshown, hp, fun m' hm' hp' => ?_⟩, hshown⟩
    by_contra hlt
    have hm'shown := h.upward m hshown m' hm' (le_of_lt (not_le.mp hlt))
    obtain ⟨k, hk⟩ := List.mem_iff_getElem?.mp hm'shown
    rcases Nat.lt_trichotomy j k with hjk | rfl | hkj
    · have hnone := hlater k hjk (List.getElem?_eq_some_iff.mp hk).1
      rw [hk, Option.any_some, hp'] at hnone
      cases hnone
    · obtain rfl := Option.some.inj (hj.symm.trans hk)
      exact hlt (le_refl _)
    · exact hlt (le_of_lt (h.lt hkj hk hj))
  · rintro ⟨⟨hm, hp, hmax⟩, hshown⟩
    obtain ⟨i, hi⟩ := List.mem_iff_getElem?.mp hshown
    obtain ⟨j, hij, hscan⟩ := @scanBack_isSome _ p shown _ _
      (List.getElem?_eq_some_iff.mp hi).1 (by rw [hi]; exact hp)
    refine ⟨j, hscan, ?_⟩
    obtain ⟨hj, hpj, -⟩ := scanBack_eq_some.mp hscan
    rcases Nat.eq_or_lt_of_le hij with rfl | hlt
    · exact hi
    · have hget := List.getElem?_eq_getElem hj
      rw [hget] at hpj
      have hle := hmax _ (h.mem _ (List.mem_of_getElem? hget)) hpj
      exact absurd hle (not_le.mpr (h.lt hlt hi hget))

end Descending
end Enil.Lib
