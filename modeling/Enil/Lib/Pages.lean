import Mathlib.Data.List.Sort
import Mathlib.Order.Basic

/-!
# Paging by a cursor

Rows are read from the latest key backwards, a page at a time: after a page the cursor
is the key of its oldest row, and the next page takes the rows before the cursor. Rows
of equal keys come in any order. The pages hold every row once, in order, exactly where
no page ends inside a run of equal keys and every cursor met can be used (`Clean`).
-/

namespace Enil.Lib

universe u v

variable {α : Type u} {τ : Type v} [LinearOrder τ]

/-- `ORDER BY key DESC`, rows of equal keys in some order. -/
structure Descending (key : α → τ) where
  sort : List α → List α
  perm : ∀ rows, (sort rows).Perm rows
  sorted : ∀ rows, (sort rows).Pairwise fun a b => key b ≤ key a

/-- Rows of equal keys in the order they have. -/
def Descending.stable (key : α → τ) : Descending key where
  sort rows := rows.insertionSort fun a b => key b ≤ key a
  perm rows := List.perm_insertionSort _ rows
  sorted rows := by
    have : Std.Total (fun a b : α => key b ≤ key a) := ⟨fun a b => le_total (key b) (key a)⟩
    have : IsTrans α (fun a b => key b ≤ key a) := ⟨fun _ _ _ h h' => le_trans h' h⟩
    exact List.pairwise_insertionSort _ rows

variable {key : α → τ} (o : Descending key)

namespace Descending

/-- The latest `limit` rows, the oldest first, and whether there are more. -/
def page (rows : List α) (limit : Nat) : List α × Bool :=
  (((o.sort rows).take limit).reverse, decide (limit < ((o.sort rows).take (limit + 1)).length))

/-- The pages from the latest row backwards while there are more, `usable` telling whether
the next page can be asked for; `none` where the fuel runs out. -/
def readBack (usable : τ → Bool) (limit : Nat) : Nat → List α → Option (List α)
  | 0, _ => none
  | fuel + 1, rows =>
    let (shown, more) := o.page rows limit
    match more, shown.head? with
    | true, some oldest =>
      if usable (key oldest) then
        (readBack usable limit fuel (rows.filter (key · < key oldest))).map (· ++ shown)
      else some shown
    | _, _ => some shown

/-- What is read is all there is, once and in order. -/
def Complete (key : α → τ) (rows shown : List α) : Prop :=
  shown.Perm rows ∧ shown.Pairwise fun a b => key a ≤ key b

/-- Where a page ends there is no run of equal keys, and the cursor can be used. -/
def Clean (usable : τ → Bool) (limit : Nat) (keys : List τ) : Prop :=
  ∀ k a b, keys[k * limit + limit - 1]? = some a → keys[k * limit + limit]? = some b →
    b < a ∧ usable a = true

theorem length_sort (rows : List α) : (o.sort rows).length = rows.length :=
  (o.perm rows).length_eq

theorem page_more (rows : List α) (limit : Nat) :
    (o.page rows limit).2 = decide (limit < rows.length) := by
  show decide (limit < ((o.sort rows).take (limit + 1)).length) = _
  rw [List.length_take, o.length_sort]
  congr 1
  rw [eq_iff_iff]
  omega

theorem clean_of_length_le {usable : τ → Bool} {limit : Nat} {keys : List τ}
    (h : keys.length ≤ limit) : Clean usable limit keys := by
  intro k a b _ hb
  have hlt : k * limit + limit < keys.length := (List.getElem?_eq_some_iff.mp hb).1
  have : 0 ≤ k * limit := Nat.zero_le _
  omega

/-- The first cut and those behind it. -/
theorem clean_iff {usable : τ → Bool} {limit : Nat} {keys : List τ} {a b : τ}
    (hlimit : 0 < limit) (ha : keys[limit - 1]? = some a) (hb : keys[limit]? = some b) :
    Clean usable limit keys ↔ (b < a ∧ usable a = true) ∧ Clean usable limit (keys.drop limit) := by
  constructor
  · intro h
    refine ⟨h 0 a b ?_ ?_, fun k a' b' ha' hb' => h (k + 1) a' b' ?_ ?_⟩
    · rwa [Nat.zero_mul, Nat.zero_add]
    · rwa [Nat.zero_mul, Nat.zero_add]
    · rw [List.getElem?_drop] at ha'
      rw [← ha']
      congr 1
      rw [Nat.succ_mul]
      omega
    · rw [List.getElem?_drop] at hb'
      rw [← hb']
      congr 1
      rw [Nat.succ_mul]
      omega
  · rintro ⟨hfirst, hrest⟩ k a' b' ha' hb'
    cases k with
    | zero =>
      rw [Nat.zero_mul, Nat.zero_add] at ha' hb'
      rw [ha] at ha'
      rw [hb] at hb'
      obtain rfl := Option.some.inj ha'
      obtain rfl := Option.some.inj hb'
      exact hfirst
    | succ k =>
      refine hrest k a' b' ?_ ?_
      · rw [List.getElem?_drop, ← ha']
        congr 1
        rw [Nat.succ_mul]
        omega
      · rw [List.getElem?_drop, ← hb']
        congr 1
        rw [Nat.succ_mul]
        omega

/-- The cut of a page: its oldest row and the row after it. -/
theorem exists_cut {rows : List α} {limit : Nat} (hlimit : 0 < limit) (h : limit < rows.length) :
    ∃ x y, (o.sort rows)[limit - 1]? = some x ∧ (o.sort rows)[limit]? = some y ∧
      ((o.sort rows).take limit).reverse.head? = some x := by
  have hlen : limit < (o.sort rows).length := by rwa [o.length_sort]
  have hx : limit - 1 < (o.sort rows).length := by omega
  refine ⟨(o.sort rows)[limit - 1], (o.sort rows)[limit], List.getElem?_eq_getElem hx,
    List.getElem?_eq_getElem hlen, ?_⟩
  rw [List.head?_reverse, List.getLast?_eq_getElem?, List.length_take, Nat.min_eq_left (by omega),
    List.getElem?_take_of_lt (by omega), List.getElem?_eq_getElem hx]

theorem sorted_le {rows : List α} {i j : Nat} {x y : α} (hij : i ≤ j)
    (hx : (o.sort rows)[i]? = some x) (hy : (o.sort rows)[j]? = some y) : key y ≤ key x := by
  obtain ⟨hi, rfl⟩ := List.getElem?_eq_some_iff.mp hx
  obtain ⟨hj, rfl⟩ := List.getElem?_eq_some_iff.mp hy
  rcases Nat.lt_or_eq_of_le hij with hlt | rfl
  · exact List.pairwise_iff_getElem.mp (o.sorted rows) i j hi hj hlt
  · exact le_refl _

/-- No row of a page is before its oldest row. -/
theorem le_of_mem_take {rows : List α} {limit : Nat} {x t : α}
    (hx : (o.sort rows)[limit - 1]? = some x) (ht : t ∈ (o.sort rows).take limit) :
    key x ≤ key t := by
  obtain ⟨i, hi, hget⟩ := List.mem_iff_getElem.mp ht
  rw [List.length_take] at hi
  rw [List.getElem_take] at hget
  exact o.sorted_le (by omega) (List.getElem?_eq_some_iff.mpr ⟨by omega, hget⟩) hx

/-- No row behind the page is after the one next to it. -/
theorem le_of_mem_drop {rows : List α} {limit : Nat} {y t : α}
    (hy : (o.sort rows)[limit]? = some y) (ht : t ∈ (o.sort rows).drop limit) :
    key t ≤ key y := by
  obtain ⟨i, hi, hget⟩ := List.mem_iff_getElem.mp ht
  rw [List.length_drop] at hi
  rw [List.getElem_drop] at hget
  exact o.sorted_le (Nat.le_add_right limit i)
    hy (List.getElem?_eq_some_iff.mpr ⟨by omega, hget⟩)

/-- The rows before the cursor are all behind the page. -/
theorem older_perm {rows : List α} {limit : Nat} {x : α}
    (hx : (o.sort rows)[limit - 1]? = some x) :
    (rows.filter (key · < key x)).Perm (((o.sort rows).drop limit).filter (key · < key x)) := by
  have hnone : ((o.sort rows).take limit).filter (key · < key x) = [] := by
    rw [List.filter_eq_nil_iff]
    intro t ht hlt
    exact absurd (o.le_of_mem_take hx ht) (not_le.mpr (of_decide_eq_true hlt))
  have hsplit : (o.sort rows).filter (key · < key x) =
      ((o.sort rows).drop limit).filter (key · < key x) := by
    conv_lhs => rw [← List.take_append_drop limit (o.sort rows)]
    rw [List.filter_append, hnone, List.nil_append]
  exact ((o.perm rows).filter _).symm.trans (List.Perm.of_eq hsplit)

theorem length_older_le {rows : List α} {limit : Nat} {x : α}
    (hx : (o.sort rows)[limit - 1]? = some x) :
    (rows.filter (key · < key x)).length ≤ rows.length - limit := by
  rw [(o.older_perm hx).length_eq]
  refine (List.length_filter_le _ _).trans ?_
  rw [List.length_drop, o.length_sort]

/-- A strict cut loses no row. -/
theorem older_perm_drop {rows : List α} {limit : Nat} {x y : α}
    (hx : (o.sort rows)[limit - 1]? = some x) (hy : (o.sort rows)[limit]? = some y)
    (hlt : key y < key x) :
    (rows.filter (key · < key x)).Perm ((o.sort rows).drop limit) := by
  refine (o.older_perm hx).trans (List.Perm.of_eq (List.filter_eq_self.mpr fun t ht => ?_))
  exact decide_eq_true (lt_of_le_of_lt (o.le_of_mem_drop hy ht) hlt)

/-- A cut inside a run of equal keys loses at least the row next to it. -/
theorem length_older_lt {rows : List α} {limit : Nat} {x y : α}
    (hx : (o.sort rows)[limit - 1]? = some x) (hy : (o.sort rows)[limit]? = some y)
    (hlt : ¬ key y < key x) :
    (rows.filter (key · < key x)).length < rows.length - limit := by
  have hmem : y ∈ (o.sort rows).drop limit := by
    refine List.mem_of_getElem? (i := 0) ?_
    rw [List.getElem?_drop]
    exact hy
  have hfewer : (((o.sort rows).drop limit).filter (key · < key x)).length <
      ((o.sort rows).drop limit).length := by
    refine lt_of_le_of_ne (List.length_filter_le _ _) fun heq => hlt ?_
    exact of_decide_eq_true (List.length_filter_eq_length_iff.mp heq y hmem)
  rw [(o.older_perm hx).length_eq]
  rwa [List.length_drop, o.length_sort] at hfewer

variable {usable : τ → Bool} {limit : Nat}

/-- A page is the last, or is cut off before a row that is left. -/
theorem page_cases (hlimit : 0 < limit) (rows : List α) :
    (rows.length ≤ limit ∧ o.page rows limit = ((o.sort rows).reverse, false)) ∨
    ∃ x y, (o.sort rows)[limit - 1]? = some x ∧ (o.sort rows)[limit]? = some y ∧
      o.page rows limit = (((o.sort rows).take limit).reverse, true) ∧
      ((o.sort rows).take limit).reverse.head? = some x := by
  by_cases hmore : limit < rows.length
  · right
    obtain ⟨x, y, hx, hy, hhead⟩ := o.exists_cut hlimit hmore
    exact ⟨x, y, hx, hy, Prod.ext rfl ((o.page_more rows limit).trans (decide_eq_true hmore)), hhead⟩
  · left
    have hle : rows.length ≤ limit := by omega
    refine ⟨hle, Prod.ext ?_ ((o.page_more rows limit).trans (decide_eq_false hmore))⟩
    show ((o.sort rows).take limit).reverse = _
    rw [List.take_of_length_le (by rwa [o.length_sort])]

theorem readBack_last {fuel : Nat} {rows shown : List α}
    (h : o.page rows limit = (shown, false)) :
    o.readBack usable limit (fuel + 1) rows = some shown := by
  rw [readBack, h]

theorem readBack_more {fuel : Nat} {rows shown : List α} {x : α}
    (h : o.page rows limit = (shown, true)) (hx : shown.head? = some x) :
    o.readBack usable limit (fuel + 1) rows =
      if usable (key x) then
        (o.readBack usable limit fuel (rows.filter (key · < key x))).map (· ++ shown)
      else some shown := by
  rw [readBack, h]
  simp only [hx]

/-- What one page makes of the rest: it is the last, or its cursor cannot be used, or the
rows before the cursor are read in front of it. -/
theorem readBack_cases (hlimit : 0 < limit) (fuel : Nat) (rows : List α) :
    (rows.length ≤ limit ∧
      o.readBack usable limit (fuel + 1) rows = some (o.sort rows).reverse) ∨
    ∃ x y, (o.sort rows)[limit - 1]? = some x ∧ (o.sort rows)[limit]? = some y ∧
      o.readBack usable limit (fuel + 1) rows =
        if usable (key x) then
          (o.readBack usable limit fuel (rows.filter (key · < key x))).map
            (· ++ ((o.sort rows).take limit).reverse)
        else some ((o.sort rows).take limit).reverse := by
  rcases o.page_cases hlimit rows with ⟨hle, hpage⟩ | ⟨x, y, hx, hy, hpage, hhead⟩
  · exact .inl ⟨hle, o.readBack_last hpage⟩
  · exact .inr ⟨x, y, hx, hy, o.readBack_more hpage hhead⟩

/-- Every page takes rows off what is left, so the pages end. -/
theorem readBack_isSome (hlimit : 0 < limit) {fuel : Nat} {rows : List α}
    (h : rows.length < fuel) : (o.readBack usable limit fuel rows).isSome := by
  induction fuel generalizing rows with
  | zero => omega
  | succ fuel ih =>
    rcases o.readBack_cases hlimit fuel rows with ⟨-, hlast⟩ | ⟨x, y, hx, hy, hread⟩
    · rw [hlast]
      rfl
    · rw [hread]
      split
      · have hlen := o.length_older_le hx
        have hpos : limit < rows.length := by
          rw [← o.length_sort]
          exact (List.getElem?_eq_some_iff.mp hy).1
        rw [Option.isSome_map]
        exact ih (by omega)
      · rfl

theorem readBack_length_le (hlimit : 0 < limit) {fuel : Nat} {rows shown : List α}
    (h : o.readBack usable limit fuel rows = some shown) : shown.length ≤ rows.length := by
  induction fuel generalizing rows shown with
  | zero => cases h
  | succ fuel ih =>
    rcases o.readBack_cases hlimit fuel rows with ⟨-, hlast⟩ | ⟨x, y, hx, hy, hread⟩
    · rw [hlast, Option.some.injEq] at h
      rw [← h, List.length_reverse, o.length_sort]
    · rw [hread] at h
      have hpos : limit < rows.length := by
        rw [← o.length_sort]
        exact (List.getElem?_eq_some_iff.mp hy).1
      have hpage : ((o.sort rows).take limit).reverse.length = limit := by
        rw [List.length_reverse, List.length_take, o.length_sort]
        omega
      split at h
      · obtain ⟨older, holder, rfl⟩ := Option.map_eq_some_iff.mp h
        have hle := ih holder
        have hlen := o.length_older_le hx
        rw [List.length_append, hpage]
        omega
      · obtain rfl := Option.some.inj h
        omega

/-- The keys in order are those of any rows that are the same up to order. -/
theorem keys_eq {rows desc : List α} (h : rows.Perm desc)
    (hdesc : desc.Pairwise fun a b => key b ≤ key a) : (o.sort rows).map key = desc.map key := by
  have hsort : ((o.sort rows).map key).Pairwise (· ≥ ·) := List.pairwise_map.mpr (o.sorted rows)
  have hkeys : (desc.map key).Pairwise (· ≥ ·) := List.pairwise_map.mpr hdesc
  exact List.Perm.eq_of_pairwise' hsort hkeys (((o.perm rows).trans h).map key)

/-- A page in front of which the older rows were read. -/
theorem complete_append {rows older : List α} {x : α}
    (hx : (o.sort rows)[limit - 1]? = some x)
    (hperm : (rows.filter (key · < key x)).Perm ((o.sort rows).drop limit)) :
    Complete key rows (older ++ ((o.sort rows).take limit).reverse) ↔
      Complete key (rows.filter (key · < key x)) older := by
  have hall : ((o.sort rows).drop limit ++ ((o.sort rows).take limit).reverse).Perm rows := by
    refine (List.Perm.append_left _ (List.reverse_perm _)).trans ?_
    refine List.perm_append_comm.trans ?_
    rw [List.take_append_drop]
    exact o.perm rows
  constructor
  · rintro ⟨hp, hs⟩
    refine ⟨?_, (List.pairwise_append.mp hs).1⟩
    exact ((List.perm_append_right_iff _).mp (hp.trans hall.symm)).trans hperm.symm
  · rintro ⟨hp, hs⟩
    refine ⟨((List.perm_append_right_iff _).mpr (hp.trans hperm)).trans hall, ?_⟩
    refine List.pairwise_append.mpr ⟨hs, ?_, fun a ha b hb => ?_⟩
    · exact List.pairwise_reverse.mpr ((o.sorted rows).sublist (List.take_sublist _ _))
    · have hlt := of_decide_eq_true (List.mem_filter.mp (hp.subset ha)).2
      exact le_trans (le_of_lt hlt) (o.le_of_mem_take hx (List.mem_reverse.mp hb))

/-- Reading is complete exactly where the cuts are clean. -/
theorem complete_iff_clean (hlimit : 0 < limit) {fuel : Nat} {rows shown : List α}
    (h : o.readBack usable limit fuel rows = some shown) :
    Complete key rows shown ↔ Clean usable limit ((o.sort rows).map key) := by
  induction fuel generalizing rows shown with
  | zero => cases h
  | succ fuel ih =>
    rcases o.readBack_cases hlimit fuel rows with ⟨hle, hlast⟩ | ⟨x, y, hx, hy, hread⟩
    · rw [hlast, Option.some.injEq] at h
      subst h
      refine iff_of_true ⟨(List.reverse_perm _).trans (o.perm rows), ?_⟩ (clean_of_length_le ?_)
      · exact List.pairwise_reverse.mpr (o.sorted rows)
      · rwa [List.length_map, o.length_sort]
    · have hpos : limit < rows.length := by
        rw [← o.length_sort]
        exact (List.getElem?_eq_some_iff.mp hy).1
      have hpage : ((o.sort rows).take limit).reverse.length = limit := by
        rw [List.length_reverse, List.length_take, o.length_sort]
        omega
      rw [clean_iff hlimit (a := key x) (b := key y) (by rw [List.getElem?_map, hx]; rfl)
        (by rw [List.getElem?_map, hy]; rfl), ← List.map_drop]
      rw [hread] at h
      by_cases huse : usable (key x) = true
      · rw [if_pos huse] at h
        obtain ⟨older, holder, rfl⟩ := Option.map_eq_some_iff.mp h
        by_cases hlt : key y < key x
        · have hperm := o.older_perm_drop hx hy hlt
          have hdesc : ((o.sort rows).drop limit).Pairwise fun a b => key b ≤ key a :=
            (o.sorted rows).sublist (List.drop_sublist _ _)
          have hih := ih holder
          rw [o.keys_eq hperm hdesc] at hih
          rw [← hih]
          simp only [hlt, huse, and_self, true_and]
          exact complete_append o hx hperm
        · refine iff_of_false (fun hc => ?_) fun hc => hlt hc.1.1
          have hlen := hc.1.length_eq
          rw [List.length_append, hpage] at hlen
          have hle := o.readBack_length_le hlimit holder
          have hlost := o.length_older_lt hx hy hlt
          omega
      · rw [if_neg huse, Option.some.injEq] at h
        subst h
        refine iff_of_false (fun hc => ?_) fun hc => huse hc.1.2
        have hlen := hc.1.length_eq
        rw [hpage] at hlen
        omega

end Descending
end Enil.Lib
