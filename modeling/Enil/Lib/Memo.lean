import Mathlib.Data.List.Count
import Mathlib.Data.List.Nodup

/-!
# Memo tables

A memo holds answers of a partial function, each key once. A lookup answers from the
table where it can; otherwise it fetches, and may or may not keep what it fetched. The
answers are those of the function itself, and a key is fetched again only after a lookup
that did not keep it.
-/

namespace Enil.Lib

universe u v

/-- A table of answers of `fetch`, no key twice. -/
structure Memo {κ : Type u} {β : Type v} (fetch : κ → Option β) where
  entries : List (κ × β)
  nodup : (entries.map Prod.fst).Nodup
  sound : ∀ e ∈ entries, fetch e.1 = some e.2

namespace Memo

variable {κ : Type u} {β : Type v} {fetch : κ → Option β}

def keys (m : Memo fetch) : List κ := m.entries.map Prod.fst

variable (fetch) in
def empty : Memo fetch := ⟨[], List.nodup_nil, List.forall_mem_nil _⟩

@[simp] theorem empty_entries : (empty fetch).entries = [] := rfl

theorem nodup_add (m : Memo fetch) {k : κ} (hk : k ∉ m.keys) (v : β) :
    ((m.entries ++ [(k, v)]).map Prod.fst).Nodup := by
  rw [List.map_append, List.map_singleton, ← List.concat_eq_append, List.nodup_concat]
  exact ⟨hk, m.nodup⟩

theorem sound_add (m : Memo fetch) {k : κ} {v : β} (hv : fetch k = some v) :
    ∀ e ∈ m.entries ++ [(k, v)], fetch e.1 = some e.2 := by
  intro e he
  rcases List.mem_append.mp he with he | he
  · exact m.sound e he
  · rw [List.mem_singleton.mp he]; exact hv

def add (m : Memo fetch) {k : κ} {v : β} (hk : k ∉ m.keys) (hv : fetch k = some v) : Memo fetch where
  entries := m.entries ++ [(k, v)]
  nodup := nodup_add m hk v
  sound := sound_add m hv

@[simp] theorem add_entries (m : Memo fetch) {k : κ} {v : β} (hk : k ∉ m.keys)
    (hv : fetch k = some v) : (m.add hk hv).entries = m.entries ++ [(k, v)] := rfl

theorem mem_keys_add {m : Memo fetch} {k j : κ} {v : β} {hk : k ∉ m.keys}
    {hv : fetch k = some v} : j ∈ (m.add hk hv).keys ↔ j ∈ m.keys ∨ j = k := by
  rw [keys, add_entries, List.map_append, List.map_singleton, List.mem_append,
    List.mem_singleton, keys]

/-- What a lookup leaves: the table is as it was, or has the fetched answer too. -/
inductive Looks (m : Memo fetch) (k : κ) : (fetched kept : Bool) → Memo fetch → Prop where
  | hit : k ∈ m.keys → Looks m k false true m
  | absent : k ∉ m.keys → fetch k = none → Looks m k true true m
  | dropped : k ∉ m.keys → Looks m k true false m
  | kept {v : β} (hk : k ∉ m.keys) (hv : fetch k = some v) : Looks m k true true (m.add hk hv)

/-- A sequence of lookups: the keys looked up and whether each was fetched and kept. -/
inductive LooksAll : Memo fetch → List (κ × Bool × Bool) → Memo fetch → Prop where
  | nil (m : Memo fetch) : LooksAll m [] m
  | cons {m n o : Memo fetch} {k : κ} {fetched kept : Bool} {ls : List (κ × Bool × Bool)} :
      Looks m k fetched kept n → LooksAll n ls o → LooksAll m ((k, fetched, kept) :: ls) o

theorem Looks.subset {m n : Memo fetch} {k : κ} {fetched kept : Bool}
    (h : Looks m k fetched kept n) : m.keys ⊆ n.keys := by
  cases h with
  | hit | absent | dropped => exact List.Subset.refl _
  | kept hk hv => exact fun j hj => mem_keys_add.mpr (.inl hj)

theorem Looks.not_fetched {m n : Memo fetch} {k : κ} {fetched kept : Bool}
    (h : Looks m k fetched kept n) (hk : k ∈ m.keys) : fetched = false := by
  cases h with
  | hit => rfl
  | absent hno | dropped hno | kept hno => exact absurd hk hno

/-- What is fetched and kept is in the table from then on. -/
theorem Looks.mem_of_kept {m n : Memo fetch} {k : κ} {fetched : Bool}
    (h : Looks m k fetched true n) (hk : (fetch k).isSome) : k ∈ n.keys := by
  cases h with
  | hit hin => exact hin
  | absent _ hno => rw [hno] at hk; cases hk
  | kept _ _ => exact mem_keys_add.mpr (.inr rfl)

variable [DecidableEq κ]

def find? (m : Memo fetch) (k : κ) : Option β := (m.entries.find? (·.1 = k)).map Prod.snd

theorem find?_eq_none {m : Memo fetch} {k : κ} : m.find? k = none ↔ k ∉ m.keys := by
  simp only [find?, Option.map_eq_none_iff, List.find?_eq_none, decide_eq_true_eq, keys,
    List.mem_map, not_exists, not_and]

theorem find?_eq_fetch {m : Memo fetch} {k : κ} (h : k ∈ m.keys) : m.find? k = fetch k := by
  cases hf : m.entries.find? (·.1 = k) with
  | none => exact absurd h (find?_eq_none.mp (by rw [find?, hf]; rfl))
  | some e =>
    have hk : e.1 = k := by simpa using List.find?_some hf
    rw [find?, hf, Option.map_some, ← m.sound e (List.mem_of_find?_eq_some hf), hk]

def fetchesOf (k : κ) (ls : List (κ × Bool × Bool)) : Nat := ls.countP fun l => l.1 = k ∧ l.2.1

/-- The lookups of a key that do not keep it. -/
def dropsOf (k : κ) (ls : List (κ × Bool × Bool)) : Nat :=
  ls.countP fun l => l.1 = k ∧ l.2.2 = false

/-- A key in the table is never fetched again. -/
theorem LooksAll.fetchesOf_of_mem {m n : Memo fetch} {ls : List (κ × Bool × Bool)}
    (h : LooksAll m ls n) {k : κ} (hk : k ∈ m.keys) : fetchesOf k ls = 0 := by
  induction h with
  | nil => rfl
  | @cons m n o j fetched kept ls hl _ ih =>
    have hrest := ih (hl.subset hk)
    rw [fetchesOf, List.countP_cons_of_neg, ← fetchesOf, hrest]
    simp only [decide_eq_true_eq, not_and]
    rintro rfl hf
    rw [hl.not_fetched hk] at hf
    cases hf

/-- A key is fetched at most once more than it was not kept. -/
theorem LooksAll.fetchesOf_le {m n : Memo fetch} {ls : List (κ × Bool × Bool)}
    (h : LooksAll m ls n) {k : κ} (hk : (fetch k).isSome) :
    fetchesOf k ls ≤ dropsOf k ls + 1 := by
  induction h with
  | nil => exact Nat.zero_le _
  | @cons m n o j fetched kept ls hl hrest ih =>
    simp only [fetchesOf, dropsOf, List.countP_cons] at ih ⊢
    by_cases hj : j = k
    · subst hj
      cases kept with
      | false =>
        simp only [true_and, decide_true, ↓reduceIte]
        split <;> omega
      | true =>
        have hzero := hrest.fetchesOf_of_mem (hl.mem_of_kept hk)
        rw [fetchesOf] at hzero
        rw [hzero]
        split <;> omega
    · simp only [hj, false_and, decide_false, Bool.false_eq_true, ↓reduceIte, Nat.add_zero]
      exact ih

end Memo
end Enil.Lib
