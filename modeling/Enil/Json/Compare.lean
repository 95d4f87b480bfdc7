import Enil.Json.Basic

/-!
# cJSON_Compare

Objects are compared item by item without regard to their order, numbers up to
the rounding of a double. A value is equal to itself as long as no object in it
has one key twice.
-/

namespace Enil.Json

/-! ## Depth -/

mutual

def depth : Json → Nat
  | arr xs => depthElements xs + 1
  | obj fs => depthItems fs + 1
  | _ => 1

def depthElements : List Json → Nat
  | [] => 0
  | x :: xs => max x.depth (depthElements xs)

def depthItems : List (String × Json) → Nat
  | [] => 0
  | (_, x) :: fs => max x.depth (depthItems fs)

end

theorem depth_le_elements {x : Json} : ∀ {xs : List Json}, x ∈ xs → x.depth ≤ depthElements xs
  | y :: ys, h => by
    rw [depthElements]
    rcases List.mem_cons.mp h with rfl | h
    · omega
    · have ih := depth_le_elements h
      omega

theorem depth_le_items {f : String × Json} :
    ∀ {fs : List (String × Json)}, f ∈ fs → f.2.depth ≤ depthItems fs
  | (k, y) :: gs, h => by
    rw [depthItems]
    rcases List.mem_cons.mp h with rfl | h
    · dsimp only
      omega
    · have ih := depth_le_items h
      omega

/-! ## Comparison -/

/-- compare_double: equal up to DBL_EPSILON of the larger one. -/
def compareDouble (a b : Rat) : Bool := |a - b| ≤ max |a| |b| / 2 ^ 52

/-- cJSON_Compare with case_sensitive, to a depth of `fuel`. -/
def compareFuel : Nat → Json → Json → Bool
  | 0, _, _ => false
  | _ + 1, null, null => true
  | _ + 1, bool a, bool b => a == b
  | _ + 1, num a, num b => compareDouble a b
  | _ + 1, str a, str b => a == b
  | n + 1, arr xs, arr ys =>
    xs.length == ys.length && (xs.zip ys).all fun p => compareFuel n p.1 p.2
  | n + 1, obj fs, obj gs =>
    (fs.all fun f => ((obj gs).getObjectItemCaseSensitive f.1).any fun v => compareFuel n f.2 v) &&
      gs.all fun g => ((obj fs).getObjectItemCaseSensitive g.1).any fun v => compareFuel n g.2 v
  | _ + 1, _, _ => false

/-- cJSON_Compare with case_sensitive. -/
def compare (a b : Json) : Bool := compareFuel a.depth a b

@[simp] theorem compare_str (a b : String) : compare (str a) (str b) = (a == b) := rfl

@[simp] theorem compare_bool (a b : Bool) : compare (bool a) (bool b) = (a == b) := rfl

@[simp] theorem compare_num (a b : Rat) : compare (num a) (num b) = compareDouble a b := rfl

theorem compareDouble_refl (a : Rat) : compareDouble a a = true := by
  rw [compareDouble, sub_self, abs_zero, decide_eq_true_eq]
  positivity

/-- Integers a double can tell apart from their neighbours compare exactly. -/
theorem compareDouble_intCast {a b : Int} (ha : |a| < 2 ^ 52) (hb : |b| < 2 ^ 52) :
    compareDouble a b = true ↔ a = b := by
  simp only [compareDouble, decide_eq_true_eq]
  constructor
  · intro h
    by_contra hne
    have h1 : (1 : Rat) ≤ |(a : Rat) - b| := by
      have : 1 ≤ |a - b| := Int.one_le_abs (sub_ne_zero.mpr hne)
      calc (1 : Rat) ≤ ((|a - b| : Int) : Rat) := by exact_mod_cast this
        _ = |(a : Rat) - b| := by push_cast; rfl
    have hlt : max |(a : Rat)| |(b : Rat)| < 2 ^ 52 := by
      apply max_lt
      · exact_mod_cast ha
      · exact_mod_cast hb
    have h2 : max |(a : Rat)| |(b : Rat)| / 2 ^ 52 < 1 := by
      rw [div_lt_one (by positivity)]
      exact hlt
    linarith
  · rintro rfl
    simpa [compareDouble] using compareDouble_refl (a : Rat)

/-! ## Values without double keys -/

mutual

/-- No object in the value has two keys equal up to case. -/
def distinct : Json → Bool
  | arr xs => distinctElements xs
  | obj fs => decide (fs.map fun f => foldCase f.1).Nodup && distinctItems fs
  | _ => true

def distinctElements : List Json → Bool
  | [] => true
  | x :: xs => x.distinct && distinctElements xs

def distinctItems : List (String × Json) → Bool
  | [] => true
  | (_, x) :: fs => x.distinct && distinctItems fs

end

theorem distinctElements_iff {xs : List Json} :
    distinctElements xs = true ↔ ∀ x ∈ xs, x.distinct = true := by
  induction xs with
  | nil => simp [distinctElements]
  | cons x xs ih => simp [distinctElements, ih]

theorem distinctItems_iff {fs : List (String × Json)} :
    distinctItems fs = true ↔ ∀ f ∈ fs, f.2.distinct = true := by
  induction fs with
  | nil => simp [distinctItems]
  | cons f fs ih =>
    obtain ⟨k, x⟩ := f
    simp [distinctItems, ih]

theorem distinct_obj {fs : List (String × Json)} :
    (obj fs).distinct = true ↔
      (fs.map fun f => foldCase f.1).Nodup ∧ ∀ f ∈ fs, f.2.distinct = true := by
  simp [distinct, distinctItems_iff]

theorem getObjectItemCaseSensitive_of_mem {fs : List (String × Json)} {f : String × Json}
    (hn : (fs.map fun f => foldCase f.1).Nodup) (hf : f ∈ fs) :
    (obj fs).getObjectItemCaseSensitive f.1 = some f.2 := by
  induction fs with
  | nil => cases hf
  | cons g gs ih =>
    rw [List.map_cons, List.nodup_cons] at hn
    unfold getObjectItemCaseSensitive
    simp only [items_obj, List.find?_cons]
    rcases List.mem_cons.mp hf with rfl | hf
    · simp
    · have hne : (g.1 == f.1) = false := by
        rw [beq_eq_false_iff_ne]
        intro h
        exact hn.1 (List.mem_map.mpr ⟨f, hf, by rw [h]⟩)
      rw [hne]
      exact ih hn.2 hf

theorem compareFuel_refl : ∀ {n : Nat} {j : Json}, j.distinct = true → j.depth ≤ n →
    compareFuel n j j = true
  | 0, j, _, hn => by cases j <;> simp [depth] at hn
  | _ + 1, null, _, _ => rfl
  | _ + 1, bool _, _, _ => by simp [compareFuel]
  | _ + 1, num _, _, _ => compareDouble_refl _
  | _ + 1, str _, _, _ => by simp [compareFuel]
  | n + 1, arr xs, hd, hn => by
    rw [distinct, distinctElements_iff] at hd
    rw [depth] at hn
    simp only [compareFuel, beq_self_eq_true, Bool.true_and, List.all_eq_true]
    intro p hp
    rw [List.zip_eq_zipWith, List.zipWith_self] at hp
    obtain ⟨x, hx, rfl⟩ := List.mem_map.mp hp
    have hle := depth_le_elements hx
    show compareFuel n x x = true
    exact compareFuel_refl (hd x hx) (by omega)
  | n + 1, obj fs, hd, hn => by
    rw [distinct_obj] at hd
    rw [depth] at hn
    have hself : ∀ f ∈ fs, ((obj fs).getObjectItemCaseSensitive f.1).any
        (fun v => compareFuel n f.2 v) = true := by
      intro f hf
      have hle := depth_le_items hf
      rw [getObjectItemCaseSensitive_of_mem hd.1 hf]
      exact compareFuel_refl (hd.2 f hf) (by omega)
    simp only [compareFuel, Bool.and_eq_true, List.all_eq_true]
    exact ⟨hself, hself⟩

theorem compare_refl {j : Json} (h : j.distinct = true) : compare j j = true :=
  compareFuel_refl h le_rfl

end Enil.Json
