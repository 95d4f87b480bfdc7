import Enil.Lib.CType
import Mathlib.Algebra.Order.Floor.Ring
import Mathlib.Data.List.TakeWhile
import Mathlib.Data.Rat.Floor

/-!
# JSON values

The values cJSON builds, and the lookups and coercions of `enil_api_json.c`.
Numbers are the doubles cJSON holds, as rationals. An object is its list of
items in order, so one key may occur twice; `getObjectItem` finds the first key
equal up to ASCII case, `getObjectItemCaseSensitive` the first equal one.
-/

namespace Enil

open Lib

inductive Json where
  | null
  | bool (b : Bool)
  | num (q : Rat)
  | str (s : String)
  | arr (items : List Json)
  | obj (items : List (String × Json))
  deriving Repr

namespace Json

/-- Keys as cJSON compares them: `tolower` on each ASCII character. -/
def foldCase (s : String) : List Char := s.toList.map Char.toLower

def keyEq (a b : String) : Bool := foldCase a == foldCase b

@[simp] theorem keyEq_iff {a b : String} : keyEq a b = true ↔ foldCase a = foldCase b := by
  simp [keyEq]

theorem keyEq_refl (a : String) : keyEq a a = true := by simp

/-- The items of an object; anything else has none. -/
def items : Json → List (String × Json)
  | obj fs => fs
  | _ => []

@[simp] theorem items_obj (fs : List (String × Json)) : (obj fs).items = fs := rfl

def getObjectItem (j : Json) (key : String) : Option Json :=
  (j.items.find? fun f => keyEq f.1 key).map Prod.snd

def getObjectItemCaseSensitive (j : Json) (key : String) : Option Json :=
  (j.items.find? fun f => f.1 == key).map Prod.snd

/-- Changes the value of the first item that `getObjectItem` finds. -/
def modifyItems (key : String) (f : Json → Json) : List (String × Json) → List (String × Json)
  | [] => []
  | g :: gs => if keyEq g.1 key then (g.1, f g.2) :: gs else g :: modifyItems key f gs

/-- cJSON_DeleteItemFromObject on the items. -/
def deleteItem (key : String) (fs : List (String × Json)) : List (String × Json) :=
  fs.eraseP fun g => keyEq g.1 key

theorem deleteItem_of_keys {key : String} {fs : List (String × Json)}
    (h : ∀ k ∈ fs.map Prod.fst, keyEq k key = false) : deleteItem key fs = fs := by
  apply List.eraseP_of_forall_not
  intro f hf hk
  rw [h f.1 (List.mem_map_of_mem hf)] at hk
  exact Bool.false_ne_true hk

def isObject : Json → Bool
  | obj _ => true
  | _ => false

def isArray : Json → Bool
  | arr _ => true
  | _ => false

def getStringValue : Json → Option String
  | str s => some s
  | _ => none

/-- cJSON_IsNumber with valuedouble. -/
def getNumberValue : Json → Option Rat
  | num q => some q
  | _ => none

def getBoolValue : Json → Option Bool
  | bool b => some b
  | _ => none

/-- The elements of an array; anything else has none. -/
def elements : Json → List Json
  | arr xs => xs
  | _ => []

/-- The values in an array or object, as its `child` list holds them. -/
def children : Json → List Json
  | arr xs => xs
  | obj fs => fs.map Prod.snd
  | _ => []

/-- The string under `key`, looked up without regard to case. -/
def stringItem (j : Json) (key : String) : Option String :=
  (j.getObjectItem key).bind getStringValue

theorem find?_modifyItems_self (key : String) (f : Json → Json) (fs : List (String × Json)) :
    ((modifyItems key f fs).find? fun g => keyEq g.1 key).map Prod.snd =
      ((fs.find? fun g => keyEq g.1 key).map Prod.snd).map f := by
  induction fs with
  | nil => rfl
  | cons g gs ih =>
    cases hg : keyEq g.1 key with
    | true => simp only [modifyItems, hg, if_true, List.find?_cons, Option.map_some]
    | false =>
      simp only [modifyItems, hg, Bool.false_eq_true, if_false, List.find?_cons]
      exact ih

theorem find?_modifyItems_other {key key' : String} (hne : keyEq key key' = false)
    (f : Json → Json) (fs : List (String × Json)) :
    ((modifyItems key f fs).find? fun g => keyEq g.1 key').map Prod.snd =
      (fs.find? fun g => keyEq g.1 key').map Prod.snd := by
  induction fs with
  | nil => rfl
  | cons g gs ih =>
    cases hg : keyEq g.1 key with
    | true =>
      have hg' : keyEq g.1 key' = false := by
        rw [Bool.eq_false_iff] at hne ⊢
        intro h
        rw [keyEq_iff] at hg h
        exact hne (keyEq_iff.mpr (hg.symm.trans h))
      simp only [modifyItems, hg, if_true, List.find?_cons, hg']
    | false =>
      simp only [modifyItems, hg, Bool.false_eq_true, if_false, List.find?_cons]
      cases keyEq g.1 key' with
      | true => rfl
      | false => exact ih

/-- No two keys of the object are equal up to case. -/
def KeysDistinct (j : Json) : Prop := (j.items.map fun f => foldCase f.1).Nodup

instance (j : Json) : Decidable j.KeysDistinct := inferInstanceAs (Decidable (List.Nodup _))

theorem find?_of_nodup_keys {key : String} :
    ∀ {fs : List (String × Json)} {f : String × Json},
      (fs.map fun f => foldCase f.1).Nodup → fs.find? (fun f => f.1 == key) = some f →
      fs.find? (fun f => keyEq f.1 key) = some f
  | [], _, _, h => by cases h
  | g :: gs, f, hn, h => by
    rw [List.map_cons, List.nodup_cons] at hn
    by_cases hg : g.1 = key
    · have hk : keyEq g.1 key = true := by rw [hg]; exact keyEq_refl _
      simp only [List.find?_cons, hg, beq_self_eq_true] at h
      simp only [List.find?_cons, hk, h]
    · have hb : (g.1 == key) = false := by simpa using hg
      simp only [List.find?_cons, hb] at h
      have hk : keyEq g.1 key = false := by
        rw [Bool.eq_false_iff]
        intro hk
        have hkey := List.find?_some h
        refine hn.1 (List.mem_map.mpr ⟨f, List.mem_of_find?_eq_some h, ?_⟩)
        rw [beq_iff_eq.mp hkey]
        exact (keyEq_iff.mp hk).symm
      simp only [List.find?_cons, hk]
      exact find?_of_nodup_keys hn.2 h

/-- On distinct keys the lookup without regard to case finds what the exact one does. -/
theorem getObjectItem_of_caseSensitive {j v : Json} {key : String} (hj : j.KeysDistinct)
    (h : j.getObjectItemCaseSensitive key = some v) : j.getObjectItem key = some v := by
  obtain ⟨f, hf, rfl⟩ := Option.map_eq_some_iff.mp h
  unfold getObjectItem
  rw [find?_of_nodup_keys hj hf]
  rfl

/-! ## Integers -/

/-- Conversion of a double to an integer drops the fraction. -/
def truncate (q : Rat) : Int := if 0 ≤ q then ⌊q⌋ else ⌈q⌉

@[simp] theorem truncate_intCast (n : Int) : truncate (n : Rat) = n := by
  unfold truncate; split <;> simp

def int64Min : Int := -2 ^ 63
def int64Max : Int := 2 ^ 63 - 1

/-- The value of the digits in front. -/
def leadingDigits (cs : List Char) : Int := digits ((cs.map Char.toNat).takeWhile isDigit)

/-- strtoll in base 10: blanks, a sign, digits, out-of-range values at the bound. -/
def strtoll (s : String) : Int :=
  let n := match s.toList.dropWhile fun c => isSpace c.toNat with
    | '-' :: cs => -leadingDigits cs
    | '+' :: cs => leadingDigits cs
    | cs => leadingDigits cs
  max int64Min (min int64Max n)

theorem leadingDigits_repr (n : Nat) : leadingDigits (Nat.repr n).toList = n := by
  have hall : ∀ c ∈ (Nat.repr n).toList.map Char.toNat, isDigit c = true := by
    rw [List.forall_mem_map]
    intro c hc
    rw [isDigit_toNat]
    exact isDigit_repr hc
  rw [leadingDigits, List.takeWhile_eq_self_iff.mpr hall, digits_repr]

/-- Digits are read past no blank and no sign. -/
theorem strtoll_digits {cs : List Char} (h : ∀ c ∈ cs, c.isDigit = true) (sign : Bool) :
    strtoll (.ofList (if sign then '-' :: cs else cs)) =
      max int64Min (min int64Max (if sign then -leadingDigits cs else leadingDigits cs)) := by
  unfold strtoll
  rw [String.toList_ofList]
  cases sign with
  | true =>
    have hs : isSpace '-'.toNat = false := by decide
    simp only [if_true, List.dropWhile_cons, hs, Bool.false_eq_true, if_false]
  | false =>
    cases cs with
    | nil => rfl
    | cons c cs =>
      have hc := h c List.mem_cons_self
      have hs : isSpace c.toNat = false := isSpace_of_isDigit ((isDigit_toNat c).trans hc)
      simp only [Bool.false_eq_true, if_false, List.dropWhile_cons, hs]
      split
      · rename_i he
        obtain rfl := (List.cons.inj he).1
        cases hc
      · rename_i he
        obtain rfl := (List.cons.inj he).1
        cases hc
      · rfl

/-- A number printed and read again. -/
theorem strtoll_toString {n : Int} (hmin : int64Min ≤ n) (hmax : n ≤ int64Max) :
    strtoll (toString n) = n := by
  have hd : ∀ m : Nat, ∀ c ∈ (Nat.repr m).toList, c.isDigit = true := fun m c => isDigit_repr
  rw [show toString n = n.repr from rfl, Int.repr_eq_if]
  split
  · have h := strtoll_digits (hd n.toNat) false
    simp only [Bool.false_eq_true, if_false, String.ofList_toList, leadingDigits_repr] at h
    rw [h]
    omega
  · have h := strtoll_digits (hd (-n).toNat) true
    simp only [if_true, leadingDigits_repr] at h
    have hs : "-" ++ (-n).toNat.repr = String.ofList ('-' :: (-n).toNat.repr.toList) := by
      rw [← String.toList_inj, String.toList_append]
      simp only [String.toList_ofList, String.reduceToList, List.singleton_append]
    rw [hs, h]
    omega

theorem strtoll_mem (s : String) : int64Min ≤ strtoll s ∧ strtoll s ≤ int64Max := by
  have h : int64Min ≤ int64Max := by decide
  unfold strtoll
  exact ⟨le_max_left _ _, max_le h (min_le_left _ _)⟩

/-- enil_json_coerce_int64: a number or a numeric string, and 0 for the rest. -/
def coerceInt64 : Option Json → Int
  | some (num q) => truncate q
  | some (str s) => strtoll s
  | _ => 0

/-- The double next to an integer, ties to even. -/
def toDouble (n : Int) : Rat :=
  let a := n.natAbs
  if a ≤ 2 ^ 53 then n
  else
    let e := Nat.log2 a - 52
    let q := a / 2 ^ e
    let r := a % 2 ^ e
    let q' := if 2 ^ e < 2 * r ∨ (2 ^ e = 2 * r ∧ q % 2 = 1) then q + 1 else q
    n.sign * (q' * 2 ^ e : Nat)

theorem toDouble_of_le {n : Int} (h : n.natAbs ≤ 2 ^ 53) : toDouble n = n := by
  simp only [toDouble, if_pos h]

/-! ## Fields of a struct -/

def dupStringOpt (j : Json) (key : String) : Option String :=
  (j.getObjectItemCaseSensitive key).bind getStringValue

/-- enil_json_get_int; 0 is the value the struct holds before the call. -/
def getInt (j : Json) (key : String) : Int :=
  (((j.getObjectItemCaseSensitive key).bind getNumberValue).map truncate).getD 0

def getBool (j : Json) (key : String) : Bool :=
  ((j.getObjectItemCaseSensitive key).bind getBoolValue).getD false

def getInt64 (j : Json) (key : String) : Int :=
  coerceInt64 (j.getObjectItemCaseSensitive key)

end Json

/-! ## Text -/

/-- The external cJSON_Parse and cJSON_PrintUnformatted. -/
structure Cjson where
  parse : String → Option Json
  print : Json → String

/-- What was printed parses to the value again. -/
def Cjson.ReadsBack (cj : Cjson) (j : Json) : Prop := cj.parse (cj.print j) = some j

theorem Cjson.print_eq_iff {cj : Cjson} {a b : Json} (ha : cj.ReadsBack a) (hb : cj.ReadsBack b) :
    cj.print a = cj.print b ↔ a = b := by
  constructor
  · intro h
    have hab : some a = some b := by rw [← ha, ← hb, h]
    exact Option.some.inj hab
  · intro h
    rw [h]

namespace Json

def escape (c : Char) : String :=
  if c == '\n' then "\\n"
  else if c == '\t' then "\\t"
  else if c == '\r' then "\\r"
  else if c == '\\' || c.toNat == 34 then "\\" ++ c.toString
  else c.toString

def quote (s : String) : String := "\"" ++ String.join (s.toList.map escape) ++ "\""

mutual

/-- cJSON_PrintUnformatted on integers and on texts without further control characters. -/
def printUnformatted : Json → String
  | null => "null"
  | bool b => toString b
  | num q => toString q.num
  | str s => quote s
  | arr xs => "[" ++ String.intercalate "," (printElements xs) ++ "]"
  | obj fs => "\x7b" ++ String.intercalate "," (printItems fs) ++ "\x7d"

def printElements : List Json → List String
  | [] => []
  | x :: xs => printUnformatted x :: printElements xs

def printItems : List (String × Json) → List String
  | [] => []
  | (key, x) :: fs => (quote key ++ ":" ++ printUnformatted x) :: printItems fs

end

end Json

/-- cJSON on the texts of these values. -/
def textsOf (values : List Json) : Cjson where
  parse s := values.find? fun j => j.printUnformatted == s
  print := Json.printUnformatted

theorem readsBack_textsOf {values : List Json} (h : (values.map Json.printUnformatted).Nodup)
    {j : Json} (hj : j ∈ values) : (textsOf values).ReadsBack j := by
  show (values.find? fun i => i.printUnformatted == j.printUnformatted) = some j
  induction values with
  | nil => cases hj
  | cons i values ih =>
    rw [List.map_cons, List.nodup_cons] at h
    rw [List.find?_cons]
    rcases List.mem_cons.mp hj with rfl | hmem
    · rw [beq_self_eq_true]
    · have hne : (i.printUnformatted == j.printUnformatted) = false := by
        rw [beq_eq_false_iff_ne]
        intro heq
        exact h.1 (heq ▸ List.mem_map_of_mem hmem)
      rw [hne]
      exact ih h.2 hmem

end Enil
