import Enil.Json.Basic
import Enil.Json.Utf8

/-!
# The schema and the items of Compact Thrift

A schema names structs and the fields of each; a type is a name, or a kind with the types in
it. What is read are cJSON items whose strings are bytes.
-/

namespace Enil.Thrift

inductive Item where
  | null
  | bool (b : Bool)
  | num (q : Rat)
  | str (s : List UInt8)
  | arr (items : List Item)
  | obj (items : List (List UInt8 × Item))

/-- cJSON_AddItemToObject on an object. -/
def Item.addToObject : Item → List UInt8 → Item → Item
  | obj fs, key, v => obj (fs ++ [(key, v)])
  | o, _, _ => o

/-- cJSON_AddItemToArray on an array. -/
def Item.addToArray : Item → Item → Item
  | arr xs, v => arr (xs ++ [v])
  | o, _ => o

/-- `"i32"`, `"Contact"`, or `["list", "i32"]`. -/
inductive FieldType where
  | name (s : String)
  | of (kind : String) (args : List FieldType)

structure Field where
  id : Int
  name : String
  type : FieldType

abbrev Schema := List (String × List Field)

def jsonString : Option FieldType → String
  | some (.name s) => s
  | _ => ""

def schemaKind : Option FieldType → String
  | some (.name s) => s
  | some (.of kind _) => kind
  | none => ""

def schemaFields (schema : Schema) (t : Option FieldType) : Option (List Field) :=
  schema.lookup (jsonString t)

/-- array_item on a type; the kind is at 0. -/
def arrayItem (t : Option FieldType) (i : Nat) : Option FieldType :=
  match t with
  | some (.of _ args) => args[i - 1]?
  | _ => none

def compactType (t : Option FieldType) : Nat :=
  let s := schemaKind t
  if s = "bool" then 1
  else if s = "byte" then 3
  else if s = "i16" then 4
  else if s = "i32" then 5
  else if s = "i64" then 6
  else if s = "double" then 7
  else if s = "string" ∨ s = "binary" then 8
  else if s = "list" then 9
  else if s = "set" then 10
  else if s = "map" then 11
  else 12

/-- No type has the code of the other bool. -/
theorem compactType_range (t : Option FieldType) :
    0 < compactType t ∧ compactType t < 13 ∧ compactType t ≠ 2 := by
  unfold compactType
  dsimp only
  repeat' split
  all_goals decide

def maxWireSize : Nat := 8 * 1024 * 1024

/-! ## Keys -/

def lowerByte (c : UInt8) : UInt8 := if 65 ≤ c ∧ c ≤ 90 then c + 32 else c

/-- cJSON_HasObjectItem. -/
def hasObjectItem (fs : List (List UInt8 × Item)) (key : List UInt8) : Bool :=
  fs.any fun f => f.1.map lowerByte == key.map lowerByte

/-- To the next whole number, and to the even one where two are as near. -/
def roundHalfEven (q : Rat) : Int :=
  let d := q - q.floor
  if d < 1 / 2 ∨ (d = 1 / 2 ∧ q.floor % 2 = 0) then q.floor else q.floor + 1

/-- `%.0f`. -/
def formatFixed (q : Rat) : String :=
  let n := roundHalfEven q
  if n = 0 ∧ q < 0 then "-0" else toString n

/-- The key of a map an item makes: text, or a number in a buffer of 40 bytes. -/
def keyText : Item → Option (List UInt8)
  | .str s => some s
  | .num q => some ((utf8 (formatFixed q)).take 39)
  | _ => none

end Enil.Thrift
