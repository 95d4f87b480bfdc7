import Enil.Json.B64
import Enil.Lib.Rereads
import Enil.Thrift.Basic

/-!
# Writing Compact Thrift

`enil_thrift_encode` and what it calls: a JSON value is written by the fields of the schema,
and what does not fit them, or the buffer, is refused.
-/

namespace Enil.Thrift

open Lib

def appendBytes (s : List UInt8) : Writing := .append maxWireSize s

def writeByte (c : Nat) : Writing := appendBytes [UInt8.ofNat c]

/-- The turns of write_varint; a number of 64 bits takes ten at most. -/
def varintBytes : Nat → Nat → Writing
  | 0, _ => .refuse
  | k + 1, n =>
    writeByte (n % 128 + if n / 128 ≠ 0 then 128 else 0) >=>
      if n / 128 ≠ 0 then varintBytes k (n / 128) else some

def writeVarint (n : Nat) : Writing := varintBytes 10 n

def zigzagEncode (n : Int) : Nat := if 0 ≤ n then (2 * n).toNat else (-2 * n - 1).toNat

/-! ## Integers in JSON -/

/-- Whether there is a minus, and what follows the sign. -/
def sign (cs : List UInt8) : Bool × List UInt8 :=
  if cs.head? = some 45 then (true, cs.tail)
  else if cs.head? = some 43 then (false, cs.tail)
  else (false, cs)

/-- The number of a sign and digits. -/
def signed (p : Bool × List UInt8) : Int :=
  let n := digits (p.2.map UInt8.toNat)
  if p.1 then -(n : Int) else n

/-- Past the blanks. -/
def unblank (s : List UInt8) : Bool × List UInt8 := sign (s.dropWhile fun c => isSpace c.toNat)

/-- strtoll where it takes the whole text and the number has 64 bits. -/
def strtoll (s : List UInt8) : Option Int :=
  if (unblank s).2 ≠ [] ∧ ((unblank s).2.all fun c => isDigit c.toNat) ∧ -2 ^ 63 ≤ signed (unblank s) ∧
    signed (unblank s) ≤ 2 ^ 63 - 1 then some (signed (unblank s))
  else none

/-- A string of cJSON ends at a zero. -/
def cText (s : List UInt8) : List UInt8 := s.takeWhile (· ≠ 0)

def jsonInteger : Item → Option Int
  | .str s => strtoll (cText s)
  | .num q => if -9007199254740991 ≤ q ∧ q ≤ 9007199254740991 ∧ q.isInt then some q.num else none
  | _ => none

/-- The range of an integer of this type; the type i64 has that of its number. -/
def inRange (code : Nat) (n : Int) : Bool :=
  if code = 3 then -128 ≤ n && n ≤ 127
  else if code = 4 then -32768 ≤ n && n ≤ 32767
  else if code = 5 then -2147483648 ≤ n && n ≤ 2147483647
  else true

/-! ## Structs -/

abbrev WriteValue := Option FieldType → Item → Nat → Writing

def Item.isNull : Item → Bool
  | null => true
  | _ => false

/-- What a struct has for a field: in an array by its index, in an object by its name. -/
def fieldValue (v : Item) (f : Field) (index : Nat) : Option Item :=
  match v with
  | .arr xs => xs[index]?
  | .obj items => (items.find? fun e => e.1 == utf8 f.name).map Prod.snd
  | _ => none

/-- The type code in the header of a field; that of a bool is its value. -/
def headerCode (t : FieldType) (x : Item) : Option Nat :=
  if compactType (some t) = 1 then
    match x with
    | .bool b => some (if b then 1 else 2)
    | _ => none
  else some (compactType (some t))

/-- The header of a field: the delta, or the id behind it. -/
def writeHeader (code : Nat) (last id : Int) : Writing :=
  if 0 < id - last ∧ id - last < 16 then writeByte (16 * (id - last).toNat + code)
  else writeByte code >=> writeVarint (zigzagEncode id)

/-- The loop of write_struct; a field that is absent or null is left out. -/
def writeFields (value : WriteValue) (depth : Nat) (v : Item) : List Field → Int → Nat → Writing
  | [], _, _ => writeByte 0
  | f :: fs, last, index =>
    match (fieldValue v f index).filter (!·.isNull) with
    | none => writeFields value depth v fs last (index + 1)
    | some x =>
      match headerCode f.type x with
      | none => .refuse
      | some code =>
        writeHeader code last f.id >=>
          (if 2 < code then value (some f.type) x (depth + 1) else some) >=>
          writeFields value depth v fs f.id (index + 1)

/-- write_struct, where `value` writes the values. -/
def writeStruct (value : WriteValue) (fs : Option (List Field)) (v : Item) (depth : Nat) :
    Writing :=
  if 40 < depth then .refuse
  else
    match fs, v with
    | some fs, .obj _ | some fs, .arr _ => writeFields value depth v fs 0 0
    | _, _ => .refuse

/-! ## Values -/

/-- What an encoder is given: the schema, the bits of a double, and OpenSSL. -/
structure Source where
  schema : Schema
  bits : Rat → UInt64
  evp : Evp

section

variable (w : Source)

/-- The lowest `k` bytes, the lowest first. -/
def littleBytes : Nat → Nat → List UInt8
  | 0, _ => []
  | k + 1, n => UInt8.ofNat (n % 256) :: littleBytes k (n / 256)

/-- The types 3 to 6. -/
def writeInteger (code : Nat) (v : Item) : Writing :=
  match jsonInteger v with
  | none => .refuse
  | some n =>
    if !inRange code n then .refuse
    else if code = 3 then writeByte (n % 256).toNat
    else writeVarint (zigzagEncode n)

/-- enil_b64_decode_alloc on the bytes of a string. -/
def decodeBinary (s : List UInt8) : Option (List UInt8) :=
  b64DecodeAlloc w.evp (String.ofList (s.map fun c => Char.ofNat c.toNat))

/-- The type 8. -/
def writeBytes (t : Option FieldType) (v : Item) : Writing :=
  match v with
  | .str s =>
    if schemaKind t ≠ "binary" then writeVarint (cText s).length >=> appendBytes (cText s)
    else
      match decodeBinary w (cText s) with
      | none => .refuse
      | some bs => writeVarint bs.length >=> appendBytes bs
  | _ => .refuse

/-- The number of elements of a list, and their type. -/
def writeListHead (n type : Nat) : Writing :=
  writeByte (16 * min n 15 + type) >=> if 15 ≤ n then writeVarint n else some

/-- The types 9 and 10. -/
def writeList (value : WriteValue) (t : Option FieldType) (v : Item) (depth : Nat) : Writing :=
  match v with
  | .arr xs =>
    writeListHead xs.length (compactType (arrayItem t 1)) >=>
      Writing.all (fun x => value (arrayItem t 1) x (depth + 1)) xs
  | _ => .refuse

/-- The number of entries of a map, and the types of keys and values where there are any. -/
def writeMapHead (n key type : Nat) : Writing :=
  writeVarint n >=> if n ≠ 0 then writeByte (16 * key + type) else some

/-- The key and the value of an entry. -/
def writeEntry (value : WriteValue) (t : Option FieldType) (depth : Nat)
    (e : List UInt8 × Item) : Writing :=
  value (arrayItem t 1) (.str e.1) (depth + 1) >=> value (arrayItem t 2) e.2 (depth + 1)

/-- The type 11. -/
def writeMap (value : WriteValue) (t : Option FieldType) (v : Item) (depth : Nat) : Writing :=
  match v with
  | .obj items =>
    writeMapHead items.length (compactType (arrayItem t 1)) (compactType (arrayItem t 2)) >=>
      Writing.all (writeEntry value t depth) items
  | _ => .refuse

/-- write_value; the first argument bounds the calls in each other. -/
def writeValue : Nat → WriteValue
  | 0, _, _, _ => .refuse
  | fuel + 1, t, v, depth =>
    if 40 < depth then .refuse
    else if compactType t = 1 then
      match v with
      | .bool b => writeByte (if b then 1 else 2)
      | _ => .refuse
    else if 3 ≤ compactType t ∧ compactType t ≤ 6 then writeInteger (compactType t) v
    else if compactType t = 7 then
      match v with
      | .num q => appendBytes (littleBytes 8 (w.bits q).toNat)
      | _ => .refuse
    else if compactType t = 8 then writeBytes w t v
    else if compactType t = 9 ∨ compactType t = 10 then writeList (writeValue fuel) t v depth
    else if compactType t = 11 then writeMap (writeValue fuel) t v depth
    else writeStruct (writeValue fuel) (schemaFields w.schema t) v (depth + 1)

/-- A message: its header with the type of it, the name of the method, and its struct. -/
def writeMessage (type : Nat) (method : String) (fs : List Field) (v : Item) : Writing :=
  writeByte 0x82 >=> writeByte (32 * type + 1) >=> writeVarint 0 >=>
    writeVarint (utf8 method).length >=> appendBytes (utf8 method) >=>
    writeStruct (writeValue w 42) (some fs) v 0

/-- enil_thrift_encode: a call has the type 1. -/
def enilThriftEncode (method : String) (args : Item) : Option (List UInt8) :=
  match w.schema.find? fun e => utf8 e.1 == (utf8 method ++ utf8 "_args").take 159 with
  | none => none
  | some e => writeMessage w 1 method e.2 args []

end

end Enil.Thrift
