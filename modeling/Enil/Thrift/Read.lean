import Enil.Lib.Base64
import Enil.Lib.Cursor
import Enil.Thrift.Basic

/-!
# Reading Compact Thrift

`enil_thrift_decode` and what it calls. The record of the cursor has the depth of each call
of `read_struct` and `read_value`, and the headers of each struct that was read.
-/

namespace Enil.Thrift

open Lib Lib.Reading

/-- The header of a field: its first byte, and the varint where that one has no delta. -/
structure Header where
  byte : Nat
  varint : Nat
  deriving DecidableEq

inductive Event where
  | call (depth : Nat)
  /-- A struct of the fields `fs`: its headers with the ids they gave, the last one first, and
  the keys under which the values were put. -/
  | fields (fs : Option (List Field)) (headers : List (Header × Int)) (keys : List (List UInt8))

abbrev Read := Reading Event

/-! ## Numbers -/

/-- The turns of read_varint, `k` of ten being left. -/
def varintTurns : Nat → Nat → Read Nat
  | 0, _ => do
    fail
    pure 0
  | k + 1, n => do
    let c ← readByte
    failIf (k = 0 ∧ 1 < c)
    let n := n ||| ((c % 128) <<< (7 * (9 - k))) % 2 ^ 64
    if c < 128 then pure n else varintTurns k n

def readVarint : Read Nat := varintTurns 10 0

def zigzagDecode (n : Nat) : Int := if n % 2 = 0 then (n / 2 : Nat) else -(n / 2 : Nat) - 1

/-- The id a header gives behind `last`; read_struct casts a long one to `int`. -/
def Header.id (h : Header) (last : Int) : Int :=
  if h.byte / 16 ≠ 0 then last + (h.byte / 16 : Nat)
  else Int.bmod (zigzagDecode h.varint) (2 ^ 32)

/-- What a decoder is given: the schema, the number of eight bytes, and whether a text
without a type may have a zero in it. -/
structure Wire where
  schema : Schema
  double : Nat → Rat
  strictStrings : Bool

section

variable (w : Wire)

/-- `(int8_t)`. -/
def toInt8 (c : Nat) : Int := Int.bmod c 256

/-- The types 3 to 6. -/
def readInteger (code : Nat) : Read Item := do
  let n ← (if code = 3 then toInt8 <$> readByte else zigzagDecode <$> readVarint)
  if code = 6 then pure (.str (utf8 (toString n)))
  else pure (.num (Json.toDouble n))

/-- Eight bytes, the lowest first; `k` are left. -/
def readBits : Nat → Nat → Read Nat
  | 0, bits => pure bits
  | k + 1, bits => do
    let c ← readByte
    readBits k (bits ||| c <<< (8 * (7 - k)))

def readBool (code : Nat) (field : Bool) : Read Item := do
  let code ← (if field then pure code else readByte)
  failIf (code ≠ 1 ∧ code ≠ 2)
  pure (.bool (code = 1))

/-- The type 8. -/
def readBytes (t : Option FieldType) : Read (Option Item) := do
  let n ← readVarint
  if maxWireSize < n then
    fail
    pure none
  else
    let binary := schemaKind t = "binary"
    let s ← take n fun s => binary || !((t.isSome || w.strictStrings) && s.contains 0)
    match s with
    | none => pure none
    | some s =>
      if binary then pure (some (.str (utf8 (String.ofList (Base64.encode s)))))
      else pure (some (.str (s.takeWhile (· ≠ 0))))

/-! ## Structs -/

structure StructState where
  last : Int := 0
  items : List (List UInt8 × Item) := []
  headers : List (Header × Int) := []

abbrev ReadValue := Option FieldType → Nat → Nat → Bool → Read (Option Item)

def findField (fs : Option (List Field)) (id : Int) : Option Field :=
  (fs.getD []).find? (·.id = id)

/-- The name of a field, or the decimal number of one the schema does not have. -/
def fieldName (f : Option Field) (id : Int) : List UInt8 :=
  match f with
  | some f => utf8 f.name
  | none => utf8 (toString id)

/-- The body of the loop of read_struct behind the byte `h`. -/
def structTurn (value : ReadValue) (fs : Option (List Field)) (depth : Nat) (h : Nat)
    (s : StructState) : Read (Turn StructState StructState) := do
  let n ← (if h / 16 ≠ 0 then pure 0 else readVarint)
  let id := (Header.mk h n).id s.last
  let s := { s with last := id, headers := (⟨h, n⟩, id) :: s.headers }
  if id < -32768 ∨ 32767 < id then
    fail
    pure (.leave s)
  else
    let f := findField fs id
    let v ← value (f.map Field.type) (h % 16) (depth + 1) true
    match v with
    | none =>
      fail
      pure (.leave s)
    | some v =>
      if hasObjectItem s.items (fieldName f id) then
        fail
        pure (.leave s)
      else pure (.again { s with items := s.items ++ [(fieldName f id, v)] })

/-- read_struct, where `value` reads the values. -/
def readStruct (value : ReadValue) (fs : Option (List Field)) (depth : Nat) : Read Item := do
  note (.call depth)
  if 40 < depth then
    fail
    pure (.obj [])
  else
    let s ← untilStop (structTurn value fs depth) {}
    note (.fields fs s.headers (s.items.map Prod.fst))
    pure (.obj s.items)

/-! ## Lists, sets and maps -/

/-- The number of elements and the types of keys and values. -/
def containerHead (code : Nat) : Read (Nat × Nat × Nat) := do
  if code = 11 then
    let n ← readVarint
    let vt ← (if n ≠ 0 then readByte else pure 0)
    pure (n, vt / 16, vt % 16)
  else
    let vt ← readByte
    let n ← (if vt / 16 = 15 then readVarint else pure (vt / 16))
    pure (n, 0, vt % 16)

/-- The body of the loop over the elements. -/
def containerTurn (value : ReadValue) (t : Option FieldType) (code kt vt depth : Nat) (o : Item) :
    Read (Turn Item Item) := do
  let k ← (if code = 11 then value (arrayItem t 1) kt (depth + 1) false else pure none)
  let v ← value (arrayItem t (if code = 11 then 2 else 1)) vt (depth + 1) false
  match v with
  | none =>
    fail
    pure (.leave o)
  | some v =>
    if code = 11 then
      match k.bind keyText with
      | none =>
        fail
        pure (.leave o)
      | some key => pure (.again (o.addToObject key v))
    else pure (.again (o.addToArray v))

/-- The types 9 to 11. -/
def readContainer (value : ReadValue) (t : Option FieldType) (code depth : Nat) : Read Item := do
  let (n, kt, vt) ← containerHead code
  let o := if code = 11 then Item.obj [] else Item.arr []
  if 100000 < n then
    fail
    pure o
  else if ← fits n then times (containerTurn value t code kt vt depth) n o
  else pure o

/-! ## Values and messages -/

/-- Whether a value of this type code may stand where the schema has `t`. -/
def admits (t : Option FieldType) (code : Nat) : Bool :=
  t.isNone || schemaKind t == "_any" || code == compactType t ||
    (compactType t == 1 && code == 2)

/-- read_value; the first argument bounds the calls in each other. -/
def readValue : Nat → ReadValue
  | 0, _, _, _, _ => stuck
  | fuel + 1, t, code, depth, field => do
    note (.call depth)
    if 40 < depth then
      fail
      pure none
    else if !admits t code then
      fail
      pure none
    else if code = 1 ∨ code = 2 then some <$> readBool code field
    else if 3 ≤ code ∧ code ≤ 6 then some <$> readInteger code
    else if code = 7 then (fun bits => some (.num (w.double bits))) <$> readBits 8 0
    else if code = 8 then readBytes w t
    else if code = 12 then
      some <$> readStruct (readValue fuel) (schemaFields w.schema t) (depth + 1)
    else if 9 ≤ code ∧ code ≤ 11 then some <$> readContainer (readValue fuel) t code depth
    else
      fail
      pure none

/-- The fields of `<method>_result`, whose name is written into 160 bytes. -/
def resultFields (schema : Schema) (method : String) : Option (List Field) :=
  (schema.find? fun e => utf8 e.1 == (utf8 method ++ utf8 "_result").take 159).map Prod.snd

/-- decode_message up to the end of the struct; the flag is what goes to `exception`, where
the caller takes one. -/
def readMessage (exception : Bool) (method : String) : Read (Option Item × Bool) := do
  let c ← readByte
  if c ≠ 0x82 then pure (none, false)
  else
    let mt ← readByte
    if mt % 32 ≠ 1 ∨ (mt / 32 ≠ 2 ∧ ¬ (exception ∧ mt / 32 = 3)) then pure (none, false)
    else
      let raised := exception && mt / 32 == 3
      let seq ← readVarint
      if seq ≠ 0 then pure (none, raised)
      else
        let n ← readVarint
        if n ≠ (utf8 method).length then pure (none, raised)
        else
          let name ← take n (· == utf8 method)
          match name with
          | none => pure (none, raised)
          | some _ =>
            let fs := if exception then none else resultFields w.schema method
            let o ← readStruct (readValue w 42) fs 0
            pure (some o, raised)

/-- Some servers append one redundant STOP. -/
def redundantStop : Read Unit := fun r =>
  if r.pos < r.p.length ∧ r.left = 1 then
    match r.p[r.pos]? with
    | none => none
    | some c => some ((), if c = 0 then { r with pos := r.pos + 1 } else r)
  else some ((), r)

end

/-- What comes of a reply: its item, the flag of an exception, and the record. -/
structure Reply where
  item : Option Item := none
  exception : Bool := false
  log : List Event := []

/-- decode_message; `none` where it leaves the buffer or does not end. -/
def decodeMessage (schema : Schema) (double : Nat → Rat) (exception : Bool) (method : String)
    (data : Option (List UInt8)) : Option Reply :=
  match data with
  | none => some {}
  | some p =>
    if maxWireSize < p.length then some {}
    else
      match (readMessage ⟨schema, double, exception⟩ exception method).run { p := p } with
      | none => none
      | some ((o, raised), r) =>
        match redundantStop.run r with
        | none => none
        | some ((), r) =>
          some ⟨if r.bad ∨ r.pos ≠ r.p.length then none else o, raised, r.log⟩

def enilThriftDecode (schema : Schema) (double : Nat → Rat) := decodeMessage schema double false

def enilThriftDecodeRaw (schema : Schema) (double : Nat → Rat) := decodeMessage schema double true

end Enil.Thrift
