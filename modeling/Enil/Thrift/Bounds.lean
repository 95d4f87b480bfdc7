import Enil.Thrift.Read

/-!
# What the decoder does with any bytes

Each function of the decoder is `Sound`: it stays inside of the buffer and stops, calls
nothing below the depth where it fails, the ids it takes from headers are those it checked,
and what it reads is of the type the schema has for it.
-/

namespace Enil.Thrift

open Lib Lib.Reading

/-- The id before the next header. -/
def lastId : List (Header × Int) → Int
  | [] => 0
  | (_, id) :: _ => id

/-- Each id is the one read_struct makes of the header, and passed the check. -/
def Ran : List (Header × Int) → Prop
  | [] => True
  | (h, id) :: hs => id = h.id (lastId hs) ∧ -32768 ≤ id ∧ id ≤ 32767 ∧ Ran hs

/-- The names of the ids, the first one first. -/
def namesOf (fs : Option (List Field)) (hs : List (Header × Int)) : List (List UInt8) :=
  (hs.map fun p => fieldName (findField fs p.2) p.2).reverse

/-- No call is below the depth that is refused; unless `bad` the ids were checked, and the
values put under their names. -/
def EventOk (bad : Bool) : Event → Prop
  | .call depth => depth ≤ 41
  | .fields fs hs keys => bad = false → Ran hs ∧ keys = namesOf fs hs

theorem eventOk_bad : ∀ e, EventOk false e → EventOk true e
  | .call _, h => h
  | .fields _ _ _, _ => fun h => nomatch h

/-! ## Types -/

/-- The names and values of the fields of a struct, each with its id. -/
def named (fs : Option (List Field)) (vs : List (Int × Item)) : List (List UInt8 × Item) :=
  vs.map fun v => (fieldName (findField fs v.1) v.1, v.2)

/-- `v` is an item that a value of the type `t` is read as. Of a type that is missing or
`_any` nothing is said; a field the schema does not have is of no type. -/
inductive HasType (schema : Schema) : Option FieldType → Item → Prop
  | unknown (v : Item) : HasType schema none v
  | any {t : Option FieldType} (h : schemaKind t = "_any") (v : Item) : HasType schema t v
  | bool {t : Option FieldType} (h : compactType t = 1) (b : Bool) : HasType schema t (.bool b)
  | integer {t : Option FieldType} (h : 3 ≤ compactType t ∧ compactType t ≤ 5) (n : Int) :
      HasType schema t (.num (Json.toDouble n))
  | long {t : Option FieldType} (h : compactType t = 6) (n : Int) :
      HasType schema t (.str (utf8 (toString n)))
  | double {t : Option FieldType} (h : compactType t = 7) (q : Rat) : HasType schema t (.num q)
  | text {t : Option FieldType} (h : compactType t = 8) (s : List UInt8) : HasType schema t (.str s)
  | list {t : Option FieldType} (h : compactType t = 9 ∨ compactType t = 10) (vs : List Item)
      (each : ∀ v ∈ vs, HasType schema (arrayItem t 1) v) : HasType schema t (.arr vs)
  | map {t : Option FieldType} (h : compactType t = 11) (es : List (List UInt8 × Item))
      (each : ∀ e ∈ es, HasType schema (arrayItem t 2) e.2) : HasType schema t (.obj es)
  | struct {t : Option FieldType} (h : compactType t = 12) (vs : List (Int × Item))
      (each : ∀ v ∈ vs,
        HasType schema ((findField (schemaFields schema t) v.1).map Field.type) v.2) :
      HasType schema t (.obj (named (schemaFields schema t) vs))

/-- The values of a struct are of the types of their fields. -/
def HasFields (schema : Schema) (fs : Option (List Field)) (o : Item) : Prop :=
  ∃ vs : List (Int × Item), o = .obj (named fs vs) ∧
    ∀ v ∈ vs, HasType schema ((findField fs v.1).map Field.type) v.2

/-- Where the code of a header may stand for the type, a value is read as the code says. -/
theorem HasType.of_admits {schema : Schema} {t : Option FieldType} {code : Nat} {v : Item}
    (h : admits t code = true)
    (hv : compactType t = code ∨ (compactType t = 1 ∧ code = 2) → HasType schema t v) :
    HasType schema t v := by
  simp only [admits, Bool.or_eq_true, Option.isNone_iff_eq_none, beq_iff_eq, Bool.and_eq_true] at h
  rcases h with ((rfl | hany) | hcode) | hbool
  · exact .unknown v
  · exact .any hany v
  · exact hv (.inl hcode.symm)
  · exact hv (.inr hbool)

/-- The elements a container has got so far. -/
def HasElements (schema : Schema) (t : Option FieldType) (code : Nat) (o : Item) : Prop :=
  if code = 11 then
    ∃ es : List (List UInt8 × Item), o = .obj es ∧ ∀ e ∈ es, HasType schema (arrayItem t 2) e.2
  else ∃ vs, o = .arr vs ∧ ∀ v ∈ vs, HasType schema (arrayItem t 1) v

section

variable {schema : Schema} {t : Option FieldType} {code : Nat}

theorem hasElements_nil :
    HasElements schema t code (if code = 11 then .obj [] else .arr []) := by
  unfold HasElements
  by_cases hmap : code = 11
  · rw [if_pos hmap, if_pos hmap]
    exact ⟨[], rfl, List.forall_mem_nil _⟩
  · rw [if_neg hmap, if_neg hmap]
    exact ⟨[], rfl, List.forall_mem_nil _⟩

theorem HasElements.addToObject {o v : Item} (h : HasElements schema t code o) (hmap : code = 11)
    (hv : HasType schema (arrayItem t 2) v) (key : List UInt8) :
    HasElements schema t code (o.addToObject key v) := by
  unfold HasElements at h ⊢
  rw [if_pos hmap] at h ⊢
  obtain ⟨es, rfl, hes⟩ := h
  refine ⟨es ++ [(key, v)], rfl, ?_⟩
  rw [List.forall_mem_append, List.forall_mem_singleton]
  exact ⟨hes, hv⟩

theorem HasElements.addToArray {o v : Item} (h : HasElements schema t code o) (hmap : code ≠ 11)
    (hv : HasType schema (arrayItem t 1) v) : HasElements schema t code (o.addToArray v) := by
  unfold HasElements at h ⊢
  rw [if_neg hmap] at h ⊢
  obtain ⟨vs, rfl, hvs⟩ := h
  refine ⟨vs ++ [v], rfl, ?_⟩
  rw [List.forall_mem_append, List.forall_mem_singleton]
  exact ⟨hvs, hv⟩

end

section

variable {I : Prop}

theorem sound_varintTurns (k n : Nat) : Sound EventOk I (varintTurns k n) fun _ => True := by
  induction k generalizing I n with
  | zero => exact sound_fail_then eventOk_bad (sound_pure fun _ => trivial)
  | succ k ih =>
    refine sound_readByte.bind eventOk_bad fun c => ?_
    refine sound_failIf.bind eventOk_bad fun _ => ?_
    exact .ite (fun _ => sound_pure fun _ => trivial) fun _ => ih _

theorem sound_readVarint : Sound EventOk I readVarint fun _ => True := sound_varintTurns 10 0

theorem sound_readInteger (code : Nat) : Sound EventOk I (readInteger code) fun v =>
    ∃ n : Int, v = if code = 6 then .str (utf8 (toString n)) else .num (Json.toDouble n) := by
  refine Sound.bind (P := fun _ => True) eventOk_bad
    (.ite (fun _ => sound_readByte.map eventOk_bad fun _ _ => trivial)
      fun _ => sound_readVarint.map eventOk_bad fun _ _ => trivial) fun n => ?_
  refine .ite (fun h => sound_pure fun _ => ⟨n, ?_⟩) fun h => sound_pure fun _ => ⟨n, ?_⟩
  · rw [if_pos h]
  · rw [if_neg h]

theorem sound_readBits (k bits : Nat) : Sound EventOk I (readBits k bits) fun _ => True := by
  induction k generalizing I bits with
  | zero => exact sound_pure fun _ => trivial
  | succ k ih => exact sound_readByte.bind eventOk_bad fun c => ih _

theorem sound_readBool (code : Nat) (field : Bool) :
    Sound EventOk I (readBool code field) fun v => ∃ b, v = .bool b := by
  refine Sound.bind (P := fun _ => True) eventOk_bad ?_ fun code =>
    sound_failIf.bind eventOk_bad fun _ => sound_pure fun _ => ⟨_, rfl⟩
  exact .ite (fun _ => sound_pure fun _ => trivial)
    fun _ => sound_readByte.mono id fun _ _ => trivial

variable (w : Wire)

theorem sound_readBytes (t : Option FieldType) :
    Sound EventOk I (readBytes w t) fun v => ∀ i, v = some i → ∃ s, i = .str s := by
  refine sound_readVarint.bind eventOk_bad fun n => ?_
  refine .ite (fun _ => sound_fail_then eventOk_bad (sound_pure False.elim)) fun _ => ?_
  refine sound_take.bind eventOk_bad fun s => ?_
  cases s with
  | none =>
    refine sound_pure fun _ i hi => ?_
    cases hi
  | some s =>
    refine .ite (fun _ => sound_pure fun _ i hi => ?_) fun _ => sound_pure fun _ i hi => ?_
    · exact ⟨_, (Option.some.inj hi).symm⟩
    · exact ⟨_, (Option.some.inj hi).symm⟩

/-! ## Structs -/

structure StructState.Keeps (schema : Schema) (fs : Option (List Field)) (s : StructState) :
    Prop where
  ran : Ran s.headers
  last : s.last = lastId s.headers
  keys : s.items.map Prod.fst = namesOf fs s.headers
  typed : HasFields schema fs (.obj s.items)

section

variable {schema : Schema} {value : ReadValue} {depth : Nat}
  (hvalue : ∀ (I : Prop) t code field, Sound EventOk I (value t code (depth + 1) field)
    fun v => ∀ i, v = some i → HasType schema t i)
include hvalue

theorem sound_structTurn (fs : Option (List Field)) (h : Nat) (s : StructState) :
    Sound EventOk (s.Keeps schema fs) (structTurn value fs depth h s) fun t =>
      t.state.Keeps schema fs := by
  refine Sound.bind (P := fun _ => True) eventOk_bad
    (.ite (fun _ => sound_pure fun _ => trivial) fun _ => sound_readVarint) fun n => ?_
  refine .ite (fun _ => sound_fail_then eventOk_bad (sound_pure False.elim)) fun hid => ?_
  refine (hvalue _ _ _ _).bind eventOk_bad fun v => ?_
  cases v with
  | none => exact sound_fail_then eventOk_bad (sound_pure False.elim)
  | some v =>
    refine .ite (fun _ => sound_fail_then eventOk_bad (sound_pure False.elim)) fun _ => ?_
    refine sound_pure ?_
    rintro ⟨⟨⟨hran, hlast, hkeys, vs, hvs, htyped⟩, -⟩, hv⟩
    refine ⟨⟨by rw [hlast], by omega, by omega, hran⟩, rfl, ?_,
      vs ++ [(Header.id ⟨h, n⟩ s.last, v)], ?_, ?_⟩
    · simp only [Turn.state, List.map_append, hkeys, namesOf, List.map_cons, List.reverse_cons]
      rfl
    · rw [Item.obj.injEq] at hvs
      simp only [Turn.state, hvs, named, List.map_append, List.map_cons, List.map_nil]
    · rw [List.forall_mem_append, List.forall_mem_singleton]
      exact ⟨htyped, hv v rfl⟩

omit hvalue in
theorem sound_readStruct (schema : Schema) (hvalue : depth ≤ 40 → ∀ (I : Prop) t code field,
    Sound EventOk I (value t code (depth + 1) field) fun v => ∀ i, v = some i → HasType schema t i)
    (hdepth : depth ≤ 41) (fs : Option (List Field)) :
    Sound EventOk I (readStruct value fs depth) (HasFields schema fs) := by
  refine Sound.bind eventOk_bad (sound_note hdepth fun _ => hdepth) fun _ => ?_
  refine .ite (fun _ => sound_fail_then eventOk_bad (sound_pure False.elim)) fun hcap => ?_
  have hloop := Sound.untilStop eventOk_bad (J := StructState.Keeps schema fs)
    (fun h s _ _ => sound_structTurn (hvalue (by omega)) fs h s) {}
  have hnone : ∀ v ∈ ([] : List (Int × Item)),
      HasType schema ((findField fs v.1).map Field.type) v.2 := List.forall_mem_nil _
  refine (hloop.mono (fun _ => ⟨trivial, rfl, rfl, [], rfl, hnone⟩) fun _ h => h).bind eventOk_bad
    fun s => ?_
  refine Sound.bind eventOk_bad
    (sound_note (fun h => nomatch h) fun h _ => ⟨h.2.ran, h.2.keys⟩) fun _ => ?_
  exact sound_pure fun h => h.1.2.typed

/-! ## Containers -/

theorem sound_containerTurn (t : Option FieldType) (code kt vt : Nat) (o : Item) :
    Sound EventOk (HasElements schema t code o) (containerTurn value t code kt vt depth o)
      fun u => HasElements schema t code u.state := by
  refine Sound.bind (P := fun _ => True) eventOk_bad
    (.ite (fun _ => (hvalue _ _ _ _).mono id fun _ _ => trivial)
      fun _ => sound_pure fun _ => trivial) fun k => ?_
  refine (hvalue _ _ _ _).bind eventOk_bad fun v => ?_
  cases v with
  | none => exact sound_fail_then eventOk_bad (sound_pure False.elim)
  | some v =>
    refine .ite (fun hmap => ?_) fun hmap => sound_pure fun h => ?_
    · cases k.bind keyText with
      | none => exact sound_fail_then eventOk_bad (sound_pure False.elim)
      | some key =>
        refine sound_pure fun h => h.1.1.addToObject hmap ?_ key
        have hv := h.2 v rfl
        rwa [if_pos hmap] at hv
    · refine h.1.1.addToArray hmap ?_
      have hv := h.2 v rfl
      rwa [if_neg hmap] at hv

theorem sound_readContainer (t : Option FieldType) (code : Nat) :
    Sound EventOk I (readContainer value t code depth) (HasElements schema t code) := by
  have hhead : Sound EventOk I (containerHead code) fun _ => True := by
    refine .ite (fun _ => sound_readVarint.bind eventOk_bad fun n => ?_)
      fun _ => sound_readByte.bind eventOk_bad fun vt => ?_
    · exact Sound.bind (P := fun _ => True) eventOk_bad
        (.ite (fun _ => sound_readByte.mono id fun _ _ => trivial)
          fun _ => sound_pure fun _ => trivial) fun _ => sound_pure fun _ => trivial
    · exact Sound.bind (P := fun _ => True) eventOk_bad
        (.ite (fun _ => sound_readVarint) fun _ => sound_pure fun _ => trivial)
        fun _ => sound_pure fun _ => trivial
  refine hhead.bind eventOk_bad fun ⟨n, kt, vt⟩ => ?_
  refine .ite (fun _ => sound_fail_then eventOk_bad (sound_pure False.elim)) fun _ => ?_
  have hnil := @hasElements_nil schema t code
  refine sound_fits.bind eventOk_bad fun b => .ite (fun _ => ?_) fun _ => sound_pure fun _ => hnil
  have hloop := Sound.times eventOk_bad (J := HasElements schema t code)
    (fun o => sound_containerTurn hvalue t code kt vt o) n (if code = 11 then .obj [] else .arr [])
  exact hloop.mono (fun _ => hnil) fun _ h => h

end

/-! ## Values -/

/-- What is read for a code that is admitted has the type. -/
theorem sound_admitted {schema : Schema} {t : Option FieldType} {code : Nat} {x : Read Item}
    {P : Item → Prop} (hadmits : admits t code = true) (hx : Sound EventOk I x P)
    (h : ∀ v, P v → compactType t = code ∨ (compactType t = 1 ∧ code = 2) →
      HasType schema t v) :
    Sound EventOk I (some <$> x) fun v => ∀ i, v = some i → HasType schema t i := by
  refine hx.map eventOk_bad fun v hv i hi => ?_
  rw [← Option.some.inj hi]
  exact .of_admits hadmits (h v hv)

/-- The calls in each other are counted from the depth 40 on. -/
theorem sound_readValue (fuel : Nat) (t : Option FieldType) (code depth : Nat) (field : Bool)
    (hfuel : 42 ≤ fuel + depth) (hdepth : depth ≤ 41) :
    Sound EventOk I (readValue w fuel t code depth field)
      fun v => ∀ i, v = some i → HasType w.schema t i := by
  induction fuel generalizing I t code depth field with
  | zero => omega
  | succ fuel ih =>
    have hrange := compactType_range t
    refine Sound.bind eventOk_bad (sound_note hdepth fun _ => hdepth) fun _ => ?_
    refine .ite (fun _ => sound_fail_then eventOk_bad (sound_pure False.elim)) fun _ => ?_
    refine .ite (fun _ => sound_fail_then eventOk_bad (sound_pure False.elim)) fun hadmits => ?_
    rw [Bool.not_eq_true', Bool.not_eq_false] at hadmits
    refine .ite (fun hcode => ?_) fun _ => .ite (fun hcode => ?_) fun _ =>
      .ite (fun hcode => ?_) fun _ => .ite (fun hcode => ?_) fun _ => .ite (fun hcode => ?_) fun _ =>
        .ite (fun hcode => ?_) fun _ => sound_fail_then eventOk_bad (sound_pure False.elim)
    · refine sound_admitted hadmits (sound_readBool _ _) ?_
      rintro _ ⟨b, rfl⟩ h
      exact .bool (by omega) b
    · refine sound_admitted hadmits (sound_readInteger _) ?_
      rintro _ ⟨n, rfl⟩ h
      by_cases hlong : code = 6
      · rw [if_pos hlong]
        exact .long (by omega) n
      · rw [if_neg hlong]
        exact .integer (by omega) n
    · refine (sound_readBits _ _).map eventOk_bad fun bits _ i hi => ?_
      rw [← Option.some.inj hi]
      exact .of_admits hadmits fun h => .double (by omega) _
    · refine (sound_readBytes w t).mono id fun v hv i hi => ?_
      obtain ⟨s, rfl⟩ := hv i hi
      exact .of_admits hadmits fun h => .text (by omega) s
    · refine sound_admitted hadmits (sound_readStruct w.schema (fun _ I t code field => ?_)
        (by omega) _) ?_
      · exact ih t code _ field (by omega) (by omega)
      · rintro _ ⟨vs, rfl, hvs⟩ h
        exact .struct (by omega) vs hvs
    · refine sound_admitted (P := HasElements w.schema t code) hadmits
        (sound_readContainer (fun I t code field => ?_) t code) ?_
      · exact ih t code _ field (by omega) (by omega)
      · intro o ho h
        unfold HasElements at ho
        by_cases hmap : code = 11
        · rw [if_pos hmap] at ho
          obtain ⟨es, rfl, hes⟩ := ho
          exact .map (by omega) es hes
        · rw [if_neg hmap] at ho
          obtain ⟨vs, rfl, hvs⟩ := ho
          exact .list (by omega) vs hvs

/-! ## Messages -/

/-- The fields of the struct of a reply: those of the result, or none where an exception may
be raised. -/
def replyFields (schema : Schema) (exception : Bool) (method : String) : Option (List Field) :=
  if exception then none else resultFields schema method

theorem sound_readMessage (exception : Bool) (method : String) :
    Sound EventOk I (readMessage w exception method) fun x =>
      ∀ o, x.1 = some o → HasFields w.schema (replyFields w.schema exception method) o := by
  have hnone (raised : Bool) (J : Prop) : Sound EventOk J (pure (none, raised)) fun x =>
      ∀ o, x.1 = some o → HasFields w.schema (replyFields w.schema exception method) o :=
    sound_pure fun _ _ ho => by cases ho
  refine sound_readByte.bind eventOk_bad fun c => ?_
  refine .ite (fun _ => hnone _ _) fun _ => ?_
  refine sound_readByte.bind eventOk_bad fun mt => ?_
  refine .ite (fun _ => hnone _ _) fun _ => ?_
  refine sound_readVarint.bind eventOk_bad fun seq => ?_
  refine .ite (fun _ => hnone _ _) fun _ => ?_
  refine sound_readVarint.bind eventOk_bad fun n => ?_
  refine .ite (fun _ => hnone _ _) fun _ => ?_
  refine sound_take.bind eventOk_bad fun name => ?_
  cases name with
  | none => exact hnone _ _
  | some name =>
    refine (sound_readStruct w.schema (fun _ I t code field => ?_) (Nat.zero_le _) _).bind
      eventOk_bad fun o => sound_pure fun h _ ho => ?_
    · exact sound_readValue w 42 t code 1 field (by omega) (by omega)
    · rw [← Option.some.inj ho]
      exact h.2

end

/-- What is left at the end of a reply: nothing, or one STOP. -/
def AtEnd (r : Cursor Event) : Prop :=
  r.pos = r.p.length ∨ (r.pos + 1 = r.p.length ∧ r.p[r.pos]? = some 0)

theorem redundantStop_eq (r : Cursor Event) :
    ∃ r', redundantStop r = some ((), r') ∧ r'.p = r.p ∧ r'.bad = r.bad ∧ r'.log = r.log ∧
      (r'.pos = r.p.length ↔ AtEnd r) := by
  unfold redundantStop AtEnd Cursor.left
  by_cases hone : r.pos + 1 = r.p.length
  · rw [if_pos (by omega)]
    obtain ⟨c, hc⟩ : ∃ c, r.p[r.pos]? = some c := ⟨_, List.getElem?_eq_getElem (by omega)⟩
    rw [hc]
    by_cases hstop : c = 0
    · refine ⟨{ r with pos := r.pos + 1 }, by simp only [hstop, if_true], rfl, rfl, rfl, ?_⟩
      exact ⟨fun _ => .inr ⟨hone, by rw [hstop]⟩, fun _ => hone⟩
    · refine ⟨r, by simp only [hstop, if_false], rfl, rfl, rfl, ?_⟩
      simp only [Option.some.injEq, hstop, and_false, or_false]
  · rw [if_neg (by omega)]
    refine ⟨r, rfl, rfl, rfl, rfl, ?_⟩
    simp only [hone, false_and, or_false]

/-- A reply is accepted with this item, `r` being where its struct ended. -/
structure Accepted (w : Wire) (method : String) (p : List UInt8) (o : Item) (raised : Bool)
    (r : Cursor Event) : Prop where
  size : p.length ≤ maxWireSize
  run : readMessage w w.strictStrings method { p := p } = some ((some o, raised), r)
  good : r.bad = false
  atEnd : AtEnd r

theorem Accepted.events {w : Wire} {method : String} {p : List UInt8} {o : Item} {raised : Bool}
    {r : Cursor Event} (h : Accepted w method p o raised r) : ∀ e ∈ r.log, EventOk false e := by
  obtain ⟨_, r', hrun, hm, -⟩ := sound_readMessage w (I := True) w.strictStrings method { p := p }
    (Nat.zero_le _) fun _ => trivial
  obtain rfl : r' = r := by
    have := hrun.symm.trans h.run
    simp only [Option.some.injEq, Prod.mk.injEq] at this
    exact this.2
  obtain ⟨new, hnew, hok⟩ := hm.log
  rw [hnew, List.nil_append]
  rwa [h.good] at hok

structure Decodes (w : Wire) (method : String) (p : List UInt8) (reply : Reply) : Prop where
  calls : ∀ depth, .call depth ∈ reply.log → depth ≤ 41
  item : ∀ o, reply.item = some o ↔ ∃ raised r, Accepted w method p o raised r
  log : ∀ o raised r, Accepted w method p o raised r → reply.log = r.log

/-- The decoder stops inside of the buffer, whatever is in it. -/
theorem decodeMessage_spec (schema : Schema) (double : Nat → Rat) (exception : Bool)
    (method : String) (p : List UInt8) :
    ∃ reply, decodeMessage schema double exception method (some p) = some reply ∧
      Decodes ⟨schema, double, exception⟩ method p reply := by
  by_cases hsize : maxWireSize < p.length
  · have hdecode : decodeMessage schema double exception method (some p) = some {} := if_pos hsize
    have hnone : ∀ o raised r, ¬ Accepted ⟨schema, double, exception⟩ method p o raised r :=
      fun _ _ _ h => absurd h.size (by omega)
    refine ⟨{}, hdecode, fun _ h => (nomatch h), fun o => ⟨fun h => (nomatch h), ?_⟩,
      fun o raised r h => absurd h (hnone o raised r)⟩
    rintro ⟨raised, r, h⟩
    exact absurd h (hnone o raised r)
  · obtain ⟨⟨o, raised⟩, r, hrun, hm, -⟩ :=
      sound_readMessage ⟨schema, double, exception⟩ (I := True) exception method { p := p }
        (Nat.zero_le _) fun _ => trivial
    obtain ⟨r', hstop, hp, hbad, hlog, hend⟩ := redundantStop_eq r
    have hdecode : decodeMessage schema double exception method (some p) =
        some ⟨if r'.bad ∨ r'.pos ≠ r'.p.length then none else o, raised, r'.log⟩ := by
      simp only [decodeMessage, hsize, if_false, StateT.run, hrun, hstop]
    obtain ⟨new, hnew, hok⟩ := hm.log
    have hsame : ∀ o' raised' r₁, Accepted ⟨schema, double, exception⟩ method p o' raised' r₁ →
        (o = some o' ∧ raised = raised') ∧ r = r₁ := by
      intro o' raised' r₁ h
      have := hrun.symm.trans h.run
      simpa using this
    refine ⟨_, hdecode, fun depth h => ?_, fun o' => ?_, fun o' raised' r₁ h => ?_⟩
    · rw [hlog, hnew, List.nil_append] at h
      exact hok _ h
    · simp only [hbad, hp]
      constructor
      · intro ho
        split at ho
        · cases ho
        · rename_i hgood
          rw [not_or, not_not, hend, Bool.not_eq_true] at hgood
          subst ho
          exact ⟨raised, r, ⟨by omega, hrun, hgood.1, hgood.2⟩⟩
      · rintro ⟨raised', r₁, h⟩
        obtain ⟨⟨rfl, rfl⟩, rfl⟩ := hsame _ _ _ h
        rw [if_neg]
        rw [not_or, not_not, hend, Bool.not_eq_true]
        exact ⟨h.good, h.atEnd⟩
    · rw [hlog, (hsame _ _ _ h).2]

/-- An accepted reply has an item and the events of an accepted run. -/
theorem events_of_decode {schema : Schema} {double : Nat → Rat} {exception : Bool}
    {method : String} {data : Option (List UInt8)} {reply : Reply}
    (h : decodeMessage schema double exception method data = some reply)
    (hsome : reply.item.isSome = true) : ∀ e ∈ reply.log, EventOk false e := by
  cases data with
  | none =>
    obtain rfl := Option.some.inj h
    cases hsome
  | some p =>
    obtain ⟨reply', hreply', hd⟩ := decodeMessage_spec schema double exception method p
    obtain rfl := Option.some.inj (h.symm.trans hreply')
    obtain ⟨o, ho⟩ := Option.isSome_iff_exists.mp hsome
    obtain ⟨raised, r, hacc⟩ := (hd.item o).mp ho
    rw [hd.log o raised r hacc]
    exact hacc.events

end Enil.Thrift
