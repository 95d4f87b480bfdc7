import Enil.Thrift.RoundTrip

/-!
# Truncated and hostile replies

The decoder ends for any bytes, touches none behind them and calls nothing below the depth
it refuses. The values of a reply it accepts are of the types of their fields, and it accepts
no part of the reply from the front, but for the one without a redundant STOP.
-/

namespace Enil.Thrift

open Lib Lib.Reading

section

variable (schema : Schema) (double : Nat → Rat) (exception : Bool) (method : String)

def Accepts (p : List UInt8) : Prop :=
  ∃ reply, decodeMessage schema double exception method (some p) = some reply ∧
    reply.item.isSome = true

variable {schema double exception method}

theorem accepted_of_item {p : List UInt8} {reply : Reply} {o : Item}
    (hreply : decodeMessage schema double exception method (some p) = some reply)
    (ho : reply.item = some o) :
    ∃ raised r, Accepted ⟨schema, double, exception⟩ method p o raised r := by
  obtain ⟨reply', hreply', hd⟩ := decodeMessage_spec schema double exception method p
  obtain rfl := Option.some.inj (hreply.symm.trans hreply')
  exact (hd.item o).mp ho

theorem accepts_iff {p : List UInt8} : Accepts schema double exception method p ↔
    ∃ o raised r, Accepted ⟨schema, double, exception⟩ method p o raised r := by
  obtain ⟨reply, hreply, hd⟩ := decodeMessage_spec schema double exception method p
  constructor
  · rintro ⟨reply', hreply', hsome⟩
    obtain ⟨o, ho⟩ := Option.isSome_iff_exists.mp hsome
    exact ⟨o, accepted_of_item hreply' ho⟩
  · rintro ⟨o, h⟩
    exact ⟨reply, hreply, by rw [(hd.item o).mpr h]; rfl⟩

theorem Accepted.typed {w : Wire} {p : List UInt8} {o : Item} {raised : Bool} {r : Cursor Event}
    (h : Accepted w method p o raised r) :
    HasFields w.schema (replyFields w.schema w.strictStrings method) o := by
  obtain ⟨_, r', hrun, -, hgood⟩ := sound_readMessage w (I := True) w.strictStrings method
    { p := p } (Nat.zero_le _) fun _ => trivial
  obtain ⟨rfl, rfl⟩ := Prod.mk.inj (Option.some.inj (hrun.symm.trans h.run))
  exact (hgood h.good).1 o rfl

/-- What follows an accepted reply is the end or one STOP, and changes nothing. -/
theorem Accepted.rest {w : Wire} {p e : List UInt8} {o o' : Item} {raised raised' : Bool}
    {r r' : Cursor Event} (h : Accepted w method p o raised r)
    (h' : Accepted w method (p ++ e) o' raised' r') : (e = [] ∨ e = [0]) ∧ o = o' := by
  obtain ⟨_, r₁, hrun, hm, hgood⟩ := sound_readMessage w (I := True) w.strictStrings method
    { p := p } (Nat.zero_le _) fun _ => trivial
  obtain ⟨rfl, rfl⟩ := Prod.mk.inj (Option.some.inj (hrun.symm.trans h.run))
  -- the longer buffer is read up to the same place
  obtain ⟨-, hstable⟩ := hgood h.good
  obtain ⟨hitem, rfl⟩ := Prod.mk.inj (Option.some.inj ((hstable e).symm.trans h'.run))
  refine ⟨?_, Option.some.inj (Prod.mk.inj hitem).1⟩
  have hp : r₁.p = p := hm.buffer
  have hend := h.atEnd
  have hend' := h'.atEnd
  simp only [AtEnd, Cursor.extend, hp, List.length_append] at hend hend'
  rcases hend' with hlen | ⟨hlen, hstop⟩
  · exact .inl (List.length_eq_zero_iff.mp (by omega))
  · by_cases he : e = []
    · exact .inl he
    · have := List.length_pos_iff.mpr he
      obtain ⟨c, rfl⟩ := List.length_eq_one_iff.mp (show e.length = 1 by omega)
      rw [List.getElem?_append_right (by omega), show r₁.pos - p.length = 0 by omega] at hstop
      obtain rfl := Option.some.inj hstop
      exact .inr rfl

end

/-! ## The depth that is refused -/

theorem readStruct_refused (value : ReadValue) (fs : Option (List Field)) {depth : Nat}
    (h : 40 < depth) (r : Cursor Event) : readStruct value fs depth r =
      some (.obj [], { r with bad := true, log := r.log ++ [.call depth] }) := by
  unfold readStruct
  rw [if_pos h]
  rfl

theorem readValue_refused (w : Wire) (fuel : Nat) (t : Option FieldType) (code : Nat)
    (field : Bool) {depth : Nat} (h : 40 < depth) (r : Cursor Event) :
    readValue w (fuel + 1) t code depth field r =
      some (none, { r with bad := true, log := r.log ++ [.call depth] }) := by
  unfold readValue
  rw [if_pos h]
  rfl

/-! ## Any bytes -/

/-- What the decoder does with any reply to a method. -/
structure Withstands (schema : Schema) (double : Nat → Rat) (exception : Bool) (method : String) :
    Prop where
  ends : ∀ data, ∃ reply, decodeMessage schema double exception method data = some reply ∧
    ∀ depth, .call depth ∈ reply.log → depth ≤ 41
  refused : ∀ depth, 40 < depth → ∀ r,
    (∀ value fs, readStruct value fs depth r =
      some (.obj [], { r with bad := true, log := r.log ++ [.call depth] })) ∧
    ∀ w fuel t code field, readValue w (fuel + 1) t code depth field r =
      some (none, { r with bad := true, log := r.log ++ [.call depth] })
  named : ∀ data reply, decodeMessage schema double exception method data = some reply →
    reply.item.isSome = true → ∀ fs hs keys, .fields fs hs keys ∈ reply.log →
      keys = namesOf fs hs
  /-- Known fields are checked against the schema; an unknown one has a number for its name. -/
  typed : ∀ data reply o, decodeMessage schema double exception method data = some reply →
    reply.item = some o → HasFields schema (replyFields schema exception method) o
  prefixes : ∀ p q, Accepts schema double exception method q → p <+: q →
    Accepts schema double exception method p → p = q ∨ p ++ [0] = q
  same : ∀ p q a b o o', decodeMessage schema double exception method (some p) = some a →
    decodeMessage schema double exception method (some q) = some b → p <+: q →
      a.item = some o → b.item = some o' → o = o'

/-- Any reply to a method of any schema is read inside of its bytes and to an end, calls stop
at the depth cap, and no reply is accepted that was cut, but for a redundant STOP. -/
theorem decodeMessage_withstands (schema : Schema) (double : Nat → Rat) (exception : Bool)
    (method : String) : Withstands schema double exception method where
  ends data := by
    cases data with
    | none => exact ⟨{}, rfl, fun depth h => nomatch h⟩
    | some p =>
      obtain ⟨reply, hreply, hd⟩ := decodeMessage_spec schema double exception method p
      exact ⟨reply, hreply, hd.calls⟩
  refused depth h r :=
    ⟨fun value fs => readStruct_refused value fs h r,
      fun w fuel t code field => readValue_refused w fuel t code field h r⟩
  named _ _ hreply hsome _ _ _ hkeys := (events_of_decode hreply hsome _ hkeys rfl).2
  typed data reply o hreply ho := by
    cases data with
    | none =>
      obtain rfl := Option.some.inj hreply
      cases ho
    | some p =>
      obtain ⟨raised, r, hacc⟩ := accepted_of_item hreply ho
      exact hacc.typed
  same p q a b o o' ha hb hpq ho ho' := by
    obtain ⟨e, rfl⟩ := hpq
    obtain ⟨_, _, hacc⟩ := accepted_of_item ha ho
    obtain ⟨_, _, hacc'⟩ := accepted_of_item hb ho'
    exact (hacc.rest hacc').2
  prefixes p q hq hpq hp := by
    obtain ⟨e, rfl⟩ := hpq
    obtain ⟨o, raised, r, hacc⟩ := accepts_iff.mp hp
    obtain ⟨o', raised', r', hacc'⟩ := accepts_iff.mp hq
    rcases (hacc.rest hacc').1 with rfl | rfl
    · exact .inl (List.append_nil p).symm
    · exact .inr rfl

/-- The reply of one id is accepted with and without a STOP behind it, and not cut. -/
theorem decodeMessage_withstands_ids :
    (∃ a b, decodeMessage idsSource.schema (fun _ => 0) false "getAllContactIds"
        (some idsReply) = some a ∧
      decodeMessage idsSource.schema (fun _ => 0) false "getAllContactIds"
        (some (idsReply ++ [0])) = some b ∧
      a.item = some (.obj [(utf8 "success", .arr [.str [117, 49]])]) ∧ b.item = a.item) ∧
    HasFields idsSource.schema (some [⟨0, "success", .of "list" [.name "string"]⟩])
      (.obj [(utf8 "success", .arr [.str [117, 49]])]) ∧
    ∀ p, p <+: idsReply → Accepts idsSource.schema (fun _ => 0) false "getAllContactIds" p →
      p = idsReply ∨ p ++ [0] = idsReply := by
  have hidsItem (stop : List UInt8) (hstop : stop = [] ∨ stop = [0])
      (hsize : (idsReply ++ stop).length ≤ maxWireSize) := item_of_writeMessage (fun _ => 0)
    schemaOk_idsSource resultFields_idsSource writeMessage_idsSource stop hsize
  obtain ⟨a, ha, hitem⟩ := hidsItem [] (.inl rfl) (by decide)
  obtain ⟨b, hb, hitem'⟩ := hidsItem [0] (.inr rfl) (by decide)
  rw [if_pos (.inl rfl)] at hitem
  rw [if_pos (.inr rfl)] at hitem'
  rw [List.append_nil] at ha
  have h := decodeMessage_withstands idsSource.schema (fun _ => 0) false "getAllContactIds"
  have htyped := h.typed _ a _ ha hitem
  rw [replyFields, if_neg (by decide), resultFields_idsSource] at htyped
  exact ⟨⟨a, b, ha, hb, hitem, hitem'.trans hitem.symm⟩, htyped,
    fun p hp hacc => h.prefixes p idsReply ⟨a, ha, by rw [hitem]; rfl⟩ hp hacc⟩

end Enil.Thrift
