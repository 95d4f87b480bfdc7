import Enil.Thrift.Bounds

/-!
# Ids of fields

A short header adds to the id before it, a long one has its own. The reader casts that one
to `int` before it checks the range, so that a varint of more than 32 bits may come to stand
for an id it is not.
-/

namespace Enil.Thrift

open Lib Lib.Reading

/-- The id a header stands for behind `last`. -/
def Header.exactId (h : Header) (last : Int) : Int :=
  if h.byte / 16 ≠ 0 then last + (h.byte / 16 : Nat) else zigzagDecode h.varint

/-- Each id is the one its header stands for, and of 16 bits. -/
def Exact : List (Header × Int) → Prop
  | [] => True
  | (h, id) :: hs => id = h.exactId (lastId hs) ∧ -32768 ≤ id ∧ id ≤ 32767 ∧ Exact hs

/-- A struct was read by the exact ids of its headers. -/
structure ReadExactly (fs : Option (List Field)) (hs : List (Header × Int))
    (keys : List (List UInt8)) : Prop where
  exact : Exact hs
  named : keys = namesOf fs hs

/-- The varint of a long header has 32 bits at most. -/
def Header.Narrow (h : Header) : Prop := h.byte / 16 = 0 → h.varint < 2 ^ 32

theorem zigzag_narrow {n : Nat} (h : n < 2 ^ 32) :
    Int.bmod (zigzagDecode n) (2 ^ 32) = zigzagDecode n := by
  apply Int.bmod_eq_of_le <;> unfold zigzagDecode <;> split <;> omega

theorem zigzag_short {n : Nat} (h : -32768 ≤ zigzagDecode n) (h' : zigzagDecode n ≤ 32767) :
    n < 2 ^ 32 := by
  unfold zigzagDecode at h h'
  split at h <;> split at h' <;> omega

/-- The check is made, so an id is exact where the cast loses nothing. -/
theorem exact_iff {hs : List (Header × Int)} (h : Ran hs) :
    Exact hs ↔ ∀ p ∈ hs, p.1.Narrow := by
  induction hs with
  | nil => simp [Exact]
  | cons p hs ih =>
    obtain ⟨hd, id⟩ := p
    obtain ⟨hid, hlo, hhi, hran⟩ := h
    rw [List.forall_mem_cons, ← ih hran, Exact]
    have hhead : id = hd.exactId (lastId hs) ↔ hd.Narrow := by
      unfold Header.exactId Header.Narrow
      by_cases hshort : hd.byte / 16 = 0
      · rw [if_neg (by omega)]
        rw [Header.id, if_neg (by omega)] at hid
        refine ⟨fun heq _ => zigzag_short (by omega) (by omega), fun hn => ?_⟩
        rw [hid, zigzag_narrow (hn hshort)]
      · rw [if_pos hshort]
        rw [Header.id, if_pos hshort] at hid
        exact ⟨fun _ hlong => absurd hlong hshort, fun _ => hid⟩
    rw [hhead]
    constructor
    · rintro ⟨hn, -, -, hx⟩
      exact ⟨hn, hx⟩
    · rintro ⟨hn, hx⟩
      exact ⟨hn, hlo, hhi, hx⟩

section

variable (schema : Schema) (double : Nat → Rat) (exception : Bool) (method : String)

/-- Of all structs of an accepted reply. -/
def Structs (data : Option (List UInt8))
    (P : Option (List Field) → List (Header × Int) → List (List UInt8) → Prop) : Prop :=
  ∀ reply, decodeMessage schema double exception method data = some reply →
    reply.item.isSome = true → ∀ fs hs keys, .fields fs hs keys ∈ reply.log → P fs hs keys

/-- Of an accepted reply the fields are those the headers stand for, exactly where no long
header has a varint of more than 32 bits. -/
theorem fieldIds_exact_iff (data : Option (List UInt8)) :
    Structs schema double exception method data ReadExactly ↔
      Structs schema double exception method data fun _ hs _ => ∀ p ∈ hs, p.1.Narrow := by
  refine forall_congr' fun reply => forall_congr' fun hreply => forall_congr' fun hsome =>
    forall_congr' fun fs => forall_congr' fun hs => forall_congr' fun keys =>
      forall_congr' fun hmem => ?_
  obtain ⟨hran, hnamed⟩ := events_of_decode hreply hsome _ hmem rfl
  exact ⟨fun h => (exact_iff hran).mp h.exact, fun h => ⟨(exact_iff hran).mpr h, hnamed⟩⟩

end

def timeSchema : Schema :=
  [("getServerTime_result", [⟨0, "success", .name "i64"⟩, ⟨1, "e", .name "TalkException"⟩])]

/-- A time under the long id 2 ^ 32. -/
def farId : List UInt8 :=
  [0x82, 0x41, 0, 13] ++ utf8 "getServerTime" ++ [0x06, 0x80, 0x80, 0x80, 0x80, 0x20, 14, 0]

def headersOf : Event → Option (List (Header × Int))
  | .fields _ hs _ => some hs
  | .call _ => none

/-- It is read as the time. -/
theorem farId_read : ¬ ∀ schema double exception method data,
    Structs schema double exception method data ReadExactly := by
  intro h
  have hread : (enilThriftDecode timeSchema (fun _ => 0) "getServerTime" (some farId)).map
      (fun reply => (reply.item.isSome, reply.log.filterMap headersOf)) =
      some (true, [[(⟨6, 2 ^ 33⟩, 0)]]) := by decide +kernel
  obtain ⟨reply, hreply, heq⟩ := Option.map_eq_some_iff.mp hread
  obtain ⟨hsome, hlog⟩ := Prod.mk.inj heq
  have hmem : [(⟨6, 2 ^ 33⟩, 0)] ∈ reply.log.filterMap headersOf := by
    rw [hlog]
    exact List.mem_singleton.mpr rfl
  obtain ⟨e, he, hhs⟩ := List.mem_filterMap.mp hmem
  cases e with
  | call => cases hhs
  | fields fs hs keys =>
    obtain rfl := Option.some.inj hhs
    have hexact := (h _ _ _ _ _ reply hreply hsome fs _ keys he).exact.1
    exact absurd hexact (by decide)

end Enil.Thrift
