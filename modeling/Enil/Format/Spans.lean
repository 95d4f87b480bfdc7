import Enil.Lib.CType
import Enil.Lib.Loop
import Enil.Json.Basic
import Enil.Json.Utf8

/-!
# Where a resource stands in a text

`resource_span` takes the S and E of a resource as UTF-16 units, and where that does not give
a marker as bytes. A span it gives is that of a marker, so it begins and ends between two
characters.
-/

namespace Enil.Html

open Lib

/-! ## UTF-16 units -/

/-- The bytes of a character by its first one, and that byte's share of the code point. -/
def leadByte (c : Nat) : Option (Nat × Nat) :=
  if c < 0x80 then some (1, c)
  else if 0xc2 ≤ c ∧ c ≤ 0xdf then some (2, c % 32)
  else if 0xe0 ≤ c ∧ c ≤ 0xef then some (3, c % 16)
  else if 0xf0 ≤ c ∧ c ≤ 0xf4 then some (4, c % 8)
  else none

/-- The code point with the shares of `j` more bytes; the end of the text is not one. -/
def continuation (cp : Nat) : Nat → List UInt8 → Option Nat
  | 0, _ => some cp
  | _ + 1, [] => none
  | j + 1, c :: rest =>
    if c.toNat / 64 ≠ 2 then none else continuation (cp * 64 + c.toNat % 64) j rest

/-- The character at the front: the number of its bytes and its code point. -/
def decodeChar : List UInt8 → Option (Nat × Nat)
  | [] => none
  | c :: rest =>
    match leadByte c.toNat with
    | none => none
    | some (n, share) =>
      match continuation share (n - 1) rest with
      | none => none
      | some cp =>
        if (n = 3 ∧ cp < 0x800) ∨ (n = 4 ∧ cp < 0x10000) ∨ (0xd800 ≤ cp ∧ cp ≤ 0xdfff) ∨
          0x10ffff < cp then none
        else some (n, cp)

def unitsOf (cp : Nat) : Nat := if 0xffff < cp then 2 else 1

structure Walk where
  p : Nat
  units : Nat
  rest : List UInt8

/-- The body of the loop of utf16_boundary, and what is done behind it. -/
def boundaryTurn (target : Nat) (s : Walk) : Turn Walk (Option Nat) :=
  if s.units < target ∧ s.rest ≠ [] then
    match decodeChar s.rest with
    | none => .leave none
    | some (n, cp) => .again ⟨s.p + n, s.units + unitsOf cp, s.rest.drop n⟩
  else .leave (if s.units ≠ target then none else some s.p)

/-- utf16_boundary; every turn takes a byte at least. -/
def utf16Boundary (text : List UInt8) (target : Nat) : Option Nat :=
  (loop (boundaryTurn target) (text.length + 1) ⟨0, 0, text⟩).join

/-! ## Markers -/

def dollarSign : UInt8 := 36
def parenOpen : UInt8 := 40
def parenClose : UInt8 := 41

/-- `$`, or at least one character in parentheses, none of them one and no line end. -/
def isMarker (m : List UInt8) : Bool :=
  m == [dollarSign] ||
    (3 ≤ m.length && m.head? == some parenOpen && m.getLast? == some parenClose &&
      ((m.drop 1).dropLast.all fun c => c != parenOpen && c != parenClose && c != 10 && c != 13))

def slice (text : List UInt8) (s e : Nat) : List UInt8 := (text.drop s).take (e - s)

def markerSpan (text : List UInt8) (s e : Nat) : Bool :=
  s < e && e ≤ text.length && isMarker (slice text s e)

/-- The number under a key, where it is one an `int` holds and not negative. -/
def offsetItem (r : Json) (key : String) : Option Nat :=
  match (r.getObjectItem key).bind Json.getNumberValue with
  | some q => if 0 ≤ q ∧ q ≤ intMax ∧ q.isInt then some q.num.toNat else none
  | none => none

/-- The span of a marker whose ends are given in UTF-16 units. -/
def utf16Span (text : List UInt8) (a b : Nat) : Option (Nat × Nat) :=
  match utf16Boundary text a, utf16Boundary text b with
  | some s, some e => if markerSpan text s e then some (s, e) else none
  | _, _ => none

/-- What offsets stand for: UTF-16 units where they are those of a marker, bytes otherwise. -/
def resolveSpan (byteOffsets : Bool) (text : List UInt8) (a b : Nat) : Option (Nat × Nat) :=
  match if byteOffsets then none else utf16Span text a b with
  | some p => some p
  | none => if markerSpan text a b then some (a, b) else none

def resourceSpan (text : List UInt8) (r : Json) : Option (Nat × Nat) :=
  match offsetItem r "S", offsetItem r "E" with
  | some a, some b =>
    if a < b then
      resolveSpan ((r.getObjectItem "byte_offsets").bind Json.getBoolValue == some true) text a b
    else none
  | _, _ => none

/-! ## Characters and their units -/

def bytesOf (cs : List Char) : List UInt8 := cs.flatMap String.utf8EncodeChar

def utf16Length (cs : List Char) : Nat := (cs.map fun c => unitsOf c.toNat).sum

theorem toNat_ofNat_of_lt {n : Nat} (h : n < 256) : (UInt8.ofNat n).toNat = n := by
  rw [UInt8.toNat_ofNat']
  omega

theorem decodeChar_one {v : Nat} (h : v ≤ 0x7f) (rest : List UInt8) :
    decodeChar (UInt8.ofNat v :: rest) = some (1, v) := by
  have hlead : leadByte (UInt8.ofNat v).toNat = some (1, v) := by
    rw [toNat_ofNat_of_lt (by omega), leadByte, if_pos (by omega)]
  simp only [decodeChar, hlead, Nat.sub_self, continuation]
  rw [if_neg (by omega)]

theorem decodeChar_two {v : Nat} (h : 0x7f < v) (h' : v ≤ 0x7ff) (rest : List UInt8) :
    decodeChar (UInt8.ofNat (v / 64 % 0x20 + 0xc0) :: UInt8.ofNat (v % 0x40 + 0x80) :: rest) =
      some (2, v) := by
  have hlead : leadByte (UInt8.ofNat (v / 64 % 0x20 + 0xc0)).toNat = some (2, v / 64) := by
    rw [toNat_ofNat_of_lt (by omega), leadByte, if_neg (by omega), if_pos (by omega)]
    congr 2
    omega
  simp only [decodeChar, hlead, continuation]
  rw [toNat_ofNat_of_lt (n := v % 0x40 + 0x80) (by omega), if_neg (by omega)]
  simp only
  rw [if_neg (by omega)]
  congr 2
  omega

theorem decodeChar_three {v : Nat} (h : 0x7ff < v) (h' : v ≤ 0xffff)
    (hv : v < 0xd800 ∨ 0xdfff < v) (rest : List UInt8) :
    decodeChar (UInt8.ofNat (v / 4096 % 0x10 + 0xe0) :: UInt8.ofNat (v / 64 % 0x40 + 0x80) ::
      UInt8.ofNat (v % 0x40 + 0x80) :: rest) = some (3, v) := by
  have hlead : leadByte (UInt8.ofNat (v / 4096 % 0x10 + 0xe0)).toNat = some (3, v / 4096) := by
    rw [toNat_ofNat_of_lt (by omega), leadByte, if_neg (by omega), if_neg (by omega),
      if_pos (by omega)]
    congr 2
    omega
  simp only [decodeChar, hlead, continuation]
  rw [toNat_ofNat_of_lt (n := v % 0x40 + 0x80) (by omega),
    toNat_ofNat_of_lt (n := v / 64 % 0x40 + 0x80) (by omega), if_neg (by omega), if_neg (by omega)]
  simp only
  rw [if_neg (by omega)]
  congr 2
  omega

theorem decodeChar_four {v : Nat} (h : 0xffff < v) (h' : v < 0x110000) (rest : List UInt8) :
    decodeChar (UInt8.ofNat (v / 262144 % 0x08 + 0xf0) :: UInt8.ofNat (v / 4096 % 0x40 + 0x80) ::
      UInt8.ofNat (v / 64 % 0x40 + 0x80) :: UInt8.ofNat (v % 0x40 + 0x80) :: rest) =
      some (4, v) := by
  have hlead : leadByte (UInt8.ofNat (v / 262144 % 0x08 + 0xf0)).toNat = some (4, v / 262144) := by
    rw [toNat_ofNat_of_lt (by omega), leadByte, if_neg (by omega), if_neg (by omega),
      if_neg (by omega), if_pos (by omega)]
    congr 2
    omega
  simp only [decodeChar, hlead, continuation]
  rw [toNat_ofNat_of_lt (n := v % 0x40 + 0x80) (by omega),
    toNat_ofNat_of_lt (n := v / 64 % 0x40 + 0x80) (by omega),
    toNat_ofNat_of_lt (n := v / 4096 % 0x40 + 0x80) (by omega), if_neg (by omega),
    if_neg (by omega), if_neg (by omega)]
  simp only
  rw [if_neg (by omega)]
  congr 2
  omega

/-- A character of a text is decoded. -/
theorem decodeChar_encode (c : Char) (rest : List UInt8) :
    decodeChar (String.utf8EncodeChar c ++ rest) =
      some ((String.utf8EncodeChar c).length, c.toNat) := by
  have hvalid : c.val.toNat < 0xd800 ∨ 0xdfff < c.val.toNat ∧ c.val.toNat < 0x110000 := c.valid
  show decodeChar (String.utf8EncodeChar c ++ rest) =
    some ((String.utf8EncodeChar c).length, c.val.toNat)
  unfold String.utf8EncodeChar
  generalize c.val.toNat = v at hvalid
  by_cases h₁ : v ≤ 0x7f
  · simp only [h₁, if_true]
    exact decodeChar_one h₁ rest
  by_cases h₂ : v ≤ 0x7ff
  · simp only [h₁, h₂, if_true, if_false]
    exact decodeChar_two (by omega) h₂ rest
  by_cases h₃ : v ≤ 0xffff
  · simp only [h₁, h₂, h₃, if_true, if_false]
    exact decodeChar_three (by omega) h₃ (by omega) rest
  · simp only [h₁, h₂, h₃, if_false]
    exact decodeChar_four (by omega) (by omega) rest

/-- The walk over characters stops between two of them. -/
theorem boundary_of_leaves {target : Nat} (cs : List Char) {p units q : Nat}
    (h : Leaves (boundaryTurn target) ⟨p, units, bytesOf cs⟩ (some q)) :
    ∃ a b, cs = a ++ b ∧ q = p + (bytesOf a).length ∧ target = units + utf16Length a := by
  induction cs generalizing p units with
  | nil =>
    have hturn : boundaryTurn target ⟨p, units, bytesOf []⟩ =
        .leave (if units ≠ target then none else some p) := if_neg fun hs => hs.2 rfl
    have hq := (leaves_leave hturn).mp h
    split at hq
    · cases hq
    · rename_i htarget
      cases hq
      exact ⟨[], [], rfl, rfl, by rw [utf16Length]; simp only [List.map_nil, List.sum_nil]; omega⟩
  | cons c cs ih =>
    have hbytes : bytesOf (c :: cs) = String.utf8EncodeChar c ++ bytesOf cs := rfl
    by_cases hunits : units < target
    · have hne : bytesOf (c :: cs) ≠ [] := by simp [hbytes, String.utf8EncodeChar_ne_nil]
      have hturn : boundaryTurn target ⟨p, units, bytesOf (c :: cs)⟩ =
          .again ⟨p + (String.utf8EncodeChar c).length, units + unitsOf c.toNat, bytesOf cs⟩ := by
        unfold boundaryTurn
        rw [if_pos ⟨hunits, hne⟩]
        simp only [hbytes, decodeChar_encode, List.drop_left]
      obtain ⟨a, b, rfl, hq, htarget⟩ := ih ((leaves_again hturn).mp h)
      refine ⟨c :: a, b, rfl, ?_, ?_⟩
      · rw [hq, show bytesOf (c :: a) = String.utf8EncodeChar c ++ bytesOf a from rfl,
          List.length_append]
        omega
      · rw [htarget, utf16Length, utf16Length, List.map_cons, List.sum_cons]
        omega
    · have hturn : boundaryTurn target ⟨p, units, bytesOf (c :: cs)⟩ =
          .leave (if units ≠ target then none else some p) := if_neg fun hs => hunits hs.1
      have hq := (leaves_leave hturn).mp h
      split at hq
      · cases hq
      · rename_i htarget
        cases hq
        exact ⟨[], c :: cs, rfl, rfl, by
          rw [utf16Length]; simp only [List.map_nil, List.sum_nil]; omega⟩

/-- The walk comes to every place between two characters. -/
theorem leaves_boundary (a b : List Char) (p units : Nat) :
    Leaves (boundaryTurn (units + utf16Length a)) ⟨p, units, bytesOf (a ++ b)⟩
      (some (p + (bytesOf a).length)) := by
  induction a generalizing p units with
  | nil =>
    have hzero : utf16Length [] = 0 := rfl
    refine .leave ?_
    simp only [boundaryTurn, hzero, Nat.add_zero, lt_irrefl, false_and, if_false, ne_eq,
      not_true_eq_false]
    rfl
  | cons c a ih =>
    have hbytes : bytesOf (c :: a ++ b) = String.utf8EncodeChar c ++ bytesOf (a ++ b) := rfl
    have hunits : utf16Length (c :: a) = unitsOf c.toNat + utf16Length a := by
      simp [utf16Length]
    have hpos : 0 < unitsOf c.toNat := by
      unfold unitsOf
      split <;> omega
    have hne : bytesOf (c :: a ++ b) ≠ [] := by
      rw [hbytes]
      exact List.append_ne_nil_of_left_ne_nil String.utf8EncodeChar_ne_nil _
    have hlt : units < units + utf16Length (c :: a) := by omega
    refine .again (t := ⟨p + (String.utf8EncodeChar c).length, units + unitsOf c.toNat,
      bytesOf (a ++ b)⟩) ?_ ?_
    · unfold boundaryTurn
      rw [if_pos ⟨hlt, hne⟩]
      simp only [hbytes, decodeChar_encode, List.drop_left]
    · have := ih (p + (String.utf8EncodeChar c).length) (units + unitsOf c.toNat)
      rwa [Nat.add_assoc units, ← hunits, Nat.add_assoc p, ← List.length_append,
        show String.utf8EncodeChar c ++ bytesOf a = bytesOf (c :: a) from rfl] at this

theorem leadByte_pos {c n share : Nat} (h : leadByte c = some (n, share)) : 0 < n := by
  unfold leadByte at h
  split_ifs at h <;> simp only [Option.some.injEq, Prod.mk.injEq] at h <;> omega

theorem decodeChar_pos {s : List UInt8} {n cp : Nat} (h : decodeChar s = some (n, cp)) :
    0 < n := by
  cases s with
  | nil => cases h
  | cons c rest =>
    unfold decodeChar at h
    cases hlead : leadByte c.toNat with
    | none => simp [hlead] at h
    | some r =>
      have := leadByte_pos hlead
      simp only [hlead] at h
      split at h
      · cases h
      · split at h
        · cases h
        · cases h
          omega

theorem boundaryTurn_lt {target : Nat} {s t : Walk} (h : boundaryTurn target s = .again t) :
    t.rest.length < s.rest.length := by
  unfold boundaryTurn at h
  split at h
  · rename_i hs
    have := List.length_pos_iff.mpr hs.2
    split at h
    · cases h
    · rename_i hdecode
      have := decodeChar_pos hdecode
      cases h
      rw [List.length_drop]
      omega
  · cases h

/-- A boundary has characters before it of as many units. -/
theorem utf16Boundary_iff {text : String} {target q : Nat} :
    utf16Boundary (utf8 text) target = some q ↔
      ∃ a b, text.toList = a ++ b ∧ q = (bytesOf a).length ∧ target = utf16Length a := by
  have hlt : ∀ {s t : Walk}, boundaryTurn target s = .again t → t.rest.length < s.rest.length :=
    boundaryTurn_lt
  have hloop := loop_eq_some (m := fun s : Walk => s.rest.length) (r := some q) hlt
    (Nat.lt_succ_self (Walk.mk 0 0 (utf8 text)).rest.length)
  rw [utf16Boundary, Option.join_eq_some_iff]
  refine hloop.trans ?_
  rw [utf8_eq_flatMap]
  constructor
  · intro h
    obtain ⟨a, b, hab, hq, htarget⟩ := boundary_of_leaves text.toList h
    exact ⟨a, b, hab, by omega, by omega⟩
  · rintro ⟨a, b, hab, rfl, rfl⟩
    have := leaves_boundary a b 0 0
    rwa [Nat.zero_add, Nat.zero_add, ← hab] at this

/-! ## What a span is -/

/-- What stands between the parentheses of a marker. -/
structure IsAlt (alt : List UInt8) : Prop where
  ne_nil : alt ≠ []
  plain : ∀ c ∈ alt, c ≠ parenOpen ∧ c ≠ parenClose ∧ c ≠ 10 ∧ c ≠ 13

theorem isMarker_parens {alt : List UInt8} :
    isMarker (parenOpen :: alt ++ [parenClose]) = true ↔ IsAlt alt := by
  have hinner : ((parenOpen :: alt ++ [parenClose]).drop 1).dropLast = alt := by simp
  have hlast : (parenOpen :: alt ++ [parenClose]).getLast? = some parenClose := by
    rw [List.getLast?_append]
    rfl
  have hdollar : (parenOpen :: alt ++ [parenClose] == [dollarSign]) = false := by
    rw [beq_eq_false_iff_ne]
    intro h
    exact absurd (List.cons.inj h).1 (by decide)
  rw [isMarker, hdollar, hinner, hlast]
  simp only [Bool.false_or, List.cons_append, List.length_cons, List.length_append,
    List.length_nil, List.head?_cons, beq_self_eq_true, Bool.and_true, Bool.and_eq_true,
    decide_eq_true_eq, List.all_eq_true, bne_iff_ne, ne_eq, and_assoc]
  constructor
  · rintro ⟨hlen, hall⟩
    refine ⟨?_, hall⟩
    rintro rfl
    simp at hlen
  · rintro ⟨hne, hall⟩
    have := List.length_pos_iff.mpr hne
    exact ⟨by omega, hall⟩

theorem isMarker_cases {m : List UInt8} (h : isMarker m = true) :
    m = [dollarSign] ∨ ∃ alt, m = parenOpen :: alt ++ [parenClose] ∧ IsAlt alt := by
  by_cases hdollar : m = [dollarSign]
  · exact .inl hdollar
  · right
    have h' := h
    simp only [isMarker, Bool.or_eq_true, beq_iff_eq, hdollar, false_or, Bool.and_eq_true,
      decide_eq_true_eq, and_assoc] at h'
    obtain ⟨hlen, hhead, hlast, -⟩ := h'
    obtain ⟨m', rfl⟩ : ∃ m', m = parenOpen :: m' := by
      cases m with
      | nil => cases hhead
      | cons a m =>
        cases hhead
        exact ⟨m, rfl⟩
    have hne : m' ≠ [] := by
      rintro rfl
      simp at hlen
    rw [List.getLast?_cons_of_ne_nil hne, List.getLast?_eq_some_iff] at hlast
    obtain ⟨alt, rfl⟩ := hlast
    exact ⟨alt, rfl, isMarker_parens.mp h⟩

theorem markerSpan_iff {text : List UInt8} {s e : Nat} :
    markerSpan text s e = true ↔ s < e ∧ e ≤ text.length ∧ isMarker (slice text s e) = true := by
  simp only [markerSpan, Bool.and_eq_true, decide_eq_true_eq, and_assoc]

theorem utf16Span_eq_some {text : List UInt8} {a b : Nat} {p : Nat × Nat} :
    utf16Span text a b = some p ↔ utf16Boundary text a = some p.1 ∧
      utf16Boundary text b = some p.2 ∧ markerSpan text p.1 p.2 = true := by
  obtain ⟨s, e⟩ := p
  unfold utf16Span
  cases hs : utf16Boundary text a with
  | none => simp
  | some s' =>
    cases he : utf16Boundary text b with
    | none => simp
    | some e' =>
      simp only [Option.ite_none_right_eq_some, Option.some.injEq, Prod.mk.injEq]
      constructor
      · rintro ⟨hm, rfl, rfl⟩
        exact ⟨rfl, rfl, hm⟩
      · rintro ⟨rfl, rfl, hm⟩
        exact ⟨hm, rfl, rfl⟩

/-- A span given in UTF-16 units begins and ends between characters. -/
structure WholeChars (text : String) (a b : Nat) (p : Nat × Nat) : Prop where
  start : ∃ x y, text.toList = x ++ y ∧ p.1 = (bytesOf x).length ∧ a = utf16Length x
  stop : ∃ x y, text.toList = x ++ y ∧ p.2 = (bytesOf x).length ∧ b = utf16Length x

theorem utf16Span_iff {text : String} {a b : Nat} {p : Nat × Nat} :
    utf16Span (utf8 text) a b = some p ↔
      WholeChars text a b p ∧ markerSpan (utf8 text) p.1 p.2 = true := by
  rw [utf16Span_eq_some, utf16Boundary_iff, utf16Boundary_iff, ← and_assoc]
  exact and_congr_left' ⟨fun h => ⟨h.1, h.2⟩, fun h => ⟨h.start, h.stop⟩⟩

theorem resolveSpan_marker {byteOffsets : Bool} {text : List UInt8} {a b : Nat} {p : Nat × Nat}
    (h : resolveSpan byteOffsets text a b = some p) : markerSpan text p.1 p.2 = true := by
  unfold resolveSpan at h
  split at h
  · rename_i q hq
    cases h
    cases byteOffsets with
    | true => cases hq
    | false => exact (utf16Span_eq_some.mp hq).2.2
  · split at h
    · rename_i hm
      cases h
      exact hm
    · cases h

theorem resourceSpan_marker {text : List UInt8} {r : Json} {p : Nat × Nat}
    (h : resourceSpan text r = some p) : markerSpan text p.1 p.2 = true := by
  unfold resourceSpan at h
  split at h
  · split at h
    · exact resolveSpan_marker h
    · cases h
  · cases h

end Enil.Html
