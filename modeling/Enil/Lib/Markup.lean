import Mathlib.Data.List.Basic
import Mathlib.Tactic.Common

/-!
# Markup

Trees of elements and their written form. `parse` reads bytes as trees and refuses whatever
does not close its elements in the order in which they were opened; of what a tree is written
as it makes that tree.
-/

namespace Enil.Lib.Markup

structure Attr where
  name : List UInt8
  value : List UInt8
  deriving DecidableEq

structure Tag where
  name : List UInt8
  attrs : List Attr
  deriving DecidableEq

inductive Tree where
  | char (b : UInt8)
  /-- An element without an end. -/
  | void (tag : Tag)
  /-- An element whose content is not markup. -/
  | raw (tag : Tag) (content : List UInt8)
  | element (tag : Tag) (children : List Tree)

/-- The elements of the first two kinds by their names. -/
structure Dialect where
  isVoid : List UInt8 → Bool
  isRaw : List UInt8 → Bool

/-! ## Writing -/

/-- ` name="value"` -/
def Attr.render (a : Attr) : List UInt8 := 32 :: (a.name ++ 61 :: 34 :: (a.value ++ [34]))

namespace Tag

def start (t : Tag) : List UInt8 := 60 :: (t.name ++ (t.attrs.flatMap Attr.render ++ [62]))

def close (t : Tag) : List UInt8 := 60 :: 47 :: (t.name ++ [62])

end Tag

mutual

def Tree.render : Tree → List UInt8
  | .char b => [b]
  | .void tag => tag.start
  | .raw tag content => tag.start ++ (content ++ tag.close)
  | .element tag children => tag.start ++ (renderSeq children ++ tag.close)

def renderSeq : List Tree → List UInt8
  | [] => []
  | t :: ts => t.render ++ renderSeq ts

end

theorem renderSeq_map_char (s : List UInt8) : renderSeq (s.map .char) = s := by
  induction s with
  | nil => rfl
  | cons b s ih => rw [List.map_cons, renderSeq, ih, Tree.render, List.singleton_append]

/-! ## Reading -/

/-- a to z, digits and the hyphen. -/
def isNameByte (b : UInt8) : Bool := (97 ≤ b && b ≤ 122) || (48 ≤ b && b ≤ 57) || b == 45

def lower (b : UInt8) : UInt8 := if 65 ≤ b ∧ b ≤ 90 then b + 32 else b

/-- The end of a raw element starts, in letters of any case. -/
def startsClose (name s : List UInt8) : Bool := (60 :: 47 :: name).isPrefixOf (s.map lower)

/-- The end of a raw element starts somewhere. -/
def hasClose (name : List UInt8) : List UInt8 → Bool
  | [] => false
  | b :: s => startsClose name (b :: s) || hasClose name s

/-- The content of a raw element, and what follows. -/
def splitRaw (name : List UInt8) : List UInt8 → List UInt8 × List UInt8
  | [] => ([], [])
  | b :: s =>
    if startsClose name (b :: s) then ([], b :: s)
    else (b :: (splitRaw name s).1, (splitRaw name s).2)

/-- What follows `p`. -/
def expect (p s : List UInt8) : Option (List UInt8) :=
  if p.isPrefixOf s then some (s.drop p.length) else none

/-- At most `n` attributes and the end of the tag. -/
def parseAttrs : Nat → List UInt8 → Option (List Attr × List UInt8)
  | 0, _ => none
  | n + 1, s =>
    if s.head? = some 62 then some ([], s.tail)
    else (expect [32] s).bind fun s =>
      (expect [61, 34] (s.dropWhile isNameByte)).bind fun v =>
        (expect [34] (v.dropWhile (· != 34))).bind fun r =>
          (parseAttrs n r).map fun d =>
            (⟨s.takeWhile isNameByte, v.takeWhile (· != 34)⟩ :: d.1, d.2)

def parseTag (s : List UInt8) : Option (Tag × List UInt8) :=
  (parseAttrs (s.length + 1) (s.dropWhile isNameByte)).map fun d =>
    (⟨s.takeWhile isNameByte, d.1⟩, d.2)

section

variable (d : Dialect)

/-- Trees up to the end of an element or of the bytes; `n` is more than the bytes. -/
def parseSeq : Nat → List UInt8 → Option (List Tree × List UInt8)
  | 0, _ => none
  | _, [] => some ([], [])
  | n + 1, b :: s =>
    if b ≠ 60 then (parseSeq n s).map fun r => (.char b :: r.1, r.2)
    else if s.head? = some 47 then some ([], b :: s)
    else (parseTag s).bind fun t =>
      if d.isVoid t.1.name then (parseSeq n t.2).map fun r => (.void t.1 :: r.1, r.2)
      else if d.isRaw t.1.name then
        (expect t.1.close (splitRaw t.1.name t.2).2).bind fun s =>
          (parseSeq n s).map fun r => (.raw t.1 (splitRaw t.1.name t.2).1 :: r.1, r.2)
      else (parseSeq n t.2).bind fun c =>
        (expect t.1.close c.2).bind fun s =>
          (parseSeq n s).map fun r => (.element t.1 c.1 :: r.1, r.2)

def parse (s : List UInt8) : Option (List Tree) :=
  (parseSeq d (s.length + 1) s).bind fun r => if r.2 = [] then some r.1 else none

/-! ## What can be written -/

def IsName (s : List UInt8) : Prop := s ≠ [] ∧ s.all isNameByte = true

instance (s : List UInt8) : Decidable (IsName s) :=
  inferInstanceAs (Decidable (s ≠ [] ∧ s.all isNameByte = true))

structure Tag.IsValid (t : Tag) : Prop where
  name : IsName t.name
  attrs : ∀ a ∈ t.attrs, IsName a.name ∧ 34 ∉ a.value

mutual

def Tree.IsValid : Tree → Prop
  | .char b => b ≠ 60
  | .void tag => tag.IsValid ∧ d.isVoid tag.name = true
  | .raw tag content => tag.IsValid ∧ d.isVoid tag.name = false ∧ d.isRaw tag.name = true ∧
      hasClose tag.name content = false
  | .element tag children => tag.IsValid ∧ d.isVoid tag.name = false ∧
      d.isRaw tag.name = false ∧ AllValid children

def AllValid : List Tree → Prop
  | [] => True
  | t :: ts => t.IsValid ∧ AllValid ts

end

theorem allValid_iff (ts : List Tree) : AllValid d ts ↔ ∀ t ∈ ts, t.IsValid d := by
  induction ts with
  | nil => exact ⟨fun _ t ht => absurd ht List.not_mem_nil, fun _ => trivial⟩
  | cons t ts ih => rw [AllValid, ih, List.forall_mem_cons]

end

/-! ## What is written is read -/

theorem expect_append (p s : List UInt8) : expect p (p ++ s) = some s := by
  have hprefix : p.isPrefixOf (p ++ s) = true := by
    rw [List.isPrefixOf_iff_prefix]
    exact List.prefix_append p s
  rw [expect, if_pos hprefix, List.drop_left]

theorem expect_cons (b : UInt8) (s : List UInt8) : expect [b] (b :: s) = some s :=
  expect_append [b] s

theorem takeWhile_stop {p : UInt8 → Bool} {a s : List UInt8} {b : UInt8}
    (ha : a.all p = true) (hb : p b = false) : (a ++ b :: s).takeWhile p = a := by
  rw [List.takeWhile_append_of_pos (List.all_eq_true.mp ha),
    List.takeWhile_cons_of_neg (by rw [hb]; decide), List.append_nil]

theorem dropWhile_stop {p : UInt8 → Bool} {a s : List UInt8} {b : UInt8}
    (ha : a.all p = true) (hb : p b = false) : (a ++ b :: s).dropWhile p = b :: s := by
  rw [List.dropWhile_append_of_pos (List.all_eq_true.mp ha),
    List.dropWhile_cons_of_neg (by rw [hb]; decide)]

theorem all_ne_quote {s : List UInt8} (h : 34 ∉ s) : s.all (· != 34) = true := by
  rw [List.all_eq_true]
  intro b hb
  rw [bne_iff_ne]
  rintro rfl
  exact h hb

theorem parseAttrs_render {attrs : List Attr} {n : Nat} {rest : List UInt8}
    (hn : attrs.length < n) (hattrs : ∀ a ∈ attrs, IsName a.name ∧ 34 ∉ a.value) :
    parseAttrs n (attrs.flatMap Attr.render ++ 62 :: rest) = some (attrs, rest) := by
  induction attrs generalizing n with
  | nil =>
    cases n with
    | zero => omega
    | succ n => rfl
  | cons a attrs ih =>
    cases n with
    | zero => omega
    | succ n =>
      obtain ⟨⟨⟨-, hname⟩, hvalue⟩, hattrs⟩ := List.forall_mem_cons.mp hattrs
      rw [List.length_cons] at hn
      have hform : (a :: attrs).flatMap Attr.render ++ 62 :: rest = 32 :: (a.name ++
          61 :: ([34] ++ (a.value ++ 34 :: (attrs.flatMap Attr.render ++ 62 :: rest)))) := by
        simp only [List.flatMap_cons, Attr.render, List.cons_append, List.append_assoc,
          List.nil_append]
      have hspace : ¬ some (32 : UInt8) = some 62 := by decide
      have hquote : expect [61, 34] (61 :: ([34] ++ (a.value ++
          34 :: (attrs.flatMap Attr.render ++ 62 :: rest)))) =
          some (a.value ++ 34 :: (attrs.flatMap Attr.render ++ 62 :: rest)) :=
        expect_append [61, 34] _
      rw [hform, parseAttrs, List.head?_cons, if_neg hspace, expect_cons, Option.bind_some,
        dropWhile_stop hname (by decide), takeWhile_stop hname (by decide), hquote,
        Option.bind_some, dropWhile_stop (all_ne_quote hvalue) (by decide),
        takeWhile_stop (all_ne_quote hvalue) (by decide), expect_cons, Option.bind_some,
        ih (by omega) hattrs, Option.map_some]

theorem length_le_flatMap_render (attrs : List Attr) :
    attrs.length ≤ (attrs.flatMap Attr.render).length := by
  induction attrs with
  | nil => exact Nat.le_refl 0
  | cons a attrs ih =>
    rw [List.flatMap_cons, List.length_append, Attr.render, List.length_cons, List.length_cons]
    omega

/-- What follows the name of a tag is no part of it. -/
theorem exists_cons_of_attrs (attrs : List Attr) (rest : List UInt8) :
    ∃ b s, attrs.flatMap Attr.render ++ 62 :: rest = b :: s ∧ isNameByte b = false := by
  cases attrs with
  | nil => exact ⟨62, rest, rfl, by decide⟩
  | cons a attrs => exact ⟨32, _, rfl, by decide⟩

theorem parseTag_start {t : Tag} (ht : t.IsValid) (rest : List UInt8) :
    parseTag (t.name ++ (t.attrs.flatMap Attr.render ++ 62 :: rest)) = some (t, rest) := by
  have hlen := length_le_flatMap_render t.attrs
  have hparse : parseAttrs ((t.name ++ (t.attrs.flatMap Attr.render ++ 62 :: rest)).length + 1)
      (t.attrs.flatMap Attr.render ++ 62 :: rest) = _ :=
    parseAttrs_render (by simp only [List.length_append]; omega) ht.attrs
  obtain ⟨b, s, hs, hb⟩ := exists_cons_of_attrs t.attrs rest
  rw [parseTag]
  rw [hs] at hparse ⊢
  rw [dropWhile_stop ht.name.2 hb, takeWhile_stop ht.name.2 hb, hparse]
  rfl

/-- A name is in small letters. -/
theorem map_lower_name {s : List UInt8} (h : s.all isNameByte = true) : s.map lower = s := by
  have hlower : ∀ b, isNameByte b = true → lower b = b := by
    intro b hb
    rw [lower, if_neg]
    rintro ⟨hle, hge⟩
    simp only [isNameByte, Bool.or_eq_true, Bool.and_eq_true, decide_eq_true_eq, beq_iff_eq] at hb
    rcases hb with (⟨hb, -⟩ | ⟨-, hb⟩) | rfl
    · exact absurd (UInt8.le_trans hb hge) (by decide)
    · exact absurd (UInt8.le_trans hle hb) (by decide)
    · exact absurd hle (by decide)
  exact (List.map_congr_left fun b hb => hlower b (List.all_eq_true.mp h b hb)).trans
    (List.map_id s)

theorem startsClose_close {name : List UInt8} (h : name.all isNameByte = true)
    (rest : List UInt8) : startsClose name (60 :: 47 :: (name ++ rest)) = true := by
  have hlt : lower 60 = 60 := by decide
  have hslash : lower 47 = 47 := by decide
  rw [startsClose, List.isPrefixOf_iff_prefix, List.map_cons, List.map_cons, List.map_append, hlt,
    hslash, map_lower_name h]
  exact ⟨rest.map lower, rfl⟩

/-- No end starts in a text and goes on behind it, as none has another one inside. -/
theorem startsClose_append {name s : List UInt8} (h : name.all isNameByte = true) (hs : s ≠ [])
    (hnot : startsClose name s = false) (rest : List UInt8) :
    startsClose name (s ++ 60 :: rest) = false := by
  rw [Bool.eq_false_iff] at hnot ⊢
  intro hpre
  apply hnot
  rw [startsClose, List.isPrefixOf_iff_prefix, List.map_append] at hpre
  rw [startsClose, List.isPrefixOf_iff_prefix]
  rcases List.prefix_or_prefix_of_prefix hpre (List.prefix_append _ _) with hin | ⟨u, hu⟩
  · exact hin
  · rw [← hu, List.prefix_append_right_inj, List.map_cons] at hpre
    cases u with
    | nil =>
      rw [List.append_nil] at hu
      exact ⟨[], by rw [List.append_nil, hu]⟩
    | cons c u =>
      obtain ⟨b, s, rfl⟩ := List.exists_cons_of_ne_nil hs
      rw [List.map_cons, List.cons_append] at hu
      obtain ⟨-, hu⟩ := List.cons.inj hu
      have hc : c = 60 := by
        obtain ⟨v, hv⟩ := hpre
        exact (List.cons.inj hv).1
      have hmem : (60 : UInt8) ∈ 47 :: name := by
        rw [← hu, hc]
        exact List.mem_append_right _ List.mem_cons_self
      rcases List.mem_cons.mp hmem with hslash | hname
      · exact absurd hslash (by decide)
      · exact absurd (List.all_eq_true.mp h 60 hname) (by decide)

theorem splitRaw_append {name s : List UInt8} (h : name.all isNameByte = true)
    (hs : hasClose name s = false) (rest : List UInt8) :
    splitRaw name (s ++ 60 :: 47 :: (name ++ rest)) = (s, 60 :: 47 :: (name ++ rest)) := by
  induction s with
  | nil => exact if_pos (startsClose_close h rest)
  | cons b s ih =>
    rw [hasClose, Bool.or_eq_false_iff] at hs
    have hnot := startsClose_append h (List.cons_ne_nil b s) hs.1 (47 :: (name ++ rest))
    rw [List.cons_append] at hnot ⊢
    rw [splitRaw, if_neg (by rw [hnot]; decide), ih hs.2]

/-- Where no tag starts no end does. -/
theorem hasClose_append_of_noTag {name s : List UInt8} (hs : 60 ∉ s) (t : List UInt8) :
    hasClose name (s ++ t) = hasClose name t := by
  induction s with
  | nil => rfl
  | cons b s ih =>
    rw [List.mem_cons, not_or] at hs
    have hlower : lower b ≠ 60 := by
      rw [lower]
      split
      · rename_i h
        intro heq
        have := congrArg UInt8.toNat heq
        rw [UInt8.toNat_add] at this
        have hle := UInt8.le_iff_toNat_le.mp h.1
        have hge := UInt8.le_iff_toNat_le.mp h.2
        have h65 : (65 : UInt8).toNat = 65 := rfl
        have h90 : (90 : UInt8).toNat = 90 := rfl
        have h32 : (32 : UInt8).toNat = 32 := rfl
        have h60 : (60 : UInt8).toNat = 60 := rfl
        omega
      · exact Ne.symm hs.1
    have hnot : startsClose name (b :: (s ++ t)) = false := by
      rw [startsClose, List.map_cons, List.isPrefixOf, beq_eq_false_iff_ne.mpr (Ne.symm hlower),
        Bool.false_and]
    rw [List.cons_append, hasClose, hnot, Bool.false_or, ih hs.2]

theorem isName_head {name : List UInt8} (h : IsName name) (rest : List UInt8) :
    (name ++ rest).head? ≠ some 47 := by
  obtain ⟨b, s, rfl⟩ := List.exists_cons_of_ne_nil h.1
  have hb := List.all_eq_true.mp h.2 b List.mem_cons_self
  rw [List.cons_append, List.head?_cons]
  intro heq
  cases heq
  exact absurd hb (by decide)

variable {d : Dialect}

/-- The bytes behind trees end, or an element does. -/
def Ends (rest : List UInt8) : Prop := rest = [] ∨ ∃ s, rest = 60 :: 47 :: s

theorem ends_close (t : Tag) (s : List UInt8) : Ends (t.close ++ s) :=
  .inr ⟨t.name ++ [62] ++ s, rfl⟩

/-- Behind an opening tag it is the kind of the element that matters. -/
theorem parseSeq_start {t : Tag} (ht : t.IsValid) (n : Nat) (s : List UInt8) :
    parseSeq d (n + 1) (t.start ++ s) =
      if d.isVoid t.name then (parseSeq d n s).map fun r => (.void t :: r.1, r.2)
      else if d.isRaw t.name then
        (expect t.close (splitRaw t.name s).2).bind fun s' =>
          (parseSeq d n s').map fun r => (.raw t (splitRaw t.name s).1 :: r.1, r.2)
      else (parseSeq d n s).bind fun c =>
        (expect t.close c.2).bind fun s' =>
          (parseSeq d n s').map fun r => (.element t c.1 :: r.1, r.2) := by
  have hform : t.start ++ s = 60 :: (t.name ++ (t.attrs.flatMap Attr.render ++ 62 :: s)) := by
    simp only [Tag.start, List.cons_append, List.append_assoc, List.nil_append]
  rw [hform, parseSeq, if_neg (by decide), if_neg (isName_head ht.name _), parseTag_start ht,
    Option.bind_some]

theorem parseSeq_renderSeq {n : Nat} {ts : List Tree} (hn : (renderSeq ts).length < n)
    (hvalid : AllValid d ts) {rest : List UInt8} (hrest : Ends rest) :
    parseSeq d n (renderSeq ts ++ rest) = some (ts, rest) := by
  induction n generalizing ts rest with
  | zero => omega
  | succ n ih =>
    cases ts with
    | nil =>
      obtain rfl | ⟨s, rfl⟩ := hrest
      · rfl
      · rfl
    | cons t ts =>
      obtain ⟨ht, hts⟩ := hvalid
      rw [renderSeq, List.length_append] at hn
      cases t with
      | char b =>
        rw [Tree.render, List.length_singleton] at hn
        have hb : b ≠ 60 := ht
        rw [renderSeq, Tree.render, List.singleton_append, List.cons_append, parseSeq, if_pos hb,
          ih (by omega) hts hrest, Option.map_some]
      | void tag =>
        obtain ⟨htag, hvoid⟩ := ht
        have hpos : 0 < tag.start.length := Nat.succ_pos _
        rw [Tree.render] at hn
        rw [renderSeq, Tree.render, List.append_assoc, parseSeq_start htag, if_pos hvoid,
          ih (by omega) hts hrest, Option.map_some]
      | raw tag content =>
        obtain ⟨htag, hvoid, hraw, hclose⟩ := ht
        have hpos : 0 < tag.start.length := Nat.succ_pos _
        have hsplit : splitRaw tag.name (content ++ (tag.close ++ (renderSeq ts ++ rest))) =
            (content, tag.close ++ (renderSeq ts ++ rest)) := by
          have hform : tag.close ++ (renderSeq ts ++ rest) =
              60 :: 47 :: (tag.name ++ 62 :: (renderSeq ts ++ rest)) := by
            simp only [Tag.close, List.cons_append, List.append_assoc, List.nil_append]
          rw [hform]
          exact splitRaw_append htag.name.2 hclose _
        rw [Tree.render, List.length_append] at hn
        rw [renderSeq, Tree.render, List.append_assoc, List.append_assoc, List.append_assoc,
          parseSeq_start htag, hvoid, if_neg Bool.false_ne_true, if_pos hraw, hsplit, expect_append,
          Option.bind_some, ih (by omega) hts hrest, Option.map_some]
      | element tag children =>
        obtain ⟨htag, hvoid, hraw, hchildren⟩ := ht
        have hpos : 0 < tag.start.length := Nat.succ_pos _
        rw [Tree.render, List.length_append, List.length_append] at hn
        rw [renderSeq, Tree.render, List.append_assoc, List.append_assoc, List.append_assoc,
          parseSeq_start htag, hvoid, if_neg Bool.false_ne_true, hraw, if_neg Bool.false_ne_true,
          ih (by omega) hchildren (ends_close tag _), Option.bind_some, expect_append,
          Option.bind_some, ih (by omega) hts hrest, Option.map_some]

/-- Of what trees are written as the same trees are read. -/
theorem parse_renderSeq {ts : List Tree} (h : AllValid d ts) :
    parse d (renderSeq ts) = some ts := by
  have hparse := parseSeq_renderSeq (Nat.lt_succ_self _) h (.inl rfl)
  rw [List.append_nil] at hparse
  rw [parse, hparse, Option.bind_some, if_pos rfl]

end Enil.Lib.Markup
