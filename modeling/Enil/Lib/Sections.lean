import Enil.Lib.Leb128

/-!
# Sections

Blocks of bytes behind their length, and sections: blocks behind an identifier. Bytes are
a list of sections in at most one way.
-/

namespace Enil.Lib

structure Sized where
  size : List UInt8
  content : List UInt8
  encodes : Leb128.Encodes size content.length

namespace Sized

def bytes (b : Sized) : List UInt8 := b.size ++ b.content

/-- The length is written in `limit` bytes at most. -/
def Within (limit : Nat) (b : Sized) : Prop := b.size.length ≤ limit

theorem encodes_length (content : List UInt8) :
    Leb128.Encodes (Leb128.encode content.length) content.length :=
  Leb128.encodes_encode _

/-- The block with the shortest length. -/
def of (content : List UInt8) : Sized :=
  ⟨Leb128.encode content.length, content, encodes_length content⟩

theorem bytes_inj {a b : Sized} {s t : List UInt8} (h : a.bytes ++ s = b.bytes ++ t) :
    a = b ∧ s = t := by
  simp only [bytes, List.append_assoc] at h
  obtain ⟨hsize, hlen, h⟩ := a.encodes.unique b.encodes h
  obtain ⟨hcontent, hrest⟩ := List.append_inj h hlen
  cases a
  cases b
  cases hsize
  cases hcontent
  exact ⟨rfl, hrest⟩

end Sized

structure Section where
  id : UInt8
  block : Sized

namespace Section

def bytes (s : Section) : List UInt8 := s.id :: s.block.bytes

theorem bytes_inj {a b : Section} {s t : List UInt8} (h : a.bytes ++ s = b.bytes ++ t) :
    a = b ∧ s = t := by
  obtain ⟨hid, h⟩ := List.cons.inj h
  obtain ⟨hblock, hrest⟩ := Sized.bytes_inj h
  cases a
  cases b
  cases hid
  cases hblock
  exact ⟨rfl, hrest⟩

/-- The identifiers of at most `n` sections. -/
def readIds : Nat → List UInt8 → Option (List UInt8)
  | _, [] => some []
  | 0, _ => none
  | n + 1, id :: s => (Leb128.decode s).bind fun d =>
    (readIds n (d.2.drop d.1)).map (id :: ·)

theorem readIds_flatMap {n : Nat} {ss : List Section} (h : ss.length ≤ n) :
    readIds n (ss.flatMap bytes) = some (ss.map id) := by
  induction ss generalizing n with
  | nil => cases n <;> rfl
  | cons s ss ih =>
    obtain ⟨n, rfl⟩ : ∃ m, n = m + 1 := ⟨n - 1, by simp at h; omega⟩
    rw [List.flatMap_cons, bytes, List.cons_append, readIds, Sized.bytes, List.append_assoc,
      Leb128.decode_append s.block.encodes, Option.bind_some, List.drop_left,
      ih (by simpa using h), Option.map_some, List.map_cons]

theorem length_le_flatMap (ss : List Section) : ss.length ≤ (ss.flatMap bytes).length := by
  induction ss with
  | nil => exact Nat.le_refl _
  | cons s ss ih =>
    rw [List.flatMap_cons, bytes, List.cons_append, List.length_cons, List.length_cons,
      List.length_append]
    omega

end Section

/-- The content is a number of blocks, and the blocks. -/
def IsVector (content : List UInt8) (blocks : List Sized) : Prop := ∃ count,
  Leb128.Encodes count blocks.length ∧ content = count ++ blocks.flatMap Sized.bytes

/-- A vector whose numbers are all written in `limit` bytes at most. -/
def IsVectorWithin (limit : Nat) (content : List UInt8) (blocks : List Sized) : Prop := ∃ count,
  Leb128.Encodes count blocks.length ∧ count.length ≤ limit ∧ (∀ b ∈ blocks, b.Within limit) ∧
    content = count ++ blocks.flatMap Sized.bytes

theorem IsVectorWithin.isVector {limit : Nat} {content : List UInt8} {blocks : List Sized}
    (h : IsVectorWithin limit content blocks) : IsVector content blocks := by
  obtain ⟨count, hcount, -, -, hcontent⟩ := h
  exact ⟨count, hcount, hcontent⟩

end Enil.Lib
