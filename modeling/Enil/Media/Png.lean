import Enil.Lib.CType
import Enil.Lib.Loop
import Mathlib.Algebra.Ring.Nat
import Mathlib.Data.List.Basic

/-!
# A complete PNG

`enil_png_info` walks over the chunks of a file, checks their sums and gives the size of
the image. A PNG here is the signature, a header chunk, other chunks with image data among
them, and an empty end chunk, with nothing after it. The sum of a chunk is zlib's, a
parameter of which only the sum of a text in two pieces matters.
-/

namespace Enil.Png

open Enil.Lib

/-- zlib's `crc32`, of the bytes before and more bytes. -/
abbrev Crc := UInt32 → List UInt8 → UInt32

/-! ## The walk -/

def be32 (p : List UInt8) : Nat :=
  (p.getD 0 0).toNat * 2 ^ 24 + (p.getD 1 0).toNat * 2 ^ 16 + (p.getD 2 0).toNat * 2 ^ 8 +
    (p.getD 3 0).toNat

/-- `fread(buf, 1, n, f) == n`: the bytes read and what is left of the file. -/
def fread (n : Nat) (f : List UInt8) : Option (List UInt8 × List UInt8) :=
  if f.length < n then none else some (f.take n, f.drop n)

def signature : List UInt8 := [137, 80, 78, 71, 13, 10, 26, 10]

/-- "IHDR" -/
def typeIHDR : List UInt8 := [73, 72, 68, 82]

/-- "IDAT" -/
def typeIDAT : List UInt8 := [73, 68, 65, 84]

/-- "IEND" -/
def typeIEND : List UInt8 := [73, 69, 78, 68]

def validDepth (color depth : UInt8) : Bool :=
  (color == 0 && (depth == 1 || depth == 2 || depth == 4 || depth == 8 || depth == 16)) ||
  (color == 3 && (depth == 1 || depth == 2 || depth == 4 || depth == 8)) ||
  ((color == 2 || color == 4 || color == 6) && (depth == 8 || depth == 16))

/-- What the content of a header chunk is refused for. -/
def badHeader (buf : List UInt8) : Bool :=
  let x := be32 buf
  let y := be32 (buf.drop 4)
  x == 0 || y == 0 || x > intMax || y > intMax || !validDepth (buf.getD 9 0) (buf.getD 8 0) ||
    buf.getD 10 0 != 0 || buf.getD 11 0 != 0 || buf.getD 12 0 > 1

/-- Within a chunk: `remaining`, `crc`, `w`, `h` and what is left of the file. -/
structure InChunk where
  remaining : Nat
  crc : UInt32
  w : Nat
  h : Nat
  file : List UInt8

/-- The body of `while (remaining)`, with nothing where it goes to `done`. -/
def dataTurn (crc32 : Crc) (ihdr : Bool) (s : InChunk) : Turn InChunk (Option InChunk) :=
  if s.remaining = 0 then .leave (some s)
  else
    let n := min s.remaining 8192
    match fread n s.file with
    | none => .leave none
    | some (buf, f) =>
      let s' := { s with remaining := s.remaining - n, crc := crc32 s.crc buf, file := f }
      if ihdr then
        if badHeader buf then .leave none
        else .again { s' with w := be32 buf, h := be32 (buf.drop 4) }
      else .again s'

/-- The data of a chunk; there are no more turns than bytes of it. -/
def readData (crc32 : Crc) (ihdr : Bool) (s : InChunk) : Option InChunk :=
  (loop (dataTurn crc32 ihdr) (s.remaining + 1) s).join

structure Walk where
  w : Nat
  h : Nat
  seenHeader : Bool
  seenData : Bool
  file : List UInt8

/-- The body of `while (fread(header, 1, 8, f) == 8)`. It leaves behind an end chunk with
the size and what the file still holds, or with nothing. -/
def turn (crc32 : Crc) (s : Walk) : Turn Walk (Option (Nat × Nat × List UInt8)) :=
  match fread 8 s.file with
  | none => .leave none
  | some (header, f) =>
    let length := be32 header
    let crc := crc32 0 (header.drop 4)
    let ihdr := header.drop 4 == typeIHDR
    let idat := header.drop 4 == typeIDAT
    let iend := header.drop 4 == typeIEND
    if length > intMax || (!s.seenHeader && !ihdr) then .leave none
    else if ihdr && (s.seenHeader || length != 13) then .leave none
    else if iend && (length != 0 || !s.seenData) then .leave none
    else
      match readData crc32 ihdr ⟨length, crc, s.w, s.h, f⟩ with
      | none => .leave none
      | some c =>
        match fread 4 c.file with
        | none => .leave none
        | some (checksum, g) =>
          if be32 checksum != c.crc.toNat then .leave none
          else if iend then .leave (some (c.w, c.h, g))
          else .again ⟨c.w, c.h, s.seenHeader || ihdr, s.seenData || (idat && length != 0), g⟩

/-- What is returned, and what `*width` and `*height` are set to. -/
structure Info where
  ok : Bool
  width : Nat
  height : Nat
  deriving DecidableEq

def Info.bad : Info := ⟨false, 0, 0⟩

/-- `ok = fgetc(f) == EOF`, and what is done with it. -/
def infoOf : Option (Nat × Nat × List UInt8) → Info
  | none => .bad
  | some (w, h, rest) => if rest.isEmpty then ⟨true, w, h⟩ else .bad

/-- enil_png_info on the bytes of a file, with at most `fuel` turns. -/
def enilPngInfo (crc32 : Crc) (fuel : Nat) (file : List UInt8) : Option Info :=
  match fread 8 file with
  | none => some .bad
  | some (header, f) =>
    if header != signature then some .bad
    else (loop (turn crc32) fuel ⟨0, 0, false, false, f⟩).map infoOf

/-! ## PNG files -/

/-- Four bytes, the highest first. -/
def word (n : Nat) : List UInt8 :=
  [.ofNat (n / 2 ^ 24), .ofNat (n / 2 ^ 16), .ofNat (n / 2 ^ 8), .ofNat n]

structure Chunk where
  type : List UInt8
  data : List UInt8
  type_length : type.length = 4
  data_length : data.length ≤ intMax

/-- Length, type, data and sum. -/
def Chunk.bytes (crc32 : Crc) (c : Chunk) : List UInt8 :=
  word c.data.length ++ c.type ++ c.data ++ word (crc32 0 (c.type ++ c.data)).toNat

/-- Thirteen bytes with valid dimensions and a depth for the kind of color. -/
structure ValidSize (data : List UInt8) : Prop where
  length : data.length = 13
  width : 0 < be32 data ∧ be32 data ≤ intMax
  height : 0 < be32 (data.drop 4) ∧ be32 (data.drop 4) ≤ intMax
  depth : validDepth (data.getD 9 0) (data.getD 8 0) = true

/-- The compression, the filter and the interlacing are known ones as well. -/
structure ValidHeader (data : List UInt8) : Prop extends ValidSize data where
  compression : data.getD 10 0 = 0
  filter : data.getD 11 0 = 0
  interlace : data.getD 12 0 ≤ 1

structure Inner (c : Chunk) : Prop where
  not_header : c.type ≠ typeIHDR
  not_end : c.type ≠ typeIEND

/-- A PNG with the header `valid` of which is asked. -/
structure PngWith (valid : List UInt8 → Prop) (crc32 : Crc) (file : List UInt8) (header : Chunk)
    (chunks : List Chunk) (last : Chunk) : Prop where
  file : file = signature ++ header.bytes crc32 ++ chunks.flatMap (Chunk.bytes crc32) ++
    last.bytes crc32
  header_type : header.type = typeIHDR
  header_data : valid header.data
  inner : ∀ c ∈ chunks, Inner c
  image : ∃ c ∈ chunks, c.type = typeIDAT ∧ c.data ≠ []
  last_type : last.type = typeIEND
  last_data : last.data = []

/-- A PNG of the size `w`, `h`. -/
def IsPng (crc32 : Crc) (w h : Nat) (file : List UInt8) : Prop :=
  ∃ header chunks last, PngWith ValidHeader crc32 file header chunks last ∧
    be32 header.data = w ∧ be32 (header.data.drop 4) = h

theorem IsPng.eq_append {crc32 : Crc} {w h : Nat} {file : List UInt8}
    (hpng : IsPng crc32 w h file) : ∃ f, file = signature ++ f := by
  obtain ⟨header, chunks, last, hpng, -⟩ := hpng
  exact ⟨_, by rw [hpng.file, List.append_assoc, List.append_assoc]⟩

theorem IsPng.pos {crc32 : Crc} {w h : Nat} {file : List UInt8} (hpng : IsPng crc32 w h file) :
    0 < w ∧ 0 < h := by
  obtain ⟨header, chunks, last, hpng, rfl, rfl⟩ := hpng
  exact ⟨hpng.header_data.width.1, hpng.header_data.height.1⟩

/-! ## What the walk reads -/

theorem fread_eq {n : Nat} {f buf g : List UInt8} :
    fread n f = some (buf, g) ↔ buf.length = n ∧ f = buf ++ g := by
  unfold fread
  split
  · rename_i h
    simp only [reduceCtorEq, false_iff, not_and]
    rintro rfl rfl
    simp only [List.length_append] at h
    omega
  · rename_i h
    simp only [Option.some.injEq, Prod.mk.injEq]
    constructor
    · rintro ⟨rfl, rfl⟩
      exact ⟨by rw [List.length_take]; omega, (List.take_append_drop n f).symm⟩
    · rintro ⟨rfl, rfl⟩
      exact ⟨List.take_left, List.drop_left⟩

theorem fread_append {buf : List UInt8} {n : Nat} (h : buf.length = n) (g : List UInt8) :
    fread n (buf ++ g) = some (buf, g) := fread_eq.mpr ⟨h, rfl⟩

theorem word_length (n : Nat) : (word n).length = 4 := rfl

theorem be32_append {p : List UInt8} (h : p.length = 4) (q : List UInt8) :
    be32 (p ++ q) = be32 p := by
  match p, h with
  | [a, b, c, d], _ => rfl

theorem be32_word {n : Nat} (h : n < 2 ^ 32) : be32 (word n) = n := by
  simp only [be32, word, List.getD_cons_zero, List.getD_cons_succ, UInt8.toNat_ofNat']
  omega

theorem word_be32 {p : List UInt8} (h : p.length = 4) : word (be32 p) = p := by
  match p, h with
  | [a, b, c, d], _ =>
    have ha := a.toNat_lt
    have hb := b.toNat_lt
    have hc := c.toNat_lt
    have hd := d.toNat_lt
    simp only [word, be32, List.getD_cons_zero, List.getD_cons_succ, List.cons.injEq, and_true]
    refine ⟨?_, ?_, ?_, ?_⟩
    all_goals
      apply UInt8.toNat_inj.mp
      rw [UInt8.toNat_ofNat']
      omega

theorem badHeader_eq_false {data : List UInt8} (hlen : data.length = 13) :
    badHeader data = false ↔ ValidHeader data := by
  simp only [badHeader, Bool.or_eq_false_iff, beq_eq_false_iff_ne, ne_eq, decide_eq_false_iff_not,
    Bool.not_eq_false', bne_eq_false_iff_eq]
  constructor
  · rintro ⟨⟨⟨⟨⟨⟨⟨hx, hy⟩, hx'⟩, hy'⟩, hd⟩, hc⟩, hf⟩, hi⟩
    exact ⟨⟨hlen, ⟨by omega, by omega⟩, ⟨by omega, by omega⟩, hd⟩, hc, hf,
      UInt8.not_lt.mp hi⟩
  · rintro ⟨⟨-, ⟨hx, hx'⟩, ⟨hy, hy'⟩, hd⟩, hc, hf, hi⟩
    exact ⟨⟨⟨⟨⟨⟨⟨by omega, by omega⟩, by omega⟩, by omega⟩, hd⟩, hc⟩, hf⟩,
      UInt8.not_lt.mpr hi⟩

section Sum

variable {crc32 : Crc}

theorem dataTurn_lt {ihdr : Bool} {s t : InChunk} (h : dataTurn crc32 ihdr s = .again t) :
    t.remaining < s.remaining := by
  unfold dataTurn at h
  split at h
  · cases h
  · cases hf : fread (min s.remaining 8192) s.file with
    | none => simp [hf] at h
    | some bf =>
      simp only [hf] at h
      split at h
      · split at h
        · cases h
        · cases h
          simp only
          omega
      · cases h
        simp only
        omega

theorem readData_eq {ihdr : Bool} {s : InChunk} {r : Option InChunk}
    (h : Leaves (dataTurn crc32 ihdr) s r) : readData crc32 ihdr s = r := by
  rw [readData, (loop_eq_some (m := InChunk.remaining) dataTurn_lt (Nat.lt_succ_self _)).mpr h]
  rfl

variable (hcrc : ∀ c a b, crc32 c (a ++ b) = crc32 (crc32 c a) b)
include hcrc

/-- The data of a chunk other than the header. -/
theorem leaves_data {s : InChunk} {p : List UInt8} (hs : s.crc = crc32 0 p) :
    Leaves (dataTurn crc32 false) s
      (if s.file.length < s.remaining then none
      else some { s with
        remaining := 0
        crc := crc32 0 (p ++ s.file.take s.remaining)
        file := s.file.drop s.remaining }) := by
  obtain ⟨remaining, crc, w, h, file⟩ := s
  induction remaining using Nat.strongRecOn generalizing crc file p with
  | ind remaining ih =>
    simp only at hs ⊢
    subst hs
    by_cases hzero : remaining = 0
    · subst hzero
      exact .leave (by simp [dataTurn])
    · by_cases hshort : file.length < min remaining 8192
      · rw [if_pos (by omega)]
        refine .leave ?_
        simp only [dataTurn, fread, hzero, hshort, if_false, if_true]
      · have hturn : dataTurn crc32 false ⟨remaining, crc32 0 p, w, h, file⟩ =
            .again ⟨remaining - min remaining 8192,
              crc32 0 (p ++ file.take (min remaining 8192)), w, h,
              file.drop (min remaining 8192)⟩ := by
          simp only [dataTurn, fread, hzero, hshort, if_false, Bool.false_eq_true, hcrc]
        have hnext := ih (remaining - min remaining 8192) (by omega)
          (p := p ++ file.take (min remaining 8192)) _ (file.drop (min remaining 8192)) rfl
        rw [leaves_again hturn]
        have hsum : min remaining 8192 + (remaining - min remaining 8192) = remaining := by omega
        rw [List.append_assoc, ← List.take_add, List.drop_drop, hsum] at hnext
        simp only [List.length_drop] at hnext
        by_cases hlen : file.length < remaining
        · rw [if_pos hlen]
          rwa [if_pos (by omega)] at hnext
        · rw [if_neg hlen]
          rwa [if_neg (by omega)] at hnext

/-- The data of the header, which is read at once. -/
theorem leaves_header {s : InChunk} {pre : List UInt8} (hs : s.crc = crc32 0 pre)
    (hlen : s.remaining = 13) :
    Leaves (dataTurn crc32 true) s
      (if s.file.length < 13 ∨ badHeader (s.file.take 13) = true then none
      else some ⟨0, crc32 0 (pre ++ s.file.take 13), be32 (s.file.take 13),
        be32 ((s.file.take 13).drop 4), s.file.drop 13⟩) := by
  obtain ⟨remaining, crc, w, h, file⟩ := s
  simp only at hs hlen ⊢
  subst hs hlen
  by_cases hshort : file.length < 13
  · rw [if_pos (.inl hshort)]
    exact .leave (by simp [dataTurn, fread, hshort])
  · by_cases hbad : badHeader (file.take 13) = true
    · rw [if_pos (.inr hbad)]
      exact .leave (by simp [dataTurn, fread, hshort, hbad])
    · rw [if_neg (by simp [hshort, hbad])]
      refine .again (t := ⟨0, crc32 0 (pre ++ file.take 13), be32 (file.take 13),
        be32 ((file.take 13).drop 4), file.drop 13⟩) ?_ (.leave (by simp [dataTurn]))
      simp [dataTurn, fread, hshort, hbad, hcrc]

theorem readData_append {ihdr : Bool} {type data : List UInt8} (w h : Nat) (g : List UInt8)
    (hlen : ihdr = true → data.length = 13) :
    readData crc32 ihdr ⟨data.length, crc32 0 type, w, h, data ++ g⟩ =
      if (ihdr && badHeader data) = true then none
      else some ⟨0, crc32 0 (type ++ data), if ihdr = true then be32 data else w,
        if ihdr = true then be32 (data.drop 4) else h, g⟩ := by
  cases ihdr with
  | false =>
    refine (readData_eq (leaves_data hcrc rfl)).trans ?_
    simp
  | true =>
    have hdata := hlen rfl
    refine (readData_eq (leaves_header hcrc rfl hdata)).trans ?_
    have htake : (data ++ g).take 13 = data := by rw [← hdata, List.take_left]
    have hdrop : (data ++ g).drop 13 = g := by rw [← hdata, List.drop_left]
    have hlong : ¬ (data ++ g).length < 13 := by rw [List.length_append]; omega
    simp only [htake, hdrop, hlong, false_or, Bool.true_and, if_true]

theorem readData_short {ihdr : Bool} {type f : List UInt8} {n : Nat} (w h : Nat)
    (hlen : ihdr = true → n = 13) (hf : f.length < n) :
    readData crc32 ihdr ⟨n, crc32 0 type, w, h, f⟩ = none := by
  cases ihdr with
  | false =>
    refine (readData_eq (leaves_data hcrc rfl)).trans ?_
    rw [if_pos hf]
  | true =>
    have hn := hlen rfl
    refine (readData_eq (leaves_header hcrc rfl hn)).trans ?_
    rw [if_pos (.inl (by simp only; omega))]

/-! ## Chunks and turns of the walk -/

structure Allowed (s : Walk) (c : Chunk) : Prop where
  first : s.seenHeader = true ∨ c.type = typeIHDR
  header : c.type = typeIHDR → s.seenHeader = false ∧ ValidHeader c.data
  last : c.type = typeIEND → c.data = [] ∧ s.seenData = true

def Walk.after (s : Walk) (c : Chunk) (g : List UInt8) : Walk where
  w := if c.type == typeIHDR then be32 c.data else s.w
  h := if c.type == typeIHDR then be32 (c.data.drop 4) else s.h
  seenHeader := s.seenHeader || c.type == typeIHDR
  seenData := s.seenData || (c.type == typeIDAT && c.data.length != 0)
  file := g

omit hcrc in
/-- The first eight bytes of a chunk. -/
theorem fread_chunk {s : Walk} {c : Chunk} {g : List UInt8}
    (hfile : s.file = c.bytes crc32 ++ g) :
    fread 8 s.file = some (word c.data.length ++ c.type,
      c.data ++ (word (crc32 0 (c.type ++ c.data)).toNat ++ g)) := by
  rw [hfile, Chunk.bytes, List.append_assoc, List.append_assoc]
  exact fread_append (by simp [word_length, c.type_length]) _

omit hcrc in
theorem be32_header (c : Chunk) : be32 (word c.data.length ++ c.type) = c.data.length := by
  have := c.data_length
  rw [be32_append (word_length _), be32_word (by unfold intMax at this; omega)]

/-- A turn over a chunk. -/
theorem turn_chunk {s : Walk} {c : Chunk} {g : List UInt8}
    (hfile : s.file = c.bytes crc32 ++ g) :
    turn crc32 s =
      if !s.seenHeader && !(c.type == typeIHDR) then .leave none
      else if c.type == typeIHDR && (s.seenHeader || c.data.length != 13) then .leave none
      else if c.type == typeIEND && (c.data.length != 0 || !s.seenData) then .leave none
      else if c.type == typeIHDR && badHeader c.data then .leave none
      else if c.type == typeIEND then .leave (some ((s.after c g).w, (s.after c g).h, g))
      else .again (s.after c g) := by
  have hlong : ¬ c.data.length > intMax := by have := c.data_length; omega
  have hdrop : (word c.data.length ++ c.type).drop 4 = c.type := rfl
  unfold turn
  simp only [fread_chunk hfile, be32_header, hdrop, hlong, decide_false, Bool.false_or]
  split
  · rfl
  split
  · rfl
  rename_i hheader
  split
  · rfl
  have hihdr : (c.type == typeIHDR) = true → c.data.length = 13 := by
    intro hihdr
    simp only [hihdr, Bool.true_and, Bool.or_eq_true, bne_iff_ne, ne_eq, not_or,
      Decidable.not_not] at hheader
    exact hheader.2
  rw [readData_append hcrc s.w s.h _ hihdr]
  cases hbad : (c.type == typeIHDR && badHeader c.data) with
  | true => rfl
  | false =>
    simp only [Bool.false_eq_true, if_false, fread_append (word_length _),
      be32_word (UInt32.toNat_lt _), bne_self_eq_false]
    rfl

theorem turn_allowed {s : Walk} {c : Chunk} {g : List UInt8}
    (hfile : s.file = c.bytes crc32 ++ g) (h : Allowed s c) :
    turn crc32 s =
      if c.type == typeIEND then .leave (some ((s.after c g).w, (s.after c g).h, g))
      else .again (s.after c g) := by
  obtain ⟨hfirst, hheader, hlast⟩ := h
  rw [turn_chunk hcrc hfile]
  rw [if_neg, if_neg, if_neg, if_neg]
  · intro hbad
    simp only [Bool.and_eq_true, beq_iff_eq] at hbad
    have hvalid := (hheader hbad.1).2
    rw [(badHeader_eq_false hvalid.length).mpr hvalid] at hbad
    cases hbad.2
  · intro hbad
    simp only [Bool.and_eq_true, beq_iff_eq] at hbad
    obtain ⟨hdata, hseen⟩ := hlast hbad.1
    simp [hdata, hseen] at hbad
  · intro hbad
    simp only [Bool.and_eq_true, beq_iff_eq] at hbad
    obtain ⟨hseen, hvalid⟩ := hheader hbad.1
    simp [hseen, hvalid.length] at hbad
  · intro hbad
    simp only [Bool.and_eq_true, Bool.not_eq_true', beq_eq_false_iff_ne] at hbad
    rcases hfirst with hseen | hihdr
    · rw [hbad.1] at hseen
      cases hseen
    · exact hbad.2 hihdr

theorem turn_refused {s : Walk} {c : Chunk} {g : List UInt8}
    (hfile : s.file = c.bytes crc32 ++ g) (h : ¬ Allowed s c) :
    turn crc32 s = .leave none := by
  rw [turn_chunk hcrc hfile]
  split
  · rfl
  rename_i hfirst
  split
  · rfl
  rename_i hheader
  split
  · rfl
  rename_i hlast
  split
  · rfl
  rename_i hbad
  refine absurd ⟨?_, ?_, ?_⟩ h
  · cases hseen : s.seenHeader with
    | true => exact .inl rfl
    | false => exact .inr (by simpa [hseen] using hfirst)
  · intro hihdr
    simp only [hihdr, beq_self_eq_true, Bool.true_and, Bool.or_eq_true, not_or, bne_iff_ne, ne_eq,
      Decidable.not_not, Bool.not_eq_true] at hheader hbad
    exact ⟨hheader.1, (badHeader_eq_false hheader.2).mp hbad⟩
  · intro hiend
    simpa [hiend] using hlast

/-- Where a turn does not refuse the file there is a chunk. -/
theorem exists_chunk {s : Walk} (h : turn crc32 s ≠ .leave none) :
    ∃ (c : Chunk) (g : List UInt8), s.file = c.bytes crc32 ++ g := by
  unfold turn at h
  cases hread : fread 8 s.file with
  | none => exact absurd (by rw [hread]) h
  | some header =>
    obtain ⟨header, f⟩ := header
    obtain ⟨hlen, hfile⟩ := fread_eq.mp hread
    simp only [hread] at h
    split at h
    · exact absurd rfl h
    rename_i hlong
    split at h
    · exact absurd rfl h
    rename_i hheader
    split at h
    · exact absurd rfl h
    have hword : (header.take 4).length = 4 := by rw [List.length_take]; omega
    have htype : (header.drop 4).length = 4 := by rw [List.length_drop]; omega
    have hbe : be32 header = be32 (header.take 4) := by
      rw [← be32_append hword (header.drop 4), List.take_append_drop]
    have hihdr : (header.drop 4 == typeIHDR) = true → be32 header = 13 := by
      intro hihdr
      simp only [hihdr, Bool.true_and, Bool.or_eq_true, bne_iff_ne, ne_eq, not_or,
        Decidable.not_not] at hheader
      exact hheader.2
    by_cases hshort : f.length < be32 header
    · rw [readData_short hcrc s.w s.h hihdr hshort] at h
      exact absurd rfl h
    -- the data, and what comes after it
    obtain ⟨data, g, rfl, hdata⟩ : ∃ data g, f = data ++ g ∧ data.length = be32 header :=
      ⟨f.take (be32 header), f.drop (be32 header), (List.take_append_drop _ _).symm, by
        rw [List.length_take]; omega⟩
    rw [← hdata] at hihdr h
    rw [readData_append hcrc s.w s.h _ hihdr] at h
    cases hbad : (header.drop 4 == typeIHDR && badHeader data) with
    | true => rw [hbad] at h; exact absurd rfl h
    | false =>
      simp only [hbad, Bool.false_eq_true, if_false] at h
      cases hsum : fread 4 g with
      | none => rw [hsum] at h; exact absurd rfl h
      | some sum =>
        obtain ⟨checksum, g⟩ := sum
        obtain ⟨hchecksum, rfl⟩ := fread_eq.mp hsum
        simp only [hsum] at h
        split at h
        · exact absurd rfl h
        rename_i hsame
        simp only [bne_iff_ne, ne_eq, Decidable.not_not] at hsame
        simp only [Bool.or_eq_true, decide_eq_true_eq, not_or] at hlong
        refine ⟨⟨header.drop 4, data, htype, by omega⟩, g, ?_⟩
        simp only [Chunk.bytes]
        rw [hfile, hdata, hbe, word_be32 hword, List.take_append_drop, ← hsame,
          word_be32 hchecksum]
        simp

/-- What a turn that goes on has read. -/
theorem turn_again {s t : Walk} (h : turn crc32 s = .again t) :
    ∃ c : Chunk, s.file = c.bytes crc32 ++ t.file ∧ Allowed s c ∧ c.type ≠ typeIEND ∧
      t = s.after c t.file := by
  obtain ⟨c, g, hfile⟩ := exists_chunk hcrc (by rw [h]; rintro ⟨⟩)
  by_cases hallowed : Allowed s c
  · rw [turn_allowed hcrc hfile hallowed] at h
    split at h
    · cases h
    · rename_i hend
      cases h
      exact ⟨c, hfile, hallowed, by simpa using hend, rfl⟩
  · rw [turn_refused hcrc hfile hallowed] at h
    cases h

/-- What a turn that leaves with a size has read. -/
theorem turn_leave {s : Walk} {w h : Nat} {rest : List UInt8}
    (hturn : turn crc32 s = .leave (some (w, h, rest))) :
    ∃ c : Chunk, s.file = c.bytes crc32 ++ rest ∧ Allowed s c ∧ c.type = typeIEND ∧
      w = s.w ∧ h = s.h := by
  obtain ⟨c, g, hfile⟩ := exists_chunk hcrc (by rw [hturn]; rintro ⟨⟩)
  by_cases hallowed : Allowed s c
  · rw [turn_allowed hcrc hfile hallowed] at hturn
    split at hturn
    · rename_i hend
      cases hturn
      have hend : c.type = typeIEND := by simpa using hend
      exact ⟨c, hfile, hallowed, hend, by simp [Walk.after, hend, typeIEND, typeIHDR],
        by simp [Walk.after, hend, typeIEND, typeIHDR]⟩
    · cases hturn
  · rw [turn_refused hcrc hfile hallowed] at hturn
    cases hturn

/-- Every turn reads something. -/
theorem turn_lt {s t : Walk} (h : turn crc32 s = .again t) : t.file.length < s.file.length := by
  obtain ⟨c, hfile, -⟩ := turn_again hcrc h
  have := congrArg List.length hfile
  simp only [Chunk.bytes, List.length_append, word_length, c.type_length] at this
  omega

/-! ## The walk over a PNG -/

omit hcrc in
/-- Behind the header: chunks with image data up to the end chunk, unless there was image
data before. -/
structure Reads (crc32 : Crc) (s : Walk) (rest : List UInt8) (chunks : List Chunk)
    (last : Chunk) : Prop where
  file : s.file = chunks.flatMap (Chunk.bytes crc32) ++ last.bytes crc32 ++ rest
  inner : ∀ c ∈ chunks, Inner c
  image : s.seenData = true ∨ ∃ c ∈ chunks, c.type = typeIDAT ∧ c.data ≠ []
  last_type : last.type = typeIEND
  last_data : last.data = []

omit hcrc in
theorem Inner.after {c : Chunk} (hc : Inner c) {s : Walk} (hs : s.seenHeader = true)
    (g : List UInt8) : s.after c g =
      ⟨s.w, s.h, true, s.seenData || (c.type == typeIDAT && c.data.length != 0), g⟩ := by
  simp [Walk.after, hc.not_header, hs]

theorem leaves_of_reads {chunks : List Chunk} {last : Chunk} {s : Walk} {rest : List UInt8}
    (hs : s.seenHeader = true) (h : Reads crc32 s rest chunks last) :
    Leaves (turn crc32) s (some (s.w, s.h, rest)) := by
  induction chunks generalizing s with
  | nil =>
    have hseen : s.seenData = true := by simpa using h.image
    have hlast : Allowed s last := by
      refine ⟨.inl hs, fun hihdr => ?_, fun _ => ⟨h.last_data, hseen⟩⟩
      rw [h.last_type] at hihdr
      exact absurd hihdr (by decide)
    refine .leave ((turn_allowed hcrc (by simpa using h.file) hlast).trans ?_)
    simp [Walk.after, h.last_type, typeIEND, typeIHDR]
  | cons c chunks ih =>
    obtain ⟨hc, hchunks⟩ := List.forall_mem_cons.mp h.inner
    have hfile : s.file = c.bytes crc32 ++
        (chunks.flatMap (Chunk.bytes crc32) ++ last.bytes crc32 ++ rest) := by
      rw [h.file]
      simp
    have hallowed : Allowed s c :=
      ⟨.inl hs, fun hihdr => absurd hihdr hc.not_header, fun hiend => absurd hiend hc.not_end⟩
    have hturn := turn_allowed hcrc hfile hallowed
    rw [if_neg (by simpa using hc.not_end), hc.after hs] at hturn
    refine .again hturn (ih rfl ⟨rfl, hchunks, ?_, h.last_type, h.last_data⟩)
    rcases h.image with hseen | ⟨d, hd, hdat, hne⟩
    · exact .inl (by simp [hseen])
    · rcases List.mem_cons.mp hd with rfl | hd
      · exact .inl (by simp [hdat, hne])
      · exact .inr ⟨d, hd, hdat, hne⟩

theorem reads_of_leaves {s : Walk} {r : Option (Nat × Nat × List UInt8)}
    (h : Leaves (turn crc32) s r) {w' h' : Nat} {rest : List UInt8} (hr : r = some (w', h', rest))
    (hs : s.seenHeader = true) :
    ∃ chunks last, Reads crc32 s rest chunks last ∧ w' = s.w ∧ h' = s.h := by
  induction h with
  | leave hturn =>
    subst hr
    obtain ⟨c, hfile, hallowed, hend, hw, hh⟩ := turn_leave hcrc hturn
    obtain ⟨hdata, hseen⟩ := hallowed.last hend
    exact ⟨[], c, ⟨by simpa using hfile, by simp, .inl hseen, hend, hdata⟩, hw, hh⟩
  | @again s t r hturn _ ih =>
    obtain ⟨c, hfile, hallowed, hend, ht⟩ := turn_again hcrc hturn
    have hc : Inner c := by
      refine ⟨fun hihdr => ?_, hend⟩
      have := (hallowed.header hihdr).1
      rw [hs] at this
      cases this
    rw [hc.after hs] at ht
    obtain ⟨chunks, last, hreads, hw, hh⟩ := ih hr (by rw [ht])
    refine ⟨c :: chunks, last, ⟨?_, List.forall_mem_cons.mpr ⟨hc, hreads.inner⟩, ?_,
      hreads.last_type, hreads.last_data⟩, by rw [hw, ht], by rw [hh, ht]⟩
    · rw [hfile, hreads.file]
      simp
    · rcases hreads.image with hseen | ⟨d, hd, himage⟩
      · rw [ht] at hseen
        simp only [Bool.or_eq_true, Bool.and_eq_true, beq_iff_eq, bne_iff_ne, ne_eq,
          List.length_eq_zero_iff] at hseen
        rcases hseen with hseen | himage
        · exact .inl hseen
        · exact .inr ⟨c, List.mem_cons_self, himage⟩
      · exact .inr ⟨d, List.mem_cons_of_mem _ hd, himage⟩

/-- Behind the signature the walk leaves with a size behind a PNG of it and nowhere else. -/
theorem leaves_iff (f rest : List UInt8) (w h : Nat) :
    Leaves (turn crc32) ⟨0, 0, false, false, f⟩ (some (w, h, rest)) ↔
      ∃ png, IsPng crc32 w h png ∧ signature ++ f = png ++ rest := by
  constructor
  · rintro (hturn | ⟨hturn, hleaves⟩)
    · obtain ⟨c, -, hallowed, hend, -⟩ := turn_leave hcrc hturn
      rcases hallowed.first with hseen | hihdr
      · cases hseen
      · rw [hend] at hihdr
        exact absurd hihdr (by decide)
    · obtain ⟨c, hfile, hallowed, hend, ht⟩ := turn_again hcrc hturn
      have hihdr : c.type = typeIHDR := by
        rcases hallowed.first with hseen | hihdr
        · cases hseen
        · exact hihdr
      obtain ⟨chunks, last, hreads, hw, hh⟩ :=
        reads_of_leaves hcrc hleaves rfl (by rw [ht]; simp [Walk.after, hihdr])
      refine ⟨_, ⟨c, chunks, last, ⟨rfl, hihdr, (hallowed.header hihdr).2, hreads.inner, ?_,
        hreads.last_type, hreads.last_data⟩, ?_, ?_⟩, ?_⟩
      · rcases hreads.image with hseen | himage
        · rw [ht] at hseen
          simp [Walk.after, hihdr, typeIHDR, typeIDAT] at hseen
        · exact himage
      · rw [hw, ht]
        simp [Walk.after, hihdr]
      · rw [hh, ht]
        simp [Walk.after, hihdr]
      · simp only at hfile
        rw [hfile, hreads.file]
        simp
  · rintro ⟨_, ⟨header, chunks, last,
      ⟨rfl, htype, hdata, hinner, himage, hlast, hempty⟩, rfl, rfl⟩, hf⟩
    simp only [List.append_assoc, List.append_cancel_left_eq] at hf
    have hallowed : Allowed ⟨0, 0, false, false, f⟩ header := by
      refine ⟨.inr htype, fun _ => ⟨rfl, hdata⟩, fun hiend => ?_⟩
      rw [htype] at hiend
      exact absurd hiend (by decide)
    have hturn := turn_allowed hcrc hf hallowed
    rw [if_neg (by rw [htype]; decide)] at hturn
    have hreads : Reads crc32 (Walk.after ⟨0, 0, false, false, f⟩ header
        (chunks.flatMap (Chunk.bytes crc32) ++ (last.bytes crc32 ++ rest))) rest chunks last :=
      ⟨by simp [Walk.after], hinner, .inr himage, hlast, hempty⟩
    have hleaves := leaves_of_reads hcrc (by simp [Walk.after, htype]) hreads
    refine .again hturn ?_
    simpa [Walk.after, htype] using hleaves

/-! ## What is said of a file -/

omit hcrc in
/-- enil_png_info returns 1, given turns enough. -/
def Accepts (crc32 : Crc) (file : List UInt8) : Prop :=
  ∃ fuel info, enilPngInfo crc32 fuel file = some info ∧ info.ok = true

omit hcrc in
theorem enilPngInfo_unsigned {file : List UInt8} (h : ∀ f, file ≠ signature ++ f) (fuel : Nat) :
    enilPngInfo crc32 fuel file = some .bad := by
  unfold enilPngInfo
  cases hread : fread 8 file with
  | none => rfl
  | some header =>
    obtain ⟨header, f⟩ := header
    obtain ⟨-, rfl⟩ := fread_eq.mp hread
    have hne : header ≠ signature := by
      rintro rfl
      exact h f rfl
    exact if_pos (bne_iff_ne.mpr hne)

omit hcrc in
theorem enilPngInfo_signed (f : List UInt8) (fuel : Nat) :
    enilPngInfo crc32 fuel (signature ++ f) =
      (loop (turn crc32) fuel ⟨0, 0, false, false, f⟩).map infoOf := by
  unfold enilPngInfo
  rw [fread_append (show signature.length = 8 from rfl)]
  rfl

omit hcrc in
theorem enilPngInfo_unique {file : List UInt8} {m n : Nat} {i j : Info}
    (hi : enilPngInfo crc32 m file = some i) (hj : enilPngInfo crc32 n file = some j) : i = j := by
  by_cases h : ∃ f, file = signature ++ f
  · obtain ⟨f, rfl⟩ := h
    rw [enilPngInfo_signed, Option.map_eq_some_iff] at hi hj
    obtain ⟨r, hr, rfl⟩ := hi
    obtain ⟨r', hr', rfl⟩ := hj
    rw [(leaves_of_loop hr).unique (leaves_of_loop hr')]
  · rw [not_exists] at h
    rw [enilPngInfo_unsigned h] at hi hj
    exact Option.some.inj (hi.symm.trans hj)

theorem exists_enilPngInfo (file : List UInt8) :
    ∃ info, ∀ fuel, file.length < fuel → enilPngInfo crc32 fuel file = some info := by
  by_cases h : ∃ f, file = signature ++ f
  · obtain ⟨f, rfl⟩ := h
    have hlt : ∀ {s t : Walk}, turn crc32 s = .again t → t.file.length < s.file.length :=
      turn_lt hcrc
    obtain ⟨r, hr⟩ := exists_loop (m := fun s : Walk => s.file.length) hlt
      (s := ⟨0, 0, false, false, f⟩) (Nat.lt_succ_self _)
    refine ⟨infoOf r, fun fuel hfuel => ?_⟩
    rw [List.length_append] at hfuel
    rw [enilPngInfo_signed, (loop_eq_some (m := fun s : Walk => s.file.length) hlt
      (by simp only; omega)).mpr (leaves_of_loop hr)]
    rfl
  · rw [not_exists] at h
    exact ⟨.bad, fun fuel _ => enilPngInfo_unsigned h fuel⟩

/-- A PNG with bytes behind it is told from one without. -/
theorem enilPngInfo_png {png : List UInt8} {w h fuel : Nat} (hpng : IsPng crc32 w h png)
    (rest : List UInt8) (hfuel : (png ++ rest).length < fuel) :
    enilPngInfo crc32 fuel (png ++ rest) = some (infoOf (some (w, h, rest))) := by
  obtain ⟨f, rfl⟩ := hpng.eq_append
  obtain ⟨info, hinfo⟩ := exists_enilPngInfo hcrc (signature ++ f ++ rest)
  have hsome := hinfo fuel hfuel
  rw [hsome]
  rw [List.append_assoc, enilPngInfo_signed, Option.map_eq_some_iff] at hsome
  obtain ⟨r, hr, rfl⟩ := hsome
  have hleaves := (leaves_iff hcrc (f ++ rest) rest w h).mpr
    ⟨_, hpng, (List.append_assoc _ _ _).symm⟩
  rw [(leaves_of_loop hr).unique hleaves]

theorem isPng_of_ok {file : List UInt8} {fuel : Nat} {info : Info}
    (h : enilPngInfo crc32 fuel file = some info) (hok : info.ok = true) :
    IsPng crc32 info.width info.height file := by
  by_cases hs : ∃ f, file = signature ++ f
  · obtain ⟨f, rfl⟩ := hs
    rw [enilPngInfo_signed, Option.map_eq_some_iff] at h
    obtain ⟨r, hr, rfl⟩ := h
    rcases r with - | ⟨w, h, rest⟩
    · cases hok
    · rcases rest with - | ⟨b, rest⟩
      · obtain ⟨png, hpng, hf⟩ := (leaves_iff hcrc f [] w h).mp (leaves_of_loop hr)
        rw [hf, List.append_nil]
        exact hpng
      · cases hok
  · rw [not_exists] at hs
    rw [enilPngInfo_unsigned hs, Option.some.injEq] at h
    subst h
    cases hok

omit hcrc in
theorem outputs_of_not_ok {file : List UInt8} {fuel : Nat} {info : Info}
    (h : enilPngInfo crc32 fuel file = some info) (hok : info.ok = false) : info = .bad := by
  by_cases hs : ∃ f, file = signature ++ f
  · obtain ⟨f, rfl⟩ := hs
    rw [enilPngInfo_signed, Option.map_eq_some_iff] at h
    obtain ⟨r, -, rfl⟩ := h
    rcases r with - | ⟨w, h, - | ⟨b, rest⟩⟩
    · rfl
    · cases hok
    · rfl
  · rw [not_exists] at hs
    rw [enilPngInfo_unsigned hs, Option.some.injEq] at h
    exact h.symm

/-- A PNG with more behind it is refused. -/
theorem not_accepts_append {png rest : List UInt8} {w h : Nat} (hpng : IsPng crc32 w h png)
    (hrest : rest ≠ []) : ¬ Accepts crc32 (png ++ rest) := by
  rintro ⟨fuel, info, hinfo, hok⟩
  have hbad := enilPngInfo_unique hinfo
    (enilPngInfo_png hcrc hpng rest (Nat.lt_succ_self (png ++ rest).length))
  subst hbad
  obtain ⟨b, rest, rfl⟩ := List.exists_cons_of_ne_nil hrest
  cases hok

end Sum

/-- The file is accepted if and only if it is a PNG; then its size is returned, and nothing
shorter or longer that begins the same way is accepted. -/
theorem enilPngInfo_iff (crc32 : Crc) (hcrc : ∀ c a b, crc32 c (a ++ b) = crc32 (crc32 c a) b)
    (file : List UInt8) :
    ∃ info, (∀ fuel, file.length < fuel → enilPngInfo crc32 fuel file = some info) ∧
      (info.ok = true ↔ ∃ w h, IsPng crc32 w h file) ∧
      (info.ok = true → IsPng crc32 info.width info.height file ∧
        0 < info.width ∧ 0 < info.height ∧
        (∀ rest, rest ≠ [] → ¬ Accepts crc32 (file ++ rest)) ∧
        ∀ front rest, file = front ++ rest → rest ≠ [] → ¬ Accepts crc32 front) ∧
      (info.ok = false → info.width = 0 ∧ info.height = 0) := by
  obtain ⟨info, hinfo⟩ := exists_enilPngInfo hcrc file
  have hsome := hinfo _ (Nat.lt_succ_self _)
  refine ⟨info, hinfo, ⟨fun hok => ⟨_, _, isPng_of_ok hcrc hsome hok⟩, ?_⟩, fun hok => ?_,
    fun hok => by rw [outputs_of_not_ok hsome hok]; exact ⟨rfl, rfl⟩⟩
  · rintro ⟨w, h, hpng⟩
    have := enilPngInfo_png hcrc hpng [] (Nat.lt_succ_self _)
    rw [List.append_nil] at this
    rw [enilPngInfo_unique hsome this]
    rfl
  · have hpng := isPng_of_ok hcrc hsome hok
    refine ⟨hpng, hpng.pos.1, hpng.pos.2,
      fun rest hrest => not_accepts_append hcrc hpng hrest, ?_⟩
    rintro front rest rfl hrest ⟨fuel, front', hfront, hfrontok⟩
    exact not_accepts_append hcrc (isPng_of_ok hcrc hfront hfrontok) hrest
      ⟨_, _, hsome, hok⟩

/-! ## The sum of zlib -/

def crcBit (c : UInt32) : UInt32 :=
  if c &&& 1 = 1 then (c >>> 1) ^^^ 0xedb88320 else c >>> 1

def crcByte (c : UInt32) (b : UInt8) : UInt32 :=
  (List.range 8).foldl (fun c _ => crcBit c) (c ^^^ b.toUInt32)

def zlibCrc32 : Crc := fun c bytes => ~~~ (bytes.foldl crcByte (~~~ c))

theorem zlibCrc32_append (c : UInt32) (a b : List UInt8) :
    zlibCrc32 c (a ++ b) = zlibCrc32 (zlibCrc32 c a) b := by
  simp only [zlibCrc32, List.foldl_append, UInt32.not_not]

example : zlibCrc32 0 [49, 50, 51, 52, 53, 54, 55, 56, 57] = 0xcbf43926 := by decide +kernel

def imageData : Chunk where
  type := typeIDAT
  data := [120, 156, 99, 248, 207, 192, 240, 31, 0, 5, 0, 1, 255]
  type_length := rfl
  data_length := by decide

def endChunk : Chunk where
  type := typeIEND
  data := []
  type_length := rfl
  data_length := by decide

def pixelHeader (interlace : UInt8) : Chunk where
  type := typeIHDR
  data := [0, 0, 0, 1, 0, 0, 0, 1, 8, 6, 0, 0, interlace]
  type_length := rfl
  data_length := by simp [intMax]

def pixel (interlace : UInt8) : List UInt8 :=
  signature ++ (pixelHeader interlace).bytes zlibCrc32 ++
    [imageData].flatMap (Chunk.bytes zlibCrc32) ++ endChunk.bytes zlibCrc32

theorem enilPngInfo_pixel : enilPngInfo zlibCrc32 100 (pixel 0) = some ⟨true, 1, 1⟩ ∧
    ∃ info, (∀ fuel, (pixel 0).length < fuel →
        enilPngInfo zlibCrc32 fuel (pixel 0) = some info) ∧
      (info.ok = true ↔ ∃ w h, IsPng zlibCrc32 w h (pixel 0)) ∧
      (info.ok = true → IsPng zlibCrc32 info.width info.height (pixel 0) ∧
        0 < info.width ∧ 0 < info.height ∧
        (∀ rest, rest ≠ [] → ¬ Accepts zlibCrc32 (pixel 0 ++ rest)) ∧
        ∀ front rest, pixel 0 = front ++ rest → rest ≠ [] → ¬ Accepts zlibCrc32 front) ∧
      (info.ok = false → info.width = 0 ∧ info.height = 0) :=
  ⟨by decide +kernel, enilPngInfo_iff zlibCrc32 zlibCrc32_append (pixel 0)⟩

/-- Dimensions and depth are not all that is asked of a header. -/
theorem interlaced_refused : ¬ ∀ file, Accepts zlibCrc32 file ↔
    ∃ header chunks last, PngWith ValidSize zlibCrc32 file header chunks last := by
  intro h
  have hpng : PngWith ValidSize zlibCrc32 (pixel 2) (pixelHeader 2) [imageData] endChunk := by
    refine ⟨rfl, rfl, ⟨rfl, by decide, by decide, by decide⟩, ?_, ?_, rfl, rfl⟩
    · rintro c hc
      rw [List.mem_singleton.mp hc]
      exact ⟨by decide, by decide⟩
    · exact ⟨imageData, List.mem_singleton.mpr rfl, rfl, by decide⟩
  obtain ⟨fuel, info, hinfo, hok⟩ := (h (pixel 2)).mpr ⟨_, _, _, hpng⟩
  have hbad : enilPngInfo zlibCrc32 100 (pixel 2) = some .bad := by decide
  rw [enilPngInfo_unique hinfo hbad] at hok
  cases hok

end Enil.Png
