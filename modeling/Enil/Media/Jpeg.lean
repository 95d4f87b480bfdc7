import Enil.Lib.Loop
import Mathlib.Algebra.Ring.Nat

/-!
# A complete JPEG

`enil_jpeg_complete` walks over the markers of a file and says whether the image in it
ends. A JPEG here is the start of image, marker segments and scans, and the end of image;
the file may go on after it. The walk accepts the files that begin with one.
-/

namespace Enil.Jpeg

open Enil.Lib

/-! ## The walk -/

/-- `do c = fgetc(f); while (c != EOF && c != 0xff)`: what is left after the FF. -/
def skipToFF : List UInt8 → Option (List UInt8)
  | [] => none
  | c :: f => if c = 0xff then some f else skipToFF f

/-- `fgetc(f) != 0xff` fails. -/
def readFF : List UInt8 → Option (List UInt8)
  | [] => none
  | c :: f => if c = 0xff then some f else none

/-- `do marker = fgetc(f); while (marker == 0xff)` -/
def readMarker : List UInt8 → Option (UInt8 × List UInt8)
  | [] => none
  | c :: f => if c = 0xff then readMarker f else some (c, f)

/-- `while (remaining--) if (fgetc(f) == EOF) goto done` -/
def readOver : Nat → List UInt8 → Option (List UInt8)
  | 0, f => some f
  | _ + 1, [] => none
  | n + 1, _ :: f => readOver n f

/-- A segment's length, which counts its own two bytes, and the rest of the segment. -/
def readSegment : List UInt8 → Option (List UInt8)
  | hi :: lo :: f =>
    let remaining : Int := (hi.toNat * 256 + lo.toNat : Nat) - 2
    if remaining < 0 then none else readOver remaining.toNat f
  | _ => none

def isRestart (marker : UInt8) : Bool := 0xd0 ≤ marker && marker ≤ 0xd7

/-- Between two markers: `scan`, `seen_scan` and what is left of the file. -/
structure Walk where
  scan : Bool
  seenScan : Bool
  file : List UInt8

/-- The marker the walk comes to next. -/
def nextMarker (s : Walk) : Option (UInt8 × List UInt8) :=
  (if s.scan then skipToFF s.file else readFF s.file).bind readMarker

/-- The body of `for (;;)`. It leaves with what the file holds after the end of image, and
with nothing where the image is not complete. -/
def turn (s : Walk) : Turn Walk (Option (List UInt8)) :=
  match nextMarker s with
  | none => .leave none
  | some (marker, f) =>
    if s.scan && (marker == 0 || isRestart marker) then
      -- stuffed FF or restart marker within entropy data
      .again { s with file := f }
    else if marker == 0xd9 then
      .leave (if s.seenScan then some f else none)
    else if marker == 0 || marker == 0xd8 || isRestart marker then
      .leave none
    else
      match if marker == 1 then some f else readSegment f with
      | none => .leave none
      | some f => .again ⟨marker == 0xda, s.seenScan || marker == 0xda, f⟩

/-- enil_jpeg_complete on the bytes of a file, with at most `fuel` turns. -/
def enilJpegComplete (fuel : Nat) : List UInt8 → Option Bool
  | c :: d :: f =>
    if c != 0xff || d != 0xd8 then some false
    else (loop turn fuel ⟨false, false, f⟩).map Option.isSome
  | _ => some false

/-! ## JPEG files -/

/-- A marker with the fill bytes before it. -/
def marker (fill : Nat) (code : UInt8) : List UInt8 := List.replicate (fill + 1) 0xff ++ [code]

/-- Entropy-coded data: bytes, stuffed FF and restart markers. -/
inductive Coded where
  | byte (b : UInt8) (hb : b ≠ 0xff)
  | stuffed (fill : Nat)
  | restart (fill : Nat) (code : UInt8) (hcode : isRestart code = true)

def Coded.bytes : Coded → List UInt8
  | .byte b _ => [b]
  | .stuffed fill => marker fill 0
  | .restart fill code _ => marker fill code

/-- The content of a segment, short enough for its length to be written. -/
structure Content where
  bytes : List UInt8
  short : bytes.length + 2 < 2 ^ 16

def Content.segment (c : Content) : List UInt8 :=
  let length := c.bytes.length + 2
  UInt8.ofNat (length / 256) :: UInt8.ofNat (length % 256) :: c.bytes

/-- The codes of markers that begin a segment and no scan. -/
structure SegmentCode (code : UInt8) : Prop where
  ne_zero : code ≠ 0
  ne_alone : code ≠ 1
  ne_start : code ≠ 0xd8
  ne_end : code ≠ 0xd9
  ne_scan : code ≠ 0xda
  ne_fill : code ≠ 0xff
  not_restart : isRestart code = false

/-- A marker without a segment, a marker segment, or a scan. -/
inductive Part where
  | alone (fill : Nat)
  | segment (fill : Nat) (code : UInt8) (hcode : SegmentCode code) (content : Content)
  | scan (fill : Nat) (header : Content) (data : List Coded)

def Part.bytes : Part → List UInt8
  | .alone fill => marker fill 1
  | .segment fill code _ content => marker fill code ++ content.segment
  | .scan fill header data => marker fill 0xda ++ header.segment ++ data.flatMap Coded.bytes

def Part.isScan : Part → Bool
  | .scan .. => true
  | _ => false

/-- Parts up to the end of image. -/
def partsBytes (parts : List Part) (fill : Nat) : List UInt8 :=
  parts.flatMap Part.bytes ++ marker fill 0xd9

/-- A start of image, parts with at least one scan, and an end of image. -/
def IsJpeg (image : List UInt8) : Prop :=
  ∃ parts fill, image = 0xff :: 0xd8 :: partsBytes parts fill ∧ ∃ p ∈ parts, p.isScan = true

/-! ## What the walk reads -/

theorem readOver_eq {n : Nat} {file f : List UInt8} :
    readOver n file = some f ↔ ∃ gone, gone.length = n ∧ file = gone ++ f := by
  induction n generalizing file with
  | zero =>
    simp only [readOver, Option.some.injEq, List.length_eq_zero_iff]
    constructor
    · rintro rfl; exact ⟨[], rfl, rfl⟩
    · rintro ⟨gone, rfl, rfl⟩; rfl
  | succ n ih =>
    cases file with
    | nil =>
      simp only [readOver, reduceCtorEq, false_iff, not_exists, not_and]
      intro gone hgone h
      have := congrArg List.length h
      simp only [List.length_nil, List.length_append, hgone] at this
      omega
    | cons c file =>
      rw [readOver, ih]
      constructor
      · rintro ⟨gone, rfl, rfl⟩; exact ⟨c :: gone, rfl, rfl⟩
      · rintro ⟨gone, hgone, h⟩
        cases gone with
        | nil => cases hgone
        | cons o gone =>
          obtain ⟨-, rfl⟩ := List.cons.inj h
          exact ⟨gone, by simpa using hgone, rfl⟩

theorem readSegment_segment (c : Content) (f : List UInt8) :
    readSegment (c.segment ++ f) = some f := by
  obtain ⟨bytes, short⟩ := c
  simp only [Content.segment, List.cons_append, readSegment, UInt8.toNat_ofNat']
  have hlen : (bytes.length + 2) / 256 % 2 ^ 8 * 256 + (bytes.length + 2) % 256 % 2 ^ 8 =
      bytes.length + 2 := by omega
  rw [hlen, if_neg (by omega), readOver_eq]
  exact ⟨bytes, by omega, rfl⟩

theorem readSegment_eq {file f : List UInt8} (h : readSegment file = some f) :
    ∃ c : Content, file = c.segment ++ f := by
  unfold readSegment at h
  split at h
  · rename_i hi lo rest
    have hhi := hi.toNat_lt
    have hlo := lo.toNat_lt
    dsimp only at h
    split at h
    · cases h
    · rename_i hneg
      obtain ⟨gone, hgone, rfl⟩ := readOver_eq.mp h
      refine ⟨⟨gone, by omega⟩, ?_⟩
      have hlen : gone.length + 2 = hi.toNat * 256 + lo.toNat := by omega
      have hdiv : (hi.toNat * 256 + lo.toNat) / 256 = hi.toNat := by omega
      have hmod : (hi.toNat * 256 + lo.toNat) % 256 = lo.toNat := by omega
      simp only [Content.segment, hlen, hdiv, hmod, UInt8.ofNat_toNat, List.cons_append]
  · cases h

theorem readMarker_eq {file f : List UInt8} {code : UInt8} :
    readMarker file = some (code, f) ↔
      ∃ fill, file = List.replicate fill 0xff ++ code :: f ∧ code ≠ 0xff := by
  induction file with
  | nil =>
    simp only [readMarker, reduceCtorEq, false_iff, not_exists, not_and]
    intro fill h
    cases fill <;> cases h
  | cons c file ih =>
    rw [readMarker]
    by_cases hc : c = 0xff
    · rw [if_pos hc, ih, hc]
      constructor
      · rintro ⟨fill, rfl, hcode⟩; exact ⟨fill + 1, rfl, hcode⟩
      · rintro ⟨fill, h, hcode⟩
        cases fill with
        | zero => exact absurd (List.cons.inj h).1.symm hcode
        | succ fill => exact ⟨fill, (List.cons.inj h).2, hcode⟩
    · rw [if_neg hc]
      constructor
      · rintro h; cases h; exact ⟨0, rfl, hc⟩
      · rintro ⟨fill, h, -⟩
        cases fill with
        | zero => obtain ⟨rfl, rfl⟩ := List.cons.inj h; rfl
        | succ fill => exact absurd (List.cons.inj h).1 hc

theorem skipToFF_eq {file f : List UInt8} :
    skipToFF file = some f ↔ ∃ pre, file = pre ++ 0xff :: f ∧ ∀ b ∈ pre, b ≠ 0xff := by
  induction file with
  | nil => simp [skipToFF]
  | cons c file ih =>
    rw [skipToFF]
    by_cases hc : c = 0xff
    · rw [if_pos hc, hc]
      constructor
      · rintro h; cases h; exact ⟨[], rfl, by simp⟩
      · rintro ⟨pre, h, hpre⟩
        cases pre with
        | nil => rw [(List.cons.inj h).2]
        | cons b pre => exact absurd (List.cons.inj h).1.symm (hpre b List.mem_cons_self)
    · rw [if_neg hc, ih]
      constructor
      · rintro ⟨pre, rfl, hpre⟩
        refine ⟨c :: pre, rfl, ?_⟩
        rw [List.forall_mem_cons]
        exact ⟨hc, hpre⟩
      · rintro ⟨pre, h, hpre⟩
        cases pre with
        | nil => exact absurd (List.cons.inj h).1 hc
        | cons b pre =>
          obtain ⟨rfl, rfl⟩ := List.cons.inj h
          exact ⟨pre, rfl, fun x hx => hpre x (List.mem_cons_of_mem _ hx)⟩

theorem readFF_eq {file f : List UInt8} : readFF file = some f ↔ file = 0xff :: f := by
  cases file with
  | nil => simp [readFF]
  | cons c file =>
    rw [readFF]
    by_cases hc : c = 0xff
    · rw [if_pos hc, hc]; simp
    · rw [if_neg hc]; simp [hc]

/-- The next marker stands behind bytes of entropy data, which only a scan has. -/
theorem nextMarker_eq {s : Walk} {code : UInt8} {f : List UInt8} :
    nextMarker s = some (code, f) ↔ ∃ pre fill, s.file = pre ++ marker fill code ++ f ∧
      (∀ b ∈ pre, b ≠ 0xff) ∧ (s.scan = false → pre = []) ∧ code ≠ 0xff := by
  rw [nextMarker, Option.bind_eq_some_iff]
  cases hscan : s.scan with
  | true =>
    simp only [if_true, skipToFF_eq, readMarker_eq]
    constructor
    · rintro ⟨_, ⟨pre, hfile, hpre⟩, fill, rfl, hcode⟩
      exact ⟨pre, fill, by simp [hfile, marker, List.replicate_succ], hpre, by simp, hcode⟩
    · rintro ⟨pre, fill, hfile, hpre, -, hcode⟩
      exact ⟨_, ⟨pre, by simpa [marker, List.replicate_succ] using hfile, hpre⟩,
        fill, rfl, hcode⟩
  | false =>
    simp only [Bool.false_eq_true, if_false, readFF_eq, readMarker_eq]
    constructor
    · rintro ⟨_, hfile, fill, rfl, hcode⟩
      exact ⟨[], fill, by simp [hfile, marker, List.replicate_succ], by simp, by simp, hcode⟩
    · rintro ⟨pre, fill, hfile, -, hpre, hcode⟩
      obtain rfl := hpre trivial
      exact ⟨_, by simpa [marker, List.replicate_succ] using hfile, fill, rfl, hcode⟩

theorem nextMarker_marker (scan seen : Bool) (fill : Nat) {code : UInt8} (hcode : code ≠ 0xff)
    (f : List UInt8) : nextMarker ⟨scan, seen, marker fill code ++ f⟩ = some (code, f) := by
  rw [nextMarker_eq]
  exact ⟨[], fill, rfl, by simp, by simp, hcode⟩

/-! ## Parts of a JPEG and turns of the walk -/

theorem turn_entropy {s : Walk} {code : UInt8} {f : List UInt8} (hs : s.scan = true)
    (h : nextMarker s = some (code, f)) (hcode : code = 0 ∨ isRestart code = true) :
    turn s = .again { s with file := f } := by
  unfold turn
  rw [h]
  rcases hcode with rfl | hcode
  · simp [hs]
  · simp [hs, hcode]

theorem turn_alone {s : Walk} {f : List UInt8} (h : nextMarker s = some (1, f)) :
    turn s = .again ⟨false, s.seenScan, f⟩ := by
  unfold turn
  rw [h]
  simp [show isRestart 1 = false by decide]

theorem turn_scan {s : Walk} {f g : List UInt8} (h : nextMarker s = some (0xda, f))
    (hg : readSegment f = some g) : turn s = .again ⟨true, true, g⟩ := by
  unfold turn
  rw [h]
  simp [show isRestart 0xda = false by decide, hg]

theorem turn_segment {s : Walk} {code : UInt8} {f g : List UInt8} (hcode : SegmentCode code)
    (h : nextMarker s = some (code, f)) (hg : readSegment f = some g) :
    turn s = .again ⟨false, s.seenScan, g⟩ := by
  obtain ⟨h0, h1, h8, h9, ha, -, hr⟩ := hcode
  unfold turn
  rw [h]
  simp [h0, h1, h8, h9, ha, hr, hg]

theorem turn_end {s : Walk} {f : List UInt8} (h : nextMarker s = some (0xd9, f)) :
    turn s = .leave (if s.seenScan = true then some f else none) := by
  unfold turn
  rw [h]
  simp [show isRestart 0xd9 = false by decide]

/-- What a turn that goes on has read. -/
theorem turn_again {s t : Walk} (h : turn s = .again t) :
    ∃ code f, nextMarker s = some (code, f) ∧
      ((s.scan = true ∧ (code = 0 ∨ isRestart code = true) ∧ t = { s with file := f }) ∨
        (code = 1 ∧ t = ⟨false, s.seenScan, f⟩) ∨
        (∃ g, readSegment f = some g ∧
          ((code = 0xda ∧ t = ⟨true, true, g⟩) ∨
            (SegmentCode code ∧ t = ⟨false, s.seenScan, g⟩)))) := by
  cases hm : nextMarker s with
  | none => unfold turn at h; rw [hm] at h; cases h
  | some cf =>
    obtain ⟨code, f⟩ := cf
    obtain ⟨-, -, -, -, -, hff⟩ := nextMarker_eq.mp hm
    refine ⟨code, f, rfl, ?_⟩
    unfold turn at h
    simp only [hm, Bool.and_eq_true, Bool.or_eq_true, beq_iff_eq] at h
    split at h
    · rename_i hent
      cases h
      exact .inl ⟨hent.1, hent.2, rfl⟩
    split at h
    · cases h
    rename_i hend
    split at h
    · cases h
    rename_i hbad
    simp only [not_or, Bool.not_eq_true] at hbad
    by_cases halone : code = 1
    · subst halone
      cases h
      exact .inr (.inl ⟨rfl, by simp⟩)
    rw [if_neg halone] at h
    split at h
    · cases h
    rename_i g hg
    cases h
    refine .inr (.inr ⟨g, hg, ?_⟩)
    by_cases hscan : code = 0xda
    · subst hscan
      exact .inl ⟨rfl, by simp⟩
    · exact .inr ⟨⟨hbad.1.1, halone, hbad.1.2, hend, hscan, hff, hbad.2⟩, by simp [hscan]⟩

/-- What the walk has read where it leaves with an image. -/
theorem turn_leave {s : Walk} {rest : List UInt8} (h : turn s = .leave (some rest)) :
    nextMarker s = some (0xd9, rest) ∧ s.seenScan = true := by
  cases hm : nextMarker s with
  | none => unfold turn at h; rw [hm] at h; cases h
  | some cf =>
    obtain ⟨code, f⟩ := cf
    unfold turn at h
    simp only [hm, Bool.and_eq_true, Bool.or_eq_true, beq_iff_eq] at h
    split at h
    · cases h
    split at h
    · rename_i hend
      subst hend
      split at h
      · rename_i hseen
        cases h
        exact ⟨rfl, hseen⟩
      · cases h
    · split at h
      · cases h
      · split at h <;> cases h

/-- Every turn reads something. -/
theorem turn_lt {s t : Walk} (h : turn s = .again t) : t.file.length < s.file.length := by
  obtain ⟨code, f, hm, h⟩ := turn_again h
  obtain ⟨pre, fill, hfile, -⟩ := nextMarker_eq.mp hm
  have hf : f.length < s.file.length := by
    rw [hfile]
    simp [marker]
    omega
  rcases h with ⟨-, -, rfl⟩ | ⟨-, rfl⟩ | ⟨g, hg, h⟩
  · exact hf
  · exact hf
  · obtain ⟨c, rfl⟩ := readSegment_eq hg
    have hg : g.length < s.file.length := by
      simp only [List.length_append] at hf
      omega
    rcases h with ⟨-, rfl⟩ | ⟨-, rfl⟩
    · exact hg
    · exact hg

/-! ## The walk over a JPEG -/

theorem leaves_coded (seen : Bool) (u : Coded) (f : List UInt8) {r : Option (List UInt8)} :
    Leaves turn ⟨true, seen, u.bytes ++ f⟩ r ↔ Leaves turn ⟨true, seen, f⟩ r := by
  cases u with
  | byte b hb =>
    refine leaves_congr ?_
    have : nextMarker ⟨true, seen, b :: f⟩ = nextMarker ⟨true, seen, f⟩ := by
      simp [nextMarker, skipToFF, hb]
    show turn ⟨true, seen, b :: f⟩ = turn ⟨true, seen, f⟩
    unfold turn
    rw [this]
  | stuffed fill =>
    exact leaves_again
      (turn_entropy rfl (nextMarker_marker true seen fill (by decide) f) (.inl rfl))
  | restart fill code hcode =>
    refine leaves_again (turn_entropy rfl (nextMarker_marker true seen fill ?_ f) (.inr hcode))
    rintro rfl
    cases hcode

theorem leaves_data (seen : Bool) (data : List Coded) (f : List UInt8)
    {r : Option (List UInt8)} :
    Leaves turn ⟨true, seen, data.flatMap Coded.bytes ++ f⟩ r ↔
      Leaves turn ⟨true, seen, f⟩ r := by
  induction data with
  | nil => rfl
  | cons u data ih => rw [List.flatMap_cons, List.append_assoc, leaves_coded, ih]

theorem leaves_part (scan seen : Bool) (p : Part) (f : List UInt8) {r : Option (List UInt8)} :
    Leaves turn ⟨scan, seen, p.bytes ++ f⟩ r ↔
      Leaves turn ⟨p.isScan, seen || p.isScan, f⟩ r := by
  cases p with
  | alone fill =>
    rw [Part.bytes, leaves_again (turn_alone (nextMarker_marker scan seen fill (by decide) f))]
    simp [Part.isScan]
  | segment fill code hcode content =>
    rw [Part.bytes, List.append_assoc, leaves_again (turn_segment hcode
      (nextMarker_marker scan seen fill hcode.ne_fill _) (readSegment_segment content f))]
    simp [Part.isScan]
  | scan fill header data =>
    rw [Part.bytes, List.append_assoc, List.append_assoc, leaves_again (turn_scan
      (nextMarker_marker scan seen fill (by decide) _) (readSegment_segment header _)),
      leaves_data]
    simp [Part.isScan]

/-- The walk leaves at the end of image, if there was a scan. -/
theorem leaves_parts (scan seen : Bool) (parts : List Part) (fill : Nat) (rest : List UInt8)
    (hseen : seen = true ∨ ∃ p ∈ parts, p.isScan = true) :
    Leaves turn ⟨scan, seen, partsBytes parts fill ++ rest⟩ (some rest) := by
  induction parts generalizing scan seen with
  | nil =>
    have hseen : seen = true := by simpa using hseen
    subst hseen
    exact .leave (turn_end (nextMarker_marker scan true fill (by decide) rest))
  | cons p parts ih =>
    have : partsBytes (p :: parts) fill ++ rest = p.bytes ++ (partsBytes parts fill ++ rest) := by
      simp [partsBytes]
    rw [this, leaves_part]
    refine ih _ _ ?_
    rcases hseen with rfl | ⟨q, hq, hscan⟩
    · exact .inl rfl
    · rcases List.mem_cons.mp hq with rfl | hq
      · exact .inl (by simp [hscan])
      · exact .inr ⟨q, hq, hscan⟩

/-- What the walk reads before it leaves: the rest of a scan's data if it is in one, and
parts up to the end of image. -/
structure Read (s : Walk) (rest : List UInt8) (data : List Coded) (parts : List Part)
    (fill : Nat) : Prop where
  file : s.file = data.flatMap Coded.bytes ++ (partsBytes parts fill ++ rest)
  data_of_scan : s.scan = false → data = []
  scan : s.seenScan = true ∨ ∃ p ∈ parts, p.isScan = true

theorem codedBytes_of {pre : List UInt8} (hpre : ∀ b ∈ pre, b ≠ 0xff) :
    ∃ data : List Coded, data.flatMap Coded.bytes = pre ∧ (pre = [] → data = []) := by
  induction pre with
  | nil => exact ⟨[], rfl, fun _ => rfl⟩
  | cons b pre ih =>
    obtain ⟨data, hdata, -⟩ := ih fun x hx => hpre x (List.mem_cons_of_mem _ hx)
    exact ⟨.byte b (hpre b List.mem_cons_self) :: data, by simp [hdata, Coded.bytes], by simp⟩

/-- What was read up to a part, the part, and what is read from there on. -/
theorem Read.cons {s t : Walk} {rest : List UInt8} {pre data : List Coded} {parts : List Part}
    {fill : Nat} {p : Part} (h : Read t rest data parts fill)
    (hfile : s.file = pre.flatMap Coded.bytes ++ p.bytes ++
      (partsBytes parts fill ++ rest)) (hpre : s.scan = false → pre = [])
    (hscan : t.seenScan = true → s.seenScan = true ∨ p.isScan = true) :
    Read s rest pre (p :: parts) fill := by
  refine ⟨by simp [hfile, partsBytes], hpre, ?_⟩
  rcases h.scan with hseen | ⟨q, hq, hq'⟩
  · rcases hscan hseen with hs | hp
    · exact .inl hs
    · exact .inr ⟨p, List.mem_cons_self, hp⟩
  · exact .inr ⟨q, List.mem_cons_of_mem _ hq, hq'⟩

theorem read_of_leaves {s : Walk} {r : Option (List UInt8)} (h : Leaves turn s r)
    {rest : List UInt8} (hr : r = some rest) :
    ∃ data parts fill, Read s rest data parts fill := by
  induction h with
  | leave h =>
    subst hr
    obtain ⟨hm, hseen⟩ := turn_leave h
    obtain ⟨pre, fill, hfile, hpre, hscan, -⟩ := nextMarker_eq.mp hm
    obtain ⟨data, rfl, hdata⟩ := codedBytes_of hpre
    exact ⟨data, [], fill, by simpa [partsBytes] using hfile, fun hs => hdata (hscan hs),
      .inl hseen⟩
  | @again s t r h _ ih =>
    obtain ⟨data, parts, fill, ht⟩ := ih hr
    obtain ⟨code, f, hm, hcases⟩ := turn_again h
    obtain ⟨pre, fill', hfile, hpre, hscan, -⟩ := nextMarker_eq.mp hm
    obtain ⟨before, rfl, hbefore⟩ := codedBytes_of hpre
    have hpart : s.scan = false → before = [] := fun hs => hbefore (hscan hs)
    rcases hcases with ⟨hs, hcode, rfl⟩ | ⟨rfl, rfl⟩ | ⟨g, hg, hcases⟩
    · -- the marker is part of the entropy data
      obtain ⟨u, hu⟩ : ∃ u : Coded, u.bytes = marker fill' code := by
        rcases hcode with rfl | hcode
        · exact ⟨.stuffed fill', rfl⟩
        · exact ⟨.restart fill' code hcode, rfl⟩
      refine ⟨before ++ u :: data, parts, fill, ?_, by simp [hs], ht.scan⟩
      have hf := ht.file
      simp only at hf
      rw [hfile, hf, List.flatMap_append, List.flatMap_cons, hu]
      simp
    · obtain rfl := ht.data_of_scan rfl
      refine ⟨before, .alone fill' :: parts, fill, ht.cons ?_ hpart .inl⟩
      have hf := ht.file
      simp only [List.flatMap_nil, List.nil_append] at hf
      rw [hfile, hf]
      rfl
    · obtain ⟨c, rfl⟩ := readSegment_eq hg
      rcases hcases with ⟨rfl, rfl⟩ | ⟨hcode, rfl⟩
      · refine ⟨before, .scan fill' c data :: parts, fill, ht.cons ?_ hpart fun _ => .inr rfl⟩
        have hf := ht.file
        simp only at hf
        rw [hfile, hf]
        simp [Part.bytes]
      · obtain rfl := ht.data_of_scan rfl
        refine ⟨before, .segment fill' code hcode c :: parts, fill, ht.cons ?_ hpart .inl⟩
        have hf := ht.file
        simp only [List.flatMap_nil, List.nil_append] at hf
        rw [hfile, hf]
        simp [Part.bytes]

/-- From the start of image the walk leaves behind an image and nowhere else. -/
theorem leaves_iff (f rest : List UInt8) :
    Leaves turn ⟨false, false, f⟩ (some rest) ↔
      ∃ image, IsJpeg image ∧ 0xff :: 0xd8 :: f = image ++ rest := by
  constructor
  · intro h
    obtain ⟨data, parts, fill, hread⟩ := read_of_leaves h rfl
    obtain rfl := hread.data_of_scan rfl
    have hf := hread.file
    simp only [List.flatMap_nil, List.nil_append] at hf
    rcases hread.scan with hseen | hscan
    · cases hseen
    · exact ⟨_, ⟨parts, fill, rfl, hscan⟩, by rw [hf]; rfl⟩
  · rintro ⟨_, ⟨parts, fill, rfl, hscan⟩, hf⟩
    simp only [List.cons_append, List.cons.injEq, true_and] at hf
    subst hf
    exact leaves_parts false false parts fill rest (.inr hscan)

/-- enil_jpeg_complete returns 1, given turns enough. -/
def Accepts (file : List UInt8) : Prop := ∃ fuel, enilJpegComplete fuel file = some true

theorem IsJpeg.eq_cons {image : List UInt8} (h : IsJpeg image) :
    ∃ f, image = 0xff :: 0xd8 :: f := by
  obtain ⟨parts, fill, rfl, -⟩ := h
  exact ⟨_, rfl⟩

/-- The walk comes to an end within as many turns as the file has bytes. -/
theorem exists_enilJpegComplete (file : List UInt8) :
    ∃ r, ∀ fuel, file.length < fuel → enilJpegComplete fuel file = some r := by
  rcases file with - | ⟨c, - | ⟨d, f⟩⟩
  · exact ⟨false, fun _ _ => rfl⟩
  · exact ⟨false, fun _ _ => rfl⟩
  · by_cases hc : (c != 0xff || d != 0xd8) = true
    · exact ⟨false, fun _ _ => by rw [enilJpegComplete, if_pos hc]⟩
    · obtain ⟨r, hr⟩ := exists_loop (n := f.length + 1) (m := fun s : Walk => s.file.length)
        turn_lt (s := ⟨false, false, f⟩) (Nat.lt_succ_self _)
      have hleaves := leaves_of_loop hr
      refine ⟨r.isSome, fun fuel hfuel => ?_⟩
      rw [enilJpegComplete, if_neg hc, (loop_eq_some (m := fun s : Walk => s.file.length)
        turn_lt (s := ⟨false, false, f⟩) (by simp at hfuel ⊢; omega)).mpr hleaves]
      rfl

theorem accepts_cons (f : List UInt8) :
    Accepts (0xff :: 0xd8 :: f) ↔ ∃ rest, Leaves turn ⟨false, false, f⟩ (some rest) := by
  simp only [Accepts, enilJpegComplete, bne_self_eq_false, Bool.or_self, Bool.false_eq_true,
    if_false, Option.map_eq_some_iff, Option.isSome_iff_exists]
  constructor
  · rintro ⟨fuel, r, hr, rest, rfl⟩
    exact ⟨rest, leaves_of_loop hr⟩
  · rintro ⟨rest, h⟩
    exact ⟨f.length + 1, _, (loop_eq_some (m := fun s : Walk => s.file.length) turn_lt
      (Nat.lt_succ_self _)).mpr h, rest, rfl⟩

theorem eq_cons_of_accepts {file : List UInt8} (h : Accepts file) :
    ∃ f, file = 0xff :: 0xd8 :: f := by
  obtain ⟨fuel, h⟩ := h
  rcases file with - | ⟨c, - | ⟨d, f⟩⟩
  · cases h
  · cases h
  · rw [enilJpegComplete] at h
    split at h
    · cases h
    · rename_i hc
      simp only [Bool.or_eq_true, bne_iff_ne, ne_eq, not_or, Decidable.not_not] at hc
      obtain ⟨rfl, rfl⟩ := hc
      exact ⟨f, rfl⟩

theorem accepts_iff (file : List UInt8) :
    Accepts file ↔ ∃ image rest, file = image ++ rest ∧ IsJpeg image := by
  constructor
  · intro h
    obtain ⟨f, rfl⟩ := eq_cons_of_accepts h
    obtain ⟨rest, hrest⟩ := (accepts_cons f).mp h
    obtain ⟨image, himage, hf⟩ := (leaves_iff f rest).mp hrest
    exact ⟨image, rest, hf, himage⟩
  · rintro ⟨image, rest, rfl, himage⟩
    obtain ⟨f, rfl⟩ := himage.eq_cons
    exact (accepts_cons _).mpr ⟨rest, (leaves_iff _ rest).mpr ⟨_, himage, rfl⟩⟩

/-- A file begins with one image at most. -/
theorem image_unique {image image' rest rest' : List UInt8} (himage : IsJpeg image)
    (himage' : IsJpeg image') (h : image ++ rest = image' ++ rest') : image = image' := by
  obtain ⟨f, rfl⟩ := himage.eq_cons
  have hleaves := (leaves_iff (f ++ rest) rest).mpr ⟨_, himage, rfl⟩
  have hleaves' := (leaves_iff (f ++ rest) rest').mpr ⟨_, himage', h⟩
  obtain rfl := Option.some.inj (hleaves.unique hleaves')
  exact List.append_cancel_right h

/-- Whether a file is complete is known at the end of its image. -/
theorem accepts_take_iff {image rest : List UInt8} (himage : IsJpeg image) (n : Nat) :
    Accepts ((image ++ rest).take n) ↔ image.length ≤ n := by
  rw [accepts_iff]
  constructor
  · rintro ⟨image', rest', h, himage'⟩
    have htake : image ++ rest = image' ++ (rest' ++ (image ++ rest).drop n) := by
      rw [← List.append_assoc, ← h, List.take_append_drop]
    obtain rfl := image_unique himage himage' htake
    have := congrArg List.length h
    simp only [List.length_take, List.length_append] at this
    omega
  · intro hn
    exact ⟨image, rest.take (n - image.length), by
      rw [List.take_append, List.take_of_length_le hn], himage⟩

/-- A file is accepted if and only if it begins with a JPEG, whatever comes after it, and
then its prefixes are accepted from the end of image on. -/
theorem enilJpegComplete_iff (file : List UInt8) :
    (∃ r, ∀ fuel, file.length < fuel → enilJpegComplete fuel file = some r) ∧
      (Accepts file ↔ ∃ image rest, file = image ++ rest ∧ IsJpeg image) ∧
      ∀ image rest, file = image ++ rest → IsJpeg image →
        ∀ n, Accepts (file.take n) ↔ image.length ≤ n := by
  refine ⟨exists_enilJpegComplete file, accepts_iff file, ?_⟩
  rintro image rest rfl himage n
  exact accepts_take_iff himage n

/-! ## Scans without data -/

/-- A scan with some entropy-coded data. -/
def Part.HasData : Part → Prop
  | .scan _ _ data => data ≠ []
  | _ => False

def emptyScan : List UInt8 := [0xff, 0xd8, 0xff, 0xda, 0, 2, 0xff, 0xd9]

theorem Coded.length_pos (u : Coded) : 0 < u.bytes.length := by
  cases u with
  | byte => simp [Coded.bytes]
  | stuffed fill => simp [Coded.bytes, marker]
  | restart fill code => simp [Coded.bytes, marker]

theorem Part.HasData.length_le {p : Part} (h : p.HasData) : 5 ≤ p.bytes.length := by
  cases p with
  | alone => cases h
  | segment => cases h
  | scan fill header data =>
    obtain ⟨u, data, rfl⟩ := List.exists_cons_of_ne_nil h
    have := u.length_pos
    simp only [Part.bytes, marker, Content.segment, List.length_append, List.length_replicate,
      List.length_cons, List.length_nil, List.flatMap_cons]
    omega

/-- A file whose scans have no data is accepted as well. -/
theorem emptyScan_accepted : ¬ ∀ file, Accepts file ↔ ∃ parts fill rest,
    file = 0xff :: 0xd8 :: partsBytes parts fill ++ rest ∧ ∃ p ∈ parts, p.HasData := by
  intro h
  obtain ⟨parts, fill, rest, hfile, p, hp, hdata⟩ := (h emptyScan).mp ⟨9, by decide⟩
  obtain ⟨before, after, rfl⟩ := List.append_of_mem hp
  have hlen := congrArg List.length hfile
  have := hdata.length_le
  simp only [emptyScan, partsBytes, marker, List.length_cons, List.length_append,
    List.flatMap_append, List.flatMap_cons, List.length_nil, List.length_replicate] at hlen
  omega

end Enil.Jpeg
