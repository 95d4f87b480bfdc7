import Enil.Format.Html
import Enil.Format.Spans

/-!
# A message as HTML

`format_text_html` checks the spans of all resources before it replaces any of them with an
image. Where one is not that of a marker, or not behind the one before, the whole text is
shown as it is. The HTML gives back the text in any case.
-/

namespace Enil.Html

open Lib

/-! ## Images -/

def imagePath (r : Json) : Option (List UInt8) :=
  ((r.stringItem "image_path").map cString).filter (· ≠ [])

/-- `(int)cJSON_GetNumberValue(...)`; `other` where an `int` does not hold the number. -/
def imageInt (other : Int) (r : Json) (key : String) : Int :=
  match (r.getObjectItem key).bind Json.getNumberValue with
  | some q => if -2 ^ 31 ≤ Json.truncate q ∧ Json.truncate q < 2 ^ 31 then Json.truncate q else other
  | none => other

/-- resolve_resource: the path as far as it fits its buffer, the width and the height. -/
def resolveResource (other : Int) (r : Json) : Option (List UInt8 × Int × Int) :=
  (imagePath r).map fun path =>
    (path.take 511, imageInt other r "image_width", imageInt other r "image_height")

/-- ENIL_STICON_JUMBO_SCALE_DIV and ENIL_STICON_SCALE_DIV. -/
def scaleDiv (jumbo : Bool) : Nat := if jumbo then 3 else 6

/-- `(int)(n / divisor + 0.5)` -/
def scaled (n : Int) (jumbo : Bool) : Nat :=
  (2 * n.toNat + scaleDiv jumbo) / (2 * scaleDiv jumbo)

/-- `1.0 / divisor` as `%g` prints it. -/
def zoom (jumbo : Bool) : String := if jumbo then "0.333333" else "0.166667"

/-- The size of an image, in pixels or as a part of its own. -/
def sizeAttrs (width height : Int) (jumbo : Bool) : String :=
  if 0 < width ∧ 0 < height then
    let w := toString (scaled width jumbo)
    let h := toString (scaled height jumbo)
    " width=\"" ++ w ++ "\" height=\"" ++ h ++ "\" style=\"width:" ++ w ++ "px;height:" ++ h ++
      "px\""
  else " style=\"zoom:" ++ zoom jumbo ++ "\""

def appendSticonImg (path : List UInt8) (width height : Int) (jumbo : Bool)
    (marker : List UInt8) : List UInt8 :=
  if path = [] then [] else imgTag path marker (ascii (sizeAttrs width height jumbo))

/-- A marker as the image of its resource, if there is one. -/
def replaceMarker (other : Int) (jumbo : Bool) (r : Json) (marker : List UInt8) : List UInt8 :=
  match resolveResource other r with
  | some (path, width, height) => appendSticonImg path width height jumbo marker
  | none => esbHtmlBr marker

/-! ## The two passes -/

def runIsBlank (s : List UInt8) : Bool := s.all fun c => c == 32 || c == 9 || c == 10 || c == 13

structure Pass where
  cursor : Nat
  jumbo : Bool
  count : Nat

/-- The first pass; `none` is not valid. -/
def checkResources (text : List UInt8) (p : Pass) : List Json → Option Pass
  | [] => some p
  | r :: rs =>
    match resourceSpan text r with
    | none => none
    | some (s, e) =>
      if s < p.cursor then none
      else checkResources text
        ⟨e, p.jumbo && runIsBlank (slice text p.cursor s) && (imagePath r).isSome, p.count + 1⟩ rs

/-- The second pass; every span was found in the first. -/
def replaceResources (other : Int) (text : List UInt8) (jumbo : Bool) (cursor : Nat) :
    List Json → List UInt8
  | [] => esbHtmlBr (slice text cursor text.length)
  | r :: rs =>
    let (s, e) := (resourceSpan text r).getD (0, 0)
    esbHtmlBr (slice text cursor s) ++ replaceMarker other jumbo r (slice text s e) ++
      replaceResources other text jumbo e rs

/-- format_text_html; no text is NULL. -/
def formatTextHtml (other : Int) (text : Option (List UInt8)) (resources : List Json) :
    List UInt8 :=
  match text with
  | none => []
  | some text =>
    if text = [] then []
    else
      match checkResources text ⟨0, true, 0⟩ resources with
      | none => esbHtmlBr text
      | some p =>
        if p.count = 0 then esbHtmlBr text
        else replaceResources other text
          (p.jumbo && runIsBlank (slice text p.cursor text.length)) 0 resources

/-! ## What is read -/

/-- An image and the span of the text that it stands for. -/
structure Shown where
  span : Nat × Nat
  src : List UInt8
  size : Size
  deriving DecidableEq

/-- The images, the first piece standing at `off` in the text. -/
def replaced (off : Nat) : List Piece → List Shown
  | [] => []
  | .img src alt size :: ps =>
    ⟨(off, off + alt.length), src, size⟩ :: replaced (off + alt.length) ps
  | _ :: ps => replaced (off + 1) ps

theorem text_pieceOf (b : UInt8) : (pieceOf b).text = [b] := by
  unfold pieceOf
  split
  · rename_i hb
    rw [hb]
    rfl
  · rfl

theorem flatMap_text_pieceOf (s : List UInt8) : (s.map pieceOf).flatMap Piece.text = s := by
  induction s with
  | nil => rfl
  | cons b s ih => rw [List.map_cons, List.flatMap_cons, text_pieceOf, ih]; rfl

theorem replaced_pieceOf (off : Nat) (s : List UInt8) (ps : List Piece) :
    replaced off (s.map pieceOf ++ ps) = replaced (off + s.length) ps := by
  induction s generalizing off with
  | nil => rfl
  | cons b s ih =>
    have hstep : replaced off (pieceOf b :: (s.map pieceOf ++ ps)) =
        replaced (off + 1) (s.map pieceOf ++ ps) := by
      unfold pieceOf
      split
      · rfl
      · rfl
    rw [List.map_cons, List.cons_append, hstep, ih, List.length_cons]
    congr 1
    omega

/-! ## The tag of an image -/

/-- `1.0 / divisor` behind the point. -/
def zoomDigits (jumbo : Bool) : List UInt8 := ascii (if jumbo then "333333" else "166667")

def number (n : Nat) : List UInt8 := ascii (toString n)

def shownSize (width height : Int) (jumbo : Bool) : Size :=
  if 0 < width ∧ 0 < height then
    .pixels (number (scaled width jumbo)) (number (scaled height jumbo))
  else .zoom (zoomDigits jumbo)

theorem isDigit_number (n : Nat) : ∀ b ∈ number n, isDigit b.toNat = true := by
  intro b hb
  obtain ⟨c, hc, rfl⟩ := List.mem_map.mp hb
  exact isDigit_byte (isDigit_repr hc)

theorem number_ne_nil (n : Nat) : number n ≠ [] := by
  intro hnil
  have hempty : (Nat.repr n).toList = [] := List.map_eq_nil_iff.mp hnil
  rw [Nat.toList_repr] at hempty
  exact Nat.toDigits_ne_nil hempty

theorem isDigit_zoomDigits (jumbo : Bool) :
    ∀ b ∈ zoomDigits jumbo, isDigit b.toNat = true := by
  apply List.all_eq_true.mp
  cases jumbo <;> rfl

theorem readSize_sizeAttrs (width height : Int) (jumbo : Bool) (rest : List UInt8) :
    readSize (ascii (sizeAttrs width height jumbo) ++ 62 :: rest) =
      some (shownSize width height jumbo, rest) := by
  unfold sizeAttrs shownSize
  split
  · have hattrs := readSize_pixels (isDigit_number (scaled width jumbo)) (number_ne_nil _)
      (isDigit_number (scaled height jumbo)) (number_ne_nil _) rest
    simp only [ascii_append]
    exact hattrs
  · have hne : zoomDigits jumbo ≠ [] := by cases jumbo <;> exact List.cons_ne_nil _ _
    have hattrs := readSize_zoom (isDigit_zoomDigits jumbo) hne rest
    have hzoom : ascii (" style=\"zoom:" ++ zoom jumbo ++ "\"") =
        ascii " style=\"zoom:0." ++ zoomDigits jumbo ++ ascii "\"" := by cases jumbo <;> rfl
    rw [hzoom]
    exact hattrs

theorem attrValue_eq {s : List UInt8} (h : ∀ b ∈ s, b ≠ 10) : attrValue s = s := by
  induction s with
  | nil => rfl
  | cons b s ih =>
    obtain ⟨hb, hs⟩ := List.forall_mem_cons.mp h
    have := ih hs
    unfold attrValue at this ⊢
    rw [List.flatMap_cons, this, if_neg hb]
    rfl

/-- A marker has no line end. -/
theorem ne_newline_of_marker {m : List UInt8} (h : isMarker m = true) : ∀ b ∈ m, b ≠ 10 := by
  rcases isMarker_cases h with rfl | ⟨alt, rfl, halt⟩
  · intro b hb
    rw [List.mem_singleton.mp hb]
    decide
  · intro b hb
    simp only [List.cons_append, List.mem_cons, List.mem_append, List.not_mem_nil, or_false] at hb
    rcases hb with rfl | hb | rfl
    · decide
    · exact (halt.plain b hb).2.2.1
    · decide

/-! ## What a message is read as -/

theorem slice_append_drop {text : List UInt8} {a b : Nat} (h : a ≤ b) :
    slice text a b ++ text.drop b = text.drop a := by
  have hdrop : text.drop b = (text.drop a).drop (b - a) := by
    rw [List.drop_drop, Nat.add_sub_cancel' h]
  rw [slice, hdrop, List.take_append_drop]

theorem slice_to_end (text : List UInt8) (a : Nat) : slice text a text.length = text.drop a := by
  rw [slice, List.take_of_length_le]
  rw [List.length_drop]

theorem slice_length {text : List UInt8} {a b : Nat} (h : b ≤ text.length) :
    (slice text a b).length = b - a := by
  rw [slice, List.length_take, List.length_drop]
  omega

/-- Images stand one behind the other. -/
theorem replaced_ordered (off : Nat) (ps : List Piece) :
    (replaced off ps).Pairwise (fun p q => p.span.2 ≤ q.span.1) ∧
      ∀ p ∈ replaced off ps, off ≤ p.span.1 := by
  induction ps generalizing off with
  | nil => exact ⟨.nil, by simp [replaced]⟩
  | cons p ps ih =>
    cases p with
    | char b =>
      obtain ⟨hord, hle⟩ := ih (off + 1)
      exact ⟨hord, fun q hq => by have := hle q hq; omega⟩
    | br =>
      obtain ⟨hord, hle⟩ := ih (off + 1)
      exact ⟨hord, fun q hq => by have := hle q hq; omega⟩
    | img src alt size =>
      obtain ⟨hord, hle⟩ := ih (off + alt.length)
      refine ⟨List.pairwise_cons.mpr ⟨fun q hq => hle q hq, hord⟩, fun q hq => ?_⟩
      rcases List.mem_cons.mp hq with rfl | hq
      · exact le_refl _
      · have := hle q hq
        omega

/-- The image is `r`'s, its path as it reads in an attribute. -/
def Shown.Of (other : Int) (jumbo : Bool) (r : Json) (x : Shown) : Prop :=
  ∃ path, imagePath r = some path ∧ x.src = attrValue (path.take 511) ∧
    x.size = shownSize (imageInt other r "image_width") (imageInt other r "image_height") jumbo

/-- Pieces that give back `m`, as one image of `r` or without any. -/
def StandsFor (other : Int) (jumbo : Bool) (r : Json) (ms : List Piece) (m : List UInt8) : Prop :=
  ms.flatMap Piece.text = m ∧ ∀ off ps,
    (∃ x : Shown, x.Of other jumbo r ∧ x.span = (off, off + m.length) ∧
      replaced off (ms ++ ps) = x :: replaced (off + m.length) ps) ∨
    replaced off (ms ++ ps) = replaced (off + m.length) ps

theorem standsFor_pieceOf (other : Int) (jumbo : Bool) (r : Json) (m : List UInt8) :
    StandsFor other jumbo r (m.map pieceOf) m :=
  ⟨flatMap_text_pieceOf m, fun off ps => .inr (replaced_pieceOf off m ps)⟩

theorem readsAs_replaceMarker (other : Int) (jumbo : Bool) (r : Json) {m rest : List UInt8}
    {ps : List Piece} (hm : isMarker m = true) (h : ReadsAs rest ps) :
    ∃ ms, ReadsAs (replaceMarker other jumbo r m ++ rest) (ms ++ ps) ∧
      StandsFor other jumbo r ms m := by
  unfold replaceMarker resolveResource
  cases hpath : imagePath r with
  | none => exact ⟨m.map pieceOf, h.escaped m, standsFor_pieceOf other jumbo r m⟩
  | some path =>
    have hne : path.take 511 ≠ [] := by
      unfold imagePath at hpath
      have := (Option.filter_eq_some_iff.mp hpath).2
      simp only [ne_eq, decide_eq_true_eq] at this
      simp [this]
    have halt := attrValue_eq (ne_newline_of_marker hm)
    simp only [Option.map_some, appendSticonImg, if_neg hne]
    let size := shownSize (imageInt other r "image_width") (imageInt other r "image_height") jumbo
    refine ⟨[.img (attrValue (path.take 511)) m size], .cons (imgTag_ne_nil _ _ _) ?_ h, ?_,
      fun off ps => .inl ⟨⟨(off, off + m.length), attrValue (path.take 511), size⟩, ?_, rfl, rfl⟩⟩
    · rw [readPiece_imgTag _ _ (readSize_sizeAttrs _ _ jumbo), halt]
    · simp [Piece.text]
    · exact ⟨path, hpath, rfl, rfl⟩

/-- What the second pass writes from a place on is read as the text from there on, with
images only where resources are. -/
theorem readsAs_replaceResources (other : Int) {text : List UInt8} (jumbo : Bool)
    {rs : List Json} {p q : Pass} (h : checkResources text p rs = some q)
    (hp : p.cursor ≤ text.length) :
    ∃ ps, ReadsAs (replaceResources other text jumbo p.cursor rs) ps ∧
      ps.flatMap Piece.text = text.drop p.cursor ∧
      ∀ x ∈ replaced p.cursor ps, ∃ r ∈ rs, resourceSpan text r = some x.span ∧
        x.Of other jumbo r := by
  induction rs generalizing p with
  | nil =>
    have hend := slice_to_end text p.cursor
    refine ⟨(text.drop p.cursor).map pieceOf, ?_, flatMap_text_pieceOf _, ?_⟩
    · have := ReadsAs.nil.escaped (text.drop p.cursor)
      rw [List.append_nil, List.append_nil] at this
      rw [replaceResources, hend]
      exact this
    · have := replaced_pieceOf p.cursor (text.drop p.cursor) []
      rw [List.append_nil] at this
      rw [this]
      simp [replaced]
  | cons r rs ih =>
    unfold checkResources at h
    cases hspan : resourceSpan text r with
    | none => rw [hspan] at h; cases h
    | some se =>
      obtain ⟨s, e⟩ := se
      simp only [hspan] at h
      split at h
      · cases h
      · rename_i hcursor
        obtain ⟨hlt, hle, hmarker⟩ := markerSpan_iff.mp (resourceSpan_marker hspan)
        obtain ⟨ps, hreads, htext, hrest⟩ := ih h hle
        simp only at hlt hle hmarker hreads htext hrest
        obtain ⟨ms, hms, hmstext, hmsrep⟩ := readsAs_replaceMarker other jumbo r hmarker hreads
        have hbefore : (slice text p.cursor s).length = s - p.cursor := slice_length (by omega)
        have hlen := slice_length (a := s) hle
        refine ⟨(slice text p.cursor s).map pieceOf ++ (ms ++ ps), ?_, ?_, ?_⟩
        · have := hms.escaped (slice text p.cursor s)
          simp only [replaceResources, hspan, Option.getD_some, List.append_assoc]
          exact this
        · rw [List.flatMap_append, List.flatMap_append, flatMap_text_pieceOf, hmstext, htext,
            slice_append_drop (by omega), slice_append_drop (by omega)]
        · rw [replaced_pieceOf, hbefore, show p.cursor + (s - p.cursor) = s by omega]
          have hsum : s + (slice text s e).length = e := by omega
          have hone := hmsrep s ps
          rw [hsum] at hone
          intro x hx
          rcases hone with ⟨y, hof, hat, hone⟩ | hone
          · rw [hone] at hx
            rcases List.mem_cons.mp hx with rfl | hx
            · exact ⟨r, List.mem_cons_self, hat ▸ hspan, hof⟩
            · obtain ⟨r', hr', hx⟩ := hrest x hx
              exact ⟨r', List.mem_cons_of_mem _ hr', hx⟩
          · rw [hone] at hx
            obtain ⟨r', hr', hx⟩ := hrest x hx
            exact ⟨r', List.mem_cons_of_mem _ hr', hx⟩

/-- An image stands for the marker of a resource, whose image it shows; the span does not
split a character where it was given in UTF-16 units. -/
structure Replaceable (other : Int) (jumbo : Bool) (text : String) (resources : List Json)
    (x : Shown) : Prop where
  marker : markerSpan (utf8 text) x.span.1 x.span.2 = true
  resource : ∃ r ∈ resources, resourceSpan (utf8 text) r = some x.span ∧ x.Of other jumbo r
  whole : ∀ a b, utf16Span (utf8 text) a b = some x.span → WholeChars text a b x.span

theorem Replaceable.of_resource {other : Int} {jumbo : Bool} {text : String}
    {resources : List Json} {x : Shown}
    (h : ∃ r ∈ resources, resourceSpan (utf8 text) r = some x.span ∧ x.Of other jumbo r) :
    Replaceable other jumbo text resources x := by
  obtain ⟨r, hr, hspan, hof⟩ := h
  exact ⟨resourceSpan_marker hspan, ⟨r, hr, hspan, hof⟩,
    fun _ _ h => (utf16Span_iff.mp h).1⟩

/-- A text without images. -/
theorem readsAs_literal (s : List UInt8) : ReadsAs (esbHtmlBr s) (s.map pieceOf) := by
  have := ReadsAs.nil.escaped s
  rwa [List.append_nil, List.append_nil] at this

theorem replaced_literal (off : Nat) (s : List UInt8) : replaced off (s.map pieceOf) = [] := by
  have := replaced_pieceOf off s []
  rwa [List.append_nil] at this

/-- The HTML of a message gives back its text, the images of resources standing for their
markers one behind the other, all of them large or small. -/
theorem formatTextHtml_conserves (other : Int) (text : String) (resources : List Json) :
    ∃ ps, readHtml (formatTextHtml other (some (utf8 text)) resources) = some ps ∧
      ps.flatMap Piece.text = utf8 text ∧
      (replaced 0 ps).Pairwise (fun p q => p.span.2 ≤ q.span.1) ∧
      ∃ jumbo, ∀ p ∈ replaced 0 ps, Replaceable other jumbo text resources p := by
  have hliteral : ∃ ps, readHtml (esbHtmlBr (utf8 text)) = some ps ∧
      ps.flatMap Piece.text = utf8 text ∧
      (replaced 0 ps).Pairwise (fun p q => p.span.2 ≤ q.span.1) ∧
      ∃ jumbo, ∀ p ∈ replaced 0 ps, Replaceable other jumbo text resources p := by
    refine ⟨_, (readsAs_literal _).readHtml, flatMap_text_pieceOf _, (replaced_ordered _ _).1,
      false, ?_⟩
    rw [replaced_literal]
    rintro p ⟨⟩
  unfold formatTextHtml
  split
  · rename_i htext
    cases htext
  · rename_i bytes htext
    cases htext
    split
    · rename_i hnil
      exact ⟨[], rfl, hnil.symm, .nil, false, by rintro p ⟨⟩⟩
    · split
      · exact hliteral
      · rename_i q hcheck
        split
        · exact hliteral
        · obtain ⟨ps, hreads, hps, hspans⟩ := readsAs_replaceResources other
            (q.jumbo && runIsBlank (slice (utf8 text) q.cursor (utf8 text).length)) hcheck
            (Nat.zero_le _)
          exact ⟨ps, hreads.readHtml, hps, (replaced_ordered 0 ps).1, _,
            fun p hp => .of_resource (hspans p hp)⟩

def quotedResource : Json :=
  .obj [("S", .num 3), ("E", .num 4), ("image_path", .str "/a\"b.png"), ("image_width", .num 24),
    ("image_height", .num 12)]

theorem imagePath_quotedResource : imagePath quotedResource = some (ascii "/a\"b.png") := by
  have hpath : quotedResource.stringItem "image_path" = some "/a\"b.png" := by decide
  rw [imagePath, hpath, Option.map_some, cString, utf8_eq_flatMap]
  rfl

/-- The quote stays in the attribute, and the tag has no other attributes than its own. -/
theorem formatTextHtml_conserves_quoted : ∃ ps,
    readHtml (formatTextHtml 0 (some (utf8 "hi $<")) [quotedResource]) = some ps ∧
    ps.flatMap Piece.text = utf8 "hi $<" ∧
    replaced 0 ps = [⟨(3, 4), ascii "/a\"b.png", .pixels (ascii "4") (ascii "2")⟩] ∧
    ∃ jumbo, ∀ x ∈ replaced 0 ps, Replaceable 0 jumbo "hi $<" [quotedResource] x := by
  obtain ⟨ps, hread, htext, -, hshown⟩ := formatTextHtml_conserves 0 "hi $<" [quotedResource]
  have hbytes : utf8 "hi $<" = [104, 105, 32, 36, 60] := by
    rw [utf8_eq_flatMap]
    rfl
  have hspan : resourceSpan [104, 105, 32, 36, 60] quotedResource = some (3, 4) := by decide
  have hresolve : resolveResource 0 quotedResource = some (ascii "/a\"b.png", 24, 12) := by
    rw [resolveResource, imagePath_quotedResource]
    decide
  have hhtml : formatTextHtml 0 (some (utf8 "hi $<")) [quotedResource] =
      esbHtmlBr [104, 105, 32] ++ (imgTag (ascii "/a\"b.png") [36]
        (ascii (sizeAttrs 24 12 false)) ++ esbHtmlBr [60]) := by
    simp only [hbytes, formatTextHtml, checkResources, replaceResources, replaceMarker, hspan,
      hresolve]
    rfl
  have hreads := (ReadsAs.cons (imgTag_ne_nil _ _ _)
    (readPiece_imgTag (ascii "/a\"b.png") [36] (readSize_sizeAttrs 24 12 false) (esbHtmlBr [60]))
    (readsAs_literal [60])).escaped [104, 105, 32]
  rw [← hhtml] at hreads
  refine ⟨ps, hread, htext, ?_, hshown⟩
  rw [Option.some.inj (hread.symm.trans hreads.readHtml)]
  rfl
end Enil.Html
