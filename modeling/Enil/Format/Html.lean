import Enil.Lib.CType
import Enil.Json.Utf8
import Enil.Json.Basic

/-!
# The HTML of a message

The HTML is made of escaped characters, line breaks and images. `readHtml` takes such a
text apart and refuses any other; what escaping wrote it reads back.
-/

namespace Enil.Html

open Lib

/-- The bytes of ASCII characters. -/
def ascii (s : String) : List UInt8 := s.toList.map fun c => UInt8.ofNat c.toNat

/-! ## Escaping -/

/-- What a byte is replaced with, line ends only if `br` is set. -/
def htmlEntity (br : Bool) (c : UInt8) : Option (List UInt8) :=
  if c = 38 then some (ascii "&amp;")
  else if c = 60 then some (ascii "&lt;")
  else if c = 62 then some (ascii "&gt;")
  else if c = 34 then some (ascii "&quot;")
  else if c = 10 ∧ br then some (ascii "<br>")
  else none

/-- esb_html_core, `run` being the bytes that are still to be copied. -/
def esbHtmlCore (br : Bool) (run : List UInt8) : List UInt8 → List UInt8
  | [] => run
  | c :: rest =>
    match htmlEntity br c with
    | some e => run ++ e ++ esbHtmlCore br [] rest
    | none => esbHtmlCore br (run ++ [c]) rest

def esbHtmlBr (s : List UInt8) : List UInt8 := esbHtmlCore true [] s

def escapeByte (c : UInt8) : List UInt8 := (htmlEntity true c).getD [c]

theorem esbHtmlCore_eq (run s : List UInt8) :
    esbHtmlCore true run s = run ++ s.flatMap escapeByte := by
  induction s generalizing run with
  | nil => simp [esbHtmlCore]
  | cons c s ih =>
    unfold esbHtmlCore
    cases he : htmlEntity true c with
    | none => simp [ih, escapeByte, he]
    | some e => simp [ih, escapeByte, he]

theorem esbHtmlBr_eq (s : List UInt8) : esbHtmlBr s = s.flatMap escapeByte :=
  esbHtmlCore_eq [] s

/-! ## Reading -/

/-- The size of an image, all in digits: in pixels, or as what it is zoomed to, behind `0.` -/
inductive Size where
  | pixels (width height : List UInt8)
  | zoom (fraction : List UInt8)
  deriving DecidableEq

/-- A character, a line break or the tag of an image with its attributes. -/
inductive Piece where
  | char (b : UInt8)
  | br
  | img (src alt : List UInt8) (size : Size)
  deriving DecidableEq

/-- What a piece stands for: an image for its `alt`. -/
def Piece.text : Piece → List UInt8
  | .char b => [b]
  | .br => [10]
  | .img _ alt _ => alt

/-- What follows `p`. -/
def strip : List UInt8 → List UInt8 → Option (List UInt8)
  | [], s => some s
  | _ :: _, [] => none
  | a :: p, b :: s => if a = b then strip p s else none

/-- The rest of an entity, behind `&`. -/
def readEntity (s : List UInt8) : Option (UInt8 × List UInt8) :=
  ((strip (ascii "amp;") s).map fun r => (38, r)) <|>
    ((strip (ascii "lt;") s).map fun r => (60, r)) <|>
    ((strip (ascii "gt;") s).map fun r => (62, r)) <|>
    ((strip (ascii "quot;") s).map fun r => (34, r))

/-- The value of an attribute up to the closing quote. -/
def readValue : Nat → List UInt8 → Option (List UInt8 × List UInt8)
  | 0, _ => none
  | _ + 1, [] => none
  | n + 1, b :: s =>
    if b = 34 then some ([], s)
    else if b = 38 then do
      let (c, s) ← readEntity s
      let (v, s) ← readValue n s
      return (c :: v, s)
    else do
      let (v, s) ← readValue n s
      return (b :: v, s)

def readDigits (s : List UInt8) : Option (List UInt8 × List UInt8) :=
  let ds := s.takeWhile fun b => isDigit b.toNat
  if ds = [] then none else some (ds, s.dropWhile fun b => isDigit b.toNat)

/-- The style has the numbers of the two attributes again. -/
def readPixels (s : List UInt8) : Option (Size × List UInt8) := do
  let s ← strip (ascii " width=\"") s
  let (width, s) ← readDigits s
  let s ← strip (ascii "\" height=\"") s
  let (height, s) ← readDigits s
  let s ← strip (ascii "\" style=\"width:") s
  let s ← strip width s
  let s ← strip (ascii "px;height:") s
  let s ← strip height s
  let s ← strip (ascii "px\">") s
  return (.pixels width height, s)

def readZoom (s : List UInt8) : Option (Size × List UInt8) := do
  let s ← strip (ascii " style=\"zoom:0.") s
  let (fraction, s) ← readDigits s
  let s ← strip (ascii "\">") s
  return (.zoom fraction, s)

/-- The rest of a tag behind `alt`: no attribute but these. -/
def readSize (s : List UInt8) : Option (Size × List UInt8) := readPixels s <|> readZoom s

/-- The tag of an image, behind `<`. -/
def readImg (s : List UInt8) : Option (Piece × List UInt8) := do
  let s ← strip (ascii "img class=\"enil-sticon-inline\" src=\"") s
  let (src, s) ← readValue s.length s
  let s ← strip (ascii " alt=\"") s
  let (alt, s) ← readValue s.length s
  let (size, s) ← readSize s
  return (.img src alt size, s)

def readPiece : List UInt8 → Option (Piece × List UInt8)
  | [] => none
  | b :: s =>
    if b = 38 then (readEntity s).map fun (c, s) => (.char c, s)
    else if b = 60 then ((strip (ascii "br>") s).map fun s => (.br, s)) <|> readImg s
    else if b = 62 ∨ b = 34 ∨ b = 10 then none
    else some (.char b, s)

def readPieces : Nat → List UInt8 → Option (List Piece)
  | _, [] => some []
  | 0, _ => none
  | n + 1, b :: s =>
    match readPiece (b :: s) with
    | none => none
    | some (p, s) => (readPieces n s).map fun ps => p :: ps

/-- All of a text; every piece takes some of it. -/
def readHtml (html : List UInt8) : Option (List Piece) := readPieces html.length html

theorem strip_append (p s : List UInt8) : strip p (p ++ s) = some s := by
  induction p with
  | nil => rfl
  | cons a p ih => rw [List.cons_append, strip, if_pos rfl, ih]

/-- The pieces of a text, one taken after the other. -/
inductive ReadsAs : List UInt8 → List Piece → Prop where
  | nil : ReadsAs [] []
  | cons {p : Piece} {front rest : List UInt8} {ps : List Piece} (hfront : front ≠ [])
      (h : readPiece (front ++ rest) = some (p, rest)) (hrest : ReadsAs rest ps) :
      ReadsAs (front ++ rest) (p :: ps)

theorem ReadsAs.readPieces {html : List UInt8} {ps : List Piece} (h : ReadsAs html ps) {n : Nat}
    (hn : html.length ≤ n) : readPieces n html = some ps := by
  induction h generalizing n with
  | nil => cases n <;> rfl
  | @cons p front rest ps hfront h _ ih =>
    obtain ⟨b, front, rfl⟩ := List.exists_cons_of_ne_nil hfront
    rw [List.cons_append] at h hn ⊢
    cases n with
    | zero => simp at hn
    | succ n =>
      rw [Html.readPieces, h]
      simp only [List.length_cons, List.length_append] at hn
      exact congrArg (Option.map fun ps => p :: ps) (ih (by omega))

theorem ReadsAs.readHtml {html : List UInt8} {ps : List Piece} (h : ReadsAs html ps) :
    readHtml html = some ps := h.readPieces (le_refl _)

/-! ## What escaping wrote -/

/-- The character or the line break a byte is shown as. -/
def pieceOf (b : UInt8) : Piece := if b = 10 then .br else .char b

/-- The value an escaped attribute is read as; a line end is no line end there. -/
def attrValue (s : List UInt8) : List UInt8 :=
  s.flatMap fun b => if b = 10 then ascii "<br>" else [b]

theorem ascii_amp : ascii "amp;" = [97, 109, 112, 59] := rfl
theorem ascii_lt : ascii "lt;" = [108, 116, 59] := rfl
theorem ascii_gt : ascii "gt;" = [103, 116, 59] := rfl
theorem ascii_quot : ascii "quot;" = [113, 117, 111, 116, 59] := rfl
theorem ascii_br : ascii "br>" = [98, 114, 62] := rfl

/-- The bytes that are replaced. -/
inductive EscapedAs : UInt8 → List UInt8 → Prop where
  | amp : EscapedAs 38 (38 :: ascii "amp;")
  | lt : EscapedAs 60 (38 :: ascii "lt;")
  | gt : EscapedAs 62 (38 :: ascii "gt;")
  | quot : EscapedAs 34 (38 :: ascii "quot;")

/-- A byte is replaced with an entity, is a line end, or stays as it is. -/
theorem escapeByte_cases (b : UInt8) :
    EscapedAs b (escapeByte b) ∨ (b = 10 ∧ escapeByte b = 60 :: ascii "br>") ∨
      (b ≠ 38 ∧ b ≠ 60 ∧ b ≠ 62 ∧ b ≠ 34 ∧ b ≠ 10 ∧ escapeByte b = [b]) := by
  unfold escapeByte htmlEntity
  by_cases h₁ : b = 38
  · subst h₁; exact .inl .amp
  by_cases h₂ : b = 60
  · subst h₂; exact .inl .lt
  by_cases h₃ : b = 62
  · subst h₃; exact .inl .gt
  by_cases h₄ : b = 34
  · subst h₄; exact .inl .quot
  by_cases h₅ : b = 10
  · subst h₅; exact .inr (.inl ⟨rfl, rfl⟩)
  · exact .inr (.inr ⟨h₁, h₂, h₃, h₄, h₅, by simp [h₁, h₂, h₃, h₄, h₅]⟩)

theorem readEntity_escaped {b : UInt8} {e : List UInt8} (h : EscapedAs b (38 :: e))
    (rest : List UInt8) : readEntity (e ++ rest) = some (b, rest) := by
  cases h <;>
    simp [readEntity, ascii_amp, ascii_lt, ascii_gt, ascii_quot, strip]

theorem escapeByte_ne_nil (b : UInt8) : escapeByte b ≠ [] := by
  rcases escapeByte_cases b with h | ⟨-, h⟩ | ⟨-, -, -, -, -, h⟩
  · intro hnil
    rw [hnil] at h
    cases h
  · rw [h]; simp
  · rw [h]; simp

theorem readPiece_escape (b : UInt8) (rest : List UInt8) :
    readPiece (escapeByte b ++ rest) = some (pieceOf b, rest) := by
  rcases escapeByte_cases b with h | ⟨rfl, h⟩ | ⟨h₁, h₂, h₃, h₄, h₅, h⟩
  · generalize escapeByte b = e at h
    have hne : b ≠ 10 := by cases h <;> decide
    obtain ⟨e', rfl⟩ : ∃ e', e = 38 :: e' := by cases h <;> exact ⟨_, rfl⟩
    rw [List.cons_append, readPiece, if_pos rfl, readEntity_escaped h, pieceOf, if_neg hne]
    rfl
  · rw [h, List.cons_append, readPiece, if_neg (by decide), if_pos rfl, strip_append]
    rfl
  · rw [h, List.singleton_append, readPiece, if_neg h₁, if_neg h₂, if_neg (by simp [h₃, h₄, h₅]),
      pieceOf, if_neg h₅]

theorem ReadsAs.escaped {rest : List UInt8} {ps : List Piece} (h : ReadsAs rest ps)
    (s : List UInt8) : ReadsAs (esbHtmlBr s ++ rest) (s.map pieceOf ++ ps) := by
  rw [esbHtmlBr_eq]
  induction s with
  | nil => exact h
  | cons b s ih =>
    rw [List.flatMap_cons, List.append_assoc, List.map_cons, List.cons_append]
    exact .cons (escapeByte_ne_nil b) (readPiece_escape b _) ih

theorem readValue_plain {b : UInt8} (h₁ : b ≠ 34) (h₂ : b ≠ 38) {n : Nat} {s v r : List UInt8}
    (h : readValue n s = some (v, r)) : readValue (n + 1) (b :: s) = some (b :: v, r) := by
  rw [readValue, if_neg h₁, if_neg h₂, h]
  rfl

/-- An escaped value up to the quote behind it. -/
theorem readValue_escaped (s rest : List UInt8) {n : Nat}
    (hn : (s.flatMap escapeByte ++ 34 :: rest).length ≤ n) :
    readValue n (s.flatMap escapeByte ++ 34 :: rest) = some (attrValue s, rest) := by
  induction s generalizing n with
  | nil =>
    cases n with
    | zero => simp at hn
    | succ n => simp [readValue, attrValue]
  | cons b s ih =>
    rw [List.flatMap_cons, List.append_assoc] at hn ⊢
    have hvalue : attrValue (b :: s) = (if b = 10 then ascii "<br>" else [b]) ++ attrValue s := by
      simp [attrValue]
    rw [hvalue]
    rcases escapeByte_cases b with h | ⟨rfl, h⟩ | ⟨h₁, h₂, h₃, h₄, h₅, h⟩
    · generalize escapeByte b = e at h hn
      have hne : b ≠ 10 := by cases h <;> decide
      obtain ⟨e', rfl⟩ : ∃ e', e = 38 :: e' := by cases h <;> exact ⟨_, rfl⟩
      rw [List.cons_append] at hn ⊢
      cases n with
      | zero => simp at hn
      | succ n =>
        simp only [List.length_cons, List.length_append] at hn ih
        rw [readValue, if_neg (by decide), if_pos rfl, readEntity_escaped h, if_neg hne]
        have hrest := ih (n := n) (by omega)
        simp [hrest]
    · rw [h, ascii_br] at hn ⊢
      simp only [List.cons_append, List.nil_append, List.length_cons, List.length_append] at hn ih ⊢
      obtain ⟨m, rfl⟩ : ∃ m, n = m + 4 := ⟨n - 4, by omega⟩
      exact readValue_plain (by decide) (by decide) (readValue_plain (by decide) (by decide)
        (readValue_plain (by decide) (by decide) (readValue_plain (by decide) (by decide)
          (ih (by omega)))))
    · rw [h] at hn ⊢
      rw [List.singleton_append] at hn ⊢
      cases n with
      | zero => simp at hn
      | succ n =>
        simp only [List.length_cons, List.length_append] at hn ih
        rw [if_neg h₅, List.singleton_append]
        exact readValue_plain h₄ h₁ (ih (by omega))

theorem ascii_append (s t : String) : ascii (s ++ t) = ascii s ++ ascii t := by
  unfold ascii
  rw [String.toList_append, List.map_append]

/-- Digits, up to the quote behind them. -/
theorem readDigits_append {ds : List UInt8} (hds : ∀ b ∈ ds, isDigit b.toNat = true)
    (hne : ds ≠ []) (rest : List UInt8) :
    readDigits (ds ++ 34 :: rest) = some (ds, 34 :: rest) := by
  have hquote : ¬ isDigit (34 : UInt8).toNat = true := by decide
  have htake : ((ds ++ 34 :: rest).takeWhile fun b => isDigit b.toNat) = ds := by
    rw [List.takeWhile_append_of_pos hds,
      List.takeWhile_cons_of_neg (p := fun b : UInt8 => isDigit b.toNat) hquote, List.append_nil]
  have hdrop : ((ds ++ 34 :: rest).dropWhile fun b => isDigit b.toNat) = 34 :: rest := by
    rw [List.dropWhile_append_of_pos hds,
      List.dropWhile_cons_of_neg (p := fun b : UInt8 => isDigit b.toNat) hquote]
  simp only [readDigits, htake, hdrop, hne, if_false]

def pixelAttrs (width height : List UInt8) : List UInt8 :=
  ascii " width=\"" ++ width ++ ascii "\" height=\"" ++ height ++ ascii "\" style=\"width:" ++
    width ++ ascii "px;height:" ++ height ++ ascii "px\""

theorem readSize_pixels {width height : List UInt8} (hw : ∀ b ∈ width, isDigit b.toNat = true)
    (hwne : width ≠ []) (hh : ∀ b ∈ height, isDigit b.toNat = true) (hhne : height ≠ [])
    (rest : List UInt8) :
    readSize (pixelAttrs width height ++ 62 :: rest) = some (.pixels width height, rest) := by
  have hattrs : pixelAttrs width height ++ 62 :: rest =
      ascii " width=\"" ++ (width ++ 34 :: (ascii " height=\"" ++ (height ++ 34 ::
        (ascii " style=\"width:" ++ (width ++ (ascii "px;height:" ++ (height ++
          (ascii "px\">" ++ rest)))))))) := by
    have h₁ : ascii "\" height=\"" = 34 :: ascii " height=\"" := rfl
    have h₂ : ascii "\" style=\"width:" = 34 :: ascii " style=\"width:" := rfl
    have h₃ : ascii "px\">" = ascii "px\"" ++ [62] := rfl
    simp only [pixelAttrs, h₁, h₂, h₃, List.append_assoc, List.cons_append, List.nil_append]
  have hheight : ∀ s, strip (ascii "\" height=\"") (34 :: (ascii " height=\"" ++ s)) = some s :=
    strip_append (ascii "\" height=\"")
  have hstyle : ∀ s, strip (ascii "\" style=\"width:") (34 :: (ascii " style=\"width:" ++ s)) =
      some s := strip_append (ascii "\" style=\"width:")
  have hpixels : readPixels (pixelAttrs width height ++ 62 :: rest) =
      some (.pixels width height, rest) := by
    simp only [readPixels, hattrs, strip_append, readDigits_append hw hwne,
      readDigits_append hh hhne, hheight, hstyle, Option.bind_eq_bind, Option.bind_some]
    rfl
  rw [readSize, hpixels]
  rfl

theorem readSize_zoom {fraction : List UInt8} (h : ∀ b ∈ fraction, isDigit b.toNat = true)
    (hne : fraction ≠ []) (rest : List UInt8) :
    readSize (ascii " style=\"zoom:0." ++ fraction ++ ascii "\"" ++ 62 :: rest) =
      some (.zoom fraction, rest) := by
  have hattrs : ascii " style=\"zoom:0." ++ fraction ++ ascii "\"" ++ 62 :: rest =
      ascii " style=\"zoom:0." ++ (fraction ++ 34 :: (62 :: rest)) := by
    have hquote : ascii "\"" = [34] := rfl
    simp only [hquote, List.append_assoc, List.singleton_append]
  have hpixels : readPixels (ascii " style=\"zoom:0." ++ (fraction ++ 34 :: (62 :: rest))) =
      none := by
    have hnone : ∀ s, strip (ascii " width=\"") (ascii " style=\"zoom:0." ++ s) = none :=
      fun s => rfl
    rw [readPixels, hnone]
    rfl
  have hend : strip (ascii "\">") (34 :: (62 :: rest)) = some rest := rfl
  have hzoom : readZoom (ascii " style=\"zoom:0." ++ (fraction ++ 34 :: (62 :: rest))) =
      some (.zoom fraction, rest) := by
    simp only [readZoom, strip_append, readDigits_append h hne, hend, Option.bind_eq_bind,
      Option.bind_some]
    rfl
  rw [hattrs, readSize, hpixels, hzoom]
  rfl

def imgTag (src alt size : List UInt8) : List UInt8 :=
  ascii "<img class=\"enil-sticon-inline\" src=\"" ++ esbHtmlBr src ++ ascii "\" alt=\"" ++
    esbHtmlBr alt ++ ascii "\"" ++ size ++ ascii ">"

theorem readPiece_imgTag (src alt : List UInt8) {size : List UInt8} {sz : Size}
    (h : ∀ rest, readSize (size ++ 62 :: rest) = some (sz, rest)) (rest : List UInt8) :
    readPiece (imgTag src alt size ++ rest) =
      some (.img (attrValue src) (attrValue alt) sz, rest) := by
  have htag : imgTag src alt size ++ rest =
      60 :: (ascii "img class=\"enil-sticon-inline\" src=\"" ++ (src.flatMap escapeByte ++
        34 :: (ascii " alt=\"" ++ (alt.flatMap escapeByte ++ 34 :: (size ++ 62 :: rest))))) := by
    have h₁ : ascii "<img class=\"enil-sticon-inline\" src=\"" =
        60 :: ascii "img class=\"enil-sticon-inline\" src=\"" := rfl
    have h₂ : ascii "\" alt=\"" = 34 :: ascii " alt=\"" := rfl
    have h₃ : ascii "\"" = [34] := rfl
    have h₄ : ascii ">" = [62] := rfl
    simp only [imgTag, esbHtmlBr_eq, h₁, h₂, h₃, h₄, List.append_assoc, List.cons_append,
      List.nil_append]
  have hbr : ∀ s, strip (ascii "br>") (ascii "img class=\"enil-sticon-inline\" src=\"" ++ s) =
      none := by
    intro s
    have hhead : ascii "img class=\"enil-sticon-inline\" src=\"" =
        105 :: ascii "mg class=\"enil-sticon-inline\" src=\"" := rfl
    rw [hhead, ascii_br, List.cons_append, strip, if_neg (by decide)]
  rw [htag, readPiece, if_neg (by decide), if_pos rfl, hbr]
  simp only [Option.map_none, Option.orElse_apply, Option.orElse_none, readImg, strip_append,
    Option.bind_eq_bind, Option.bind_some, readValue_escaped _ _ (le_refl _), h]
  rfl

theorem imgTag_ne_nil (src alt size : List UInt8) : imgTag src alt size ≠ [] := by
  have : ascii ">" ≠ [] := List.cons_ne_nil 62 []
  simp [imgTag, this]

end Enil.Html
