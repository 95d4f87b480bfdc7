import Enil.Format.Bubble
import Enil.Format.PickerThumb
import Enil.Lib.Markup
import Enil.Lib.Runs

/-!
# The pages of the picker

A page shows the purchased items package by package: the first ones of a package right away, the
others in a part of it that is hidden at first. It is the written form of a tree of elements, so
that what is opened is closed.
-/

namespace Enil.Html

open Lib Lib.Markup

/-- ENILHTMLSticker; a string that is missing is empty. -/
structure HtmlSticker where
  stickerId : List UInt8
  packageId : List UInt8
  packageName : List UInt8
  imagePath : List UInt8
  altText : List UInt8
  imageWidth : Int
  imageHeight : Int
  isAnimated : Bool

/-! ## Escaping for URLs -/

def isUrlUnreserved (c : UInt8) : Bool :=
  (65 ≤ c && c ≤ 90) || (97 ≤ c && c ≤ 122) || (48 ≤ c && c ≤ 57) ||
    c == 45 || c == 95 || c == 46 || c == 126

def upperHex (n : Nat) : UInt8 := (ascii "0123456789ABCDEF").getD n 0

def esbUrlCore (keepSlash : Bool) (s : List UInt8) : List UInt8 :=
  s.flatMap fun c =>
    if isUrlUnreserved c || (keepSlash && c == 47) then [c]
    else [37, upperHex (c.toNat / 16), upperHex (c.toNat % 16)]

def esbUrl (s : List UInt8) : List UInt8 := esbUrlCore false s

def esbUrlPath (s : List UInt8) : List UInt8 := esbUrlCore true s

def esbInt (n : Int) : List UInt8 := ascii (toString n)

/-! ## The head -/

def zoomScript : List UInt8 :=
  ascii "document.documentElement.style.zoom=" ++
    ascii "/iP(hone|ad|od)/.test(navigator.userAgent)?'1.2':'1.0';"

def fontFace (fontDir family file : List UInt8) : List UInt8 :=
  ascii "@font-face\x7bfont-family:'" ++ (family ++ (ascii "';src:url('file://" ++
    (esbUrlPath fontDir ++ (ascii "/" ++ (file ++ ascii "') format('opentype');\x7d")))))

/-- append_font_face; without fonts the directory is empty. -/
def appendFontFace (fontDir : List UInt8) : List UInt8 :=
  if fontDir = [] then []
  else fontFace fontDir (ascii "FA7S") (ascii "FA7-Solid-900.otf") ++
    (fontFace fontDir (ascii "FA7R") (ascii "FA7-Regular-400.otf") ++
    (fontFace fontDir (ascii "FA7B") (ascii "FA7-Brands-400.otf") ++
    (ascii ".fa\x7bfont-family:'FA7S';font-style:normal;font-weight:normal;" ++
    (ascii "display:inline-block;line-height:1;\x7d" ++
    (ascii ".fa-regular\x7bfont-family:'FA7R';\x7d" ++
    ascii ".fa-brands\x7bfont-family:'FA7B';\x7d")))))

def appendHead (fontDir bodyClass baseHref extraCss : List UInt8) : List UInt8 :=
  ascii "<!DOCTYPE html><html><head><meta charset=\"utf-8\">" ++
    ((if bodyClass = ascii "enil-messages" then
        ascii "<meta name=\"viewport\" content=\"width=device-width,initial-scale=1\">"
      else ascii "<script>" ++ (zoomScript ++ ascii "</script>")) ++
    ((if baseHref = [] then [] else ascii "<base href=\"" ++ (esbHtml baseHref ++ ascii "\">")) ++
    (ascii "<style>" ++ (appendFontFace fontDir ++ (extraCss ++
    (ascii "</style></head><body class=\"" ++ (esbHtml bodyClass ++ ascii "\">")))))))

/-! ## A thumbnail -/

section

variable (other : HtmlSticker → Int × Int)

/-- The size of the image; `other` is what the machine makes of one that overflows. -/
def thumbDims (s : HtmlSticker) (imageSize fallback : Int) : Int × Int :=
  (pickerThumbDims s.imageWidth s.imageHeight imageSize fallback).getD (other s)

/-- The sizes up to the text that stands for the image; 160 bytes hold them. -/
def printDims (d : Int × Int) : List UInt8 :=
  ascii "\" width=\"" ++ (esbInt d.1 ++ (ascii "\" height=\"" ++ (esbInt d.2 ++
    (ascii "\" style=\"width:" ++ (esbInt d.1 ++ (ascii "px;height:" ++ (esbInt d.2 ++
    (ascii "px;margin-left:-" ++ (esbInt (d.1.tdiv 2) ++ (ascii "px;margin-top:-" ++
    (esbInt (d.2.tdiv 2) ++ ascii "px\" alt=\"")))))))))))

def appendStickerLink (s : HtmlSticker) (imageSize : Int) (deferred : Bool) : List UInt8 :=
  if s.imagePath = [] then []
  else
    ascii "<a class=\"enil-picker-item\" href=\"enil-sticker://select?package_id=" ++
    (esbUrl s.packageId ++ (ascii "&amp;sticker_id=" ++ (esbUrl s.stickerId ++
    (ascii "\"><span class=\"enil-picker-thumb\"><img class=\"enil-image enil-picker-image" ++
    ((if s.isAnimated then ascii " enil-animated-image" else []) ++
    ((if deferred then ascii " enil-lazy\" data-src=\"" else ascii "\" src=\"") ++
    (esbHtml s.imagePath ++ (printDims (thumbDims other s imageSize 64) ++
    (ascii "\"" ++ ascii "></span></a>")))))))))

def sticonTitle (s : HtmlSticker) : List UInt8 :=
  if s.altText = [] then s.stickerId else s.altText

def appendSticonLink (s : HtmlSticker) (imageSize : Int) (deferred : Bool) : List UInt8 :=
  if s.imagePath = [] then []
  else
    ascii "<a class=\"enil-picker-item\" href=\"enil-sticon://select?package_id=" ++
    (esbUrl s.packageId ++ (ascii "&amp;sticker_id=" ++ (esbUrl s.stickerId ++
    (ascii "&amp;alt_text=" ++ (esbUrl (sticonTitle s) ++
    (ascii "\" title=\"" ++ (esbHtml (sticonTitle s) ++
    ((if deferred then
        ascii "\"><span class=\"enil-picker-thumb\">" ++
          ascii "<img class=\"enil-image enil-picker-image enil-lazy\" data-src=\""
      else
        ascii "\"><span class=\"enil-picker-thumb\">" ++
          ascii "<img class=\"enil-image enil-picker-image\" src=\"") ++
    (esbHtml s.imagePath ++ (printDims (thumbDims other s imageSize 32) ++
    (esbHtml (sticonTitle s) ++ ascii "\"></span></a>")))))))))))

end

/-! ## The page -/

structure PickerState where
  output : List UInt8
  lastPackage : Option (List UInt8)
  idxInPack : Nat
  packNo : Nat
  restOpen : Bool

/-- The ends of the hidden part and of the package that are open. -/
def closePack (t : PickerState) : List UInt8 :=
  (if t.restOpen then ascii "</span>" else []) ++ (if t.lastPackage.isSome then endDiv else [])

def packTitle (s : HtmlSticker) : List UInt8 :=
  if s.packageName = [] then esbHtml s.packageId else esbHtml s.packageName

def packStart (packNo : Nat) (s : HtmlSticker) : List UInt8 :=
  ascii "<div class=\"enil-picker-pack\"><div class=\"enil-picker-pack-title\" " ++
  (ascii "onclick=\"enilExpand(" ++ (esbInt packNo ++
  (ascii ")\"><i class=\"fa enil-chev\" id=\"enil-chev-" ++ (esbInt packNo ++
  (ascii "\">&#xF054;</i><span>" ++ (packTitle s ++ ascii "</span></div>"))))))

def pickerOpenPack (s : HtmlSticker) (t : PickerState) : PickerState where
  output := t.output ++ (closePack t ++ packStart (t.packNo + 1) s)
  lastPackage := some s.packageId
  idxInPack := 0
  packNo := t.packNo + 1
  restOpen := false

def restStart (packNo : Nat) : List UInt8 :=
  ascii "<span class=\"enil-picker-rest\" id=\"enil-rest-" ++ (esbInt packNo ++
    ascii "\" style=\"display:none\">")

def pickerOpenRest (t : PickerState) : PickerState :=
  { t with output := t.output ++ restStart t.packNo, restOpen := true }

/-- The item shown, and the next one counted. -/
def appendItem (link : List UInt8) (t : PickerState) : PickerState :=
  { t with output := t.output ++ link, idxInPack := t.idxInPack + 1 }

abbrev PickerLinkFn := HtmlSticker → Int → Bool → List UInt8

def kStickerPickerScript : List UInt8 :=
  ascii "function enilExpand(n)\x7b" ++
  (ascii "var r=document.getElementById('enil-rest-'+n);" ++
  (ascii "if(!r)return;" ++
  (ascii "var c=document.getElementById('enil-chev-'+n);" ++
  (ascii "if(r.style.display!='inline')\x7b" ++
  (ascii "r.style.display='inline';" ++
  (ascii "if(c)c.innerHTML='&#xF078;';" ++
  (ascii "var g=r.getElementsByTagName('img');" ++
  (ascii "for(var i=0;i<g.length;i++)\x7b" ++
  (ascii "var d=g[i].getAttribute('data-src');" ++
  (ascii "if(d)\x7bg[i].src=d;g[i].removeAttribute('data-src');\x7d" ++
  (ascii "\x7d" ++
  (ascii "\x7delse\x7br.style.display='none';if(c)c.innerHTML='&#xF054;';\x7d" ++
  ascii "\x7d"))))))))))))

section

variable (link : PickerLinkFn) (imageSize previewCount : Int)

/-- The package of an item that is not the one before it is opened. -/
def enterPack (s : HtmlSticker) (t : PickerState) : PickerState :=
  if t.lastPackage = some s.packageId then t else pickerOpenPack s t

/-- The hidden part is opened behind the preview. -/
def enterRest (t : PickerState) : PickerState :=
  if (t.idxInPack : Int) = previewCount then pickerOpenRest t else t

/-- An item that has an image, its package being open. -/
def showItem (s : HtmlSticker) (t : PickerState) : PickerState :=
  appendItem (link s imageSize (decide (previewCount ≤ t.idxInPack))) (enterRest previewCount t)

def pickerTurn (t : PickerState) (s : HtmlSticker) : PickerState :=
  if s.imagePath = [] then t else showItem link imageSize previewCount s (enterPack s t)

def gridStart : PickerState := ⟨ascii "<div class=\"enil-picker-grid\">", none, 0, 0, false⟩

/-- What follows the loop. -/
def gridEnd (t : PickerState) : List UInt8 :=
  t.output ++ (closePack t ++ (ascii "</div>" ++ ((ascii "<script>" ++
    (kStickerPickerScript ++ ascii "</script>")) ++ ascii "</body></html>")))

def pickerBody (emptyText : List UInt8) (items : List HtmlSticker) : List UInt8 :=
  if items = [] then
    ascii "<div class=\"enil-empty\">" ++ (esbHtml emptyText ++ ascii "</div></body></html>")
  else gridEnd (items.foldl (pickerTurn link imageSize previewCount) gridStart)

def pickerPageWithCss (fontDir : List UInt8) (items : List HtmlSticker) (pickerCss : List UInt8)
    (bodyClass emptyText : List UInt8) : List UInt8 :=
  appendHead fontDir bodyClass [] pickerCss ++
    pickerBody link imageSize previewCount emptyText items

end

section

variable (fontDir : List UInt8) (other : HtmlSticker → Int × Int) (items : List HtmlSticker)
  (pickerCss : List UInt8) (imageSize previewCount : Int)

def sticonPickerPageWithCss : List UInt8 :=
  pickerPageWithCss (appendSticonLink other) imageSize previewCount fontDir items pickerCss
    (ascii "enil-sticon-picker") (ascii "No purchased emoji")

def stickerPickerPageWithCss : List UInt8 :=
  pickerPageWithCss (appendStickerLink other) imageSize previewCount fontDir items pickerCss
    (ascii "enil-sticker-picker") (ascii "No purchased stickers")

end

/-! ## The tree of a page -/

def attr (name : String) (value : List UInt8) : Attr := ⟨ascii name, value⟩

def tag (name : String) (attrs : List Attr) : Tag := ⟨ascii name, attrs⟩

def textTrees (s : List UInt8) : List Tree := s.map .char

def pxStyle (d : Int × Int) : List UInt8 :=
  ascii "width:" ++ (esbInt d.1 ++ (ascii "px;height:" ++ (esbInt d.2 ++
    (ascii "px;margin-left:-" ++ (esbInt (d.1.tdiv 2) ++ (ascii "px;margin-top:-" ++
    (esbInt (d.2.tdiv 2) ++ ascii "px")))))))

/-- The image of a link; one that is deferred names it where it is not loaded. -/
def thumbTree (cls : List UInt8) (deferred : Bool) (path : List UInt8) (d : Int × Int)
    (alt : List UInt8) : Tree :=
  .element (tag "span" [attr "class" (ascii "enil-picker-thumb")]) [
    .void (tag "img" [
      attr "class" (cls ++ if deferred then ascii " enil-lazy" else []),
      attr (if deferred then "data-src" else "src") (esbHtml path),
      attr "width" (esbInt d.1), attr "height" (esbInt d.2), attr "style" (pxStyle d),
      attr "alt" alt])]

section

variable (other : HtmlSticker → Int × Int) (imageSize : Int)

def stickerTree (s : HtmlSticker) (deferred : Bool) : Tree :=
  .element (tag "a" [
      attr "class" (ascii "enil-picker-item"),
      attr "href" (ascii "enil-sticker://select?package_id=" ++ (esbUrl s.packageId ++
        (ascii "&amp;sticker_id=" ++ esbUrl s.stickerId)))]) [
    thumbTree (ascii "enil-image enil-picker-image" ++
        if s.isAnimated then ascii " enil-animated-image" else [])
      deferred s.imagePath (thumbDims other s imageSize 64) []]

def sticonTree (s : HtmlSticker) (deferred : Bool) : Tree :=
  .element (tag "a" [
      attr "class" (ascii "enil-picker-item"),
      attr "href" (ascii "enil-sticon://select?package_id=" ++ (esbUrl s.packageId ++
        (ascii "&amp;sticker_id=" ++ (esbUrl s.stickerId ++
        (ascii "&amp;alt_text=" ++ esbUrl (sticonTitle s)))))),
      attr "title" (esbHtml (sticonTitle s))]) [
    thumbTree (ascii "enil-image enil-picker-image") deferred s.imagePath
      (thumbDims other s imageSize 32) (esbHtml (sticonTitle s))]

theorem ascii_ofList (l : List Char) :
    ascii (String.ofList l) = l.map fun c => UInt8.ofNat c.toNat := by
  rw [ascii, String.toList_ofList]

theorem appendStickerLink_eq {s : HtmlSticker} (hs : s.imagePath ≠ []) (deferred : Bool) :
    appendStickerLink other s imageSize deferred =
      (stickerTree other imageSize s deferred).render := by
  rw [appendStickerLink, if_neg hs]
  simp only [stickerTree, thumbTree, printDims, pxStyle, Tree.render, renderSeq, Tag.start,
    Tag.close, tag, attr, List.flatMap_cons, List.flatMap_nil, Attr.render, List.append_assoc,
    List.cons_append, List.nil_append, List.append_nil]
  repeat rw [ascii_ofList]
  cases deferred <;> rfl

set_option maxRecDepth 2000 in
theorem appendSticonLink_eq {s : HtmlSticker} (hs : s.imagePath ≠ []) (deferred : Bool) :
    appendSticonLink other s imageSize deferred =
      (sticonTree other imageSize s deferred).render := by
  rw [appendSticonLink, if_neg hs]
  simp only [sticonTree, thumbTree, printDims, pxStyle, Tree.render, renderSeq, Tag.start,
    Tag.close, tag, attr, List.flatMap_cons, List.flatMap_nil, Attr.render, List.append_assoc,
    List.cons_append, List.nil_append, List.append_nil]
  cases deferred
  · simp only [Bool.false_eq_true, if_false, List.append_assoc]
    repeat rw [ascii_ofList]
    rfl
  · simp only [if_true, List.append_assoc]
    repeat rw [ascii_ofList]
    rfl

end

/-! ## Packages -/

def hasImage (s : HtmlSticker) : Bool := s.imagePath != []

/-- The packages of the items that have an image. -/
def packsOf (items : List HtmlSticker) : List (Run HtmlSticker.packageId) :=
  runs HtmlSticker.packageId (items.filter hasImage)

theorem flatMap_packsOf (items : List HtmlSticker) :
    (packsOf items).flatMap Run.items = items.filter hasImage :=
  flatMap_runs _

theorem nodup_packsOf {items : List HtmlSticker} (h : IsGrouped HtmlSticker.packageId items) :
    ((packsOf items).map Run.value).Nodup := by
  refine nodup_of_isGrouped (isChain_runs _) ?_
  rw [flatMap_packsOf]
  exact h.sublist List.filter_sublist

section

variable (tree : HtmlSticker → Bool → Tree) (previewCount : Nat)

/-- The title of a package, which is taken from its first item. -/
def titleTree (packNo : Nat) (s : HtmlSticker) : Tree :=
  .element (tag "div" [
      attr "class" (ascii "enil-picker-pack-title"),
      attr "onclick" (ascii "enilExpand(" ++ (esbInt packNo ++ ascii ")"))]) [
    .element (tag "i" [
        attr "class" (ascii "fa enil-chev"),
        attr "id" (ascii "enil-chev-" ++ esbInt packNo)])
      (textTrees (ascii "&#xF054;")),
    .element (tag "span" []) (textTrees (packTitle s))]

def restTag (packNo : Nat) : Tag :=
  tag "span" [
    attr "class" (ascii "enil-picker-rest"),
    attr "id" (ascii "enil-rest-" ++ esbInt packNo),
    attr "style" (ascii "display:none")]

/-- The hidden part of a package, if there is anything in it. -/
def restTrees (packNo : Nat) (items : List HtmlSticker) : List Tree :=
  if items = [] then [] else [.element (restTag packNo) (items.map fun s => tree s true)]

/-- What a package shows: the preview, and the rest hidden. -/
def itemTrees (packNo : Nat) (items : List HtmlSticker) : List Tree :=
  (items.take previewCount).map (fun s => tree s false) ++
    restTrees tree packNo (items.drop previewCount)

def packTag : Tag := tag "div" [attr "class" (ascii "enil-picker-pack")]

def packTree (packNo : Nat) (pack : Run HtmlSticker.packageId) : Tree :=
  .element packTag
    (titleTree packNo (pack.items.head pack.nonempty) ::
      itemTrees tree previewCount packNo pack.items)

/-- The packages, numbered from `packNo` on. -/
def packTrees : Nat → List (Run HtmlSticker.packageId) → List Tree
  | _, [] => []
  | packNo, pack :: packs => packTree tree previewCount packNo pack :: packTrees (packNo + 1) packs

end

theorem restStart_eq (packNo : Nat) : restStart packNo = (restTag packNo).start := by
  simp only [restStart, restTag, Tag.start, tag, attr, List.flatMap_cons, List.flatMap_nil,
    Attr.render, List.append_assoc, List.cons_append, List.nil_append]
  repeat rw [ascii_ofList]
  rfl

theorem packStart_eq (packNo : Nat) (s : HtmlSticker) :
    packStart packNo s = packTag.start ++ (titleTree packNo s).render := by
  have htitle : renderSeq (textTrees (packTitle s)) = packTitle s := renderSeq_map_char _
  have hicon : renderSeq (textTrees (ascii "&#xF054;")) = ascii "&#xF054;" :=
    renderSeq_map_char _
  simp only [packStart, packTag, titleTree, Tree.render, renderSeq, htitle, hicon, Tag.start,
    Tag.close, tag, attr, List.flatMap_cons, List.flatMap_nil, Attr.render, List.append_assoc,
    List.cons_append, List.nil_append, List.append_nil]
  repeat rw [ascii_ofList]
  rfl

/-! ## The loop -/

section

variable {link : PickerLinkFn} {tree : HtmlSticker → Bool → Tree} {imageSize : Int} {k : Nat}

/-- What the items of a package are written as, from the one at `j` on; the hidden part is
not closed. -/
def itemsFrom (tree : HtmlSticker → Bool → Tree) (k packNo : Nat) :
    Nat → List HtmlSticker → List UInt8
  | _, [] => []
  | j, s :: l => (if j = k then restStart packNo else []) ++
      ((tree s (decide (k ≤ j))).render ++ itemsFrom tree k packNo (j + 1) l)

/-- Behind the preview every item is deferred. -/
theorem itemsFrom_of_lt {packNo j : Nat} (hj : k < j) (l : List HtmlSticker) :
    itemsFrom tree k packNo j l = renderSeq (l.map fun s => tree s true) := by
  induction l generalizing j with
  | nil => rfl
  | cons s l ih =>
    rw [itemsFrom, if_neg (by omega), decide_eq_true (show k ≤ j by omega), ih (by omega),
      List.nil_append, List.map_cons, renderSeq]

/-- With its end, the hidden part is an element. -/
theorem itemsFrom_of_le {packNo j : Nat} (hj : j ≤ k) (l : List HtmlSticker) :
    itemsFrom tree k packNo j l ++ (if k < j + l.length then ascii "</span>" else []) =
      renderSeq (itemTrees tree (k - j) packNo l) := by
  induction l generalizing j with
  | nil =>
    rw [List.length_nil, if_neg (by omega), itemTrees, List.take_nil, List.drop_nil, restTrees,
      if_pos rfl]
    rfl
  | cons s l ih =>
    rw [itemsFrom, List.length_cons]
    by_cases heq : j = k
    · subst heq
      have hclose : ascii "</span>" = (restTag packNo).close := rfl
      rw [if_pos rfl, decide_eq_true (Nat.le_refl j), itemsFrom_of_lt (Nat.lt_succ_self j),
        if_pos (by omega), itemTrees, Nat.sub_self, List.take_zero, List.drop_zero, restTrees,
        if_neg (List.cons_ne_nil s l), List.map_nil, List.nil_append, renderSeq, Tree.render,
        List.map_cons, renderSeq, renderSeq, restStart_eq, hclose]
      simp only [List.append_assoc, List.append_nil]
    · have hstep : k - j = (k - (j + 1)) + 1 := by omega
      have hrest := ih (show j + 1 ≤ k by omega)
      rw [show j + 1 + l.length = j + (l.length + 1) by omega] at hrest
      rw [if_neg heq, decide_eq_false (by omega), List.nil_append, List.append_assoc, hrest, hstep,
        itemTrees, itemTrees, List.take_succ_cons, List.drop_succ_cons, List.map_cons,
        List.cons_append, renderSeq]

/-- Inside of a package. -/
theorem foldl_pickerTurn_inside {t : PickerState} {l : List HtmlSticker}
    (hlink : ∀ s d, s.imagePath ≠ [] → link s imageSize d = (tree s d).render)
    (hpack : ∀ s ∈ l, t.lastPackage = some s.packageId) (himage : ∀ s ∈ l, s.imagePath ≠ [])
    (hopen : t.restOpen = decide (k < t.idxInPack)) :
    l.foldl (pickerTurn link imageSize k) t =
      { t with
        output := t.output ++ itemsFrom tree k t.packNo t.idxInPack l
        idxInPack := t.idxInPack + l.length
        restOpen := decide (k < t.idxInPack + l.length) } := by
  induction l generalizing t with
  | nil =>
    obtain ⟨output, lastPackage, idxInPack, packNo, restOpen⟩ := t
    simp only [List.foldl_nil, itemsFrom, List.append_nil, List.length_nil, Nat.add_zero] at hopen ⊢
    rw [hopen]
  | cons s l ih =>
    obtain ⟨hs, hpack⟩ := List.forall_mem_cons.mp hpack
    obtain ⟨hshown, himage⟩ := List.forall_mem_cons.mp himage
    have hturn : pickerTurn link imageSize k t s = { t with
        output := t.output ++ ((if t.idxInPack = k then restStart t.packNo else []) ++
          (tree s (decide (k ≤ t.idxInPack))).render)
        idxInPack := t.idxInPack + 1
        restOpen := decide (k < t.idxInPack + 1) } := by
      rw [pickerTurn, if_neg hshown, enterPack, if_pos hs, showItem, hlink s _ hshown, enterRest]
      simp only [Int.ofNat_inj, Int.ofNat_le]
      by_cases hrest : t.idxInPack = k
      · rw [if_pos hrest, if_pos hrest, decide_eq_true (show k < t.idxInPack + 1 by omega),
          appendItem, pickerOpenRest, List.append_assoc]
      · have hsame : decide (k < t.idxInPack + 1) = t.restOpen := by
          rw [hopen, decide_eq_decide]
          omega
        rw [if_neg hrest, if_neg hrest, hsame, appendItem, List.nil_append]
    rw [List.foldl_cons, hturn]
    refine Eq.trans (ih hpack himage rfl) ?_
    simp only [itemsFrom, List.length_cons, List.append_assoc]
    rw [show t.idxInPack + 1 + l.length = t.idxInPack + (l.length + 1) by omega]

/-- The output with the ends of what is open. -/
def closed (t : PickerState) : List UInt8 := t.output ++ closePack t

/-- The first item of a package opens it. -/
theorem pickerTurn_enterPack {s : HtmlSticker} (hs : s.imagePath ≠ []) (t : PickerState) :
    pickerTurn link imageSize k (enterPack s t) s = pickerTurn link imageSize k t s := by
  have henter : enterPack s (enterPack s t) = enterPack s t := by
    by_cases hlast : t.lastPackage = some s.packageId
    · rw [enterPack, if_pos (by rw [enterPack, if_pos hlast, hlast])]
    · rw [enterPack, if_pos (by rw [enterPack, if_neg hlast, pickerOpenPack])]
  rw [pickerTurn, pickerTurn, if_neg hs, if_neg hs, henter]

/-- The items of a package, of which the one before is another. -/
theorem foldl_pickerTurn_pack {t : PickerState} {s : HtmlSticker} {l : List HtmlSticker}
    (hlink : ∀ s d, s.imagePath ≠ [] → link s imageSize d = (tree s d).render)
    (himage : ∀ x ∈ s :: l, x.imagePath ≠ []) (hsame : ∀ x ∈ s :: l, x.packageId = s.packageId)
    (hlast : t.lastPackage ≠ some s.packageId) :
    (s :: l).foldl (pickerTurn link imageSize k) t =
      { output := t.output ++ (closePack t ++ packStart (t.packNo + 1) s) ++
          itemsFrom tree k (t.packNo + 1) 0 (s :: l)
        lastPackage := some s.packageId
        idxInPack := 0 + (s :: l).length
        packNo := t.packNo + 1
        restOpen := decide (k < 0 + (s :: l).length) } := by
  have hopen : enterPack s t = pickerOpenPack s t := by
    rw [enterPack, if_neg hlast]
  rw [List.foldl_cons, ← pickerTurn_enterPack (himage s List.mem_cons_self), ← List.foldl_cons,
    hopen]
  refine foldl_pickerTurn_inside hlink (fun x hx => ?_) himage ?_
  · rw [pickerOpenPack, hsame x hx]
  · exact (decide_eq_false (Nat.not_lt_zero k)).symm

/-- A package is written as its tree. -/
theorem closed_foldl_pack {t : PickerState} {pack : Run HtmlSticker.packageId}
    (hlink : ∀ s d, s.imagePath ≠ [] → link s imageSize d = (tree s d).render)
    (himage : ∀ s ∈ pack.items, s.imagePath ≠ []) (hlast : t.lastPackage ≠ some pack.value) :
    closed (pack.items.foldl (pickerTurn link imageSize k) t) =
        closed t ++ (packTree tree k (t.packNo + 1) pack).render ∧
      (pack.items.foldl (pickerTurn link imageSize k) t).lastPackage = some pack.value ∧
      (pack.items.foldl (pickerTurn link imageSize k) t).packNo = t.packNo + 1 := by
  obtain ⟨value, items, hitems, hsame⟩ := pack
  obtain ⟨s, l, rfl⟩ := List.exists_cons_of_ne_nil hitems
  obtain rfl : s.packageId = value := hsame s List.mem_cons_self
  have hend : endDiv = packTag.close := rfl
  have hitemTrees : itemsFrom tree k (t.packNo + 1) 0 (s :: l) ++ _ = _ :=
    itemsFrom_of_le (Nat.zero_le k) (s :: l)
  rw [foldl_pickerTurn_pack hlink himage hsame hlast]
  refine ⟨?_, rfl, rfl⟩
  rw [Nat.sub_zero] at hitemTrees
  simp only [closed, closePack, packTree, Tree.render, renderSeq, List.head_cons, packStart_eq,
    ← hitemTrees, ← hend, decide_eq_true_eq, Option.isSome_some, if_true, List.append_assoc]

/-- Packages of which no two neighbours are the same one are written as their trees. -/
theorem closed_foldl_packs {t : PickerState} {packs : List (Run HtmlSticker.packageId)}
    (hlink : ∀ s d, s.imagePath ≠ [] → link s imageSize d = (tree s d).render)
    (himage : ∀ s ∈ packs.flatMap Run.items, s.imagePath ≠ [])
    (hchain : packs.IsChain fun p q => p.value ≠ q.value)
    (hlast : ∀ p ∈ packs.head?, t.lastPackage ≠ some p.value) :
    closed ((packs.flatMap Run.items).foldl (pickerTurn link imageSize k) t) =
      closed t ++ renderSeq (packTrees tree k (t.packNo + 1) packs) := by
  induction packs generalizing t with
  | nil => exact (List.append_nil _).symm
  | cons p packs ih =>
    rw [List.flatMap_cons] at himage
    obtain ⟨hclosed, hlast', hpackNo⟩ := closed_foldl_pack hlink
      (fun s hs => himage s (List.mem_append_left _ hs)) (hlast p rfl)
    rw [List.flatMap_cons, List.foldl_append, packTrees, renderSeq, ih, hclosed, hpackNo,
      List.append_assoc]
    · exact fun s hs => himage s (List.mem_append_right _ hs)
    · exact hchain.tail
    · intro q hq
      rw [hlast']
      intro heq
      exact (List.isChain_cons.mp hchain).1 q hq (Option.some.inj heq)

/-- Items without an image are passed over. -/
theorem foldl_pickerTurn_filter (items : List HtmlSticker) (t : PickerState) :
    (items.filter hasImage).foldl (pickerTurn link imageSize k) t =
      items.foldl (pickerTurn link imageSize k) t := by
  induction items generalizing t with
  | nil => rfl
  | cons s items ih =>
    by_cases hs : s.imagePath = []
    · have hnot : ¬ hasImage s = true := by simp [hasImage, hs]
      have hskip : pickerTurn link imageSize k t s = t := by rw [pickerTurn, if_pos hs]
      rw [List.filter_cons_of_neg hnot, List.foldl_cons, hskip, ih]
    · have hyes : hasImage s = true := by simp [hasImage, hs]
      rw [List.filter_cons_of_pos hyes, List.foldl_cons, List.foldl_cons, ih]

end

/-! ## The page as a tree -/

section

variable (tree : HtmlSticker → Bool → Tree) (previewCount : Nat)

def gridTag : Tag := tag "div" [attr "class" (ascii "enil-picker-grid")]

/-- The body of a page with these packages; without any item it shows a text. -/
def bodyTrees (emptyText : List UInt8) (items : List HtmlSticker)
    (packs : List (Run HtmlSticker.packageId)) : List Tree :=
  if items = [] then
    [.element (tag "div" [attr "class" (ascii "enil-empty")]) (textTrees (esbHtml emptyText))]
  else [
    .element gridTag (packTrees tree previewCount 1 packs),
    .raw (tag "script" []) kStickerPickerScript]

def pageTree (fontDir css bodyClass : List UInt8) (body : List Tree) : Tree :=
  .element (tag "html" []) [
    .element (tag "head" []) [
      .void (tag "meta" [attr "charset" (ascii "utf-8")]),
      .raw (tag "script" []) zoomScript,
      .raw (tag "style" []) (appendFontFace fontDir ++ css)],
    .element (tag "body" [attr "class" (esbHtml bodyClass)]) body]

variable {tree previewCount} {link : PickerLinkFn} {imageSize : Int}

theorem pickerBody_eq (hlink : ∀ s d, s.imagePath ≠ [] → link s imageSize d = (tree s d).render)
    (emptyText : List UInt8) (items : List HtmlSticker) :
    pickerBody link imageSize previewCount emptyText items =
      renderSeq (bodyTrees tree previewCount emptyText items (packsOf items)) ++
        ascii "</body></html>" := by
  by_cases hitems : items = []
  · have htext : renderSeq (textTrees (esbHtml emptyText)) = esbHtml emptyText :=
      renderSeq_map_char _
    rw [pickerBody, if_pos hitems, bodyTrees, if_pos hitems]
    simp only [renderSeq, Tree.render, htext, Tag.start, Tag.close, tag, attr, List.flatMap_cons,
      List.flatMap_nil, Attr.render, List.append_assoc, List.cons_append, List.nil_append,
      List.append_nil]
    rfl
  · have himage : ∀ s ∈ (packsOf items).flatMap Run.items, s.imagePath ≠ [] := by
      rw [flatMap_packsOf]
      intro s hs
      exact bne_iff_ne.mp (List.mem_filter.mp hs).2
    have hloop : closed (((packsOf items).flatMap Run.items).foldl
        (pickerTurn link imageSize previewCount) gridStart) = _ :=
      closed_foldl_packs hlink himage (isChain_runs _) fun p _ => (Option.some_ne_none _).symm
    have hstart : closed gridStart = gridTag.start := rfl
    have hdiv : ascii "</div>" = gridTag.close := rfl
    have hscript : ascii "<script>" = (tag "script" []).start := rfl
    have hscript' : ascii "</script>" = (tag "script" []).close := rfl
    rw [flatMap_packsOf, foldl_pickerTurn_filter, hstart, closed] at hloop
    rw [pickerBody, if_neg hitems, bodyTrees, if_neg hitems, gridEnd, ← List.append_assoc, hloop]
    simp only [renderSeq, Tree.render, ← hdiv, ← hscript, ← hscript', List.append_assoc,
      List.append_nil]
    rfl

/-- A page is a document of its tree. -/
theorem pickerPageWithCss_eq
    (hlink : ∀ s d, s.imagePath ≠ [] → link s imageSize d = (tree s d).render)
    {fontDir css bodyClass emptyText : List UInt8} (hclass : bodyClass ≠ ascii "enil-messages")
    (items : List HtmlSticker) :
    pickerPageWithCss link imageSize previewCount fontDir items css bodyClass emptyText =
      ascii "<!DOCTYPE html>" ++ (pageTree fontDir css bodyClass
        (bodyTrees tree previewCount emptyText items (packsOf items))).render := by
  rw [pickerPageWithCss, pickerBody_eq hlink, appendHead, if_neg hclass, if_pos rfl]
  simp only [pageTree, renderSeq, Tree.render, Tag.start, Tag.close, tag, attr, List.flatMap_cons,
    List.flatMap_nil, Attr.render, List.append_assoc, List.cons_append, List.nil_append,
    List.append_nil]
  repeat rw [ascii_ofList]
  rfl

end

/-! ## What is written is valid -/

/-- Neither a quote nor the start of a tag. -/
def IsPlain (s : List UInt8) : Prop := ∀ b ∈ s, b ≠ 34 ∧ b ≠ 60

theorem isPlain_nil : IsPlain [] := fun _ hb => absurd hb List.not_mem_nil

theorem IsPlain.append {s t : List UInt8} (hs : IsPlain s) (ht : IsPlain t) :
    IsPlain (s ++ t) := fun b hb =>
  (List.mem_append.mp hb).elim (hs b) (ht b)

theorem isPlain_of_all {s : List UInt8} (h : (s.all fun b => b != 34 && b != 60) = true) :
    IsPlain s := by
  intro b hb
  have := List.all_eq_true.mp h b hb
  simpa only [Bool.and_eq_true, bne_iff_ne] using this

theorem isPlain_esbUrlCore (keepSlash : Bool) (s : List UInt8) :
    IsPlain (esbUrlCore keepSlash s) := by
  have hhex : ∀ n < 16, upperHex n ≠ 34 ∧ upperHex n ≠ 60 := by decide
  intro b hb
  obtain ⟨c, -, hb⟩ := List.mem_flatMap.mp hb
  split at hb
  · rename_i hc
    rw [List.mem_singleton.mp hb]
    refine ⟨?_, ?_⟩
    all_goals
      rintro rfl
      cases keepSlash <;> exact absurd hc (by decide)
  · have hlt := c.toNat_lt
    simp only [List.mem_cons, List.not_mem_nil, or_false] at hb
    rcases hb with rfl | rfl | rfl
    · decide
    · exact hhex _ (by omega)
    · exact hhex _ (by omega)

theorem isPlain_htmlEntity {c : UInt8} {e : List UInt8} (h : htmlEntity false c = some e) :
    IsPlain e := by
  simp only [htmlEntity, Bool.false_eq_true, and_false, if_false] at h
  split_ifs at h
  all_goals
    cases h
    exact isPlain_of_all (by decide)

theorem isPlain_esbHtmlCore {run : List UInt8} (hrun : IsPlain run) (s : List UInt8) :
    IsPlain (esbHtmlCore false run s) := by
  induction s generalizing run with
  | nil => exact hrun
  | cons c s ih =>
    unfold esbHtmlCore
    cases he : htmlEntity false c with
    | some e =>
      exact (hrun.append (isPlain_htmlEntity he)).append (ih isPlain_nil)
    | none =>
      apply ih
      refine hrun.append fun b hb => ?_
      rw [List.mem_singleton.mp hb]
      refine ⟨?_, ?_⟩
      all_goals
        rintro rfl
        cases he

theorem isPlain_esbHtml (s : List UInt8) : IsPlain (esbHtml s) :=
  isPlain_esbHtmlCore isPlain_nil s

theorem isPlain_repr (n : Nat) : IsPlain (ascii n.repr) := by
  intro b hb
  obtain ⟨c, hc, rfl⟩ := List.mem_map.mp hb
  have hbyte := isDigit_iff.mp (isDigit_byte (isDigit_repr hc))
  refine ⟨fun heq => ?_, fun heq => ?_⟩
  all_goals
    rw [heq] at hbyte
    have h34 : (34 : UInt8).toNat = 34 := rfl
    have h60 : (60 : UInt8).toNat = 60 := rfl
    omega

theorem isPlain_esbInt (n : Int) : IsPlain (esbInt n) := by
  rw [esbInt, show toString n = n.repr from rfl, Int.repr_eq_if]
  split
  · exact isPlain_repr _
  · have hsign : ascii ("-" ++ (-n).toNat.repr) = ascii "-" ++ ascii (-n).toNat.repr := by
      rw [ascii, String.toList_append, List.map_append]
      rfl
    rw [hsign]
    exact (isPlain_of_all (by decide)).append (isPlain_repr _)

def ValidAttrs (attrs : List Attr) : Prop := ∀ a ∈ attrs, IsName a.name ∧ 34 ∉ a.value

theorem validAttrs_nil : ValidAttrs [] := fun _ ha => absurd ha List.not_mem_nil

theorem ValidAttrs.cons {name : String} {value : List UInt8} {attrs : List Attr}
    (hname : IsName (ascii name)) (hvalue : IsPlain value) (h : ValidAttrs attrs) :
    ValidAttrs (attr name value :: attrs) := by
  intro a ha
  rcases List.mem_cons.mp ha with rfl | ha
  · exact ⟨hname, fun hmem => (hvalue 34 hmem).1 rfl⟩
  · exact h a ha

def html : Dialect where
  isVoid name := [ascii "area", ascii "base", ascii "br", ascii "col", ascii "embed", ascii "hr",
    ascii "img", ascii "input", ascii "link", ascii "meta", ascii "source", ascii "track",
    ascii "wbr"].contains name
  isRaw name := [ascii "script", ascii "style"].contains name

theorem isValid_element {name : String} {attrs : List Attr} {children : List Tree}
    (hname : IsName (ascii name)) (hvoid : html.isVoid (ascii name) = false)
    (hraw : html.isRaw (ascii name) = false) (hattrs : ValidAttrs attrs)
    (h : AllValid html children) : (Tree.element (tag name attrs) children).IsValid html :=
  ⟨⟨hname, hattrs⟩, hvoid, hraw, h⟩

theorem isValid_void {name : String} {attrs : List Attr} (hname : IsName (ascii name))
    (hvoid : html.isVoid (ascii name) = true) (hattrs : ValidAttrs attrs) :
    (Tree.void (tag name attrs)).IsValid html :=
  ⟨⟨hname, hattrs⟩, hvoid⟩

theorem isValid_raw {name : String} {content : List UInt8} (hname : IsName (ascii name))
    (hvoid : html.isVoid (ascii name) = false) (hraw : html.isRaw (ascii name) = true)
    (hclose : hasClose (ascii name) content = false) :
    (Tree.raw (tag name []) content).IsValid html :=
  ⟨⟨hname, validAttrs_nil⟩, hvoid, hraw, hclose⟩

theorem allValid_textTrees {s : List UInt8} (h : IsPlain s) : AllValid html (textTrees s) := by
  rw [allValid_iff]
  intro t ht
  obtain ⟨b, hb, rfl⟩ := List.mem_map.mp ht
  exact (h b hb).2

section

variable (other : HtmlSticker → Int × Int) (imageSize : Int)

theorem isPlain_pxStyle (d : Int × Int) : IsPlain (pxStyle d) :=
  (isPlain_of_all (by decide)).append ((isPlain_esbInt _).append
    ((isPlain_of_all (by decide)).append ((isPlain_esbInt _).append
      ((isPlain_of_all (by decide)).append ((isPlain_esbInt _).append
        ((isPlain_of_all (by decide)).append ((isPlain_esbInt _).append
          (isPlain_of_all (by decide)))))))))

theorem isValid_thumbTree {cls alt : List UInt8} (hcls : IsPlain cls) (halt : IsPlain alt)
    (deferred : Bool) (path : List UInt8) (d : Int × Int) :
    (thumbTree cls deferred path d alt).IsValid html := by
  have hlazy : IsPlain (cls ++ if deferred then ascii " enil-lazy" else []) := by
    refine hcls.append ?_
    cases deferred <;> exact isPlain_of_all (by decide)
  have hsrc : IsName (ascii (if deferred then "data-src" else "src")) := by
    cases deferred <;> decide
  refine isValid_element (by decide) (by decide) (by decide)
    (.cons (by decide) (isPlain_of_all (by decide)) validAttrs_nil)
    ⟨isValid_void (by decide) (by decide) ?_, trivial⟩
  exact .cons (by decide) hlazy (.cons hsrc (isPlain_esbHtml path)
    (.cons (by decide) (isPlain_esbInt _) (.cons (by decide) (isPlain_esbInt _)
      (.cons (by decide) (isPlain_pxStyle d) (.cons (by decide) halt validAttrs_nil)))))

theorem isValid_stickerTree (s : HtmlSticker) (deferred : Bool) :
    (stickerTree other imageSize s deferred).IsValid html := by
  refine isValid_element (by decide) (by decide) (by decide)
    (.cons (by decide) (isPlain_of_all (by decide)) (.cons (by decide) ?_ validAttrs_nil))
    ⟨isValid_thumbTree ?_ (isPlain_of_all (by decide)) deferred _ _, trivial⟩
  · exact (isPlain_of_all (by decide)).append ((isPlain_esbUrlCore false _).append
      ((isPlain_of_all (by decide)).append (isPlain_esbUrlCore false _)))
  · refine (isPlain_of_all (by decide)).append ?_
    cases s.isAnimated <;> exact isPlain_of_all (by decide)

theorem isValid_sticonTree (s : HtmlSticker) (deferred : Bool) :
    (sticonTree other imageSize s deferred).IsValid html := by
  refine isValid_element (by decide) (by decide) (by decide)
    (.cons (by decide) (isPlain_of_all (by decide)) (.cons (by decide) ?_
      (.cons (by decide) (isPlain_esbHtml _) validAttrs_nil)))
    ⟨isValid_thumbTree (isPlain_of_all (by decide)) (isPlain_esbHtml _) deferred _ _, trivial⟩
  exact (isPlain_of_all (by decide)).append ((isPlain_esbUrlCore false _).append
    ((isPlain_of_all (by decide)).append ((isPlain_esbUrlCore false _).append
      ((isPlain_of_all (by decide)).append (isPlain_esbUrlCore false _)))))

end

section

variable {tree : HtmlSticker → Bool → Tree} {previewCount : Nat}

theorem isValid_titleTree (packNo : Nat) (s : HtmlSticker) :
    (titleTree packNo s).IsValid html := by
  have htitle : IsPlain (packTitle s) := by
    rw [packTitle]
    split <;> exact isPlain_esbHtml _
  refine isValid_element (by decide) (by decide) (by decide)
    (.cons (by decide) (isPlain_of_all (by decide)) (.cons (by decide) ?_ validAttrs_nil))
    ⟨isValid_element (by decide) (by decide) (by decide)
      (.cons (by decide) (isPlain_of_all (by decide)) (.cons (by decide) ?_ validAttrs_nil))
      (allValid_textTrees (isPlain_of_all (by decide))),
    isValid_element (by decide) (by decide) (by decide) validAttrs_nil (allValid_textTrees htitle),
    trivial⟩
  · exact (isPlain_of_all (by decide)).append
      ((isPlain_esbInt _).append (isPlain_of_all (by decide)))
  · exact (isPlain_of_all (by decide)).append (isPlain_esbInt _)

theorem allValid_restTrees (htree : ∀ s d, (tree s d).IsValid html) (packNo : Nat)
    (items : List HtmlSticker) : AllValid html (restTrees tree packNo items) := by
  have hitems : AllValid html (items.map fun s => tree s true) := by
    rw [allValid_iff]
    intro t ht
    obtain ⟨s, -, rfl⟩ := List.mem_map.mp ht
    exact htree s true
  rw [restTrees]
  split
  · trivial
  · exact ⟨isValid_element (by decide) (by decide) (by decide)
      (.cons (by decide) (isPlain_of_all (by decide)) (.cons (by decide)
        ((isPlain_of_all (by decide)).append (isPlain_esbInt _))
        (.cons (by decide) (isPlain_of_all (by decide)) validAttrs_nil))) hitems, trivial⟩

theorem allValid_itemTrees (htree : ∀ s d, (tree s d).IsValid html) (packNo : Nat)
    (items : List HtmlSticker) : AllValid html (itemTrees tree previewCount packNo items) := by
  rw [allValid_iff]
  intro t ht
  rcases List.mem_append.mp ht with ht | ht
  · obtain ⟨s, -, rfl⟩ := List.mem_map.mp ht
    exact htree s false
  · exact (allValid_iff html _).mp (allValid_restTrees htree packNo _) t ht

theorem allValid_packTrees (htree : ∀ s d, (tree s d).IsValid html) (packNo : Nat)
    (packs : List (Run HtmlSticker.packageId)) :
    AllValid html (packTrees tree previewCount packNo packs) := by
  induction packs generalizing packNo with
  | nil => trivial
  | cons p packs ih =>
    exact ⟨isValid_element (by decide) (by decide) (by decide)
      (.cons (by decide) (isPlain_of_all (by decide)) validAttrs_nil)
      ⟨isValid_titleTree packNo _, allValid_itemTrees htree packNo _⟩, ih (packNo + 1)⟩

theorem hasClose_kStickerPickerScript : hasClose (ascii "script") kStickerPickerScript = false := by
  have hloop : ascii "for(var i=0;i<g.length;i++)\x7b" =
      ascii "for(var i=0;i" ++ 60 :: ascii "g.length;i++)\x7b" := rfl
  have hnot : ∀ s, startsClose (ascii "script") (60 :: (ascii "g.length;i++)\x7b" ++ s)) = false :=
    fun _ => rfl
  rw [kStickerPickerScript, hasClose_append_of_noTag (by decide),
    hasClose_append_of_noTag (by decide), hasClose_append_of_noTag (by decide),
    hasClose_append_of_noTag (by decide), hasClose_append_of_noTag (by decide),
    hasClose_append_of_noTag (by decide), hasClose_append_of_noTag (by decide),
    hasClose_append_of_noTag (by decide), hloop, List.append_assoc,
    hasClose_append_of_noTag (by decide), List.cons_append, hasClose, hnot, Bool.false_or,
    hasClose_append_of_noTag (by decide), hasClose_append_of_noTag (by decide),
    hasClose_append_of_noTag (by decide), hasClose_append_of_noTag (by decide),
    hasClose_append_of_noTag (by decide)]
  decide

theorem allValid_bodyTrees (htree : ∀ s d, (tree s d).IsValid html) (emptyText : List UInt8)
    (items : List HtmlSticker) (packs : List (Run HtmlSticker.packageId)) :
    AllValid html (bodyTrees tree previewCount emptyText items packs) := by
  rw [bodyTrees]
  split
  · exact ⟨isValid_element (by decide) (by decide) (by decide)
      (.cons (by decide) (isPlain_of_all (by decide)) validAttrs_nil)
      (allValid_textTrees (isPlain_esbHtml _)), trivial⟩
  · exact ⟨isValid_element (by decide) (by decide) (by decide)
      (.cons (by decide) (isPlain_of_all (by decide)) validAttrs_nil)
      (allValid_packTrees htree 1 _), isValid_raw (by decide) (by decide) (by decide)
        hasClose_kStickerPickerScript, trivial⟩

end

theorem isPlain_fontFace {family file : List UInt8} (hfamily : IsPlain family)
    (hfile : IsPlain file) (fontDir : List UInt8) : IsPlain (fontFace fontDir family file) :=
  (isPlain_of_all (by decide)).append (hfamily.append ((isPlain_of_all (by decide)).append
    ((isPlain_esbUrlCore true fontDir).append ((isPlain_of_all (by decide)).append
      (hfile.append (isPlain_of_all (by decide)))))))

theorem isPlain_appendFontFace (fontDir : List UInt8) : IsPlain (appendFontFace fontDir) := by
  rw [appendFontFace]
  split
  · exact isPlain_nil
  · have hface : ∀ family file, IsPlain family → IsPlain file →
        IsPlain (fontFace fontDir family file) := fun _ _ hfamily hfile =>
      isPlain_fontFace hfamily hfile fontDir
    exact (hface _ _ (isPlain_of_all (by decide)) (isPlain_of_all (by decide))).append
      ((hface _ _ (isPlain_of_all (by decide)) (isPlain_of_all (by decide))).append
        ((hface _ _ (isPlain_of_all (by decide)) (isPlain_of_all (by decide))).append
          ((isPlain_of_all (by decide)).append ((isPlain_of_all (by decide)).append
            ((isPlain_of_all (by decide)).append (isPlain_of_all (by decide)))))))

/-- The style sheet does not end its element. -/
def IsStyle (css : List UInt8) : Prop := hasClose (ascii "style") css = false

theorem isValid_pageTree {css : List UInt8} (hcss : IsStyle css) (fontDir bodyClass : List UInt8)
    {body : List Tree} (hbody : AllValid html body) :
    (pageTree fontDir css bodyClass body).IsValid html := by
  have hfont : 60 ∉ appendFontFace fontDir := fun hmem =>
    (isPlain_appendFontFace fontDir 60 hmem).2 rfl
  have hstyle : hasClose (ascii "style") (appendFontFace fontDir ++ css) = false := by
    rw [hasClose_append_of_noTag hfont]
    exact hcss
  refine isValid_element (by decide) (by decide) (by decide) validAttrs_nil
    ⟨isValid_element (by decide) (by decide) (by decide) validAttrs_nil
      ⟨isValid_void (by decide) (by decide) (.cons (by decide) (isPlain_of_all (by decide))
        validAttrs_nil),
      isValid_raw (by decide) (by decide) (by decide) (by decide),
      isValid_raw (by decide) (by decide) (by decide) hstyle, trivial⟩,
    isValid_element (by decide) (by decide) (by decide)
      (.cons (by decide) (isPlain_esbHtml _) validAttrs_nil) hbody, trivial⟩

/-! ## Pages -/

def parseDocument (s : List UInt8) : Option (List Tree) :=
  (expect (ascii "<!DOCTYPE html>") s).bind (parse html)

theorem parseDocument_pickerPageWithCss {link : PickerLinkFn} {tree : HtmlSticker → Bool → Tree}
    {imageSize : Int} {previewCount : Nat}
    (hlink : ∀ s d, s.imagePath ≠ [] → link s imageSize d = (tree s d).render)
    (htree : ∀ s d, (tree s d).IsValid html) {fontDir css bodyClass emptyText : List UInt8}
    (hcss : IsStyle css) (hclass : bodyClass ≠ ascii "enil-messages") (items : List HtmlSticker) :
    parseDocument
        (pickerPageWithCss link imageSize previewCount fontDir items css bodyClass emptyText) =
      some [pageTree fontDir css bodyClass
        (bodyTrees tree previewCount emptyText items (packsOf items))] := by
  have hbody : AllValid html (bodyTrees tree previewCount emptyText items (packsOf items)) :=
    allValid_bodyTrees htree emptyText items (packsOf items)
  have hparse : parse html (renderSeq [pageTree fontDir css bodyClass
      (bodyTrees tree previewCount emptyText items (packsOf items))]) = _ :=
    parse_renderSeq ⟨isValid_pageTree hcss fontDir bodyClass hbody, trivial⟩
  rw [renderSeq, renderSeq, List.append_nil] at hparse
  rw [parseDocument, pickerPageWithCss_eq hlink hclass, expect_append, Option.bind_some, hparse]

/-- Both pages are documents of trees. Their packages are the items with an image, each of them
once and in the order given, and if these are grouped no package stands twice; a package shows
its title, as many items as the preview has, and the others in its hidden part. -/
theorem pickerPages_nested {css : List UInt8} (hcss : IsStyle css) {previewCount : Int}
    (hpreview : 0 ≤ previewCount) (fontDir : List UInt8) (other : HtmlSticker → Int × Int)
    (items : List HtmlSticker) (imageSize : Int) :
    ∃ packs : List (Run HtmlSticker.packageId),
      packs.flatMap Run.items = items.filter hasImage ∧
      (IsGrouped HtmlSticker.packageId items → (packs.map Run.value).Nodup) ∧
      parseDocument (stickerPickerPageWithCss fontDir other items css imageSize previewCount) =
        some [pageTree fontDir css (ascii "enil-sticker-picker")
          (bodyTrees (stickerTree other imageSize) previewCount.toNat
            (ascii "No purchased stickers") items packs)] ∧
      parseDocument (sticonPickerPageWithCss fontDir other items css imageSize previewCount) =
        some [pageTree fontDir css (ascii "enil-sticon-picker")
          (bodyTrees (sticonTree other imageSize) previewCount.toNat
            (ascii "No purchased emoji") items packs)] := by
  obtain ⟨k, rfl⟩ := Int.eq_ofNat_of_zero_le hpreview
  refine ⟨packsOf items, flatMap_packsOf items, nodup_packsOf, ?_, ?_⟩
  · exact parseDocument_pickerPageWithCss
      (fun s d hs => appendStickerLink_eq other imageSize hs d)
      (fun s d => isValid_stickerTree other imageSize s d) hcss (by decide) items
  · exact parseDocument_pickerPageWithCss
      (fun s d hs => appendSticonLink_eq other imageSize hs d)
      (fun s d => isValid_sticonTree other imageSize s d) hcss (by decide) items

/-- An item of a package, with an image if it has a path. -/
def sampleItem (package path : String) : HtmlSticker :=
  ⟨ascii "1", ascii package, [], ascii path, [], 80, 60, false⟩

def sampleItems : List HtmlSticker :=
  [sampleItem "a" "a1.png", sampleItem "a" "a2.png", sampleItem "b" ""]

theorem isGrouped_sampleItems : IsGrouped HtmlSticker.packageId sampleItems := by
  intro x z y hsub hkey
  have heq : [x, z, y] = sampleItems := hsub.eq_of_length rfl
  cases heq
  exact absurd hkey (by decide)

/-- With a preview of one, the second item of the package is in the hidden part. -/
theorem pickerPages_nested_sampleItems :
    ∃ packs : List (Run HtmlSticker.packageId),
      packs.flatMap Run.items = [sampleItem "a" "a1.png", sampleItem "a" "a2.png"] ∧
      (packs.map Run.value).Nodup ∧
      parseDocument (stickerPickerPageWithCss [] (fun _ => (1, 1)) sampleItems [] 0 1) =
        some [pageTree [] [] (ascii "enil-sticker-picker")
          (bodyTrees (stickerTree (fun _ => (1, 1)) 0) 1 (ascii "No purchased stickers") sampleItems
            packs)] := by
  have hcss : IsStyle [] := rfl
  obtain ⟨packs, hitems, hnodup, hpage, -⟩ :=
    pickerPages_nested hcss (show (0 : Int) ≤ 1 by omega) [] (fun _ => (1, 1)) sampleItems 0
  exact ⟨packs, hitems, hnodup isGrouped_sampleItems, hpage⟩

end Enil.Html
