import Enil.Lib.CType
import Enil.Media.Jpeg
import Enil.Media.Png
import Mathlib.Algebra.Ring.Nat

/-!
# Images and thumbnails

`enil_image_validate` decodes an image file and reports its size;
`enil_image_jpeg_create` writes a smaller copy of one. What ImageIO makes of a file is a
parameter; the container checks that stand in for its status are those of the two formats.
-/

namespace Enil

open Lib

abbrev FileBytes := List UInt8

inductive SourceStatus where
  | complete
  | incomplete
  | failed
  deriving DecidableEq

inductive SourceType where
  | jpeg
  | png
  | other
  deriving DecidableEq

structure ImageIO where
  Image : Type
  /-- CGImageSourceGetStatus is complete. -/
  status : FileBytes → Bool
  statusAtIndex : FileBytes → SourceStatus
  type : FileBytes → Option SourceType
  /-- Pixel width and height among the properties, as cf_int reads them. -/
  properties : FileBytes → Option (Int × Int)
  /-- build_source_image, bounded by a number of pixels. -/
  build : FileBytes → Int → Option Image
  /-- CGImageGetWidth and CGImageGetHeight. -/
  size : Image → Nat × Nat
  /-- The file write_jpeg writes. -/
  jpeg : Image → Option FileBytes

structure ThumbInfo where
  origWidth : Int
  origHeight : Int
  thumbWidth : Int
  thumbHeight : Int
  deriving DecidableEq

def thumbMaxPx : Int := 600

namespace ImageIO

variable (crc32 : Png.Crc) (io : ImageIO)

def imageSourceComplete (f : FileBytes) : Bool :=
  io.status f &&
    match io.statusAtIndex f, io.type f with
    | .complete, _ => true
    | .incomplete, some .jpeg => (Jpeg.enilJpegComplete (f.length + 1) f).getD false
    | .incomplete, some .png => ((Png.enilPngInfo crc32 (f.length + 1) f).getD .bad).ok
    | _, _ => false

/-- enil_image_validate, of the file there is at a path: the size it reports. -/
def enilImageValidate (file : Option FileBytes) : Option (Int × Int) :=
  match file with
  | none => none
  | some f =>
    if io.status f then
      match io.properties f with
      | none => none
      | some (w, h) =>
        if w ≤ 0 ∨ h ≤ 0 then none
        else
          match io.build f thumbMaxPx with
          | none => none
          | some image =>
            if (io.size image).1 ≠ 0 ∧ (io.size image).2 ≠ 0 ∧ io.status f ∧
              imageSourceComplete crc32 io f then some (w, h)
            else none
    else none

/-- enil_image_jpeg_create, of the file at the source path: what `info` holds and what is
moved to the destination. `rendered` says that the temporary file is made and moved. -/
def enilImageJpegCreate (rendered : Bool) (src : Option FileBytes) (maxPx : Int) :
    Option (ThumbInfo × FileBytes) :=
  match src with
  | none => none
  | some f =>
    if io.status f then
      match io.properties f with
      | none => none
      | some (w, h) =>
        if w ≤ 0 ∨ h ≤ 0 then none
        else
          match io.build f maxPx with
          | none => none
          | some img =>
            let tw := toCInt (io.size img).1
            let th := toCInt (io.size img).2
            match io.jpeg img with
            | none => none
            | some jpeg =>
              if imageSourceComplete crc32 io f ∧ 0 < tw ∧ 0 < th ∧
                (enilImageValidate crc32 io (some jpeg)).isSome ∧ rendered then
                some (⟨w, h, tw, th⟩, jpeg)
              else none
    else none

def enilThumbGenerate (rendered : Bool) (src : Option FileBytes) : Option (ThumbInfo × FileBytes) :=
  enilImageJpegCreate crc32 io rendered src thumbMaxPx

variable {crc32} {io}

/-- The size reported is the one in the properties, and positive. -/
theorem properties_of_validate {f : FileBytes} {w h : Int}
    (hv : enilImageValidate crc32 io (some f) = some (w, h)) :
    io.properties f = some (w, h) ∧ 0 < w ∧ 0 < h := by
  unfold enilImageValidate at hv
  dsimp only at hv
  split at hv
  · split at hv
    · cases hv
    · rename_i w' h' hprops
      split at hv
      · cases hv
      · rename_i hpos
        split at hv
        · cases hv
        · split at hv
          · cases hv
            rw [not_or] at hpos
            exact ⟨hprops, by omega, by omega⟩
          · cases hv
  · cases hv

theorem validate_pos {file : Option FileBytes} {w h : Int}
    (hv : enilImageValidate crc32 io file = some (w, h)) : 0 < w ∧ 0 < h := by
  cases file with
  | none => cases hv
  | some f => exact (properties_of_validate hv).2

/-- A thumbnail is made of a file with those properties and is itself validated. -/
theorem jpegCreate_spec {rendered : Bool} {src : Option FileBytes} {maxPx : Int} {info : ThumbInfo}
    {jpeg : FileBytes} (h : enilImageJpegCreate crc32 io rendered src maxPx = some (info, jpeg)) :
    ∃ f img, src = some f ∧ io.properties f = some (info.origWidth, info.origHeight) ∧
      io.jpeg img = some jpeg ∧ info.thumbWidth = toCInt (io.size img).1 ∧
      info.thumbHeight = toCInt (io.size img).2 ∧
      (enilImageValidate crc32 io (some jpeg)).isSome = true ∧
      0 < info.origWidth ∧ 0 < info.origHeight ∧ 0 < info.thumbWidth ∧ 0 < info.thumbHeight := by
  unfold enilImageJpegCreate at h
  split at h
  · cases h
  · rename_i f
    split at h
    · split at h
      · cases h
      · rename_i ow oh hprops
        split at h
        · cases h
        · rename_i hpos
          rw [not_or] at hpos
          split at h
          · cases h
          · rename_i img _
            generalize hw : toCInt (io.size img).1 = tw at h
            generalize hh : toCInt (io.size img).2 = th at h
            dsimp only at h
            split at h
            · cases h
            · rename_i jpeg' hjpeg
              split at h
              · rename_i hall
                obtain ⟨-, htw, hth, hvalid, -⟩ := hall
                cases h
                exact ⟨f, img, rfl, hprops, hjpeg, hw.symm, hh.symm, hvalid, Int.not_le.mp hpos.1,
                  Int.not_le.mp hpos.2, htw, hth⟩
              · cases h
    · cases h

end ImageIO
end Enil
