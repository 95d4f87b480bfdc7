import Enil.Media.Image
import Mathlib.Data.Rat.Floor
import Mathlib.Logic.Function.Basic

/-!
# The attachment of a message

`download_media_entry` brings the two files of an attachment and its row into step: it
keeps what is complete, clears the row before a repair and writes it after one. Strings
are C strings; a call outside returns what an outcome says.
-/

namespace Enil

open ImageIO Lib

namespace Media

abbrev CString := List UInt8

/-- The entry of a message, as its fields are read. A plain size that is no number is
NaN. -/
structure Entry where
  messageId : Option CString
  chatId : Option CString
  plainSize : Option ℚ := none
  encKm : Option CString := none
  sid : Option CString := none
  oid : Option CString := none
  obsPop : Option CString := none
  e2eeVersion : Option CString := none

structure Row where
  mediaPath : Option CString := none
  origWidth : Int := 0
  origHeight : Int := 0
  thumbPath : Option CString := none
  thumbWidth : Int := 0
  thumbHeight : Int := 0
  deriving DecidableEq

/-- The files that can be opened, and the row of the message where it has one. -/
structure World where
  files : CString → Option FileBytes
  row : Option Row

structure Download where
  messageId : CString
  sid : Option CString
  oid : Option CString
  obsPop : Option CString
  e2eeVersion : Option CString
  encKm : Option CString
  expectedSize : Nat
  dest : CString

/-- The outcomes of the calls: the two writes, the download (whether it returned 0, and
what it leaves at the destination), and the making of the thumbnail file. -/
structure Outcomes where
  clear : Bool := true
  store : Bool := true
  download : Download → Bool × Option FileBytes
  rendered : Bool := true

/-- What snprintf leaves in a buffer of that size. -/
def snprintf (size : Nat) (text : CString) : CString := text.take (size - 1)

/-- "/media" -/
def slashMedia : CString := [47, 109, 101, 100, 105, 97]

/-- ".jpg" -/
def dotJpg : CString := [46, 106, 112, 103]

/-- "_t.jpg" -/
def thumbJpg : CString := [95, 116, 46, 106, 112, 103]

structure Paths where
  dest : CString
  relPath : CString
  thumbDest : CString
  thumbRel : CString

def paths (accountDir messageId chatId : CString) : Paths :=
  let mediaDir := snprintf 1280 (accountDir ++ slashMedia)
  let chatDir := snprintf 1536 (mediaDir ++ 47 :: chatId)
  { dest := snprintf 1600 (chatDir ++ 47 :: messageId ++ dotJpg)
    relPath := snprintf 512 (slashMedia.tail ++ 47 :: chatId ++ 47 :: messageId ++ dotJpg)
    thumbDest := snprintf 1600 (chatDir ++ 47 :: messageId ++ thumbJpg)
    thumbRel := snprintf 512 (slashMedia.tail ++ 47 :: chatId ++ 47 :: messageId ++ thumbJpg) }

def fileTagLen : Nat := 32

/-- `size_value > 0 ? (size_t)size_value : 0`. -/
def Entry.expectedSize (e : Entry) : Nat :=
  match e.plainSize with
  | none => 0
  | some v => if 0 < v then ⌊v⌋.toNat else 0

def mediaSizeMatches (file : Option FileBytes) (expected : Nat) (encKm : Option CString) : Bool :=
  if expected = 0 then true
  else
    match file with
    | none => false
    | some f => f.length == expected ||
        (encKm.any (fun km => !km.isEmpty) && decide (fileTagLen < expected) &&
          f.length == expected - fileTagLen)

variable (crc32 : Png.Crc) (io : ImageIO)

/-- The end of download_media_entry: the row is written. -/
def record (o : Outcomes) (p : Paths) (info : ThumbInfo) (w : World) : Int × World :=
  if info.origWidth ≤ 0 ∨ info.origHeight ≤ 0 ∨ info.thumbWidth ≤ 0 ∨ info.thumbHeight ≤ 0 then (1, w)
  else if o.store then
    (0, { w with row := w.row.map fun _ =>
      ⟨some p.relPath, info.origWidth, info.origHeight, some p.thumbRel, info.thumbWidth,
        info.thumbHeight⟩ })
  else (-1, w)

/-- The thumbnail is made and the row written. -/
def renderThumb (o : Outcomes) (p : Paths) (w : World) : Int × World :=
  match enilThumbGenerate crc32 io o.rendered (w.files p.dest) with
  | none => (1, w)
  | some (info, jpeg) =>
    record o p info { w with files := Function.update w.files p.thumbDest (some jpeg) }

/-- download_media_entry: -1 for a persistence failure, 1 for an unavailable attachment, 0
for a complete pair. -/
def downloadMediaEntry (accountDir : CString) (e : Entry) (o : Outcomes) (w : World) : Int × World :=
  match e.messageId, e.chatId with
  | some messageId, some chatId =>
    if accountDir = [] then (1, w)
    else
      let p := paths accountDir messageId chatId
      let original := (enilImageValidate crc32 io (w.files p.dest)).filter fun _ =>
        mediaSizeMatches (w.files p.dest) e.expectedSize e.encKm
      let thumb := original.bind fun _ => enilImageValidate crc32 io (w.files p.thumbDest)
      match original, thumb with
      | some (ow, oh), some (tw, th) => record o p ⟨ow, oh, tw, th⟩ w
      | _, _ =>
        if o.clear then
          let w := { w with row := w.row.map fun _ => {} }
          if original.isSome then renderThumb crc32 io o p w
          else
            let (ok, content) := o.download
              ⟨messageId, e.sid, e.oid, e.obsPop, e.e2eeVersion, e.encKm, e.expectedSize, p.dest⟩
            let w := { w with files := Function.update w.files p.dest content }
            if ok && (enilImageValidate crc32 io (w.files p.dest)).isSome &&
              mediaSizeMatches (w.files p.dest) e.expectedSize e.encKm then
              renderThumb crc32 io o p w
            else (1, w)
        else (-1, w)
  | _, _ => (1, w)

/-! ## What a row should be -/

/-- The call is past its argument check. -/
def Entry.Named (accountDir : CString) (e : Entry) : Prop :=
  e.messageId.isSome = true ∧ e.chatId.isSome = true ∧ accountDir ≠ []

/-- The size the entry asks for: any, where it names none; with key material also without
the tag. -/
def SizeFits (e : Entry) (original : FileBytes) : Prop :=
  e.expectedSize = 0 ∨ original.length = e.expectedSize ∨
    (∃ km, e.encKm = some km ∧ km ≠ []) ∧ fileTagLen < e.expectedSize ∧
      original.length = e.expectedSize - fileTagLen

/-- The row describes the two files at its paths below the account directory: both are
validated, of the sizes it has, and the original is of the size the entry asks for. -/
structure Describes (accountDir : CString) (e : Entry) (files : CString → Option FileBytes)
    (row : Row) : Prop where
  original : ∃ path f, row.mediaPath = some path ∧ files (accountDir ++ 47 :: path) = some f ∧
    enilImageValidate crc32 io (some f) = some (row.origWidth, row.origHeight) ∧ SizeFits e f
  thumb : ∃ path f, row.thumbPath = some path ∧ files (accountDir ++ 47 :: path) = some f ∧
    enilImageValidate crc32 io (some f) = some (row.thumbWidth, row.thumbHeight)

/-- Both files of the attachment are validated, the original of the size the entry asks for. -/
def Validated (e : Entry) (p : Paths) (files : CString → Option FileBytes) : Prop :=
  (∃ f, files p.dest = some f ∧ (enilImageValidate crc32 io (some f)).isSome = true ∧
    SizeFits e f) ∧
  ∃ g, files p.thumbDest = some g ∧ (enilImageValidate crc32 io (some g)).isSome = true

/-- No path of the attachment is cut to its buffer. -/
def Fits (accountDir messageId chatId : CString) : Prop :=
  (accountDir ++ slashMedia).length < 1280 ∧
    (accountDir ++ slashMedia ++ 47 :: chatId).length < 1536 ∧
    (accountDir ++ slashMedia ++ 47 :: chatId ++ 47 :: messageId ++ thumbJpg).length < 1600 ∧
    (slashMedia.tail ++ 47 :: chatId ++ 47 :: messageId ++ thumbJpg).length < 512

theorem snprintf_of_lt {size : Nat} {text : CString} (h : text.length < size) :
    snprintf size text = text := List.take_of_length_le (by omega)

/-- Paths that fit name the files below the account directory, two different ones. -/
theorem paths_of_fits {accountDir messageId chatId : CString} (h : Fits accountDir messageId chatId) :
    let p := paths accountDir messageId chatId
    p.dest = accountDir ++ 47 :: p.relPath ∧ p.thumbDest = accountDir ++ 47 :: p.thumbRel ∧
      p.dest ≠ p.thumbDest := by
  obtain ⟨h1, h2, h3, h4⟩ := h
  have hjpg : dotJpg.length + 2 = thumbJpg.length := rfl
  simp only [List.length_append, List.length_cons] at h3 h4
  simp only [paths]
  rw [snprintf_of_lt h1, snprintf_of_lt h2, snprintf_of_lt, snprintf_of_lt, snprintf_of_lt,
    snprintf_of_lt]
  · refine ⟨by simp [slashMedia], by simp [slashMedia], fun heq => ?_⟩
    have := congrArg List.length heq
    simp only [List.length_append, List.length_cons] at this
    omega
  all_goals
    simp only [List.length_append, List.length_cons]
    omega

/-! ## Outcomes -/

variable {crc32} {io}

theorem sizeFits_of_matches {e : Entry} {f : FileBytes}
    (h : mediaSizeMatches (some f) e.expectedSize e.encKm = true) : SizeFits e f := by
  unfold mediaSizeMatches at h
  split at h
  · rename_i hzero; exact .inl hzero
  · simp only [Bool.or_eq_true, Bool.and_eq_true, beq_iff_eq, decide_eq_true_eq,
      Option.any_eq_true, Bool.not_eq_true', List.isEmpty_eq_false_iff] at h
    rcases h with h | ⟨⟨⟨km, hkm, hne⟩, hlt⟩, hlen⟩
    · exact .inr (.inl h)
    · exact .inr (.inr ⟨⟨km, hkm, hne⟩, hlt, hlen⟩)

/-- How the last write can end: the row is written, or is left as it is for want of a
positive size or for a failed write. -/
theorem record_spec {o : Outcomes} {p : Paths} {info : ThumbInfo} {w : World} {r : Int × World}
    (h : record o p info w = r) :
    (r.1 = 0 ∧ r.2.files = w.files ∧ r.2.row = w.row.map fun _ =>
      ⟨some p.relPath, info.origWidth, info.origHeight, some p.thumbRel, info.thumbWidth,
        info.thumbHeight⟩) ∨
    (r = (1, w) ∧ (info.origWidth ≤ 0 ∨ info.origHeight ≤ 0 ∨ info.thumbWidth ≤ 0 ∨
      info.thumbHeight ≤ 0)) ∨
    (r = (-1, w) ∧ o.store = false) := by
  unfold record at h
  split at h
  · rename_i hpos; exact .inr (.inl ⟨h.symm, hpos⟩)
  · split at h
    · subst h; exact .inl ⟨rfl, rfl, rfl⟩
    · rename_i hstore
      exact .inr (.inr ⟨h.symm, Bool.eq_false_of_not_eq_true hstore⟩)

/-- The JPEG that was written has the size of the image it was made of. -/
def Writes (io : ImageIO) : Prop :=
  ∀ img f, io.jpeg img = some f → ∀ d, io.properties f = some d →
    d = (toCInt (io.size img).1, toCInt (io.size img).2)

/-- What the call leaves where it got past the clearing write: the row cleared, or describing
both files, or, where the last write failed, cleared or as before with both files validated. -/
structure Repaired (crc32 : Png.Crc) (io : ImageIO) (accountDir : CString) (e : Entry)
    (o : Outcomes) (p : Paths) (fits : Prop) (before : Option Row) (r : Int × World) : Prop where
  code : r.1 = 0 ∨ r.1 = 1 ∨ r.1 = -1
  unavailable : r.1 = 1 → r.2.row = before.map fun _ => {}
  complete : r.1 = 0 → fits → ∀ row ∈ r.2.row, Describes crc32 io accountDir e r.2.files row
  failed : r.1 = -1 → o.store = false ∧
    (r.2.row = before ∧ Validated crc32 io e p r.2.files ∨ r.2.row = before.map fun _ => {})

theorem Repaired.of_one {accountDir : CString} {e : Entry} {o : Outcomes} {p : Paths} {fits : Prop}
    {before : Option Row} {w : World} (h : w.row = before.map fun _ => {}) :
    Repaired crc32 io accountDir e o p fits before (1, w) where
  code := .inr (.inl rfl)
  unavailable _ := h
  complete h0 := by cases h0
  failed h0 := by cases h0

theorem Repaired.of_failed {accountDir : CString} {e : Entry} {o : Outcomes} {p : Paths} {fits : Prop}
    {before : Option Row} {w : World} (hstore : o.store = false)
    (h : w.row = before ∧ Validated crc32 io e p w.files ∨ w.row = before.map fun _ => {}) :
    Repaired crc32 io accountDir e o p fits before (-1, w) where
  code := .inr (.inr rfl)
  unavailable h0 := by cases h0
  complete h0 := by cases h0
  failed _ := ⟨hstore, h⟩

theorem Repaired.of_zero {accountDir : CString} {e : Entry} {o : Outcomes} {p : Paths} {fits : Prop}
    {before : Option Row} {r : Int × World} (hcode : r.1 = 0)
    (h : fits → ∀ row ∈ r.2.row, Describes crc32 io accountDir e r.2.files row) :
    Repaired crc32 io accountDir e o p fits before r where
  code := .inl hcode
  unavailable h0 := by rw [hcode] at h0; cases h0
  complete _ := h
  failed h0 := by rw [hcode] at h0; cases h0

/-- After a repaired thumbnail the row describes both files. -/
theorem renderThumb_repaired (hwrites : Writes io) {accountDir messageId chatId : CString}
    {e : Entry} {o : Outcomes} {before : Option Row} {w : World} {f : FileBytes} {ow oh : Int}
    (hrow : w.row = before.map fun _ => {})
    (hfile : w.files (paths accountDir messageId chatId).dest = some f)
    (hvalid : enilImageValidate crc32 io (some f) = some (ow, oh)) (hsize : SizeFits e f) :
    Repaired crc32 io accountDir e o (paths accountDir messageId chatId)
      (Fits accountDir messageId chatId) before
      (renderThumb crc32 io o (paths accountDir messageId chatId) w) := by
  generalize hr : renderThumb crc32 io o (paths accountDir messageId chatId) w = r
  unfold renderThumb at hr
  split at hr
  · subst hr
    exact .of_one hrow
  · rename_i info jpeg hgen
    obtain ⟨f', img, hf', hprops, hjpeg, htw, hth, hthumb, hpos⟩ := jpegCreate_spec hgen
    rw [hfile, Option.some.injEq] at hf'
    subst hf'
    rcases record_spec hr with ⟨hcode, hfiles, hnew⟩ | ⟨rfl, -⟩ | ⟨rfl, hstore⟩
    · refine .of_zero hcode fun hfits row hmem => ?_
      obtain ⟨hdest, hthumbDest, hne⟩ := paths_of_fits hfits
      rw [hnew, Option.mem_def, Option.map_eq_some_iff] at hmem
      obtain ⟨-, -, rfl⟩ := hmem
      have horig := (properties_of_validate hvalid).1
      rw [hprops, Option.some.injEq, Prod.mk.injEq] at horig
      obtain ⟨⟨tw, th⟩, htv⟩ := Option.isSome_iff_exists.mp hthumb
      have hdims := hwrites img jpeg hjpeg _ (properties_of_validate htv).1
      rw [← htw, ← hth] at hdims
      refine ⟨⟨_, f, rfl, ?_, ?_, hsize⟩, ⟨_, jpeg, rfl, ?_, hdims ▸ htv⟩⟩
      · rw [hfiles, ← hdest]
        dsimp only
        rw [Function.update_of_ne hne, hfile]
      · dsimp only
        rw [horig.1, horig.2, hvalid]
      · rw [hfiles, ← hthumbDest]
        dsimp only
        rw [Function.update_self]
    · exact .of_one hrow
    · exact .of_failed hstore (.inr hrow)

/-- Where both files pass, the row describes them or stays as it was. -/
theorem record_repaired {accountDir messageId chatId : CString} {e : Entry} {o : Outcomes}
    {w : World} {f g : FileBytes} {ow oh tw th : Int}
    (hfile : w.files (paths accountDir messageId chatId).dest = some f)
    (hvalid : enilImageValidate crc32 io (some f) = some (ow, oh)) (hsize : SizeFits e f)
    (hthumb : w.files (paths accountDir messageId chatId).thumbDest = some g)
    (hthumbValid : enilImageValidate crc32 io (some g) = some (tw, th)) :
    Repaired crc32 io accountDir e o (paths accountDir messageId chatId)
      (Fits accountDir messageId chatId) w.row
      (record o (paths accountDir messageId chatId) ⟨ow, oh, tw, th⟩ w) := by
  rcases record_spec rfl with ⟨hcode, hfiles, hnew⟩ | ⟨-, hnonpos⟩ | ⟨heq, hstore⟩
  · refine .of_zero hcode fun hfits row hmem => ?_
    obtain ⟨hdest, hthumbDest, -⟩ := paths_of_fits hfits
    rw [hnew, Option.mem_def, Option.map_eq_some_iff] at hmem
    obtain ⟨-, -, rfl⟩ := hmem
    refine ⟨⟨_, f, rfl, ?_, hvalid, hsize⟩, ⟨_, g, rfl, ?_, hthumbValid⟩⟩
    · rw [hfiles, ← hdest, hfile]
    · rw [hfiles, ← hthumbDest, hthumb]
  · have horig := validate_pos hvalid
    have hthumbPos := validate_pos hthumbValid
    dsimp only at hnonpos
    omega
  · rw [heq]
    exact .of_failed hstore (.inl ⟨rfl, ⟨f, hfile, by rw [hvalid]; rfl, hsize⟩,
      g, hthumb, by rw [hthumbValid]; rfl⟩)

theorem exists_file_of_validate {file : Option FileBytes} {d : Int × Int}
    (h : enilImageValidate crc32 io file = some d) : ∃ f, file = some f := by
  cases file with
  | none => cases h
  | some f => exact ⟨f, rfl⟩

/-- An attachment row is never stale, but where the clearing write fails: past its argument
check the call clears the row, or leaves it describing two validated files, or reports a
failed write. -/
theorem downloadMediaEntry_repaired (crc32 : Png.Crc) (io : ImageIO) (hwrites : Writes io)
    (accountDir messageId chatId : CString) (e : Entry) (o : Outcomes) (w : World)
    (hm : e.messageId = some messageId) (hc : e.chatId = some chatId) (hdir : accountDir ≠ []) :
    let r := downloadMediaEntry crc32 io accountDir e o w
    (r.1 = -1 ∧ o.clear = false ∧ r.2.row = w.row) ∨
      Repaired crc32 io accountDir e o (paths accountDir messageId chatId)
        (Fits accountDir messageId chatId) w.row r := by
  simp only [downloadMediaEntry, hm, hc, if_neg hdir]
  split
  · rename_i ow oh tw th horig hthumb
    obtain ⟨hvalid, hsize⟩ := Option.filter_eq_some_iff.mp horig
    rw [horig, Option.bind_some] at hthumb
    obtain ⟨f, hf⟩ := exists_file_of_validate hvalid
    obtain ⟨g, hg⟩ := exists_file_of_validate hthumb
    rw [hf] at hvalid hsize
    exact .inr (record_repaired hf hvalid (sizeFits_of_matches hsize) hg (hg ▸ hthumb))
  · split
    · refine .inr ?_
      split
      · rename_i hsome
        obtain ⟨⟨ow, oh⟩, horig⟩ := Option.isSome_iff_exists.mp hsome
        obtain ⟨hvalid, hsize⟩ := Option.filter_eq_some_iff.mp horig
        obtain ⟨f, hf⟩ := exists_file_of_validate hvalid
        rw [hf] at hvalid hsize
        exact renderThumb_repaired hwrites rfl hf hvalid (sizeFits_of_matches hsize)
      · split
        · rename_i hdownload
          simp only [Bool.and_eq_true] at hdownload
          obtain ⟨⟨-, hsome⟩, hsize⟩ := hdownload
          obtain ⟨⟨ow, oh⟩, hvalid⟩ := Option.isSome_iff_exists.mp hsome
          obtain ⟨f, hf⟩ := exists_file_of_validate hvalid
          rw [hf] at hvalid hsize
          exact renderThumb_repaired hwrites rfl hf hvalid (sizeFits_of_matches hsize)
        · exact .of_one rfl
    · rename_i hclear
      exact .inl ⟨rfl, Bool.eq_false_of_not_eq_true hclear, rfl⟩

/-! ## Runs -/

/-- An ImageIO to which every file is an image of one pixel. -/
def dotIO : ImageIO where
  Image := Unit
  status _ := true
  statusAtIndex _ := .complete
  type _ := none
  properties _ := some (1, 1)
  build _ _ := some ()
  size _ := (1, 1)
  jpeg _ := some [0]

theorem dotIO_writes : Writes dotIO := by
  intro _ _ _ d hd
  obtain rfl := Option.some.inj hd
  exact (by decide : ((1 : Int), (1 : Int)) = (toCInt 1, toCInt 1))

/-- Message "m" of that chat, with no plain size. -/
def dotEntry (chatId : CString) : Entry := { messageId := some [109], chatId := some chatId }

/-- An account "a" that has both files of that message, of one byte each. -/
def bothFiles (chatId : CString) : World where
  files path :=
    if path = (paths [97] [109] chatId).dest ∨ path = (paths [97] [109] chatId).thumbDest then
      some [0]
    else none
  row := some {}

def noFiles : World where
  files _ := none
  row := some { mediaPath := some [120], origWidth := 1, origHeight := 1 }

def noDownload (clear : Bool) : Outcomes := { clear, download := fun _ => (false, none) }

def runDot (clear : Bool) (chatId : CString) (w : World) : Int × World :=
  downloadMediaEntry Png.zlibCrc32 dotIO [97] (dotEntry chatId) (noDownload clear) w

def longChat : CString := List.replicate 600 99

/-- The clearing write fails and the row of a missing file survives; an entry without a
size takes a file of any; a path cut to its buffer names no file. -/
theorem stale_row_survives :
    ((runDot false [99] noFiles).1 = -1 ∧ (runDot false [99] noFiles).2.row = noFiles.row ∧
      (runDot false [99] noFiles).2.files (97 :: 47 :: [120]) = none) ∧
    ((runDot true [99] (bothFiles [99])).1 = 0 ∧ (dotEntry [99]).expectedSize = 0 ∧
      (runDot true [99] (bothFiles [99])).2.files (paths [97] [109] [99]).dest = some [0]) ∧
    (runDot true longChat (bothFiles longChat)).1 = 0 ∧
      ((runDot true longChat (bothFiles longChat)).2.row.bind Row.mediaPath).map (fun path =>
        (runDot true longChat (bothFiles longChat)).2.files (97 :: 47 :: path)) = some none := by
  decide +kernel

theorem dotEntry_repaired :
    let r := downloadMediaEntry Png.zlibCrc32 dotIO [97] (dotEntry [99]) (noDownload true)
      (bothFiles [99])
    (r.1 = -1 ∧ (noDownload true).clear = false ∧ r.2.row = (bothFiles [99]).row) ∨
      Repaired Png.zlibCrc32 dotIO [97] (dotEntry [99]) (noDownload true) (paths [97] [109] [99])
        (Fits [97] [109] [99]) (bothFiles [99]).row r :=
  downloadMediaEntry_repaired Png.zlibCrc32 dotIO dotIO_writes [97] [109] [99] (dotEntry [99])
    (noDownload true) (bothFiles [99]) rfl rfl (List.cons_ne_nil _ _)

end Media
end Enil
