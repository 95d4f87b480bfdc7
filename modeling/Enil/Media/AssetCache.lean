import Enil.Lib.Rowid
import Enil.Media.Png
import Mathlib.Algebra.Ring.Int.Defs
import Mathlib.Data.List.Infix

/-!
# The cache of stickers and sticons

`enil_asset_cache_reconcile` goes over both tables and takes the paths out of every row
whose two files are not complete PNGs of the stored size. Strings are C strings, lists of
bytes without a NUL. Every call of SQLite may fail.
-/

namespace Enil.AssetCache

open Lib Png

abbrev CString := List UInt8

/-- What `fopen` and `fread` make of each path. ".." is a directory, so no file has it for
its name. -/
structure FileSystem where
  read : CString → Option (List UInt8)
  dotdot : ∀ p, read (p ++ [47, 46, 46]) = none

/-- An INTEGER column: a value of another storage class stands for what
sqlite3_column_int converts it to. -/
inductive SqlInt where
  | null
  | integer (v : Int)
  | converted (v : Int)
  deriving DecidableEq

/-- sqlite3_column_int: an integer loses all but its low 32 bits. -/
def SqlInt.columnInt : SqlInt → Int
  | .null => 0
  | .integer v => v.bmod (2 ^ 32)
  | .converted v => v

structure Row (ρ : Type) where
  imagePath : Option CString
  thumbPath : Option CString
  imageWidth : SqlInt
  imageHeight : SqlInt
  thumbWidth : SqlInt
  thumbHeight : SqlInt
  other : ρ
  deriving DecidableEq

structure Tables (ρ σ : Type) where
  stickers : Rows (Row ρ)
  sticons : Rows (Row σ)

def purchases : CString := [112, 117, 114, 99, 104, 97, 115, 101, 115, 47]

/-- "../" -/
def climb : CString := [46, 46, 47]

def pathSize : Nat := 2048

/-- enil_png_info on a file, with turns enough. -/
def pngInfo (crc32 : Crc) (file : List UInt8) : Info :=
  (enilPngInfo crc32 (file.length + 1) file).getD .bad

/-- What enil_asset_cache_png asks of a path before it opens the file. -/
def Admits (dir relative : CString) : Prop :=
  purchases <+: relative ∧ ¬climb <:+: relative ∧ (dir ++ 47 :: relative).length < pathSize

instance (dir relative : CString) : Decidable (Admits dir relative) :=
  inferInstanceAs (Decidable (_ ∧ _))

variable (crc32 : Crc) (fs : FileSystem) (dir : CString)

def assetCachePng (relative : Option CString) : Info :=
  match relative with
  | none => .bad
  | some relative =>
    if Admits dir relative then
      match fs.read (dir ++ 47 :: relative) with
      | none => .bad
      | some file => pngInfo crc32 file
    else .bad

/-- The row stays as it is. -/
def keeps {ρ : Type} (row : Row ρ) : Bool :=
  if row.imagePath = none ∧ row.thumbPath = none then true
  else
    let image := assetCachePng crc32 fs dir row.imagePath
    let (thumb, valid) :=
      if image.ok && (row.thumbPath.isSome && row.imagePath == row.thumbPath) then (image, true)
      else
        let thumb := assetCachePng crc32 fs dir row.thumbPath
        (thumb, thumb.ok && image.ok)
    valid && (image.width : Int) == row.imageWidth.columnInt &&
      (image.height : Int) == row.imageHeight.columnInt &&
      (thumb.width : Int) == row.thumbWidth.columnInt &&
      (thumb.height : Int) == row.thumbHeight.columnInt

def reset {ρ : Type} (row : Row ρ) : Row ρ :=
  { row with
    imagePath := none, thumbPath := none, imageWidth := .integer 0, imageHeight := .integer 0
    thumbWidth := .integer 0, thumbHeight := .integer 0 }

/-- Within the scan of a table: the cursor, the table, the calls of SQLite made so far and
the rows reset. -/
structure Scan (ρ : Type) where
  cursor : Option Int
  rows : Rows (Row ρ)
  call : Nat
  repaired : Nat

/-- The body of `while ((rc = sqlite3_step(rows)) == SQLITE_ROW)`. It leaves with success
or through `fail`. -/
def scanTurn {ρ : Type} (calls : Nat → Bool) (s : Scan ρ) : Turn (Scan ρ) (Bool × Scan ρ) :=
  if !calls s.call then .leave (false, { s with call := s.call + 1 })
  else
    match s.rows.next s.cursor with
    | none => .leave (true, { s with call := s.call + 1 })
    | some (rowid, row) =>
      if keeps crc32 fs dir row then
        .again { s with cursor := some rowid, call := s.call + 1 }
      else if !calls (s.call + 1) then .leave (false, { s with call := s.call + 2 })
      else .again ⟨some rowid, s.rows.update rowid reset, s.call + 2, s.repaired + 1⟩

/-- One table: two statements are prepared, then its rows are scanned; there are no more
turns than rows. -/
def reconcileTable {ρ : Type} (calls : Nat → Bool) (call repaired : Nat) (rows : Rows (Row ρ)) :
    Option (Bool × Scan ρ) :=
  if !calls call || !calls (call + 1) then some (false, ⟨none, rows, call + 2, repaired⟩)
  else loop (scanTurn crc32 fs dir calls) (rows.entries.length + 1) ⟨none, rows, call + 2, repaired⟩

/-- enil_asset_cache_reconcile: whether it returned 0, and the tables it left. -/
def enilAssetCacheReconcile {ρ σ : Type} (calls : Nat → Bool) (t : Tables ρ σ) :
    Option (Bool × Tables ρ σ) :=
  match reconcileTable crc32 fs dir calls 0 0 t.stickers with
  | none => none
  | some (false, s) => some (false, { t with stickers := s.rows })
  | some (true, s) =>
    (reconcileTable crc32 fs dir calls s.call s.repaired t.sticons).map fun r =>
      (r.1, ⟨s.rows, r.2.rows⟩)

/-! ## What a row should be -/

/-- Both paths NULL. -/
def Pending {ρ : Type} (row : Row ρ) : Prop := row.imagePath = none ∧ row.thumbPath = none

instance {ρ : Type} (row : Row ρ) : Decidable (Pending row) := inferInstanceAs (Decidable (_ ∧ _))

/-- An admitted path to a complete PNG of that size. -/
def Complete (path : Option CString) (w h : Int) : Prop :=
  ∃ relative file, path = some relative ∧ Admits dir relative ∧
    fs.read (dir ++ 47 :: relative) = some file ∧ ∃ x y : Nat, IsPng crc32 x y file ∧ w = x ∧ h = y

/-- Both files of the row are complete, of the sizes the columns are read as. -/
def Cached {ρ : Type} (row : Row ρ) : Prop :=
  Complete crc32 fs dir row.imagePath row.imageWidth.columnInt row.imageHeight.columnInt ∧
    Complete crc32 fs dir row.thumbPath row.thumbWidth.columnInt row.thumbHeight.columnInt

/-- The path names an entry below the directory: it has the name of the directory first,
and no later component of it is "..". -/
def Inside (relative : CString) : Prop :=
  ∃ rest, relative = purchases ++ rest ∧ [46, 46] ∉ rest.splitOn 47

/-- What reconciliation makes of a table: of the same rows every one is pending or cached,
with its paths inside the directory, and those that were so are as they were. -/
structure Reconciled {ρ : Type} (before after : Rows (Row ρ)) : Prop where
  rowids : after.entries.map Prod.fst = before.entries.map Prod.fst
  others : after.entries.map (·.2.other) = before.entries.map (·.2.other)
  sound : ∀ e ∈ after.entries, Pending e.2 ∨ Cached crc32 fs dir e.2
  inside : ∀ e ∈ after.entries, ∀ relative,
    e.2.imagePath = some relative ∨ e.2.thumbPath = some relative → Inside relative
  kept : ∀ e ∈ before.entries, Pending e.2 ∨ Cached crc32 fs dir e.2 → e ∈ after.entries

/-! ## Paths -/

/-- A part between separators has one on either side or ends there. -/
theorem around_of_mem {a : UInt8} {c : CString} {parts : List CString} (h : c ∈ parts) :
    ∃ pre post, [a].intercalate parts = pre ++ c ++ post ∧
      (pre = [] ∨ ∃ p, pre = p ++ [a]) ∧ (post = [] ∨ ∃ q, post = a :: q) := by
  induction parts with
  | nil => cases h
  | cons part parts ih =>
    cases parts with
    | nil =>
      rw [List.mem_singleton.mp h]
      exact ⟨[], [], by simp [List.intercalate], .inl rfl, .inl rfl⟩
    | cons next parts =>
      have hjoin : [a].intercalate (part :: next :: parts) =
          part ++ a :: [a].intercalate (next :: parts) := by
        simp [List.intercalate, List.intersperse]
      rw [hjoin]
      rcases List.mem_cons.mp h with rfl | h
      · exact ⟨[], a :: _, rfl, .inl rfl, .inr ⟨_, rfl⟩⟩
      · obtain ⟨pre, post, heq, hpre, hpost⟩ := ih h
        refine ⟨part ++ a :: pre, post, by rw [heq]; simp, .inr ?_, hpost⟩
        rcases hpre with rfl | ⟨p, rfl⟩
        · exact ⟨part, rfl⟩
        · exact ⟨part ++ a :: p, by simp⟩

/-- An admitted path to a file stays below the directory. -/
theorem inside_of_admits {fs : FileSystem} {dir relative file : CString}
    (h : Admits dir relative) (hfile : fs.read (dir ++ 47 :: relative) = some file) :
    Inside relative := by
  obtain ⟨⟨rest, rfl⟩, hclimb, -⟩ := h
  refine ⟨rest, rfl, fun hmem => ?_⟩
  obtain ⟨pre, post, hrest, hpre, hpost⟩ := around_of_mem (a := 47) hmem
  rw [List.intercalate_splitOn] at hrest
  rcases hpost with rfl | ⟨q, rfl⟩
  · have hends : ∃ p, purchases ++ rest = p ++ [47, 46, 46] := by
      rcases hpre with rfl | ⟨p, rfl⟩
      · exact ⟨purchases.dropLast, by rw [hrest]; rfl⟩
      · exact ⟨purchases ++ p, by rw [hrest]; simp⟩
    obtain ⟨p, hp⟩ := hends
    have hno := fs.dotdot (dir ++ 47 :: p)
    rw [hp, ← List.cons_append, ← List.append_assoc, hno] at hfile
    cases hfile
  · refine hclimb ⟨purchases ++ pre, q, ?_⟩
    rw [hrest]
    simp [climb]

/-! ## One row -/

section Row

variable {crc32} {fs} {dir} (hcrc : ∀ c a b, crc32 c (a ++ b) = crc32 (crc32 c a) b)
include hcrc

theorem pngInfo_ok_iff {file : List UInt8} {w h : Int} :
    ((pngInfo crc32 file).ok = true ∧ ((pngInfo crc32 file).width : Int) = w ∧
      ((pngInfo crc32 file).height : Int) = h) ↔
    ∃ x y : Nat, IsPng crc32 x y file ∧ w = x ∧ h = y := by
  obtain ⟨info, hinfo, -, hok, -⟩ := enilPngInfo_iff crc32 hcrc file
  have hsome := hinfo _ (Nat.lt_succ_self _)
  rw [pngInfo, hsome, Option.getD_some]
  constructor
  · rintro ⟨h1, rfl, rfl⟩
    exact ⟨_, _, (hok h1).1, rfl, rfl⟩
  · rintro ⟨x, y, hpng, rfl, rfl⟩
    have := enilPngInfo_png hcrc hpng [] (Nat.lt_succ_self _)
    rw [List.append_nil] at this
    rw [enilPngInfo_unique hsome this]
    exact ⟨rfl, rfl, rfl⟩

/-- The check of a path answers for its file, and with its size. -/
theorem complete_iff {path : Option CString} {w h : Int} :
    Complete crc32 fs dir path w h ↔
      (assetCachePng crc32 fs dir path).ok = true ∧
        ((assetCachePng crc32 fs dir path).width : Int) = w ∧
        ((assetCachePng crc32 fs dir path).height : Int) = h := by
  unfold assetCachePng
  constructor
  · rintro ⟨relative, file, rfl, hadmits, hfile, hpng⟩
    simp only [if_pos hadmits, hfile]
    exact (pngInfo_ok_iff hcrc).mpr hpng
  · cases path with
    | none => rintro ⟨hok, -⟩; cases hok
    | some relative =>
      dsimp only
      split
      · rename_i hadmits
        split
        · rintro ⟨hok, -⟩; cases hok
        · rename_i file hfile
          intro hinfo
          exact ⟨relative, file, rfl, hadmits, hfile, (pngInfo_ok_iff hcrc).mp hinfo⟩
      · rintro ⟨hok, -⟩; cases hok

/-- A row stays as it is exactly if it is pending or cached. -/
theorem keeps_iff {ρ : Type} (row : Row ρ) :
    keeps crc32 fs dir row = true ↔ Pending row ∨ Cached crc32 fs dir row := by
  unfold keeps
  split
  · rename_i hnone; exact iff_of_true rfl (.inl hnone)
  · rename_i hsome
    have hnot : ¬Pending row := hsome
    rw [Cached, complete_iff hcrc, complete_iff hcrc, or_iff_right hnot]
    dsimp only
    split
    · rename_i hsame
      simp only [Bool.and_eq_true, beq_iff_eq] at hsame ⊢
      rw [← hsame.2.2]
      simp only [hsame.1, true_and]
      tauto
    · simp only [Bool.and_eq_true, beq_iff_eq]
      tauto

end Row

theorem reset_pending {ρ : Type} (row : Row ρ) : Pending (reset row) := ⟨rfl, rfl⟩

/-- What the scan does to a row. -/
def settle {ρ : Type} (row : Row ρ) : Row ρ := if keeps crc32 fs dir row then row else reset row

theorem settle_other {ρ : Type} (row : Row ρ) : (settle crc32 fs dir row).other = row.other := by
  unfold settle; split <;> rfl

/-! ## The scan -/

section Scan

variable {crc32} {fs} {dir} {ρ : Type} {calls : Nat → Bool}

theorem scanTurn_again {s t : Scan ρ} (h : scanTurn crc32 fs dir calls s = .again t) :
    ∃ rowid row, s.rows.next s.cursor = some (rowid, row) ∧ t.cursor = some rowid ∧
      (t.rows = s.rows ∧ settle crc32 fs dir row = row ∨
        t.rows = s.rows.update rowid reset ∧ settle crc32 fs dir row = reset row) := by
  unfold scanTurn at h
  split at h
  · cases h
  · split at h
    · cases h
    · rename_i rowid row hnext
      split at h
      · rename_i hkeeps
        cases h
        exact ⟨rowid, row, hnext, rfl, .inl ⟨rfl, if_pos hkeeps⟩⟩
      · rename_i hkeeps
        split at h
        · cases h
        · cases h
          exact ⟨rowid, row, hnext, rfl, .inr ⟨rfl, if_neg hkeeps⟩⟩

theorem scanTurn_leave {s t : Scan ρ} (h : scanTurn crc32 fs dir calls s = .leave (true, t)) :
    s.rows.next s.cursor = none ∧ t.rows = s.rows := by
  unfold scanTurn at h
  split at h
  · cases h
  · split at h
    · rename_i hnext; cases h; exact ⟨hnext, rfl⟩
    · split at h
      · cases h
      · split at h
        · cases h
        · cases h

/-- Up to the cursor every row is settled, the rows after it are untouched. -/
theorem scanTurn_upTo {before : Rows (Row ρ)} {s t : Scan ρ}
    (hs : s.rows = before.upTo (settle crc32 fs dir) s.cursor)
    (h : scanTurn crc32 fs dir calls s = .again t) :
    t.rows = before.upTo (settle crc32 fs dir) t.cursor := by
  obtain ⟨rowid, row, hnext, hcursor, hrows⟩ := scanTurn_again h
  rw [hs, Rows.next_upTo] at hnext
  rw [hcursor]
  rcases hrows with ⟨hrows, hfixed⟩ | ⟨hrows, hreset⟩
  · rw [hrows, hs, Rows.upTo_of_fixed hnext hfixed]
  · rw [hrows, hs, Rows.update_upTo _ _ hnext hreset.symm]

theorem leaves_settled {before : Rows (Row ρ)} {s : Scan ρ} {r : Bool × Scan ρ}
    (h : Leaves (scanTurn crc32 fs dir calls) s r)
    (hs : s.rows = before.upTo (settle crc32 fs dir) s.cursor) (hok : r.1 = true) :
    r.2.rows = before.mapRows fun e => settle crc32 fs dir e.2 := by
  induction h with
  | @leave s r hturn =>
    obtain ⟨ok, t⟩ := r
    obtain rfl : ok = true := hok
    obtain ⟨hnext, hrows⟩ := scanTurn_leave hturn
    rw [hs, Rows.next_upTo] at hnext
    rw [hrows, hs, Rows.upTo_of_done hnext]
  | again hturn _ ih => exact ih (scanTurn_upTo hs hturn) hok

theorem scanTurn_ahead {s t : Scan ρ} (h : scanTurn crc32 fs dir calls s = .again t) :
    t.rows.ahead t.cursor < s.rows.ahead s.cursor := by
  obtain ⟨rowid, row, hnext, hcursor, hrows⟩ := scanTurn_again h
  have hlt := Rows.ahead_next hnext
  rw [hcursor]
  rcases hrows with ⟨hrows, -⟩ | ⟨hrows, -⟩
  · rwa [hrows]
  · rw [hrows, Rows.update, Rows.ahead_mapRows]; exact hlt

variable (crc32) (fs) (dir) (calls) in
/-- A table is gone over in the end, and on success every row of it is settled. -/
theorem reconcileTable_spec (call repaired : Nat) (before : Rows (Row ρ)) :
    ∃ r, reconcileTable crc32 fs dir calls call repaired before = some r ∧
      (r.1 = true → r.2.rows = before.mapRows fun e => settle crc32 fs dir e.2) := by
  unfold reconcileTable
  split
  · exact ⟨_, rfl, Bool.noConfusion⟩
  · obtain ⟨r, hr⟩ := exists_loop (m := fun s : Scan ρ => s.rows.ahead s.cursor) scanTurn_ahead
      (s := ⟨none, before, call + 2, repaired⟩) (Nat.lt_succ_of_le List.countP_le_length)
    exact ⟨r, hr, leaves_settled (leaves_of_loop hr) (Rows.upTo_none _ _).symm⟩

end Scan

theorem settle_reconciled {ρ : Type} (hcrc : ∀ c a b, crc32 c (a ++ b) = crc32 (crc32 c a) b)
    (before : Rows (Row ρ)) :
    Reconciled crc32 fs dir before (before.mapRows fun e => settle crc32 fs dir e.2) := by
  have hsound : ∀ row : Row ρ, Pending (settle crc32 fs dir row) ∨
      Cached crc32 fs dir (settle crc32 fs dir row) := by
    intro row
    unfold settle
    split
    · rename_i hkeeps; exact (keeps_iff hcrc row).mp hkeeps
    · exact .inl (reset_pending row)
  refine ⟨?_, ?_, ?_, ?_, ?_⟩
  · exact List.map_map ..
  · refine (List.map_map ..).trans (List.map_congr_left fun e _ => ?_)
    exact settle_other crc32 fs dir e.2
  · intro e he
    obtain ⟨d, -, rfl⟩ := List.mem_map.mp he
    exact hsound d.2
  · intro e he relative hpath
    obtain ⟨d, -, rfl⟩ := List.mem_map.mp he
    rcases hsound d.2 with ⟨himage, hthumb⟩ | ⟨himage, hthumb⟩
    · dsimp only at hpath
      rw [himage, hthumb] at hpath
      rcases hpath with hpath | hpath <;> cases hpath
    · obtain ⟨image, file, hi, hadmits, hfile, -⟩ := himage
      obtain ⟨thumb, file', ht, hadmits', hfile', -⟩ := hthumb
      dsimp only at hpath
      rw [hi, ht] at hpath
      rcases hpath with hpath | hpath
      · cases hpath; exact inside_of_admits hadmits hfile
      · cases hpath; exact inside_of_admits hadmits' hfile'
  · intro e he hrow
    have hsettle : settle crc32 fs dir e.2 = e.2 := if_pos ((keeps_iff hcrc e.2).mpr hrow)
    exact List.mem_map.mpr ⟨e, he, Prod.ext rfl hsettle⟩

/-- Reconciliation ends, and where it returns success both tables are reconciled. -/
theorem enilAssetCacheReconcile_reconciled {ρ σ : Type}
    (hcrc : ∀ c a b, crc32 c (a ++ b) = crc32 (crc32 c a) b) (calls : Nat → Bool)
    (t : Tables ρ σ) :
    ∃ ok t', enilAssetCacheReconcile crc32 fs dir calls t = some (ok, t') ∧
      (ok = true → Reconciled crc32 fs dir t.stickers t'.stickers ∧
        Reconciled crc32 fs dir t.sticons t'.sticons) := by
  unfold enilAssetCacheReconcile
  obtain ⟨⟨ok, s⟩, hs, hstickers⟩ :=
    reconcileTable_spec crc32 fs dir calls 0 0 t.stickers
  rw [hs]
  cases ok with
  | false => exact ⟨false, _, rfl, Bool.noConfusion⟩
  | true =>
    obtain ⟨⟨ok, s'⟩, hs', hsticons⟩ :=
      reconcileTable_spec crc32 fs dir calls s.call s.repaired t.sticons
    refine ⟨ok, ⟨s.rows, s'.rows⟩, by simp only [hs', Option.map_some], fun hok => ?_⟩
    rw [hstickers rfl, hsticons hok]
    exact ⟨settle_reconciled crc32 fs dir hcrc _, settle_reconciled crc32 fs dir hcrc _⟩

/-! ## Runs -/

/-- "purchases/a.png" -/
def pixelPath : CString := purchases ++ [97, 46, 112, 110, 103]

/-- "purchases/a../b.png": a directory whose name ends in two dots. -/
def dotsPath : CString := purchases ++ [97, 46, 46, 47, 98, 46, 112, 110, 103]

/-- Both paths lead to an image of one pixel. -/
def readPixel (path : CString) : Option (List UInt8) :=
  if path = 47 :: pixelPath ∨ path = 47 :: dotsPath then some (pixel 0) else none

theorem readPixel_dotdot (p : CString) : readPixel (p ++ [47, 46, 46]) = none := by
  refine if_neg fun h => ?_
  rcases h with h | h
  · have := congrArg List.getLast? h
    rw [List.getLast?_append] at this
    cases this
  · have := congrArg List.getLast? h
    rw [List.getLast?_append] at this
    cases this

def pixelFiles : FileSystem := ⟨readPixel, readPixel_dotdot⟩

def pixelRow (path : CString) (width : Int) : Row Unit :=
  ⟨some path, some path, .integer width, .integer 1, .integer width, .integer 1, ()⟩

def oneRow (row : Row Unit) : Rows (Row Unit) := ⟨[(1, row)], List.pairwise_singleton ..⟩

/-- What a run in which SQLite never fails makes of one sticker. -/
def reconcileOne (row : Row Unit) : Option (Bool × List (Int × Row Unit)) :=
  (enilAssetCacheReconcile zlibCrc32 pixelFiles [] (fun _ => true)
    (⟨oneRow row, ⟨[], List.Pairwise.nil⟩⟩ : Tables Unit Unit)).map fun r =>
      (r.1, r.2.stickers.entries)

/-- A stored width of 2^32 + 1 passes for 1, and a complete image in a directory whose name
ends in two dots is given up. -/
theorem wrapped_width_kept :
    pngInfo zlibCrc32 (pixel 0) = ⟨true, 1, 1⟩ ∧
      readPixel (47 :: pixelPath) = some (pixel 0) ∧
      reconcileOne (pixelRow pixelPath (2 ^ 32 + 1)) =
        some (true, [(1, pixelRow pixelPath (2 ^ 32 + 1))]) ∧
      readPixel (47 :: dotsPath) = some (pixel 0) ∧
      reconcileOne (pixelRow dotsPath 1) = some (true, [(1, reset (pixelRow dotsPath 1))]) := by
  decide +kernel

/-- The sum of zlib is one such sum. -/
theorem reconcileOne_reconciled :
    ∃ ok t', enilAssetCacheReconcile zlibCrc32 pixelFiles [] (fun _ => true)
        (⟨oneRow (pixelRow pixelPath 1), ⟨[], List.Pairwise.nil⟩⟩ : Tables Unit Unit) =
          some (ok, t') ∧
      (ok = true → Reconciled zlibCrc32 pixelFiles [] (oneRow (pixelRow pixelPath 1)) t'.stickers ∧
        Reconciled zlibCrc32 pixelFiles [] (⟨[], List.Pairwise.nil⟩ : Rows (Row Unit)) t'.sticons) :=
  enilAssetCacheReconcile_reconciled zlibCrc32 pixelFiles [] zlibCrc32_append (fun _ => true) _

end Enil.AssetCache
