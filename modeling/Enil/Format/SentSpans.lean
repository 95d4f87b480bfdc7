import Enil.Format.TextHtml
import Enil.Line.SticonResources
import Enil.Sync.SticonMirror

/-!
# The spans of a message that was sent

The sender counts S and E in bytes. The REPLACE it stores does not say so, and the renderer
tries UTF-16 units first. A resource is resolved to its own marker unless the two numbers
taken as units are those of another one.
-/

namespace Enil.Html

open Lib Lib.Search

/-! ## From REPLACE to the resources of the renderer -/

/-- The REPLACE is stored with its message, and the rows of the message are those it names. -/
structure Stored (cj : Cjson) (d : SticonDb) (id : String) (replace : Json) : Prop where
  row : ∃ r, d.messages id = some r ∧ r.replaceJson = some (.printed replace)
  rows : d.sticons.filter (·.messageId = id) = namedRows cj id (some (.printed replace))

theorem Stored.of_mirrors {cj : Cjson} {d : SticonDb} {id : String} {replace : Json}
    {r : MessageRow} (h : Mirrors cj d) (hr : d.messages id = some r)
    (hreplace : r.replaceJson = some (.printed replace)) : Stored cj d id replace :=
  ⟨⟨r, hr, hreplace⟩, by rw [(h id r hr).sticons, hreplace]⟩

/-- Path, width and height of a sticon's image, as sticons_v2 has them. -/
abbrev Images := String → String → String × Int × Int

/-- A row of enil_db_get_message_sticons. -/
def spanRow (images : Images) (s : SticonSpan) : Json :=
  let (path, width, height) := images s.packageId s.sticonId
  .obj ([("package_id", .str s.packageId), ("sticon_id", .str s.sticonId),
    ("image_path", .str path), ("image_width", .num width), ("image_height", .num height)] ++
    match s.span with
    | some (a, b) => [("S", .num a), ("E", .num b)]
    | none => [])

/-- The resources enil_message_text_html renders a message with. -/
def renderedResources (cj : Cjson) (images : Images) (id : String) (d : SticonDb) : List Json :=
  (getMessageSticons cj id d).map (spanRow images)

/-- Each sticon of a draft is rendered at the bytes of its own marker. -/
def RendersOwn (cj : Cjson) (images : Images) (d : SticonDb) (id : String) (t : List UInt8)
    (sticons : List Sticon) : Prop :=
  (renderedResources cj images id d).map (resourceSpan t) =
    (places 0 t (markers sticons)).map some

theorem getObjectItem_cons (k : String) (v : Json) (fs : List (String × Json)) (key : String) :
    (Json.obj ((k, v) :: fs)).getObjectItem key =
      if Json.keyEq k key then some v else (Json.obj fs).getObjectItem key := by
  simp only [Json.getObjectItem, Json.items_obj, List.find?_cons]
  cases Json.keyEq k key <;> rfl

theorem getObjectItem_nil (key : String) : (Json.obj []).getObjectItem key = none := rfl

theorem offsetItem_int {r : Json} {key : String} {n : Int}
    (h : r.getObjectItem key = some (.num n)) :
    offsetItem r key = if 0 ≤ n ∧ n ≤ intMax then some n.toNat else none := by
  have hint : ((n : Rat)).isInt = true := by simp [Rat.isInt]
  have hnum : ((n : Rat)).num = n := Rat.num_intCast n
  have hmax : (n : Rat) ≤ intMax ↔ n ≤ intMax := by
    rw [← Int.cast_natCast, Int.cast_le]
  unfold offsetItem
  rw [h]
  simp only [Option.bind_some, Json.getNumberValue, hint, hnum, hmax, Int.cast_nonneg_iff,
    and_true]

theorem spanRow_items (images : Images) {s : SticonSpan} {a b : Rat} (h : s.span = some (a, b)) :
    (spanRow images s).getObjectItem "S" = some (.num a) ∧
      (spanRow images s).getObjectItem "E" = some (.num b) ∧
      (spanRow images s).getObjectItem "byte_offsets" = none := by
  have hs : ∀ k ∈ ["package_id", "sticon_id", "image_path", "image_width", "image_height"],
      Json.keyEq k "S" = false ∧ Json.keyEq k "E" = false ∧
        Json.keyEq k "byte_offsets" = false := by decide
  have hrest : Json.keyEq "S" "S" = true ∧ Json.keyEq "S" "E" = false ∧
      Json.keyEq "E" "E" = true ∧ Json.keyEq "S" "byte_offsets" = false ∧
      Json.keyEq "E" "byte_offsets" = false := by decide
  simp only [List.forall_mem_cons, List.not_mem_nil, false_implies, implies_true, and_true] at hs
  simp only [spanRow, h, List.cons_append, List.nil_append, getObjectItem_cons, hs, hrest,
    Bool.false_eq_true, if_false, if_true, getObjectItem_nil, and_self]

theorem resourceSpan_spanRow (t : List UInt8) (images : Images) {s : SticonSpan} {a b : Int}
    (h : s.span = some ((a : Rat), (b : Rat))) :
    resourceSpan t (spanRow images s) =
      if 0 ≤ a ∧ a < b ∧ b ≤ intMax then resolveSpan false t a.toNat b.toNat else none := by
  obtain ⟨hs, he, hbytes⟩ := spanRow_items images h
  unfold resourceSpan
  rw [offsetItem_int hs, offsetItem_int he, hbytes]
  by_cases ha : 0 ≤ a ∧ a ≤ intMax
  · by_cases hb : 0 ≤ b ∧ b ≤ intMax
    · rw [if_pos ha, if_pos hb]
      by_cases hab : a < b
      · rw [if_pos (show 0 ≤ a ∧ a < b ∧ b ≤ intMax by omega)]
        simp only
        rw [if_pos (by omega)]
        rfl
      · rw [if_neg (show ¬(0 ≤ a ∧ a < b ∧ b ≤ intMax) by omega)]
        simp only
        rw [if_neg (by omega)]
    · rw [if_neg hb, if_neg (show ¬(0 ≤ a ∧ a < b ∧ b ≤ intMax) by omega)]
      split <;> simp_all
  · rw [if_neg ha, if_neg (show ¬(0 ≤ a ∧ a < b ∧ b ≤ intMax) by omega)]

/-! ## What is stored of a draft -/

/-- The resource of a sticon whose marker is at `p`. -/
def resourceAt (x : Sticon) (p : Nat × Nat) : SticonResource where
  packageId := x.packageId
  sticonId := x.sticonId
  startOffset := toCInt p.1
  endOffset := toCInt p.2
  version := x.version.getD ""
  resourceType := x.resourceType.getD "STATIC"

theorem buildFrom_eq (off : Nat) (t : List UInt8) (sticons : List Sticon) :
    buildFrom off t sticons = List.zipWith resourceAt sticons (places off t (markers sticons)) := by
  induction sticons generalizing off t with
  | nil => rfl
  | cons x xs ih =>
    have hend : toCInt (toCInt (off + skip x.marker t : Nat) + toCInt x.marker.length) =
        toCInt (off + skip x.marker t + x.marker.length : Nat) := by
      rw [toCInt_add]
      push_cast
      rfl
    unfold buildFrom
    rw [markers, List.map_cons, places, List.zipWith_cons_cons]
    refine congrArg₂ List.cons (by simp only [resourceAt, hend]) ?_
    split
    · exact ih _ _
    · exact ih _ _

/-- What the query makes of a resource: nothing where a name is empty. -/
def namedSpan (r : SticonResource) : Option SticonSpan :=
  if r.packageId ≠ "" ∧ r.sticonId ≠ "" then
    some ⟨r.packageId, r.sticonId, some ((r.startOffset : Rat), (r.endOffset : Rat))⟩
  else none

/-- The object of a resource in the REPLACE. -/
def resourceObj (r : SticonResource) : Json :=
  .obj [("S", .num r.startOffset), ("E", .num r.endOffset), ("productId", .str r.packageId),
    ("sticonId", .str r.sticonId),
    ("version", if r.version = "" then .str "" else .num (Json.toDouble (Json.strtoll r.version))),
    ("resourceType", .str (if r.resourceType = "" then "STATIC" else r.resourceType))]

theorem storedResources_build {cj : Cjson} {res : List SticonResource}
    (h : cj.ReadsBack (buildReplaceSticonObj res)) :
    storedResources cj (.printed (buildReplaceSticonObj res)) = res.map resourceObj := by
  have hbuild : buildReplaceSticonObj res =
      .obj [("sticon", .obj [("resources", .arr (res.map resourceObj))])] := rfl
  have hkeys : Json.keyEq "sticon" "sticon" = true ∧ Json.keyEq "resources" "resources" = true := by
    decide
  have hparse : JsonText.parse cj (.printed (buildReplaceSticonObj res)) =
      some (buildReplaceSticonObj res) := h
  unfold storedResources sticonResources
  rw [hparse, hbuild]
  simp only [JsonText.isEmpty, Bool.false_eq_true, if_false, Option.bind_some, getObjectItem_cons,
    hkeys, if_true, Json.isArray, Option.filter_some, Option.elim_some, Json.elements]

theorem resourceObj_items (r : SticonResource) :
    (resourceObj r).getObjectItem "S" = some (.num r.startOffset) ∧
      (resourceObj r).getObjectItem "E" = some (.num r.endOffset) ∧
      (resourceObj r).getObjectItem "productId" = some (.str r.packageId) ∧
      (resourceObj r).getObjectItem "sticonId" = some (.str r.sticonId) := by
  have hkeys : Json.keyEq "S" "S" = true ∧ Json.keyEq "S" "E" = false ∧
      Json.keyEq "S" "productId" = false ∧ Json.keyEq "S" "sticonId" = false ∧
      Json.keyEq "E" "E" = true ∧ Json.keyEq "E" "productId" = false ∧
      Json.keyEq "E" "sticonId" = false ∧ Json.keyEq "productId" "productId" = true ∧
      Json.keyEq "productId" "sticonId" = false ∧ Json.keyEq "sticonId" "sticonId" = true := by
    decide
  simp only [resourceObj, getObjectItem_cons, hkeys, Bool.false_eq_true, if_false, if_true,
    and_self]

theorem namedSpan_resourceObj (r : SticonResource) :
    (match resourceName "productId" (resourceObj r), resourceName "sticonId" (resourceObj r) with
      | some pkg, some sid =>
        some (⟨pkg, sid, Enil.resourceSpan (some (resourceObj r))⟩ : SticonSpan)
      | _, _ => none) = namedSpan r := by
  obtain ⟨hs, he, hp, hi⟩ := resourceObj_items r
  have hspan : Enil.resourceSpan (some (resourceObj r)) =
      some ((r.startOffset : Rat), (r.endOffset : Rat)) := by
    simp only [Enil.resourceSpan, Option.bind_some, hs, he]
  have hname : ∀ (key s : String), (resourceObj r).getObjectItem key = some (.str s) →
      resourceName key (resourceObj r) = if s = "" then none else some s := by
    intro key s h
    simp only [resourceName, Json.stringItem, h, Option.bind_some, Json.getStringValue,
      Option.filter_some]
    by_cases hs : s = "" <;> simp [hs]
  rw [hspan, hname _ _ hp, hname _ _ hi, namedSpan]
  by_cases hp' : r.packageId = ""
  · simp [hp']
  · by_cases hi' : r.sticonId = ""
    · simp [hi', hp']
    · simp [hp', hi']

/-- The sticons of the stored rows. -/
theorem getMessageSticons_stored {cj : Cjson} {d : SticonDb} {id : String}
    {res : List SticonResource} (hread : cj.ReadsBack (buildReplaceSticonObj res))
    (h : Stored cj d id (buildReplaceSticonObj res)) :
    getMessageSticons cj id d = res.filterMap namedSpan := by
  obtain ⟨r, hr, hreplace⟩ := h.row
  rw [getMessageSticons_of_rows hr (by rw [hreplace]; exact h.rows), hreplace]
  rw [namedSpans, Option.elim_some, storedResources_build hread, List.filterMap_map]
  exact List.filterMap_congr fun r _ => namedSpan_resourceObj r

theorem filterMap_zipWith {α β γ δ : Type} (f : α → γ → β) (g : β → Option δ) (h : γ → δ)
    {xs : List α} {ps : List γ} (hlen : xs.length = ps.length) :
    (List.zipWith f xs ps).filterMap g = ps.map h ↔
      List.Forall₂ (fun x p => g (f x p) = some (h p)) xs ps := by
  induction xs generalizing ps with
  | nil =>
    cases ps with
    | nil => simp
    | cons p ps => simp at hlen
  | cons x xs ih =>
    cases ps with
    | nil => simp at hlen
    | cons p ps =>
      have hlen' : xs.length = ps.length := by simpa using hlen
      rw [List.zipWith_cons_cons, List.map_cons, List.forall₂_cons]
      cases hg : g (f x p) with
      | none =>
        simp only [List.filterMap_cons, hg, reduceCtorEq, false_and, iff_false]
        intro heq
        have hlength := congrArg List.length heq
        have hle := List.length_filterMap_le g (List.zipWith f xs ps)
        simp only [List.length_cons, List.length_map, List.length_zipWith] at hlength hle
        omega
      | some b =>
        simp only [List.filterMap_cons, hg, List.cons.injEq, Option.some.injEq, ih hlen']

theorem length_places (off : Nat) (t : List UInt8) (ms : List (List UInt8)) :
    (places off t ms).length = ms.length := by
  induction ms generalizing off t with
  | nil => rfl
  | cons m ms ih =>
    unfold places
    split
    · rw [List.length_cons, ih, List.length_cons]
    · rw [List.length_cons, ih, List.length_cons]

/-- What the renderer makes of the resource of a sticon. -/
def resolveAt (t : List UInt8) (images : Images) (x : Sticon) (p : Nat × Nat) :
    Option (Option (Nat × Nat)) :=
  (namedSpan (resourceAt x p)).map fun s => resourceSpan t (spanRow images s)

theorem rendersOwn_resolveAt {cj : Cjson} {images : Images} {d : SticonDb} {id : String}
    {t : List UInt8} {sticons : List Sticon}
    (hread : cj.ReadsBack (buildReplaceSticonObj (buildFrom 0 t sticons)))
    (h : Stored cj d id (buildReplaceSticonObj (buildFrom 0 t sticons))) :
    RendersOwn cj images d id t sticons ↔
      List.Forall₂ (fun x p => resolveAt t images x p = some (some p)) sticons
        (places 0 t (markers sticons)) := by
  have hlen : sticons.length = (places 0 t (markers sticons)).length := by
    rw [length_places, markers, List.length_map]
  unfold RendersOwn renderedResources
  rw [getMessageSticons_stored hread h, List.map_map, List.map_filterMap, buildFrom_eq]
  exact filterMap_zipWith resourceAt (fun r => (namedSpan r).map fun s =>
    resourceSpan t (spanRow images s)) some hlen

/-! ## Whose marker is found -/

theorem length_bytesOf_le (cs : List Char) :
    utf16Length cs ≤ (bytesOf cs).length ∧ (bytesOf cs).length ≤ 3 * utf16Length cs := by
  induction cs with
  | nil => exact ⟨le_refl _, le_refl _⟩
  | cons c cs ih =>
    have hbytes : bytesOf (c :: cs) = String.utf8EncodeChar c ++ bytesOf cs := rfl
    have hunits : utf16Length (c :: cs) = unitsOf c.toNat + utf16Length cs := by
      simp [utf16Length]
    have hone : unitsOf c.toNat ≤ (String.utf8EncodeChar c).length ∧
        (String.utf8EncodeChar c).length ≤ 3 * unitsOf c.toNat := by
      have hc : c.val.toNat = c.toNat := rfl
      unfold String.utf8EncodeChar unitsOf
      simp only [hc]
      by_cases h₁ : c.toNat ≤ 0x7f
      · simp [h₁, show ¬ 0xffff < c.toNat by omega]
      by_cases h₂ : c.toNat ≤ 0x7ff
      · simp [h₁, h₂, show ¬ 0xffff < c.toNat by omega]
      by_cases h₃ : c.toNat ≤ 0xffff
      · simp [h₁, h₂, h₃, show ¬ 0xffff < c.toNat by omega]
      · simp [h₁, h₂, h₃, show 0xffff < c.toNat by omega]
    rw [hbytes, hunits, List.length_append]
    omega

/-- The resource of a sticon at `p` is one the renderer takes for the marker at `p`: where the
two numbers count units, they are those of no other marker. -/
structure ReadsOwn (text : String) (x : Sticon) (p : Nat × Nat) : Prop where
  named : x.packageId ≠ "" ∧ x.sticonId ≠ ""
  shaped : isMarker x.marker = true
  int : p.2 ≤ intMax
  alone : ∀ q, WholeChars text p.1 p.2 q → markerSpan (utf8 text) q.1 q.2 = true → q = p

/-- An offset no `int` holds is not found again. -/
theorem le_of_resolveSpan {text : String} {p : Nat × Nat} {a b : Nat} (hb : toCInt p.2 = b)
    (hmax : b ≤ intMax) (h : resolveSpan false (utf8 text) a b = some p) :
    p.2 ≤ intMax := by
  unfold intMax at hmax ⊢
  unfold resolveSpan at h
  split at h
  · rename_i q hq
    cases h
    obtain ⟨-, he, -⟩ := utf16Span_eq_some.mp hq
    obtain ⟨x, y, -, hp, hunits⟩ := utf16Boundary_iff.mp he
    have hle := length_bytesOf_le x
    have := toCInt_emod p.2
    omega
  · split at h
    · cases h
      exact hmax
    · cases h

/-- A named resource is looked for at its two numbers. -/
theorem rendered_resource (t : List UInt8) (images : Images) (r : SticonResource) :
    ((namedSpan r).map fun s => resourceSpan t (spanRow images s)) =
      if r.packageId ≠ "" ∧ r.sticonId ≠ "" then
        some (if 0 ≤ r.startOffset ∧ r.startOffset < r.endOffset ∧ r.endOffset ≤ intMax then
          resolveSpan false t r.startOffset.toNat r.endOffset.toNat else none)
      else none := by
  unfold namedSpan
  by_cases hnamed : r.packageId ≠ "" ∧ r.sticonId ≠ ""
  · rw [if_pos hnamed, if_pos hnamed, Option.map_some]
    exact congrArg some (resourceSpan_spanRow t images rfl)
  · rw [if_neg hnamed, if_neg hnamed, Option.map_none]

/-- Two numbers are resolved to a place they are the ends of. -/
theorem resolveSpan_own {text : String} {m : List UInt8} {p : Nat × Nat}
    (h : Occupies (utf8 text) m p) :
    resolveSpan false (utf8 text) p.1 p.2 = some p ↔
      isMarker m = true ∧ ∀ q, utf16Span (utf8 text) p.1 p.2 = some q → q = p := by
  have hslice : slice (utf8 text) p.1 p.2 = m := h.eq
  constructor
  · intro hres
    refine ⟨?_, fun q hq => ?_⟩
    · have := (markerSpan_iff.mp (resolveSpan_marker hres)).2.2
      rwa [hslice] at this
    · unfold resolveSpan at hres
      simp only [Bool.false_eq_true, if_false, hq] at hres
      exact Option.some.inj hres
  · rintro ⟨hshaped, hunits⟩
    have hmarker : markerSpan (utf8 text) p.1 p.2 = true :=
      markerSpan_iff.mpr ⟨h.lt, h.le, by rw [hslice]; exact hshaped⟩
    unfold resolveSpan
    simp only [Bool.false_eq_true, if_false]
    cases hq : utf16Span (utf8 text) p.1 p.2 with
    | none => simp only [hmarker, if_true]
    | some q => rw [hunits q hq]

theorem resolveAt_iff {text : String} {images : Images} {x : Sticon} {p : Nat × Nat}
    (h : Occupies (utf8 text) x.marker p) :
    resolveAt (utf8 text) images x p = some (some p) ↔ ReadsOwn text x p := by
  have hlt := h.lt
  have hmax : intMax = 2147483647 := by decide
  obtain ⟨a, ha⟩ : ∃ a, toCInt p.1 = a := ⟨_, rfl⟩
  obtain ⟨b, hb⟩ : ∃ b, toCInt p.2 = b := ⟨_, rfl⟩
  have hresource : resourceAt x p =
      ⟨x.packageId, x.sticonId, a, b, x.version.getD "", x.resourceType.getD "STATIC"⟩ := by
    rw [resourceAt, ha, hb]
  rw [resolveAt, rendered_resource, hresource]
  simp only
  have hint : p.2 ≤ intMax → a = p.1 ∧ b = p.2 := by
    intro hle
    rw [← ha, ← hb]
    exact ⟨toCInt_of_le (by omega), toCInt_of_le (by omega)⟩
  by_cases hnamed : x.packageId ≠ "" ∧ x.sticonId ≠ ""
  · rw [if_pos hnamed, Option.some.injEq]
    constructor
    · intro hres
      split at hres
      · rename_i hrange
        have hle := le_of_resolveSpan (b := b.toNat) (by omega) (by omega) hres
        obtain ⟨rfl, rfl⟩ := hint hle
        obtain ⟨hshaped, hunits⟩ := (resolveSpan_own h).mp hres
        exact ⟨hnamed, hshaped, hle, fun q hq hm => hunits q (utf16Span_iff.mpr ⟨hq, hm⟩)⟩
      · cases hres
    · rintro ⟨-, hshaped, hle, halone⟩
      obtain ⟨rfl, rfl⟩ := hint hle
      rw [if_pos (by omega)]
      refine (resolveSpan_own h).mpr ⟨hshaped, fun q hq => ?_⟩
      obtain ⟨hwhole, hm⟩ := utf16Span_iff.mp hq
      exact halone q hwhole hm
  · rw [if_neg hnamed]
    simp only [reduceCtorEq, false_iff]
    exact fun hown => hnamed hown.named

theorem forall₂_iff {α β : Type} {R S P : α → β → Prop} {xs : List α} {ys : List β}
    (hP : List.Forall₂ P xs ys) (h : ∀ x y, P x y → (R x y ↔ S x y)) :
    List.Forall₂ R xs ys ↔ List.Forall₂ S xs ys := by
  induction hP with
  | nil => simp
  | cons hxy _ ih => rw [List.forall₂_cons, List.forall₂_cons, h _ _ hxy, ih]

/-- A draft that is sent is rendered as it was written exactly where both numbers of each
marker are those of that marker in UTF-16 units too, or of none. -/
theorem rendersOwn_iff (cj : Cjson) (images : Images) (d : SticonDb) (id text : String)
    (sticons : List Sticon) (hin : InOrder (markers sticons) (utf8 text))
    (hread : cj.ReadsBack (buildReplaceSticonObj (buildFrom 0 (utf8 text) sticons)))
    (hstored : Stored cj d id (buildReplaceSticonObj (buildFrom 0 (utf8 text) sticons))) :
    RendersOwn cj images d id (utf8 text) sticons ↔
      List.Forall₂ (ReadsOwn text) sticons (places 0 (utf8 text) (markers sticons)) := by
  have hplaced := placed_places (markers_ne_nil sticons) (a := [])
    (t := utf8 text) (k := (utf8 text).length) (by rwa [List.take_length])
  have hocc : List.Forall₂ (fun x p => Occupies (utf8 text) (Sticon.marker x) p) sticons
      (places 0 (utf8 text) (markers sticons)) := by
    have := hplaced.occupies
    rwa [List.nil_append, markers, List.forall₂_map_left_iff] at this
  rw [rendersOwn_resolveAt hread hstored]
  exact forall₂_iff hocc fun x p => resolveAt_iff

/-! ## Drafts with one sticon -/

def oneSticon : List Sticon := [⟨"p", "s", some [97], none, none⟩]

def sentReplace (text : String) : Json :=
  buildReplaceSticonObj (buildFrom 0 (utf8 text) oneSticon)

def sentJson (text : String) : Cjson := textsOf [sentReplace text]

def sentDb (text : String) : SticonDb :=
  { emptySticonDb with
    messages := fun id => if id = "m1" then
      some { chatId := "u1", replaceJson := some (.printed (sentReplace text)) } else none
    sticons := [⟨"m1", 0, "p", "s"⟩] }

def images : Images := fun _ _ => ("sticon.png", 1, 1)

theorem sentJson_readsBack (text : String) : (sentJson text).ReadsBack (sentReplace text) :=
  readsBack_textsOf (by simp) (List.mem_singleton.mpr rfl)

theorem stored_sentDb {text : String} (h : namedRows (sentJson text) "m1"
    (some (.printed (sentReplace text))) = [⟨"m1", 0, "p", "s"⟩]) :
    Stored (sentJson text) (sentDb text) "m1" (sentReplace text) :=
  ⟨⟨_, rfl, rfl⟩, by
    rw [h]
    show [(⟨"m1", 0, "p", "s"⟩ : MessageSticon)].filter (·.messageId = "m1") = _
    decide⟩

/-- The offsets of the bytes of an ASCII text are those of its units. -/
theorem rendersOwn_ascii :
    RendersOwn (sentJson "hi (a)") images (sentDb "hi (a)") "m1" (utf8 "hi (a)") oneSticon := by
  refine (rendersOwn_iff (sentJson "hi (a)") images (sentDb "hi (a)") "m1" "hi (a)" oneSticon
    ⟨[104, 105, 32], [], by decide +kernel, trivial⟩ (sentJson_readsBack _)
    (stored_sentDb (by decide +kernel))).mpr ?_
  have hplaces : places 0 (utf8 "hi (a)") (markers oneSticon) = [(3, 6)] := by decide +kernel
  have hunits : utf16Span (utf8 "hi (a)") 3 6 = some (3, 6) := by decide +kernel
  rw [hplaces]
  refine .cons ⟨by decide, by decide, by decide, fun q hq hmarker => ?_⟩ .nil
  exact Option.some.inj ((utf16Span_iff.mpr ⟨hq, hmarker⟩).symm.trans hunits)

/-- A draft is rendered as it was written. -/
def AsWritten (cj : Cjson) (images : Images) (d : SticonDb) (id text : String)
    (sticons : List Sticon) : Prop :=
  InOrder (markers sticons) (utf8 text) →
    cj.ReadsBack (buildReplaceSticonObj (buildFrom 0 (utf8 text) sticons)) →
    Stored cj d id (buildReplaceSticonObj (buildFrom 0 (utf8 text) sticons)) →
    RendersOwn cj images d id (utf8 text) sticons

/-- Six bytes before `(a)` are as many units as the text before `(b)`. -/
theorem other_marker_rendered : ¬ ∀ cj images d id text sticons,
    AsWritten cj images d id text sticons := by
  intro h
  have hown := h (sentJson "ééé(a)(b)") images (sentDb "ééé(a)(b)") "m1" "ééé(a)(b)" oneSticon
    ⟨[195, 169, 195, 169, 195, 169], [40, 98, 41], by decide +kernel, trivial⟩
    (sentJson_readsBack _) (stored_sentDb (by decide +kernel))
  rw [RendersOwn] at hown
  have hfound : (renderedResources (sentJson "ééé(a)(b)") images "m1" (sentDb "ééé(a)(b)")).map
      (resourceSpan (utf8 "ééé(a)(b)")) = [some (9, 12)] := by decide +kernel
  have hplaces : places 0 (utf8 "ééé(a)(b)") (markers oneSticon) = [(6, 9)] := by decide +kernel
  rw [hfound, hplaces] at hown
  simp at hown

end Enil.Html
