import Enil.Lib.Search
import Enil.Line.Send

/-!
# The sticons of a draft

`enil_line_build_sticon_resources`: one scan over the bytes of the text, each sticon taken
where its marker stands first behind the one before. A marker that is not there is put
behind the end of the text.
-/

namespace Enil

open Lib Lib.Search

def dollar : UInt8 := 36
def openParen : UInt8 := 40
def closeParen : UInt8 := 41

/-- One place of the parallel arrays; the ids are those of a package and a sticon in it. -/
structure Sticon where
  packageId : String
  sticonId : String
  altText : Option (List UInt8) := none
  resourceType : Option String := none
  version : Option String := none
  deriving DecidableEq

/-- `(alt)`, or `$` for a sticon without one. -/
def Sticon.marker (x : Sticon) : List UInt8 :=
  match x.altText with
  | some (b :: alt) => openParen :: b :: alt ++ [closeParen]
  | _ => [dollar]

/-- The loop of enil_line_build_sticon_resources, `rest` being the text from `off` on. -/
def buildFrom (off : Nat) (rest : List UInt8) : List Sticon → List SticonResource
  | [] => []
  | x :: xs =>
    let start := toCInt (off + skip x.marker rest : Nat)
    { packageId := x.packageId
      sticonId := x.sticonId
      startOffset := start
      endOffset := toCInt (start + toCInt x.marker.length)
      version := x.version.getD ""
      resourceType := x.resourceType.getD "STATIC" } ::
      if skip x.marker rest < rest.length then
        buildFrom (off + skip x.marker rest + x.marker.length)
          (rest.drop (skip x.marker rest + x.marker.length)) xs
      else buildFrom (off + skip x.marker rest) [] xs

/-- enil_line_build_sticon_resources; no text is NULL. -/
def buildSticonResources (text : Option (List UInt8)) (sticons : List Sticon) :
    Option (List SticonResource) :=
  match text with
  | none => none
  | some t => if sticons.isEmpty then none else some (buildFrom 0 t sticons)

def markers (sticons : List Sticon) : List (List UInt8) := sticons.map Sticon.marker

theorem marker_ne_nil (x : Sticon) : x.marker ≠ [] := by
  unfold Sticon.marker
  split <;> simp

theorem markers_ne_nil (sticons : List Sticon) : ∀ m ∈ markers sticons, m ≠ [] := by
  intro m hm
  obtain ⟨x, -, rfl⟩ := List.mem_map.mp hm
  exact marker_ne_nil x

/-! ## Where the resources are -/

/-- What a resource says of the text. -/
def SticonResource.span (r : SticonResource) : Int × Int := (r.startOffset, r.endOffset)

theorem buildFrom_spans (off : Nat) (t : List UInt8) (sticons : List Sticon) :
    (buildFrom off t sticons).map SticonResource.span =
      (places off t (markers sticons)).map fun p => (toCInt p.1, toCInt p.2) := by
  induction sticons generalizing off t with
  | nil => rfl
  | cons x xs ih =>
    have hend : toCInt (toCInt (off + skip x.marker t : Nat) + toCInt x.marker.length) =
        toCInt (off + skip x.marker t + x.marker.length : Nat) := by
      rw [toCInt_add]
      push_cast
      rfl
    unfold buildFrom
    rw [markers, List.map_cons, List.map_cons, places, List.map_cons]
    refine congrArg₂ List.cons (by simp only [SticonResource.span, hend]) ?_
    split
    · exact ih _ _
    · exact ih _ _

structure Marks (t m : List UInt8) (s : Int × Int) : Prop where
  start : 0 ≤ s.1
  lt : s.1 < s.2
  le : s.2 ≤ t.length
  marker : (t.drop s.1.toNat).take (s.2 - s.1).toNat = m

theorem marks_iff {t m : List UInt8} {p : Nat × Nat} : Marks t m (p.1, p.2) ↔ Occupies t m p := by
  have htake : ((p.2 : Int) - p.1).toNat = p.2 - p.1 := by omega
  constructor
  · rintro ⟨-, hlt, hle, hm⟩
    rw [htake] at hm
    exact ⟨by simpa using hlt, by simpa using hle, hm⟩
  · rintro ⟨hlt, hle, hm⟩
    exact ⟨by simp, by simpa using hlt, by simpa using hle, by rw [htake]; exact hm⟩

/-- The resources mark their sticons in the text, each behind the one before. -/
def MarkInOrder (t : List UInt8) (sticons : List Sticon) (res : List SticonResource) : Prop :=
  List.Forall₂ (fun x r => Marks t (Sticon.marker x) r.span) sticons res ∧
    res.Pairwise fun r r' => r.endOffset ≤ r'.startOffset

/-- What a call is to return: resources that mark their sticons, or a failure where the
markers do not occur one after the other. -/
structure BuildsRight (text : Option (List UInt8)) (sticons : List Sticon) : Prop where
  marks : ∀ t ∈ text, ∀ res ∈ buildSticonResources text sticons, MarkInOrder t sticons res
  fails : ∀ t ∈ text, ¬ InOrder (markers sticons) t → buildSticonResources text sticons = none

theorem markInOrder_iff {t : List UInt8} {sticons : List Sticon} {res : List SticonResource}
    {ps : List (Nat × Nat)} (h : res.map SticonResource.span = ps.map fun p => (↑p.1, ↑p.2)) :
    MarkInOrder t sticons res ↔
      List.Forall₂ (Occupies t) (markers sticons) ps ∧ ps.Pairwise fun p q => p.2 ≤ q.1 := by
  have hmarks : List.Forall₂ (fun x r => Marks t (Sticon.marker x) r.span) sticons res ↔
      List.Forall₂ (Occupies t) (markers sticons) ps := by
    have hmap : List.Forall₂ (fun x r => Marks t (Sticon.marker x) r.span) sticons res ↔
        List.Forall₂ (Marks t) (markers sticons) (res.map SticonResource.span) := by
      rw [markers, List.forall₂_map_left_iff, List.forall₂_map_right_iff]
    rw [hmap, h, List.forall₂_map_right_iff]
    simp only [marks_iff]
  have hord : (res.Pairwise fun r r' => r.endOffset ≤ r'.startOffset) ↔
      ps.Pairwise fun p q => p.2 ≤ q.1 := by
    have hmap : (res.Pairwise fun r r' => r.endOffset ≤ r'.startOffset) ↔
        (res.map SticonResource.span).Pairwise fun s s' => s.2 ≤ s'.1 := by
      rw [List.pairwise_map]
      rfl
    rw [hmap, h, List.pairwise_map]
    simp only [Nat.cast_le]
  unfold MarkInOrder
  rw [hmarks, hord]

/-- Spans that mark something are natural numbers. -/
theorem spans_of_marks {t : List UInt8} {sticons : List Sticon} {res : List SticonResource}
    (h : MarkInOrder t sticons res) : res.map SticonResource.span =
      (res.map fun r => (r.startOffset.toNat, r.endOffset.toNat)).map fun p => (↑p.1, ↑p.2) := by
  rw [List.map_map]
  apply List.map_congr_left
  intro r hr
  obtain ⟨x, -, hx⟩ := exists_of_forall₂ h.1 hr
  have hstart := hx.start
  have hlt := hx.lt
  simp only [SticonResource.span] at hstart hlt
  simp only [SticonResource.span, Function.comp_apply, Prod.mk.injEq]
  omega

theorem endOffset_le {off : Nat} {t : List UInt8} {sticons : List Sticon} {r : SticonResource}
    (h : r ∈ buildFrom off t sticons) : r.endOffset ≤ intMax := by
  have hspan : r.span ∈ (places off t (markers sticons)).map fun p => (toCInt p.1, toCInt p.2) :=
    buildFrom_spans off t sticons ▸ List.mem_map_of_mem h
  obtain ⟨p, -, hp⟩ := List.mem_map.mp hspan
  simp only [SticonResource.span, Prod.mk.injEq] at hp
  rw [← hp.2]
  exact (toCInt_mem _).2

/-- The markers are found, and their offsets are `int`s, exactly where they occur in order
in the first 2^31 - 1 bytes. -/
theorem markInOrder_buildFrom {t : List UInt8} {sticons : List Sticon} :
    MarkInOrder t sticons (buildFrom 0 t sticons) ↔
      InOrder (markers sticons) (t.take intMax) := by
  constructor
  · intro h
    have hspans := spans_of_marks h
    obtain ⟨hocc, hord⟩ := (markInOrder_iff hspans).mp h
    have hplaced : Placed t 0 intMax (markers sticons) _ := ⟨hocc, hord, fun p hp => by
      obtain ⟨r, hr, rfl⟩ := List.mem_map.mp hp
      have := endOffset_le hr
      exact ⟨Nat.zero_le _, by simp only; omega⟩⟩
    exact inOrder_of_placed hplaced
  · intro h
    have hplaced : Placed t 0 intMax (markers sticons) (places 0 t (markers sticons)) := by
      simpa using placed_places (markers_ne_nil sticons) (a := []) h
    have hcast : (buildFrom 0 t sticons).map SticonResource.span =
        (places 0 t (markers sticons)).map fun p => (↑p.1, ↑p.2) := by
      rw [buildFrom_spans]
      apply List.map_congr_left
      intro p hp
      have hle := (hplaced.within p hp).2
      have hlt := hplaced.lt hp
      rw [toCInt_of_le (by omega), toCInt_of_le (by omega)]
    exact (markInOrder_iff hcast).mpr ⟨hplaced.occupies, hplaced.ordered⟩

theorem buildsRight_iff (text : Option (List UInt8)) (sticons : List Sticon) :
    BuildsRight text sticons ↔
      ∀ t ∈ text, InOrder (markers sticons) (t.take intMax) := by
  constructor
  · intro h t ht
    rw [Option.mem_def] at ht
    rw [← markInOrder_buildFrom]
    cases hs : sticons.isEmpty with
    | true =>
      rw [List.isEmpty_iff.mp hs]
      exact ⟨.nil, .nil⟩
    | false =>
      refine h.marks t ht _ ?_
      rw [ht]
      simp [buildSticonResources, hs]
  · intro h
    refine ⟨fun t ht res hres => ?_, fun t ht hnone => ?_⟩
    · have hin := h t ht
      rw [Option.mem_def] at ht
      rw [ht] at hres
      cases hs : sticons.isEmpty with
      | true => simp [buildSticonResources, hs] at hres
      | false =>
        simp only [buildSticonResources, hs, Bool.false_eq_true, if_false, Option.mem_def,
          Option.some.injEq] at hres
        rw [← hres]
        exact markInOrder_buildFrom.mpr hin
    · refine absurd ?_ hnone
      have happend := (h t ht).append (t.drop intMax)
      rwa [List.take_append_drop] at happend

/-- The text `hi`, and a sticon whose marker is not in it. -/
theorem marker_behind_end : ¬ BuildsRight (some [104, 105]) [⟨"p", "s", none, none, none⟩] := by
  intro h
  obtain ⟨hmarks, -⟩ := h.marks [104, 105] rfl
    [{ packageId := "p", sticonId := "s", startOffset := 2, endOffset := 3, resourceType := "STATIC" }]
    (by decide)
  cases hmarks with
  | cons hx _ => exact absurd hx.le (by decide)

end Enil
