import Enil.Lib.Loop
import Enil.Line.Talk
import Mathlib.Logic.Relation

/-!
# The pages of the message boxes

`talk_get_message_boxes` asks for one page after the other, each from the last id of the
page before. The server answers as a function of that id. The only progress the loop asks
for is that the id changes, so ids that lead back over more than one page keep it going.
-/

namespace Enil

open Lib Db

variable (cj : Cjson) (server : Option String → LineResponse)

/-- Between two pages: the id the next one starts from and the boxes so far. -/
structure BoxPaging where
  minChatId : Option String
  boxes : List TalkMessageBox

/-- The body of `while (has_next)`; it leaves with nothing where it fails. -/
def boxTurn (s : BoxPaging) : Turn BoxPaging (Option (List TalkMessageBox)) :=
  match boxPage cj (server s.minChatId) with
  | none => .leave none
  | some page =>
    if page.hasNext then
      match page.boxes.getLast?, page.lastId with
      | some last, some id =>
        if s.minChatId = some last.id then .leave none else .again ⟨some id, s.boxes ++ page.boxes⟩
      | _, _ => .leave none
    else .leave (some (s.boxes ++ page.boxes))

/-- talk_get_message_boxes with at most `fuel` requests. -/
def getMessageBoxes (fuel : Nat) : Option (Option (List TalkMessageBox)) :=
  loop (boxTurn cj server) fuel ⟨none, []⟩

/-! ## The chain of pages -/

/-- The page from `c` says that more follow, from `id` on. -/
def Continues (c : Option String) (id : String) : Prop :=
  ∃ page, boxPage cj (server c) = some page ∧ page.hasNext = true ∧ page.lastId = some id

/-- The page from `c` says that more follow and ends with the box `c`. -/
def Stalls (c : Option String) : Prop :=
  ∃ page last, boxPage cj (server c) = some page ∧ page.hasNext = true ∧
    page.boxes.getLast? = some last ∧ c = some last.id

/-- The pages from `c` on lead to the page from `d`. -/
def Leads (c d : Option String) : Prop :=
  Relation.ReflTransGen (fun c d => ∃ id, d = some id ∧ Continues cj server c id) c d

/-- The boxes of the pages from `c` on, up to one that says no more follow. -/
inductive Listed : Option String → List TalkMessageBox → Prop where
  | last {c : Option String} {page : BoxPage} (hpage : boxPage cj (server c) = some page)
      (hlast : page.hasNext = false) : Listed c page.boxes
  | more {c : Option String} {page : BoxPage} {id : String} {rest : List TalkMessageBox}
      (hpage : boxPage cj (server c) = some page) (hmore : page.hasNext = true)
      (hid : page.lastId = some id) (hrest : Listed (some id) rest) : Listed c (page.boxes ++ rest)

/-- Every page from `c` on says that more follow, and from where. -/
def Endless (c : Option String) : Prop := ∀ d, Leads cj server c d → ∃ id, Continues cj server d id

/-- The result asked for: the boxes of the pages where they end, nothing otherwise. -/
def IsListing (r : Option (List TalkMessageBox)) : Prop :=
  (∀ boxes, Listed cj server none boxes → r = some boxes) ∧
    ((¬∃ boxes, Listed cj server none boxes) → r = none)

variable {cj} {server}

theorem mapM_length {α β : Type} {f : α → Option β} {xs : List α} {ys : List β}
    (h : xs.mapM f = some ys) : ys.length = xs.length := by
  induction xs generalizing ys with
  | nil => cases h; rfl
  | cons x xs ih =>
    rw [List.mapM_cons] at h
    obtain ⟨y, -, h⟩ := Option.bind_eq_some_iff.mp h
    obtain ⟨ys', hys, h⟩ := Option.bind_eq_some_iff.mp h
    obtain rfl := Option.some.inj h
    rw [List.length_cons, List.length_cons, ih hys]

/-- A page with a last id has a last box. -/
theorem getLast?_of_lastId {r : LineResponse} {page : BoxPage} {id : String}
    (h : boxPage cj r = some page) (hid : page.lastId = some id) :
    ∃ last, page.boxes.getLast? = some last := by
  obtain ⟨data, -, h⟩ := Option.bind_eq_some_iff.mp h
  split at h
  · rename_i entries _
    obtain ⟨boxes, hboxes, h⟩ := Option.bind_eq_some_iff.mp h
    obtain rfl := Option.some.inj h
    obtain ⟨entry, hentry, -⟩ := Option.bind_eq_some_iff.mp hid
    have hlen := mapM_length hboxes
    have hne : boxes ≠ [] := by
      rintro rfl
      rw [List.length_nil] at hlen
      rw [List.eq_nil_of_length_eq_zero hlen.symm] at hentry
      cases hentry
    exact ⟨_, List.getLast?_eq_some_getLast hne⟩
  · cases h

variable (cj) (server) in
/-- What one request makes of the loop. -/
theorem boxTurn_cases (s : BoxPaging) :
    (∃ page, boxPage cj (server s.minChatId) = some page ∧ page.hasNext = false ∧
      boxTurn cj server s = .leave (some (s.boxes ++ page.boxes))) ∨
    (∃ page id, boxPage cj (server s.minChatId) = some page ∧ page.hasNext = true ∧
      page.lastId = some id ∧ ¬Stalls cj server s.minChatId ∧
      boxTurn cj server s = .again ⟨some id, s.boxes ++ page.boxes⟩) ∨
    (boxTurn cj server s = .leave none ∧
      (Stalls cj server s.minChatId ∨
        ((¬∃ id, Continues cj server s.minChatId id) ∧
          ∀ page, boxPage cj (server s.minChatId) = some page → page.hasNext = true))) := by
  unfold boxTurn
  cases hpage : boxPage cj (server s.minChatId) with
  | none =>
    refine .inr (.inr ⟨rfl, .inr ⟨?_, fun page h => by cases h⟩⟩)
    rintro ⟨id, page, h, -⟩
    rw [hpage] at h
    cases h
  | some page =>
    dsimp only
    cases hnext : page.hasNext with
    | false => exact .inl ⟨page, rfl, hnext, rfl⟩
    | true =>
      rw [if_pos rfl]
      cases hid : page.lastId with
      | none =>
        refine .inr (.inr ⟨by split <;> first | rfl | contradiction, .inr ⟨?_, ?_⟩⟩)
        · rintro ⟨id, page', h, -, hid'⟩
          rw [hpage, Option.some.injEq] at h
          rw [← h, hid] at hid'
          cases hid'
        · intro page' h
          rw [← Option.some.inj h]
          exact hnext
      | some id =>
        obtain ⟨last, hlast⟩ := getLast?_of_lastId hpage hid
        rw [hlast]
        dsimp only
        by_cases hstall : s.minChatId = some last.id
        · rw [if_pos hstall]
          exact .inr (.inr ⟨rfl, .inl ⟨page, last, hpage, hnext, hlast, hstall⟩⟩)
        · rw [if_neg hstall]
          refine .inr (.inl ⟨page, id, rfl, hnext, hid, ?_, rfl⟩)
          rintro ⟨page', last', h, -, hlast', heq⟩
          rw [hpage, Option.some.injEq] at h
          rw [← h, hlast, Option.some.injEq] at hlast'
          rw [← hlast'] at heq
          exact hstall heq

theorem Continues.unique {c : Option String} {i j : String} (hi : Continues cj server c i)
    (hj : Continues cj server c j) : i = j := by
  obtain ⟨page, hpage, -, hi⟩ := hi
  obtain ⟨page', hpage', -, hj⟩ := hj
  rw [hpage, Option.some.injEq] at hpage'
  rw [← hpage', hi, Option.some.injEq] at hj
  exact hj

/-- From a page the chain stays there or goes over the page that follows. -/
theorem leads_iff {c d : Option String} :
    Leads cj server c d ↔ c = d ∨ ∃ id, Continues cj server c id ∧ Leads cj server (some id) d := by
  constructor
  · intro h
    rcases Relation.ReflTransGen.cases_head h with rfl | ⟨_, ⟨id, rfl, hid⟩, hrest⟩
    · exact .inl rfl
    · exact .inr ⟨id, hid, hrest⟩
  · rintro (rfl | ⟨id, hid, hrest⟩)
    · exact .refl
    · exact .head ⟨id, rfl, hid⟩ hrest

/-! ## The loop against the chain -/

/-- What is returned is what the pages list, behind the boxes there were. -/
theorem listed_of_leaves {s : BoxPaging} {r : Option (List TalkMessageBox)}
    (h : Leaves (boxTurn cj server) s r) {out : List TalkMessageBox} (hr : r = some out) :
    ∃ rest, Listed cj server s.minChatId rest ∧ out = s.boxes ++ rest := by
  induction h with
  | @leave s r hturn =>
    rcases boxTurn_cases cj server s with
      ⟨page, hpage, hlast, heq⟩ | ⟨_, _, -, -, -, -, heq⟩ | ⟨heq, -⟩
    · rw [heq] at hturn
      cases hturn
      cases hr
      exact ⟨_, .last hpage hlast, rfl⟩
    · rw [heq] at hturn; cases hturn
    · rw [heq] at hturn; cases hturn; cases hr
  | @again s t r hturn _ ih =>
    rcases boxTurn_cases cj server s with
      ⟨_, -, -, heq⟩ | ⟨page, id, hpage, hnext, hid, -, heq⟩ | ⟨heq, -⟩
    · rw [heq] at hturn; cases hturn
    · rw [heq] at hturn
      cases hturn
      obtain ⟨rest, hrest, rfl⟩ := ih hr
      exact ⟨_, .more hpage hnext hid hrest, by rw [List.append_assoc]⟩
    · rw [heq] at hturn; cases hturn

/-- Where no page stalls, pages that end are returned. -/
theorem leaves_of_listed {c : Option String} {rest : List TalkMessageBox}
    (h : Listed cj server c rest) (hstall : ∀ d, Leads cj server c d → ¬Stalls cj server d)
    (bs : List TalkMessageBox) : Leaves (boxTurn cj server) ⟨c, bs⟩ (some (bs ++ rest)) := by
  induction h generalizing bs with
  | @last c page hpage hlast =>
    refine .leave ?_
    simp only [boxTurn, hpage, hlast, Bool.false_eq_true, ↓reduceIte]
  | @more c page id rest hpage hnext hid _ ih =>
    have hcont : Continues cj server c id := ⟨page, hpage, hnext, hid⟩
    rcases boxTurn_cases cj server ⟨c, bs⟩ with
      ⟨page', hpage', hlast', -⟩ | ⟨page', id', hpage', -, hid', -, heq⟩ | ⟨-, hs | ⟨hno, -⟩⟩
    · rw [show boxPage cj (server c) = some page' from hpage', Option.some.injEq] at hpage
      rw [← hpage, hlast'] at hnext
      cases hnext
    · rw [show boxPage cj (server c) = some page' from hpage', Option.some.injEq] at hpage
      subst hpage
      rw [hid, Option.some.injEq] at hid'
      subst hid'
      rw [← List.append_assoc]
      exact .again heq (ih (fun d hd => hstall d (leads_iff.mpr (.inr ⟨id, hcont, hd⟩))) _)
    · exact absurd hs (hstall c .refl)
    · exact absurd ⟨id, hcont⟩ hno

/-- Where a page of the chain stalls or is not followed by another, the loop leaves. -/
theorem leaves_of_halts {c d : Option String} (hlead : Leads cj server c d)
    (hd : Stalls cj server d ∨ ¬∃ id, Continues cj server d id) (bs : List TalkMessageBox) :
    ∃ r, Leaves (boxTurn cj server) ⟨c, bs⟩ r := by
  induction hlead using Relation.ReflTransGen.head_induction_on generalizing bs with
  | refl =>
    rcases boxTurn_cases cj server ⟨d, bs⟩ with
      ⟨_, -, -, heq⟩ | ⟨page, id, hpage, hnext, hid, hno, -⟩ | ⟨heq, -⟩
    · exact ⟨_, .leave heq⟩
    · rcases hd with hd | hd
      · exact absurd hd hno
      · exact absurd ⟨id, page, hpage, hnext, hid⟩ hd
    · exact ⟨_, .leave heq⟩
  | @head c e hstep _ ih =>
    obtain ⟨id, rfl, hid⟩ := hstep
    rcases boxTurn_cases cj server ⟨c, bs⟩ with
      ⟨_, -, -, heq⟩ | ⟨page, id', hpage, hnext, hid', -, heq⟩ | ⟨heq, -⟩
    · exact ⟨_, .leave heq⟩
    · obtain rfl := hid.unique ⟨page, hpage, hnext, hid'⟩
      obtain ⟨r, hr⟩ := ih _
      exact ⟨r, .again heq hr⟩
    · exact ⟨_, .leave heq⟩

/-- The loop leaves an endless chain only at a page that stalls. -/
theorem stalls_of_leaves {s : BoxPaging} {r : Option (List TalkMessageBox)}
    (h : Leaves (boxTurn cj server) s r) (hend : Endless cj server s.minChatId) :
    ∃ d, Leads cj server s.minChatId d ∧ Stalls cj server d := by
  induction h with
  | @leave s r hturn =>
    obtain ⟨id, hid⟩ := hend _ .refl
    rcases boxTurn_cases cj server s with
      ⟨page, hpage, hlast, -⟩ | ⟨_, _, -, -, -, -, heq⟩ | ⟨-, hs | ⟨hno, -⟩⟩
    · obtain ⟨page', hpage', hnext, -⟩ := hid
      rw [hpage, Option.some.injEq] at hpage'
      rw [← hpage', hlast] at hnext
      cases hnext
    · rw [heq] at hturn; cases hturn
    · exact ⟨_, .refl, hs⟩
    · exact absurd ⟨id, hid⟩ hno
  | @again s t r hturn _ ih =>
    rcases boxTurn_cases cj server s with
      ⟨_, -, -, heq⟩ | ⟨page, id, hpage, hnext, hid, -, heq⟩ | ⟨heq, -⟩
    · rw [heq] at hturn; cases hturn
    · rw [heq] at hturn
      cases hturn
      have hcont : Continues cj server s.minChatId id := ⟨page, hpage, hnext, hid⟩
      obtain ⟨d, hd, hs⟩ := ih fun d hd => hend d (leads_iff.mpr (.inr ⟨id, hcont, hd⟩))
      exact ⟨d, leads_iff.mpr (.inr ⟨id, hcont, hd⟩), hs⟩
    · rw [heq] at hturn; cases hturn

/-- No page before the end of a listing that is returned stalls. -/
theorem not_stalls_of_leaves {s : BoxPaging} {r : Option (List TalkMessageBox)}
    (h : Leaves (boxTurn cj server) s r) (hr : r.isSome = true) :
    ∀ d, Leads cj server s.minChatId d → ¬Stalls cj server d := by
  induction h with
  | @leave s r hturn =>
    rcases boxTurn_cases cj server s with
      ⟨page, hpage, hlast, -⟩ | ⟨_, _, -, -, -, -, heq⟩ | ⟨heq, -⟩
    · have hnot : ∀ page', boxPage cj (server s.minChatId) = some page' → page'.hasNext ≠ true := by
        intro page' hpage' hnext
        rw [hpage, Option.some.injEq] at hpage'
        rw [← hpage', hlast] at hnext
        cases hnext
      intro d hd
      rcases leads_iff.mp hd with rfl | ⟨id, ⟨page', hpage', hnext, -⟩, -⟩
      · rintro ⟨page', last, hpage', hnext, -⟩
        exact hnot page' hpage' hnext
      · exact absurd hnext (hnot page' hpage')
    · rw [heq] at hturn; cases hturn
    · rw [heq] at hturn; cases hturn; cases hr
  | @again s t r hturn _ ih =>
    rcases boxTurn_cases cj server s with
      ⟨_, -, -, heq⟩ | ⟨page, id, hpage, hnext, hid, hno, heq⟩ | ⟨heq, -⟩
    · rw [heq] at hturn; cases hturn
    · rw [heq] at hturn
      cases hturn
      intro d hd
      rcases leads_iff.mp hd with rfl | ⟨id', hid', hrest⟩
      · exact hno
      · obtain rfl := hid'.unique ⟨page, hpage, hnext, hid⟩
        exact ih hr d hrest
    · rw [heq] at hturn; cases hturn

theorem Listed.not_endless {c : Option String} {rest : List TalkMessageBox}
    (h : Listed cj server c rest) : ¬Endless cj server c := by
  induction h with
  | @last c page hpage hlast =>
    intro hend
    obtain ⟨id, page', hpage', hnext, -⟩ := hend c .refl
    rw [hpage, Option.some.injEq] at hpage'
    rw [← hpage', hlast] at hnext
    cases hnext
  | @more c page id rest hpage hnext hid _ ih =>
    intro hend
    exact ih fun d hd => hend d (leads_iff.mpr (.inr ⟨id, ⟨page, hpage, hnext, hid⟩, hd⟩))

/-- Paging ends with the listing exactly where no page stalls before the end of a listing,
and pages without an end come to one that stalls. -/
theorem getMessageBoxes_iff (cj : Cjson) (server : Option String → LineResponse) :
    (∃ fuel r, getMessageBoxes cj server fuel = some r ∧ IsListing cj server r) ↔
      ((∃ boxes, Listed cj server none boxes) →
        ∀ d, Leads cj server none d → ¬Stalls cj server d) ∧
      (Endless cj server none → ∃ d, Leads cj server none d ∧ Stalls cj server d) := by
  constructor
  · rintro ⟨fuel, r, hr, hlisting, -⟩
    have hleaves := leaves_of_loop hr
    refine ⟨?_, stalls_of_leaves hleaves⟩
    rintro ⟨boxes, hboxes⟩
    exact not_stalls_of_leaves hleaves (by rw [hlisting boxes hboxes]; rfl)
  · rintro ⟨hstall, hend⟩
    have hleaves : ∃ r, Leaves (boxTurn cj server) ⟨none, []⟩ r := by
      by_cases h : Endless cj server none
      · obtain ⟨d, hd, hs⟩ := hend h
        exact leaves_of_halts hd (.inl hs) []
      · simp only [Endless, not_forall] at h
        obtain ⟨d, hd, hno⟩ := h
        exact leaves_of_halts hd (.inr hno) []
    obtain ⟨r, hr⟩ := hleaves
    obtain ⟨fuel, hfuel⟩ := exists_loop_of_leaves hr
    refine ⟨fuel, r, hfuel, fun boxes hboxes => ?_, fun hno => ?_⟩
    · exact hr.unique (leaves_of_listed hboxes (hstall ⟨boxes, hboxes⟩) [])
    · cases r with
      | none => rfl
      | some out =>
        obtain ⟨rest, hrest, -⟩ := listed_of_leaves hr rfl
        exact absurd ⟨rest, hrest⟩ hno

/-! ## Ids that lead back -/

/-- A page of one box that says more follow. -/
def onePage (id : String) : Json :=
  okReply (.obj [("messageBoxes", .arr [.obj [("id", .str id)]]), ("hasNext", .bool true)])

def cycleJson : Cjson := textsOf [onePage "a", onePage "b"]

/-- Behind "a" comes "b", and behind "b" comes "a" again. -/
def cycleServer (c : Option String) : LineResponse where
  status := 200
  body := some (onePage (if c = some "a" then "b" else "a")).printUnformatted

/-- What a page is to the loop. -/
def pageHead (page : BoxPage) : Bool × Option String × Option String :=
  (page.hasNext, page.lastId, page.boxes.getLast?.map (·.id))

theorem cyclePage (c : Option String) :
    ∃ page, boxPage cycleJson (cycleServer c) = some page ∧
      pageHead page = (true, some (if c = some "a" then "b" else "a"),
        some (if c = some "a" then "b" else "a")) := by
  have hpages : ∀ id ∈ ["a", "b"], (boxPage cycleJson ⟨200, some (onePage id).printUnformatted⟩).map
      pageHead = some (true, some id, some id) := by decide
  have hid : (if c = some "a" then "b" else "a") ∈ ["a", "b"] := by split <;> simp
  exact Option.map_eq_some_iff.mp (hpages _ hid)

theorem cycle_continues {c : Option String} {id : String} (h : Continues cycleJson cycleServer c id) :
    id = if c = some "a" then "b" else "a" := by
  obtain ⟨page, hpage, hhead⟩ := cyclePage c
  obtain ⟨page', hpage', -, hid⟩ := h
  rw [hpage, Option.some.injEq] at hpage'
  rw [← hpage', show page.lastId = _ from congrArg (·.2.1) hhead, Option.some.injEq] at hid
  exact hid.symm

theorem cycle_turn (s : BoxPaging) : ∃ t, boxTurn cycleJson cycleServer s = .again t := by
  obtain ⟨page, hpage, hhead⟩ := cyclePage s.minChatId
  obtain ⟨last, hlast, hid⟩ := Option.map_eq_some_iff.mp (congrArg (·.2.2) hhead)
  rcases boxTurn_cases cycleJson cycleServer s with
    ⟨page', hpage', hno, -⟩ | ⟨_, _, -, -, -, -, heq⟩ | ⟨-, hstall | ⟨hno, -⟩⟩
  · rw [hpage, Option.some.injEq] at hpage'
    rw [← hpage', show page.hasNext = true from congrArg (·.1) hhead] at hno
    cases hno
  · exact ⟨_, heq⟩
  · obtain ⟨page', last', hpage', -, hlast', hc⟩ := hstall
    rw [hpage, Option.some.injEq] at hpage'
    rw [← hpage', hlast, Option.some.injEq] at hlast'
    rw [← hlast', hid] at hc
    by_cases ha : s.minChatId = some "a"
    · rw [if_pos ha, ha] at hc
      exact absurd hc (by decide)
    · rw [if_neg ha] at hc
      exact absurd hc ha
  · exact absurd ⟨_, page, hpage, congrArg (·.1) hhead, congrArg (·.2.1) hhead⟩ hno

/-- Two ids that lead to each other keep the loop asking for ever. -/
theorem cycle_never_ends :
    (∀ c, Leads cycleJson cycleServer none c → c ∈ [none, some "a", some "b"]) ∧
      ∀ fuel, getMessageBoxes cycleJson cycleServer fuel = none := by
  constructor
  · intro c hc
    induction hc with
    | refl => exact List.mem_cons_self
    | tail _ hstep _ =>
      obtain ⟨id, rfl, hid⟩ := hstep
      rw [cycle_continues hid]
      split <;> simp
  · intro fuel
    have hrun : ∀ s, loop (boxTurn cycleJson cycleServer) fuel s = none := by
      induction fuel with
      | zero => exact fun _ => rfl
      | succ n ih =>
        intro s
        obtain ⟨t, ht⟩ := cycle_turn s
        rw [loop, ht]
        exact ih t
    exact hrun _

end Enil
