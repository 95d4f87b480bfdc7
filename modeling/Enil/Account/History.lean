import Enil.Db.Schema
import Enil.Lib.CType
import Enil.Lib.Pages

/-!
# Reading back the history of a chat

The chat view asks for the newest page of a chat and then, while there are more, for the
page before the time of the oldest message it has. The time is all the cursor there is,
and 0 asks for the newest page.
-/

namespace Enil

open Lib

abbrev StoredMessage := String × MessageRow

/-- The rows of `messages_v2`; the id is their key. -/
structure MessageTable where
  rows : List StoredMessage
  ids : (rows.map Prod.fst).Nodup

def createdAt (m : StoredMessage) : Int := m.2.createdTime

def MessageTable.chat (t : MessageTable) (chatId : String) : List StoredMessage :=
  t.rows.filter (·.2.chatId = chatId)

structure MessagePage where
  rows : List StoredMessage := []
  hasMore : Bool := false
  oldest : Int := 0

section

variable (o : Descending createdAt) (t : MessageTable) (chatId : String)

/-- enil_db_message_rows_get_page: kSQL_GetNewestMessagesPage or, for a cursor, the older
ones, as SQLite orders those of one time. Where `limit + 1` overflows, the rows cannot be
allocated. -/
def messageRowsGetPage (before limit : Int) : Option (List StoredMessage × Bool) :=
  if limit ≤ 0 ∨ intMax ≤ limit then none
  else
    let rows := if before = 0 then t.chat chatId
      else (t.chat chatId).filter (createdAt · < before)
    some (o.page rows limit.toNat)

/-- The page size where the caller gives none. -/
def pageSizeOr (pageSize : Int) : Int := if pageSize ≤ 0 then 40 else pageSize

/-- What a caller makes of a page; the result code is not looked at. -/
def messagePage (before : Int) (page : Option (List StoredMessage × Bool)) : MessagePage :=
  match page with
  | some (m :: rows, more) => { rows := m :: rows, hasMore := more, oldest := createdAt m }
  | _ => { oldest := before }

def accountChatPageHtml (pageSize : Int) : MessagePage :=
  if chatId = "" then {}
  else messagePage 0 (messageRowsGetPage o t chatId 0 (pageSizeOr pageSize))

def accountPrependMessagesJs (before pageSize : Int) : MessagePage :=
  if chatId = "" ∨ before ≤ 0 then { oldest := before }
  else messagePage before (messageRowsGetPage o t chatId before (pageSizeOr pageSize))

/-- The pages before `before`, while there are more; `none` where the fuel runs out. -/
def readOlder (pageSize : Int) : Nat → Int → Option (List StoredMessage)
  | 0, _ => none
  | fuel + 1, before =>
    let page := accountPrependMessagesJs o t chatId before pageSize
    if page.hasMore then (readOlder pageSize fuel page.oldest).map (· ++ page.rows)
    else some page.rows

/-- The newest page and all before it. -/
def readHistory (pageSize : Int) (fuel : Nat) : Option (List StoredMessage) :=
  let page := accountChatPageHtml o t chatId pageSize
  if page.hasMore then (readOlder o t chatId pageSize fuel page.oldest).map (· ++ page.rows)
  else some page.rows

/-- The pages end, and hold every message of the chat once, in the order of their times. -/
def HistoryComplete (pageSize : Int) : Prop :=
  ∃ fuel shown, readHistory o t chatId pageSize fuel = some shown ∧
    Descending.Complete createdAt (t.chat chatId) shown

def MessageTable.times : List Int := ((t.chat chatId).map createdAt).insertionSort (· ≥ ·)

def olderMessages (before : Int) : List StoredMessage :=
  (t.chat chatId).filter (createdAt · < before)

end

variable {o : Descending createdAt} {t : MessageTable} {chatId : String}

theorem times_eq : t.times chatId = (o.sort (t.chat chatId)).map createdAt := by
  have hsort : ((o.sort (t.chat chatId)).map createdAt).Pairwise (· ≥ ·) :=
    List.pairwise_map.mpr (o.sorted _)
  exact List.Perm.eq_of_pairwise' (List.pairwise_insertionSort _ _) hsort
    ((List.perm_insertionSort _ _).trans ((o.perm _).map _).symm)

/-- A usable cursor. -/
def positive (time : Int) : Bool := 0 < time

variable {size : Int}

theorem messageRowsGetPage_eq (hsize : 0 < size) (hmax : size < intMax) (before : Int) :
    messageRowsGetPage o t chatId before (pageSizeOr size) =
      some (o.page (if before = 0 then t.chat chatId else olderMessages t chatId before)
        size.toNat) := by
  have hsame : pageSizeOr size = size := if_neg (by omega)
  unfold messageRowsGetPage
  rw [hsame, if_neg (by omega)]
  rfl

theorem messagePage_last (before : Int) (shown : List StoredMessage) :
    (messagePage before (some (shown, false))).rows = shown ∧
      (messagePage before (some (shown, false))).hasMore = false := by
  cases shown <;> exact ⟨rfl, rfl⟩

theorem messagePage_more (before : Int) {shown : List StoredMessage} {m : StoredMessage}
    (h : shown.head? = some m) :
    messagePage before (some (shown, true)) =
      { rows := shown, hasMore := true, oldest := createdAt m } := by
  cases shown with
  | nil => cases h
  | cons m' shown => rw [← Option.some.inj h]; rfl

theorem olderMessages_older {before cursor : Int} (h : cursor ≤ before) :
    (olderMessages t chatId before).filter (createdAt · < cursor) =
      olderMessages t chatId cursor := by
  unfold olderMessages
  rw [List.filter_filter]
  refine List.filter_congr fun m _ => ?_
  rw [← Bool.decide_and, decide_eq_decide]
  omega

/-- Without a usable cursor nothing is read. -/
theorem readOlder_of_nonpos {fuel : Nat} {before : Int} (h : before ≤ 0) :
    readOlder o t chatId size (fuel + 1) before = some [] := by
  have hguard : accountPrependMessagesJs o t chatId before size = { oldest := before } :=
    if_pos (.inr h)
  rw [readOlder, hguard]
  rfl

/-- Reading the older pages is reading back by the cursor. -/
theorem readOlder_eq (hchat : chatId ≠ "") (hsize : 0 < size) (hmax : size < intMax) {fuel : Nat}
    {before : Int} (hpos : 0 < before) {shown : List StoredMessage}
    (h : o.readBack positive size.toNat fuel (olderMessages t chatId before) = some shown) :
    readOlder o t chatId size (fuel + 1) before = some shown := by
  have hlimit : 0 < size.toNat := by omega
  induction fuel generalizing before shown with
  | zero => cases h
  | succ fuel ih =>
    have hguard : accountPrependMessagesJs o t chatId before size =
        messagePage before (some (o.page (olderMessages t chatId before) size.toNat)) := by
      unfold accountPrependMessagesJs
      rw [if_neg (not_or.mpr ⟨hchat, by omega⟩), messageRowsGetPage_eq hsize hmax,
        if_neg (by omega : before ≠ 0)]
    rw [readOlder, hguard]
    rcases o.page_cases hlimit (olderMessages t chatId before) with
      ⟨-, hpage⟩ | ⟨m, -, hm, -, hpage, hhead⟩
    · rw [o.readBack_last hpage] at h
      obtain rfl := Option.some.inj h
      obtain ⟨hrows, hmore⟩ := messagePage_last before (o.sort (olderMessages t chatId before)).reverse
      rw [hpage, if_neg (by rw [hmore]; simp), hrows]
    · rw [o.readBack_more hpage hhead] at h
      rw [hpage, messagePage_more before hhead, if_pos rfl]
      split at h
      · rename_i huse
        obtain ⟨older, holder, rfl⟩ := Option.map_eq_some_iff.mp h
        have hmem : m ∈ olderMessages t chatId before :=
          (o.perm _).subset (List.mem_of_getElem? hm)
        have hlt : createdAt m < before := of_decide_eq_true (List.mem_filter.mp hmem).2
        rw [olderMessages_older (by omega)] at holder
        rw [ih (of_decide_eq_true huse) holder]
        rfl
      · rename_i huse
        obtain rfl := Option.some.inj h
        have hle : createdAt m ≤ 0 := by
          by_contra hgt
          exact huse (decide_eq_true (by omega))
        rw [readOlder_of_nonpos hle]
        rfl

/-- Reading the history is reading the messages back by the cursor. -/
theorem readHistory_eq (hchat : chatId ≠ "") (hsize : 0 < size) (hmax : size < intMax)
    {fuel : Nat} {shown : List StoredMessage}
    (h : o.readBack positive size.toNat fuel (t.chat chatId) = some shown) :
    readHistory o t chatId size fuel = some shown := by
  have hlimit : 0 < size.toNat := by omega
  cases fuel with
  | zero => cases h
  | succ fuel =>
    have hguard : accountChatPageHtml o t chatId size =
        messagePage 0 (some (o.page (t.chat chatId) size.toNat)) := by
      unfold accountChatPageHtml
      rw [if_neg hchat, messageRowsGetPage_eq hsize hmax, if_pos rfl]
    unfold readHistory
    rw [hguard]
    rcases o.page_cases hlimit (t.chat chatId) with
      ⟨-, hpage⟩ | ⟨m, -, hm, -, hpage, hhead⟩
    · rw [o.readBack_last hpage] at h
      obtain rfl := Option.some.inj h
      obtain ⟨hrows, hmore⟩ := messagePage_last 0 (o.sort (t.chat chatId)).reverse
      rw [hpage, if_neg (by rw [hmore]; simp), hrows]
    · rw [o.readBack_more hpage hhead] at h
      rw [hpage, messagePage_more 0 hhead, if_pos rfl]
      split at h
      · rename_i huse
        obtain ⟨older, holder, rfl⟩ := Option.map_eq_some_iff.mp h
        rw [readOlder_eq hchat hsize hmax (of_decide_eq_true huse) holder]
        rfl
      · rename_i huse
        obtain rfl := Option.some.inj h
        have hle : createdAt m ≤ 0 := by
          by_contra hgt
          exact huse (decide_eq_true (by omega))
        rw [readOlder_of_nonpos hle]
        rfl

/-- A page that cannot be allocated shows nothing. -/
theorem readHistory_overflow (hmax : intMax ≤ size) (fuel : Nat) :
    readHistory o t chatId size fuel = some [] := by
  have hguard : accountChatPageHtml o t chatId size = {} := by
    unfold accountChatPageHtml
    split
    · rfl
    · have hsame : pageSizeOr size = size := if_neg (by unfold intMax at hmax; omega)
      unfold messageRowsGetPage
      rw [hsame, if_pos (.inr hmax)]
      rfl
  unfold readHistory
  rw [hguard]
  rfl

theorem readOlder_succ {fuel : Nat} {before : Int} {shown : List StoredMessage}
    (h : readOlder o t chatId size fuel before = some shown) :
    readOlder o t chatId size (fuel + 1) before = some shown := by
  induction fuel generalizing before shown with
  | zero => cases h
  | succ fuel ih =>
    rw [readOlder] at h ⊢
    split at h
    · rename_i hmore
      obtain ⟨older, holder, rfl⟩ := Option.map_eq_some_iff.mp h
      rw [if_pos hmore, ih holder]
      rfl
    · rename_i hmore
      rw [if_neg hmore]
      exact h

/-- More fuel reads the same. -/
theorem readHistory_mono {fuel fuel' : Nat} (hle : fuel ≤ fuel') {shown : List StoredMessage}
    (h : readHistory o t chatId size fuel = some shown) :
    readHistory o t chatId size fuel' = some shown := by
  induction hle with
  | refl => exact h
  | step _ ih =>
    unfold readHistory at ih ⊢
    dsimp only at ih ⊢
    split at ih
    · rename_i hmore
      obtain ⟨older, holder, rfl⟩ := Option.map_eq_some_iff.mp ih
      rw [if_pos hmore, readOlder_succ holder]
      rfl
    · rename_i hmore
      rw [if_neg hmore]
      exact ih

theorem readHistory_unique {fuel fuel' : Nat} {shown shown' : List StoredMessage}
    (h : readHistory o t chatId size fuel = some shown)
    (h' : readHistory o t chatId size fuel' = some shown') : shown = shown' := by
  have hleft := readHistory_mono (Nat.le_max_left fuel fuel') h
  have hright := readHistory_mono (Nat.le_max_right fuel fuel') h'
  exact Option.some.inj (hleft.symm.trans hright)

/-- The history is complete exactly where no page ends between messages of one time or at
a time that is not positive, and the pages can be allocated. -/
theorem history_complete (o : Descending createdAt) (t : MessageTable) {chatId : String}
    (hchat : chatId ≠ "") {size : Int} (hsize : 1 ≤ size) :
    HistoryComplete o t chatId size ↔
      (t.chat chatId = [] ∨ size < intMax) ∧
        Descending.Clean positive size.toNat (t.times chatId) := by
  have hpos : 0 < size := by omega
  have hlimit : 0 < size.toNat := by omega
  by_cases hmax : size < intMax
  · have hends : (o.readBack positive size.toNat ((t.chat chatId).length + 1)
        (t.chat chatId)).isSome := o.readBack_isSome hlimit (Nat.lt_succ_self _)
    obtain ⟨shown, hread⟩ := Option.isSome_iff_exists.mp hends
    have hhistory := readHistory_eq hchat hpos hmax hread
    rw [times_eq (o := o), ← o.complete_iff_clean hlimit hread]
    constructor
    · rintro ⟨fuel, shown', hread', hcomplete⟩
      rw [readHistory_unique hhistory hread']
      exact ⟨.inr hmax, hcomplete⟩
    · rintro ⟨-, hcomplete⟩
      exact ⟨_, shown, hhistory, hcomplete⟩
  · have hover (fuel : Nat) : readHistory o t chatId size fuel = some [] :=
      readHistory_overflow (by omega) fuel
    constructor
    · rintro ⟨fuel, shown, hread, hcomplete⟩
      rw [hover fuel, Option.some.injEq] at hread
      subst hread
      have hnil : t.chat chatId = [] := List.nil_perm.mp hcomplete.1
      refine ⟨.inl hnil, Descending.clean_of_length_le ?_⟩
      rw [MessageTable.times, hnil]
      exact Nat.zero_le _
    · rintro ⟨hfits, -⟩
      refine ⟨0, [], hover 0, ?_⟩
      rw [hfits.resolve_right hmax]
      exact ⟨.refl _, .nil⟩

def twoMessages (time time' : Int) : MessageTable where
  rows := [("m1", { chatId := "u1", createdTime := time }),
    ("m2", { chatId := "u1", createdTime := time' })]
  ids := by
    show ["m1", "m2"].Nodup
    decide

theorem history_complete_two :
    HistoryComplete (.stable createdAt) (twoMessages 4 5) "u1" 1 := by
  refine (history_complete (.stable createdAt) (twoMessages 4 5) (by decide) (by decide)).mpr
    ⟨.inr (by decide), ?_⟩
  have htimes : (twoMessages 4 5).times "u1" = [5, 4] := by decide
  rw [htimes]
  refine (Descending.clean_iff (by decide) rfl rfl).mpr ⟨⟨by decide, by decide⟩, ?_⟩
  exact Descending.clean_of_length_le (by decide)

/-- Of two messages of one time on pages of one message, the second is not reached. -/
theorem history_lost : ¬ HistoryComplete (.stable createdAt) (twoMessages 5 5) "u1" 1 := by
  rintro ⟨fuel, shown, hread, hcomplete⟩
  have hlen : shown.length = 2 := hcomplete.1.length_eq
  have hpage : (readHistory (.stable createdAt) (twoMessages 5 5) "u1" 1 fuel).all
      (·.length == 1) = true := by
    match fuel with
    | 0 => decide
    | fuel + 1 => exact Eq.trans rfl (by decide :
        (readHistory (.stable createdAt) (twoMessages 5 5) "u1" 1 1).all (·.length == 1) = true)
  rw [hread] at hpage
  simp [hlen] at hpage

end Enil
