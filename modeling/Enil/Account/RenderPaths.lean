import Enil.Account.ReadMarkers
import Enil.Format.Bubble
import Enil.Format.TextHtml
import Enil.Line.Send

/-!
# The bubbles of a message

A message gets its bubble when the chat page is made, when a page of older messages is put
before it, and when the event stream appends it. Each of the three fills an `HtmlMessage` of
its own, the last from a query of its own. They agree where the older page and the event
leave nothing out (`RendersAlike`).
-/

namespace Enil

open Html Lib

/-- The first row of a query for the image of a sticker. -/
structure StickerImage where
  imagePath : Option String
  imageWidth : Int
  imageHeight : Int

/-- The rows that bubbles are made from; `enil_db_message_upsert` stores no message without
an id. -/
structure RenderTables where
  messages : MessageTable
  messages_named : ∀ m ∈ messages.rows, m.1 ≠ ""
  contacts : Table String TalkContact
  /-- enil_db_get_message_sticons. -/
  sticons : String → List Json
  /-- kSQL_GetStickerImageInfoForPackage, by package and sticker. -/
  stickerForPackage : String → String → Option StickerImage
  /-- kSQL_GetStickerImageInfo. -/
  stickerById : String → Option StickerImage
  /-- The path of the database, empty where it has none. -/
  dbFile : List UInt8
  isFile : List UInt8 → Bool

def columnText (s : Option String) : List UInt8 := cString (s.getD "")

/-! ## Stickers and avatars -/

/-- What a lookup leaves in its arguments, and whether it found an image. -/
structure StickerInfo where
  path : List UInt8 := []
  width : Int := 0
  height : Int := 0
  found : Bool := false

/-- sticker_image_info, the path going into a buffer of 512 bytes. -/
def stickerImageInfo : Option StickerImage → StickerInfo
  | none => {}
  | some row =>
    { path := (row.imagePath.elim [] cString).take 511
      width := toCInt row.imageWidth
      height := toCInt row.imageHeight
      found := row.imagePath.isSome }

/-- message_row_t, as far as a bubble shows it. -/
structure PageRow where
  messageId : List UInt8
  senderName : List UInt8
  text : List UInt8
  textHtml : List UInt8
  mediaPath : List UInt8
  thumbPath : List UInt8
  stickerPath : List UInt8
  avatarPath : List UInt8
  reactions : List Json
  createdAt : Int
  contentType : Int
  isOutgoing : Bool
  isDeleted : Bool
  decryptStatus : DecryptStatus
  stickerWidth : Int
  stickerHeight : Int
  thumbWidth : Int
  thumbHeight : Int

/-- A message that could not be decrypted, or not yet. -/
def encryptedUnresolved (status : DecryptStatus) : Bool := status == .pending || status == .failed

/-- enil_account_html_message_from_row. -/
def htmlMessageFromRow (row : PageRow) (includeReactions : Bool) : HtmlMessage where
  messageId := row.messageId
  senderName := row.senderName
  text := row.text
  textHtml := row.textHtml
  mediaPath := row.mediaPath
  thumbPath := row.thumbPath
  stickerPath := row.stickerPath
  avatarPath := row.avatarPath
  reactions := if includeReactions then row.reactions else []
  createdAt := row.createdAt
  contentType := row.contentType
  isOutgoing := row.isOutgoing
  isDeleted := row.isDeleted
  encryptedUnresolved := encryptedUnresolved row.decryptStatus
  stickerWidth := row.stickerWidth
  stickerHeight := row.stickerHeight
  thumbWidth := row.thumbWidth
  thumbHeight := row.thumbHeight

def eventMessageId (root : Json) : Option String :=
  (nonemptyText ((root.getObjectItem "message").bind (·.stringItem "id"))).or
    (nonemptyText (root.stringItem "param3"))

/-- `is_out`; an empty mid is nobody's. -/
def isOut (myMid : Option String) (m : StoredMessage) : Bool :=
  m.2.fromMid.getD "" != "" && isOutgoing myMid m

/-- A time that has been a number of a JSON object. -/
def doubleTime (mach : Machinery) (time : Int) : Int :=
  let t := Json.truncate (Json.toDouble time)
  if Json.int64Min ≤ t ∧ t ≤ Json.int64Max then t else mach.otherLong

namespace RenderTables

variable (t : RenderTables) (mach : Machinery) (myMid : Option String)

def messageStickerImageInfo (stickerId packageId : String) : StickerInfo :=
  let inPackage := if stickerId ≠ "" ∧ packageId ≠ "" then
    stickerImageInfo (t.stickerForPackage packageId stickerId) else {}
  if inPackage.found ∨ stickerId = "" then inPackage
  else stickerImageInfo (t.stickerById stickerId)

/-- enil_db_avatar_relpath; an empty mid is NULL. -/
def avatarRelpath (fromMid : String) : List UInt8 :=
  let dir := ((t.dbFile.reverse.dropWhile (· ≠ 47)).drop 1).reverse
  let rel := (ascii "avatars/" ++ cString fromMid ++ ascii ".jpg").take 599
  if fromMid = "" ∨ dir = [] ∨ 1024 ≤ dir.length then []
  else if t.isFile ((dir ++ ascii "/" ++ rel).take 1699) then rel
  else []

def messageTextHtml (messageId : String) (text : List UInt8) : List UInt8 :=
  formatTextHtml mach.other (some text) (if messageId = "" then [] else t.sticons messageId)

/-- `sender_name`: the contact's name, or the mid where there is none. -/
def senderName (m : StoredMessage) : Option String :=
  ((m.2.fromMid.bind t.contacts).bind fun c => c.displayNameOverridden.or c.displayName).or
    m.2.fromMid

/-! ## The chat page and the page of older messages -/

def fillMessageRow (m : StoredMessage) : PageRow :=
  let text := columnText m.2.text
  let contentType := toCInt m.2.contentType
  let info := t.messageStickerImageInfo (m.2.stickerId.getD "") (m.2.stickerPkgId.getD "")
  let image : StickerInfo := if contentType = 7 ∧ info.found then info else {}
  let out := isOutgoing myMid m
  { messageId := cString m.1
    senderName := columnText (t.senderName m)
    text := text
    textHtml := t.messageTextHtml mach m.1 text
    mediaPath := columnText m.2.mediaPath
    thumbPath := columnText m.2.thumbPath
    stickerPath := image.path
    avatarPath := t.avatarRelpath (if out then "" else m.2.fromMid.getD "")
    reactions := m.2.reactionsJson
    createdAt := m.2.createdTime
    contentType := contentType
    isOutgoing := out
    isDeleted := m.2.isDeleted
    decryptStatus := m.2.decryptStatus
    stickerWidth := image.width
    stickerHeight := image.height
    thumbWidth := toCInt m.2.thumbWidth
    thumbHeight := toCInt m.2.thumbHeight }

/-- The bubble on the page of `enil_account_chat_page_html`. -/
def pageBubble (m : StoredMessage) : List UInt8 :=
  appendMessage mach (htmlMessageFromRow (t.fillMessageRow mach myMid m) true)

/-- The bubble on a page of `enil_account_prepend_messages_js`. -/
def prependBubble (m : StoredMessage) : List UInt8 :=
  appendMessage mach (htmlMessageFromRow (t.fillMessageRow mach myMid m) false)

/-- The bubbles that `enil_account_prepend_messages_js` puts before those of the page. -/
def prependedBubbles (o : Descending createdAt) (chatId : String) (before size : Int) :
    List (List UInt8) :=
  (accountPrependMessagesJs o t.messages chatId before size).rows.map
    (t.prependBubble mach myMid)

/-! ## The event stream -/

def getMessageById (messageId : String) : Option StoredMessage :=
  t.messages.rows.find? fun m => m.1 = messageId

/-- What `enil_sync_js_for_sse_message` makes of the row. -/
def sseHtmlMessage (m : StoredMessage) : HtmlMessage :=
  let text := columnText m.2.text
  let contentType := toCInt m.2.contentType
  let stickerId := m.2.stickerId.getD ""
  let image : StickerInfo := if contentType = 7 ∧ stickerId ≠ "" then
    t.messageStickerImageInfo stickerId (m.2.stickerPkgId.getD "") else {}
  let out := isOut myMid m
  { messageId := cString m.1
    senderName := columnText (t.senderName m)
    text := text
    textHtml := t.messageTextHtml mach m.1 text
    mediaPath := columnText m.2.mediaPath
    thumbPath := columnText m.2.thumbPath
    stickerPath := image.path
    avatarPath := t.avatarRelpath (if out then "" else m.2.fromMid.getD "")
    reactions := []
    createdAt := doubleTime mach m.2.createdTime
    contentType := contentType
    isOutgoing := out
    isDeleted := false
    encryptedUnresolved := encryptedUnresolved m.2.decryptStatus
    stickerWidth := image.width
    stickerHeight := image.height
    thumbWidth := toCInt m.2.thumbWidth
    thumbHeight := toCInt m.2.thumbHeight }

/-- The bubble that enil_sync_js_for_sse_message appends; the event is not that of a pending
send. -/
def jsForSseMessage (root : Json) : Option (List UInt8) :=
  ((eventMessageId root).bind t.getMessageById).map fun m =>
    appendMessage mach (t.sseHtmlMessage mach myMid m)

/-! ## Agreement -/

/-- The message has the bubble of the page on a page of older messages, and by every event that
is about it. -/
def RenderPathsAgree (m : StoredMessage) : Prop :=
  t.prependBubble mach myMid m = t.pageBubble mach myMid m ∧
    ∀ root, eventMessageId root = some m.1 →
      t.jsForSseMessage mach myMid root = some (t.pageBubble mach myMid m)

end RenderTables

/-- Nothing is shown of the message that a path leaves out: no reaction and no deletion, the
mid of the account is not empty where the sender's is, and its time is shown as that of the
double next to it. -/
structure RendersAlike (mach : Machinery) (myMid : Option String) (m : StoredMessage) : Prop where
  reactions : m.2.reactionsJson.any (isShown mach) = false
  deleted : m.2.isDeleted = false
  outgoing : myMid = some "" → m.2.fromMid.getD "" ≠ ""
  time : shownTime mach m.2.createdTime = shownTime mach (doubleTime mach m.2.createdTime)

/-! ## Where the paths agree -/

/-- Without an image there is no path. -/
def StickerInfo.NoneEmpty (i : StickerInfo) : Prop := i.found = false → i.path = []

theorem stickerImageInfo_noneEmpty (row : Option StickerImage) :
    (stickerImageInfo row).NoneEmpty := by
  intro h
  cases row with
  | none => rfl
  | some row =>
    obtain ⟨path, width, height⟩ := row
    cases path with
    | none => rfl
    | some path => cases h

/-- Up to 2^53 ms a time is its double. -/
theorem doubleTime_of_le (mach : Machinery) {time : Int} (h : time.natAbs ≤ 2 ^ 53) :
    doubleTime mach time = time := by
  have hmin : Json.int64Min = -9223372036854775808 := rfl
  have hmax : Json.int64Max = 9223372036854775807 := rfl
  have hpow : (2 : Nat) ^ 53 = 9007199254740992 := rfl
  unfold doubleTime
  rw [Json.toDouble_of_le h, Json.truncate_intCast]
  exact if_pos (by omega)

theorem isOut_eq_iff {myMid : Option String} {m : StoredMessage} :
    isOutgoing myMid m = isOut myMid m ↔ (myMid = some "" → m.2.fromMid.getD "" ≠ "") := by
  unfold isOut
  by_cases hfrom : m.2.fromMid.getD "" = ""
  · have hown : isOutgoing myMid m = true ↔ myMid = some "" := by
      unfold isOutgoing
      rw [hfrom, Option.any_eq_true]
      simp only [beq_iff_eq]
      constructor
      · rintro ⟨mid, rfl, rfl⟩
        rfl
      · intro hmid
        exact ⟨"", hmid, rfl⟩
    rw [hfrom, bne_self_eq_false, Bool.false_and, ← Bool.not_eq_true, hown]
    exact ⟨fun h hmid => absurd hmid h, fun h hmid => h hmid rfl⟩
  · rw [bne_iff_ne.mpr hfrom, Bool.true_and]
    exact ⟨fun _ _ => hfrom, fun _ => rfl⟩

namespace RenderTables

variable {t : RenderTables} {mach : Machinery} {myMid : Option String} {m : StoredMessage}

theorem messageStickerImageInfo_noneEmpty (stickerId packageId : String) :
    (t.messageStickerImageInfo stickerId packageId).NoneEmpty := by
  have hscoped : (if stickerId ≠ "" ∧ packageId ≠ "" then
      stickerImageInfo (t.stickerForPackage packageId stickerId)
      else {} : StickerInfo).NoneEmpty := by
    split
    · exact stickerImageInfo_noneEmpty _
    · exact fun _ => rfl
  unfold messageStickerImageInfo
  dsimp only
  generalize (if stickerId ≠ "" ∧ packageId ≠ "" then
    stickerImageInfo (t.stickerForPackage packageId stickerId) else {} : StickerInfo) = inPackage
    at hscoped ⊢
  split
  · exact hscoped
  · exact stickerImageInfo_noneEmpty _

/-- A page of older messages differs in nothing but the reactions. -/
theorem sameContent_prepend (t : RenderTables) (mach : Machinery) (myMid : Option String)
    (m : StoredMessage) :
    SameContent mach (htmlMessageFromRow (t.fillMessageRow mach myMid m) false)
      (htmlMessageFromRow (t.fillMessageRow mach myMid m) true) :=
  ⟨rfl, rfl, fun _ => rfl, rfl, rfl, rfl⟩

/-- The image of a sticker as the event has it and as the page has it. -/
theorem sameImage (t : RenderTables) (m : StoredMessage) :
    let info := t.messageStickerImageInfo (m.2.stickerId.getD "") (m.2.stickerPkgId.getD "")
    let sse : StickerInfo := if m.2.stickerId.getD "" ≠ "" then info else {}
    let page : StickerInfo := if info.found then info else {}
    sse.path = page.path ∧ (sse.path ≠ [] → sse.width = page.width ∧ sse.height = page.height) := by
  intro info sse page
  have hnone : info.NoneEmpty := t.messageStickerImageInfo_noneEmpty _ _
  cases hfound : info.found with
  | true =>
    have hid : m.2.stickerId.getD "" ≠ "" := by
      intro hid
      have hempty : info = {} := by
        show t.messageStickerImageInfo _ _ = _
        rw [hid]
        rfl
      rw [hempty] at hfound
      cases hfound
    have hsame : sse = page := (if_pos hid).trans (if_pos hfound).symm
    rw [hsame]
    exact ⟨rfl, fun _ => ⟨rfl, rfl⟩⟩
  | false =>
    have hpage : page.path = [] := by
      show (if info.found = true then info else {} : StickerInfo).path = []
      rw [hfound]
      rfl
    have hsse : sse.path = [] := by
      show (if m.2.stickerId.getD "" ≠ "" then info else {} : StickerInfo).path = []
      split
      · exact hnone hfound
      · rfl
    exact ⟨hsse.trans hpage.symm, fun hne => absurd hsse hne⟩

/-- The event finds the content that the page shows: the image of a sticker the same way, and
none leaves no path. -/
theorem sameContent_sse (t : RenderTables) (mach : Machinery) (myMid : Option String)
    (m : StoredMessage) :
    SameContent mach (t.sseHtmlMessage mach myMid m)
      (htmlMessageFromRow (t.fillMessageRow mach myMid m) true) where
  messageId := rfl
  senderName := rfl
  avatarPath hout := by
    have hout : isOut myMid m = isOutgoing myMid m := hout
    unfold sseHtmlMessage htmlMessageFromRow fillMessageRow
    simp only [hout]
  photo := rfl
  media := rfl
  content := by
    by_cases h7 : toCInt m.2.contentType = 7
    · have hsticker : sticker mach (t.sseHtmlMessage mach myMid m) = sticker mach
          (htmlMessageFromRow (t.fillMessageRow mach myMid m) true) := by
        unfold sseHtmlMessage htmlMessageFromRow fillMessageRow
        simp only [h7, true_and]
        exact sticker_congr (t.sameImage m).1 (t.sameImage m).2
      unfold content
      exact (if_pos h7).trans (hsticker.trans (if_pos h7).symm)
    · unfold sseHtmlMessage htmlMessageFromRow fillMessageRow content
      simp only [h7]
      rfl

theorem getMessageById_of_mem (hm : m ∈ t.messages.rows) : t.getMessageById m.1 = some m :=
  (find?_key_eq_some t.messages.ids).mpr ⟨hm, rfl⟩

/-- There is an event about every message. -/
theorem eventMessageId_param3 {id : String} (h : id ≠ "") :
    eventMessageId (.obj [("param3", .str id)]) = some id := by
  have hmessage : (Json.obj [("param3", .str id)]).getObjectItem "message" = none := by
    have hkey : Json.keyEq "param3" "message" = false := by decide
    simp [Json.getObjectItem, hkey]
  have hparam : (Json.obj [("param3", .str id)]).stringItem "param3" = some id := by
    have hkey : Json.keyEq "param3" "param3" = true := by decide
    simp [Json.stringItem, Json.getObjectItem, hkey, Json.getStringValue]
  have hid : nonemptyText (some id) = some id :=
    Option.filter_eq_some_iff.mpr ⟨rfl, by simpa using h⟩
  unfold eventMessageId
  rw [hmessage, hparam, hid]
  rfl

theorem prependBubble_eq_iff :
    t.prependBubble mach myMid m = t.pageBubble mach myMid m ↔
      m.2.reactionsJson.any (isShown mach) = false := by
  unfold prependBubble pageBubble
  rw [appendMessage_eq_iff (sameContent_prepend t mach myMid m), ← appendReactions_eq_nil]
  constructor
  · rintro ⟨-, -, -, hrs⟩
    exact hrs.symm
  · intro hrs
    exact ⟨rfl, rfl, rfl, hrs.symm⟩

/-- A page of older messages shows them as the chat page does exactly where none of them has a
reaction to show. -/
theorem prependedBubbles_eq_iff {o : Descending createdAt} {chatId : String} {before size : Int} :
    let rows := (accountPrependMessagesJs o t.messages chatId before size).rows
    t.prependedBubbles mach myMid o chatId before size = rows.map (t.pageBubble mach myMid) ↔
      ∀ m ∈ rows, m.2.reactionsJson.any (isShown mach) = false := by
  intro rows
  unfold prependedBubbles
  rw [List.map_inj_left]
  exact forall_congr' fun m => imp_congr_right fun _ => prependBubble_eq_iff

theorem sseBubble_eq_iff :
    appendMessage mach (t.sseHtmlMessage mach myMid m) = t.pageBubble mach myMid m ↔
      RendersAlike mach myMid m := by
  unfold pageBubble
  rw [appendMessage_eq_iff (sameContent_sse t mach myMid m)]
  constructor
  · rintro ⟨hout, hdel, htime, hrs⟩
    exact ⟨appendReactions_eq_nil.mp hrs.symm, hdel.symm, isOut_eq_iff.mp hout.symm, htime.symm⟩
  · rintro ⟨hrs, hdel, hout, htime⟩
    have hnone : appendReactions mach m.2.reactionsJson = [] := appendReactions_eq_nil.mpr hrs
    exact ⟨(isOut_eq_iff.mpr hout).symm, hdel.symm, htime.symm, hnone.symm⟩

/-- The paths give a message one bubble exactly where none leaves anything of it out. -/
theorem renderPaths_agree_iff (hm : m ∈ t.messages.rows) :
    t.RenderPathsAgree mach myMid m ↔ RendersAlike mach myMid m := by
  unfold RenderPathsAgree
  rw [prependBubble_eq_iff]
  constructor
  · rintro ⟨-, hevent⟩
    have happend := hevent _ (eventMessageId_param3 (t.messages_named m hm))
    unfold jsForSseMessage at happend
    rw [eventMessageId_param3 (t.messages_named m hm), Option.bind_some, getMessageById_of_mem hm,
      Option.map_some, Option.some.injEq] at happend
    exact sseBubble_eq_iff.mp happend
  · intro h
    refine ⟨h.reactions, fun root hroot => ?_⟩
    unfold jsForSseMessage
    rw [hroot, Option.bind_some, getMessageById_of_mem hm, Option.map_some,
      sseBubble_eq_iff.mpr h]

def oneTime : Machinery where
  timeText _ := ascii "Nov 14, 2023, 22:13"
  stickerScaled n := (20 * n + 13) / 26
  other := -2147483648
  otherLong := -9223372036854775808

def oneBubble (row : MessageRow) : RenderTables where
  messages := ⟨[("m1", row)], by simp⟩
  messages_named := by simp
  contacts := fun _ => none
  sticons := fun _ => []
  stickerForPackage := fun _ _ => none
  stickerById := fun _ => none
  dbFile := []
  isFile := fun _ => false

/-- A message without reactions has one bubble. -/
theorem renderPaths_agree_plain :
    (oneBubble { chatId := "u1", createdTime := 1700000000000 }).RenderPathsAgree oneTime
      (some "me") ("m1", { chatId := "u1", createdTime := 1700000000000 }) :=
  (renderPaths_agree_iff List.mem_cons_self).mpr
    ⟨rfl, rfl, fun h => absurd h (by decide),
      congrArg _ (doubleTime_of_le oneTime (by decide)).symm⟩

/-- A page of older messages leaves a reaction out. -/
theorem reaction_left_out : ¬ ∀ (t : RenderTables) (mach : Machinery) (myMid : Option String)
    (m : StoredMessage), m ∈ t.messages.rows → t.RenderPathsAgree mach myMid m := by
  intro hall
  have hagree := hall (oneBubble { chatId := "u1", reactionsJson :=
    [.obj [("predefinedReactionType", .num 2)]] }) oneTime (some "me") _ List.mem_cons_self
  have hnone := prependBubble_eq_iff.mp hagree.1
  have hshown : isShown oneTime (.obj [("predefinedReactionType", .num 2)]) = true := by decide
  rw [List.any_cons, hshown] at hnone
  cases hnone

end RenderTables

end Enil
