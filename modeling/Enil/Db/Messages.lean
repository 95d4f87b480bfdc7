import Enil.Db.Schema
import Enil.Lib.Savepoint

/-!
# Message statements of `enil_db.c`

Each function is the sequence of statements the source runs, with the checks it
makes on the result codes. Statements on the sticker and sticon tables, whose
results the source ignores, are left out.
-/

namespace Enil

open Lib Lib.Sql

namespace Db

def onBoxes (stmt : Table String MessageBox → Nat × Table String MessageBox) (db : Db) : Nat × Db :=
  ((stmt db.messageBoxes).1, { db with messageBoxes := (stmt db.messageBoxes).2 })

def onMessages (stmt : Table String MessageRow → Nat × Table String MessageRow) (db : Db) :
    Nat × Db :=
  ((stmt db.messages).1, { db with messages := (stmt db.messages).2 })

def onReaders (stmt : Table (String × String) Int → Nat × Table (String × String) Int) (db : Db) :
    Nat × Db :=
  ((stmt db.messageBoxReaders).1, { db with messageBoxReaders := (stmt db.messageBoxReaders).2 })

def setRow (db : Db) (id : String) (r : MessageRow) : Db :=
  { db with messages := Function.update db.messages id (some r) }

def setBox (db : Db) (chat : String) (b : MessageBox) : Db :=
  { db with messageBoxes := Function.update db.messageBoxes chat (some b) }

theorem setRow_of_eq {db : Db} {id : String} {r : MessageRow} (h : db.messages id = some r) :
    db.setRow id r = db := by
  unfold setRow; rw [← h, Function.update_eq_self]

@[simp] theorem setRow_setRow (db : Db) (id : String) (r r' : MessageRow) :
    (db.setRow id r).setRow id r' = db.setRow id r' := by
  simp [setRow]

theorem setRow_messages_self (db : Db) (id : String) (r : MessageRow) :
    (db.setRow id r).messages id = some r := by
  simp [setRow]

theorem setRow_messages_of_ne (db : Db) {id id' : String} (r : MessageRow) (h : id' ≠ id) :
    (db.setRow id r).messages id' = db.messages id' := by
  simp [setRow, h]

theorem setBox_messageBoxes_self (db : Db) (chat : String) (b : MessageBox) :
    (db.setBox chat b).messageBoxes chat = some b := by
  simp [setBox]

theorem setBox_messageBoxes_of_ne (db : Db) {chat chat' : String} (b : MessageBox)
    (h : chat' ≠ chat) : (db.setBox chat b).messageBoxes chat' = db.messageBoxes chat' := by
  simp [setBox, h]

@[simp] theorem setRow_messageBoxes (db : Db) (id : String) (r : MessageRow) :
    (db.setRow id r).messageBoxes = db.messageBoxes := rfl
@[simp] theorem setRow_messageBoxReaders (db : Db) (id : String) (r : MessageRow) :
    (db.setRow id r).messageBoxReaders = db.messageBoxReaders := rfl
@[simp] theorem setBox_messages (db : Db) (chat : String) (b : MessageBox) :
    (db.setBox chat b).messages = db.messages := rfl
@[simp] theorem setBox_messageBoxReaders (db : Db) (chat : String) (b : MessageBox) :
    (db.setBox chat b).messageBoxReaders = db.messageBoxReaders := rfl

theorem onMessages_updateIf {db : Db} {id : String} {r : MessageRow}
    (h : db.messages id = some r) (p : MessageRow → Bool) (f : MessageRow → MessageRow) :
    db.onMessages (·.updateIf id p f) =
      (if p r then 1 else 0, db.setRow id (if p r then f r else r)) := by
  simp only [onMessages, Table.updateIf_of_some h, setRow]

theorem onMessages_update {db : Db} {id : String} {r : MessageRow} (h : db.messages id = some r)
    (f : MessageRow → MessageRow) : db.onMessages (·.update id f) = (1, db.setRow id (f r)) :=
  onMessages_updateIf h _ f

theorem onMessages_update_none {db : Db} {id : String} (h : db.messages id = none)
    (f : MessageRow → MessageRow) : db.onMessages (·.update id f) = (0, db) := by
  simp only [onMessages, Table.update_of_none h]

theorem onBoxes_updateIf_none {db : Db} {chat : String} (h : db.messageBoxes chat = none)
    (p : MessageBox → Bool) (f : MessageBox → MessageBox) :
    db.onBoxes (·.updateIf chat p f) = (0, db) := by
  simp only [onBoxes, Table.updateIf_of_none h]

theorem onBoxes_updateIf {db : Db} {chat : String} {b : MessageBox}
    (h : db.messageBoxes chat = some b) (p : MessageBox → Bool) (f : MessageBox → MessageBox) :
    db.onBoxes (·.updateIf chat p f) =
      (if p b then 1 else 0, db.setBox chat (if p b then f b else b)) := by
  simp only [onBoxes, Table.updateIf_of_some h, setBox]

theorem onBoxes_update_none {db : Db} {chat : String} (h : db.messageBoxes chat = none)
    (f : MessageBox → MessageBox) : db.onBoxes (·.update chat f) = (0, db) :=
  onBoxes_updateIf_none h _ f

theorem onBoxes_update {db : Db} {chat : String} {b : MessageBox}
    (h : db.messageBoxes chat = some b) (f : MessageBox → MessageBox) :
    db.onBoxes (·.update chat f) = (1, db.setBox chat (f b)) := onBoxes_updateIf h _ f

/-! ## Message boxes -/

structure TalkMessageBox where
  id : String
  midType : Int := 0
  lastDeliveredMessageId : Option String := none
  lastDeliveredTime : Int := 0
  lastSeenMessageId : Option String := none
  unreadCount : Int := 0
  raw : Option Json := none

def insertMessageBoxV2Row (id : String) : Db → Nat × Db := onBoxes (·.insertIgnore id {})

def updateMessageBoxV2 (mb : TalkMessageBox) : Db → Nat × Db :=
  onBoxes (·.update mb.id fun b => { b with
    midType := some mb.midType
    lastDeliveredMessageId := mb.lastDeliveredMessageId
    lastDeliveredTime := some mb.lastDeliveredTime
    lastSeenMessageId := mb.lastSeenMessageId.or b.lastSeenMessageId
    unreadCount := some mb.unreadCount
    rawJson := mb.raw })

def messageBoxUpsert (mb : TalkMessageBox) : Sql Db Rc := do
  let rc ← exec (insertMessageBoxV2Row mb.id)
  if rc ≠ .ok then return rc
  exec (updateMessageBoxV2 mb)

/-- The unread count of kSQL_UpdateMessageBoxV2LiveMessage: a message that is not
stored yet counts when incoming and clears the count when not. -/
def liveUnread (db : Db) (messageId : Option String) (incoming : Bool) (unread : Option Int) :
    Option Int :=
  if nonempty messageId && (messageId.bind db.messages).isNone then
    some (if incoming then unread.getD 0 + 1 else 0)
  else unread

def updateMessageBoxV2LiveMessage (chatMid : String) (midType : Int)
    (lastMessageId : Option String) (lastMessageTime : Int) (incoming : Bool)
    (messageId : Option String) (db : Db) : Nat × Db :=
  db.onBoxes (·.update chatMid fun b => { b with
    midType := some midType
    lastDeliveredMessageId := lastMessageId
    lastDeliveredTime := some lastMessageTime
    unreadCount := db.liveUnread messageId incoming b.unreadCount })

def messageBoxUpsertLiveMessage (chatMid : String) (midType : Int)
    (lastMessageId : Option String) (lastMessageTime : Int) (incoming : Bool)
    (messageId : Option String) : Sql Db Rc := do
  let rc ← exec (insertMessageBoxV2Row chatMid)
  if rc ≠ .ok then return rc
  exec (updateMessageBoxV2LiveMessage chatMid midType lastMessageId lastMessageTime incoming
    messageId)

def messageBoxMarkSeen (chatMid : String) (messageId : Option String) : Sql Db Rc :=
  exec (onBoxes (·.update chatMid fun b =>
    { b with unreadCount := some 0, lastSeenMessageId := messageId }))

/-- `peerLastReadTime IS NULL OR peerLastReadTime <= t`. -/
def peerReadDue (t : Int) (b : MessageBox) : Bool :=
  match b.peerLastReadTime with
  | none => true
  | some t' => t' ≤ t

def messageBoxSetPeerRead (chatMid : String) (readerMid : Option String) (readUpToTime : Int) :
    Sql Db Rc :=
  if chatMid = "" then pure .error
  else exec (onBoxes (·.updateIf chatMid (peerReadDue readUpToTime) fun b =>
    { b with peerLastReadTime := some readUpToTime, peerLastReaderMid := readerMid }))

/-- The INSERT ... SELECT of `enil_db_message_box_set_group_reader`: nothing is
inserted where a later read time is stored. -/
def upsertReader (k : String × String) (t : Int) (readers : Table (String × String) Int) :
    Nat × Table (String × String) Int :=
  match readers k with
  | some t' => if t < t' then (0, readers) else readers.insertReplace k t
  | none => readers.insertReplace k t

def messageBoxSetGroupReader (chatMid readerMid : String) (readUpToTime : Int) : Sql Db Rc :=
  if chatMid = "" ∨ readerMid = "" then pure .error
  else exec (onReaders (upsertReader (chatMid, readerMid) readUpToTime))

/-! ## Reactions -/

def isReactor (reactorMid : String) (item : Json) : Bool :=
  item.stringItem "reactorMid" == some reactorMid

/-- The entry `enil_db_message_reactions_update` stores. -/
def reactionEntry (reactorMid : String) (predefinedType : Int) (productId emojiId : Option String)
    (createdTime : Int) : Json :=
  .obj ([("reactorMid", .str reactorMid)]
    ++ (if predefinedType > 0 then [("predefinedReactionType", .num predefinedType)] else [])
    ++ (if nonempty productId then [("productId", .str (productId.getD ""))] else [])
    ++ (if nonempty emojiId then [("emojiId", .str (emojiId.getD ""))] else [])
    ++ (if createdTime > 0 then [("createdTime", .num (Json.toDouble createdTime))] else []))

def setReactionsJson (id : String) (arr : List Json) : Db → Nat × Db :=
  onMessages (·.update id fun r => { r with reactionsJson := arr })

/-- enil_db_message_reactions_update. A message that is not cached has nothing to
update, which is a success. -/
def messageReactionsUpdate (messageId reactorMid : String) (isRemove : Bool)
    (predefinedType : Int) (productId emojiId : Option String) (createdTime : Int) :
    Sql Db Rc := do
  match ← query fun db => (db.messages messageId).map (·.reactionsJson) with
  | none => return .error
  | some none => return .ok
  | some (some arr) =>
    let kept := arr.filter fun item => !isReactor reactorMid item
    if isRemove then
      if kept.length = arr.length then return .ok
      exec (setReactionsJson messageId kept)
    else
      exec (setReactionsJson messageId
        (kept ++ [reactionEntry reactorMid predefinedType productId emojiId createdTime]))

/-- One wire reaction as `reactions_extract_for_storage` stores it. -/
def reactionForStorage (child : Json) : Option Json := do
  let mid ← child.stringItem "fromUserMid"
  let rt ← (child.getObjectItem "reactionType").filter (·.isObject)
  let predef := match rt.getObjectItem "predefinedReactionType" with
    | some (.num q) => [("predefinedReactionType", Json.num q)]
    | _ => []
  let paid := match (rt.getObjectItem "paidReactionType").filter (·.isObject) with
    | some p =>
      (match p.stringItem "productId" with | some s => [("productId", Json.str s)] | none => [])
      ++ (match p.stringItem "emojiId" with | some s => [("emojiId", Json.str s)] | none => [])
    | none => []
  let time := match child.getObjectItem "atMillis" with
    | some (.str s) =>
      if s ≠ "" then [("createdTime", Json.num (Json.toDouble (Json.strtoll s)))] else []
    | some (.num q) => [("createdTime", Json.num q)]
    | _ => []
  return .obj ([("reactorMid", .str mid)] ++ predef ++ paid ++ time)

/-- reactions_extract_for_storage: `none` where the wire has no reactions field. -/
def reactionsExtractForStorage (m : TalkMessage) : Option (List Json) :=
  match m.raw.getObjectItem "reactions" with
  | some (.arr xs) => some (xs.filterMap reactionForStorage)
  | _ => none

/-! ## Messages -/

def extractReplaceJsonFromMeta (metadata : Json) : Option JsonText :=
  match metadata.getObjectItem "REPLACE" with
  | some (.str s) => some (.text s)
  | some (.obj fs) => some (.printed (.obj fs))
  | _ => none

/-- The `fileSize` that `parse_media_meta` reads from MEDIA_CONTENT_INFO. -/
def mediaPlainSize (cj : Cjson) (metadata : Json) : Int :=
  match ((metadata.stringItem "MEDIA_CONTENT_INFO").bind cj.parse).bind (·.getObjectItem "fileSize") with
  | some (.num q) => if 0 < q then Json.truncate q else 0
  | _ => 0

def messageReplaceJson (m : TalkMessage) : Option JsonText :=
  m.contentMetadata.bind extractReplaceJsonFromMeta

/-- The decrypt status of a new row. -/
def messageDecryptStatus (m : TalkMessage) : DecryptStatus :=
  if nonempty m.text then .plaintext else .pending

/-- The row kSQL_UpsertMessageV2 inserts. -/
def messageRow (cj : Cjson) (m : TalkMessage) (chatId : String) : MessageRow :=
  let metadata := m.contentMetadata.getD (.obj [])
  let sticker (key : String) := if m.contentType = 7 then metadata.stringItem key else none
  let media (key : String) := if m.contentType = 1 then metadata.stringItem key else none
  { fromMid := m.fromMid
    toMid := m.toMid
    toType := m.toType
    sessionId := m.sessionId
    createdTime := m.createdTime
    contentType := m.contentType
    hasContent := m.hasContent
    text := m.text
    contentMetadata := m.contentMetadata
    chunks := m.chunks
    relatedMessageId := m.relatedMessageId
    messageRelationType := m.messageRelationType
    relatedMessageServiceCode := m.relatedMessageServiceCode
    rawJson := some m.raw
    chatId := chatId
    decryptStatus := messageDecryptStatus m
    replaceJson := messageReplaceJson m
    stickerId := sticker "STKID"
    stickerPkgId := sticker "STKPKGID"
    sticonOwnership := metadata.stringItem "STICON_OWNERSHIP"
    mediaSid := media "SID"
    mediaOid := media "OID"
    mediaObsPop := media "OBS_POP"
    mediaE2eeVersion := media "e2eeVersion"
    mediaPlainSize := if m.contentType = 1 then mediaPlainSize cj metadata else 0
    reactionsJson := (reactionsExtractForStorage m).getD [] }

/-- The columns a stored row without text takes from a message that came later. -/
def fillTextColumns (m : TalkMessage) (r : MessageRow) : MessageRow :=
  { r with
    text := m.text
    contentMetadata := r.contentMetadata.or m.contentMetadata
    chunks := r.chunks.or m.chunks
    rawJson := r.rawJson.or (some m.raw)
    decryptStatus := messageDecryptStatus m }

/-- The UPDATE that gives a stored row without text the text that came later. -/
def fillMessageText (m : TalkMessage) : Db → Nat × Db :=
  onMessages (·.updateIf m.id (fun r => !nonempty r.text) (fillTextColumns m))

/-- `replace_json IS NULL OR replace_json = ''`. -/
def replaceMissing (r : MessageRow) : Bool := r.replaceJson.all (·.isEmpty)

def fillMessageReplaceJson (id : String) (replace : JsonText) : Db → Nat × Db :=
  onMessages (·.updateIf id replaceMissing fun r => { r with replaceJson := some replace })

/-- A reactions field replaces what a row that was there already has; the result
is not checked. -/
def overwriteReactions (m : TalkMessage) : Sql Db Unit := do
  match reactionsExtractForStorage m with
  | some arr => if (← changes) = 0 then discard (exec (setReactionsJson m.id arr))
  | none => return ()

/-- The fill runs where the statement before changed no row. -/
def fillStoredText (m : TalkMessage) : Sql Db Unit := do
  if (← changes) = 0 ∧ nonempty m.text then discard (exec (fillMessageText m))

def fillReplaceJson (m : TalkMessage) : Sql Db Rc :=
  match messageReplaceJson m with
  | some replace =>
    if replace.isEmpty then pure .ok else exec (fillMessageReplaceJson m.id replace)
  | none => pure .ok

def messageUpsert (cj : Cjson) (m : TalkMessage) : Sql Db Rc := do
  let chatId := m.chatId.getD ""
  if m.id = "" ∨ chatId = "" then return .error
  let rc ← exec (onMessages (·.insertIgnore m.id (messageRow cj m chatId)))
  if rc ≠ .ok then return rc
  overwriteReactions m
  fillStoredText m
  fillReplaceJson m

def messageMarkDeleted (messageId : String) : Sql Db Rc :=
  exec (onMessages (·.update messageId fun r => { r with isDeleted := true }))

def setMessageText (messageId : String) (text : Option String) (status : DecryptStatus) :
    Sql Db Rc :=
  exec (onMessages (·.update messageId fun r => { r with text := text, decryptStatus := status }))

def setMessagePlaintext (messageId : String) (text : String) (rawJson : Json)
    (replace : JsonText) (status : DecryptStatus) : Sql Db Rc :=
  exec (onMessages (·.update messageId fun r => { r with
    text := some text
    rawJson := some rawJson
    decryptStatus := status
    replaceJson := some replace }))

def setMessageEncKm (messageId encKm : String) : Sql Db Rc :=
  exec (onMessages (·.update messageId fun r =>
    { r with encKm := some encKm, decryptStatus := .success }))

/-- ENILThumbInfo of a complete original and thumbnail. -/
structure MediaInfo where
  origWidth : Int
  origHeight : Int
  thumbWidth : Int
  thumbHeight : Int
  deriving DecidableEq, Repr

/-- The media columns, NULL paths and zeros where there is no attachment. -/
def mediaColumns (messageId chatId : String) (info : Option MediaInfo) (r : MessageRow) :
    MessageRow :=
  { r with
    mediaPath := info.map fun _ => "media/" ++ chatId ++ "/" ++ messageId ++ ".jpg"
    origWidth := (info.map (·.origWidth)).getD 0
    origHeight := (info.map (·.origHeight)).getD 0
    thumbPath := info.map fun _ => "media/" ++ chatId ++ "/" ++ messageId ++ "_t.jpg"
    thumbWidth := (info.map (·.thumbWidth)).getD 0
    thumbHeight := (info.map (·.thumbHeight)).getD 0 }

def setMediaInfo (messageId chatId : String) (info : Option MediaInfo) : Sql Db Rc :=
  exec (onMessages (·.update messageId (mediaColumns messageId chatId info)))

/-- message_has_plaintext; a failed read counts as no plaintext. -/
def messageHasPlaintext (messageId : String) : Sql Db Bool := do
  let found ← query fun db => ((db.messages messageId).map fun r => nonempty r.text).getD false
  return found.getD false

end Db
end Enil
