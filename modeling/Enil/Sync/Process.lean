import Enil.Sync.Operation

/-!
# `enil_sync_process_sse_event`

One event of the stream applied to the message tables. What the remote side and
the tables outside the model answer is `Remote`: refetches, sticker scans, the
decryption worker and the attachment download.
-/

namespace Enil

open Lib Lib.Sql Db

inductive DecryptResult where
  | noSession
  | plaintext (text : String) (replace : Option Json)
  | keyMaterial (km : String)
  | nothing
  deriving Repr

/-- What `download_media_entry` found: both files complete on disk, both there
after a download, or no attachment. -/
inductive MediaOutcome where
  | cached (info : MediaInfo)
  | downloaded (info : MediaInfo)
  | unavailable
  deriving Repr

structure Remote where
  /-- The refetch of a contact or chat and its upsert. -/
  refetch : Rc := .ok
  /-- scan_messages_for_stickers, before and after the decryption. -/
  scan : Rc := .ok
  rescan : Rc := .ok
  decrypt : DecryptResult := .nothing
  sticons : Rc := .ok
  media : MediaOutcome := .unavailable
  sticker : Rc := .ok

def isIncoming (msg : Json) (myMid : Option String) : Bool :=
  myMid.isSome && (msg.stringItem "from").isSome && msg.stringItem "from" != myMid

def upsertChatForMessage (msg : Json) (chatId : String) (myMid : Option String) : Sql Db Rc :=
  let created := msg.stringItem "createdTime"
  let msgId := msg.stringItem "id"
  messageBoxUpsertLiveMessage chatId 0 msgId ((created.map Json.strtoll).getD 0)
    (isIncoming msg myMid) msgId

def isUnsupportedLocationMessage (msg : Json) : Bool :=
  Json.coerceInt64 (msg.getObjectItem "contentType") == 15

/-- The message with the decrypted REPLACE in its metadata. -/
def withReplace (cj : Cjson) (msg replace : Json) : Json :=
  .obj (Json.modifyItems "contentMetadata" (fun metadata =>
    .obj (Json.deleteItem "REPLACE" metadata.items ++ [("REPLACE", .str (cj.print replace))]))
    msg.items)

/-- Whether the message carries ciphertext: five chunks and an e2eeVersion. -/
def isEncrypted (msg : Json) : Bool :=
  ((msg.getObjectItem "chunks").any fun c => c.isArray && 5 ≤ c.elements.length)
    && ((msg.getObjectItem "contentMetadata").any fun m =>
      m.isObject && (m.getObjectItem "e2eeVersion").isSome)

/-- Whether `decrypt_one_message` asks the worker about the message. -/
def wantsDecrypt (msg : Json) : Bool := !isUnsupportedLocationMessage msg && isEncrypted msg

def decryptedMessage (cj : Cjson) (msg : Json) (result : DecryptResult) : Json :=
  match result with
  | .plaintext _ (some replace) => if wantsDecrypt msg then withReplace cj msg replace else msg
  | _ => msg

def decryptOneMessage (cj : Cjson) (msg : Json) (result : DecryptResult) : Sql Db Rc :=
  match msg.stringItem "id" with
  | none => pure .error
  | some id =>
    if !wantsDecrypt msg then setMessageText id none .notText
    else match result with
      | .noSession => pure .error
      | .plaintext text (some replace) =>
        setMessagePlaintext id text (withReplace cj msg replace) (.printed replace) .success
      | .plaintext text none => setMessageText id (some text) .success
      | .keyMaterial km => setMessageEncKm id km
      | .nothing => setMessageText id none .failed

def mediaComplete (i : MediaInfo) : Bool :=
  0 < i.origWidth && 0 < i.origHeight && 0 < i.thumbWidth && 0 < i.thumbHeight

/-- The end of `download_media_entry`. -/
def storeMediaInfo (id chatId : String) (info : MediaInfo) : Sql Db Rc :=
  if mediaComplete info then setMediaInfo id chatId (some info) else pure .ok

/-- sync_one_message_media with `download_media_entry`. Stale metadata is cleared
before a download. -/
def syncOneMessageMedia (id : String) (outcome : MediaOutcome) : Sql Db Rc := do
  if id = "" then return .ok
  match ← query fun db => (db.messages id).map (·.chatId) with
  | some (some chatId) =>
    match outcome with
    | .cached info => storeMediaInfo id chatId info
    | .downloaded info =>
      let rc ← setMediaInfo id chatId none
      if rc ≠ .ok then return .error
      storeMediaInfo id chatId info
    | .unavailable => setMediaInfo id chatId none
  | _ => return .error

/-- The `curr` object of param2; absent where a reaction is removed. -/
def reactionCurr (cj : Cjson) (op : TalkOperation) : Option Json :=
  let param2 := if nonempty op.param2 then op.param2.bind cj.parse else none
  (param2.bind (·.getObjectItem "curr")).filter (·.isObject)

/-- The reactor of an own reaction is this account. -/
def reactionReactor (op : TalkOperation) (myMid : Option String) : Option String :=
  if nonempty op.param3 then op.param3 else myMid

def reactionPredefinedType (curr : Option Json) : Int :=
  match curr.bind (·.getObjectItem "predefinedReactionType") with
  | some (.num q) => Json.truncate q
  | _ => 0

/-- `productId` or `emojiId` of a paid reaction. -/
def reactionPaid (curr : Option Json) (key : String) : Option String :=
  ((curr.bind (·.getObjectItem "paidReactionType")).filter (·.isObject)).bind (·.stringItem key)

def applyOpReaction (cj : Cjson) (op : TalkOperation) (myMid : Option String) : Sql Db Rc :=
  let curr := reactionCurr cj op
  let reactor := reactionReactor op myMid
  if nonempty op.param1 && nonempty reactor then
    messageReactionsUpdate (op.param1.getD "") (reactor.getD "") curr.isNone
      (reactionPredefinedType curr) (reactionPaid curr "productId") (reactionPaid curr "emojiId")
      op.createdTime
  else pure .error

/-- A 1:1 chat mid starts with u or U. -/
def isOneToOne (mid : String) : Bool :=
  match mid.toList with
  | c :: _ => c == 'u' || c == 'U'
  | [] => false

/-- The read receipt: one column for the peer of a 1:1 chat, a row for each
reader of a group. -/
def applyOpRead (op : TalkOperation) : Sql Db Rc :=
  if nonempty op.param1 then
    let chat := op.param1.getD ""
    if isOneToOne chat then messageBoxSetPeerRead chat op.param2 op.createdTime
    else if nonempty op.param2 then
      messageBoxSetGroupReader chat (op.param2.getD "") op.createdTime
    else pure .error
  else pure .error

/-- The statements of the savepoint `sse_message`. -/
def sseMessage (cj : Cjson) (msg : Json) (m : TalkMessage) (chatId : String)
    (myMid : Option String) : Sql Db Rc := do
  let rc ← upsertChatForMessage msg chatId myMid
  if rc ≠ .ok then return rc
  messageUpsert cj m

/-- The sticker scan and the decryption of a message that has no plaintext yet, with
the message as it is afterwards. -/
def scanAndDecrypt (cj : Cjson) (remote : Remote) (msg : Json) (m : TalkMessage) :
    Sql Db (Rc × Json) := do
  if remote.scan ≠ .ok then return (.error, msg)
  if ← messageHasPlaintext m.id then return (.ok, msg)
  let rc ← decryptOneMessage cj msg remote.decrypt
  return (rc, decryptedMessage cj msg remote.decrypt)

def messageContentType (msg : Json) : Option Int :=
  ((msg.getObjectItem "contentType").bind (·.getNumberValue)).map Json.truncate

def fetchMedia (remote : Remote) (msg : Json) (m : TalkMessage) : Sql Db Rc :=
  if messageContentType msg = some 1 then syncOneMessageMedia m.id remote.media else pure .ok

def hasSticon (msg : Json) : Bool :=
  ((msg.getObjectItem "contentMetadata").filter (·.isObject)).any fun o =>
    (o.getObjectItem "STICON_OWNERSHIP").isSome || (o.getObjectItem "REPLACE").isSome

/-- What follows the savepoint. The attachments are fetched even after a failed
step; the event then stays failed. -/
def sseMessageRest (cj : Cjson) (remote : Remote) (msg : Json) (m : TalkMessage) : Sql Db Rc := do
  let (rc, msg) ← scanAndDecrypt cj remote msg m
  let mediaRc ← fetchMedia remote msg m
  return rc.and <| remote.rescan.and <|
    (if hasSticon msg then remote.sticons else .ok).and <| mediaRc.and <|
    if messageContentType msg = some 7 then remote.sticker else .ok

/-- The message carried by SEND_MESSAGE and RECEIVE_MESSAGE. -/
def applyOpMessage (cj : Cjson) (remote : Remote) (root : Json) (op : TalkOperation)
    (myMid : Option String) : Sql Db Rc :=
  match op.message, root.getObjectItem "message" with
  | some m, some msg =>
    if nonempty m.chatId then do
      let rc ← atomically (sseMessage cj msg m (m.chatId.getD "") myMid)
      if rc = .ok then sseMessageRest cj remote msg m else return rc
    else pure .error
  | _, _ => pure .error

def applyOp (cj : Cjson) (remote : Remote) (root : Json) (op : TalkOperation)
    (myMid : Option String) : Sql Db Rc :=
  match op.type with
  | .notifiedReadMessage => applyOpRead op
  | .sendChatChecked =>
    if nonempty op.param1 then messageBoxMarkSeen (op.param1.getD "") op.param2
    else pure .error
  | .destroyMessage | .notifiedDestroyMessage =>
    if nonempty op.param2 then messageMarkDeleted (op.param2.getD "") else pure .error
  | .updateContact | .updateChat | .notifiedUpdateChat => pure remote.refetch
  | .sendReaction | .notifiedSendReaction => applyOpReaction cj op myMid
  | .sendMessage | .receiveMessage => applyOpMessage cj remote root op myMid
  | .unhandled => pure .ok

/-- enil_sync_process_sse_event on the parsed event data. -/
def processSseEvent (cj : Cjson) (myMid : Option String) (remote : Remote) (eventType : String)
    (root : Option Json) : Sql Db Rc :=
  if eventType ≠ "message" then pure .ok
  else match root with
    | none => pure .error
    | some root => applyOp cj remote root (talkOperationParse root myMid) myMid

end Enil
