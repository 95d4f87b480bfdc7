import Enil.Json.Basic
import Enil.Lib.Table

/-!
# The message tables

The rows of `message_boxes_v2`, `messages_v2` and `message_box_readers_v2`, with
NULL as `none`, and the message a row is made from. A column that holds printed
JSON holds the value here; `reactions_json` is the array itself, NULL being the
empty one, since it is only ever read as an array and never written empty.
-/

namespace Enil

open Lib

inductive DecryptStatus where
  | pending
  | plaintext
  | success
  | failed
  | notText
  deriving DecidableEq, Repr

/-- The text of `replace_json`: a string as it was received, or a printed value,
which is never empty. -/
inductive JsonText where
  | text (s : String)
  | printed (j : Json)
  deriving Repr

def JsonText.isEmpty : JsonText → Bool
  | text s => s == ""
  | printed _ => false

structure MessageBox where
  midType : Option Int := none
  lastDeliveredMessageId : Option String := none
  lastDeliveredTime : Option Int := none
  lastSeenMessageId : Option String := none
  unreadCount : Option Int := none
  peerLastReadTime : Option Int := none
  peerLastReaderMid : Option String := none
  rawJson : Option Json := none
  deriving Repr

/-- A row of `messages_v2`; its primary key `id` is the key of the table. -/
structure MessageRow where
  fromMid : Option String := none
  toMid : Option String := none
  toType : Int := 0
  sessionId : Int := 0
  createdTime : Int := 0
  contentType : Int := 0
  hasContent : Bool := false
  text : Option String := none
  contentMetadata : Option Json := none
  chunks : Option Json := none
  relatedMessageId : Option String := none
  messageRelationType : Int := 0
  relatedMessageServiceCode : Int := 0
  rawJson : Option Json := none
  chatId : String
  decryptStatus : DecryptStatus := .pending
  replaceJson : Option JsonText := none
  stickerId : Option String := none
  stickerPkgId : Option String := none
  sticonOwnership : Option String := none
  encKm : Option String := none
  mediaPath : Option String := none
  mediaSid : Option String := none
  mediaOid : Option String := none
  mediaObsPop : Option String := none
  mediaE2eeVersion : Option String := none
  mediaPlainSize : Int := 0
  origWidth : Int := 0
  origHeight : Int := 0
  thumbPath : Option String := none
  thumbWidth : Int := 0
  thumbHeight : Int := 0
  isDeleted : Bool := false
  reactionsJson : List Json := []
  deriving Repr

structure Db where
  /-- message_boxes_v2, by chat mid. -/
  messageBoxes : Table String MessageBox
  /-- messages_v2, by message id. -/
  messages : Table String MessageRow
  /-- message_box_readers_v2: the read time by chat and reader. -/
  messageBoxReaders : Table (String × String) Int

/-- `text IS NOT NULL AND text != ''`. -/
def nonempty : Option String → Bool
  | some s => s != ""
  | none => false

@[simp] theorem nonempty_none : nonempty none = false := rfl

structure TalkMessage where
  id : String
  fromMid : Option String := none
  toMid : Option String := none
  toType : Int := 0
  sessionId : Int := 0
  createdTime : Int := 0
  contentType : Int := 0
  hasContent : Bool := false
  text : Option String := none
  contentMetadata : Option Json := none
  chunks : Option Json := none
  relatedMessageId : Option String := none
  messageRelationType : Int := 0
  relatedMessageServiceCode : Int := 0
  chatId : Option String := none
  raw : Json
  deriving Repr

def talkMessageParse (entry : Json) (chatId : Option String) : Option TalkMessage :=
  (entry.dupStringOpt "id").map fun id => {
    id := id
    fromMid := entry.dupStringOpt "from"
    toMid := entry.dupStringOpt "to"
    toType := entry.getInt "toType"
    sessionId := entry.getInt "sessionId"
    createdTime := entry.getInt64 "createdTime"
    contentType := entry.getInt "contentType"
    hasContent := entry.getBool "hasContent"
    text := entry.dupStringOpt "text"
    contentMetadata :=
      (entry.getObjectItemCaseSensitive "contentMetadata").filter (·.isObject)
    chunks := (entry.getObjectItemCaseSensitive "chunks").filter (·.isArray)
    relatedMessageId := entry.dupStringOpt "relatedMessageId"
    messageRelationType := entry.getInt "messageRelationType"
    relatedMessageServiceCode := entry.getInt "relatedMessageServiceCode"
    chatId := chatId
    raw := entry }

end Enil
