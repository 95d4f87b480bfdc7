import Enil.Lib.CType
import Enil.Lib.Traced
import Enil.Line.Wire
import Enil.Session.Save

/-!
# The sends

Every send loads the session, asks the server and the crypto worker for what it needs,
posts its message and stores the counters. What the outside answers is in `Answers`,
one field for each call of a send; what the send does outside is its trace.
-/

namespace Enil

open Lib

/-! ## The outside -/

/-- talk_e2ee_group_shared_key_t, as far as a send reads it. -/
structure GroupKey where
  groupKeyId : Int
  creator : Option String
  creatorKeyId : Int
  receiverKeyId : Int
  raw : Json

/-- talk_e2ee_public_key_t, as far as a send reads it. -/
structure PeerKey where
  publicKey : String
  keyId : Int

structure CreatedGroupKey where
  encKeys : Option Json
  restoreState : Option String

/-- ENILWorkerEncryptResult, the ciphertext decoded from base64. -/
structure Encrypted where
  ciphertext : List UInt8
  restoreState : Option String

/-- What the calls of one send are answered; `none` is a call that failed. -/
structure Answers where
  /-- `time(NULL)` where the request number and the message are made. -/
  seqTime : Int
  localTime : Int
  /-- determineMediaMessageFlow. -/
  flowMap : Option Json := none
  /-- getLastE2EEGroupSharedKey. -/
  groupKey : Option GroupKey := none
  /-- getLastE2EEPublicKeys. -/
  lastPublicKeys : Option Json := none
  createdGroupKey : Option CreatedGroupKey := none
  /-- registerE2EEGroupKey. -/
  registeredGroupKey : Option GroupKey := none
  /-- getE2EEPublicKey for the creator of the group key and for the sender. -/
  creatorPublicKey : Option String := none
  senderPublicKey : Option String := none
  /-- negotiateE2EEPublicKey. -/
  peerKey : Option PeerKey := none
  encrypt : Option Encrypted := none
  /-- enil_crypto_file_encrypt on the image and on its thumbnail. -/
  encryptFile : Option (KeyMaterial × List UInt8) := none
  encryptThumb : Option (List UInt8) := none
  /-- The OID of an upload to `emi`. -/
  uploadOid : Option String := none
  /-- Whether the upload of a plain image succeeds. -/
  uploadPlain : Bool := false
  /-- The data of the reply to sendMessage. -/
  sendMessage : Option Json := none
  /-- Whether sendChatRemoved is answered with success. -/
  chatRemoved : Bool := false

inductive Recipient where
  | user (mid publicKey : String) (keyId : Int)
  | group (mid : String) (key : GroupKey) (creatorPublicKey senderPublicKey : String)

/-- ENILWorkerEncryptUserParams and ENILWorkerEncryptGroupParams. -/
structure EncryptParams where
  restoreState : Option Json
  recipient : Recipient
  privateKey : String
  privateKeyId : Int
  fromMid : String
  senderKeyId : Int
  contentType : Int
  sequenceNumber : Int
  plaintext : String

/-- The bytes of an upload: a file as it is, or what `enil_crypto_file_encrypt` made of it. -/
inductive Payload where
  | plain (bytes : List UInt8)
  | encrypted (bytes : List UInt8)

inductive SendEffect where
  | encrypt (p : EncryptParams)
  | upload (sid : String) (oid : Option String) (payload : Payload)
  | sendMessage (reqSeq : Int) (message : TalkMessage)
  | sendChatRemoved (reqSeq : Int) (chat : String) (lastReadId : Option String) (lastReadTime : Int)
  /-- session_persist. -/
  | persist (s : Session)

abbrev Send := Traced SendEffect

/-! ## Helpers -/

def findE2eeKey (s : Session) (keyId : Int) : Option String :=
  match s.e2eeKeys with
  | some (.arr entries) => entries.findSome? fun e =>
    if Json.coerceInt64 (e.getObjectItem "keyId") = keyId then e.stringItem "exportedKey" else none
  | _ => none

/-- next_req_seq at `time`. -/
def nextReqSeq (s : Session) (time : Int) : Int :=
  let cur := if s.reqSeq ≠ 0 then s.reqSeq else time.tmod (2 ^ 31) - 1
  (cur + 1).tmod (2 ^ 31)

def b64String (s : String) : String := b64Encode s.toUTF8.toList

/-- The plaintext a content is encrypted as: encode_plaintext, encode_sticon_plaintext and
encode_keymaterial_plaintext. -/
def Content.plaintext (cj : Cjson) (c : Content) : String :=
  b64String (cj.print (.obj (match c with
    | .text t => [("text", .str t)]
    | .sticon t resources _ => [("text", .str t), ("REPLACE", buildReplaceSticonObj resources)]
    | .image _ km => [("keyMaterial", .str (b64Encode km.bytes))])))

def Content.contentType : Content → Int
  | .image _ _ => 1
  | _ => 0

/-- The four bytes of an `int`, the highest first. -/
def bigEndian (n : Int) : List UInt8 :=
  [24, 16, 8, 0].map fun shift : Nat => UInt8.ofNat ((n >>> shift) % 256).toNat

def splitV2Ciphertext (raw : List UInt8) (senderKeyId receiverKeyId : Int) : Option Chunks :=
  if raw.length < 29 then none
  else some #v[
    b64Encode (raw.take 16),
    b64Encode (raw.drop 28),
    b64Encode ((raw.drop 16).take 12),
    b64Encode (bigEndian senderKeyId),
    b64Encode (bigEndian receiverKeyId)]

/-- overlay_send_result: what the server confirms of the message. -/
def overlaySendResult (m : TalkMessage) (resp : Json) : Option TalkMessage :=
  (talkMessageParse resp none).map fun server => { m with
    id := server.id
    createdTime := server.createdTime
    sessionId := server.sessionId
    hasContent := server.hasContent }

/-- update_send_state, before it saves. -/
def updateSendState (s : Session) (reqSeq : Int) (e2eeSeq : Option Int) (restore : Option Json) :
    Session :=
  { s with
    reqSeq := reqSeq
    e2eeSequenceNumber := e2eeSeq.getD s.e2eeSequenceNumber
    workerRestoreState := restore.or s.workerRestoreState }

section Encrypted

variable (cj : Cjson) (a : Answers)

/-- The members of create_and_register_group_key, oneself first. -/
def groupMembers (myMid : String) (pubKeys : Json) : List Json :=
  pubKeys.items.foldl (fun members entry =>
    match entry.2.getObjectItem "keyId", entry.2.stringItem "keyData" with
    | some (.num keyId), some keyData =>
      let m := Json.obj [("mid", .str entry.1), ("keyId", .num keyId), ("publicKey", .str keyData)]
      if entry.1 = myMid then m :: members else members ++ [m]
    | _, _ => members) []

/-- create_and_register_group_key: the key, and the session with the new worker state. -/
def createAndRegisterGroupKey (s : Session) (myMid : String) : Option GroupKey × Session :=
  match a.lastPublicKeys, findE2eeKey s s.e2eeLatestKeyId with
  | some pubKeys, some _ =>
    if groupMembers myMid pubKeys = [] then (none, s)
    else match a.createdGroupKey with
      | none => (none, s)
      | some created =>
        (if created.encKeys.isSome then a.registeredGroupKey else none,
          { s with workerRestoreState :=
              (created.restoreState.bind cj.parse).or s.workerRestoreState })
  | _, _ => (none, s)

/-- The key of a group send: the last one of the group, or a new one. -/
def groupKeyOf (s : Session) (myMid : String) : Option GroupKey × Session :=
  match a.groupKey with
  | some key => (some key, s)
  | none => createAndRegisterGroupKey cj a s myMid

def finishE2eeSend (s : Session) (reqSeq : Int) (enc : Encrypted) (keyIdA keyIdB : Int)
    (e2eeSeq : Option Int) (m : TalkMessage) : Send TalkMessage := do
  let chunks ← Traced.ofOption (splitV2Ciphertext enc.ciphertext keyIdA keyIdB)
  let m := attachChunksToLocal m chunks
  Traced.emit (.sendMessage reqSeq (wireMessage m true))
  let m ← Traced.ofOption (a.sendMessage.bind (overlaySendResult m))
  Traced.emit (.persist (updateSendState s reqSeq e2eeSeq (enc.restoreState.bind cj.parse)))
  return m

def send1on1 (s : Session) (myMid chat : String) (reqSeq : Int) (plaintext : String)
    (contentType : Int) (m : TalkMessage) : Send TalkMessage := do
  let privateKey ← Traced.ofOption (findE2eeKey s s.e2eeLatestKeyId)
  let peer ← Traced.ofOption a.peerKey
  let keyId := toCInt s.e2eeLatestKeyId
  Traced.emit (.encrypt {
    restoreState := s.workerRestoreState
    recipient := .user chat peer.publicKey (toCInt peer.keyId)
    privateKey := privateKey
    privateKeyId := keyId
    fromMid := myMid
    senderKeyId := keyId
    contentType := contentType
    sequenceNumber := s.e2eeSequenceNumber
    plaintext := plaintext })
  let enc ← Traced.ofOption a.encrypt
  finishE2eeSend cj a s reqSeq enc keyId (toCInt peer.keyId) (some (s.e2eeSequenceNumber + 1)) m

/-- The fallback of send_group when there is no group key. -/
def sendGroupPlain (s : Session) (reqSeq : Int) (m : TalkMessage) : Send TalkMessage := do
  if m.text.isNone then Traced.fail
  Traced.emit (.sendMessage reqSeq (wireMessage m false))
  let m ← Traced.ofOption (a.sendMessage.bind (overlaySendResult m))
  Traced.emit (.persist (updateSendState s reqSeq none none))
  return { m with contentMetadata := m.contentMetadata.map fun
    | .obj fs => .obj (Json.deleteItem "REPLACE" (Json.deleteItem "e2eeVersion" fs))
    | j => j }

/-- The encrypted part of send_group. -/
def sendGroupSealed (s : Session) (key : GroupKey) (myMid chat : String) (reqSeq : Int)
    (plaintext : String) (contentType : Int) (m : TalkMessage) : Send TalkMessage := do
  let _ ← Traced.ofOption key.creator
  let privateKey ← Traced.ofOption (findE2eeKey s key.receiverKeyId)
  let creatorPublicKey ← Traced.ofOption a.creatorPublicKey
  let senderPublicKey ← Traced.ofOption a.senderPublicKey
  let keyId := toCInt s.e2eeLatestKeyId
  Traced.emit (.encrypt {
    restoreState := s.workerRestoreState
    recipient := .group chat key creatorPublicKey senderPublicKey
    privateKey := privateKey
    privateKeyId := toCInt key.receiverKeyId
    fromMid := myMid
    senderKeyId := keyId
    contentType := contentType
    sequenceNumber := s.e2eeSequenceNumber
    plaintext := plaintext })
  let enc ← Traced.ofOption a.encrypt
  -- The group path stores the session's sequence number as it was.
  finishE2eeSend cj a s reqSeq enc keyId (toCInt key.groupKeyId) none m

def sendGroup (s : Session) (myMid chat : String) (reqSeq : Int) (plaintext : String)
    (contentType : Int) (m : TalkMessage) : Send TalkMessage :=
  match groupKeyOf cj a s myMid with
  | (none, s) => sendGroupPlain a s reqSeq m
  | (some key, s) => sendGroupSealed cj a s key myMid chat reqSeq plaintext contentType m

/-- The common part of the sends of a content: the message is built, then sent by the kind
of the chat. -/
def sendContent (s : Session) (myMid chat : String) (c : Content) : Send TalkMessage :=
  let reqSeq := nextReqSeq s a.seqTime
  let m := c.fill cj (buildLocalOutgoing myMid chat reqSeq a.localTime)
  if midKind chat = .user then
    send1on1 cj a s myMid chat reqSeq (c.plaintext cj) c.contentType m
  else sendGroup cj a s myMid chat reqSeq (c.plaintext cj) c.contentType m

end Encrypted

/-! ## The operations -/

/-- ENILLineSendStickerParams; an absent value is the empty string. -/
structure StickerParams where
  packageId : String
  stickerId : String
  version : String := ""
  option : String := ""
  hash : String := ""

def StickerParams.metadata (p : StickerParams) : Json :=
  let nonempty (key v : String) := if v = "" then [] else [(key, Json.str v)]
  .obj ([("STKPKGID", .str p.packageId), ("STKID", .str p.stickerId)] ++
    nonempty "STKVER" p.version ++ nonempty "STKOPT" p.option ++ nonempty "STKHASH" p.hash)

structure ImageParams where
  jpeg : List UInt8
  /-- The thumbnail with its width and height. -/
  thumb : Option (List UInt8 × Int × Int)
  fileName : String

namespace ImageParams

def name (p : ImageParams) : String := if p.fileName = "" then "image.jpg" else p.fileName

/-- The size of the thumbnail as the metadata tells it. -/
def thumbSize (p : ImageParams) : Option (Int × Int) :=
  (p.thumb.map Prod.snd).filter fun size => 0 < size.1 && 0 < size.2

/-- The bytes of a thumbnail that are uploaded. -/
def thumbData (p : ImageParams) : Option (List UInt8) := (p.thumb.map Prod.fst).filter (· ≠ [])

def plainMetadata (p : ImageParams) : Json :=
  .obj ([("FILE_SIZE", .str (toString p.jpeg.length)), ("FILE_NAME", .str p.name),
    ("contentType", .str "1"),
    ("MEDIA_CONTENT_INFO", .str ("\x7b\"category\":\"original\",\"fileSize\":" ++
      toString p.jpeg.length ++ ",\"extension\":\"jpg\"\x7d"))] ++
    (p.thumbSize.map fun s => ("MEDIA_THUMB_INFO", .str ("\x7b\"width\":" ++ toString s.1 ++
      ",\"height\":" ++ toString s.2 ++ "\x7d"))).toList)

end ImageParams

def previewOid (oid : String) : String := oid ++ "__ud-preview"

/-- Whether text, stickers and plain images can be sent to a chat. -/
def isSendable (chat : String) : Bool := midKind chat == .user || midKind chat == .group

/-- The loaded session with the mid of its account; it needs an access token. -/
def loadedAccount (loaded : Option Session) : Option (Session × String) := do
  let s ← loaded
  let _ ← s.accessToken
  let mid ← s.mid
  return (s, mid)

section Operations

variable (cj : Cjson) (a : Answers) (loaded : Option Session) (chat : String)

/-- The part that enil_line_send_text and enil_line_send_inline_sticon share. -/
def sendDraft (c : Content) : Send TalkMessage := do
  if !isSendable chat then Traced.fail
  let (s, mid) ← Traced.ofOption (loadedAccount loaded)
  sendContent cj a s mid chat c

def sendText (text : String) : Send TalkMessage := sendDraft cj a loaded chat (.text text)

def sendInlineSticon (text : String) (resources : List SticonResource) (h : resources ≠ []) :
    Send TalkMessage :=
  sendDraft cj a loaded chat (.sticon text resources h)

/-- A post of a message that is not encrypted, and what follows the reply. -/
def postPlain (s : Session) (reqSeq : Int) (m : TalkMessage) : Send TalkMessage := do
  Traced.emit (.sendMessage reqSeq m)
  let m ← Traced.ofOption (a.sendMessage.bind (overlaySendResult m))
  Traced.emit (.persist (updateSendState s reqSeq none none))
  return m

def sendSticker (p : StickerParams) : Send TalkMessage := do
  if !isSendable chat then Traced.fail
  let (s, mid) ← Traced.ofOption (loadedAccount loaded)
  let reqSeq := nextReqSeq s a.seqTime
  postPlain a s reqSeq { buildLocalOutgoing mid chat reqSeq a.localTime with
    contentType := 7
    hasContent := true
    contentMetadata := some p.metadata }

def sendImagePlain (p : ImageParams) : Send TalkMessage := do
  if p.jpeg = [] ∨ !isSendable chat then Traced.fail
  let (s, mid) ← Traced.ofOption (loadedAccount loaded)
  let reqSeq := nextReqSeq s a.seqTime
  let m ← postPlain a s reqSeq { buildLocalOutgoing mid chat reqSeq a.localTime with
    contentType := 1
    hasContent := true
    contentMetadata := some p.plainMetadata }
  -- The message is out: a failed upload does not fail the send.
  Traced.emit (.upload "m" (some m.id) (.plain p.jpeg))
  if a.uploadPlain then
    p.thumbData.forM fun t => Traced.emit (.upload "m" (some (previewOid m.id)) (.plain t))
  return m

def sendImageE2ee (p : ImageParams) : Send TalkMessage := do
  let (s, mid) ← Traced.ofOption (loadedAccount loaded)
  let (km, main) ← Traced.ofOption a.encryptFile
  Traced.emit (.upload "emi" none (.encrypted main))
  let oid ← Traced.ofOption a.uploadOid
  if p.thumbData.isSome then
    a.encryptThumb.forM fun t =>
      Traced.emit (.upload "emi" (some (previewOid oid)) (.encrypted t))
  sendContent cj a s mid chat (.image ⟨p.name, oid, main.length, p.thumbSize⟩ km)

/-- The flow enil_line_send_image reads from its probe; without an answer it is 1. -/
def imageFlow (probe : Option Session) : Int :=
  match probe.bind (·.accessToken) with
  | none | some "" => 1
  | some _ =>
    match a.flowMap.bind (·.getObjectItem "1") with
    | some (.num q) => Json.truncate q
    | _ => 1

/-- enil_line_send_image; it loads the session once for the probe and once for the send. -/
def sendImage (probe : Option Session) (p : ImageParams) : Send TalkMessage :=
  if p.jpeg = [] then Traced.fail
  else if imageFlow a probe = 2 then sendImageE2ee cj a loaded chat p
  else sendImagePlain a loaded chat p

def sendChatRemoved (lastReadId : Option String) (lastReadTime : Int) : Send Unit := do
  let s ← Traced.ofOption loaded
  let _ ← Traced.ofOption s.accessToken
  let reqSeq := nextReqSeq s a.seqTime
  Traced.emit (.sendChatRemoved reqSeq chat lastReadId lastReadTime)
  if !a.chatRemoved then Traced.fail
  Traced.emit (.persist (updateSendState s reqSeq none none))

end Operations

end Enil
