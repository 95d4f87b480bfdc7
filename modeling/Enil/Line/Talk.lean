import Enil.Db.Messages

/-!
# Replies of the TalkService

The fetches of a full sync, each a function of the replies to its requests. A fetch
that is made of batches or pages asks for them one after the other; what it makes of a
batch that fails differs from one to the next.
-/

namespace Enil

open Db

structure LineResponse where
  status : Int
  body : Option String
  deriving DecidableEq, Repr

def batchSize : Nat := 100

/-- The requests that `n` elements in batches take. -/
def batchCount (n : Nat) : Nat := (n + (batchSize - 1)) / batchSize

/-- talk_profile_t, by the fields that a contact row is made of. -/
structure TalkProfile where
  mid : String
  displayName : Option String := none
  statusMessage : Option String := none
  picturePath : Option String := none
  raw : Json

structure TalkContact where
  mid : String
  registered : Bool := false
  displayName : Option String := none
  displayNameOverridden : Option String := none
  statusMessage : Option String := none
  picturePath : Option String := none
  raw : Option Json := none

structure TalkChatMids where
  memberChatMids : List String
  invitedChatMids : List String

structure TalkChat where
  chatMid : String
  createdTime : Int := 0
  notificationDisabled : Bool := false
  favoriteTimestamp : Int := 0
  chatName : Option String := none
  picturePath : Option String := none
  type : Int := 0
  creatorMid : Option String := none
  invitationTicket : Option String := none
  isInvited : Bool := false
  raw : Json

/-- What the server answers to the requests of one sync: `contacts` and `chats` by batch,
`boxPages` one page after the other, `recents` by the place of the box in the list and
`members` by mid. A request with no reply left fails. -/
structure Replies where
  localRev : LineResponse
  profile : LineResponse
  contactIds : LineResponse
  contacts : Nat → LineResponse
  chatMids : LineResponse
  chats : Nat → LineResponse
  boxPages : List LineResponse
  recents : Nat → LineResponse
  members : String → LineResponse

variable (cj : Cjson)

def unwrapOk (r : LineResponse) : Option Json :=
  if r.status ≠ 200 then none
  else do
    let root ← r.body.bind cj.parse
    match root.getObjectItem "message" with
    | some (.str "OK") => root.getObjectItem "data"
    | _ => none

/-- The JSON that is unwrapped to `data`, and a reply of it. -/
def okReply (data : Json) : Json := .obj [("message", .str "OK"), ("data", data)]

def replyOf (data : Json) : LineResponse where
  status := 200
  body := some (okReply data).printUnformatted

def getLastOpRevision (r : LineResponse) : Int :=
  match unwrapOk cj r with
  | some (.str s) => Json.coerceInt64 (some (.str s))
  | some (.num q) => Json.coerceInt64 (some (.num q))
  | _ => -1

def talkGetProfile (r : LineResponse) : Option TalkProfile := do
  let data ← unwrapOk cj r
  if !data.isObject then none
  let mid ← data.dupStringOpt "mid"
  return {
    mid := mid
    displayName := data.dupStringOpt "displayName"
    statusMessage := data.dupStringOpt "statusMessage"
    picturePath := data.dupStringOpt "picturePath"
    raw := data }

/-! ## Contacts -/

def getAllContactIds (r : LineResponse) : Option (List Json) :=
  match unwrapOk cj r with
  | some (.arr ids) => some ids
  | _ => none

def parseContactEntry (entry : String × Json) : TalkContact :=
  match (entry.2.getObjectItem "contact").filter (·.isObject) with
  | none => { mid := entry.1 }
  | some contact => {
      mid := entry.1
      registered := true
      displayName := contact.dupStringOpt "displayName"
      displayNameOverridden := contact.dupStringOpt "displayNameOverridden"
      statusMessage := contact.dupStringOpt "statusMessage"
      picturePath := contact.dupStringOpt "picturePath"
      raw := some entry.2 }

/-- The entries of one reply of getContactsV2. -/
def contactBatch (r : LineResponse) : Option (List TalkContact) := do
  let data ← unwrapOk cj r
  match data.getObjectItem "contacts" with
  | some (.obj map) => some (map.map parseContactEntry)
  | _ => none

/-- The batches of `talk_get_contacts`: one that fails is passed over. -/
def contactBatches (replies : Nat → LineResponse) (count : Nat) : List TalkContact :=
  (List.range count).flatMap fun k => (contactBatch cj (replies k)).getD []

def talkGetContacts (a : Replies) : Option (List TalkContact) :=
  (getAllContactIds cj a.contactIds).map fun ids =>
    contactBatches cj a.contacts (batchCount ids.length)

def talkGetContactByMid (r : LineResponse) (mid : String) : Option TalkContact := do
  let data ← unwrapOk cj r
  match data.getObjectItem "contacts" with
  | some (.obj map) =>
    let entry ← (map.find? fun f => Json.keyEq f.1 mid)
    if entry.2.isObject then some (parseContactEntry entry) else none
  | _ => none

/-! ## Chats -/

/-- dup_string_array: what is not a string is left out. -/
def dupStringArray (j : Option Json) : List String :=
  match j with
  | some (.arr xs) => xs.filterMap Json.getStringValue
  | _ => []

def talkGetAllChatMids (r : LineResponse) : Option TalkChatMids := do
  let data ← unwrapOk cj r
  if !data.isObject then none
  return {
    memberChatMids := dupStringArray (data.getObjectItem "memberChatMids")
    invitedChatMids := dupStringArray (data.getObjectItem "invitedChatMids") }

def parseChatEntry (entry : Json) : Option TalkChat := do
  let chatMid ← entry.dupStringOpt "chatMid"
  let extra := (entry.getObjectItemCaseSensitive "extra").filter (·.isObject)
  let groupExtra := (extra.bind (·.getObjectItemCaseSensitive "groupExtra")).filter (·.isObject)
  return {
    chatMid := chatMid
    createdTime := entry.getInt64 "createdTime"
    notificationDisabled := entry.getBool "notificationDisabled"
    favoriteTimestamp := entry.getInt64 "favoriteTimestamp"
    chatName := entry.dupStringOpt "chatName"
    picturePath := entry.dupStringOpt "picturePath"
    type := entry.getInt "type"
    creatorMid := groupExtra.bind (·.dupStringOpt "creatorMid")
    invitationTicket := groupExtra.bind (·.dupStringOpt "invitationTicket")
    raw := entry }

/-- The entries of one reply of getChats. -/
def chatBatch (r : LineResponse) : Option (List TalkChat) := do
  let data ← unwrapOk cj r
  if !data.isObject then none
  match data.getObjectItem "chats" with
  | some (.arr entries) => entries.mapM parseChatEntry
  | _ => none

def talkGetChats (mids : List String) (replies : Nat → LineResponse) : Option (List TalkChat) :=
  ((List.range (batchCount mids.length)).mapM fun k => chatBatch cj (replies k)).map List.flatten

/-! ## Message boxes -/

def parseMessageBoxEntry (entry : Json) : Option TalkMessageBox := do
  let id ← entry.dupStringOpt "id"
  let ldi := (entry.getObjectItemCaseSensitive "lastDeliveredMessageId").filter (·.isObject)
  return {
    id := id
    midType := entry.getInt "midType"
    lastDeliveredMessageId := ldi.bind (·.dupStringOpt "messageId")
    lastDeliveredTime := (ldi.map (·.getInt64 "deliveredTime")).getD 0
    lastSeenMessageId := entry.dupStringOpt "lastSeenMessageId"
    unreadCount := entry.getInt64 "unreadCount"
    raw := some entry }

/-- One page of getMessageBoxes: its boxes, whether more follow, and the last id. -/
structure BoxPage where
  boxes : List TalkMessageBox
  hasNext : Bool
  lastId : Option String

def boxPage (r : LineResponse) : Option BoxPage := do
  let data ← unwrapOk cj r
  match data.getObjectItem "messageBoxes" with
  | some (.arr entries) => do
    let boxes ← entries.mapM parseMessageBoxEntry
    return {
      boxes := boxes
      hasNext := ((data.getObjectItem "hasNext").bind Json.getBoolValue).getD false
      lastId := entries.getLast?.bind (·.stringItem "id") }
  | _ => none

/-- The loop of `talk_get_message_boxes`, with the id the next page starts from. -/
def messageBoxPages (minChatId : Option String) : List LineResponse → Option (List TalkMessageBox)
  | [] => none
  | r :: rs => do
    let page ← boxPage cj r
    if page.hasNext then
      match page.boxes.getLast?, page.lastId with
      | some last, some id =>
        if minChatId = some last.id then none
        else (messageBoxPages (some id) rs).map (page.boxes ++ ·)
      | _, _ => none
    else return page.boxes

def talkGetMessageBoxes (pages : List LineResponse) : Option (List TalkMessageBox) :=
  messageBoxPages cj none pages

/-! ## Messages -/

/-- talk_get_recent_messages: entries that do not parse are left out. -/
def talkGetRecentMessages (r : LineResponse) (chatId : String) : Option (List TalkMessage) :=
  match unwrapOk cj r with
  | some (.arr entries) => some (entries.filterMap fun entry => talkMessageParse entry (some chatId))
  | _ => none

/-! ## What a fetch that succeeds received -/

variable {cj}

theorem mapM_option_isSome {α β : Type} {f : α → Option β} {xs : List α} {ys : List β}
    (h : xs.mapM f = some ys) : ∀ x ∈ xs, (f x).isSome := by
  induction xs generalizing ys with
  | nil => exact fun _ hx => (List.not_mem_nil hx).elim
  | cons x xs ih =>
    rw [List.mapM_cons] at h
    obtain ⟨y, hy, h⟩ := Option.bind_eq_some_iff.mp h
    obtain ⟨ys', hys, -⟩ := Option.bind_eq_some_iff.mp h
    rw [List.forall_mem_cons]
    exact ⟨by rw [hy]; rfl, ih hys⟩

/-- Every batch of chats was received. -/
theorem talkGetChats_some {mids : List String} {replies : Nat → LineResponse}
    {chats : List TalkChat} (h : talkGetChats cj mids replies = some chats) :
    ∀ k < batchCount mids.length, (chatBatch cj (replies k)).isSome := by
  obtain ⟨batches, hb, -⟩ := Option.map_eq_some_iff.mp h
  exact fun k hk => mapM_option_isSome hb k (List.mem_range.mpr hk)

/-- The pages that list these boxes: all but the last say that more follow. -/
inductive Pages (cj : Cjson) : List LineResponse → List TalkMessageBox → Prop where
  | last {r : LineResponse} {rs : List LineResponse} {page : BoxPage}
      (hpage : boxPage cj r = some page) (hlast : page.hasNext = false) :
      Pages cj (r :: rs) page.boxes
  | more {r : LineResponse} {rs : List LineResponse} {page : BoxPage}
      {boxes : List TalkMessageBox} (hpage : boxPage cj r = some page)
      (hmore : page.hasNext = true) (hrest : Pages cj rs boxes) :
      Pages cj (r :: rs) (page.boxes ++ boxes)

/-- Every page of boxes was received. -/
theorem messageBoxPages_some {minChatId : Option String} {pages : List LineResponse}
    {boxes : List TalkMessageBox} (h : messageBoxPages cj minChatId pages = some boxes) :
    Pages cj pages boxes := by
  induction pages generalizing minChatId boxes with
  | nil => cases h
  | cons r rs ih =>
    obtain ⟨page, hpage, h⟩ := Option.bind_eq_some_iff.mp h
    split at h
    · rename_i hmore
      split at h
      · split at h
        · cases h
        · obtain ⟨rest, hrest, rfl⟩ := Option.map_eq_some_iff.mp h
          exact .more hpage hmore (ih hrest)
      · cases h
    · rename_i hlast
      obtain rfl := Option.some.inj h
      exact .last hpage (by simpa using hlast)

end Enil
