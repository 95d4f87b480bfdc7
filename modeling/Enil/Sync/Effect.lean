import Enil.Sync.Frame
import Mathlib.Logic.Function.Basic

/-!
# What an event does to the message tables

The effect of an event, read from the event and the remote answers alone, and its
step on the database. `deliver_eq` says that this step is what
`enil_sync_process_sse_event` does where no statement fails, so that questions
about sequences of events are questions about sequences of effects.
-/

namespace Enil

open Lib Lib.Sql Db

/-- What `decrypt_one_message` writes to a row without text. -/
inductive DecryptWrite where
  | text (text : Option String) (status : DecryptStatus)
  | plaintext (text : String) (rawJson : Json) (replace : Json)
  | encKm (km : String)

def DecryptWrite.apply (r : MessageRow) : DecryptWrite → MessageRow
  | text t status => { r with text := t, decryptStatus := status }
  | plaintext t raw replace =>
    { r with text := some t, rawJson := some raw, decryptStatus := .success,
             replaceJson := some (.printed replace) }
  | encKm km => { r with encKm := some km, decryptStatus := .success }

/-- `none` where there is no session to decrypt with. -/
def decryptWrite (cj : Cjson) (msg : Json) (result : DecryptResult) : Option DecryptWrite :=
  if !wantsDecrypt msg then some (.text none .notText)
  else match result with
    | .noSession => none
    | .plaintext t (some replace) => some (.plaintext t (withReplace cj msg replace) replace)
    | .plaintext t none => some (.text (some t) .success)
    | .keyMaterial km => some (.encKm km)
    | .nothing => some (.text none .failed)

/-- Whether the decrypted message names sticons that have to be fetched. -/
def DecryptWrite.hasReplace : DecryptWrite → Bool
  | plaintext _ _ _ => true
  | _ => false

/-- The attachment written to the row; `none` leaves the columns as they are. -/
def mediaWrite : MediaOutcome → Option (Option MediaInfo)
  | .cached info => if mediaComplete info then some (some info) else none
  | .downloaded info => some (if mediaComplete info then some info else none)
  | .unavailable => some none

/-- A message with all that its delivery writes; `row` is the one inserted for it. -/
structure StoreMessage where
  message : TalkMessage
  chatId : String
  row : MessageRow
  row_eq : ∃ cj, row = messageRow cj message chatId
  time : Int
  incoming : Bool
  decrypt : Option DecryptWrite
  media : Option (Option MediaInfo)

namespace StoreMessage

variable (e : StoreMessage)

/-- A reactions field overwrites the reactions of a stored row, else a missing text
is filled. -/
def overwriteOrFillRow (r : MessageRow) : MessageRow :=
  match reactionsExtractForStorage e.message with
  | some arr => { r with reactionsJson := arr }
  | none => if nonempty e.message.text && !nonempty r.text then fillTextColumns e.message r else r

/-- A missing REPLACE is filled. -/
def replaceRow (r : MessageRow) : MessageRow :=
  match messageReplaceJson e.message with
  | some replace =>
    if !replace.isEmpty && replaceMissing r then { r with replaceJson := some replace } else r
  | none => r

/-- The row after `enil_db_message_upsert`. -/
def upsertRow (old : Option MessageRow) : MessageRow :=
  old.elim e.row fun r => e.replaceRow (e.overwriteOrFillRow r)

def decryptRow (r : MessageRow) : Option MessageRow :=
  if nonempty r.text then some r else e.decrypt.map (DecryptWrite.apply r)

def mediaRow (r : MessageRow) : MessageRow :=
  e.media.elim r fun info => mediaColumns e.message.id r.chatId info r

/-- The row of the message after the delivery. -/
def stepRow (old : Option MessageRow) : Option MessageRow :=
  (e.decryptRow (e.upsertRow old)).map e.mediaRow

/-- The box of the chat after the delivery. -/
def stepBox (db : Db) (old : Option MessageBox) : MessageBox :=
  { old.getD {} with
    midType := some 0
    lastDeliveredMessageId := some e.message.id
    lastDeliveredTime := some e.time
    unreadCount := db.liveUnread (some e.message.id) e.incoming (old.getD {}).unreadCount }

end StoreMessage

inductive Effect where
  | skip
  | seen (chat : String) (messageId : Option String)
  | deleted (id : String)
  | peerRead (chat : String) (reader : Option String) (time : Int)
  | groupRead (chat reader : String) (time : Int)
  | react (id reactor : String) (entry : Option Json)
  | store (e : StoreMessage)

/-- The reactions after one change: the entry of the reactor goes, a new one is
added at the end. -/
def reactRow (reactor : String) (entry : Option Json) (arr : List Json) : List Json :=
  arr.filter (fun item => !isReactor reactor item) ++ entry.toList

def Effect.step : Effect → Db → Option Db
  | skip, db => some db
  | seen chat messageId, db =>
    some (db.onBoxes (·.update chat fun b =>
      { b with unreadCount := some 0, lastSeenMessageId := messageId })).2
  | deleted id, db =>
    some (db.onMessages (·.update id fun r => { r with isDeleted := true })).2
  | peerRead chat reader time, db =>
    some (db.onBoxes (·.updateIf chat (peerReadDue time) fun b =>
      { b with peerLastReadTime := some time, peerLastReaderMid := reader })).2
  | groupRead chat reader time, db => some (db.onReaders (upsertReader (chat, reader) time)).2
  | react id reactor entry, db =>
    some (db.onMessages (·.update id fun r =>
      { r with reactionsJson := reactRow reactor entry r.reactionsJson })).2
  | store e, db =>
    (e.stepRow (db.messages e.message.id)).map fun row =>
      (db.setBox e.chatId (e.stepBox db (db.messageBoxes e.chatId))).setRow e.message.id row

/-! ## The effect of an event -/

/-- A delivered event with the answers of the remote side. -/
structure Delivery where
  event : SseEvent
  remote : Remote

section

variable (cj : Cjson) (myMid : Option String)

def reactionEffect (op : TalkOperation) : Option Effect :=
  let curr := reactionCurr cj op
  let reactor := reactionReactor op myMid
  if nonempty op.param1 && nonempty reactor then
    some (.react (op.param1.getD "") (reactor.getD "")
      (if curr.isNone then none else some (reactionEntry (reactor.getD "")
        (reactionPredefinedType curr) (reactionPaid curr "productId")
        (reactionPaid curr "emojiId") op.createdTime)))
  else none

def readEffect (op : TalkOperation) : Option Effect :=
  if nonempty op.param1 then
    let chat := op.param1.getD ""
    if isOneToOne chat then some (.peerRead chat op.param2 op.createdTime)
    else if nonempty op.param2 then some (.groupRead chat (op.param2.getD "") op.createdTime)
    else none
  else none

/-- Whether the steps outside the message tables that the message needs succeeded. -/
def Remote.storesOk (remote : Remote) (msg : Json) : Bool :=
  remote.scan = .ok && remote.rescan = .ok && (!hasSticon msg || remote.sticons = .ok) &&
  (messageContentType msg ≠ some 7 || remote.sticker = .ok)

def storeEffect (remote : Remote) (root : Json) (op : TalkOperation) : Option Effect :=
  match op.message, root.getObjectItem "message" with
  | some m, some msg =>
    if nonempty m.chatId && m.id ≠ "" && remote.storesOk msg then
      some (.store {
        message := m
        chatId := m.chatId.getD ""
        row := messageRow cj m (m.chatId.getD "")
        row_eq := ⟨cj, rfl⟩
        time := ((msg.stringItem "createdTime").map Json.strtoll).getD 0
        incoming := isIncoming msg myMid
        decrypt := (decryptWrite cj msg remote.decrypt).filter fun w =>
          !w.hasReplace || remote.sticons = .ok
        media := if messageContentType msg = some 1 then mediaWrite remote.media else none })
    else none
  | _, _ => none

/-- `none` where the event fails whatever the database holds. -/
def effectOf (d : Delivery) : Option Effect :=
  let op := d.event.op myMid
  match op.type with
  | .notifiedReadMessage => readEffect op
  | .sendChatChecked =>
    if nonempty op.param1 then some (.seen (op.param1.getD "") op.param2) else none
  | .destroyMessage | .notifiedDestroyMessage =>
    if nonempty op.param2 then some (.deleted (op.param2.getD "")) else none
  | .updateContact | .updateChat | .notifiedUpdateChat =>
    if d.remote.refetch = .ok then some .skip else none
  | .sendReaction | .notifiedSendReaction => reactionEffect cj myMid op
  | .sendMessage | .receiveMessage => storeEffect cj myMid d.remote d.event.root op
  | .unhandled => some .skip

/-- The database after `enil_sync_process_sse_event` on a connection where no
statement fails; `none` where it returns an error. -/
def deliver (db : Db) (d : Delivery) : Option Db :=
  let r := processSseEvent cj myMid d.remote "message" (some d.event.root) { db := db }
  if r.1 = .ok then some r.2.db else none

end

/-! ## The functions on a connection where nothing fails -/

variable {cj : Cjson} {myMid : Option String}

/-- The result of a program as a partial step. -/
def outcome (r : Rc × Conn Db) : Option Db := if r.1 = .ok then some r.2.db else none

theorem outcome_exec {c : Conn Db} (h : c.faults = []) (stmt : Db → Nat × Db) :
    outcome (exec stmt c) = some (stmt c.db).2 := by
  rw [exec_quiet h]; rfl

theorem overwriteReactions_changed (m : TalkMessage) {c : Conn Db} (h : c.changes ≠ 0) :
    overwriteReactions m c = ((), c) := by
  unfold overwriteReactions
  cases reactionsExtractForStorage m with
  | some arr => dsimp only; rw [bind_apply, changes_apply, if_neg h]; rfl
  | none => rfl

theorem fillStoredText_changed (m : TalkMessage) {c : Conn Db} (h : c.changes ≠ 0) :
    fillStoredText m c = ((), c) := by
  unfold fillStoredText
  rw [bind_apply, changes_apply, if_neg (fun hn => h hn.1)]; rfl

/-- The two statements after an insert that changed nothing. -/
theorem overwriteOrFill_quiet (e : StoreMessage) {c : Conn Db} (h : c.faults = [])
    (hch : c.changes = 0) {r : MessageRow} (hr : c.db.messages e.message.id = some r) :
    (fillStoredText e.message (overwriteReactions e.message c).2).2.db =
      c.db.setRow e.message.id (e.overwriteOrFillRow r) := by
  cases hx : reactionsExtractForStorage e.message with
  | some arr =>
    have ho : (overwriteReactions e.message c).2 = { c with
        db := c.db.setRow e.message.id { r with reactionsJson := arr }, changes := 1 } := by
      unfold overwriteReactions
      simp only [hx, bind_apply, changes_apply, hch, if_true]
      change (exec _ c).2 = _
      rw [exec_quiet h, setReactionsJson, onMessages_update hr]
    rw [ho, fillStoredText_changed _ (by simp)]
    simp only [StoreMessage.overwriteOrFillRow, hx]
  | none =>
    have ho : overwriteReactions e.message c = ((), c) := by
      unfold overwriteReactions; simp only [hx]; rfl
    rw [ho]
    unfold fillStoredText
    simp only [bind_apply, changes_apply, hch, true_and, StoreMessage.overwriteOrFillRow, hx]
    by_cases ht : nonempty e.message.text
    · rw [if_pos ht]
      change (exec _ c).2.db = _
      rw [exec_quiet h, fillMessageText, onMessages_updateIf hr]
      simp only [ht, Bool.true_and]
    · rw [if_neg ht]
      simp only [ht, Bool.false_and, Bool.false_eq_true, if_false]
      exact (setRow_of_eq hr).symm

theorem fillReplaceJson_quiet (e : StoreMessage) {c : Conn Db} (h : c.faults = [])
    {r : MessageRow} (hr : c.db.messages e.message.id = some r) :
    (fillReplaceJson e.message c).1 = .ok ∧
    (fillReplaceJson e.message c).2.db = c.db.setRow e.message.id (e.replaceRow r) := by
  unfold fillReplaceJson StoreMessage.replaceRow
  cases messageReplaceJson e.message with
  | none => exact ⟨rfl, (setRow_of_eq hr).symm⟩
  | some replace =>
    simp only
    by_cases hempty : replace.isEmpty
    · simp only [hempty, if_true, Bool.not_true, Bool.false_and, Bool.false_eq_true, if_false]
      exact ⟨rfl, (setRow_of_eq hr).symm⟩
    · simp only [hempty, Bool.false_eq_true, if_false, Bool.not_false, Bool.true_and]
      rw [exec_quiet h, fillMessageReplaceJson, onMessages_updateIf hr]
      exact ⟨rfl, rfl⟩

/-- A new row keeps the REPLACE of its own message. -/
theorem replaceRow_messageRow (e : StoreMessage) (chatId : String) :
    e.replaceRow (messageRow cj e.message chatId) = messageRow cj e.message chatId := by
  unfold StoreMessage.replaceRow
  cases h : messageReplaceJson e.message with
  | none => rfl
  | some replace =>
    have hr : (messageRow cj e.message chatId).replaceJson = some replace := h
    cases he : replace.isEmpty <;> simp [replaceMissing, hr, he]

/-- `enil_db_message_upsert` writes the row `upsertRow` of the message. -/
theorem messageUpsert_quiet {e : StoreMessage} {c : Conn Db} (h : c.faults = [])
    (hid : e.message.id ≠ "") (hchat : nonempty e.message.chatId)
    (hrow : e.row = messageRow cj e.message (e.message.chatId.getD "")) :
    (messageUpsert cj e.message c).1 = .ok ∧
    (messageUpsert cj e.message c).2.db =
      c.db.setRow e.message.id (e.upsertRow (c.db.messages e.message.id)) := by
  have hne : e.message.chatId.getD "" ≠ "" := by
    cases hc : e.message.chatId <;> simp_all [nonempty]
  unfold messageUpsert
  rw [if_neg (by simp [hid, hne])]
  rw [bind_apply, exec_quiet h, if_neg (by simp)]
  simp only [bind_apply]
  cases hold : c.db.messages e.message.id with
  | none =>
    simp only [onMessages, Table.insertIgnore_of_none hold]
    rw [overwriteReactions_changed _ (by simp), fillStoredText_changed _ (by simp)]
    have hself : (c.db.setRow e.message.id e.row).messages e.message.id = some e.row :=
      setRow_messages_self _ _ _
    obtain ⟨hok, hdb⟩ := fillReplaceJson_quiet e (c := { c with
      db := c.db.setRow e.message.id e.row, changes := 1 }) h hself
    rw [hrow] at hok hdb
    rw [replaceRow_messageRow, setRow_setRow] at hdb
    refine ⟨hok, hdb.trans ?_⟩
    rw [StoreMessage.upsertRow, Option.elim_none, hrow]
  | some r =>
    simp only [onMessages, Table.insertIgnore_of_some hold]
    have hquiet : ((do overwriteReactions e.message; fillStoredText e.message : Sql Db Unit)
        { c with changes := 0 }).2.faults = [] :=
      Built.quiet (.bind (built_overwriteReactions _) fun _ => built_fillStoredText _) h
    have hmid := overwriteOrFill_quiet e (c := { c with changes := 0 }) h rfl hold
    obtain ⟨hok, hdb⟩ := fillReplaceJson_quiet e hquiet
      (hmid ▸ setRow_messages_self c.db e.message.id (e.overwriteOrFillRow r))
    refine ⟨hok, hdb.trans ?_⟩
    change (fillStoredText e.message (overwriteReactions e.message { c with changes := 0 }).2).2.db.setRow
      e.message.id _ = _
    rw [hmid, setRow_setRow]
    rfl

/-! ## The steps after the savepoint -/

theorem messageContentType_withReplace (msg replace : Json) :
    messageContentType (withReplace cj msg replace) = messageContentType msg := by
  have h : (withReplace cj msg replace).getObjectItem "contentType" =
      msg.getObjectItem "contentType" :=
    Json.find?_modifyItems_other (by decide) _ _
  unfold messageContentType
  rw [h]

/-- A decrypted REPLACE is found by the sticon check. -/
theorem hasSticon_withReplace {msg replace : Json} (h : wantsDecrypt msg) :
    hasSticon (withReplace cj msg replace) = true := by
  simp only [wantsDecrypt, isEncrypted, Bool.and_eq_true] at h
  obtain ⟨metadata, hmeta, -⟩ := (Option.any_eq_true ..).mp h.2.2
  have hget : (withReplace cj msg replace).getObjectItem "contentMetadata" =
      (msg.getObjectItem "contentMetadata").map _ := Json.find?_modifyItems_self _ _ _
  unfold hasSticon
  rw [hget, hmeta]
  simp only [Option.map_some, Option.filter_some, Json.isObject, if_true, Option.any_some,
    Bool.or_eq_true]
  right
  rw [Json.getObjectItem, Json.items_obj, Option.isSome_map, List.find?_isSome]
  exact ⟨_, List.mem_append_right _ (List.mem_singleton_self _), Json.keyEq_refl _⟩

theorem decryptOneMessage_quiet (cj : Cjson) {msg : Json} {id : String} {c : Conn Db}
    (h : c.faults = []) (hid : msg.stringItem "id" = some id) {r : MessageRow} (hr : c.db.messages id = some r)
    (result : DecryptResult) :
    outcome (decryptOneMessage cj msg result c) =
      (decryptWrite cj msg result).map fun w => c.db.setRow id (w.apply r) := by
  unfold decryptOneMessage decryptWrite
  simp only [hid]
  cases wantsDecrypt msg with
  | false =>
    simp only [Bool.not_false, if_true, setMessageText, outcome_exec h, onMessages_update hr]
    rfl
  | true =>
    simp only [Bool.not_true, Bool.false_eq_true, if_false]
    rcases result with _ | ⟨t, _ | replace⟩ | km | _
    · rfl
    all_goals
      simp only [setMessageText, setMessagePlaintext, setMessageEncKm, outcome_exec h,
        onMessages_update hr]
      rfl

theorem setMediaInfo_quiet {id : String} {c : Conn Db} (h : c.faults = []) {r : MessageRow}
    (hr : c.db.messages id = some r) (info : Option MediaInfo) :
    setMediaInfo id r.chatId info c = (.ok, { c with
      db := c.db.setRow id (mediaColumns id r.chatId info r), changes := 1 }) := by
  rw [setMediaInfo, exec_quiet h, onMessages_update hr]

theorem storeMediaInfo_quiet {id : String} {c : Conn Db} (h : c.faults = []) {r : MessageRow}
    (hr : c.db.messages id = some r) (info : MediaInfo) :
    outcome (storeMediaInfo id r.chatId info c) =
      some (if mediaComplete info then c.db.setRow id (mediaColumns id r.chatId (some info) r)
        else c.db) := by
  unfold storeMediaInfo
  cases mediaComplete info with
  | true => rw [if_pos rfl, if_pos rfl, setMediaInfo_quiet h hr]; rfl
  | false => rfl

/-- The attachment step writes the media columns that `mediaWrite` says. -/
theorem syncOneMessageMedia_quiet {id : String} (hid : id ≠ "") {c : Conn Db} (h : c.faults = [])
    {r : MessageRow} (hr : c.db.messages id = some r) (result : MediaOutcome) :
    outcome (syncOneMessageMedia id result c) =
      some (c.db.setRow id ((mediaWrite result).elim r fun info => mediaColumns id r.chatId info r)) := by
  unfold syncOneMessageMedia
  rw [if_neg hid, bind_apply, query_quiet h, hr]
  cases result with
  | cached info =>
    refine (storeMediaInfo_quiet h hr info).trans (congrArg some ?_)
    cases hm : mediaComplete info with
    | true => simp only [mediaWrite, hm, if_true]; rfl
    | false =>
      simp only [mediaWrite, hm, Bool.false_eq_true, if_false, Option.elim_none]
      exact (setRow_of_eq hr).symm
  | downloaded info =>
    simp only [Option.map_some, bind_apply, setMediaInfo_quiet h hr]
    rw [if_neg (by simp)]
    have hself := setRow_messages_self c.db id (mediaColumns id r.chatId none r)
    refine (storeMediaInfo_quiet (c := { c with
      db := c.db.setRow id (mediaColumns id r.chatId none r), changes := 1 }) h hself info).trans (congrArg some ?_)
    cases hm : mediaComplete info with
    | true => simp only [mediaWrite, hm, if_true, setRow_setRow]; rfl
    | false => simp only [mediaWrite, hm, Bool.false_eq_true, if_false]; rfl
  | unavailable =>
    simp only [Option.map_some, setMediaInfo_quiet h hr]
    rfl

theorem fetchMedia_quiet {remote : Remote} {msg : Json} {e : StoreMessage} {c : Conn Db}
    (h : c.faults = []) (hid : e.message.id ≠ "") {r : MessageRow}
    (hr : c.db.messages e.message.id = some r)
    (he : e.media = if messageContentType msg = some 1 then mediaWrite remote.media else none) :
    outcome (fetchMedia remote msg e.message c) =
      some (c.db.setRow e.message.id (e.mediaRow r)) := by
  unfold fetchMedia StoreMessage.mediaRow
  rw [he]
  split
  · exact syncOneMessageMedia_quiet hid h hr _
  · exact congrArg some (setRow_of_eq hr).symm

theorem outcome_eq_some {r : Rc × Conn Db} {d : Db} :
    outcome r = some d ↔ r.1 = .ok ∧ r.2.db = d := by
  unfold outcome
  split <;> simp_all

theorem outcome_eq_none {r : Rc × Conn Db} : outcome r = none ↔ r.1 = .error := by
  unfold outcome
  rcases r with ⟨_ | _, c⟩ <;> simp

/-- The scan and the decryption leave a row with text alone. -/
theorem scanAndDecrypt_quiet (cj : Cjson) {remote : Remote} (msg : Json) {m : TalkMessage}
    {c : Conn Db} (h : c.faults = []) (hscan : remote.scan = .ok) {r : MessageRow}
    (hr : c.db.messages m.id = some r) :
    scanAndDecrypt cj remote msg m c =
      if nonempty r.text then ((.ok, msg), c)
      else (((decryptOneMessage cj msg remote.decrypt c).1, decryptedMessage cj msg remote.decrypt),
        (decryptOneMessage cj msg remote.decrypt c).2) := by
  have hp : messageHasPlaintext m.id c = (nonempty r.text, c) := by
    unfold messageHasPlaintext
    rw [bind_apply, query_quiet h, hr]
    rfl
  unfold scanAndDecrypt
  simp only [hscan, ne_eq, not_true, if_false, bind_apply, hp]
  cases nonempty r.text <;> rfl

/-- Whether the steps outside the tables let the delivery succeed, once it is known
whether the message names sticons. -/
theorem sseMessageRest_scanned {remote : Remote} {msg msg' : Json} {e : StoreMessage} {rc : Rc}
    {c c' : Conn Db} (hc' : c'.faults = []) (hid : e.message.id ≠ "") {r : MessageRow}
    (hr : c'.db.messages e.message.id = some r)
    (he : e.media = if messageContentType msg' = some 1 then mediaWrite remote.media else none)
    (hscan : scanAndDecrypt cj remote msg e.message c = ((rc, msg'), c')) :
    outcome (sseMessageRest cj remote msg e.message c) =
      if rc = .ok ∧ remote.rescan = .ok ∧ (hasSticon msg' → remote.sticons = .ok) ∧
        (messageContentType msg' = some 7 → remote.sticker = .ok) then
        some (c'.db.setRow e.message.id (e.mediaRow r))
      else none := by
  obtain ⟨hok, hdb⟩ := outcome_eq_some.mp (fetchMedia_quiet hc' hid hr he)
  unfold sseMessageRest
  simp only [bind_apply, hscan, pure_apply, outcome, hok, hdb, Rc.and_eq_ok]
  congr 1
  cases hasSticon msg' <;> by_cases h7 : messageContentType msg' = some 7 <;> simp [h7]

theorem messageContentType_decryptedMessage (msg : Json) (result : DecryptResult) :
    messageContentType (decryptedMessage cj msg result) = messageContentType msg := by
  unfold decryptedMessage
  split
  · split
    · exact messageContentType_withReplace _ _
    · rfl
  · rfl

theorem hasSticon_decryptedMessage {msg : Json} {result : DecryptResult} {w : DecryptWrite}
    (h : decryptWrite cj msg result = some w) :
    hasSticon (decryptedMessage cj msg result) = (hasSticon msg || w.hasReplace) := by
  unfold decryptWrite at h
  cases hw : wantsDecrypt msg with
  | false =>
    rw [hw] at h
    cases h
    unfold decryptedMessage
    split <;> simp [hw, DecryptWrite.hasReplace]
  | true =>
    simp only [hw, Bool.not_true, Bool.false_eq_true, if_false] at h
    rcases result with _ | ⟨t, _ | replace⟩ | km | _
    · cases h
    all_goals cases h
    · simp [decryptedMessage, DecryptWrite.hasReplace]
    · simp [decryptedMessage, hw, DecryptWrite.hasReplace, hasSticon_withReplace hw]
    · simp [decryptedMessage, DecryptWrite.hasReplace]
    · simp [decryptedMessage, DecryptWrite.hasReplace]

/-- The steps after the savepoint write the row that `decryptRow` and `mediaRow` say. -/
theorem sseMessageRest_quiet {remote : Remote} {msg : Json} {e : StoreMessage} {c : Conn Db}
    (h : c.faults = []) (hid : e.message.id ≠ "") (hmsg : msg.stringItem "id" = some e.message.id)
    {r : MessageRow} (hr : c.db.messages e.message.id = some r)
    (hdec : e.decrypt = (decryptWrite cj msg remote.decrypt).filter fun w =>
      !w.hasReplace || remote.sticons = .ok)
    (hmedia : e.media = if messageContentType msg = some 1 then mediaWrite remote.media else none) :
    outcome (sseMessageRest cj remote msg e.message c) =
      if remote.storesOk msg then
        ((e.decryptRow r).map e.mediaRow).map (c.db.setRow e.message.id)
      else none := by
  by_cases hscan : remote.scan = .ok
  · have hs := scanAndDecrypt_quiet cj msg h hscan hr
    have hmedia' : e.media = if messageContentType (decryptedMessage cj msg remote.decrypt) = some 1
        then mediaWrite remote.media else none := by
      rw [messageContentType_decryptedMessage]; exact hmedia
    have hq := (built_decryptOneMessage cj msg remote.decrypt).quiet h
    cases ht : nonempty r.text with
    | true =>
      rw [ht, if_pos rfl] at hs
      rw [sseMessageRest_scanned h hid hr hmedia hs]
      simp only [StoreMessage.decryptRow, ht, if_true, Option.map_some, Remote.storesOk, hscan]
      cases hasSticon msg <;> simp [imp_iff_not_or, and_assoc]
    | false =>
      rw [ht, if_neg (by simp)] at hs
      have hout := decryptOneMessage_quiet cj h hmsg hr remote.decrypt
      cases hw : decryptWrite cj msg remote.decrypt with
      | none =>
        rw [hw, Option.map_none] at hout
        have hrow := (keepsIds_of_built (built_decryptOneMessage cj msg remote.decrypt) c).ids
          e.message.id
        rw [hr] at hrow
        obtain ⟨r', hr'⟩ := Option.isSome_iff_exists.mp hrow
        rw [sseMessageRest_scanned hq hid hr' hmedia' hs]
        simp [outcome_eq_none.mp hout, StoreMessage.decryptRow, ht, hdec, hw]
      | some w =>
        rw [hw, Option.map_some] at hout
        obtain ⟨hok, hdb⟩ := outcome_eq_some.mp hout
        have hr' := setRow_messages_self c.db e.message.id (w.apply r)
        rw [← hdb] at hr'
        rw [sseMessageRest_scanned hq hid hr' hmedia' hs, hok, hdb, setRow_setRow,
          messageContentType_decryptedMessage, hasSticon_decryptedMessage hw]
        simp only [StoreMessage.decryptRow, ht, Bool.false_eq_true, if_false, hdec, hw,
          Option.filter_some, Remote.storesOk, hscan]
        cases hasSticon msg <;> cases w.hasReplace <;> by_cases hst : remote.sticons = .ok <;>
          simp [hst, imp_iff_not_or]
  · have hs : scanAndDecrypt cj remote msg e.message c = ((.error, msg), c) := by
      unfold scanAndDecrypt; simp [hscan]
    rw [sseMessageRest_scanned h hid hr hmedia hs]
    simp [Remote.storesOk, hscan]

/-! ## The whole event -/

theorem upsertChatForMessage_quiet {msg : Json} {id : String} (chatId : String)
    (myMid : Option String) {c : Conn Db} (h : c.faults = []) (hid : msg.stringItem "id" = some id) :
    (upsertChatForMessage msg chatId myMid c).1 = .ok ∧
    (upsertChatForMessage msg chatId myMid c).2.faults = [] ∧
    (upsertChatForMessage msg chatId myMid c).2.db = c.db.setBox chatId
      { (c.db.messageBoxes chatId).getD {} with
        midType := some 0
        lastDeliveredMessageId := some id
        lastDeliveredTime := some (((msg.stringItem "createdTime").map Json.strtoll).getD 0)
        unreadCount := c.db.liveUnread (some id) (isIncoming msg myMid)
          ((c.db.messageBoxes chatId).getD {}).unreadCount } := by
  unfold upsertChatForMessage messageBoxUpsertLiveMessage
  rw [bind_apply, exec_quiet h, if_neg (by simp)]
  dsimp only
  rw [exec_quiet (by exact h), hid]
  refine ⟨rfl, h, ?_⟩
  simp only [updateMessageBoxV2LiveMessage, insertMessageBoxV2Row, onBoxes, setBox]
  cases hb : c.db.messageBoxes chatId with
  | none =>
    have hins := Table.insertIgnore_of_none hb {}
    rw [hins, Table.update_of_some (Function.update_self ..), Function.update_idem]
    rfl
  | some b =>
    rw [Table.insertIgnore_of_some hb, Table.update_of_some hb]
    rfl

/-- The savepoint body stores the box and the row of the message. -/
theorem sseMessage_quiet {msg : Json} (e : StoreMessage) {c : Conn Db} (h : c.faults = [])
    (hmsg : msg.stringItem "id" = some e.message.id) (hid : e.message.id ≠ "")
    (hchat : nonempty e.message.chatId)
    (hrow : e.row = messageRow cj e.message (e.message.chatId.getD ""))
    (htime : e.time = ((msg.stringItem "createdTime").map Json.strtoll).getD 0)
    (hin : e.incoming = isIncoming msg myMid) :
    (sseMessage cj msg e.message e.chatId myMid c).1 = .ok ∧
    (sseMessage cj msg e.message e.chatId myMid c).2.db =
      (c.db.setBox e.chatId (e.stepBox c.db (c.db.messageBoxes e.chatId))).setRow e.message.id
        (e.upsertRow (c.db.messages e.message.id)) := by
  obtain ⟨hok, hq, hdb⟩ := upsertChatForMessage_quiet e.chatId myMid h hmsg
  obtain ⟨hok', hdb'⟩ := messageUpsert_quiet hq hid hchat hrow
  unfold sseMessage
  rw [bind_apply, if_neg (by simp [hok])]
  refine ⟨hok', hdb'.trans ?_⟩
  rw [hdb, StoreMessage.stepBox, htime, hin]
  rfl

/-- A message event writes its box and its row as its effect says. -/
theorem applyOpMessage_quiet {d : Delivery} {c : Conn Db} (h : c.faults = []) :
    outcome (applyOpMessage cj d.remote d.event.root (d.event.op myMid) myMid c) =
      (storeEffect cj myMid d.remote d.event.root (d.event.op myMid)).bind (·.step c.db) := by
  unfold applyOpMessage storeEffect
  cases hm : (d.event.op myMid).message with
  | none => rfl
  | some m =>
    obtain ⟨msg, hget, hmsg⟩ := d.event.msg_of_message hm
    simp only [hget]
    cases hchat : nonempty m.chatId with
    | false => rfl
    | true =>
      simp only [if_true, Bool.true_and, bind_apply]
      by_cases hid : m.id = ""
      · have hfail : (atomically (sseMessage cj msg m (m.chatId.getD "") myMid) c).1 ≠ .ok := by
          intro hok
          have hbody := (atomically_ok hok).1
          unfold sseMessage at hbody
          rw [(checked_ok hbody).2] at hbody
          exact (messageUpsert_ok hbody).1 hid
        rw [if_neg hfail]
        simp only [hid, ne_eq, not_true, decide_false, Bool.false_and, Bool.false_eq_true, if_false,
          Option.bind_none]
        rw [outcome_eq_none]
        generalize hrc : (atomically (sseMessage cj msg m (m.chatId.getD "") myMid) c).1 = rc
        rw [hrc] at hfail
        cases rc with
        | ok => exact absurd rfl hfail
        | error => rfl
      · generalize he : ({
            message := m
            chatId := m.chatId.getD ""
            row := messageRow cj m (m.chatId.getD "")
            row_eq := ⟨cj, rfl⟩
            time := ((msg.stringItem "createdTime").map Json.strtoll).getD 0
            incoming := isIncoming msg myMid
            decrypt := (decryptWrite cj msg d.remote.decrypt).filter fun w =>
              !w.hasReplace || d.remote.sticons = .ok
            media := if messageContentType msg = some 1 then mediaWrite d.remote.media
              else none } : StoreMessage) = e
        have hopen : (opened c).faults = [] := by simp [opened, h]
        obtain ⟨hok, hdb⟩ := sseMessage_quiet e hopen
          (by rw [← he]; exact hmsg) (by rw [← he]; exact hid) (by rw [← he]; exact hchat)
          (by rw [← he]) (by rw [← he]) (by rw [← he])
        obtain ⟨hok', hdb', hq⟩ := atomically_quiet (built_sseMessage _ _ _ _ _) h hok
        have hm' : m = e.message := by rw [← he]
        have hchat' : m.chatId.getD "" = e.chatId := by rw [← he]
        rw [hchat', hm', if_pos hok']
        have hrow : (atomically (sseMessage cj msg e.message e.chatId myMid) c).2.db.messages
            e.message.id = some (e.upsertRow (c.db.messages e.message.id)) := by
          rw [hdb', hdb]; exact setRow_messages_self _ _ _
        rw [sseMessageRest_quiet hq (by rw [← hm']; exact hid) (by rw [← hm']; exact hmsg) hrow
          (by rw [← he]) (by rw [← he])]
        have hne : (decide (e.message.id ≠ "")) = true := by rw [← hm']; simpa using hid
        rw [hne, Bool.true_and]
        split
        · rw [hdb', hdb]
          simp only [Option.bind_some, Effect.step, StoreMessage.stepRow]
          congr 1
          funext row
          exact setRow_setRow _ _ _ _
        · rfl

theorem reactRow_none_of_length {reactor : String} {arr : List Json}
    (h : (arr.filter fun item => !isReactor reactor item).length = arr.length) :
    reactRow reactor none arr = arr := by
  rw [reactRow, Option.toList_none, List.append_nil]
  exact List.filter_sublist.eq_of_length h

theorem messageReactionsUpdate_quiet {id reactor : String} {isRemove : Bool}
    {predefinedType : Int} {productId emojiId : Option String} {time : Int} {c : Conn Db}
    (h : c.faults = []) :
    outcome (messageReactionsUpdate id reactor isRemove predefinedType productId emojiId time c) =
      (Effect.react id reactor (if isRemove then none
        else some (reactionEntry reactor predefinedType productId emojiId time))).step c.db := by
  unfold messageReactionsUpdate Effect.step
  rw [bind_apply, query_quiet h]
  cases hr : c.db.messages id with
  | none =>
    simp only [Option.map_none, onMessages_update_none hr]
    rfl
  | some r =>
    simp only [Option.map_some, onMessages_update hr]
    cases isRemove with
    | true =>
      simp only [if_true]
      split
      · rename_i hlen
        rw [reactRow_none_of_length hlen]
        exact congrArg some (setRow_of_eq hr).symm
      · rw [setReactionsJson, outcome_exec h, onMessages_update hr, reactRow, Option.toList_none,
          List.append_nil]
    | false =>
      simp only [Bool.false_eq_true, if_false]
      rw [setReactionsJson, outcome_exec h, onMessages_update hr]
      rfl

theorem applyOpReaction_quiet {op : TalkOperation} {c : Conn Db} (h : c.faults = []) :
    outcome (applyOpReaction cj op myMid c) =
      (reactionEffect cj myMid op).bind (·.step c.db) := by
  unfold applyOpReaction reactionEffect
  simp only []
  split
  · exact messageReactionsUpdate_quiet h
  · rfl

theorem applyOpRead_quiet {op : TalkOperation} {c : Conn Db} (h : c.faults = []) :
    outcome (applyOpRead op c) = (readEffect op).bind (·.step c.db) := by
  unfold applyOpRead readEffect
  cases hp : op.param1 with
  | none => rfl
  | some chat =>
    simp only [Option.getD_some]
    cases hn : nonempty (some chat) with
    | false => rfl
    | true =>
      have hchat : chat ≠ "" := by simpa [nonempty] using hn
      simp only [if_true]
      split
      · rw [messageBoxSetPeerRead, if_neg hchat, outcome_exec h]; rfl
      · split
        · rename_i hreader
          have hr : op.param2.getD "" ≠ "" := by
            cases hp2 : op.param2 <;> simp_all [nonempty]
          rw [messageBoxSetGroupReader, if_neg (by simp [hchat, hr]), outcome_exec h]
          rfl
        · rfl

/-- On a connection where no statement fails, an event does what its effect does. -/
theorem deliver_eq (db : Db) (d : Delivery) :
    deliver cj myMid db d = (effectOf cj myMid d).bind (·.step db) := by
  change outcome (applyOp cj d.remote d.event.root (d.event.op myMid) myMid { db := db }) = _
  unfold applyOp effectOf
  simp only []
  cases (d.event.op myMid).type with
  | sendMessage => exact applyOpMessage_quiet rfl
  | receiveMessage => exact applyOpMessage_quiet rfl
  | sendReaction => exact applyOpReaction_quiet rfl
  | notifiedSendReaction => exact applyOpReaction_quiet rfl
  | notifiedReadMessage => exact applyOpRead_quiet rfl
  | sendChatChecked =>
    simp only []
    split
    · rw [messageBoxMarkSeen, outcome_exec rfl]; rfl
    · rfl
  | destroyMessage =>
    simp only []
    split
    · rw [messageMarkDeleted, outcome_exec rfl]; rfl
    · rfl
  | notifiedDestroyMessage =>
    simp only []
    split
    · rw [messageMarkDeleted, outcome_exec rfl]; rfl
    · rfl
  | updateContact => cases d.remote.refetch <;> rfl
  | updateChat => cases d.remote.refetch <;> rfl
  | notifiedUpdateChat => cases d.remote.refetch <;> rfl
  | unhandled => rfl

end Enil
