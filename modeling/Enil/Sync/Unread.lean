import Enil.Sync.Frame
import Enil.Lib.Tally
import Mathlib.Data.List.Dedup

/-!
# Unread counting under redelivery and failure

A chat's box is watched over deliveries of its message events, with repeats and
with any statement failing, and over marks as seen. The log beside the database
records each message when its row appears and each reset of the count; the count
is the number of incoming messages in the log since the last reset.
-/

namespace Enil

open Lib Lib.Sql Db

/-! ## One delivery -/

/-- A SEND_MESSAGE or RECEIVE_MESSAGE event of a chat. -/
structure MessageEvent (myMid : Option String) (chat : String) extends SseEvent where
  isMessage : (talkOperationParse root myMid).type = .sendMessage ∨
    (talkOperationParse root myMid).type = .receiveMessage
  ofChat : ∀ m, (talkOperationParse root myMid).message = some m → m.chatId = some chat

/-- The unread count the chat list shows: NULL and no row read as 0. -/
def unreadCount (db : Db) (chat : String) : Int :=
  ((db.messageBoxes chat).bind (·.unreadCount)).getD 0

variable {cj : Cjson} {myMid : Option String} {chat : String}

namespace MessageEvent

variable (e : MessageEvent myMid chat)

def message : Option TalkMessage := (e.op myMid).message

variable (cj) in
/-- The event handed to `enil_sync_process_sse_event`. -/
def process (remote : Remote) : Sql Db Rc :=
  processSseEvent cj myMid remote "message" (some e.root)

theorem process_of_message {m : TalkMessage} {msg : Json} (hm : e.message = some m)
    (hmsg : e.root.getObjectItem "message" = some msg) (remote : Remote) :
    e.process cj remote = (if nonempty (some chat) then do
        let rc ← atomically (sseMessage cj msg m chat myMid)
        if rc = .ok then sseMessageRest cj remote msg m else return rc
      else pure .error) := by
  have hop : (talkOperationParse e.root myMid).message = some m := hm
  have hchat := e.ofChat m hop
  simp only [process, processSseEvent, applyOp]
  rcases e.isMessage with h | h <;>
    simp [h, applyOpMessage, hop, hmsg, hchat]

theorem process_of_no_message (hm : e.message = none) (remote : Remote) :
    e.process cj remote = pure .error := by
  have hop : (talkOperationParse e.root myMid).message = none := hm
  simp only [process, processSseEvent, applyOp]
  rcases e.isMessage with h | h <;> simp [h, applyOpMessage, hop]

/-- A delivery whose savepoint fails changes nothing. -/
theorem process_of_savepoint_error (remote : Remote) {m : TalkMessage} {msg : Json}
    (hm : e.message = some m) (hmsg : e.root.getObjectItem "message" = some msg) {c : Conn Db}
    (h : (atomically (sseMessage cj msg m chat myMid) c).1 ≠ .ok) :
    (e.process cj remote c).2.db = c.db := by
  rw [e.process_of_message hm hmsg]
  split
  · rw [bind_apply, if_neg h]
    exact atomically_error (built_sseMessage _ _ _ _ _) h
  · rfl

end MessageEvent

/-- What the unread count becomes when a message is stored that may be there. -/
def countStored (before : Db) (id : String) (incoming : Bool) (unread : Int) : Int :=
  if (before.messages id).isNone then (if incoming then unread + 1 else 0) else unread

theorem liveUnread_getD {d : Db} {id : String} (hid : id ≠ "") (incoming : Bool)
    (unread : Option Int) :
    (d.liveUnread (some id) incoming unread).getD 0 =
      countStored d id incoming (unread.getD 0) := by
  unfold liveUnread countStored
  cases h : d.messages id <;> cases incoming <;> simp [nonempty, hid, h]

/-- The savepoint body, where it succeeds, stores the message and counts it. -/
theorem sseMessage_ok {msg : Json} {m : TalkMessage} {c : Conn Db}
    (hid : msg.stringItem "id" = some m.id) (h : (sseMessage cj msg m chat myMid c).1 = .ok) :
    (∀ id, ((sseMessage cj msg m chat myMid c).2.db.messages id).isSome =
      ((c.db.messages id).isSome || id == m.id)) ∧
    unreadCount (sseMessage cj msg m chat myMid c).2.db chat =
      countStored c.db m.id (isIncoming msg myMid) (unreadCount c.db chat) := by
  unfold sseMessage at h ⊢
  obtain ⟨hup, heq⟩ := checked_ok h
  rw [heq] at h ⊢
  obtain ⟨hne, hboxes, hids⟩ := messageUpsert_ok h
  obtain ⟨hmsgs, -, -, hbox⟩ := messageBoxUpsertLiveMessage_ok hup
  refine ⟨fun id => ?_, ?_⟩
  · rw [hids]
    exact congrArg (fun t : Table String MessageRow => (t id).isSome || id == m.id) hmsgs
  · have hunread : unreadCount (upsertChatForMessage msg chat myMid c).2.db chat =
        (c.db.liveUnread (msg.stringItem "id") (isIncoming msg myMid)
          ((c.db.messageBoxes chat).getD {}).unreadCount).getD 0 := by
      unfold unreadCount
      rw [show (upsertChatForMessage msg chat myMid c).2.db.messageBoxes chat = _ from hbox]
      rfl
    unfold unreadCount at hunread ⊢
    rw [hboxes, hunread, hid, liveUnread_getD hne]
    cases c.db.messageBoxes chat <;> rfl

variable (cj) in
/-- What one delivery can do: nothing, or store the message and count it if it was
not stored before, whatever fails after the savepoint. -/
theorem deliver_cases (e : MessageEvent myMid chat) (remote : Remote) (c : Conn Db) :
    (e.process cj remote c).2.db = c.db ∨
    ∃ m msg, e.message = some m ∧ e.root.getObjectItem "message" = some msg ∧
      (∀ id, ((e.process cj remote c).2.db.messages id).isSome =
        ((c.db.messages id).isSome || id == m.id)) ∧
      unreadCount (e.process cj remote c).2.db chat =
        countStored c.db m.id (isIncoming msg myMid) (unreadCount c.db chat) := by
  cases hm : e.message with
  | none => left; rw [e.process_of_no_message hm]; rfl
  | some m =>
    obtain ⟨msg, hmsg, hid⟩ := e.msg_of_message hm
    by_cases hok : (atomically (sseMessage cj msg m chat myMid) c).1 = .ok
    · by_cases hchat : nonempty (some chat)
      · right
        refine ⟨m, msg, rfl, hmsg, ?_⟩
        rw [e.process_of_message hm hmsg, if_pos hchat, bind_apply, if_pos hok]
        have hrest := keepsIds_of_built (built_sseMessageRest cj remote msg m)
          (atomically (sseMessage cj msg m chat myMid) c).2
        obtain ⟨hbody, hdb⟩ := atomically_ok hok
        obtain ⟨hids, hcount⟩ := sseMessage_ok hid hbody
        rw [hdb] at hrest
        refine ⟨fun id => (hrest.ids id).trans (hids id), ?_⟩
        have hkeep : unreadCount (sseMessageRest cj remote msg m
            (atomically (sseMessage cj msg m chat myMid) c).2).2.db chat =
            unreadCount (sseMessage cj msg m chat myMid (opened c)).2.db chat := by
          unfold unreadCount; rw [hrest.boxes]
        exact hkeep.trans hcount
      · left; rw [e.process_of_message hm hmsg, if_neg hchat]; rfl
    · left; exact e.process_of_savepoint_error _ hm hmsg hok

/-! ## Runs -/

/-- What happens to the chat: a delivery, or a mark as seen; `faults` are the
statements of the step that fail. -/
inductive ChatStep (myMid : Option String) (chat : String) where
  | deliver (e : MessageEvent myMid chat) (remote : Remote) (faults : List Bool)
  | markSeen (messageId : Option String) (faults : List Bool)

structure Watch where
  conn : Conn Db
  /-- The messages first stored, an outgoing one as a reset, and the marks as seen. -/
  log : List (Entry String) := []

/-- The entry of a delivery that made the row of its message appear. -/
def firstStored (e : MessageEvent myMid chat) (before after : Db) : List (Entry String) :=
  match e.message, e.root.getObjectItem "message" with
  | some m, some msg =>
    if (before.messages m.id).isNone && (after.messages m.id).isSome then
      [if isIncoming msg myMid then .add m.id else .reset]
    else []
  | _, _ => []

variable (cj) in
def Watch.step (w : Watch) : ChatStep myMid chat → Watch
  | .deliver e remote faults =>
    let c := (e.process cj remote { w.conn with faults := faults }).2
    { conn := c, log := w.log ++ firstStored e w.conn.db c.db }
  | .markSeen messageId faults =>
    let r := messageBoxMarkSeen chat messageId { w.conn with faults := faults }
    { conn := r.2, log := w.log ++ if r.1 = .ok then [.reset] else [] }

/-- The count is the tally of the log, whose messages are stored once each. -/
structure Watch.Counted (chat : String) (w : Watch) : Prop where
  count : unreadCount w.conn.db chat = (Entry.since w.log).length
  nodup : (Entry.since w.log).Nodup
  stored : ∀ id ∈ Entry.since w.log, (w.conn.db.messages id).isSome

namespace Watch

/-- A step that changes neither the database nor the log keeps the tally. -/
theorem Counted.of_db_eq {w : Watch} (h : w.Counted chat) {c : Conn Db} (hdb : c.db = w.conn.db) :
    Counted chat ⟨c, w.log ++ []⟩ := by
  rw [List.append_nil]
  exact ⟨by simpa only [hdb] using h.count, h.nodup, by simpa only [hdb] using h.stored⟩

theorem Counted.deliver {w : Watch} (h : w.Counted chat) (e : MessageEvent myMid chat)
    (remote : Remote) (faults : List Bool) :
    (w.step cj (.deliver e remote faults)).Counted chat := by
  obtain hdb | ⟨m, msg, hm, hmsg, hids, hcount⟩ :=
    deliver_cases cj e remote { w.conn with faults := faults }
  · have hlog : firstStored e w.conn.db w.conn.db = [] := by
      unfold firstStored
      split
      · rename_i m msg _ _; cases w.conn.db.messages m.id <;> rfl
      · rfl
    simp only [step, hdb, hlog]
    exact h.of_db_eq hdb
  · simp only [step, firstStored, hm, hmsg, hids, beq_self_eq_true, Bool.or_true, Bool.and_true]
    simp only [countStored] at hcount
    by_cases hnew : (w.conn.db.messages m.id).isNone
    · rw [if_pos hnew] at hcount ⊢
      by_cases hin : isIncoming msg myMid
      · rw [if_pos hin] at hcount ⊢
        have hfresh : m.id ∉ Entry.since w.log := fun hmem => by
          have := h.stored _ hmem
          rw [Option.isNone_iff_eq_none] at hnew
          rw [hnew] at this; cases this
        refine ⟨?_, ?_, fun id hid => ?_⟩
        · rw [hcount, h.count, Entry.since_add]; simp
        · rw [Entry.since_add, List.nodup_append]
          refine ⟨h.nodup, by simp, fun a ha b hb hab => ?_⟩
          rw [List.mem_singleton] at hb
          exact hfresh (hb ▸ hab ▸ ha)
        · rw [Entry.since_add, List.mem_append, List.mem_singleton] at hid
          rw [hids]
          rcases hid with hid | rfl
          · rw [h.stored id hid]; rfl
          · simp
      · rw [if_neg hin] at hcount ⊢
        exact ⟨by rw [hcount]; simp, by simp, by simp⟩
    · rw [if_neg hnew] at hcount ⊢
      rw [List.append_nil]
      exact ⟨hcount.trans h.count, h.nodup, fun id hid => by rw [hids, h.stored id hid]; rfl⟩

theorem Counted.markSeen {w : Watch} (h : w.Counted chat) (messageId : Option String)
    (faults : List Bool) :
    (w.step cj (.markSeen messageId faults : ChatStep myMid chat)).Counted chat := by
  simp only [step]
  by_cases hok : (messageBoxMarkSeen chat messageId { w.conn with faults := faults }).1 = .ok
  · rw [if_pos hok]
    refine ⟨?_, by simp, by simp⟩
    have hdb : (messageBoxMarkSeen chat messageId { w.conn with faults := faults }).2.db = _ :=
      exec_ok hok
    simp only [unreadCount, hdb, onBoxes, Table.update_same, Entry.since_reset]
    cases w.conn.db.messageBoxes chat <;> rfl
  · rw [if_neg hok]
    exact h.of_db_eq (exec_error hok)

theorem Counted.step {w : Watch} (h : w.Counted chat) (s : ChatStep myMid chat) :
    (w.step cj s).Counted chat := by
  cases s with
  | deliver e remote faults => exact h.deliver e remote faults
  | markSeen messageId faults => exact h.markSeen messageId faults

theorem Counted.run {w : Watch} (h : w.Counted chat) (steps : List (ChatStep myMid chat)) :
    (steps.foldl (Watch.step cj) w).Counted chat := by
  induction steps generalizing w with
  | nil => exact h
  | cons s ss ih => exact ih (h.step s)

end Watch

/-- **Exactly-once unread counting.** After any deliveries of a chat's message
events and marks as seen, with any failures, from no unread messages: the count is
the number of distinct incoming ids first stored since the last first-stored
outgoing message or mark, and a further delivery whose savepoint fails leaves the
box and the message row as they are. -/
theorem unread_exactly_once (c : Conn Db) (h0 : unreadCount c.db chat = 0)
    (steps : List (ChatStep myMid chat)) :
    let w := steps.foldl (Watch.step cj) { conn := c }
    unreadCount w.conn.db chat = (Entry.since w.log).dedup.length ∧
    ∀ (e : MessageEvent myMid chat) (remote : Remote) (faults : List Bool) (m : TalkMessage)
      (msg : Json), e.message = some m → e.root.getObjectItem "message" = some msg →
      let before : Conn Db := { w.conn with faults := faults }
      (atomically (sseMessage cj msg m chat myMid) before).1 ≠ .ok →
      (e.process cj remote before).2.db.messageBoxes chat = before.db.messageBoxes chat ∧
      (e.process cj remote before).2.db.messages m.id = before.db.messages m.id := by
  intro w
  have hw : w.Counted chat := Watch.Counted.run ⟨by simpa using h0, by simp, by simp⟩ steps
  refine ⟨by rw [hw.nodup.dedup]; exact hw.count, ?_⟩
  intro e remote faults m msg hm hmsg before hfail
  have hdb := e.process_of_savepoint_error remote hm hmsg hfail
  exact ⟨by rw [hdb], by rw [hdb]⟩

/-! ## A redelivered message -/

/-- A Cjson for data that holds no printed JSON. -/
def plainJson : Cjson := ⟨fun _ => none, fun _ => ""⟩

def Db.empty : Db := ⟨fun _ => none, fun _ => none, fun _ => none⟩

/-- A RECEIVE_MESSAGE of `peer` to `me`. -/
def receiveEvent (id text : String) : Json :=
  .obj [("type", .num 26), ("message", .obj [("id", .str id), ("from", .str "peer"),
    ("to", .str "me"), ("createdTime", .str "1700000000000"), ("text", .str text)])]

def receivedFromPeer : MessageEvent (some "me") "peer" where
  toSseEvent := .ofJson (receiveEvent "m1" "hello") (by decide) (by decide)
  isMessage := by decide
  ofChat := by
    intro m hm
    have h : ((talkOperationParse (receiveEvent "m1" "hello") (some "me")).message.map
      (·.chatId)) = some (some "peer") := by decide
    rw [show (talkOperationParse (receiveEvent "m1" "hello") (some "me")).message = some m from hm]
      at h
    simpa using h

/-- The first delivery fails at the insert, the second after the savepoint, the
third succeeds: one unread message. -/
theorem unread_exactly_once_redelivered :
    let w := [ChatStep.deliver receivedFromPeer {} [false, false, false, true],
      .deliver receivedFromPeer { scan := .error } [],
      .deliver receivedFromPeer {} []].foldl (Watch.step plainJson) { conn := { db := Db.empty } }
    unreadCount w.conn.db "peer" = (Entry.since w.log).dedup.length ∧ Entry.since w.log = ["m1"] :=
  ⟨(unread_exactly_once { db := Db.empty } rfl _).1, by decide⟩

end Enil
