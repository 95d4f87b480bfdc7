import Enil.Account.History
import Enil.Format.JsCall
import Enil.Lib.Latest
import Enil.Line.Talk
import Enil.Sync.ReadMarks

/-!
# Where read marks are shown

A chat page puts a mark under the last own message that the peer, or a member of the
group, has read. A read receipt from the event stream moves the mark by a script. Both find
the message by queries of their own, and a mark is a message id with a label.
-/

namespace Enil

open Lib

/-- The tables a chat page and its read marks are made from. `enil_db_message_upsert` stores
no message without an id, and `enil_db_message_box_set_group_reader` no reader without a mid. -/
structure MarkTables where
  messages : MessageTable
  messages_named : ∀ m ∈ messages.rows, m.1 ≠ ""
  messageBoxes : Table String MessageBox
  /-- message_box_readers_v2: the read time by chat and reader. -/
  readers : List ((String × String) × Int)
  readers_nodup : (readers.map Prod.fst).Nodup
  readers_named : ∀ r ∈ readers, r.1.2 ≠ ""
  contacts : Table String TalkContact

structure GroupReader where
  readerMid : String
  displayName : String
  lastReadMessageId : String

inductive ReadLabel where
  | read
  | reader (mid name : String)
  deriving DecidableEq, Repr

/-- A mark is a label under the message of an id. -/
abbrev ReadMark := String × ReadLabel

/-! ## Queries -/

/-- The condition of the queries for the last message read. -/
def readBefore (myMid : String) (time : Int) (m : StoredMessage) : Bool :=
  m.2.fromMid == some myMid && !m.2.isDeleted && decide (createdAt m ≤ time)

namespace MarkTables

variable (o : Descending createdAt) (t : MarkTables)

/-- The last own message up to a time. -/
def lastRead (chat myMid : String) (time : Int) : Option String :=
  nonemptyText ((o.latest (readBefore myMid time) (t.messages.chat chat)).map Prod.fst)

def peerTime (chat : String) : Option Int := (t.messageBoxes chat).bind (·.peerLastReadTime)

/-- enil_db_message_box_get_peer_last_read_time. -/
def getPeerLastReadTime (chat : String) : Int := (t.peerTime chat).getD 0

def lastReadOutgoingMsgId (chat myMid : String) : Option String :=
  if chat = "" ∨ myMid = "" then none
  else (t.peerTime chat).bind (t.lastRead o chat myMid)

/-- The name of a reader, who may be no contact. -/
def readerName (mid : String) : String :=
  ((t.contacts mid).bind fun c => c.displayNameOverridden.or c.displayName).getD mid

def groupReader (chat myMid : String) (r : (String × String) × Int) : Option GroupReader :=
  (t.lastRead o chat myMid r.2).map fun id => ⟨r.1.2, t.readerName r.1.2, id⟩

/-- enil_db_message_box_get_group_readers; no rows where it fails. -/
def getGroupReaders (chat myMid : String) : List GroupReader :=
  if chat = "" ∨ myMid = "" then []
  else (t.readers.filter fun r => r.1.1 = chat ∧ r.1.2 ≠ myMid).filterMap
    (t.groupReader o chat myMid)

def readerRow (chat reader : String) : Option ((String × String) × Int) :=
  t.readers.find? fun r => r.1 = (chat, reader)

/-- enil_db_message_box_get_group_reader; none too where there is no message. -/
def getGroupReader (chat reader myMid : String) : Option GroupReader :=
  if chat = "" ∨ reader = "" ∨ myMid = "" then none
  else (t.readerRow chat reader).bind (t.groupReader o chat myMid)

end MarkTables

/-! ## The page -/

def isOutgoing (myMid : Option String) (m : StoredMessage) : Bool :=
  myMid.any fun mid => m.2.fromMid.getD "" == mid

/-- read_marker_bucket_t; `none` stands for the label of a 1:1 chat. -/
structure ReadMarkerBucket where
  msgIdx : Nat
  readers : Option (List GroupReader)

/-- The row under which a reader's label goes. -/
def readerIdx (myMid : Option String) (rows : List StoredMessage) (r : GroupReader) : Option Nat :=
  if r.lastReadMessageId = "" then none
  else scanBack (fun m => isOutgoing myMid m && !m.2.isDeleted && m.1 == r.lastReadMessageId)
    rows rows.length

/-- A reader joins the bucket of the row, or opens one. -/
def addToBucket (idx : Nat) (r : GroupReader) :
    List (Nat × List GroupReader) → List (Nat × List GroupReader)
  | [] => [(idx, [r])]
  | (i, rs) :: rest =>
    if i = idx then (i, rs ++ [r]) :: rest else (i, rs) :: addToBucket idx r rest

def groupBuckets (myMid : Option String) (rows : List StoredMessage) (readers : List GroupReader) :
    List (Nat × List GroupReader) :=
  readers.foldl (fun buckets r =>
    match readerIdx myMid rows r with
    | none => buckets
    | some idx => addToBucket idx r buckets) []

/-- A row that the peer has read. -/
def readRow (myMid : Option String) (time : Int) (m : StoredMessage) : Bool :=
  isOutgoing myMid m && !m.2.isDeleted && decide (createdAt m ≤ time)

/-- The buckets of `enil_html_page_with_css_more`. -/
def readBuckets (myMid : Option String) (rows : List StoredMessage) (peerLastReadTime : Int)
    (readers : List GroupReader) : List ReadMarkerBucket :=
  if !readers.isEmpty then (groupBuckets myMid rows readers).map fun b => ⟨b.1, some b.2⟩
  else if 0 < peerLastReadTime then
    ((scanBack (readRow myMid peerLastReadTime) rows rows.length).map fun j => ⟨j, none⟩).toList
  else []

def ReadMarkerBucket.labels (b : ReadMarkerBucket) : List ReadLabel :=
  match b.readers with
  | none => [.read]
  | some readers => readers.map fun r =>
    .reader r.readerMid ((nonemptyText (some r.displayName)).getD r.readerMid)

def pageMarkers (rows : List StoredMessage) (buckets : List ReadMarkerBucket) : List ReadMark :=
  rows.zipIdx.flatMap fun (m, i) =>
    (buckets.filter (·.msgIdx = i)).flatMap fun b => b.labels.map (m.1, ·)

namespace MarkTables

variable (o : Descending createdAt) (t : MarkTables) (myMid : Option String) (size : Int)

def pageRows (chat : String) : List StoredMessage :=
  (accountChatPageHtml o t.messages chat size).rows

/-- The readers that `enil_account_chat_page_html` asks for. -/
def pageReaders (chat : String) : List GroupReader :=
  match myMid with
  | some mid => if isGroup chat then t.getGroupReaders o chat mid else []
  | none => []

/-- The marks of `enil_account_chat_page_html`. -/
def pageMarks (chat : String) : List ReadMark :=
  let rows := t.pageRows o size chat
  pageMarkers rows (readBuckets myMid rows
    (if isOneToOne chat then t.getPeerLastReadTime chat else 0)
    (if isOneToOne chat then [] else t.pageReaders o myMid chat))

/-! ## The scripts -/

/-- enil_sync_js_for_sse_read_receipt. -/
def jsForSseReadReceipt (mid : String) (op : TalkOperation) : Option PageChange :=
  if mid = "" ∨ op.type ≠ .notifiedReadMessage then none
  else match nonemptyText op.param1 with
    | some chat =>
      if isOneToOne chat then some (.setReadMarker (t.lastReadOutgoingMsgId o chat mid)) else none
    | none => none

/-- enil_sync_js_for_sse_group_read_receipt. -/
def jsForSseGroupReadReceipt (mid : String) (op : TalkOperation) : Option PageChange :=
  if mid = "" ∨ op.type ≠ .notifiedReadMessage then none
  else match nonemptyText op.param1, nonemptyText op.param2 with
    | some chat, some reader =>
      if isGroup chat then (t.getGroupReader o chat reader mid).map fun r =>
        .setReadMarkerForReader (some r.readerMid) (some r.displayName) (some r.lastReadMessageId)
      else none
    | _, _ => none

/-- The script that a read receipt pushes. -/
def readJs (op : TalkOperation) : Option PageChange :=
  match myMid with
  | some mid => (t.jsForSseReadReceipt o mid op).or (t.jsForSseGroupReadReceipt o mid op)
  | none => none

end MarkTables

def PageChange.readMark : PageChange → Option ReadMark
  | .setReadMarker id => (nonemptyText id).map fun id => (id, .read)
  | .setReadMarkerForReader readerMid name id =>
    (nonemptyText readerMid).bind fun mid => (nonemptyText id).map fun id =>
      (id, .reader mid ((nonemptyText name).getD mid))
  | _ => none

/-! ## Agreement -/

/-- No row counts as read up to a time. -/
def NoneRead (myMid : Option String) (time : Int) (rows : List StoredMessage) : Prop :=
  ∀ m ∈ rows, readRow myMid time m = false

/-- The marks of the reader that an event names. -/
def TalkOperation.Concerns (op : TalkOperation) : ReadLabel → Prop
  | .read => isOneToOne (op.param1.getD "") = true
  | .reader mid _ => isOneToOne (op.param1.getD "") = false ∧ op.param2 = some mid

namespace MarkTables

variable (o : Descending createdAt) (t : MarkTables) (myMid : Option String) (size : Int)

/-- The page has the marks of the reader that the script puts on its messages, and no others. -/
def MarksAgree (op : TalkOperation) : Prop :=
  let chat := op.param1.getD ""
  ∀ id label, op.Concerns label →
    ((id, label) ∈ t.pageMarks o myMid size chat ↔
      (t.readJs o myMid op).bind PageChange.readMark = some (id, label) ∧
        id ∈ (t.pageRows o size chat).map Prod.fst)

/-- A 1:1 chat has a read time above zero, the account having a mid, and a reader of a group
is not the account itself; or the page has no message the mark could be under. -/
def MarksMeet (op : TalkOperation) : Prop :=
  let chat := op.param1.getD ""
  (isOneToOne chat = true → ∀ time, t.peerTime chat = some time →
    (0 < time ↔ myMid ≠ some "") ∨ NoneRead myMid time (t.pageRows o size chat)) ∧
  (isGroup chat = true → op.param2 = myMid →
    ∀ r, t.readerRow chat (op.param2.getD "") = some r →
      NoneRead myMid r.2 (t.pageRows o size chat))

def DistinctTimes (chat : String) : Prop := ((t.messages.chat chat).map createdAt).Nodup

end MarkTables

end Enil
