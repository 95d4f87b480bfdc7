import Enil.Lib.Machine
import Enil.Lib.Peak
import Enil.Db.Frame
import Enil.Sync.Process

/-!
# Read marks

Read receipts come one by one from the event stream and in batches from the read
ranges of a sync, while upserts rewrite the boxes that hold the peer marks. Whatever
the order, a peer's mark and each group reader's mark are the peak of where they
began and of the receipts stored for them (`Marked`).
-/

namespace Enil

open Lib Lib.Sql Db

/-! ## Read ranges -/

def readRangeMaxEndTime (segs : Json) : Int :=
  segs.elements.foldl (fun maxEnd seg =>
    if seg.isObject && maxEnd < seg.getInt64 "endTime" then seg.getInt64 "endTime" else maxEnd) 0

/-- A group or room mid starts with c, C, r or R. -/
def isGroup (mid : String) : Bool :=
  match mid.toList with
  | c :: _ => c == 'c' || c == 'C' || c == 'r' || c == 'R'
  | [] => false

structure ReadRange where
  chatMid : String
  readerMid : String
  endTime : Int
  deriving DecidableEq, Repr

def readRangeApplyOne (r : ReadRange) : Sql Db Rc :=
  if r.chatMid = "" ∨ r.readerMid = "" ∨ r.endTime ≤ 0 then pure .ok
  else if isOneToOne r.chatMid then messageBoxSetPeerRead r.chatMid (some r.readerMid) r.endTime
  else if isGroup r.chatMid then messageBoxSetGroupReader r.chatMid r.readerMid r.endTime
  else pure .ok

/-- The readers of one entry of the response. -/
def readRangesOfChat (entry : Json) : List ReadRange :=
  match entry.stringItem "chatId", entry.getObjectItem "ranges" with
  | some chatMid, some (.obj ranges) =>
    if chatMid = "" then [] else ranges.map fun f => ⟨chatMid, f.1, readRangeMaxEndTime f.2⟩
  | _, _ => []

def readRanges (data : Json) : List ReadRange := data.elements.flatMap readRangesOfChat

def readRangeApplyData (data : Json) : Sql Db Rc := forEach readRangeApplyOne (readRanges data)

/-- One batch of `sync_phase_read_range`, in its transaction. -/
def readRangeBatch (data : Json) : Sql Db Rc := atomically (readRangeApplyData data)

/-! ## Receipts -/

/-- What a read receipt says: how far the peer of a 1:1 chat or a member of a group
has read. -/
inductive Receipt where
  | peer (chat : String) (reader : Option String) (time : Int)
  | group (chat reader : String) (time : Int)
  deriving DecidableEq, Repr

def Receipt.peerStamp (chat : String) : Receipt → Option (Int × Option String)
  | peer chat' reader time => if chat' = chat then some (time, reader) else none
  | group _ _ _ => none

def Receipt.groupStamp (k : String × String) : Receipt → Option (Int × Unit)
  | peer _ _ _ => none
  | group chat reader time => if (chat, reader) = k then some (time, ()) else none

/-- The receipt of NOTIFIED_READ_MESSAGE. -/
def opReceipt (op : TalkOperation) : Option Receipt :=
  if nonempty op.param1 then
    let chat := op.param1.getD ""
    if isOneToOne chat then some (.peer chat op.param2 op.createdTime)
    else if nonempty op.param2 then some (.group chat (op.param2.getD "") op.createdTime)
    else none
  else none

/-- A read range is a receipt where it names a reader and its time is positive. -/
def ReadRange.receipt (r : ReadRange) : Option Receipt :=
  if r.chatMid = "" ∨ r.readerMid = "" ∨ r.endTime ≤ 0 then none
  else if isOneToOne r.chatMid then some (.peer r.chatMid (some r.readerMid) r.endTime)
  else if isGroup r.chatMid then some (.group r.chatMid r.readerMid r.endTime)
  else none

def Db.peerRead (d : Db) (chat : String) : Mark Int (Option String) where
  time := ((d.messageBoxes chat).getD {}).peerLastReadTime
  carrier := ((d.messageBoxes chat).getD {}).peerLastReaderMid

def Db.groupRead (d : Db) (k : String × String) : Mark Int Unit := ⟨d.messageBoxReaders k, ()⟩

/-- From `d` to `d'` the boxes stay and the marks are raised by the receipts, those of
the peers in boxes that are there. -/
structure Marked (d : Db) (rs : List Receipt) (d' : Db) : Prop where
  box : ∀ chat, (d.messageBoxes chat).isSome → (d'.messageBoxes chat).isSome
  peer : ∀ chat, (d.messageBoxes chat).isSome →
    d'.peerRead chat = (rs.filterMap (Receipt.peerStamp chat)).foldl Mark.raise (d.peerRead chat)
  peerOther : ∀ chat, rs.filterMap (Receipt.peerStamp chat) = [] →
    d'.peerRead chat = d.peerRead chat
  group : ∀ k,
    d'.groupRead k = (rs.filterMap (Receipt.groupStamp k)).foldl Mark.raise (d.groupRead k)

namespace Marked

variable {a b c : Db} {rs ss : List Receipt}

theorem refl (d : Db) : Marked d [] d :=
  ⟨fun _ h => h, fun _ _ => rfl, fun _ _ => rfl, fun _ => rfl⟩

theorem trans (h : Marked a rs b) (h' : Marked b ss c) : Marked a (rs ++ ss) c := by
  refine ⟨fun chat hb => h'.box chat (h.box chat hb), fun chat hb => ?_, fun chat hnil => ?_,
    fun k => ?_⟩
  · rw [h'.peer chat (h.box chat hb), h.peer chat hb, List.filterMap_append, List.foldl_append]
  · rw [List.filterMap_append, List.append_eq_nil_iff] at hnil
    rw [h'.peerOther chat hnil.2, h.peerOther chat hnil.1]
  · rw [h'.group k, h.group k, List.filterMap_append, List.foldl_append]

theorem trans_nil (h : Marked a [] b) (h' : Marked b [] c) : Marked a [] c := h.trans h'

end Marked

/-! ## One statement -/

/-- A statement that keeps the boxes and their peer columns raises no mark. -/
theorem marked_of_boxes {d d' : Db} (hreaders : d'.messageBoxReaders = d.messageBoxReaders)
    (hbox : ∀ chat, (d.messageBoxes chat).isSome → (d'.messageBoxes chat).isSome)
    (hpeer : ∀ chat, d'.peerRead chat = d.peerRead chat) : Marked d [] d' := by
  refine ⟨hbox, fun chat _ => hpeer chat, fun chat _ => hpeer chat, fun k => ?_⟩
  show Mark.mk _ _ = Mark.mk _ _
  rw [hreaders]

theorem marked_updateBox (chat : String) (f : MessageBox → MessageBox)
    (hf : ∀ b, (f b).peerLastReadTime = b.peerLastReadTime ∧
      (f b).peerLastReaderMid = b.peerLastReaderMid) (d : Db) :
    Marked d [] (d.onBoxes (·.update chat f)).2 := by
  cases hb : d.messageBoxes chat with
  | none => rw [onBoxes_update_none hb]; exact .refl d
  | some b =>
    rw [onBoxes_update hb]
    refine marked_of_boxes rfl (fun chat' h => ?_) fun chat' => ?_
    all_goals by_cases hc : chat' = chat
    · subst hc; rw [setBox_messageBoxes_self]; rfl
    · rwa [setBox_messageBoxes_of_ne _ _ hc]
    · subst hc
      simp only [Db.peerRead, setBox_messageBoxes_self, hb, Option.getD_some, (hf b).1, (hf b).2]
    · simp only [Db.peerRead, setBox_messageBoxes_of_ne _ _ hc]

theorem marked_insertBox (chat : String) (d : Db) :
    Marked d [] (insertMessageBoxV2Row chat d).2 := by
  unfold insertMessageBoxV2Row onBoxes
  refine marked_of_boxes rfl (fun chat' h => ?_) fun chat' => ?_
  all_goals by_cases hc : chat' = chat
  · subst hc; simp only [Table.insertIgnore_same, Option.isSome_some]
  · simpa only [Table.insertIgnore_of_ne _ _ hc] using h
  · subst hc; simp only [Db.peerRead, Table.insertIgnore_same, Option.getD_some]
  · simp only [Db.peerRead, Table.insertIgnore_of_ne _ _ hc]

/-- Upserts of boxes raise no mark, whatever fails. -/
def RaisesNone (stmt : Db → Nat × Db) : Prop := ∀ d, Marked d [] (stmt d).2

theorem built_messageBoxUpsert (mb : TalkMessageBox) : Built RaisesNone (messageBoxUpsert mb) :=
  .bind (.exec (marked_insertBox _)) fun _ => .ite (.pure _)
    (.exec (marked_updateBox _ _ fun _ => ⟨rfl, rfl⟩))

theorem liveUpsert_raisesNone (chat : String) (midType : Int) (lastId : Option String)
    (time : Int) (incoming : Bool) (id : Option String) :
    Built RaisesNone (messageBoxUpsertLiveMessage chat midType lastId time incoming id) :=
  .bind (.exec (marked_insertBox _)) fun _ => .ite (.pure _) (.exec fun d => by
    refine marked_updateBox chat _ ?_ d
    exact fun _ => ⟨rfl, rfl⟩)

theorem marked_of_built {α : Type} {m : Sql Db α} (hm : Built RaisesNone m) (c : Conn Db) :
    Marked c.db [] (m c).2.db :=
  hm.moves (R := fun d d' => Marked d [] d') Marked.refl Marked.trans_nil (fun _ h => h) c

/-- The guard of the peer columns raises the mark. -/
theorem peerRead_updateIf {d : Db} {chat : String} (h : (d.messageBoxes chat).isSome)
    (reader : Option String) (time : Int) :
    (d.onBoxes (·.updateIf chat (peerReadDue time) fun b =>
      { b with peerLastReadTime := some time, peerLastReaderMid := reader })).2.peerRead chat =
    (d.peerRead chat).raise (time, reader) := by
  obtain ⟨b, hb⟩ := Option.isSome_iff_exists.mp h
  rw [onBoxes_updateIf hb]
  simp only [Db.peerRead, setBox_messageBoxes_self, hb, Option.getD_some]
  have hdue : peerReadDue time b = b.peerLastReadTime.all (· ≤ time) := by
    unfold peerReadDue
    cases b.peerLastReadTime <;> rfl
  rw [hdue]
  unfold Mark.raise
  cases b.peerLastReadTime.all (· ≤ time) <;> rfl

theorem marked_peer (chat : String) (reader : Option String) (time : Int) (d : Db) :
    Marked d [.peer chat reader time] (d.onBoxes (·.updateIf chat (peerReadDue time) fun b =>
      { b with peerLastReadTime := some time, peerLastReaderMid := reader })).2 := by
  have hother : ∀ chat', chat' ≠ chat → (d.onBoxes (·.updateIf chat (peerReadDue time) fun b =>
      { b with peerLastReadTime := some time,
               peerLastReaderMid := reader })).2.messageBoxes chat' = d.messageBoxes chat' :=
    fun chat' hc => Table.updateIf_of_ne _ _ _ hc
  refine ⟨fun chat' hb => ?_, fun chat' hb => ?_, fun chat' hnil => ?_, fun k => rfl⟩
  · by_cases hc : chat' = chat
    · subst hc
      obtain ⟨b, hb⟩ := Option.isSome_iff_exists.mp hb
      rw [onBoxes_updateIf hb, setBox_messageBoxes_self]
      rfl
    · rw [hother chat' hc]
      exact hb
  · by_cases hc : chat' = chat
    · subst hc
      rw [peerRead_updateIf hb]
      simp [Receipt.peerStamp]
    · simp only [Db.peerRead, hother chat' hc]
      simp [Receipt.peerStamp, Ne.symm hc]
  · have hc : chat' ≠ chat := by
      rintro rfl
      simp [Receipt.peerStamp] at hnil
    simp only [Db.peerRead, hother chat' hc]

theorem marked_group (chat reader : String) (time : Int) (d : Db) :
    Marked d [.group chat reader time] (d.onReaders (upsertReader (chat, reader) time)).2 := by
  refine ⟨fun _ hb => hb, fun _ _ => rfl, fun _ _ => rfl, fun k => ?_⟩
  by_cases hk : k = (chat, reader)
  · subst hk
    have hstamp : [Receipt.group chat reader time].filterMap
        (Receipt.groupStamp (chat, reader)) = [(time, ())] := by
      simp [Receipt.groupStamp]
    have hraise : (d.groupRead (chat, reader)).raise (time, ()) =
        ⟨((d.groupRead (chat, reader)).raise (time, ())).time, ()⟩ := rfl
    rw [hstamp, List.foldl_cons, List.foldl_nil, hraise, Mark.raise_time]
    show Mark.mk ((upsertReader (chat, reader) time d.messageBoxReaders).2 (chat, reader)) () = _
    rw [upsertReader_same]
    cases h : d.messageBoxReaders (chat, reader) <;> simp [Db.groupRead, h]
  · have hstamp : [Receipt.group chat reader time].filterMap (Receipt.groupStamp k) = [] := by
      simp [Receipt.groupStamp, Ne.symm hk]
    rw [hstamp, List.foldl_nil]
    show Mark.mk ((upsertReader (chat, reader) time d.messageBoxReaders).2 k) () = _
    rw [upsertReader_of_ne _ _ hk]
    rfl

/-! ## The operations -/

inductive BoxEvent where
  /-- NOTIFIED_READ_MESSAGE. -/
  | readReceipt (op : TalkOperation)
  /-- A batch of read ranges. -/
  | readRange (data : Json)
  | boxUpsert (mb : TalkMessageBox)
  | liveUpsert (chat : String) (midType : Int) (lastId : Option String) (time : Int)
      (incoming : Bool) (id : Option String)

def BoxEvent.apply : BoxEvent → Sql Db Rc
  | readReceipt op => applyOpRead op
  | readRange data => readRangeBatch data
  | boxUpsert mb => messageBoxUpsert mb
  | liveUpsert chat midType lastId time incoming id =>
    messageBoxUpsertLiveMessage chat midType lastId time incoming id

def BoxEvent.receipts : BoxEvent → List Receipt
  | readReceipt op => (opReceipt op).toList
  | readRange data => (readRanges data).filterMap ReadRange.receipt
  | _ => []

/-- One statement raises what its receipt says or fails. -/
theorem marked_exec {stmt : Db → Nat × Db} {r : Receipt} (h : ∀ d, Marked d [r] (stmt d).2)
    (c : Conn Db) :
    ((exec stmt c).1 = .ok → Marked c.db [r] (exec stmt c).2.db) ∧
    ((exec stmt c).1 ≠ .ok → Marked c.db [] (exec stmt c).2.db) := by
  constructor
  · intro hok
    rw [exec_ok hok]
    exact h c.db
  · intro herr
    rw [exec_error herr]
    exact .refl c.db

theorem setPeerRead_eq {chat : String} (h : chat ≠ "") (reader : Option String) (time : Int) :
    messageBoxSetPeerRead chat reader time =
      exec (onBoxes (·.updateIf chat (peerReadDue time) fun b =>
        { b with peerLastReadTime := some time, peerLastReaderMid := reader })) := if_neg h

theorem setGroupReader_eq {chat reader : String} (hc : chat ≠ "") (hr : reader ≠ "") (time : Int) :
    messageBoxSetGroupReader chat reader time =
      exec (onReaders (upsertReader (chat, reader) time)) := if_neg (not_or.mpr ⟨hc, hr⟩)

theorem ne_of_nonempty {s : Option String} (h : nonempty s = true) : s.getD "" ≠ "" := by
  cases s with
  | none => cases h
  | some s => simpa [nonempty] using h

theorem marked_readReceipt (op : TalkOperation) (c : Conn Db) :
    ((applyOpRead op c).1 = .ok → Marked c.db (opReceipt op).toList (applyOpRead op c).2.db) ∧
    ((applyOpRead op c).1 ≠ .ok → Marked c.db [] (applyOpRead op c).2.db) := by
  unfold applyOpRead opReceipt
  have hfails : ((pure .error : Sql Db Rc) c).1 ≠ .ok := by simp
  by_cases hchat : nonempty op.param1
  · have hne := ne_of_nonempty hchat
    rw [if_pos hchat, if_pos hchat]
    by_cases hone : isOneToOne (op.param1.getD "")
    · rw [if_pos hone, if_pos hone, setPeerRead_eq hne]
      exact marked_exec (marked_peer _ _ _) c
    · rw [if_neg hone, if_neg hone]
      by_cases hreader : nonempty op.param2
      · rw [if_pos hreader, if_pos hreader, setGroupReader_eq hne (ne_of_nonempty hreader)]
        exact marked_exec (marked_group _ _ _) c
      · rw [if_neg hreader, if_neg hreader]
        exact ⟨fun h => absurd h hfails, fun _ => .refl _⟩
  · rw [if_neg hchat, if_neg hchat]
    exact ⟨fun h => absurd h hfails, fun _ => .refl _⟩

theorem marked_readRangeOne (r : ReadRange) (c : Conn Db) (h : (readRangeApplyOne r c).1 = .ok) :
    Marked c.db r.receipt.toList (readRangeApplyOne r c).2.db := by
  unfold readRangeApplyOne ReadRange.receipt at *
  split at h
  · rename_i hskip
    rw [if_pos hskip, if_pos hskip]
    exact .refl _
  · rename_i hskip
    rw [if_neg hskip, if_neg hskip]
    simp only [not_or, Int.not_le] at hskip
    split at h
    · rename_i hone
      rw [if_pos hone, if_pos hone]
      rw [setPeerRead_eq hskip.1] at h ⊢
      exact (marked_exec (marked_peer _ _ _) c).1 h
    · rename_i hone
      rw [if_neg hone, if_neg hone]
      split at h
      · rename_i hgroup
        rw [if_pos hgroup, if_pos hgroup]
        rw [setGroupReader_eq hskip.1 hskip.2.1] at h ⊢
        exact (marked_exec (marked_group _ _ _) c).1 h
      · rename_i hgroup
        rw [if_neg hgroup, if_neg hgroup]
        exact .refl _

theorem built_readRangeOne (r : ReadRange) : Built (fun _ => True) (readRangeApplyOne r) := by
  unfold readRangeApplyOne messageBoxSetPeerRead messageBoxSetGroupReader
  exact .ite (.pure _) (.ite (.ite (.pure _) (.exec trivial))
    (.ite (.ite (.pure _) (.exec trivial)) (.pure _)))

/-- A batch raises all its receipts or none. -/
theorem marked_readRange (data : Json) (c : Conn Db) :
    ((readRangeBatch data c).1 = .ok →
      Marked c.db ((readRanges data).filterMap ReadRange.receipt) (readRangeBatch data c).2.db) ∧
    ((readRangeBatch data c).1 ≠ .ok → Marked c.db [] (readRangeBatch data c).2.db) := by
  constructor
  · intro hok
    obtain ⟨hbody, hdb⟩ := atomically_ok hok
    rw [show (readRangeBatch data c).2.db = _ from hdb]
    refine forEach_ok (R := fun d rs d' => Marked d (rs.filterMap ReadRange.receipt) d') (c := opened c)
      Marked.refl (fun {r rs c d} hone hrest => ?_) hbody
    have hfirst := marked_readRangeOne r c hone
    rw [List.filterMap_cons]
    cases hr : r.receipt with
    | none =>
      rw [hr] at hfirst
      exact hfirst.trans hrest
    | some receipt =>
      rw [hr] at hfirst
      exact hfirst.trans hrest
  · intro herr
    rw [show (readRangeBatch data c).2.db = c.db from
      atomically_error (.forEach built_readRangeOne _) herr]
    exact .refl _

/-- What one operation does to the marks: its receipts, or nothing where it fails. -/
theorem BoxEvent.marked (e : BoxEvent) (c : Conn Db) :
    Marked c.db (if (e.apply c).1 = .ok then e.receipts else []) (e.apply c).2.db := by
  have hmarks : ((e.apply c).1 = .ok → Marked c.db e.receipts (e.apply c).2.db) ∧
      ((e.apply c).1 ≠ .ok → Marked c.db [] (e.apply c).2.db) := by
    cases e with
    | readReceipt op => exact marked_readReceipt op c
    | readRange data => exact marked_readRange data c
    | boxUpsert mb =>
      have h := marked_of_built (built_messageBoxUpsert mb) c
      exact ⟨fun _ => h, fun _ => h⟩
    | liveUpsert chat midType lastId time incoming id =>
      have h := marked_of_built (liveUpsert_raisesNone chat midType lastId time incoming id) c
      exact ⟨fun _ => h, fun _ => h⟩
  split
  · exact hmarks.1 ‹_›
  · exact hmarks.2 ‹_›

/-! ## Where nothing fails -/

theorem readReceipt_quiet (op : TalkOperation) {c : Conn Db} (h : c.faults = []) :
    ((opReceipt op).isSome = true → (applyOpRead op c).1 = .ok) ∧
      (applyOpRead op c).2.faults = [] := by
  unfold applyOpRead opReceipt
  by_cases hchat : nonempty op.param1
  · have hne := ne_of_nonempty hchat
    rw [if_pos hchat, if_pos hchat]
    by_cases hone : isOneToOne (op.param1.getD "")
    · rw [if_pos hone, if_pos hone, setPeerRead_eq hne, exec_quiet h]
      exact ⟨fun _ => rfl, h⟩
    · rw [if_neg hone, if_neg hone]
      by_cases hreader : nonempty op.param2
      · rw [if_pos hreader, if_pos hreader, setGroupReader_eq hne (ne_of_nonempty hreader),
          exec_quiet h]
        exact ⟨fun _ => rfl, h⟩
      · rw [if_neg hreader, if_neg hreader]
        exact ⟨fun hs => (by cases hs), h⟩
  · rw [if_neg hchat, if_neg hchat]
    exact ⟨fun hs => (by cases hs), h⟩

theorem readRangeOne_quiet (r : ReadRange) {c : Conn Db} (h : c.faults = []) :
    (readRangeApplyOne r c).1 = .ok ∧ (readRangeApplyOne r c).2.faults = [] := by
  refine ⟨?_, (built_readRangeOne r).quiet h⟩
  unfold readRangeApplyOne
  split
  · rfl
  · rename_i hskip
    simp only [not_or, Int.not_le] at hskip
    split
    · rw [setPeerRead_eq hskip.1, exec_quiet h]
    · split
      · rw [setGroupReader_eq hskip.1 hskip.2.1, exec_quiet h]
      · rfl

/-- No receipt is lost where no statement fails. -/
theorem BoxEvent.quiet (e : BoxEvent) {c : Conn Db} (h : c.faults = []) :
    (e.receipts ≠ [] → (e.apply c).1 = .ok) ∧ (e.apply c).2.faults = [] := by
  cases e with
  | readReceipt op =>
    obtain ⟨hok, hquiet⟩ := readReceipt_quiet op h
    refine ⟨fun hne => hok ?_, hquiet⟩
    cases hr : opReceipt op with
    | none =>
      rw [BoxEvent.receipts, hr] at hne
      exact absurd rfl hne
    | some r => rfl
  | readRange data =>
    have hopen : (opened c).faults = [] := by rw [opened, tick_of_quiet h]; exact h
    obtain ⟨hok, -, hquiet⟩ := atomically_quiet (.forEach built_readRangeOne _) h
      (forEach_quiet (fun r _ => readRangeOne_quiet r) (readRanges data) hopen)
    exact ⟨fun _ => hok, hquiet⟩
  | boxUpsert mb => exact ⟨fun hne => absurd rfl hne, (built_messageBoxUpsert mb).quiet h⟩
  | liveUpsert chat midType lastId time incoming id =>
    exact ⟨fun hne => absurd rfl hne,
      (liveUpsert_raisesNone chat midType lastId time incoming id).quiet h⟩

/-! ## Runs -/

structure ReadRun where
  conn : Conn Db
  /-- The receipts that were stored. -/
  received : List Receipt := []

/-- Operations on the boxes one after the other, any statement failing. -/
def readMarks : Machine ReadRun BoxEvent where
  step r e :=
    let (rc, c) := e.apply r.conn
    some { conn := c, received := r.received ++ if rc = .ok then e.receipts else [] }

theorem readMarks_run {r r' : ReadRun} {es : List BoxEvent} (h : readMarks.run r es = some r') :
    ∃ rs, r'.received = r.received ++ rs ∧ Marked r.conn.db rs r'.conn.db := by
  induction es generalizing r with
  | nil =>
    obtain rfl := Option.some.inj h
    exact ⟨[], (List.append_nil _).symm, .refl _⟩
  | cons e es ih =>
    obtain ⟨m, hm, hrun⟩ := Machine.run_cons_some.mp h
    obtain rfl := Option.some.inj hm
    obtain ⟨rs, hrs, hmarked⟩ := ih hrun
    exact ⟨_, hrs.trans (List.append_assoc _ _ _), (e.marked r.conn).trans hmarked⟩

theorem readMarks_quiet {r r' : ReadRun} {es : List BoxEvent} (h : readMarks.run r es = some r')
    (hquiet : r.conn.faults = []) :
    r'.received = r.received ++ es.flatMap BoxEvent.receipts ∧ r'.conn.faults = [] := by
  induction es generalizing r with
  | nil =>
    obtain rfl := Option.some.inj h
    exact ⟨(List.append_nil _).symm, hquiet⟩
  | cons e es ih =>
    obtain ⟨m, hm, hrun⟩ := Machine.run_cons_some.mp h
    obtain rfl := Option.some.inj hm
    obtain ⟨hok, hnext⟩ := e.quiet hquiet
    have hone : (if (e.apply r.conn).1 = .ok then e.receipts else []) = e.receipts := by
      by_cases hne : e.receipts = []
      · rw [hne, ite_self]
      · rw [if_pos (hok hne)]
    obtain ⟨hreceived, hend⟩ := ih hrun hnext
    refine ⟨hreceived.trans ?_, hend⟩
    show r.received ++ (if (e.apply r.conn).1 = .ok then e.receipts else []) ++ _ = _
    rw [hone, List.append_assoc, List.flatMap_cons]

/-- In every run each mark is the peak of where it began and of the receipts stored for
it, and goes back nowhere on the way. A mark without receipts stays as it was. All receipts
are stored where no statement fails. -/
theorem read_marks_join {c : Conn Db} {es fs : List BoxEvent} {r r' : ReadRun}
    (hrun : readMarks.run { conn := c } es = some r) (hrun' : readMarks.run r fs = some r') :
    (∀ chat, (c.db.messageBoxes chat).isSome →
      (r.conn.db.peerRead chat).Le (r'.conn.db.peerRead chat) ∧
      Mark.IsPeak (c.db.peerRead chat) (r'.received.filterMap (Receipt.peerStamp chat))
        (r'.conn.db.peerRead chat)) ∧
    (∀ k, (r.conn.db.groupRead k).Le (r'.conn.db.groupRead k) ∧
      Mark.IsPeak (c.db.groupRead k) (r'.received.filterMap (Receipt.groupStamp k))
        (r'.conn.db.groupRead k)) ∧
    (∀ chat, r'.received.filterMap (Receipt.peerStamp chat) = [] →
      r'.conn.db.peerRead chat = c.db.peerRead chat) ∧
    (∀ k, r'.received.filterMap (Receipt.groupStamp k) = [] →
      r'.conn.db.groupRead k = c.db.groupRead k) ∧
    (c.faults = [] → r'.received = (es ++ fs).flatMap BoxEvent.receipts) := by
  obtain ⟨rs, hrs, hmarked⟩ := readMarks_run hrun
  obtain ⟨ss, hss, hmarked'⟩ := readMarks_run hrun'
  have hall := hmarked.trans hmarked'
  have hquiet : c.faults = [] → r'.received = (es ++ fs).flatMap BoxEvent.receipts := fun h => by
    obtain ⟨hreceived, hnext⟩ := readMarks_quiet hrun h
    rw [(readMarks_quiet hrun' hnext).1, hreceived, List.nil_append, List.flatMap_append]
  rw [hss, hrs, List.nil_append] at hquiet ⊢
  refine ⟨fun chat hb => ⟨?_, ?_⟩, fun k => ⟨?_, ?_⟩, fun chat hnil => hall.peerOther chat hnil,
    fun k hnil => ?_, hquiet⟩
  · rw [hmarked'.peer chat (hmarked.box chat hb)]
    exact Mark.le_raiseAll _ _
  · rw [hall.peer chat hb]
    exact (Mark.IsPeak.nil _).raiseAll _
  · rw [hmarked'.group k]
    exact Mark.le_raiseAll _ _
  · rw [hall.group k]
    exact (Mark.IsPeak.nil _).raiseAll _
  · rw [hall.group k, hnil]
    rfl

/-- One 1:1 chat whose peer has not read yet. -/
def unreadDb : Db where
  messageBoxes := fun chat => if chat = "u1" then some {} else none
  messages := fun _ => none
  messageBoxReaders := fun _ => none

def receiptOf (chat reader : String) (time : Int) : TalkOperation where
  type := .notifiedReadMessage
  createdTime := time
  param1 := some chat
  param2 := some reader

def repeatedReceipts : List BoxEvent :=
  [.readReceipt (receiptOf "u1" "u1" 7), .readReceipt (receiptOf "u1" "u1" 3),
    .readReceipt (receiptOf "u1" "u1" 7)]

/-- A later receipt, then an earlier one and the later one again. -/
theorem read_marks_join_repeated :
    ∃ r : ReadRun, readMarks.run { conn := { db := unreadDb } } repeatedReceipts = some r ∧
      Mark.IsPeak (unreadDb.peerRead "u1") [(7, some "u1"), (3, some "u1"), (7, some "u1")]
        (r.conn.db.peerRead "u1") := by
  obtain ⟨r, hr⟩ : ∃ r, readMarks.run { conn := { db := unreadDb } } repeatedReceipts = some r :=
    ⟨_, rfl⟩
  have hstart : readMarks.run { conn := { db := unreadDb } } [] =
      some { conn := { db := unreadDb } } := rfl
  obtain ⟨hpeer, -, -, -, hall⟩ := read_marks_join hstart hr
  have hpeak := (hpeer "u1" (by decide)).2
  rw [hall rfl] at hpeak
  exact ⟨r, hr, hpeak⟩

/-- The response that says one reader has read a chat up to a time. -/
def rangeOf (chat reader : String) (time : Int) : Json :=
  .arr [.obj [("chatId", .str chat), ("ranges", .obj [(reader, .arr [
    .obj [("endTime", .num time)]])])]]

/-- A read range of time 0, and one that names no reader, raise nothing. -/
theorem read_range_ignored :
    (readRanges (rangeOf "c1" "u2" 0) = [⟨"c1", "u2", 0⟩] ∧
      ∀ r, readMarks.run { conn := { db := unreadDb } } [.readRange (rangeOf "c1" "u2" 0)] = some r →
        ¬ Mark.IsPeak (unreadDb.groupRead ("c1", "u2")) [(0, ())]
          (r.conn.db.groupRead ("c1", "u2"))) ∧
    (readRanges (rangeOf "u1" "" 9) = [⟨"u1", "", 9⟩] ∧
      ∀ r, readMarks.run { conn := { db := unreadDb } } [.readRange (rangeOf "u1" "" 9)] = some r →
        ¬ Mark.IsPeak (unreadDb.peerRead "u1") [(9, some "")] (r.conn.db.peerRead "u1")) := by
  refine ⟨⟨by decide, fun r hr hpeak => ?_⟩, by decide, fun r hr hpeak => ?_⟩
  · obtain rfl := Option.some.inj hr
    exact absurd hpeak.time (by decide)
  · obtain rfl := Option.some.inj hr
    exact absurd hpeak.time (by decide)

end Enil
