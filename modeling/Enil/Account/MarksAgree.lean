import Enil.Account.ReadMarkers

/-!
# Read marks and the reload

The page looks for the last message read from its end, the script asks the table for it.
Over distinct times both find the same message where the page has it, so the marks agree
exactly where both look for one (`MarksMeet`).
-/

namespace Enil

open Lib

/-! ## Marks of the buckets -/

theorem mem_pageMarkers {rows : List StoredMessage} {buckets : List ReadMarkerBucket} {id : String}
    {label : ReadLabel} : (id, label) ∈ pageMarkers rows buckets ↔
      ∃ b ∈ buckets, label ∈ b.labels ∧ ∃ m, rows[b.msgIdx]? = some m ∧ m.1 = id := by
  unfold pageMarkers
  rw [List.mem_flatMap]
  constructor
  · rintro ⟨⟨m, i⟩, hrow, hmark⟩
    obtain ⟨b, hfilter, hmap⟩ := List.mem_flatMap.mp hmark
    obtain ⟨hb, hi⟩ := List.mem_filter.mp hfilter
    obtain ⟨label', hlabel, heq⟩ := List.mem_map.mp hmap
    obtain ⟨rfl, rfl⟩ := Prod.mk.inj heq
    have hget := List.mem_zipIdx_iff_getElem?.mp hrow
    exact ⟨b, hb, hlabel, m, by rw [of_decide_eq_true hi]; exact hget, rfl⟩
  · rintro ⟨b, hb, hlabel, m, hrow, rfl⟩
    refine ⟨(m, b.msgIdx), List.mem_zipIdx_iff_getElem?.mpr hrow, List.mem_flatMap.mpr ⟨b, ?_, ?_⟩⟩
    · exact List.mem_filter.mpr ⟨hb, decide_eq_true rfl⟩
    · exact List.mem_map.mpr ⟨label, hlabel, rfl⟩

/-- A reader is in a bucket of the row. -/
def InBucket (buckets : List (Nat × List GroupReader)) (i : Nat) (r : GroupReader) : Prop :=
  ∃ rs, (i, rs) ∈ buckets ∧ r ∈ rs

theorem inBucket_addToBucket {idx i : Nat} {r r' : GroupReader}
    {buckets : List (Nat × List GroupReader)} :
    InBucket (addToBucket idx r buckets) i r' ↔ InBucket buckets i r' ∨ i = idx ∧ r' = r := by
  induction buckets with
  | nil => simp [InBucket, addToBucket]
  | cons b rest ih =>
    have hcons : ∀ b rest, InBucket (b :: rest) i r' ↔
        (i = b.1 ∧ r' ∈ b.2) ∨ InBucket rest i r' := by
      rintro ⟨j, rs⟩ rest
      simp only [InBucket, List.mem_cons, Prod.mk.injEq]
      constructor
      · rintro ⟨rs', ⟨rfl, rfl⟩ | hmem, hr⟩
        · exact .inl ⟨rfl, hr⟩
        · exact .inr ⟨rs', hmem, hr⟩
      · rintro (⟨rfl, hr⟩ | ⟨rs', hmem, hr⟩)
        · exact ⟨rs, .inl ⟨rfl, rfl⟩, hr⟩
        · exact ⟨rs', .inr hmem, hr⟩
    unfold addToBucket
    split
    · rename_i hidx
      rw [hcons, hcons, List.mem_append, List.mem_singleton, ← hidx, and_or_left]
      exact or_right_comm
    · rw [hcons, hcons, ih, or_assoc]

/-- Readers that go one after the other each into the bucket of an index. -/
theorem inBucket_foldl {idx : GroupReader → Option Nat} {i : Nat} {r : GroupReader}
    {add : List (Nat × List GroupReader) → GroupReader → List (Nat × List GroupReader)}
    (hadd : ∀ buckets a,
      InBucket (add buckets a) i r ↔ InBucket buckets i r ∨ r = a ∧ idx r = some i)
    {readers : List GroupReader} (buckets : List (Nat × List GroupReader)) :
    InBucket (readers.foldl add buckets) i r ↔
      InBucket buckets i r ∨ r ∈ readers ∧ idx r = some i := by
  induction readers generalizing buckets with
  | nil => simp
  | cons a readers ih =>
    rw [List.foldl_cons, ih, hadd, List.mem_cons, or_and_right, ← or_assoc]

theorem inBucket_groupBuckets {myMid : Option String} {rows : List StoredMessage}
    {readers : List GroupReader} {i : Nat} {r : GroupReader} :
    InBucket (groupBuckets myMid rows readers) i r ↔
      r ∈ readers ∧ readerIdx myMid rows r = some i := by
  unfold groupBuckets
  refine (@inBucket_foldl (readerIdx myMid rows) i r _ ?_ readers []).trans (or_iff_right ?_)
  · intro buckets a
    cases ha : readerIdx myMid rows a with
    | none =>
      refine (or_iff_left ?_).symm
      rintro ⟨rfl, hr⟩
      cases ha.symm.trans hr
    | some idx =>
      rw [inBucket_addToBucket]
      refine or_congr_right ⟨?_, ?_⟩
      · rintro ⟨rfl, rfl⟩
        exact ⟨rfl, ha⟩
      · rintro ⟨rfl, hr⟩
        exact ⟨Option.some.inj (hr.symm.trans ha), rfl⟩
  · rintro ⟨rs, hrs, -⟩
    cases hrs

/-! ## The page -/

namespace MarkTables

variable {o : Descending createdAt} {t : MarkTables} {myMid : Option String} {size : Int}
  {chat : String}

/-- The rows of a page are the latest of the chat. -/
theorem pageRows_latestRows (htimes : t.DistinctTimes chat) :
    LatestRows createdAt (t.messages.chat chat) (t.pageRows o size chat) := by
  unfold pageRows accountChatPageHtml
  split
  · exact .nil
  unfold messageRowsGetPage
  split
  · exact .nil
  · have hpage := Descending.page_latestRows (o := o) htimes (pageSizeOr size).toNat
    show LatestRows _ _
      (messagePage 0 (some (o.page (t.messages.chat chat) (pageSizeOr size).toNat))).rows
    generalize o.page (t.messages.chat chat) (pageSizeOr size).toNat = page at hpage
    obtain ⟨rows, more⟩ := page
    cases rows with
    | nil => exact hpage
    | cons m rows => exact hpage

/-- A message of the chat is known by its id. -/
theorem eq_of_id {m m' : StoredMessage} (hm : m ∈ t.messages.chat chat)
    (hm' : m' ∈ t.messages.chat chat) (h : m.1 = m'.1) : m = m' :=
  List.inj_on_of_nodup_map t.messages.ids (List.mem_filter.mp hm).1 (List.mem_filter.mp hm').1 h

theorem isOutgoing_eq {mid : String} (hmid : mid ≠ "") (m : StoredMessage) :
    isOutgoing (some mid) m = (m.2.fromMid == some mid) := by
  unfold isOutgoing
  rw [Option.any_some]
  cases m.2.fromMid with
  | none => simp [Ne.symm hmid]
  | some mid' => simp

theorem readRow_eq {mid : String} (hmid : mid ≠ "") (time : Int) :
    readRow (some mid) time = readBefore mid time := by
  funext m
  unfold readRow readBefore
  rw [isOutgoing_eq hmid]

theorem lastRead_eq_some {mid : String} {time : Int} {id : String} :
    t.lastRead o chat mid time = some id ↔
      ∃ m, o.latest (readBefore mid time) (t.messages.chat chat) = some m ∧ m.1 = id := by
  unfold lastRead nonemptyText
  rw [Option.filter_eq_some_iff, Option.map_eq_some_iff]
  refine and_iff_left_of_imp ?_
  rintro ⟨m, hm, rfl⟩
  have hmem : m ∈ t.messages.chat chat := by
    have hsort := List.mem_of_mem_head? hm
    exact (List.mem_filter.mp ((o.perm _).subset hsort)).1
  have hne := t.messages_named m (List.mem_filter.mp hmem).1
  simpa using hne

/-- The message found from the end of the page is the last read, where the page has it. -/
theorem scan_lastRead (htimes : t.DistinctTimes chat) {mid : String} (hmid : mid ≠ "") (time : Int)
    (id : String) :
    (∃ j, scanBack (readRow (some mid) time) (t.pageRows o size chat)
        (t.pageRows o size chat).length = some j ∧
      ∃ m, (t.pageRows o size chat)[j]? = some m ∧ m.1 = id) ↔
      t.lastRead o chat mid time = some id ∧ id ∈ (t.pageRows o size chat).map Prod.fst := by
  have hrows : LatestRows createdAt (t.messages.chat chat) (t.pageRows o size chat) :=
    pageRows_latestRows htimes
  rw [readRow_eq hmid, lastRead_eq_some]
  constructor
  · rintro ⟨j, hscan, m, hj, rfl⟩
    obtain ⟨hlatest, hmem⟩ := (Descending.scanBack_iff hrows htimes).mp ⟨j, hscan, hj⟩
    exact ⟨⟨m, hlatest, rfl⟩, List.mem_map_of_mem hmem⟩
  · rintro ⟨⟨m, hlatest, rfl⟩, hmem⟩
    obtain ⟨m', hm', hid⟩ := List.mem_map.mp hmem
    have hchat := ((Descending.latest_eq_some htimes).mp hlatest).1
    obtain rfl := eq_of_id (hrows.mem m' hm') hchat hid
    obtain ⟨j, hscan, hj⟩ := (Descending.scanBack_iff hrows htimes).mpr ⟨hlatest, hm'⟩
    exact ⟨j, hscan, m', hj, rfl⟩

/-- Where no row counts as read the scan finds none. -/
theorem scan_none {time : Int} (h : NoneRead myMid time (t.pageRows o size chat)) (j : Nat) :
    scanBack (readRow myMid time) (t.pageRows o size chat) (t.pageRows o size chat).length ≠
      some j := by
  intro hscan
  obtain ⟨-, hp, -⟩ := scanBack_eq_some.mp hscan
  obtain ⟨m, hm, hread⟩ := (Option.any_eq_true _ _).mp hp
  rw [h m (List.mem_of_getElem? hm)] at hread
  cases hread

/-- The scan from the end of the page finds the message. -/
def Found (o : Descending createdAt) (t : MarkTables) (myMid : Option String) (size : Int)
    (chat : String) (time : Int) (id : String) : Prop :=
  ∃ j, scanBack (readRow myMid time) (t.pageRows o size chat)
      (t.pageRows o size chat).length = some j ∧
    ∃ m, (t.pageRows o size chat)[j]? = some m ∧ m.1 = id

theorem noneRead_iff {time : Int} : NoneRead myMid time (t.pageRows o size chat) ↔
    ∀ id, ¬ Found o t myMid size chat time id := by
  constructor
  · rintro h id ⟨j, hscan, -⟩
    exact scan_none h j hscan
  · intro h m hm
    rw [Bool.eq_false_iff]
    intro hread
    obtain ⟨i, hi⟩ := List.mem_iff_getElem?.mp hm
    obtain ⟨j, -, hscan⟩ := scanBack_isSome (List.getElem?_eq_some_iff.mp hi).1
      (show ((t.pageRows o size chat)[i]?).any (readRow myMid time) = true by rw [hi]; exact hread)
    have hj := List.getElem?_eq_getElem (scanBack_eq_some.mp hscan).1
    exact h _ ⟨j, hscan, _, hj, rfl⟩

theorem found_iff (htimes : t.DistinctTimes chat) {mid : String} (hmid : mid ≠ "") (time : Int)
    (id : String) : Found o t (some mid) size chat time id ↔
      t.lastRead o chat mid time = some id ∧ id ∈ (t.pageRows o size chat).map Prod.fst :=
  scan_lastRead htimes hmid time id

/-! ## 1:1 chats -/

theorem mem_pageMarks_peer (hone : isOneToOne chat = true) {id : String} :
    (id, ReadLabel.read) ∈ t.pageMarks o myMid size chat ↔
      ∃ time, t.peerTime chat = some time ∧ 0 < time ∧ Found o t myMid size chat time id := by
  unfold pageMarks readBuckets getPeerLastReadTime
  dsimp only
  rw [if_pos hone, if_pos hone, List.isEmpty_nil, Bool.not_true, if_neg Bool.false_ne_true,
    mem_pageMarkers]
  cases htime : t.peerTime chat with
  | none =>
    refine iff_of_false ?_ fun h => by obtain ⟨_, h, -⟩ := h; cases h
    rintro ⟨b, hb, -⟩
    rw [if_neg (by decide)] at hb
    cases hb
  | some time =>
    rw [Option.getD_some]
    by_cases hpos : 0 < time
    · rw [if_pos hpos]
      constructor
      · rintro ⟨b, hb, -, m, hm, rfl⟩
        obtain ⟨j, hscan, rfl⟩ := Option.map_eq_some_iff.mp (Option.mem_toList.mp hb)
        exact ⟨time, rfl, hpos, j, hscan, m, hm, rfl⟩
      · rintro ⟨time', htime', -, j, hscan, m, hm, rfl⟩
        obtain rfl := Option.some.inj htime'
        refine ⟨⟨j, none⟩, ?_, List.mem_singleton.mpr rfl, m, hm, rfl⟩
        rw [hscan]
        exact List.mem_singleton.mpr rfl
    · rw [if_neg hpos]
      refine iff_of_false (fun h => ?_) fun h => ?_
      · obtain ⟨b, hb, -⟩ := h
        cases hb
      · obtain ⟨time', htime', hlt, -⟩ := h
        obtain rfl := Option.some.inj htime'
        exact hpos hlt

theorem nonemptyText_lastRead {mid : String} {time : Int} :
    nonemptyText (t.lastRead o chat mid time) = t.lastRead o chat mid time := by
  unfold lastRead nonemptyText
  rw [Option.filter_filter]
  simp only [Bool.and_self]

/-- A chat mid that starts with a letter is not empty. -/
theorem nonemptyText_param1 {op : TalkOperation} (h : op.param1.getD "" ≠ "") :
    nonemptyText op.param1 = some (op.param1.getD "") := by
  cases hparam : op.param1 with
  | none => rw [hparam] at h; exact absurd rfl h
  | some chat =>
    rw [hparam, Option.getD_some] at h
    simpa [nonemptyText] using h

theorem ne_empty_of_isOneToOne {mid : String} (h : isOneToOne mid = true) : mid ≠ "" := by
  rintro rfl
  cases h

theorem ne_empty_of_isGroup {mid : String} (h : isGroup mid = true) : mid ≠ "" := by
  rintro rfl
  cases h

theorem readJs_empty (op : TalkOperation) : t.readJs o (some "") op = none := rfl

theorem readJs_peer {op : TalkOperation} (hop : op.type = .notifiedReadMessage)
    (hone : isOneToOne (op.param1.getD "") = true) {mid : String} (hmid : mid ≠ "") :
    t.readJs o (some mid) op =
      some (.setReadMarker (t.lastReadOutgoingMsgId o (op.param1.getD "") mid)) := by
  unfold readJs jsForSseReadReceipt
  dsimp only
  rw [if_neg (not_or.mpr ⟨hmid, not_not.mpr hop⟩),
    nonemptyText_param1 (ne_empty_of_isOneToOne hone)]
  dsimp only
  rw [if_pos hone, Option.some_or]

theorem readMark_peer {op : TalkOperation} (hop : op.type = .notifiedReadMessage)
    (hone : isOneToOne (op.param1.getD "") = true) {id : String} :
    (t.readJs o myMid op).bind PageChange.readMark = some (id, ReadLabel.read) ↔
      ∃ mid, myMid = some mid ∧ mid ≠ "" ∧ ∃ time, t.peerTime (op.param1.getD "") = some time ∧
        t.lastRead o (op.param1.getD "") mid time = some id := by
  have hnone : ∀ {mid}, (none : Option ReadMark) = some mid → False := fun h => by cases h
  cases myMid with
  | none =>
    refine iff_of_false hnone ?_
    rintro ⟨_, h, -⟩
    cases h
  | some mid =>
    by_cases hmid : mid = ""
    · subst hmid
      rw [readJs_empty]
      refine iff_of_false hnone ?_
      rintro ⟨mid', h, hmid', -⟩
      exact hmid' (Option.some.inj h).symm
    · rw [readJs_peer hop hone hmid, Option.bind_some]
      unfold PageChange.readMark lastReadOutgoingMsgId
      dsimp only
      rw [if_neg (not_or.mpr ⟨ne_empty_of_isOneToOne hone, hmid⟩)]
      constructor
      · intro h
        obtain ⟨id', hid, heq⟩ := Option.map_eq_some_iff.mp h
        obtain rfl := (Prod.mk.inj heq).1
        cases htime : t.peerTime (op.param1.getD "") with
        | none => rw [htime] at hid; cases hid
        | some time =>
          rw [htime, Option.bind_some, nonemptyText_lastRead] at hid
          exact ⟨mid, rfl, hmid, time, rfl, hid⟩
      · rintro ⟨mid', hsome, -, time, htime, hid⟩
        obtain rfl := Option.some.inj hsome
        rw [htime, Option.bind_some, nonemptyText_lastRead, hid]
        rfl

/-- Two readings of one search agree where both are made or both are not, or where it finds
nothing. -/
theorem forall_and_iff {ι : Type} {A B : Prop} {F : ι → Prop} :
    (∀ i, A ∧ F i ↔ B ∧ F i) ↔ (A ↔ B) ∨ ∀ i, ¬ F i := by
  constructor
  · intro h
    by_cases hF : ∃ i, F i
    · obtain ⟨i, hi⟩ := hF
      exact .inl ((and_iff_left hi).symm.trans ((h i).trans (and_iff_left hi)))
    · exact .inr (not_exists.mp hF)
  · rintro (h | h) i
    · rw [h]
    · exact iff_of_false (fun hi => h i hi.2) fun hi => h i hi.2

theorem marksAgree_peer (htimes : t.DistinctTimes chat) {op : TalkOperation}
    (hop : op.type = .notifiedReadMessage) (hchat : op.param1.getD "" = chat)
    (hone : isOneToOne chat = true) :
    (∀ id, (id, ReadLabel.read) ∈ t.pageMarks o myMid size chat ↔
      (t.readJs o myMid op).bind PageChange.readMark = some (id, .read) ∧
        id ∈ (t.pageRows o size chat).map Prod.fst) ↔
      ∀ time, t.peerTime chat = some time →
        (0 < time ↔ myMid ≠ some "") ∨ NoneRead myMid time (t.pageRows o size chat) := by
  subst hchat
  have hfound : ∀ time id, (∃ mid, myMid = some mid ∧ mid ≠ "" ∧
      t.lastRead o (op.param1.getD "") mid time = some id ∧
        id ∈ (t.pageRows o size (op.param1.getD "")).map Prod.fst) ↔
      myMid ≠ some "" ∧ Found o t myMid size (op.param1.getD "") time id := by
    intro time id
    constructor
    · rintro ⟨mid, rfl, hmid, hlast⟩
      exact ⟨fun h => hmid (Option.some.inj h), (found_iff htimes hmid time id).mpr hlast⟩
    · rintro ⟨hmy, hscan⟩
      cases myMid with
      | none =>
        obtain ⟨j, hscan, -⟩ := hscan
        obtain ⟨m, -, hread⟩ := (Option.any_eq_true _ _).mp (scanBack_eq_some.mp hscan).2.1
        cases hread
      | some mid =>
        have hmid : mid ≠ "" := fun h => hmy (congrArg some h)
        exact ⟨mid, rfl, hmid, (found_iff htimes hmid time id).mp hscan⟩
  cases htime : t.peerTime (op.param1.getD "") with
  | none =>
    refine iff_of_true (fun id => ?_) fun time h => by cases h
    rw [mem_pageMarks_peer hone, readMark_peer hop hone, htime]
    refine iff_of_false ?_ ?_
    · rintro ⟨_, h, -⟩
      cases h
    · rintro ⟨⟨_, -, -, _, h, -⟩, -⟩
      cases h
  | some time =>
    have hiff := forall_and_iff (A := 0 < time) (B := myMid ≠ some "")
      (F := Found o t myMid size (op.param1.getD "") time)
    rw [← noneRead_iff] at hiff
    refine Iff.trans (forall_congr' fun id => ?_)
      (hiff.trans ⟨fun h time' h' => ?_, fun h => h time rfl⟩)
    · rw [mem_pageMarks_peer hone, readMark_peer hop hone, ← hfound]
      refine iff_congr ⟨?_, fun h => ⟨time, htime, h⟩⟩ ⟨?_, ?_⟩
      · rintro ⟨time', h', hmark⟩
        obtain rfl := Option.some.inj (htime.symm.trans h')
        exact hmark
      · rintro ⟨⟨mid, hmy, hmid, time', h', hlast⟩, hrow⟩
        obtain rfl := Option.some.inj (htime.symm.trans h')
        exact ⟨mid, hmy, hmid, hlast, hrow⟩
      · rintro ⟨mid, hmy, hmid, hlast, hrow⟩
        exact ⟨⟨mid, hmy, hmid, time, htime, hlast⟩, hrow⟩
    · obtain rfl := Option.some.inj h'
      exact h

/-! ## Groups -/

def shownName (t : MarkTables) (mid : String) : String :=
  (nonemptyText (some (t.readerName mid))).getD mid

/-- A reader of the chat whose last read message is on the page. -/
def ReadBy (o : Descending createdAt) (t : MarkTables) (myMid : Option String) (size : Int)
    (chat reader : String) (mark : String × String) : Prop :=
  ∃ mid row, myMid = some mid ∧ mid ≠ "" ∧ isGroup chat = true ∧
    t.readerRow chat reader = some row ∧ t.lastRead o chat mid row.2 = some mark.1 ∧
    t.shownName reader = mark.2 ∧ mark.1 ∈ (t.pageRows o size chat).map Prod.fst

/-- The row of a reader's label is the one of the message, where the page has it. -/
theorem readerIdx_iff (htimes : t.DistinctTimes chat) {mid : String} (hmid : mid ≠ "")
    {time : Int} {r : GroupReader} (hlast : t.lastRead o chat mid time = some r.lastReadMessageId)
    {id : String} :
    (∃ i, readerIdx (some mid) (t.pageRows o size chat) r = some i ∧
        ∃ m, (t.pageRows o size chat)[i]? = some m ∧ m.1 = id) ↔
      r.lastReadMessageId = id ∧ id ∈ (t.pageRows o size chat).map Prod.fst := by
  obtain ⟨m, hlatest, hm⟩ := lastRead_eq_some.mp hlast
  obtain ⟨hchat, hread, -⟩ := (Descending.latest_eq_some htimes).mp hlatest
  have hne : r.lastReadMessageId ≠ "" := by
    rw [← hm]
    exact t.messages_named m (List.mem_filter.mp hchat).1
  unfold readerIdx
  rw [if_neg hne]
  constructor
  · rintro ⟨i, hscan, m', hi, rfl⟩
    obtain ⟨-, hp, -⟩ := scanBack_eq_some.mp hscan
    rw [hi, Option.any_some, Bool.and_eq_true] at hp
    exact ⟨(beq_iff_eq.mp hp.2).symm, List.mem_map_of_mem (List.mem_of_getElem? hi)⟩
  · rintro ⟨rfl, hmem⟩
    obtain ⟨m', hm', hid⟩ := List.mem_map.mp hmem
    have hrows : LatestRows createdAt (t.messages.chat chat) (t.pageRows o size chat) :=
      pageRows_latestRows htimes
    obtain rfl := eq_of_id (hrows.mem m' hm') hchat (hid.trans hm.symm)
    obtain ⟨k, hk⟩ := List.mem_iff_getElem?.mp hm'
    have hown : (isOutgoing (some mid) m' && !m'.2.isDeleted) = true := by
      rw [← readRow_eq hmid] at hread
      exact (Bool.and_eq_true_iff.mp hread).1
    obtain ⟨i, -, hscan⟩ := scanBack_isSome (List.getElem?_eq_some_iff.mp hk).1
      (show ((t.pageRows o size chat)[k]?).any (fun m => isOutgoing (some mid) m &&
        !m.2.isDeleted && m.1 == r.lastReadMessageId) = true by
          rw [hk, Option.any_some, hown, hid, beq_self_eq_true]; rfl)
    obtain ⟨hlt, hp, -⟩ := scanBack_eq_some.mp hscan
    have hi := List.getElem?_eq_getElem hlt
    rw [hi, Option.any_some, Bool.and_eq_true] at hp
    exact ⟨i, hscan, _, hi, beq_iff_eq.mp hp.2⟩

theorem readerRow_eq_some {reader : String} {row : (String × String) × Int} :
    t.readerRow chat reader = some row ↔ row ∈ t.readers ∧ row.1 = (chat, reader) :=
  find?_key_eq_some t.readers_nodup

theorem mem_pageReaders {r : GroupReader} :
    r ∈ t.pageReaders o myMid chat ↔ ∃ mid row, myMid = some mid ∧ mid ≠ "" ∧
      isGroup chat = true ∧ r.readerMid ≠ mid ∧ t.readerRow chat r.readerMid = some row ∧
      t.groupReader o chat mid row = some r := by
  unfold pageReaders getGroupReaders
  constructor
  · intro h
    split at h
    · rename_i mid
      split at h
      · rename_i hgroup
        split at h
        · cases h
        rename_i hguard
        rw [not_or] at hguard
        obtain ⟨row, hrow, hreader⟩ := List.mem_filterMap.mp h
        obtain ⟨hmem, hkeys⟩ := List.mem_filter.mp hrow
        obtain ⟨hchat, hother⟩ := of_decide_eq_true hkeys
        have hmid : r.readerMid = row.1.2 := by
          obtain ⟨id, -, rfl⟩ := Option.map_eq_some_iff.mp hreader
          rfl
        rw [hmid]
        exact ⟨mid, row, rfl, hguard.2, hgroup, hother,
          readerRow_eq_some.mpr ⟨hmem, Prod.ext hchat rfl⟩, hreader⟩
      · cases h
    · cases h
  · rintro ⟨mid, row, rfl, hmid, hgroup, hother, hrow, hreader⟩
    obtain ⟨hmem, hkey⟩ := readerRow_eq_some.mp hrow
    dsimp only
    rw [if_pos hgroup, if_neg (not_or.mpr ⟨ne_empty_of_isGroup hgroup, hmid⟩)]
    refine List.mem_filterMap.mpr ⟨row, List.mem_filter.mpr ⟨hmem, decide_eq_true ?_⟩, hreader⟩
    rw [hkey]
    exact ⟨rfl, hother⟩

theorem mem_pageMarks_reader (htimes : t.DistinctTimes chat) (hone : isOneToOne chat = false)
    {reader : String} {mark : String × String} :
    (mark.1, ReadLabel.reader reader mark.2) ∈ t.pageMarks o myMid size chat ↔
      myMid ≠ some reader ∧ ReadBy o t myMid size chat reader mark := by
  have hno : ¬ (isOneToOne chat = true) := by rw [hone]; exact Bool.false_ne_true
  unfold pageMarks readBuckets
  dsimp only
  rw [if_neg hno, if_neg hno, mem_pageMarkers]
  constructor
  · rintro ⟨b, hb, hlabel, m, hm, hid⟩
    split at hb
    · obtain ⟨⟨i, rs⟩, hbucket, rfl⟩ := List.mem_map.mp hb
      obtain ⟨r, hr, heq⟩ := List.mem_map.mp hlabel
      obtain ⟨rfl, hname⟩ := ReadLabel.reader.inj heq
      obtain ⟨hreader, hidx⟩ := inBucket_groupBuckets.mp ⟨rs, hbucket, hr⟩
      obtain ⟨mid, row, rfl, hmid, hgroup, hother, hrow, hof⟩ := mem_pageReaders.mp hreader
      refine ⟨fun h => hother (Option.some.inj h).symm, mid, row, rfl, hmid, hgroup, hrow, ?_⟩
      obtain ⟨id, hlast, rfl⟩ := Option.map_eq_some_iff.mp hof
      obtain ⟨rfl, hmem⟩ := (readerIdx_iff htimes hmid hlast).mp ⟨i, hidx, m, hm, hid⟩
      exact ⟨hlast, hname, hmem⟩
    · rw [if_neg (by omega)] at hb
      cases hb
  · rintro ⟨hother, mid, row, rfl, hmid, hgroup, hrow, hlast, hname, hmem⟩
    have hkey := (readerRow_eq_some.mp hrow).2
    have hof : t.groupReader o chat mid row = some ⟨reader, t.readerName reader, mark.1⟩ := by
      unfold groupReader
      rw [hlast, hkey]
      rfl
    have hreader : ⟨reader, t.readerName reader, mark.1⟩ ∈ t.pageReaders o (some mid) chat :=
      mem_pageReaders.mpr ⟨mid, row, rfl, hmid, hgroup, fun h => hother (congrArg some h.symm),
        hrow, hof⟩
    obtain ⟨i, hidx, m, hm, hid⟩ := (readerIdx_iff htimes hmid
      (r := ⟨reader, t.readerName reader, mark.1⟩) hlast).mpr ⟨rfl, hmem⟩
    obtain ⟨rs, hbucket, hr⟩ := inBucket_groupBuckets.mpr ⟨hreader, hidx⟩
    refine ⟨⟨i, some rs⟩, ?_, List.mem_map.mpr ⟨_, hr, congrArg _ hname⟩, m, hm, hid⟩
    rw [if_pos (by rw [List.isEmpty_eq_false_iff.mpr (List.ne_nil_of_mem hreader)]; rfl)]
    exact List.mem_map.mpr ⟨_, hbucket, rfl⟩

theorem readJs_group {op : TalkOperation}
    (hone : isOneToOne (op.param1.getD "") = false) (mid : String) :
    t.readJs o (some mid) op = t.jsForSseGroupReadReceipt o mid op := by
  have hpeer : t.jsForSseReadReceipt o mid op = none := by
    unfold jsForSseReadReceipt
    split
    · rfl
    cases hchat : nonemptyText op.param1 with
    | none => rfl
    | some chat =>
      have hsome := (Option.filter_eq_some_iff.mp hchat).1
      rw [hsome, Option.getD_some] at hone
      dsimp only
      rw [hone]
      exact if_neg Bool.false_ne_true
  unfold readJs
  dsimp only
  rw [hpeer, Option.none_or]

theorem nonemptyText_of_ne {s : String} (h : s ≠ "") : nonemptyText (some s) = some s := by
  simpa [nonemptyText] using h

theorem lastRead_ne_empty {mid : String} {time : Int} {id : String}
    (h : t.lastRead o chat mid time = some id) : id ≠ "" := by
  have hne := (Option.filter_eq_some_iff.mp h).2
  simpa using hne

/-- The script of a group's receipt, read as a mark. -/
theorem readMark_group {op : TalkOperation} (hop : op.type = .notifiedReadMessage)
    (hgroup : isGroup (op.param1.getD "") = true) {mid reader : String} (hmid : mid ≠ "")
    (hreader : op.param2 = some reader) (hne : reader ≠ "") :
    (t.jsForSseGroupReadReceipt o mid op).bind PageChange.readMark =
      (t.readerRow (op.param1.getD "") reader).bind fun row =>
        (t.lastRead o (op.param1.getD "") mid row.2).map fun id =>
          (id, .reader reader (t.shownName reader)) := by
  unfold jsForSseGroupReadReceipt getGroupReader
  rw [if_neg (not_or.mpr ⟨hmid, not_not.mpr hop⟩), nonemptyText_param1 (ne_empty_of_isGroup hgroup),
    hreader, nonemptyText_of_ne hne]
  dsimp only
  rw [if_pos hgroup, if_neg (by simp [ne_empty_of_isGroup hgroup, hne, hmid])]
  cases hrow : t.readerRow (op.param1.getD "") reader with
  | none => rfl
  | some row =>
    have hkey : row.1.2 = reader := congrArg Prod.snd (readerRow_eq_some.mp hrow).2
    unfold groupReader
    rw [Option.bind_some, Option.bind_some, hkey]
    cases hlast : t.lastRead o (op.param1.getD "") mid row.2 with
    | none => rfl
    | some id =>
      simp only [Option.map_some, Option.bind_some, PageChange.readMark, nonemptyText_of_ne hne,
        nonemptyText_of_ne (lastRead_ne_empty hlast)]
      rfl

theorem readMark_reader {op : TalkOperation} (hop : op.type = .notifiedReadMessage)
    (hone : isOneToOne (op.param1.getD "") = false) {reader : String}
    (hreader : op.param2 = some reader) {mark : String × String} :
    ((t.readJs o myMid op).bind PageChange.readMark = some (mark.1, .reader reader mark.2) ∧
        mark.1 ∈ (t.pageRows o size (op.param1.getD "")).map Prod.fst) ↔
      ReadBy o t myMid size (op.param1.getD "") reader mark := by
  unfold ReadBy
  cases myMid with
  | none =>
    refine iff_of_false (fun h => by cases h.1) ?_
    rintro ⟨_, _, h, -⟩
    cases h
  | some mid =>
    rw [readJs_group hone]
    by_cases hgood : mid ≠ "" ∧ isGroup (op.param1.getD "") = true ∧ reader ≠ ""
    · obtain ⟨hmid, hgroup, hne⟩ := hgood
      rw [readMark_group hop hgroup hmid hreader hne]
      constructor
      · rintro ⟨hmark, hmem⟩
        obtain ⟨row, hrow, hmap⟩ := Option.bind_eq_some_iff.mp hmark
        obtain ⟨id, hlast, heq⟩ := Option.map_eq_some_iff.mp hmap
        obtain ⟨rfl, hlabel⟩ := Prod.mk.inj heq
        exact ⟨mid, row, rfl, hmid, hgroup, hrow, hlast, (ReadLabel.reader.inj hlabel).2, hmem⟩
      · rintro ⟨mid', row, hsome, -, -, hrow, hlast, hname, hmem⟩
        obtain rfl := Option.some.inj hsome
        rw [hrow, Option.bind_some, hlast, hname]
        exact ⟨rfl, hmem⟩
    · have hnone : t.jsForSseGroupReadReceipt o mid op = none := by
        unfold jsForSseGroupReadReceipt
        split
        · rfl
        rename_i hguard
        split
        · rename_i chat reader' hchat hreader'
          rw [hreader] at hreader'
          obtain ⟨hsome, hnonempty⟩ := Option.filter_eq_some_iff.mp hreader'
          obtain rfl := Option.some.inj hsome
          have hparam := (Option.filter_eq_some_iff.mp hchat).1
          refine if_neg fun hgroup => hgood ⟨fun h => hguard (.inl h), ?_, by simpa using hnonempty⟩
          rw [hparam]
          exact hgroup
        · rfl
      rw [hnone]
      refine iff_of_false (fun h => by cases h.1) ?_
      rintro ⟨mid', row, hsome, hmid, hgroup, hrow, -⟩
      obtain rfl := Option.some.inj hsome
      refine hgood ⟨hmid, hgroup, ?_⟩
      obtain ⟨hmem, hkey⟩ := readerRow_eq_some.mp hrow
      have hnamed := t.readers_named row hmem
      rw [hkey] at hnamed
      exact hnamed

/-- The account itself is read by nobody exactly where nothing on the page is old enough. -/
theorem readBy_self_iff (htimes : t.DistinctTimes chat) {mid : String} (hmid : mid ≠ "")
    (hgroup : isGroup chat = true) :
    (∀ mark, ¬ ReadBy o t (some mid) size chat mid mark) ↔
      ∀ row, t.readerRow chat mid = some row →
        NoneRead (some mid) row.2 (t.pageRows o size chat) := by
  constructor
  · intro h row hrow
    rw [noneRead_iff]
    intro id hfound
    obtain ⟨hlast, hmem⟩ := (found_iff htimes hmid row.2 id).mp hfound
    exact h (id, t.shownName mid) ⟨mid, row, rfl, hmid, hgroup, hrow, hlast, rfl, hmem⟩
  · rintro h mark ⟨mid', row, hsome, -, -, hrow, hlast, -, hmem⟩
    obtain rfl := Option.some.inj hsome
    exact noneRead_iff.mp (h row hrow) mark.1
      ((found_iff htimes hmid row.2 mark.1).mpr ⟨hlast, hmem⟩)

theorem marksAgree_group (htimes : t.DistinctTimes chat) {op : TalkOperation}
    (hop : op.type = .notifiedReadMessage) (hchat : op.param1.getD "" = chat)
    (hone : isOneToOne chat = false) :
    (∀ reader, op.param2 = some reader → ∀ mark : String × String,
      (mark.1, ReadLabel.reader reader mark.2) ∈ t.pageMarks o myMid size chat ↔
        (t.readJs o myMid op).bind PageChange.readMark = some (mark.1, .reader reader mark.2) ∧
          mark.1 ∈ (t.pageRows o size chat).map Prod.fst) ↔
      (isGroup chat = true → op.param2 = myMid →
        ∀ row, t.readerRow chat (op.param2.getD "") = some row →
          NoneRead myMid row.2 (t.pageRows o size chat)) := by
  subst hchat
  have hread : ∀ reader, op.param2 = some reader → ∀ mark : String × String,
      ((mark.1, ReadLabel.reader reader mark.2) ∈
          t.pageMarks o myMid size (op.param1.getD "") ↔
        (t.readJs o myMid op).bind PageChange.readMark = some (mark.1, .reader reader mark.2) ∧
          mark.1 ∈ (t.pageRows o size (op.param1.getD "")).map Prod.fst) ↔
      (ReadBy o t myMid size (op.param1.getD "") reader mark → myMid ≠ some reader) := by
    intro reader hreader mark
    rw [mem_pageMarks_reader htimes hone, readMark_reader hop hone hreader]
    exact ⟨fun h hby => (h.mpr hby).1, fun h => ⟨And.right, fun hby => ⟨h hby, hby⟩⟩⟩
  constructor
  · intro h hgroup hself row hrow
    cases hreader : op.param2 with
    | none =>
      rw [hreader, Option.getD_none] at hrow
      obtain ⟨hmem, hkey⟩ := readerRow_eq_some.mp hrow
      exact absurd (congrArg Prod.snd hkey) (t.readers_named row hmem)
    | some reader =>
      rw [hreader] at hself
      subst hself
      rw [hreader, Option.getD_some] at hrow
      have hne : reader ≠ "" := by
        obtain ⟨hmem, hkey⟩ := readerRow_eq_some.mp hrow
        have hnamed := t.readers_named row hmem
        rw [hkey] at hnamed
        exact hnamed
      refine (readBy_self_iff htimes hne hgroup).mp (fun mark hby => ?_) row hrow
      exact (hread reader hreader mark).mp (h reader hreader mark) hby rfl
  · intro h reader hreader mark
    refine (hread reader hreader mark).mpr fun hby hself => ?_
    subst hself
    have hby' := hby
    obtain ⟨mid, _, hsome, hmid, hgroup, -⟩ := hby'
    obtain rfl := Option.some.inj hsome
    rw [hreader, Option.getD_some] at h
    exact (readBy_self_iff htimes hmid hgroup).mpr (h hgroup rfl) mark hby

theorem not_isGroup {mid : String} (h : isOneToOne mid = true) : isGroup mid = false := by
  cases hc : mid.toList with
  | nil =>
    simp only [isOneToOne, hc] at h
    cases h
  | cons c cs =>
    simp only [isOneToOne, hc] at h
    simp only [isGroup, hc]
    rcases (Bool.or_eq_true _ _).mp h with h | h
    · rw [beq_iff_eq.mp h]; rfl
    · rw [beq_iff_eq.mp h]; rfl

/-- A read receipt puts its reader's mark where a reload of the page puts it, exactly where
its chat has a read time above zero, or its reader is not the account itself, or nothing on
the page can have the mark. -/
theorem readMarks_agree_iff {op : TalkOperation} (hop : op.type = .notifiedReadMessage)
    (htimes : t.DistinctTimes (op.param1.getD "")) :
    t.MarksAgree o myMid size op ↔ t.MarksMeet o myMid size op := by
  have hpeer := @marksAgree_peer o t myMid size _ htimes op hop rfl
  have hreader := @marksAgree_group o t myMid size _ htimes op hop rfl
  unfold MarksAgree MarksMeet TalkOperation.Concerns
  dsimp only
  cases hone : isOneToOne (op.param1.getD "") with
  | true =>
    rw [not_isGroup hone]
    refine Iff.trans ⟨fun h id => h id .read rfl, fun h id label hlabel => ?_⟩
      ((hpeer hone).trans ⟨fun h => ⟨fun _ => h, fun hgroup => by cases hgroup⟩, fun h => h.1 rfl⟩)
    cases label with
    | read => exact h id
    | reader mid name => cases hlabel.1
  | false =>
    refine Iff.trans ⟨fun h reader hparam mark => ?_, fun h id label hlabel => ?_⟩
      ((hreader hone).trans ⟨fun h => ⟨fun hone => (by cases hone), h⟩, And.right⟩)
    · exact h mark.1 (.reader reader mark.2) ⟨rfl, hparam⟩
    · cases label with
      | read => cases hlabel
      | reader mid name => exact h mid hlabel.2 (id, name)

/-! ## An own receipt -/

/-- The rows of the tables, as the operations of the event stream see them. -/
structure Lists (t : MarkTables) (d : Db) : Prop where
  messages : ∀ id, d.messages id = (t.messages.rows.find? (·.1 = id)).map Prod.snd
  messageBoxes : d.messageBoxes = t.messageBoxes
  readers : ∀ k, d.messageBoxReaders k = (t.readers.find? (·.1 = k)).map Prod.snd

def ownMessage : MessageRow := { fromMid := some "me", createdTime := 5, chatId := "c1" }

/-- A group with one message, the account's own. -/
def ownDb : Db where
  messageBoxes := fun _ => none
  messages := fun id => if id = "m1" then some ownMessage else none
  messageBoxReaders := fun _ => none

/-- The tables after a receipt of the account for its own message. -/
def ownTables : MarkTables where
  messages := ⟨[("m1", ownMessage)], by decide⟩
  messages_named := by decide
  messageBoxes := fun _ => none
  readers := [(("c1", "me"), 7)]
  readers_nodup := by decide
  readers_named := by decide
  contacts := fun _ => none

theorem ownTables_lists :
    ownTables.Lists (applyOpRead (receiptOf "c1" "me" 7) { db := ownDb }).2.db where
  messages id := by
    show (if id = "m1" then some ownMessage else none) = _
    by_cases h : id = "m1"
    · subst h
      rfl
    · rw [if_neg h, ownTables, List.find?_cons_of_neg (by simpa using Ne.symm h)]
      rfl
  messageBoxes := rfl
  readers k := by
    by_cases h : k = ("c1", "me")
    · subst h
      rfl
    · rw [ownTables, List.find?_cons_of_neg (by simpa using Ne.symm h)]
      exact (Db.upsertReader_of_ne 7 ownDb.messageBoxReaders h).trans rfl

theorem ownTables_distinct : ownTables.DistinctTimes "c1" := by
  unfold DistinctTimes
  decide

/-- The script of an own receipt puts a mark that no reload shows. -/
theorem own_receipt_marked : ¬ ∀ (o : Descending createdAt) (t : MarkTables)
    (myMid : Option String) (size : Int) (op : TalkOperation) (c : Conn Db),
    op.type = .notifiedReadMessage → (applyOpRead op c).1 = .ok →
      t.Lists (applyOpRead op c).2.db → t.DistinctTimes (op.param1.getD "") →
        t.MarksAgree o myMid size op := by
  intro hall
  have hagree := hall (Descending.stable createdAt) ownTables (some "me") 40
    (receiptOf "c1" "me" 7) { db := ownDb } rfl rfl ownTables_lists ownTables_distinct "m1"
    (.reader "me" "me") ⟨rfl, rfl⟩
  have hmark : (ownTables.readJs (Descending.stable createdAt) (some "me")
      (receiptOf "c1" "me" 7)).bind PageChange.readMark = some ("m1", .reader "me" "me") := by
    decide
  have hpage : ("m1", ReadLabel.reader "me" "me") ∉
      ownTables.pageMarks (Descending.stable createdAt) (some "me") 40 "c1" := by
    decide
  exact hpage (hagree.mpr ⟨hmark, by decide⟩)

/-- The tables after a receipt of another member. -/
def memberTables : MarkTables :=
  { ownTables with
    readers := [(("c1", "u2"), 7)]
    readers_nodup := by decide
    readers_named := by decide }

/-- The mark of the member is under the message on the page and in the script. -/
theorem readMarks_agree_member :
    memberTables.MarksAgree (Descending.stable createdAt) (some "me") 40 (receiptOf "c1" "u2" 7) ∧
      ("m1", ReadLabel.reader "u2" "u2") ∈
        memberTables.pageMarks (Descending.stable createdAt) (some "me") 40 "c1" := by
  have hgroup : isOneToOne "c1" = false := by decide
  have hother : some "u2" ≠ some "me" := by decide
  refine ⟨(readMarks_agree_iff rfl ownTables_distinct).mpr ⟨fun hone => ?_, fun _ hown => ?_⟩,
    by decide⟩
  · exact absurd (hone.symm.trans hgroup) (by decide)
  · exact absurd hown hother

end MarkTables

end Enil
