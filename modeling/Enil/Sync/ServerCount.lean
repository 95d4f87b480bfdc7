import Enil.Sync.FullSync
import Enil.Sync.Redelivery

/-!
# A full sync and the server's unread count

The server keeps a log of incoming messages and marks as seen, and counts for each
chat the messages since the last mark. A sync captures the revision, fetches the
boxes, then the recent messages of each, while operations keep arriving; the
operations after the captured revision are delivered afterwards. A stored message
does not count again when its operation is delivered, so the count agrees only as
`Interleaving.Agrees` says.
-/

namespace Enil

open Lib Db

namespace Effect

/-- An incoming message or a mark as seen. -/
def isServerOp : Effect → Bool
  | store e => e.incoming
  | seen _ _ => true
  | _ => false

def storedId : Effect → Option String
  | store e => some e.message.id
  | _ => none

def chat : Effect → Option String
  | store e => some e.chatId
  | seen c _ => some c
  | _ => none

/-- What the operation adds to the tally of a chat. -/
def entry (chat : String) : Effect → Option (Entry String)
  | store e => if e.chatId = chat then some (.add e.message.id) else none
  | seen c _ => if c = chat then some .reset else none
  | _ => none

end Effect

/-- An operation of the server's log, with the event that delivers it. -/
structure ServerOp (cj : Cjson) (myMid : Option String) where
  delivery : Delivery
  effect : Effect
  effect_eq : effectOf cj myMid delivery = some effect
  isOp : effect.isServerOp = true

variable {cj : Cjson} {myMid : Option String}

abbrev ServerLog (cj : Cjson) (myMid : Option String) := List (ServerOp cj myMid)

namespace ServerLog

variable (log : ServerLog cj myMid)

def ids : List String := log.filterMap (·.effect.storedId)

def entries (chat : String) : List (Entry String) := log.filterMap (·.effect.entry chat)

def messageIds (chat : String) : List String :=
  (log.entries chat).filterMap fun
    | .add id => some id
    | .reset => none

/-- The incoming messages after the last mark as seen. -/
def unread (chat : String) : Nat := (Entry.since (log.entries chat)).length

def recentIds (chat : String) : List String :=
  (log.messageIds chat).drop ((log.messageIds chat).length - messagesPerChat)

end ServerLog

/-- The server's log cut where the sync captures the revision and where it fetches
the boxes. The recent messages of each chat are fetched later. -/
structure Interleaving (cj : Cjson) (myMid : Option String) where
  before : ServerLog cj myMid
  between : ServerLog cj myMid
  after : ServerLog cj myMid
  /-- How much of `after` is there when the messages of a chat are fetched. -/
  fetchedAt : String → Nat
  distinct : (ServerLog.ids (before ++ between ++ after)).Nodup

namespace Interleaving

variable (i : Interleaving cj myMid)

def log : ServerLog cj myMid := i.before ++ i.between ++ i.after

structure Answered (a : SyncAnswers) : Prop where
  localRev : a.localRev = i.before.length
  count : ∀ b ∈ a.boxes, b.unreadCount = ServerLog.unread (i.before ++ i.between) b.id
  listed : ∀ chat, ServerLog.messageIds (i.before ++ i.between) chat ≠ [] →
    ∃ b ∈ a.boxes, b.id = chat

/-- The answers to the later fetches of recent messages. -/
def Fetches (a : SyncAnswers) : Prop :=
  ∀ b ∈ a.boxes, (a.recents b.id).map (·.id) =
    ServerLog.recentIds (i.before ++ i.between ++ i.after.take (i.fetchedAt b.id)) b.id

/-- The store before the sync: no message that comes later, no count for a chat
without messages. -/
structure Behind (db : Db) : Prop where
  ids : ∀ id ∈ ServerLog.ids (i.between ++ i.after), (db.messages id).isSome = false
  count : ∀ chat, unreadCount db chat ≠ 0 → i.before.messageIds chat ≠ []

/-- Where a mark as seen is delivered after the sync, no message behind the last mark
was fetched. Where none is, as many messages that came after the boxes were fetched
as messages that came before them and after the revision were not. -/
def Agrees (a : SyncAnswers) (chat : String) : Prop :=
  let between := i.between.entries chat
  let after := i.after.entries chat
  (.reset ∈ between ++ after → ∀ id ∈ Entry.since (between ++ after), a.fetched id = false) ∧
  (.reset ∉ between ++ after → ((Entry.since between).filter (!a.fetched ·)).length =
    ((Entry.since after).filter a.fetched).length)

end Interleaving

/-! ## Delivering the log -/

theorem unreadCount_setBox (d : Db) (chat chat' : String) (b : MessageBox) :
    unreadCount (d.setBox chat b) chat' =
      if chat = chat' then b.unreadCount.getD 0 else unreadCount d chat' := by
  unfold unreadCount
  by_cases hc : chat = chat'
  · subst hc; rw [setBox_messageBoxes_self, if_pos rfl]; rfl
  · rw [setBox_messageBoxes_of_ne _ _ fun he => hc he.symm, if_neg hc]

/-- A stored message counts unless it was there. -/
theorem stepBox_unreadCount {e : StoreMessage} (hid : e.message.id ≠ "") (hin : e.incoming = true)
    (db : Db) : ((e.stepBox db (db.messageBoxes e.chatId)).unreadCount).getD 0 =
      if (db.messages e.message.id).isSome then unreadCount db e.chatId
      else unreadCount db e.chatId + 1 := by
  have hcount : unreadCount db e.chatId =
      (((db.messageBoxes e.chatId).getD {}).unreadCount).getD 0 := by
    unfold unreadCount; cases db.messageBoxes e.chatId <;> rfl
  simp only [StoreMessage.stepBox, liveUnread_getD hid, countStored, hin, if_true, hcount]
  cases db.messages e.message.id <;> rfl

/-- What an operation does to the stored ids and the counts. -/
theorem ServerOp.step_eq {op : ServerOp cj myMid} {db db' : Db}
    (h : (receiver cj myMid).step db op.delivery = some db') :
    (∀ id, (db'.messages id).isSome =
      ((db.messages id).isSome || op.effect.storedId == some id)) ∧
    ∀ chat, unreadCount db' chat = (op.effect.entry chat).elim (unreadCount db chat) fun
      | .add id => if (db.messages id).isSome then unreadCount db chat else unreadCount db chat + 1
      | .reset => 0 := by
  obtain ⟨e, he, hstep⟩ := receiver_step_some.mp h
  rw [op.effect_eq, Option.some.injEq] at he
  have hop := op.isOp
  have hwf := effectOf_wellFormed op.effect_eq
  rw [he] at hop hwf ⊢
  cases e with
  | store e =>
    obtain ⟨row, -, rfl⟩ := Option.map_eq_some_iff.mp hstep
    refine ⟨fun id => ?_, fun chat => ?_⟩
    · by_cases hid : id = e.message.id
      · subst hid; rw [setRow_messages_self]; simp [Effect.storedId]
      · rw [setRow_messages_of_ne _ _ hid]
        have hne : ¬ e.message.id = id := fun he => hid he.symm
        simp [Effect.storedId, hne]
    · change unreadCount (db.setBox e.chatId _) chat = _
      rw [unreadCount_setBox, stepBox_unreadCount hwf hop]
      by_cases hc : e.chatId = chat
      · subst hc; simp [Effect.entry]
      · simp [Effect.entry, hc]
  | seen c messageId =>
    cases hstep
    refine ⟨fun id => by simp [onBoxes, Effect.storedId], fun chat => ?_⟩
    simp only [unreadCount, onBoxes, Effect.entry]
    by_cases hc : c = chat
    · subst hc
      rw [Table.update_same, if_pos rfl]
      cases db.messageBoxes c <;> rfl
    · rw [Table.update_of_ne _ _ fun he => hc he.symm, if_neg hc]
      rfl
  | skip | deleted | peerRead | groupRead | react => cases hop

theorem ServerLog.mem_ids_of_add {log : ServerLog cj myMid} {chat id : String}
    (h : .add id ∈ log.entries chat) : id ∈ log.ids := by
  obtain ⟨op, hop, hentry⟩ := List.mem_filterMap.mp h
  refine List.mem_filterMap.mpr ⟨op, hop, ?_⟩
  cases he : op.effect <;> rw [he] at hentry <;> simp only [Effect.entry] at hentry
  case store e =>
    split at hentry
    · cases hentry; rfl
    · cases hentry
  case seen c m => split at hentry <;> cases hentry
  all_goals cases hentry

/-- The delivered operations count what was not stored before. -/
theorem replay_count {log : ServerLog cj myMid} (hids : log.ids.Nodup) {db s : Db}
    (hrun : (receiver cj myMid).run db (log.map (·.delivery)) = some s) {chat : String} {n : Nat}
    (hn : unreadCount db chat = n) :
    unreadCount s chat =
      Entry.replay (fun id => (db.messages id).isSome) n (log.entries chat) := by
  induction log generalizing db n with
  | nil =>
    simp only [List.map_nil, Machine.run_nil, Option.some.injEq] at hrun
    subst hrun; exact hn
  | cons op log ih =>
    obtain ⟨db', hstep, hrest⟩ := Machine.run_cons_some.mp hrun
    obtain ⟨hids', hcount⟩ := op.step_eq hstep
    have hnodup : ServerLog.ids log |>.Nodup := by
      unfold ServerLog.ids at hids ⊢
      rw [List.filterMap_cons] at hids
      split at hids
      · exact hids
      · exact (List.nodup_cons.mp hids).2
    -- The ids of the rest are stored exactly where they were before.
    have hknown : ∀ id, .add id ∈ ServerLog.entries log chat →
        (db'.messages id).isSome = (db.messages id).isSome := by
      intro id hadd
      rw [hids' id]
      have hne : op.effect.storedId ≠ some id := fun he => by
        unfold ServerLog.ids at hids
        rw [List.filterMap_cons, he] at hids
        exact (List.nodup_cons.mp hids).1 (ServerLog.mem_ids_of_add hadd)
      simp [hne]
    have hcongr := Entry.replay_congr hknown
    unfold ServerLog.entries at hcongr ⊢
    rw [List.filterMap_cons]
    have hchat := hcount chat
    cases hentry : op.effect.entry chat with
    | none =>
      rw [hentry] at hchat
      rw [ih hnodup hrest (hchat.trans hn)]
      exact congrArg _ (hcongr n)
    | some e =>
      rw [hentry] at hchat
      have hn' : unreadCount db' chat = Entry.replayStep (fun id => (db.messages id).isSome) n e := by
        rw [hchat, Option.elim_some]
        cases e with
        | add id => simp only [Entry.replayStep, hn]; split <;> rfl
        | reset => rfl
      rw [ih hnodup hrest hn']
      exact congrArg _ (hcongr _)

theorem ServerLog.messageIds_append (log log' : ServerLog cj myMid) (chat : String) :
    ServerLog.messageIds (log ++ log') chat = log.messageIds chat ++ log'.messageIds chat := by
  simp only [messageIds, entries, List.filterMap_append]

theorem ServerLog.unread_of_no_messages {log : ServerLog cj myMid} {chat : String}
    (h : log.messageIds chat = []) : log.unread chat = 0 := by
  rw [unread, List.length_eq_zero_iff, List.eq_nil_iff_forall_not_mem]
  intro id hid
  have hmem : id ∈ log.messageIds chat :=
    List.mem_filterMap.mpr ⟨.add id, Entry.add_mem_of_mem_since hid, rfl⟩
  rw [h] at hmem
  cases hmem

/-! ## The count after sync and delivery -/

namespace Interleaving

variable {i : Interleaving cj myMid}

/-- A committed sync leaves the server's count of the moment the boxes were fetched. -/
theorem count_after_sync {a : SyncAnswers} (ha : i.Answered a) {c : Conn Db} (hb : i.Behind c.db)
    {rev : Nat} (h : (syncAll cj a c).1 = some rev) (chat : String) :
    unreadCount (syncAll cj a c).2.db chat = ServerLog.unread (i.before ++ i.between) chat := by
  rw [(syncAll_committed h).2.count, boxCount_of_forall
    (f := fun chat => ServerLog.unread (i.before ++ i.between) chat) ha.count]
  split
  · rfl
  · rename_i hbox
    -- A chat without a box has no message yet, so that neither side counts one.
    have hnone : ServerLog.messageIds (i.before ++ i.between) chat = [] := by
      by_contra hne; exact hbox (ha.listed chat hne)
    have hserver : ServerLog.unread (i.before ++ i.between) chat = 0 :=
      ServerLog.unread_of_no_messages hnone
    have hlocal : unreadCount c.db chat = 0 := by
      by_contra hne
      refine hb.count chat hne ?_
      rw [ServerLog.messageIds_append] at hnone
      exact (List.append_eq_nil_iff.mp hnone).1
    rw [Option.getD_none, hserver, hlocal]; rfl

/-- After the operations behind the committed revision are delivered, the stored
unread counts are the server's exactly where the fetches of every chat agree. -/
theorem unread_agrees_iff {a : SyncAnswers} (ha : i.Answered a) {c : Conn Db}
    (hb : i.Behind c.db) {rev : Nat} (hsync : (syncAll cj a c).1 = some rev) {s : Db}
    (hrun : (receiver cj myMid).run (syncAll cj a c).2.db
      ((i.log.drop rev).map (·.delivery)) = some s) :
    (∀ chat, unreadCount s chat = i.log.unread chat) ↔ ∀ chat, i.Agrees a chat := by
  refine forall_congr' fun chat => ?_
  obtain ⟨hrev, hstored⟩ := syncAll_committed hsync
  have hdrop : i.log.drop rev = i.between ++ i.after := by
    rw [hrev, ha.localRev, log, List.append_assoc, List.drop_left]
  rw [hdrop] at hrun
  have hnodup : ServerLog.ids (i.between ++ i.after) |>.Nodup := by
    have h := i.distinct
    unfold ServerLog.ids at h ⊢
    rw [List.append_assoc, List.filterMap_append] at h
    exact (List.nodup_append.mp h).2.1
  rw [replay_count hnodup hrun (count_after_sync ha hb hsync chat)]
  -- What is stored of the delivered messages is what was fetched.
  have hknown : ∀ id, .add id ∈ ServerLog.entries (i.between ++ i.after) chat →
      (((syncAll cj a c).2.db).messages id).isSome = a.fetched id := fun id hadd => by
    rw [hstored.ids, hb.ids id (ServerLog.mem_ids_of_add hadd), Bool.false_or]
  rw [Entry.replay_congr hknown, ServerLog.unread, log, List.append_assoc, Nat.cast_inj]
  unfold ServerLog.unread ServerLog.entries Agrees
  simp only [List.filterMap_append]
  exact Entry.replay_eq_since_iff _ _ _

end Interleaving

/-! ## A message between two fetches -/

/-- A delivery that adds to the log. -/
def ServerOp.ofDelivery (d : Delivery)
    (h : (effectOf cj myMid d).any (·.isServerOp) = true) : ServerOp cj myMid where
  delivery := d
  effect := (effectOf cj myMid d).get (by cases he : effectOf cj myMid d <;> simp_all)
  effect_eq := by simp
  isOp := by
    obtain ⟨e, he, hop⟩ := (Option.any_eq_true ..).mp h
    simp only [he, Option.get_some, hop]

theorem Effect.chat_of_entry {e : Effect} {chat : String} (h : (e.entry chat).isSome) :
    e.chat = some chat := by
  cases e <;> simp only [entry] at h
  case store e =>
    split at h
    · rename_i hc; exact congrArg some hc
    · cases h
  case seen c messageId =>
    split at h
    · rename_i hc; exact congrArg some hc
    · cases h
  all_goals cases h

/-- A chat with messages is that of an operation of the log. -/
theorem ServerLog.exists_of_messageIds {log : ServerLog cj myMid} {chat : String}
    (h : log.messageIds chat ≠ []) : ∃ op ∈ log, op.effect.chat = some chat := by
  obtain ⟨id, hid⟩ := List.exists_mem_of_ne_nil _ h
  obtain ⟨e, he, -⟩ := List.mem_filterMap.mp hid
  obtain ⟨op, hop, hentry⟩ := List.mem_filterMap.mp he
  exact ⟨op, hop, Effect.chat_of_entry (by rw [hentry]; rfl)⟩

def firstOp : ServerOp plainJson (some "me") := .ofDelivery firstMessage (by decide)

def secondOp : ServerOp plainJson (some "me") := .ofDelivery secondMessage (by decide)

def fetchedMessage (id : String) : TalkMessage :=
  { id := id, chatId := some "peer", raw := .obj [] }

def answersOf (localRev : Nat) (recents : List String) : SyncAnswers where
  localRev := localRev
  boxes := [{ id := "peer", unreadCount := 1 }]
  recents _ := recents.map fetchedMessage

/-- The second message arrives after the boxes and before the recent messages. -/
def arrivesBetweenFetches : Interleaving plainJson (some "me") where
  before := []
  between := [firstOp]
  after := [secondOp]
  fetchedAt _ := 1
  distinct := by decide

/-- The second message arrives after the fetches. -/
def arrivesAfterFetches : Interleaving plainJson (some "me") where
  before := [firstOp]
  between := []
  after := [secondOp]
  fetchedAt _ := 0
  distinct := by decide

theorem behind_empty (i : Interleaving cj myMid) : i.Behind Db.empty :=
  ⟨fun _ _ => rfl, fun _ h => absurd rfl h⟩

theorem listed_firstOp {chat : String}
    (h : ServerLog.messageIds [firstOp] chat ≠ []) :
    "peer" = chat := by
  obtain ⟨op, hop, hchat⟩ := ServerLog.exists_of_messageIds h
  rw [List.mem_singleton.mp hop, show firstOp.effect.chat = some "peer" by decide] at hchat
  exact Option.some.inj hchat

theorem answered_between : arrivesBetweenFetches.Answered (answersOf 0 ["m1", "m2"]) where
  localRev := rfl
  count := by decide
  listed _ h := ⟨_, List.mem_singleton_self _, listed_firstOp h⟩

theorem answered_after : arrivesAfterFetches.Answered (answersOf 1 ["m1"]) where
  localRev := rfl
  count := by decide
  listed _ h := ⟨_, List.mem_singleton_self _, listed_firstOp h⟩

/-- The stored count of `peer` after the sync and the delivery of what follows the
committed revision. -/
def countAfterSync (i : Interleaving plainJson (some "me")) (a : SyncAnswers) : Option Int :=
  let r := syncAll plainJson a { db := Db.empty }
  (r.1.bind fun rev => (receiver plainJson (some "me")).run r.2.db
    ((i.log.drop rev).map (·.delivery))).map (unreadCount · "peer")

/-- A message that arrives between the fetch of the boxes and that of the recent
messages is stored without being counted: one of two unread messages is lost. -/
theorem sync_loses_unread :
    arrivesBetweenFetches.Answered (answersOf 0 ["m1", "m2"]) ∧
    arrivesBetweenFetches.Fetches (answersOf 0 ["m1", "m2"]) ∧
    arrivesBetweenFetches.Behind Db.empty ∧
    countAfterSync arrivesBetweenFetches (answersOf 0 ["m1", "m2"]) = some 1 ∧
    arrivesBetweenFetches.log.unread "peer" = 2 :=
  ⟨answered_between, by unfold Interleaving.Fetches; decide, behind_empty _, by decide, by decide⟩

/-- A message that arrives after the fetches is counted when it is delivered. -/
theorem unread_agrees_after_fetches :
    ∃ s, (receiver plainJson (some "me")).run
        (syncAll plainJson (answersOf 1 ["m1"]) { db := Db.empty }).2.db
        ((arrivesAfterFetches.log.drop 1).map (·.delivery)) = some s ∧
      ∀ chat, unreadCount s chat = arrivesAfterFetches.log.unread chat := by
  have hsync : (syncAll plainJson (answersOf 1 ["m1"]) { db := Db.empty }).1 = some 1 := by
    decide
  have hruns : ((receiver plainJson (some "me")).run
      (syncAll plainJson (answersOf 1 ["m1"]) { db := Db.empty }).2.db
      ((arrivesAfterFetches.log.drop 1).map (·.delivery))).isSome := by decide
  obtain ⟨s, hrun⟩ := Option.isSome_iff_exists.mp hruns
  refine ⟨s, hrun, (Interleaving.unread_agrees_iff answered_after (behind_empty _) hsync hrun).mpr ?_⟩
  intro chat
  have hnew : ∀ id ∈ Entry.since (ServerLog.entries [secondOp] chat),
      (answersOf 1 ["m1"]).fetched id = false := by
    intro id hid
    have hids := ServerLog.mem_ids_of_add (Entry.add_mem_of_mem_since hid)
    rw [show ServerLog.ids [secondOp] = ["m2"] by decide, List.mem_singleton] at hids
    rw [hids]; decide
  refine ⟨fun _ => hnew, fun _ => ?_⟩
  change 0 = ((Entry.since (ServerLog.entries [secondOp] chat)).filter _).length
  rw [eq_comm, List.length_eq_zero_iff, List.filter_eq_nil_iff]
  intro id hid
  rw [hnew id hid]; simp

end Enil
