import Enil.Sync.Fetching

/-!
# A sync commits in full

What a sync that commits its cursor has received and stored: the batches of chats, the
pages of boxes and the recent messages in full, and the contacts of the batches that did
not fail.
-/

namespace Enil

open Lib Lib.Sql Db

namespace Fetch

open SyncDb

section Received

variable {cj : Cjson} {a : Replies} {rest : SyncRest}

/-! ## What a sync received and stored -/

/-- Every batch of contacts that the ids call for was received. -/
def ContactsReceived (cj : Cjson) (a : Replies) : Prop :=
  ∀ ids, getAllContactIds cj a.contactIds = some ids →
    ∀ k < batchCount ids.length, (contactBatch cj (a.contacts k)).isSome

/-- Every batch of chats that the mids call for was received. -/
def ChatsReceived (cj : Cjson) (a : Replies) : Prop :=
  ∀ mids, talkGetAllChatMids cj a.chatMids = some mids →
    ∀ k < batchCount (mids.memberChatMids ++ mids.invitedChatMids).length,
      (chatBatch cj (a.chats k)).isSome

/-- The contacts have their rows; a name that was filled in may have replaced one. -/
def ContactsStored (cj : Cjson) (a : Replies) (d : SyncDb) : Prop :=
  ∃ contacts, talkGetContacts cj a = some contacts ∧ ∀ contact ∈ contacts,
    ∃ row, d.contacts contact.mid = some row ∧
      (row ∈ contacts ∧ row.mid = contact.mid ∨ row.registered = false)

def ChatsStored (cj : Cjson) (a : Replies) (d : SyncDb) : Prop :=
  ∃ mids chats, talkGetAllChatMids cj a.chatMids = some mids ∧
    talkGetChats cj (mids.memberChatMids ++ mids.invitedChatMids) a.chats = some chats ∧
    ∀ chat ∈ chats, ∃ row ∈ chats, row.chatMid = chat.chatMid ∧
      d.chats chat.chatMid = some (markInvited mids row)

structure BoxRows (boxes : List TalkMessageBox) (d : Db) : Prop where
  rows : ∀ box ∈ boxes, (d.messageBoxes box.id).isSome
  counts : ∀ chat n, boxCount chat boxes = some n → unreadCount d chat = n

/-- What a sync had to request was received, and its entries were stored. -/
structure Synced (cj : Cjson) (a : Replies) (d : SyncDb) : Prop where
  contactBatches : ContactsReceived cj a
  contacts : ContactsStored cj a d
  chatBatches : ChatsReceived cj a
  chats : ChatsStored cj a d
  boxes : ∃ boxes, Pages cj a.boxPages boxes ∧ BoxRows boxes d.toDb ∧
    ∀ box ∈ boxes.zipIdx, BoxStored cj a d.toDb box

theorem ContactsStored.mono {d d' : SyncDb} (h : KeepsContacts d d')
    (hs : ContactsStored cj a d) : ContactsStored cj a d' := by
  obtain ⟨contacts, hget, hrows⟩ := hs
  refine ⟨contacts, hget, fun contact hmem => ?_⟩
  rcases h.contacts contact.mid with heq | ⟨row, hrow, hfree⟩
  · rw [heq]
    exact hrows contact hmem
  · exact ⟨row, hrow, .inr hfree⟩

theorem ChatsStored.mono {d d' : SyncDb} (h : KeepsFetched d d') (hs : ChatsStored cj a d) :
    ChatsStored cj a d' := by
  unfold ChatsStored
  rw [h.chats]
  exact hs

theorem BoxRows.mono {boxes : List TalkMessageBox} {d d' : Db} (h : KeepsRows d d')
    (hs : BoxRows boxes d) : BoxRows boxes d' :=
  ⟨fun box hbox => h.boxes _ (hs.rows box hbox),
    fun chat n hn => (h.counts chat).trans (hs.counts chat n hn)⟩

theorem contacts_of_some {c : Conn SyncDb} {u : Unit} (h : (syncContacts cj a c).1 = some u) :
    ContactsStored cj a (syncContacts cj a c).2.db := by
  obtain ⟨contacts, hget, hdb⟩ := syncContacts_some h
  refine ⟨contacts, hget, fun contact hmem => ?_⟩
  rw [hdb]
  obtain ⟨row, hrow, hkey, happly⟩ := Table.insertAll_mem hmem c.db.contacts
  exact ⟨row, happly, .inl ⟨hrow, hkey⟩⟩

theorem chats_of_some {c : Conn SyncDb} {u : Unit} (h : (syncChats cj a c).1 = some u) :
    ChatsReceived cj a ∧ ChatsStored cj a (syncChats cj a c).2.db := by
  obtain ⟨mids, chats, hmids, hget, hdb⟩ := syncChats_some h
  refine ⟨fun mids' hmids' => ?_, mids, chats, hmids, hget, fun chat hmem => ?_⟩
  · obtain rfl := Option.some.inj (hmids.symm.trans hmids')
    exact talkGetChats_some hget
  · rw [hdb]
    obtain ⟨marked, hrow, hkey, happly⟩ :=
      Table.insertAll_mem (List.mem_map_of_mem (f := markInvited mids) hmem) c.db.chats
    obtain ⟨row, hmem', rfl⟩ := List.mem_map.mp hrow
    exact ⟨row, hmem', hkey, happly⟩

theorem boxes_of_some {c : Conn SyncDb} {boxes : List TalkMessageBox}
    (h : (syncBoxes cj a c).1 = some boxes) :
    Pages cj a.boxPages boxes ∧ BoxRows boxes (syncBoxes cj a c).2.db.toDb := by
  unfold syncBoxes at h ⊢
  cases hget : talkGetMessageBoxes cj a.boxPages with
  | none =>
    rw [hget] at h
    cases h
  | some boxes' =>
    rw [hget] at h
    dsimp only at h ⊢
    obtain ⟨_, hreq, heq⟩ := andThen_some h
    rw [heq] at h ⊢
    obtain rfl : boxes' = boxes := Option.some.inj h
    refine ⟨messageBoxPages_some hget, ?_⟩
    show BoxRows boxes' (require _ c).2.db.toDb
    rw [require_db, onDb_db]
    have hok := require_some hreq
    rw [onDb_fst] at hok
    obtain ⟨hbody, hdb⟩ := atomically_ok hok
    unfold Enil.syncPhaseAccount
    rw [hdb]
    refine ⟨boxes_box hbody, fun chat n hn => ?_⟩
    rw [(boxes_ok hbody).count, hn]
    rfl

theorem syncBoxes_keeps (c : Conn SyncDb) : KeepsFetched c.db (syncBoxes cj a c).2.db := by
  unfold syncBoxes
  cases talkGetMessageBoxes cj a.boxPages with
  | none => exact .refl _
  | some boxes =>
    refine andThen_keeps (R := KeepsFetched) KeepsFetched.trans (fun c => ?_) (fun _ c => ?_) c
    · rw [require_db]
      exact onDb_keeps _ c
    · exact .refl _

/-! ## The phases -/

/-- A first phase that ended without an error. -/
structure Accounted (cj : Cjson) (a : Replies) (boxes : List TalkMessageBox) (d : SyncDb) :
    Prop where
  contacts : ContactsStored cj a d
  chatBatches : ChatsReceived cj a
  chats : ChatsStored cj a d
  pages : Pages cj a.boxPages boxes
  boxes : BoxRows boxes d.toDb

theorem syncPhaseAccount_some {c : Conn SyncDb} {boxes : List TalkMessageBox}
    (h : (syncPhaseAccount cj a c).1 = some boxes) :
    Accounted cj a boxes (syncPhaseAccount cj a c).2.db := by
  unfold syncPhaseAccount at h ⊢
  obtain ⟨_, -, heq⟩ := andThen_some h
  rw [heq] at h ⊢
  obtain ⟨_, hcontacts, heq⟩ := andThen_some h
  rw [heq] at h ⊢
  obtain ⟨_, hchats, heq⟩ := andThen_some h
  rw [heq] at h ⊢
  obtain ⟨hreceived, hstored⟩ := chats_of_some hchats
  obtain ⟨hpages, hrows⟩ := boxes_of_some h
  have hkeep : KeepsFetched _ (syncBoxes cj a _).2.db :=
    syncBoxes_keeps (syncChats cj a (syncContacts cj a (syncProfile cj a c).2).2).2
  exact {
    contacts := ((contacts_of_some hcontacts).mono (syncChats_keeps _)).mono hkeep.toKeepsContacts
    chatBatches := hreceived
    chats := hstored.mono hkeep
    pages := hpages
    boxes := hrows }

theorem syncPhaseAccount_rev (c : Conn SyncDb) :
    SameRev c.db (syncPhaseAccount cj a c).2.db :=
  andThen_keeps (R := SameRev) SameRev.trans syncProfile_rev (fun _ =>
    andThen_keeps (R := SameRev) SameRev.trans syncContacts_rev fun _ =>
      andThen_keeps (R := SameRev) SameRev.trans (fun c => (syncChats_keeps c).localRev)
        fun _ c => (syncBoxes_keeps c).localRev) c

theorem syncPhaseMessages_keeps (boxes : List TalkMessageBox) (c : Conn SyncDb) :
    KeepsFetched c.db (syncPhaseMessages cj a rest boxes c).2.db := by
  unfold syncPhaseMessages
  rw [require_db]
  exact onDb_keeps _ c

theorem syncPhaseRest_keeps (c : Conn SyncDb) :
    KeepsFetched c.db (syncPhaseRest cj rest c).2.db := by
  refine andThen_keeps (R := KeepsFetched) KeepsFetched.trans (fun c => ?_) (fun _ c => ?_) c
  · rw [require_db]
    exact onDb_keeps _ c
  · rw [require_db]
    exact .refl _

theorem syncPhaseRest_keepsRows {c : Conn SyncDb} {u : Unit}
    (h : (syncPhaseRest cj rest c).1 = some u) :
    KeepsRows c.db.toDb (syncPhaseRest cj rest c).2.db.toDb := by
  unfold syncPhaseRest at h ⊢
  obtain ⟨_, -, heq⟩ := andThen_some h
  rw [heq, require_db]
  show KeepsRows _ (require _ c).2.db.toDb
  rw [require_db, onDb_db]
  exact (Built.forEach (SyncWrite.built_keepsRows cj) rest.later).moves KeepsRows.refl
    KeepsRows.trans (fun _ hs => hs)
    { db := c.db.toDb, changes := c.changes, faults := c.faults }

theorem phases_rev (c : Conn SyncDb) : SameRev c.db (phases cj a rest c).2.db :=
  andThen_keeps (R := SameRev) SameRev.trans syncPhaseAccount_rev (fun boxes =>
    andThen_keeps (R := SameRev) SameRev.trans
      (fun c => (syncPhaseMessages_keeps boxes c).localRev)
      fun _ c => (syncPhaseRest_keeps c).localRev) c

/-- Phases that end without an error stored all that was received. -/
theorem phases_some {c : Conn SyncDb} {u : Unit} (h : (phases cj a rest c).1 = some u)
    (hcontacts : ContactsReceived cj a) : Synced cj a (phases cj a rest c).2.db := by
  unfold phases at h ⊢
  obtain ⟨boxes, haccount, heq⟩ := andThen_some h
  rw [heq] at h ⊢
  obtain ⟨_, hmessages, heq⟩ := andThen_some h
  rw [heq] at h ⊢
  have hacc := syncPhaseAccount_some haccount
  generalize (syncPhaseAccount cj a c).2 = c' at hacc hmessages h ⊢
  have hstored : KeepsRows c'.db.toDb (syncPhaseMessages cj a rest boxes c').2.db.toDb ∧
      ∀ box ∈ boxes.zipIdx,
        BoxStored cj a (syncPhaseMessages cj a rest boxes c').2.db.toDb box := by
    unfold syncPhaseMessages at hmessages ⊢
    have hok := require_some hmessages
    rw [onDb_fst] at hok
    rw [require_db, onDb_db]
    exact syncPhaseMessages_ok hok
  have hmessages' : KeepsFetched _ (syncPhaseMessages cj a rest boxes c').2.db :=
    syncPhaseMessages_keeps boxes c'
  have hrest : KeepsFetched _ (syncPhaseRest cj rest _).2.db :=
    syncPhaseRest_keeps (syncPhaseMessages cj a rest boxes c').2
  have hkeep := hmessages'.trans hrest
  have hrows := syncPhaseRest_keepsRows h
  exact {
    contactBatches := hcontacts
    contacts := hacc.contacts.mono hkeep.toKeepsContacts
    chatBatches := hacc.chatBatches
    chats := hacc.chats.mono hkeep
    boxes := ⟨boxes, hacc.pages, (hacc.boxes.mono hstored.1).mono hrows,
      fun box hbox => (hstored.2 box hbox).mono hrows⟩ }

/-! ## What a commit says -/

/-- A run that writes nothing, or whose phases ended without an error. -/
theorem syncAll_cases (cj : Cjson) (a : Replies) (rest : SyncRest)
    (snapshot file : Option Fields) (w : WriteResult) (c : Conn SyncDb) :
    let r := Fetch.syncAll cj a rest snapshot file w c
    (r.1.committed = none ∧ r.1.file = file ∧ SameRev c.db r.2.db) ∨
    (r.1.committed = some (getLastOpRevision cj a.localRev) ∧ ∃ u,
      (phases cj a rest c).1 = some u ∧
      r.2.db = ((setLocalRev (getLastOpRevision cj a.localRev)) (phases cj a rest c).2.db).2) := by
  have hrev : SameRev c.db (phases cj a rest c).2.db := phases_rev c
  unfold Fetch.syncAll
  cases snapshot with
  | none => exact .inl ⟨rfl, rfl, rfl⟩
  | some snapshot =>
    dsimp only
    split
    · exact .inl ⟨rfl, rfl, rfl⟩
    · rw [bind_apply]
      cases hphases : (phases cj a rest c).1 with
      | none => exact .inl ⟨rfl, rfl, hrev⟩
      | some u =>
        dsimp only
        unfold syncPhaseFinish
        split
        · exact .inl ⟨rfl, rfl, hrev⟩
        · rw [bind_apply]
          split
          · rename_i herr
            refine .inl ⟨rfl, rfl, ?_⟩
            show SameRev c.db (exec _ _).2.db
            rw [exec_error herr]
            exact hrev
          · rename_i hok
            exact .inr ⟨rfl, u, rfl, exec_ok (not_not.mp hok)⟩

/-- A commit or an acknowledgement says that all was received and stored, and a sync of
which something is missing leaves the cursor and the session file. -/
structure OnlyInFull (cj : Cjson) (a : Replies) (file : Option Fields) (d : SyncDb)
    (r : SyncResult × Conn SyncDb) : Prop where
  committed : r.1.committed.isSome ∨ r.1.file ≠ file → Synced cj a r.2.db
  missing : ¬ Synced cj a r.2.db → r.2.db.localRev = d.localRev ∧ r.1.file = file

/-- A run commits in full where its contact batches were received, and the runs that commit
without them do not. -/
theorem syncAll_onlyInFull (cj : Cjson) (a : Replies) (rest : SyncRest)
    (snapshot file : Option Fields) (w : WriteResult) (c : Conn SyncDb) :
    let r := Fetch.syncAll cj a rest snapshot file w c
    (ContactsReceived cj a → OnlyInFull cj a file c.db r) ∧
    (r.1.committed.isSome ∨ r.1.file ≠ file →
      (OnlyInFull cj a file c.db r ↔ ContactsReceived cj a)) ∧
    (r.1.committed = none → r.2.db.localRev = c.db.localRev ∧ r.1.file = file) := by
  intro r
  have hcases := syncAll_cases cj a rest snapshot file w c
  have hfull : ContactsReceived cj a → OnlyInFull cj a file c.db r := by
    intro hcontacts
    rcases hcases with ⟨hnone, hfile, hrev⟩ | ⟨-, u, hphases, hdb⟩
    · refine ⟨fun hmoved => ?_, fun _ => ⟨hrev, hfile⟩⟩
      rcases hmoved with hsome | hne
      · rw [hnone] at hsome
        cases hsome
      · exact absurd hfile hne
    · have hsynced := phases_some hphases hcontacts
      have hend : Synced cj a r.2.db := by
        rw [hdb]
        exact ⟨hsynced.contactBatches, hsynced.contacts, hsynced.chatBatches, hsynced.chats,
          hsynced.boxes⟩
      exact ⟨fun _ => hend, fun hmissing => absurd hend hmissing⟩
  refine ⟨hfull, fun hmoved => ⟨fun hinfull => ?_, hfull⟩, fun hnone => ?_⟩
  · exact (hinfull.committed hmoved).contactBatches
  · rcases hcases with ⟨-, hfile, hrev⟩ | ⟨hsome, -⟩
    · exact ⟨hrev, hfile⟩
    · cases hnone.symm.trans hsome

end Received

/-! ## A sync that loses a batch -/

/-- One friend, whose batch the server cannot answer, and nothing else. -/
def friendLost : Replies where
  localRev := replyOf (.str "5")
  profile := replyOf (.obj [("mid", .str "u0")])
  contactIds := replyOf (.arr [.str "u1"])
  contacts := fun _ => { status := 500, body := none }
  chatMids := replyOf (.obj [("memberChatMids", .arr []), ("invitedChatMids", .arr [])])
  chats := fun _ => { status := 500, body := none }
  boxPages := [replyOf (.obj [("messageBoxes", .arr [])])]
  recents := fun _ => { status := 500, body := none }
  members := fun _ => { status := 500, body := none }

def friendLostJson : Cjson := textsOf [okReply (.str "5"), okReply (.obj [("mid", .str "u0")]),
  okReply (.arr [.str "u1"]),
  okReply (.obj [("memberChatMids", .arr []), ("invitedChatMids", .arr [])]),
  okReply (.obj [("messageBoxes", .arr [])])]

def emptyAccount : SyncDb where
  messageBoxes := fun _ => none
  messages := fun _ => none
  messageBoxReaders := fun _ => none
  account := none
  contacts := fun _ => none
  chats := fun _ => none
  localRev := none

/-- The batch that failed is passed over, and the sync commits. -/
theorem friend_lost : ¬ ∀ (cj : Cjson) (a : Replies) (rest : SyncRest)
    (snapshot file : Option Fields) (w : WriteResult) (c : Conn SyncDb),
    OnlyInFull cj a file c.db (Fetch.syncAll cj a rest snapshot file w c) := by
  intro hall
  have hcommits : (Fetch.syncAll friendLostJson friendLost {} (some []) (some []) .written
      { db := emptyAccount }).1.committed.isSome := by
    decide
  have hsynced := (hall friendLostJson friendLost {} (some []) (some []) .written
    { db := emptyAccount }).committed (.inl hcommits)
  have hids : (getAllContactIds friendLostJson friendLost.contactIds).map List.length = some 1 := by
    decide
  obtain ⟨ids, hget, hlen⟩ := Option.map_eq_some_iff.mp hids
  have hbatch := hsynced.contactBatches ids hget 0 (by rw [hlen]; decide)
  revert hbatch
  decide

end Fetch

end Enil
