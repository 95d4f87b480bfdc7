import Enil.Line.Talk
import Enil.Session.Partial
import Enil.Sync.FullSync

/-!
# A full sync and its fetches

`enil_sync_all` from the replies of the server to the commit: each phase fetches, stores
what it fetched in a transaction and hands on to the next, or ends the sync. Any reply
may be missing or malformed, and any statement may fail.
-/

namespace Enil

open Lib Lib.Sql Db

/-- The tables a sync writes, with the operation cursor of `db_meta`. -/
structure SyncDb extends Db where
  account : Option TalkProfile
  contacts : Table String TalkContact
  chats : Table String TalkChat
  localRev : Option Int

namespace SyncDb

def upsertProfile (p : TalkProfile) (d : SyncDb) : Nat × SyncDb :=
  (1, { d with account := some p })

/-- enil_db_talk_contact_upsert. -/
def upsertContact (c : TalkContact) (d : SyncDb) : Nat × SyncDb :=
  (1, { d with contacts := (d.contacts.insertReplace c.mid c).2 })

/-- enil_db_chat_upsert. -/
def upsertChat (c : TalkChat) (d : SyncDb) : Nat × SyncDb :=
  (1, { d with chats := (d.chats.insertReplace c.chatMid c).2 })

def setLocalRev (rev : Int) (d : SyncDb) : Nat × SyncDb := (1, { d with localRev := some rev })

/-- A program on the message tables. -/
def onDb {α : Type} (m : Sql Db α) : Sql SyncDb α :=
  zoom SyncDb.toDb (fun db d => { d with toDb := db }) m

end SyncDb

/-- What is outside the tables: what the phases after the messages write and how they end,
with the number of attachments that could not be had. -/
structure SyncRest where
  /-- enil_session_bind_identity and the access token. -/
  connected : Bool := true
  /-- scan_messages_for_stickers, by the place of the box. -/
  scan : Nat → Rc := fun _ => .ok
  later : List SyncWrite := []
  others : Rc := .ok
  attachmentErrors : Nat := 0
  healthy : Bool := true

/-- What a sync returns: its result, the revision it committed and the session file. -/
structure SyncResult where
  result : Nat := 0
  committed : Option Int := none
  file : Option Fields

variable (cj : Cjson)

namespace Fetch

open SyncDb

/-! ## The account -/

/-- upsert_self_contact. -/
def selfContact (p : TalkProfile) : TalkContact where
  mid := p.mid
  displayName := p.displayName
  statusMessage := p.statusMessage
  picturePath := p.picturePath

/-- The profile, and the own contact where it can be stored. -/
def syncProfile (a : Replies) : Sql SyncDb (Option Unit) :=
  match talkGetProfile cj a.profile with
  | none => pure none
  | some profile => andThen (require (exec (upsertProfile profile))) fun _ => do
      discard (exec (upsertContact (selfContact profile)))
      return some ()

def syncContacts (a : Replies) : Sql SyncDb (Option Unit) :=
  match talkGetContacts cj a with
  | none => pure none
  | some contacts => require (atomically (forEach (fun c => exec (upsertContact c)) contacts))

/-- The invited flag of a chat from the list of mids. -/
def markInvited (mids : TalkChatMids) (c : TalkChat) : TalkChat :=
  { c with isInvited := mids.invitedChatMids.contains c.chatMid }

def midKeys (map : Option Json) : List String :=
  match map with
  | some (.obj fs) => fs.map Prod.fst
  | _ => []

/-- collect_chat_member_mids. -/
def chatMemberMids (c : TalkChat) : List String :=
  let groupExtra := (c.raw.getObjectItem "extra").bind (·.getObjectItem "groupExtra")
  midKeys (groupExtra.bind (·.getObjectItem "memberMids")) ++
    midKeys (groupExtra.bind (·.getObjectItem "inviteeMids"))

/-- mid_set_add on one mid after the other. -/
def midSet (mids : List String) : List String :=
  mids.foldl (fun set mid => if mid = "" ∨ mid ∈ set then set else set ++ [mid]) []

/-- One mid of `backfill_member_contacts`; a row that cannot be read counts as missing. -/
def backfillMember (a : Replies) (mid : String) : Sql SyncDb Unit := do
  if (← query fun d => (d.contacts mid).isSome).getD false then return ()
  match talkGetContactByMid cj (a.members mid) mid with
  | none => return ()
  | some c => discard (exec (upsertContact { c with registered := false }))

/-- backfill_member_contacts. -/
def backfillMembers (a : Replies) : List String → Sql SyncDb Unit
  | [] => pure ()
  | mid :: mids => do
    backfillMember cj a mid
    backfillMembers a mids

def syncChats (a : Replies) : Sql SyncDb (Option Unit) :=
  match talkGetAllChatMids cj a.chatMids with
  | none => pure none
  | some mids =>
    match talkGetChats cj (mids.memberChatMids ++ mids.invitedChatMids) a.chats with
    | none => pure none
    | some chats =>
      andThen (require (atomically
        (forEach (fun c => exec (upsertChat (markInvited mids c))) chats))) fun _ => do
          backfillMembers cj a (midSet (chats.flatMap chatMemberMids))
          return some ()

def syncBoxes (a : Replies) : Sql SyncDb (Option (List TalkMessageBox)) :=
  match talkGetMessageBoxes cj a.boxPages with
  | none => pure none
  | some boxes => andThen (require (onDb (Enil.syncPhaseAccount boxes))) fun _ => pure (some boxes)

def syncPhaseAccount (a : Replies) : Sql SyncDb (Option (List TalkMessageBox)) :=
  andThen (syncProfile cj a) fun _ =>
    andThen (syncContacts cj a) fun _ =>
      andThen (syncChats cj a) fun _ => syncBoxes cj a

/-! ## The messages -/

def syncBoxMessages (a : Replies) (rest : SyncRest) (box : TalkMessageBox × Nat) : Sql Db Rc :=
  match talkGetRecentMessages cj (a.recents box.2) box.1.id with
  | none => pure .error
  | some messages =>
    if messages.isEmpty then pure .ok
    else do
      let rc ← atomically (forEach (messageUpsert cj) messages)
      if rc ≠ .ok then return rc
      return rest.scan box.2

def syncPhaseMessages (a : Replies) (rest : SyncRest) (boxes : List TalkMessageBox) :
    Sql SyncDb (Option Unit) :=
  require (onDb (forEach (syncBoxMessages cj a rest) boxes.zipIdx))

/-- The phases after the messages. -/
def syncPhaseRest (rest : SyncRest) : Sql SyncDb (Option Unit) :=
  andThen (require (onDb (forEach (SyncWrite.run cj) rest.later))) fun _ =>
    require (pure rest.others)

/-- The phases up to the end of the sync. -/
def phases (a : Replies) (rest : SyncRest) : Sql SyncDb (Option Unit) :=
  andThen (syncPhaseAccount cj a) fun boxes =>
    andThen (syncPhaseMessages cj a rest boxes) fun _ => syncPhaseRest cj rest

/-! ## The sync -/

def syncPhaseFinish (rest : SyncRest) (localRev : Int) (snapshot : Fields) (file : Option Fields)
    (w : WriteResult) : Sql SyncDb SyncResult := do
  if !rest.healthy || localRev < 0 then return { file := file }
  let rc ← exec (setLocalRev localRev)
  if rc ≠ .ok then return { file := file }
  let completed := completePartialFullSyncs snapshot file w
  return {
    result := if completed.1 then rest.attachmentErrors + 1 else 0
    committed := some localRev
    file := completed.2 }

/-- enil_sync_all; `snapshot` is the session file when it starts and `file` when it ends. -/
def syncAll (a : Replies) (rest : SyncRest) (snapshot file : Option Fields) (w : WriteResult) :
    Sql SyncDb SyncResult :=
  let localRev := getLastOpRevision cj a.localRev
  match snapshot with
  | none => pure { file := file }
  | some snapshot =>
    if !rest.connected || localRev < 0 then pure { file := file }
    else do
      match ← phases cj a rest with
      | none => return { file := file }
      | some _ => syncPhaseFinish rest localRev snapshot file w

/-! ## What the phases keep -/

section Keeps

/-- The cursor stays, and the contacts, except that a name may be filled in for someone
who is no friend. -/
structure KeepsContacts (d d' : SyncDb) : Prop where
  localRev : d'.localRev = d.localRev
  contacts : ∀ mid, d'.contacts mid = d.contacts mid ∨
    ∃ row, d'.contacts mid = some row ∧ row.registered = false

theorem KeepsContacts.refl (d : SyncDb) : KeepsContacts d d := ⟨rfl, fun _ => .inl rfl⟩

theorem KeepsContacts.trans {a b c : SyncDb} (h : KeepsContacts a b) (h' : KeepsContacts b c) :
    KeepsContacts a c := by
  refine ⟨h'.localRev.trans h.localRev, fun mid => ?_⟩
  rcases h'.contacts mid with heq | hrow
  · rw [heq]
    exact h.contacts mid
  · exact .inr hrow

structure KeepsFetched (d d' : SyncDb) : Prop extends KeepsContacts d d' where
  chats : d'.chats = d.chats

theorem KeepsFetched.refl (d : SyncDb) : KeepsFetched d d := ⟨.refl d, rfl⟩

theorem KeepsFetched.trans {a b c : SyncDb} (h : KeepsFetched a b) (h' : KeepsFetched b c) :
    KeepsFetched a c :=
  ⟨h.toKeepsContacts.trans h'.toKeepsContacts, h'.chats.trans h.chats⟩

theorem onDb_keeps {α : Type} (m : Sql Db α) (c : Conn SyncDb) :
    KeepsFetched c.db (onDb m c).2.db := ⟨⟨rfl, fun _ => .inl rfl⟩, rfl⟩

theorem onDb_db {α : Type} (m : Sql Db α) (c : Conn SyncDb) : (onDb m c).2.db.toDb =
    (m { db := c.db.toDb, changes := c.changes, faults := c.faults }).2.db := rfl

theorem onDb_fst {α : Type} (m : Sql Db α) (c : Conn SyncDb) : (onDb m c).1 =
    (m { db := c.db.toDb, changes := c.changes, faults := c.faults }).1 := rfl

def SameRev (d d' : SyncDb) : Prop := d'.localRev = d.localRev

theorem SameRev.trans {a b c : SyncDb} (h : SameRev a b) (h' : SameRev b c) : SameRev a c :=
  Eq.trans h' h

/-- A statement of another table than `db_meta`. -/
def KeepsRev (stmt : SyncDb → Nat × SyncDb) : Prop := ∀ d, SameRev d (stmt d).2

theorem built_rev {α : Type} {m : Sql SyncDb α} (hm : Built KeepsRev m) (c : Conn SyncDb) :
    SameRev c.db (m c).2.db :=
  hm.moves (R := SameRev) (fun _ => rfl) SameRev.trans (fun _ h => h) c

theorem atomically_rev {body : Sql SyncDb Rc} (hbody : Built KeepsRev body) (c : Conn SyncDb) :
    SameRev c.db (atomically body c).2.db :=
  hbody.atomically_moves (R := SameRev) (fun _ => rfl) SameRev.trans (fun _ h => h) c

/-! ## What the phases fetch and store -/

variable {cj} {a : Replies} {rest : SyncRest}

theorem syncProfile_rev (c : Conn SyncDb) : SameRev c.db (syncProfile cj a c).2.db := by
  unfold syncProfile
  cases talkGetProfile cj a.profile with
  | none => rfl
  | some profile =>
    refine andThen_keeps (R := SameRev) SameRev.trans (fun c => ?_) (fun _ c => ?_) c
    · rw [require_db]
      refine built_rev ?_ c
      exact .exec fun _ => rfl
    · refine built_rev ?_ c
      exact .bind (.discard (.exec fun _ => rfl)) fun _ => .pure _

theorem syncContacts_rev (c : Conn SyncDb) : SameRev c.db (syncContacts cj a c).2.db := by
  unfold syncContacts
  cases talkGetContacts cj a with
  | none => rfl
  | some contacts =>
    dsimp only
    rw [require_db]
    exact atomically_rev (.forEach (fun _ => .exec fun _ => rfl) _) c

theorem foldl_upsertContact (contacts : List TalkContact) (d : SyncDb) :
    (contacts.foldl (fun d c => (upsertContact c d).2) d).contacts =
      Table.insertAll TalkContact.mid d.contacts contacts := by
  induction contacts generalizing d with
  | nil => rfl
  | cons c cs ih => exact ih (upsertContact c d).2

theorem foldl_upsertChat (mids : TalkChatMids) (chats : List TalkChat) (d : SyncDb) :
    (chats.foldl (fun d c => (upsertChat (markInvited mids c) d).2) d).chats =
      Table.insertAll TalkChat.chatMid d.chats (chats.map (markInvited mids)) := by
  induction chats generalizing d with
  | nil => rfl
  | cons c cs ih => exact ih (upsertChat (markInvited mids c) d).2

/-- The contacts of a friends transaction that committed. -/
theorem syncContacts_some {c : Conn SyncDb} {u : Unit} (h : (syncContacts cj a c).1 = some u) :
    ∃ contacts, talkGetContacts cj a = some contacts ∧
      (syncContacts cj a c).2.db.contacts =
        Table.insertAll TalkContact.mid c.db.contacts contacts := by
  unfold syncContacts at h ⊢
  cases hc : talkGetContacts cj a with
  | none =>
    rw [hc] at h
    cases h
  | some contacts =>
    rw [hc] at h
    refine ⟨contacts, rfl, ?_⟩
    dsimp only at h ⊢
    obtain ⟨hok, hdb⟩ := atomically_ok (require_some h)
    rw [require_db, hdb, forEach_exec_ok hok, foldl_upsertContact]
    rfl

theorem backfillMember_keeps (mid : String) (c : Conn SyncDb) :
    KeepsFetched c.db (backfillMember cj a mid c).2.db := by
  refine Built.moves (P := fun stmt => ∀ d, KeepsFetched d (stmt d).2) KeepsFetched.refl
    KeepsFetched.trans (fun _ h => h) ?_ c
  refine .bind (.query _) fun exist => .ite (.pure _) ?_
  cases talkGetContactByMid cj (a.members mid) mid with
  | none => exact .pure _
  | some contact =>
    refine .discard (.exec fun d => ⟨⟨rfl, fun mid' => ?_⟩, rfl⟩)
    show Function.update d.contacts contact.mid _ mid' = _ ∨ _
    rcases Decidable.em (mid' = contact.mid) with rfl | hne
    · exact .inr ⟨_, Function.update_self .., rfl⟩
    · exact .inl (Function.update_of_ne hne ..)

theorem backfillMembers_keeps (mids : List String) (c : Conn SyncDb) :
    KeepsFetched c.db (backfillMembers cj a mids c).2.db := by
  induction mids generalizing c with
  | nil => exact .refl _
  | cons mid mids ih => exact (backfillMember_keeps mid c).trans (ih _)

theorem syncChats_keeps (c : Conn SyncDb) : KeepsContacts c.db (syncChats cj a c).2.db := by
  unfold syncChats
  cases talkGetAllChatMids cj a.chatMids with
  | none => exact .refl _
  | some mids =>
    dsimp only
    cases talkGetChats cj (mids.memberChatMids ++ mids.invitedChatMids) a.chats with
    | none => exact .refl _
    | some chats =>
      refine andThen_keeps (R := KeepsContacts) KeepsContacts.trans (fun c => ?_) (fun _ c => ?_) c
      · rw [require_db]
        refine Built.atomically_moves (P := fun stmt => ∀ d, KeepsContacts d (stmt d).2)
          KeepsContacts.refl KeepsContacts.trans (fun _ h => h) ?_ c
        exact .forEach (fun _ => .exec fun _ => ⟨rfl, fun _ => .inl rfl⟩) _
      · exact (backfillMembers_keeps _ c).toKeepsContacts

/-- The chats of a transaction that committed. -/
theorem syncChats_some {c : Conn SyncDb} {u : Unit} (h : (syncChats cj a c).1 = some u) :
    ∃ mids chats, talkGetAllChatMids cj a.chatMids = some mids ∧
      talkGetChats cj (mids.memberChatMids ++ mids.invitedChatMids) a.chats = some chats ∧
      (syncChats cj a c).2.db.chats =
        Table.insertAll TalkChat.chatMid c.db.chats (chats.map (markInvited mids)) := by
  unfold syncChats at h ⊢
  cases hm : talkGetAllChatMids cj a.chatMids with
  | none =>
    rw [hm] at h
    cases h
  | some mids =>
    rw [hm] at h
    dsimp only at h ⊢
    cases hc : talkGetChats cj (mids.memberChatMids ++ mids.invitedChatMids) a.chats with
    | none =>
      rw [hc] at h
      cases h
    | some chats =>
      rw [hc] at h
      refine ⟨mids, chats, rfl, hc, ?_⟩
      dsimp only at h ⊢
      obtain ⟨_, hreq, heq⟩ := andThen_some h
      rw [heq]
      obtain ⟨hok, hdb⟩ := atomically_ok (require_some hreq)
      refine (backfillMembers_keeps _ _).chats.trans ?_
      rw [require_db, hdb, forEach_exec_ok hok, foldl_upsertChat]
      rfl

/-! ## The message tables -/

/-- No row goes and no box counts anew. -/
structure KeepsRows (d d' : Db) : Prop where
  messages : ∀ id, (d.messages id).isSome → (d'.messages id).isSome
  boxes : ∀ id, (d.messageBoxes id).isSome → (d'.messageBoxes id).isSome
  counts : ∀ chat, unreadCount d' chat = unreadCount d chat

theorem KeepsRows.refl (d : Db) : KeepsRows d d := ⟨fun _ h => h, fun _ h => h, fun _ => rfl⟩

theorem KeepsRows.trans {a b c : Db} (h : KeepsRows a b) (h' : KeepsRows b c) : KeepsRows a c where
  messages := fun id hid => h'.messages id (h.messages id hid)
  boxes := fun id hid => h'.boxes id (h.boxes id hid)
  counts := fun chat => (h'.counts chat).trans (h.counts chat)

theorem keepsRows_of_keepsIds {d d' : Db} (h : KeepsIds d d') : KeepsRows d d' := by
  refine ⟨fun id hid => ?_, fun id hid => ?_, fun chat => ?_⟩
  · rw [h.ids]
    exact hid
  · rw [h.boxes]
    exact hid
  · rw [unreadCount, unreadCount, h.boxes]

theorem keepsRows_updateBox {chat : String} {p : MessageBox → Bool} {f : MessageBox → MessageBox}
    (h : ∀ b, (f b).unreadCount = b.unreadCount) (d : Db) :
    KeepsRows d (d.onBoxes (·.updateIf chat p f)).2 := by
  refine ⟨fun _ hid => hid, fun id hid => ?_, (keepsCounts_updateBox h d).count⟩
  show ((d.messageBoxes.updateIf chat p f).2 id).isSome
  rcases Decidable.em (id = chat) with rfl | hne
  · rw [Table.updateIf_same]
    cases hb : d.messageBoxes id with
    | none =>
      rw [hb] at hid
      exact hid
    | some b => rfl
  · rw [Table.updateIf_of_ne _ _ _ hne]
    exact hid

theorem SyncWrite.built_keepsRows (cj : Cjson) (w : SyncWrite) :
    Built (fun stmt => ∀ d, KeepsRows d (stmt d).2) (w.run cj) := by
  have hrow : ∀ stmt, RowUpdate stmt → ∀ d, KeepsRows d (stmt d).2 :=
    fun _ hs d => keepsRows_of_keepsIds (hs d)
  cases w with
  | peerRead chat reader time =>
    exact .ite (.pure _) (.exec (keepsRows_updateBox fun _ => rfl))
  | groupRead chat reader time =>
    exact .ite (.pure _) (.exec fun d => ⟨fun _ h => h, fun _ h => h, fun _ => rfl⟩)
  | decrypted msg result => exact (built_decryptOneMessage _ _ _).mono hrow
  | media id outcome => exact (built_syncOneMessageMedia _ _).mono hrow

/-- The recent messages of a box were received and have their rows. -/
def BoxStored (cj : Cjson) (a : Replies) (d : Db) (box : TalkMessageBox × Nat) : Prop :=
  ∃ messages, talkGetRecentMessages cj (a.recents box.2) box.1.id = some messages ∧
    ∀ m ∈ messages, (d.messages m.id).isSome

theorem BoxStored.mono {d d' : Db} {box : TalkMessageBox × Nat} (h : KeepsRows d d')
    (hbox : BoxStored cj a d box) : BoxStored cj a d' box := by
  obtain ⟨messages, hfetched, hstored⟩ := hbox
  exact ⟨messages, hfetched, fun m hm => h.messages _ (hstored m hm)⟩

theorem messages_keepsRows {ms : List TalkMessage} {c : Conn Db}
    (h : (forEach (messageUpsert cj) ms c).1 = .ok) :
    KeepsRows c.db (forEach (messageUpsert cj) ms c).2.db :=
  forEach_ok (R := fun d _ d' => KeepsRows d d') KeepsRows.refl (fun {m xs c d} hx hrest => by
    obtain ⟨-, hboxes, hids⟩ := messageUpsert_ok hx
    refine KeepsRows.trans ⟨fun id hid => ?_, fun id hid => ?_, fun chat => ?_⟩ hrest
    · rw [hids, hid]
      rfl
    · rw [hboxes]
      exact hid
    · rw [unreadCount, unreadCount, hboxes]) h

theorem syncBoxMessages_ok {box : TalkMessageBox × Nat} {c : Conn Db}
    (h : (syncBoxMessages cj a rest box c).1 = .ok) :
    KeepsRows c.db (syncBoxMessages cj a rest box c).2.db ∧
      BoxStored cj a (syncBoxMessages cj a rest box c).2.db box := by
  unfold syncBoxMessages at h ⊢
  cases hm : talkGetRecentMessages cj (a.recents box.2) box.1.id with
  | none =>
    rw [hm] at h
    cases h
  | some messages =>
    rw [hm] at h
    dsimp only at h ⊢
    split
    · rename_i hempty
      rw [List.isEmpty_iff] at hempty
      subst hempty
      exact ⟨.refl _, [], hm, fun _ hnil => (List.not_mem_nil hnil).elim⟩
    · rename_i hempty
      rw [if_neg hempty] at h
      obtain ⟨hok, heq⟩ := checked_ok h
      rw [heq]
      obtain ⟨hbody, hdb⟩ := atomically_ok hok
      show KeepsRows c.db (atomically _ c).2.db ∧ BoxStored cj a (atomically _ c).2.db box
      rw [hdb]
      refine ⟨messages_keepsRows hbody, messages, hm, fun m hmem => ?_⟩
      rw [(messages_ok hbody).ids, Bool.or_eq_true]
      exact .inr (List.any_eq_true.mpr ⟨m, hmem, beq_self_eq_true _⟩)

theorem syncPhaseMessages_ok {boxes : List (TalkMessageBox × Nat)} {c : Conn Db}
    (h : (forEach (syncBoxMessages cj a rest) boxes c).1 = .ok) :
    KeepsRows c.db (forEach (syncBoxMessages cj a rest) boxes c).2.db ∧
      ∀ box ∈ boxes, BoxStored cj a (forEach (syncBoxMessages cj a rest) boxes c).2.db box := by
  refine forEach_ok (R := fun d boxes d' => KeepsRows d d' ∧ ∀ box ∈ boxes, BoxStored cj a d' box)
    (fun d => ⟨.refl d, fun _ hnil => (List.not_mem_nil hnil).elim⟩) (fun hx hrest => ?_) h
  obtain ⟨hkeep, hbox⟩ := syncBoxMessages_ok hx
  refine ⟨hkeep.trans hrest.1, ?_⟩
  rw [List.forall_mem_cons]
  exact ⟨hbox.mono hrest.1, hrest.2⟩

theorem messageBoxUpsert_box {mb : TalkMessageBox} {c : Conn Db}
    (h : (messageBoxUpsert mb c).1 = .ok) (id : String) :
    ((messageBoxUpsert mb c).2.db.messageBoxes id).isSome =
      (decide (id = mb.id) || (c.db.messageBoxes id).isSome) := by
  unfold messageBoxUpsert at h ⊢
  obtain ⟨hins, heq⟩ := checked_ok h
  rw [heq] at h ⊢
  rw [exec_ok h, exec_ok hins]
  show (((c.db.messageBoxes.insertIgnore mb.id {}).2.update mb.id _).2 id).isSome = _
  rcases Decidable.em (id = mb.id) with rfl | hne
  · rw [Table.update_same, Table.insertIgnore_same]
    simp
  · rw [Table.update_of_ne _ _ hne, Table.insertIgnore_of_ne _ _ hne]
    simp [hne]

theorem boxes_box {boxes : List TalkMessageBox} {c : Conn Db}
    (h : (forEach messageBoxUpsert boxes c).1 = .ok) :
    ∀ box ∈ boxes, ((forEach messageBoxUpsert boxes c).2.db.messageBoxes box.id).isSome := by
  refine (forEach_ok (R := fun d boxes d' =>
    (∀ id, (d.messageBoxes id).isSome → (d'.messageBoxes id).isSome) ∧
      ∀ box ∈ boxes, (d'.messageBoxes box.id).isSome)
    (fun d => ⟨fun _ h => h, fun _ hnil => (List.not_mem_nil hnil).elim⟩)
    (fun {mb xs c d} hx hrest => ?_) h).2
  refine ⟨fun id hid => hrest.1 id ?_, ?_⟩
  · rw [messageBoxUpsert_box hx, hid, Bool.or_true]
  · rw [List.forall_mem_cons]
    refine ⟨hrest.1 _ ?_, hrest.2⟩
    rw [messageBoxUpsert_box hx, decide_eq_true rfl, Bool.true_or]

end Keeps

end Fetch

end Enil
