import Enil.Sync.Unread

/-!
# A full sync

The phases of `enil_sync_all` that write the message tables, with the answers of the
server in `SyncAnswers`: the boxes with their unread counts, then the recent messages
of each box. What a sync that commits has written is `syncAll_committed`.
-/

namespace Enil

open Lib Lib.Sql Db

def messagesPerChat : Nat := 50

/-- What the phases after the messages write to the message tables: read receipts,
decrypted texts and attachments. -/
inductive SyncWrite where
  | peerRead (chat : String) (reader : Option String) (time : Int)
  | groupRead (chat reader : String) (time : Int)
  | decrypted (msg : Json) (result : DecryptResult)
  | media (id : String) (outcome : MediaOutcome)

def SyncWrite.run (cj : Cjson) : SyncWrite → Sql Db Rc
  | peerRead chat reader time => messageBoxSetPeerRead chat reader time
  | groupRead chat reader time => messageBoxSetGroupReader chat reader time
  | decrypted msg result => decryptOneMessage cj msg result
  | media id outcome => syncOneMessageMedia id outcome

/-- What the server and the tables outside the model answer during a sync. -/
structure SyncAnswers where
  /-- getLastOpRevision, before anything is fetched. -/
  localRev : Nat
  /-- getMessageBoxes. -/
  boxes : List TalkMessageBox
  /-- getRecentMessagesV2 for each box. -/
  recents : String → List TalkMessage
  /-- scan_messages_for_stickers on the messages of a box. -/
  scan : String → Rc := fun _ => .ok
  later : List SyncWrite := []
  /-- The health check and the write of the cursor. -/
  finish : Rc := .ok

/-- The end of `sync_phase_account`. -/
def syncPhaseAccount (boxes : List TalkMessageBox) : Sql Db Rc :=
  atomically (forEach messageBoxUpsert boxes)

def syncBoxMessages (cj : Cjson) (a : SyncAnswers) (box : TalkMessageBox) : Sql Db Rc :=
  if (a.recents box.id).isEmpty then pure .ok
  else do
    let rc ← atomically (forEach (messageUpsert cj) (a.recents box.id))
    if rc ≠ .ok then return rc
    return a.scan box.id

def syncPhaseMessages (cj : Cjson) (a : SyncAnswers) : Sql Db Rc :=
  forEach (syncBoxMessages cj a) a.boxes

/-- The phases of `enil_sync_all` on the message tables. -/
def syncPhases (cj : Cjson) (a : SyncAnswers) : Sql Db Rc := do
  let rc ← syncPhaseAccount a.boxes
  if rc ≠ .ok then return rc
  let rc ← syncPhaseMessages cj a
  if rc ≠ .ok then return rc
  forEach (SyncWrite.run cj) a.later

/-- enil_sync_all: the committed revision is the one captured before the fetches. -/
def syncAll (cj : Cjson) (a : SyncAnswers) : Sql Db (Option Nat) := do
  let rc ← syncPhases cj a
  if rc ≠ .ok ∨ a.finish ≠ .ok then return none
  return some a.localRev

/-! ## What a sync writes -/

structure Stored (ids : String → Bool) (count : String → Option Int) (d d' : Db) : Prop where
  ids : ∀ id, (d'.messages id).isSome = ((d.messages id).isSome || ids id)
  count : ∀ chat, unreadCount d' chat = (count chat).getD (unreadCount d chat)

abbrev KeepsCounts : Db → Db → Prop := Stored (fun _ => false) (fun _ => none)

theorem KeepsCounts.refl (d : Db) : KeepsCounts d d := ⟨fun _ => by simp, fun _ => rfl⟩

theorem KeepsCounts.trans {a b c : Db} (h : KeepsCounts a b) (h' : KeepsCounts b c) :
    KeepsCounts a c :=
  ⟨fun id => by rw [h'.ids, h.ids]; simp, fun chat => (h'.count chat).trans (h.count chat)⟩

theorem keepsCounts_of_keepsIds {d d' : Db} (h : KeepsIds d d') : KeepsCounts d d' :=
  ⟨fun id => by rw [h.ids]; simp, fun chat => by simp [unreadCount, h.boxes]⟩

theorem messageBoxUpsert_ok {mb : TalkMessageBox} {c : Conn Db}
    (h : (messageBoxUpsert mb c).1 = .ok) :
    Stored (fun _ => false) (fun chat => if chat = mb.id then some mb.unreadCount else none)
      c.db (messageBoxUpsert mb c).2.db := by
  unfold messageBoxUpsert at h ⊢
  obtain ⟨hins, heq⟩ := checked_ok h
  rw [heq] at h ⊢
  have hdb := (exec_ok h).trans (by rw [exec_ok hins])
  rw [hdb]
  refine ⟨fun id => by simp [updateMessageBoxV2, insertMessageBoxV2Row, onBoxes], fun chat => ?_⟩
  simp only [unreadCount, updateMessageBoxV2, insertMessageBoxV2Row, onBoxes]
  by_cases hc : chat = mb.id
  · subst hc
    rw [Table.update_same, Table.insertIgnore_same, if_pos rfl]
    rfl
  · rw [Table.update_of_ne _ _ hc, Table.insertIgnore_of_ne _ _ hc, if_neg hc]
    rfl

theorem Stored.trans {ids ids' : String → Bool} {count count' : String → Option Int} {a b c : Db}
    (h : Stored ids count a b) (h' : Stored ids' count' b c) :
    Stored (fun id => ids id || ids' id) (fun chat => (count' chat).or (count chat)) a c := by
  refine ⟨fun id => by rw [h'.ids, h.ids, Bool.or_assoc], fun chat => ?_⟩
  rw [h'.count, h.count]
  cases count' chat <;> rfl

/-- The count a list of boxes gives a chat: the last box of it. -/
def boxCount (chat : String) : List TalkMessageBox → Option Int
  | [] => none
  | b :: bs => (boxCount chat bs).or (if chat = b.id then some b.unreadCount else none)

theorem boxCount_of_forall {f : String → Int} {chat : String} {boxes : List TalkMessageBox}
    (h : ∀ b ∈ boxes, b.unreadCount = f b.id) :
    boxCount chat boxes = if ∃ b ∈ boxes, b.id = chat then some (f chat) else none := by
  induction boxes with
  | nil => simp [boxCount]
  | cons b bs ih =>
    rw [boxCount, ih fun x hx => h x (List.mem_cons_of_mem _ hx)]
    have hb := h b (List.mem_cons_self ..)
    by_cases hc : chat = b.id
    · subst hc
      by_cases hrest : ∃ x ∈ bs, x.id = b.id <;> simp [hrest, hb]
    · have hbc : ¬ b.id = chat := fun he => hc he.symm
      by_cases hrest : ∃ x ∈ bs, x.id = chat <;> simp [hrest, hc, hbc]

theorem boxes_ok {boxes : List TalkMessageBox} {c : Conn Db}
    (h : (forEach messageBoxUpsert boxes c).1 = .ok) :
    Stored (fun _ => false) (boxCount · boxes) c.db (forEach messageBoxUpsert boxes c).2.db :=
  forEach_ok (R := fun d xs d' => Stored (fun _ => false) (boxCount · xs) d d')
    (fun d => ⟨fun _ => by simp, fun _ => rfl⟩)
    (fun hx hrest => by simpa only [Bool.or_false, boxCount] using (messageBoxUpsert_ok hx).trans hrest) h

theorem messages_ok {cj : Cjson} {ms : List TalkMessage} {c : Conn Db}
    (h : (forEach (messageUpsert cj) ms c).1 = .ok) :
    Stored (fun id => ms.any (·.id == id)) (fun _ => none) c.db
      (forEach (messageUpsert cj) ms c).2.db := by
  refine forEach_ok (R := fun d xs d' =>
    Stored (fun id => xs.any (·.id == id)) (fun _ => none) d d')
    (fun d => ⟨fun _ => by simp, fun _ => rfl⟩) (fun {m xs c d} hx hrest => ?_) h
  obtain ⟨-, hboxes, hids⟩ := messageUpsert_ok hx
  have hone : Stored (fun id => m.id == id) (fun _ => none) c.db (messageUpsert cj m c).2.db :=
    ⟨fun id => by rw [hids, Bool.beq_comm], fun chat => by simp [unreadCount, hboxes]⟩
  simpa only [List.any_cons, Option.or_none] using hone.trans hrest

/-- A transaction that commits stores what its body stores. -/
theorem Stored.of_atomically {ids : String → Bool} {count : String → Option Int}
    {body : Sql Db Rc} (hbody : ∀ c, (body c).1 = .ok → Stored ids count c.db (body c).2.db)
    {c : Conn Db} (h : (atomically body c).1 = .ok) :
    Stored ids count c.db (atomically body c).2.db := by
  obtain ⟨hok, hdb⟩ := atomically_ok h
  rw [hdb]
  exact hbody (opened c) hok

/-- Whether a message with this id was in the recent messages of a box. -/
def SyncAnswers.fetched (a : SyncAnswers) (id : String) : Bool :=
  a.boxes.any fun b => (a.recents b.id).any (·.id == id)

theorem syncBoxMessages_ok {cj : Cjson} {a : SyncAnswers} {box : TalkMessageBox} {c : Conn Db}
    (h : (syncBoxMessages cj a box c).1 = .ok) :
    Stored (fun id => (a.recents box.id).any (·.id == id)) (fun _ => none) c.db
      (syncBoxMessages cj a box c).2.db := by
  unfold syncBoxMessages at h ⊢
  split
  · rename_i hempty
    rw [List.isEmpty_iff] at hempty
    rw [hempty]
    exact KeepsCounts.refl _
  · rename_i hempty
    rw [if_neg hempty] at h
    obtain ⟨hx, heq⟩ := checked_ok h
    rw [heq]
    exact .of_atomically (fun _ => messages_ok) hx

theorem syncPhaseMessages_ok {cj : Cjson} {a : SyncAnswers} {c : Conn Db}
    (h : (syncPhaseMessages cj a c).1 = .ok) :
    Stored a.fetched (fun _ => none) c.db (syncPhaseMessages cj a c).2.db := by
  refine forEach_ok (R := fun d bs d' => Stored
    (fun id => bs.any fun b => (a.recents b.id).any (·.id == id)) (fun _ => none) d d')
    (fun d => ⟨fun _ => by simp, fun _ => rfl⟩) (fun hx hrest => ?_) h
  simpa only [List.any_cons, Option.or_none] using (syncBoxMessages_ok hx).trans hrest

theorem keepsCounts_updateBox {chat : String} {p : MessageBox → Bool} {f : MessageBox → MessageBox}
    (h : ∀ b, (f b).unreadCount = b.unreadCount) (d : Db) :
    KeepsCounts d (d.onBoxes (·.updateIf chat p f)).2 := by
  refine ⟨fun id => by simp [onBoxes], fun chat' => ?_⟩
  simp only [unreadCount, onBoxes, Option.getD_none]
  by_cases hc : chat' = chat
  · subst hc
    rw [Table.updateIf_same]
    cases d.messageBoxes chat' with
    | none => rfl
    | some b => by_cases hp : p b <;> simp [hp, h b]
  · rw [Table.updateIf_of_ne _ _ _ hc]

theorem SyncWrite.built (cj : Cjson) (w : SyncWrite) :
    Built (fun stmt => ∀ d, KeepsCounts d (stmt d).2) (w.run cj) := by
  have hrow : ∀ stmt, RowUpdate stmt → ∀ d, KeepsCounts d (stmt d).2 :=
    fun _ hs d => keepsCounts_of_keepsIds (hs d)
  cases w with
  | peerRead chat reader time =>
    exact .ite (.pure _) (.exec (keepsCounts_updateBox fun _ => rfl))
  | groupRead chat reader time =>
    exact .ite (.pure _) (.exec fun d => ⟨fun id => by simp [onReaders], fun _ => rfl⟩)
  | decrypted msg result => exact (built_decryptOneMessage _ _ _).mono hrow
  | media id outcome => exact (built_syncOneMessageMedia _ _).mono hrow

/-- A sync that commits has stored the recent messages of the boxes and the counts of
the boxes, and commits the captured revision. -/
theorem syncAll_committed {cj : Cjson} {a : SyncAnswers} {c : Conn Db} {rev : Nat}
    (h : (syncAll cj a c).1 = some rev) :
    rev = a.localRev ∧
    Stored a.fetched (boxCount · a.boxes) c.db (syncAll cj a c).2.db := by
  unfold syncAll at h ⊢
  rw [bind_apply] at h ⊢
  split at h
  · cases h
  · rename_i hcommit
    rw [if_neg hcommit]
    obtain ⟨hphases, -⟩ := not_or.mp hcommit
    rw [not_not] at hphases
    refine ⟨(Option.some.inj h).symm, ?_⟩
    change Stored _ _ c.db (syncPhases cj a c).2.db
    unfold syncPhases at hphases ⊢
    obtain ⟨haccount, heq⟩ := checked_ok hphases
    rw [heq] at hphases ⊢
    obtain ⟨hmessages, heq'⟩ := checked_ok hphases
    rw [heq']
    have hlater := (Built.forEach (SyncWrite.built cj) a.later).moves KeepsCounts.refl
      (fun h h' => h.trans h') (fun _ hs => hs)
    have hboxes : Stored (fun _ => false) (boxCount · a.boxes) c.db
        (syncPhaseAccount a.boxes c).2.db := .of_atomically (fun _ => boxes_ok) haccount
    have hall := (hboxes.trans (syncPhaseMessages_ok hmessages)).trans (hlater _)
    simpa only [Bool.false_or, Bool.or_false, Option.none_or] using hall

end Enil
