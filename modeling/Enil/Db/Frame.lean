import Enil.Db.Messages

/-!
# What the message statements leave alone

After a message is stored, the later statements about it change columns of its
row only: the boxes and the set of stored ids stay (`KeepsIds`).
-/

namespace Enil.Db

open Lib Lib.Sql

structure KeepsIds (d d' : Db) : Prop where
  boxes : d'.messageBoxes = d.messageBoxes
  ids : ∀ id, (d'.messages id).isSome = (d.messages id).isSome

theorem KeepsIds.refl (d : Db) : KeepsIds d d := ⟨rfl, fun _ => rfl⟩

theorem KeepsIds.trans {a b c : Db} (h : KeepsIds a b) (h' : KeepsIds b c) : KeepsIds a c :=
  ⟨h'.boxes.trans h.boxes, fun id => (h'.ids id).trans (h.ids id)⟩

/-- A statement that changes rows of stored messages only. -/
def RowUpdate (stmt : Db → Nat × Db) : Prop := ∀ d, KeepsIds d (stmt d).2

theorem rowUpdate_updateIf (id : String) (p : MessageRow → Bool) (f : MessageRow → MessageRow) :
    RowUpdate (onMessages (·.updateIf id p f)) := by
  intro d
  refine ⟨rfl, fun id' => ?_⟩
  by_cases h : id' = id
  · subst h; simp [onMessages, Table.updateIf_same]
  · simp [onMessages, Table.updateIf_of_ne _ _ _ h]

theorem rowUpdate_update (id : String) (f : MessageRow → MessageRow) :
    RowUpdate (onMessages (·.update id f)) := rowUpdate_updateIf id _ f

/-- A program of row updates keeps the ids. -/
theorem keepsIds_of_built {α : Type} {m : Sql Db α} (hm : Built RowUpdate m) (c : Conn Db) :
    KeepsIds c.db (m c).2.db :=
  hm.moves KeepsIds.refl (fun h h' => h.trans h') (fun _ hs => hs) c

/-! ## The programs of row updates -/

theorem built_overwriteReactions (m : TalkMessage) : Built RowUpdate (overwriteReactions m) := by
  unfold overwriteReactions
  split
  · exact .bind .changes fun _ => .ite (.discard (.exec (rowUpdate_update _ _))) (.pure _)
  · exact .pure _

theorem built_fillStoredText (m : TalkMessage) : Built RowUpdate (fillStoredText m) :=
  .bind .changes fun _ => .ite (.discard (.exec (rowUpdate_updateIf _ _ _))) (.pure _)

theorem built_fillReplaceJson (m : TalkMessage) : Built RowUpdate (fillReplaceJson m) := by
  unfold fillReplaceJson
  split
  · exact .ite (.pure _) (.exec (rowUpdate_updateIf _ _ _))
  · exact .pure _

/-- What follows the insert in `enil_db_message_upsert`. -/
theorem built_afterInsert (m : TalkMessage) :
    Built RowUpdate (do overwriteReactions m; fillStoredText m; fillReplaceJson m) :=
  .bind (built_overwriteReactions m) fun _ =>
    .bind (built_fillStoredText m) fun _ => built_fillReplaceJson m

theorem built_messageHasPlaintext (id : String) : Built RowUpdate (messageHasPlaintext id) :=
  .bind (.query _) fun _ => .pure _

theorem built_setMediaInfo (id chatId : String) (info : Option MediaInfo) :
    Built RowUpdate (setMediaInfo id chatId info) := .exec (rowUpdate_update _ _)

/-! ## Storing a message -/

theorem built_messageUpsert (cj : Cjson) (m : TalkMessage) :
    Built (fun _ => True) (messageUpsert cj m) := by
  refine .ite (.pure _) (.bind (.exec trivial) fun rc => .ite (.pure _) ?_)
  exact (built_afterInsert m).mono fun _ _ => trivial

/-- A stored message adds its id and touches no box. -/
theorem messageUpsert_ok {cj : Cjson} {m : TalkMessage} {c : Conn Db}
    (h : (messageUpsert cj m c).1 = .ok) :
    m.id ≠ "" ∧ (messageUpsert cj m c).2.db.messageBoxes = c.db.messageBoxes ∧
    ∀ id, ((messageUpsert cj m c).2.db.messages id).isSome =
      ((c.db.messages id).isSome || id == m.id) := by
  unfold messageUpsert at h ⊢
  split at h
  · cases h
  · rename_i hid
    rw [if_neg hid]
    obtain ⟨hins, heq⟩ := checked_ok h
    rw [heq]
    have hafter := keepsIds_of_built (built_afterInsert m) (exec (onMessages (·.insertIgnore m.id
      (messageRow cj m (m.chatId.getD "")))) c).2
    have hdb := exec_ok hins
    refine ⟨fun h0 => hid (.inl h0), ?_, fun id => ?_⟩
    · rw [hafter.boxes, hdb]; rfl
    · rw [hafter.ids, hdb]
      simp only [onMessages]
      by_cases hk : id = m.id
      · subst hk; simp [Table.insertIgnore_same]
      · simp [Table.insertIgnore_of_ne _ _ hk, hk]

/-- A live upsert that succeeds leaves the messages alone, creates the box and
counts as `liveUnread` says; other boxes stay. -/
theorem messageBoxUpsertLiveMessage_ok {chat : String} {midType : Int} {lastId id : Option String}
    {time : Int} {incoming : Bool} {c : Conn Db}
    (h : (messageBoxUpsertLiveMessage chat midType lastId time incoming id c).1 = .ok) :
    let d := (messageBoxUpsertLiveMessage chat midType lastId time incoming id c).2.db
    d.messages = c.db.messages ∧ d.messageBoxReaders = c.db.messageBoxReaders ∧
    (∀ k, k ≠ chat → d.messageBoxes k = c.db.messageBoxes k) ∧
    d.messageBoxes chat = some { (c.db.messageBoxes chat).getD {} with
      midType := some midType
      lastDeliveredMessageId := lastId
      lastDeliveredTime := some time
      unreadCount := c.db.liveUnread id incoming
        ((c.db.messageBoxes chat).getD {}).unreadCount } := by
  unfold messageBoxUpsertLiveMessage at h ⊢
  obtain ⟨hins, heq⟩ := checked_ok h
  rw [heq] at h ⊢
  have hdb := (exec_ok h).trans (by rw [exec_ok hins])
  simp only [hdb]
  refine ⟨rfl, rfl, fun k hk => ?_, ?_⟩
  · simp only [updateMessageBoxV2LiveMessage, insertMessageBoxV2Row, onBoxes]
    rw [Table.update_of_ne _ _ hk, Table.insertIgnore_of_ne _ _ hk]
  · simp only [updateMessageBoxV2LiveMessage, insertMessageBoxV2Row, onBoxes]
    rw [Table.update_same, Table.insertIgnore_same]
    rfl

theorem built_messageBoxUpsertLiveMessage (chat : String) (midType : Int)
    (lastId : Option String) (time : Int) (incoming : Bool) (id : Option String) :
    Built (fun _ => True) (messageBoxUpsertLiveMessage chat midType lastId time incoming id) :=
  .bind (.exec trivial) fun _ => .ite (.pure _) (.exec trivial)

/-! ## Read times -/

theorem upsertReader_of_ne {k k' : String × String} (t : Int)
    (readers : Table (String × String) Int) (h : k' ≠ k) :
    (upsertReader k t readers).2 k' = readers k' := by
  unfold upsertReader
  cases readers k with
  | none => simp [Table.insertReplace, h]
  | some t' => by_cases ht : t < t' <;> simp [ht, Table.insertReplace, h]

/-- The stored read time becomes the later one. -/
theorem upsertReader_same (k : String × String) (t : Int)
    (readers : Table (String × String) Int) :
    (upsertReader k t readers).2 k = some (((readers k).map (max · t)).getD t) := by
  unfold upsertReader
  cases hk : readers k with
  | none => simp [Table.insertReplace]
  | some t' =>
    by_cases ht : t < t'
    · simp [ht, hk, Int.max_eq_left (Int.le_of_lt ht)]
    · simp [ht, Table.insertReplace, Int.max_eq_right (Int.not_lt.mp ht)]

end Enil.Db
