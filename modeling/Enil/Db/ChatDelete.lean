import Enil.Lib.Transaction
import Enil.Sync.Sticons

/-!
# Deleting a chat

`enil_db_chat_delete` over the six tables that hold rows of a chat. The sticon rows are
found through the messages, so they go first. No statement deletes from
`message_box_readers_v2`, and a failed COMMIT is not followed by a ROLLBACK.
-/

namespace Enil

open Lib

/-- The tables with `chats_v2`, whose columns nothing here reads. -/
structure ChatDb (Chat : Type) extends SticonDb where
  chats : Table String Chat

namespace ChatDb

open Tx

variable {Chat : Type} (chat : String)

/-- `id IN (SELECT id FROM messages_v2 WHERE chat_id = ?)`. -/
def inChat (d : ChatDb Chat) (id : String) : Bool := (d.messages id).any (·.chatId == chat)

def deleteSticons (d : ChatDb Chat) : ChatDb Chat :=
  { d with sticons := d.sticons.filter fun s => !inChat chat d s.messageId }

def deleteSticonPackages (d : ChatDb Chat) : ChatDb Chat :=
  { d with packages := d.packages.filter fun x => !inChat chat d x.1 }

def deleteMessages (d : ChatDb Chat) : ChatDb Chat :=
  { d with messages := fun id => (d.messages id).filter (·.chatId != chat) }

def deleteMessageBox (d : ChatDb Chat) : ChatDb Chat :=
  { d with messageBoxes := Function.update d.messageBoxes chat none }

def deleteChat (d : ChatDb Chat) : ChatDb Chat :=
  { d with chats := Function.update d.chats chat none }

/-- The `stmts` of enil_db_chat_delete. -/
def deleteStmts : List (ChatDb Chat → ChatDb Chat) :=
  [deleteSticons chat, deleteSticonPackages chat, deleteMessages chat, deleteMessageBox chat,
    deleteChat chat]

def chatDelete : Tx (ChatDb Chat) Rc := do
  let rc ← beginTransaction
  if rc ≠ .ok then return rc
  let rc ← execAll (deleteStmts chat)
  if rc ≠ .ok then
    rollback
    return rc
  commit

/-! ## What it is to do -/

/-- No row of `d'` refers to the chat or to one of the messages `d` has of it. -/
structure NoTrace (d d' : ChatDb Chat) : Prop where
  chats : d'.chats chat = none
  messageBoxes : d'.messageBoxes chat = none
  messages : ∀ id r, d'.messages id = some r → r.chatId ≠ chat
  sticons : ∀ s ∈ d'.sticons, inChat chat d s.messageId = false
  packages : ∀ x ∈ d'.packages, inChat chat d x.1 = false
  readers : ∀ reader, d'.messageBoxReaders (chat, reader) = none

/-- The rows that belong to no message of the chat and not to the chat itself stay. -/
structure KeepsOthers (d d' : ChatDb Chat) : Prop where
  chats : ∀ k, k ≠ chat → d'.chats k = d.chats k
  messageBoxes : ∀ k, k ≠ chat → d'.messageBoxes k = d.messageBoxes k
  messages : ∀ id, inChat chat d id = false → d'.messages id = d.messages id
  sticons : (d'.sticons.filter fun s => !inChat chat d s.messageId) =
    d.sticons.filter fun s => !inChat chat d s.messageId
  packages : ∀ x : String × String, inChat chat d x.1 = false → (x ∈ d'.packages ↔ x ∈ d.packages)
  readers : ∀ k : String × String, k.1 ≠ chat → d'.messageBoxReaders k = d.messageBoxReaders k

/-- The deletion on a database with no transaction open, its statements ending as `os`
says: all of it, or nothing and no transaction left. -/
def DeletesWhole (d : ChatDb Chat) (os : List Outcome) : Prop :=
  let r := chatDelete chat { db := d, outcomes := os }
  (r.1 = .ok → NoTrace chat d r.2.db ∧ KeepsOthers chat d r.2.db) ∧
  (r.1 ≠ .ok → r.2.db = d ∧ r.2.before = none)

/-! ## What it does -/

def deleted (d : ChatDb Chat) : ChatDb Chat := (deleteStmts chat).foldl (fun d stmt => stmt d) d

theorem deleted_eq (d : ChatDb Chat) : deleted chat d = { d with
    sticons := d.sticons.filter fun s => !inChat chat d s.messageId
    packages := d.packages.filter fun x => !inChat chat d x.1
    messages := fun id => (d.messages id).filter (·.chatId != chat)
    messageBoxes := Function.update d.messageBoxes chat none
    chats := Function.update d.chats chat none } := rfl

theorem keepsOthers_deleted (d : ChatDb Chat) : KeepsOthers chat d (deleted chat d) := by
  rw [deleted_eq]
  refine ⟨fun k hk => ?_, fun k hk => ?_, fun id hid => ?_, ?_, fun x hx => ?_, fun k _ => rfl⟩
  · exact Function.update_of_ne hk _ _
  · exact Function.update_of_ne hk _ _
  · show (d.messages id).filter _ = d.messages id
    unfold inChat at hid
    cases hr : d.messages id with
    | none => rfl
    | some r =>
      rw [hr, Option.any_some] at hid
      simp [Option.filter, bne, hid]
  · simp
  · simp [hx]

/-- What is left is the rows of `message_box_readers_v2`. -/
theorem noTrace_deleted_iff (d : ChatDb Chat) :
    NoTrace chat d (deleted chat d) ↔ ∀ reader, d.messageBoxReaders (chat, reader) = none := by
  refine ⟨fun h => h.readers, fun hreaders => ?_⟩
  rw [deleted_eq]
  refine ⟨Function.update_self .., Function.update_self .., fun id r hr => ?_, fun s hs => ?_,
    fun x hx => ?_, hreaders⟩
  · have hkept : (r.chatId != chat) = true := (Option.filter_eq_some_iff.mp hr).2
    exact bne_iff_ne.mp hkept
  · have hkept := (List.mem_filter.mp hs).2
    simpa using hkept
  · have hkept := (Finset.mem_filter.mp hx).2
    simpa using hkept

variable {chat}

/-- A BEGIN that fails. -/
theorem chatDelete_unopened {d : ChatDb Chat} {os : List Outcome} (h : os.headD .done ≠ .done) :
    (chatDelete chat { db := d, outcomes := os }).1 = .error ∧
    (chatDelete chat { db := d, outcomes := os }).2.db = d ∧
    (chatDelete chat { db := d, outcomes := os }).2.before = none := by
  unfold chatDelete
  rw [bind_apply]
  have hb : (beginTransaction { db := d, outcomes := os }).1 = .error ∧
      (beginTransaction { db := d, outcomes := os }).2.db = d ∧
      (beginTransaction { db := d, outcomes := os }).2.before = none := by
    unfold beginTransaction TxConn.settle TxConn.next
    rw [if_neg (by simp)]
    cases ho : os.headD .done with
    | done => exact absurd ho h
    | failed => exact ⟨rfl, rfl, rfl⟩
    | rolledBack => exact ⟨rfl, rfl, rfl⟩
  rw [hb.1, if_pos (by rintro ⟨⟩)]
  exact ⟨rfl, hb.2⟩

/-- After BEGIN the statements run inside the transaction. -/
theorem chatDelete_opened {d : ChatDb Chat} {os : List Outcome} (h : os.headD .done = .done) :
    chatDelete chat { db := d, outcomes := os } =
      (execAll (deleteStmts chat) >>= fun rc =>
        if rc ≠ .ok then do
          rollback
          return rc
        else commit) { db := d, before := some d, outcomes := os.tail } := by
  unfold chatDelete
  rw [bind_apply]
  have hb : beginTransaction { db := d, outcomes := os } =
      (.ok, ({ db := d, before := some d, outcomes := os.tail } : TxConn (ChatDb Chat))) := by
    unfold beginTransaction TxConn.settle TxConn.next
    rw [if_neg (by simp), h]
    rfl
  rw [hb]
  rfl

/-- A statement that fails takes the others back with it. -/
theorem chatDelete_failed {d : ChatDb Chat} {os : List Outcome} (h : ¬ Done 6 os) :
    (chatDelete chat { db := d, outcomes := os }).1 = .error ∧
    (chatDelete chat { db := d, outcomes := os }).2.db = d ∧
    (chatDelete chat { db := d, outcomes := os }).2.before = none := by
  rw [done_succ] at h
  rcases Decidable.em (os.headD .done = .done) with hos | hos
  · have hbody : ¬ Done (deleteStmts chat : List (ChatDb Chat → ChatDb Chat)).length os.tail :=
      fun hdone => h ⟨hos, hdone⟩
    rw [chatDelete_opened hos, bind_apply]
    obtain ⟨hrc, hundo⟩ := execAll_failed (deleteStmts chat)
      (c := { db := d, before := some d, outcomes := os.tail }) rfl hbody
    rw [hrc, if_pos (by rintro ⟨⟩)]
    exact ⟨rfl, hundo⟩
  · exact chatDelete_unopened hos

/-- With every statement done it is COMMIT that decides. -/
theorem chatDelete_done {d : ChatDb Chat} {os : List Outcome} (h : Done 6 os) :
    chatDelete chat { db := d, outcomes := os } =
      commit { db := deleted chat d, before := some d, outcomes := os.drop 6 } := by
  rw [done_succ] at h
  rw [chatDelete_opened h.1, bind_apply]
  rw [execAll_done (deleteStmts chat) (c := { db := d, before := some d, outcomes := os.tail }) h.2]
  rw [if_neg (fun hrc => hrc rfl)]
  rw [show (os.tail).drop (deleteStmts chat : List (ChatDb Chat → ChatDb Chat)).length = os.drop 6 by
    rw [List.drop_tail]; rfl]
  rfl

/-- Where the chat has no reader's row or some step fails, and COMMIT does not fail with
its transaction left open. -/
def WholeWhen (chat : String) (d : ChatDb Chat) (os : List Outcome) : Prop :=
  (Done 7 os → ∀ reader, d.messageBoxReaders (chat, reader) = none) ∧
  ¬ (Done 6 os ∧ (os.drop 6).headD .done = .failed)

theorem deletesWhole_iff (chat : String) (d : ChatDb Chat) (os : List Outcome) :
    DeletesWhole chat d os ↔ WholeWhen chat d os := by
  simp only [DeletesWhole, WholeWhen]
  have hseven : Done 7 os ↔ Done 6 os ∧ (os.drop 6).headD .done = .done := by
    rw [show 7 = 6 + 1 from rfl, done_add, done_one]
  rcases Decidable.em (Done 6 os) with hdone | hfail
  · rw [chatDelete_done hdone, hseven]
    unfold commit TxConn.settle TxConn.next
    simp only [Option.isNone_some, Bool.false_eq_true, if_false]
    cases hlast : (os.drop 6).headD .done with
    | done =>
      constructor
      · rintro ⟨hok, -⟩
        exact ⟨fun _ => (noTrace_deleted_iff chat d).mp (hok rfl).1, by rintro ⟨_, ⟨⟩⟩⟩
      · rintro ⟨hreaders, -⟩
        exact ⟨fun _ => ⟨(noTrace_deleted_iff chat d).mpr (hreaders ⟨hdone, rfl⟩),
          keepsOthers_deleted chat d⟩, fun h => absurd rfl h⟩
    | failed =>
      constructor
      · rintro ⟨-, herr⟩
        exact absurd (herr (by rintro ⟨⟩)).2 (by rintro ⟨⟩)
      · rintro ⟨-, hopen⟩
        exact absurd ⟨hdone, rfl⟩ hopen
    | rolledBack =>
      refine ⟨fun _ => ⟨?_, ?_⟩, fun _ => ⟨?_, fun _ => ⟨rfl, rfl⟩⟩⟩
      · rintro ⟨_, ⟨⟩⟩
      · rintro ⟨_, ⟨⟩⟩
      · rintro ⟨⟩
  · obtain ⟨hrc, hdb, hbefore⟩ := @chatDelete_failed _ chat d _ hfail
    rw [hrc, hseven]
    exact ⟨fun _ => ⟨fun h => absurd h.1 hfail, fun h => hfail h.1⟩,
      fun _ => ⟨by rintro ⟨⟩, fun _ => ⟨hdb, hbefore⟩⟩⟩

/-- A group that a member has read, and nothing else. -/
def readGroup : ChatDb Unit where
  messageBoxes := fun _ => none
  messages := fun _ => none
  messageBoxReaders := fun k => if k = ("c1", "u1") then some 5 else none
  chats := fun _ => none

/-- The read time of the member stays after a deletion that succeeds; one whose COMMIT
fails leaves its transaction open. -/
theorem reader_left : ¬ DeletesWhole "c1" readGroup [] ∧
    ¬ DeletesWhole "u1" readGroup (List.replicate 6 .done ++ [.failed]) := by
  constructor
  · rintro ⟨hok, -⟩
    exact absurd ((hok rfl).1.readers "u1") (by decide)
  · rintro ⟨-, herr⟩
    exact absurd (herr (by decide)).2 (by rintro ⟨⟩)

end ChatDb
end Enil
