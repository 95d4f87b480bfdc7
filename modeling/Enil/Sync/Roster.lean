import Enil.Lib.Machine
import Enil.Sync.InFull
import Enil.Sync.Process

/-!
# The friends list

`contacts_v2` holds friends and others, told apart by `registered`. A full sync writes
the own profile and the members of groups unregistered, and the friends as the server
lists them; an event may have one contact refetched, and its row is stored as the reply
has it. The rows that stay registered are those of the last friends fetch exactly if no
step stores, or leaves, a friend whom that fetch does not list.
-/

namespace Enil

open Lib Lib.Sql Db Fetch SyncDb

variable (cj : Cjson)

namespace Fetch

/-! ## Contacts of events -/

def applyOpContactUpdate (reply : LineResponse) (mid : String) : Sql SyncDb Rc :=
  if mid = "" then pure .error
  else match talkGetContactByMid cj reply mid with
    | none => pure .error
    | some contact => exec (upsertContact contact)

def applyOpChatUpdate (reply : LineResponse) (chatMid : String) : Sql SyncDb Rc :=
  if chatMid = "" then pure .error
  else match talkGetChats cj [chatMid] fun _ => reply with
    | none => pure .error
    | some [] => pure .ok
    | some (chat :: _) => exec (upsertChat { chat with isInvited := false })

/-- backfill_chat_metadata; a row that cannot be read counts as missing. -/
def backfillChatMetadata (reply : LineResponse) (chatId : String) : Sql SyncDb Unit := do
  if chatId = "" then return ()
  if isOneToOne chatId then
    if (← query fun d => (d.contacts chatId).isSome).getD false then return ()
    discard (applyOpContactUpdate cj reply chatId)
  else
    if (← query fun d => (d.chats chatId).isSome).getD false then return ()
    discard (applyOpChatUpdate cj reply chatId)

/-- The message of an event, with the names of its chat. -/
def sseMessageNamed (remote : Remote) (reply : LineResponse) (root : Json) (op : TalkOperation)
    (myMid : Option String) : Sql SyncDb Rc :=
  match op.message, root.getObjectItem "message" with
  | some m, some msg =>
    if nonempty m.chatId then do
      let rc ← onDb (atomically (sseMessage cj msg m (m.chatId.getD "") myMid))
      if rc ≠ .ok then return rc
      backfillChatMetadata cj reply (m.chatId.getD "")
      onDb (sseMessageRest cj remote msg m)
    else pure .error
  | _, _ => pure .error

/-- enil_sync_process_sse_event with the reply to what it refetches. -/
def processSseEvent (myMid : Option String) (remote : Remote) (reply : LineResponse)
    (eventType : String) (root : Option Json) : Sql SyncDb Rc :=
  if eventType ≠ "message" then pure .ok
  else match root with
    | none => pure .error
    | some root =>
      let op := talkOperationParse root myMid
      match op.type with
      | .updateContact => applyOpContactUpdate cj reply (op.param1.getD "")
      | .updateChat | .notifiedUpdateChat => applyOpChatUpdate cj reply (op.param1.getD "")
      | .sendMessage | .receiveMessage => sseMessageNamed cj remote reply root op myMid
      | _ => onDb (applyOp cj remote root op myMid)

end Fetch

/-! ## Steps -/

/-- The tables, and what the last friends fetch listed that was stored. -/
structure Roster where
  db : SyncDb
  listed : List TalkContact := []

/-- One step of a sync or of an event; `c` is the connection it runs on, with its own
tables. -/
inductive RosterStep where
  | profile (a : Replies) (c : Conn SyncDb)
  | friends (a : Replies) (c : Conn SyncDb)
  | chats (a : Replies) (c : Conn SyncDb)
  | contactUpdate (reply : LineResponse) (mid : String) (c : Conn SyncDb)
  | chatMetadata (reply : LineResponse) (chatId : String) (c : Conn SyncDb)
  /-- Any tables but the contacts. -/
  | others (d : SyncDb)

namespace Roster

/-- The connection of a step on the tables. -/
def on (s : Roster) (c : Conn SyncDb) : Conn SyncDb := { c with db := s.db }

def next (s : Roster) : RosterStep → Roster
  | .profile a c => { s with db := (syncProfile cj a (s.on c)).2.db }
  | .friends a c =>
    let r := syncContacts cj a (s.on c)
    { db := r.2.db
      listed := if r.1.isSome then (talkGetContacts cj a).getD [] else s.listed }
  | .chats a c => { s with db := (syncChats cj a (s.on c)).2.db }
  | .contactUpdate reply mid c => { s with db := (applyOpContactUpdate cj reply mid (s.on c)).2.db }
  | .chatMetadata reply id c => { s with db := (backfillChatMetadata cj reply id (s.on c)).2.db }
  | .others d => { s with db := { d with contacts := s.db.contacts } }

def machine : Machine Roster RosterStep where
  step s e := some (s.next cj e)

/-- The last friends fetch lists `mid` as a contact. -/
def Listed (s : Roster) (mid : String) : Prop := ∃ c ∈ s.listed, c.mid = mid ∧ c.registered = true

instance (s : Roster) (mid : String) : Decidable (s.Listed mid) :=
  inferInstanceAs (Decidable (∃ c ∈ s.listed, _))

def Registered (s : Roster) (mid : String) : Prop :=
  ∃ row, s.db.contacts mid = some row ∧ row.registered = true

/-- The friends are those of the last fetch. -/
def Sound (s : Roster) : Prop := ∀ mid, s.Registered mid → s.Listed mid

/-! ## Steps that keep it -/

/-- A refetched contact may be stored as it is. -/
def Admits (s : Roster) (contact : TalkContact) : Prop :=
  contact.registered = true → s.Listed contact.mid

def Meets (s : Roster) : RosterStep → Prop
  | .friends a c => ∀ contacts, talkGetContacts cj a = some contacts →
      Spares c (contacts.length + 2) → ∀ mid, s.Registered mid → ∃ c ∈ contacts, c.mid = mid
  | .contactUpdate reply mid c => ∀ contact, mid ≠ "" →
      talkGetContactByMid cj reply mid = some contact → Spares c 1 → s.Admits contact
  | .chatMetadata reply id c => ∀ contact, isOneToOne id = true →
      talkGetContactByMid cj reply id = some contact → (s.db.contacts id = none ∨ c.failing = true) →
      Spares c.tick 1 → s.Admits contact
  | .profile .. | .chats .. | .others _ => True

variable {cj}

theorem sound_of_keeps {s : Roster} (h : s.Sound) {d : SyncDb} (hkeeps : KeepsContacts s.db d) :
    Sound { s with db := d } := by
  rintro mid ⟨row, hrow, hreg⟩
  rcases hkeeps.contacts mid with hsame | ⟨row', hrow', hno⟩
  · exact h mid ⟨row, hsame ▸ hrow, hreg⟩
  · rw [hrow, Option.some.injEq] at hrow'
    rw [← hrow', hreg] at hno
    cases hno

theorem sound_of_contacts {s : Roster} (h : s.Sound) {d : SyncDb}
    (hsame : d.contacts = s.db.contacts) : Sound { s with db := d } := by
  rintro mid ⟨row, hrow, hreg⟩
  exact h mid ⟨row, hsame ▸ hrow, hreg⟩

theorem upsertContact_sound_iff {s : Roster} (h : s.Sound) (contact : TalkContact) :
    Sound { s with db := (upsertContact contact s.db).2 } ↔ s.Admits contact := by
  constructor
  · intro hs hreg
    exact hs contact.mid ⟨contact, Function.update_self .., hreg⟩
  · rintro hadmits mid ⟨row, hrow, hreg⟩
    have hrow : Function.update s.db.contacts contact.mid (some contact) mid = some row := hrow
    rcases Decidable.em (mid = contact.mid) with rfl | hne
    · rw [Function.update_self, Option.some.injEq] at hrow
      obtain rfl := hrow
      exact hadmits hreg
    · rw [Function.update_of_ne hne] at hrow
      exact h mid ⟨row, hrow, hreg⟩

/-- A refetch stores its contact unless the statement fails. -/
theorem applyOpContactUpdate_sound_iff {s : Roster} (h : s.Sound) (reply : LineResponse)
    (mid : String) {c : Conn SyncDb} (hc : c.db = s.db) :
    Sound { s with db := (applyOpContactUpdate cj reply mid c).2.db } ↔
      ∀ contact, mid ≠ "" → talkGetContactByMid cj reply mid = some contact → Spares c 1 →
        s.Admits contact := by
  unfold applyOpContactUpdate
  split
  · rename_i hmid
    exact iff_of_true (sound_of_contacts h (congrArg contacts hc)) fun _ hne => absurd hmid hne
  · rename_i hmid
    cases talkGetContactByMid cj reply mid with
    | none =>
      exact iff_of_true (sound_of_contacts h (congrArg contacts hc)) fun _ _ hsome => by cases hsome
    | some contact =>
      dsimp only
      rw [exec_db, hc, spares_succ]
      cases c.failing with
      | true =>
        exact iff_of_true (sound_of_contacts h rfl) fun _ _ _ hspares => by cases hspares.1
      | false =>
        rw [if_neg Bool.false_ne_true, upsertContact_sound_iff h]
        refine ⟨fun hadmits contact' _ hsome _ => ?_,
          fun hall => hall contact hmid rfl ⟨rfl, spares_zero _⟩⟩
        rw [Option.some.injEq] at hsome
        exact hsome ▸ hadmits

theorem syncProfile_keeps (a : Replies) (c : Conn SyncDb) :
    KeepsContacts c.db (syncProfile cj a c).2.db := by
  unfold syncProfile
  cases talkGetProfile cj a.profile with
  | none => exact .refl _
  | some profile =>
    refine andThen_keeps (R := KeepsContacts) KeepsContacts.trans (fun c => ?_) (fun _ c => ?_) c
    · rw [require_db, exec_db]
      split
      · exact .refl _
      · exact ⟨rfl, fun _ => .inl rfl⟩
    · refine Built.moves (P := fun stmt => ∀ d, KeepsContacts d (stmt d).2) KeepsContacts.refl
        KeepsContacts.trans (fun _ h => h) ?_ c
      refine .bind (.discard (.exec fun d => ⟨rfl, fun mid => ?_⟩)) fun _ => .pure _
      show Function.update d.contacts profile.mid _ mid = _ ∨ _
      rcases Decidable.em (mid = profile.mid) with rfl | hne
      · exact .inr ⟨_, Function.update_self .., rfl⟩
      · exact .inl (Function.update_of_ne hne ..)

/-- The friends phase stores the whole list, or nothing. -/
theorem syncContacts_cases (a : Replies) (c : Conn SyncDb) :
    (∃ contacts, talkGetContacts cj a = some contacts ∧ Spares c (contacts.length + 2) ∧
      (syncContacts cj a c).1.isSome = true ∧
      (syncContacts cj a c).2.db.contacts =
        Table.insertAll TalkContact.mid c.db.contacts contacts) ∨
    ((∀ contacts, talkGetContacts cj a = some contacts → ¬ Spares c (contacts.length + 2)) ∧
      (syncContacts cj a c).1.isSome = false ∧ (syncContacts cj a c).2.db = c.db) := by
  unfold syncContacts
  cases talkGetContacts cj a with
  | none => exact .inr ⟨fun _ h => (by cases h), rfl, rfl⟩
  | some contacts =>
    dsimp only
    have hiff := atomically_forEach_iff upsertContact contacts c
    rw [require_isSome, require_db]
    by_cases hspares : Spares c (contacts.length + 2)
    · obtain ⟨hbody, hdb⟩ := atomically_ok (hiff.mpr hspares)
      refine .inl ⟨contacts, rfl, hspares, decide_eq_true (hiff.mpr hspares), ?_⟩
      rw [hdb, forEach_exec_ok hbody, foldl_upsertContact]
      rfl
    · have hfail := mt hiff.mp hspares
      refine .inr ⟨fun _ h => ?_, decide_eq_false hfail, ?_⟩
      · rw [Option.some.injEq] at h
        exact h ▸ hspares
      · exact atomically_error (P := fun _ => True) (.forEach (fun _ => .exec trivial) _) hfail

/-- The friends phase leaves friends it does not list registered. -/
theorem friends_sound_iff {s : Roster} (h : s.Sound) (a : Replies) (c : Conn SyncDb) :
    (s.next cj (.friends a c)).Sound ↔ s.Meets cj (.friends a c) := by
  have hon : (s.on c).db = s.db := rfl
  rcases @syncContacts_cases cj a (s.on c) with
    ⟨contacts, hget, hspares, hsome, hdb⟩ | ⟨hno, hnone, hdb⟩
  · rw [hon] at hdb
    have hlisted : (s.next cj (.friends a c)).listed = contacts := by
      show (if _ then _ else _) = _
      rw [if_pos hsome, hget, Option.getD_some]
    constructor
    · intro hs contacts' hget' _ mid ⟨row, hrow, hreg⟩
      obtain rfl : contacts = contacts' := Option.some.inj (hget.symm.trans hget')
      by_contra hmissing
      have hkept : (s.next cj (.friends a c)).Registered mid := by
        refine ⟨row, ?_, hreg⟩
        show (syncContacts cj a (s.on c)).2.db.contacts mid = _
        rw [hdb, Table.insertAll_apply, List.find?_eq_none.mpr, hrow]
        · rfl
        · intro contact hmem hmid
          exact hmissing ⟨contact, List.mem_reverse.mp hmem, of_decide_eq_true hmid⟩
      obtain ⟨contact, hmem, hmid, -⟩ := hs mid hkept
      rw [hlisted] at hmem
      exact hmissing ⟨contact, hmem, hmid⟩
    · rintro hmeets mid ⟨row, hrow, hreg⟩
      have hrow : (syncContacts cj a (s.on c)).2.db.contacts mid = some row := hrow
      rw [hdb, Table.insertAll_apply, Option.or_eq_some_iff] at hrow
      rcases hrow with hfind | ⟨hfind, hold⟩
      · refine ⟨row, ?_, of_decide_eq_true (List.find?_some hfind :), hreg⟩
        rw [hlisted]
        exact List.mem_reverse.mp (List.mem_of_find?_eq_some hfind)
      · obtain ⟨contact, hmem, hmid⟩ := hmeets contacts hget hspares mid ⟨row, hold, hreg⟩
        have := List.find?_eq_none.mp hfind contact (List.mem_reverse.mpr hmem)
        exact absurd (decide_eq_true hmid) this
  · have hnext : s.next cj (.friends a c) = s := by
      show ({ db := _, listed := if _ then _ else _ } : Roster) = s
      rw [hnone, hdb, if_neg Bool.false_ne_true]
      rfl
    rw [hnext]
    exact iff_of_true h fun contacts hget hspares => absurd hspares (hno contacts hget)

theorem applyOpChatUpdate_keeps (reply : LineResponse) (mid : String) (c : Conn SyncDb) :
    (applyOpChatUpdate cj reply mid c).2.db.contacts = c.db.contacts := by
  unfold applyOpChatUpdate
  split
  · rfl
  · cases talkGetChats cj [mid] fun _ => reply with
    | none => rfl
    | some chats =>
      cases chats with
      | nil => rfl
      | cons chat chats =>
        dsimp only
        rw [exec_db]
        split <;> rfl

/-- The peer of a chat is refetched where its row is missing or cannot be read. -/
theorem backfillChatMetadata_sound_iff {s : Roster} (h : s.Sound) (reply : LineResponse)
    (id : String) (c : Conn SyncDb) :
    (s.next cj (.chatMetadata reply id c)).Sound ↔ s.Meets cj (.chatMetadata reply id c) := by
  show Sound { s with db := (backfillChatMetadata cj reply id (s.on c)).2.db } ↔ _
  have hreads := query_apply (fun d => (d.contacts id).isSome) (s.on c)
  have hchat := query_apply (fun d => (d.chats id).isSome) (s.on c)
  unfold backfillChatMetadata
  by_cases hone : isOneToOne id = true
  · have hid : id ≠ "" := by
      rintro rfl
      cases hone
    rw [if_neg hid, if_pos hone, bind_apply, hreads]
    by_cases hmissing : s.db.contacts id = none ∨ c.failing = true
    · have hrefetch : (if (s.on c).failing then none
          else some ((s.on c).db.contacts id).isSome).getD false = false := by
        split
        · rfl
        · rename_i hreadable
          rcases hmissing with hnone | hfail
          · exact congrArg Option.isSome hnone
          · exact absurd hfail hreadable
      dsimp only
      rw [hrefetch, if_neg Bool.false_ne_true]
      show Sound { s with db := (applyOpContactUpdate cj reply id (s.on c).tick).2.db } ↔ _
      rw [applyOpContactUpdate_sound_iff h reply id rfl]
      exact ⟨fun hall contact _ hget _ hspares => hall contact hid hget hspares,
        fun hall contact _ hget hspares => hall contact hone hget hmissing hspares⟩
    · rw [not_or, Bool.not_eq_true] at hmissing
      have hpresent : (if (s.on c).failing then none
          else some ((s.on c).db.contacts id).isSome).getD false = true := by
        rw [show (s.on c).failing = false from hmissing.2, if_neg Bool.false_ne_true]
        exact Option.isSome_iff_ne_none.mpr hmissing.1
      dsimp only
      rw [hpresent, if_pos rfl]
      refine iff_of_true h fun _ _ _ hrow _ => ?_
      rcases hrow with hnone | hfail
      · exact absurd hnone hmissing.1
      · rw [hmissing.2] at hfail
        cases hfail
  · refine iff_of_true (sound_of_contacts h ?_) fun _ hyes => absurd hyes hone
    rw [if_neg hone, apply_ite (fun m : Sql SyncDb Unit => (m (s.on c)).2.db.contacts)]
    split
    · rfl
    · rw [bind_apply, hchat]
      dsimp only
      generalize (if (s.on c).failing then none
        else some ((s.on c).db.chats id).isSome).getD false = present
      cases present with
      | true => rfl
      | false => exact applyOpChatUpdate_keeps reply id (s.on c).tick

theorem next_sound_iff {s : Roster} (h : s.Sound) (e : RosterStep) :
    (s.next cj e).Sound ↔ s.Meets cj e := by
  cases e with
  | profile a c => exact iff_of_true (sound_of_keeps h (syncProfile_keeps a (s.on c))) trivial
  | friends a c => exact friends_sound_iff h a c
  | chats a c => exact iff_of_true (sound_of_keeps h (syncChats_keeps (s.on c))) trivial
  | contactUpdate reply mid c => exact applyOpContactUpdate_sound_iff h reply mid rfl
  | chatMetadata reply id c => exact backfillChatMetadata_sound_iff h reply id c
  | others d => exact iff_of_true (sound_of_contacts h rfl) trivial

def fresh (d : SyncDb) : Roster where
  db := { d with contacts := fun _ => none }

theorem fresh_sound (d : SyncDb) : (fresh d).Sound := by
  rintro mid ⟨row, hrow, -⟩
  cases hrow

/-- In every state of a run the friends are those of the last friends fetch exactly if no
step of it stores or leaves another. -/
theorem roster_sound_iff (d : SyncDb) (es : List RosterStep) :
    (∀ fs s, fs <+: es → (machine cj).run (fresh d) fs = some s → s.Sound) ↔
      (machine cj).Meets (Meets cj) (fresh d) es := by
  obtain ⟨t, ht⟩ : ∃ t, (machine cj).run (fresh d) es = some t := by
    generalize fresh d = s
    induction es generalizing s with
    | nil => exact ⟨s, rfl⟩
    | cons e es ih => exact ih (s.next cj e)
  refine Machine.prefixes_iff_meets (fun {s t e} hs hstep => ?_) (fresh_sound d) ht
  obtain rfl : s.next cj e = t := Option.some.inj hstep
  exact next_sound_iff hs e

/-! ## Syncs and events as runs -/

section Runs

variable (cj) in
/-- A program whose effect on the tables is that of a run of steps. -/
def Runs {α : Type} (m : Sql SyncDb α) : Prop :=
  ∀ (c : Conn SyncDb) listed, ∃ es listed',
    (machine cj).run ⟨c.db, listed⟩ es = some ⟨(m c).2.db, listed'⟩

variable {α β : Type}

theorem Runs.step {m : Sql SyncDb α} (e : Conn SyncDb → RosterStep)
    (h : ∀ c listed, (Roster.next cj ⟨c.db, listed⟩ (e c)).db = (m c).2.db) : Runs cj m := by
  intro c listed
  refine ⟨[e c], (Roster.next cj ⟨c.db, listed⟩ (e c)).listed, ?_⟩
  show some (Roster.next cj ⟨c.db, listed⟩ (e c)) = _
  rw [← h c listed]

theorem Runs.others {m : Sql SyncDb α} (h : ∀ c, (m c).2.db.contacts = c.db.contacts) :
    Runs cj m := by
  refine .step (fun c => .others (m c).2.db) fun c listed => ?_
  show { (m c).2.db with contacts := c.db.contacts } = (m c).2.db
  rw [← h c]

theorem Runs.bind {m : Sql SyncDb α} {f : α → Sql SyncDb β} (hm : Runs cj m)
    (hf : ∀ a, Runs cj (f a)) : Runs cj (m >>= f) := by
  intro c listed
  obtain ⟨es, listed', hes⟩ := hm c listed
  obtain ⟨fs, listed'', hfs⟩ := hf (m c).1 (m c).2 listed'
  exact ⟨es ++ fs, listed'', Machine.run_append.mpr ⟨_, hes, hfs⟩⟩

theorem Runs.pure (a : α) : Runs cj (pure a) := .others fun _ => rfl

theorem Runs.onDb (m : Sql Db α) : Runs cj (onDb m) := .others fun _ => rfl

theorem Runs.require {m : Sql SyncDb Rc} (hm : Runs cj m) : Runs cj (require m) := by
  refine hm.bind fun rc => ?_
  split
  · exact .pure _
  · exact .pure _

theorem Runs.andThen {m : Sql SyncDb (Option α)} {f : α → Sql SyncDb (Option β)} (hm : Runs cj m)
    (hf : ∀ a, Runs cj (f a)) : Runs cj (andThen m f) := by
  refine hm.bind fun r => ?_
  cases r with
  | none => exact .pure _
  | some a => exact hf a

theorem syncPhaseAccount_runs (a : Replies) : Runs cj (Fetch.syncPhaseAccount cj a) := by
  refine .andThen (.step (fun c => .profile a c) fun _ _ => rfl) fun _ => ?_
  refine .andThen (.step (fun c => .friends a c) fun _ _ => rfl) fun _ => ?_
  refine .andThen (.step (fun c => .chats a c) fun _ _ => rfl) fun _ => ?_
  unfold syncBoxes
  cases talkGetMessageBoxes cj a.boxPages with
  | none => exact .pure _
  | some boxes => exact .andThen (.require (.onDb _)) fun _ => .pure _

/-- A full sync is a run. -/
theorem syncAll_runs (a : Replies) (rest : SyncRest) (snapshot file : Option Fields)
    (w : WriteResult) : Runs cj (Fetch.syncAll cj a rest snapshot file w) := by
  unfold Fetch.syncAll
  dsimp only
  cases snapshot with
  | none => exact .pure _
  | some snapshot =>
    dsimp only
    split
    · exact .pure _
    · have hphases : Runs cj (phases cj a rest) := by
        refine .andThen (syncPhaseAccount_runs a) fun boxes => ?_
        refine .andThen (.require (.onDb _)) fun _ => ?_
        exact .andThen (.require (.onDb _)) fun _ => .require (.pure _)
      refine hphases.bind fun r => ?_
      cases r with
      | none => exact .pure _
      | some u =>
        dsimp only
        unfold Fetch.syncPhaseFinish
        split
        · exact .pure _
        · refine .bind (.others fun c => ?_) fun rc => ?_
          · rw [exec_db]
            split <;> rfl
          · dsimp only
            split <;> exact .pure _

theorem sseMessageNamed_runs (remote : Remote) (reply : LineResponse) (root : Json)
    (op : TalkOperation) (myMid : Option String) :
    Runs cj (sseMessageNamed cj remote reply root op myMid) := by
  unfold sseMessageNamed
  split
  · rename_i m _ _ _
    split
    · refine .bind (.onDb _) fun rc => ?_
      split
      · exact .pure _
      · refine .bind (.step (fun c => .chatMetadata reply (m.chatId.getD "") c) fun _ _ => rfl) ?_
        exact fun _ => .onDb _
    · exact .pure _
  · exact .pure _

/-- An event is a run. -/
theorem processSseEvent_runs (myMid : Option String) (remote : Remote) (reply : LineResponse)
    (eventType : String) (root : Option Json) :
    Runs cj (Fetch.processSseEvent cj myMid remote reply eventType root) := by
  unfold Fetch.processSseEvent
  split
  · exact .pure _
  · cases root with
    | none => exact .pure _
    | some root =>
      dsimp only
      split
      · exact .step (fun c => .contactUpdate reply _ c) fun _ _ => rfl
      · exact .others fun c => applyOpChatUpdate_keeps reply _ c
      · exact .others fun c => applyOpChatUpdate_keeps reply _ c
      · exact sseMessageNamed_runs remote reply root _ myMid
      · exact sseMessageNamed_runs remote reply root _ myMid
      · exact .onDb _

end Runs

/-! ## A member of a group whose profile changes -/

/-- The public profile of someone who is no friend. -/
def memberProfile : Json :=
  okReply (.obj [("contacts", .obj [("u9", .obj [("contact", .obj [("displayName", .str "Mia")])])])])

def memberJson : Cjson := textsOf [okReply (.arr [.str "u1"]), memberProfile]

/-- A friends fetch that lists nobody, and the operation 49 of the member. -/
def memberUpdated : List RosterStep :=
  [.friends friendLost { db := emptyAccount },
    .contactUpdate ⟨200, some memberProfile.printUnformatted⟩ "u9" { db := emptyAccount }]

theorem member_registered : ¬ ∀ (cj : Cjson) (d : SyncDb) (es : List RosterStep) (s : Roster),
    (machine cj).run (fresh d) es = some s → s.Sound := by
  intro hall
  have hrow : ((memberUpdated.foldl (next memberJson) (fresh emptyAccount)).db.contacts "u9").map
      TalkContact.registered = some true := by
    decide
  obtain ⟨row, hrow, hreg⟩ := Option.map_eq_some_iff.mp hrow
  have hlisted := hall memberJson emptyAccount memberUpdated _ rfl "u9" ⟨row, hrow, hreg⟩
  revert hlisted
  decide

end Roster

end Enil
