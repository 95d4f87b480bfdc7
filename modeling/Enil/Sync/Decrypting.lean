import Enil.Lib.Machine
import Enil.Sync.Effect
import Enil.Sync.Unread

/-!
# The decrypting phase beside everything else

A sync decrypts the messages it listed when the phase began, a live event those it found
without text. In between, upserts and other threads write the same rows. A result that
brings no text is written over whatever the row holds by then.
-/

namespace Enil

open Lib Lib.Sql Db

variable {cj : Cjson} {κ : Type}

/-! ## The phase -/

/-- kSQL_GetMessagesNeedingDecrypt for one id. -/
def needingDecrypt (db : Db) (id : String) : Option (String × Json) :=
  (db.messages id).bind fun r =>
    if r.decryptStatus = .pending ∨ r.decryptStatus = .failed then r.rawJson.map fun raw => (id, raw)
    else none

/-- One message of sync_phase_decrypting. Without a session there is no key to decrypt with. -/
def decryptPending (cj : Cjson) (id : String) (msg : Json) (result : DecryptResult) : Sql Db Rc :=
  if isUnsupportedLocationMessage msg then setMessageText id none .notText
  else if isEncrypted msg then
    match result with
    | .plaintext text (some replace) =>
      setMessagePlaintext id text (withReplace cj msg replace) (.printed replace) .success
    | .plaintext text none => setMessageText id (some text) .success
    | .keyMaterial km => setMessageEncKm id km
    | .nothing | .noSession => setMessageText id none .failed
  else setMessageText id none .notText

def setMessageRawJson (messageId : String) (rawJson : Json) (replace : JsonText) : Sql Db Rc :=
  exec (onMessages (·.update messageId fun r =>
    { r with rawJson := some rawJson, replaceJson := some replace }))

/-- The row holds what a decryption or a plaintext message brought. -/
def MessageRow.IsDecrypted (r : MessageRow) : Prop :=
  r.decryptStatus = .plaintext ∨ r.decryptStatus = .success

instance (r : MessageRow) : Decidable r.IsDecrypted := inferInstanceAs (Decidable (_ ∨ _))

/-- The text is not lost, nor the status of a row that is decrypted. -/
structure KeepsRow (r r' : MessageRow) : Prop where
  text : nonempty r.text → nonempty r'.text
  isDecrypted : r.IsDecrypted → r'.IsDecrypted

theorem KeepsRow.refl (r : MessageRow) : KeepsRow r r := ⟨id, id⟩

theorem KeepsRow.trans {a b c : MessageRow} (h : KeepsRow a b) (h' : KeepsRow b c) :
    KeepsRow a c :=
  ⟨fun ht => h'.text (h.text ht), fun hd => h'.isDecrypted (h.isDecrypted hd)⟩

/-- No row loses its plaintext. -/
def KeepsPlaintext (d d' : Db) : Prop :=
  ∀ id r, d.messages id = some r → ∃ r', d'.messages id = some r' ∧ KeepsRow r r'

theorem KeepsPlaintext.refl (d : Db) : KeepsPlaintext d d := fun _ r h => ⟨r, h, .refl r⟩

theorem KeepsPlaintext.trans {a b c : Db} (h : KeepsPlaintext a b) (h' : KeepsPlaintext b c) :
    KeepsPlaintext a c := by
  intro id r hr
  obtain ⟨r₁, hr₁, h₁⟩ := h id r hr
  obtain ⟨r₂, hr₂, h₂⟩ := h' id r₁ hr₁
  exact ⟨r₂, hr₂, h₁.trans h₂⟩

/-- A row with text is decrypted. -/
def TextDecrypted (d : Db) : Prop := ∀ id, ∀ r ∈ d.messages id, nonempty r.text → r.IsDecrypted

theorem onMessages_updateIf_messages (d : Db) (id id' : String) (p : MessageRow → Bool)
    (f : MessageRow → MessageRow) : (d.onMessages (·.updateIf id p f)).2.messages id' =
      if id' = id then (d.messages id').map fun r => if p r then f r else r
      else d.messages id' := by
  by_cases hid : id' = id
  · subst hid
    rw [if_pos rfl]
    exact Table.updateIf_same _ _ _ _
  · rw [if_neg hid]
    exact Table.updateIf_of_ne _ _ _ hid

section Update

variable {d : Db} {id : String} {p : MessageRow → Bool} {f : MessageRow → MessageRow}

theorem keepsPlaintext_updateIf (h : ∀ r ∈ d.messages id, KeepsRow r (if p r then f r else r)) :
    KeepsPlaintext d (d.onMessages (·.updateIf id p f)).2 := by
  intro id' r hr
  rw [onMessages_updateIf_messages]
  by_cases hid : id' = id
  · subst hid
    rw [if_pos rfl, hr]
    exact ⟨_, rfl, h r hr⟩
  · rw [if_neg hid]
    exact ⟨r, hr, .refl r⟩

theorem textDecrypted_updateIf (hd : TextDecrypted d) (h : ∀ r ∈ d.messages id,
    nonempty (if p r then f r else r).text → (if p r then f r else r).IsDecrypted) :
    TextDecrypted (d.onMessages (·.updateIf id p f)).2 := by
  intro id' r' hr'
  rw [onMessages_updateIf_messages, Option.mem_def] at hr'
  by_cases hid : id' = id
  · subst hid
    rw [if_pos rfl, Option.map_eq_some_iff] at hr'
    obtain ⟨r, hr, rfl⟩ := hr'
    exact h r hr
  · rw [if_neg hid] at hr'
    exact hd id' r' hr'

end Update

/-! ## Statements -/

/-- The statements of the upserts and the live events on the rows, but for those that
store what a decryption ended with. -/
inductive RowStatement where
  /-- kSQL_UpsertMessageV2. -/
  | insert (cj : Cjson) (m : TalkMessage) (chatId : String)
  /-- The fill of `enil_db_message_upsert`; it runs for a message with text. -/
  | fillText (m : TalkMessage) (h : nonempty m.text)
  | fillReplace (id : String) (replace : JsonText)
  | reactions (id : String) (arr : List Json)
  | deleted (id : String)
  | media (id chatId : String) (info : Option MediaInfo)
  | rawJson (id : String) (rawJson : Json) (replace : JsonText)
  /-- A statement on another table. -/
  | other (stmt : Db → Nat × Db) (h : ∀ d, (stmt d).2.messages = d.messages)

def RowStatement.run : RowStatement → Db → Nat × Db
  | insert cj m chatId => onMessages (·.insertIgnore m.id (messageRow cj m chatId))
  | fillText m _ => fillMessageText m
  | fillReplace id replace => fillMessageReplaceJson id replace
  | reactions id arr => setReactionsJson id arr
  | deleted id => onMessages (·.update id fun r => { r with isDeleted := true })
  | media id chatId info => onMessages (·.update id (mediaColumns id chatId info))
  | rawJson id raw replace => onMessages (·.update id fun r =>
    { r with rawJson := some raw, replaceJson := some replace })
  | other stmt _ => stmt

/-- The statement is one of these. -/
def IsRowStatement (stmt : Db → Nat × Db) : Prop := ∃ s : RowStatement, s.run = stmt

theorem messageDecryptStatus_of_text {m : TalkMessage} (h : nonempty m.text) :
    messageDecryptStatus m = .plaintext := by
  rw [messageDecryptStatus, if_pos h]

/-- Such a statement loses no plaintext, and gives text only to rows it marks decrypted. -/
theorem RowStatement.keeps (s : RowStatement) (d : Db) : KeepsPlaintext d (s.run d).2 ∧
    (TextDecrypted d → TextDecrypted (s.run d).2) := by
  have hcolumns : ∀ (id : String) (p : MessageRow → Bool) (f : MessageRow → MessageRow),
      (∀ r, (f r).text = r.text ∧ (f r).decryptStatus = r.decryptStatus) →
      KeepsPlaintext d (d.onMessages (·.updateIf id p f)).2 ∧
        (TextDecrypted d → TextDecrypted (d.onMessages (·.updateIf id p f)).2) := by
    intro id p f hf
    have hsame : ∀ r, (if p r then f r else r).text = r.text ∧
        ((if p r then f r else r).IsDecrypted ↔ r.IsDecrypted) := by
      intro r
      split
      · exact ⟨(hf r).1, by unfold MessageRow.IsDecrypted; rw [(hf r).2]⟩
      · exact ⟨rfl, Iff.rfl⟩
    refine ⟨keepsPlaintext_updateIf fun r _ => ⟨?_, (hsame r).2.mpr⟩,
      fun hd => textDecrypted_updateIf hd fun r hr => ?_⟩
    · rw [(hsame r).1]
      exact fun h => h
    · rw [(hsame r).1, (hsame r).2]
      exact hd id r hr
  cases s with
  | insert cj m chatId =>
    have hat : ∀ id, ((insert cj m chatId).run d).2.messages id =
        if id = m.id then some ((d.messages id).getD (messageRow cj m chatId))
        else d.messages id := by
      intro id
      by_cases hid : id = m.id
      · subst hid
        rw [if_pos rfl]
        exact Table.insertIgnore_same _ _ _
      · rw [if_neg hid]
        exact Table.insertIgnore_of_ne _ _ hid
    constructor
    · intro id r hr
      rw [hat, hr]
      exact ⟨r, ite_self _, .refl r⟩
    · intro hd id r hr
      rw [hat, Option.mem_def] at hr
      cases hold : d.messages id with
      | some r' =>
        rw [hold, Option.getD_some, ite_self, Option.some.injEq] at hr
        exact hr ▸ hd id r' hold
      | none =>
        rw [hold, Option.getD_none] at hr
        split at hr
        · obtain rfl := Option.some.inj hr
          exact fun htext => .inl (messageDecryptStatus_of_text htext)
        · cases hr
  | fillText m h =>
    have hfilled := messageDecryptStatus_of_text h
    refine ⟨keepsPlaintext_updateIf fun r _ => ?_, fun hd => textDecrypted_updateIf hd fun r hr => ?_⟩
    · split
      · exact ⟨fun _ => h, fun _ => .inl hfilled⟩
      · exact .refl r
    · split
      · exact fun _ => .inl hfilled
      · exact hd m.id r hr
  | fillReplace id replace => exact hcolumns id _ _ fun r => ⟨rfl, rfl⟩
  | reactions id arr => exact hcolumns id _ _ fun r => ⟨rfl, rfl⟩
  | deleted id => exact hcolumns id _ _ fun r => ⟨rfl, rfl⟩
  | media id chatId info => exact hcolumns id _ _ fun r => ⟨rfl, rfl⟩
  | rawJson id raw replace => exact hcolumns id _ _ fun r => ⟨rfl, rfl⟩
  | other stmt h =>
    have hrow : ∀ id, ((other stmt h).run d).2.messages id = d.messages id :=
      fun id => congrFun (h d) id
    refine ⟨fun id r hr => ⟨r, (hrow id).trans hr, .refl r⟩, fun hd id r hr => ?_⟩
    exact hd id r ((hrow id).symm.trans hr)

/-! ### The programs that are made of them -/

theorem isRowStatement_reactions (id : String) (arr : List Json) :
    IsRowStatement (setReactionsJson id arr) := ⟨.reactions id arr, rfl⟩

/-- A live event stores its message, as a sync and the end of a send do. -/
theorem messageUpsert_built (cj : Cjson) (m : TalkMessage) :
    Built IsRowStatement (messageUpsert cj m) := by
  refine .ite (.pure _) (.bind (.exec ⟨.insert cj m _, rfl⟩) fun rc => .ite (.pure _) ?_)
  refine .bind ?_ fun _ => .bind ?_ fun _ => ?_
  · unfold overwriteReactions
    split
    · exact .bind .changes fun _ =>
        .ite (.discard (.exec (isRowStatement_reactions _ _))) (.pure _)
    · exact .pure _
  · refine .bind .changes fun n => ?_
    split
    · rename_i h
      exact .discard (.exec ⟨.fillText m h.2, rfl⟩)
    · exact .pure _
  · unfold fillReplaceJson
    split
    · exact .ite (.pure _) (.exec ⟨.fillReplace _ _, rfl⟩)
    · exact .pure _

theorem onBoxes_isRowStatement
    (stmt : Table String MessageBox → Nat × Table String MessageBox) :
    IsRowStatement (onBoxes stmt) := ⟨.other (onBoxes stmt) fun _ => rfl, rfl⟩

theorem sseMessage_built (cj : Cjson) (msg : Json) (m : TalkMessage) (chatId : String)
    (myMid : Option String) : Built IsRowStatement (sseMessage cj msg m chatId myMid) := by
  refine .bind (.bind (.exec (onBoxes_isRowStatement _)) fun _ => .ite (.pure _) (.exec ?_))
    fun _ => .ite (.pure _) (messageUpsert_built cj m)
  exact ⟨.other _ fun _ => rfl, rfl⟩

theorem messageReactionsUpdate_built (id reactor : String) (isRemove : Bool) (predefinedType : Int)
    (productId emojiId : Option String) (time : Int) : Built IsRowStatement
      (messageReactionsUpdate id reactor isRemove predefinedType productId emojiId time) := by
  refine .bind (.query _) fun found => ?_
  split
  · exact .pure _
  · exact .pure _
  · exact .ite (.ite (.pure _) (.exec (isRowStatement_reactions _ _)))
      (.exec (isRowStatement_reactions _ _))

theorem syncOneMessageMedia_built (id : String) (outcome : MediaOutcome) :
    Built IsRowStatement (syncOneMessageMedia id outcome) := by
  have hset (chatId : String) (info : Option MediaInfo) :
      Built IsRowStatement (setMediaInfo id chatId info) := .exec ⟨.media id chatId info, rfl⟩
  have hstore (chatId : String) (info : MediaInfo) :
      Built IsRowStatement (storeMediaInfo id chatId info) := .ite (hset _ _) (.pure _)
  refine .ite (.pure _) (.bind (.query _) fun found => ?_)
  split
  · split
    · exact hstore _ _
    · exact .bind (hset _ _) fun _ => .ite (.pure _) (hstore _ _)
    · exact hset _ _
  · exact .pure _

theorem applyOpReaction_built (cj : Cjson) (op : TalkOperation) (myMid : Option String) :
    Built IsRowStatement (applyOpReaction cj op myMid) :=
  .ite (messageReactionsUpdate_built _ _ _ _ _ _ _) (.pure _)

theorem applyOpRead_built (op : TalkOperation) : Built IsRowStatement (applyOpRead op) := by
  refine .ite (.ite ?_ (.ite ?_ (.pure _))) (.pure _)
  · exact .ite (.pure _) (.exec (onBoxes_isRowStatement _))
  · exact .ite (.pure _) (.exec ⟨.other _ fun _ => rfl, rfl⟩)

/-- A live event without a message. -/
theorem applyOp_built (cj : Cjson) (remote : Remote) (root : Json) {op : TalkOperation}
    (myMid : Option String) (h : op.type ≠ .sendMessage ∧ op.type ≠ .receiveMessage) :
    Built IsRowStatement (applyOp cj remote root op myMid) := by
  unfold applyOp
  split
  · exact applyOpRead_built op
  · exact .ite (.exec (onBoxes_isRowStatement _)) (.pure _)
  · exact .ite (.exec ⟨.deleted _, rfl⟩) (.pure _)
  · exact .ite (.exec ⟨.deleted _, rfl⟩) (.pure _)
  · exact .pure _
  · exact .pure _
  · exact .pure _
  · exact applyOpReaction_built cj op myMid
  · exact applyOpReaction_built cj op myMid
  · rename_i hop
    exact absurd hop h.1
  · rename_i hop
    exact absurd hop h.2
  · exact .pure _

/-! ## Decryptions -/

/-- What is stored for a message of the list. -/
def pendingWrite (cj : Cjson) (msg : Json) (result : DecryptResult) : DecryptWrite :=
  (decryptWrite cj msg result).getD (.text none .failed)

/-- The decryption ends without a text or the key of an attachment. -/
def EndsBare (msg : Json) (result : DecryptResult) : Bool :=
  !wantsDecrypt msg || match result with
    | .plaintext t _ => t == ""
    | .keyMaterial _ => false
    | .nothing | .noSession => true

variable (cj) in
theorem pendingWrite_eq (msg : Json) (result : DecryptResult) : ∃ result',
    decryptWrite cj msg result' = some (pendingWrite cj msg result) ∧
      EndsBare msg result' = EndsBare msg result := by
  unfold pendingWrite decryptWrite
  cases hw : wantsDecrypt msg with
  | false => exact ⟨result, rfl, rfl⟩
  | true =>
    rcases result with _ | ⟨t, _ | replace⟩ | km | _
    · exact ⟨.nothing, rfl, rfl⟩
    · exact ⟨.plaintext t none, rfl, rfl⟩
    · exact ⟨.plaintext t (some replace), rfl, rfl⟩
    · exact ⟨.keyMaterial km, rfl, rfl⟩
    · exact ⟨.nothing, rfl, rfl⟩

theorem exec_faults (stmt : Db → Nat × Db) (db : Db) (fails : Bool) :
    (exec stmt { db := db, faults := [fails] }).2.db = if fails then db else (stmt db).2 := by
  cases fails <;> rfl

theorem decryptPending_eq (id : String) (msg : Json) (result : DecryptResult) (db : Db)
    (fails : Bool) : (decryptPending cj id msg result { db := db, faults := [fails] }).2.db =
      if fails then db
      else (db.onMessages (·.update id fun r => (pendingWrite cj msg result).apply r)).2 := by
  have hw : wantsDecrypt msg = (!isUnsupportedLocationMessage msg && isEncrypted msg) := rfl
  unfold decryptPending pendingWrite decryptWrite
  rw [hw]
  cases isUnsupportedLocationMessage msg with
  | true => exact exec_faults _ db fails
  | false =>
    cases isEncrypted msg with
    | false => exact exec_faults _ db fails
    | true =>
      rcases result with _ | ⟨t, _ | replace⟩ | km | _
      all_goals exact exec_faults _ db fails

variable (cj) in
theorem decryptOneMessage_eq (msg : Json) (result : DecryptResult) (db : Db) (fails : Bool) :
    (decryptOneMessage cj msg result { db := db, faults := [fails] }).2.db = db ∨
      ∃ id w, msg.stringItem "id" = some id ∧ decryptWrite cj msg result = some w ∧
        (decryptOneMessage cj msg result { db := db, faults := [fails] }).2.db =
          (db.onMessages (·.update id fun r => w.apply r)).2 := by
  unfold decryptOneMessage decryptWrite
  cases msg.stringItem "id" with
  | none => exact .inl rfl
  | some id =>
    cases fails with
    | true =>
      left
      cases wantsDecrypt msg with
      | false => rfl
      | true => rcases result with _ | ⟨t, _ | replace⟩ | km | _ <;> rfl
    | false =>
      cases wantsDecrypt msg with
      | false => exact .inr ⟨id, _, rfl, rfl, rfl⟩
      | true =>
        rcases result with _ | ⟨t, _ | replace⟩ | km | _
        · exact .inl rfl
        all_goals exact .inr ⟨id, _, rfl, rfl, rfl⟩

/-- A row with no plaintext yet loses nothing, and any row keeps what a text or key is
written over. -/
theorem decryptWrite_keepsRow {msg : Json} {result : DecryptResult} {w : DecryptWrite}
    (h : decryptWrite cj msg result = some w) {r : MessageRow}
    (hr : nonempty r.text → r.IsDecrypted) (hbare : EndsBare msg result → ¬ r.IsDecrypted) :
    KeepsRow r (w.apply r) ∧ (nonempty (w.apply r).text → (w.apply r).IsDecrypted) := by
  have hnone : EndsBare msg result → ∀ r', KeepsRow r r' := fun hb r' =>
    ⟨fun ht => absurd (hr ht) (hbare hb), fun hd => absurd hd (hbare hb)⟩
  have htext (t : String) (hb : t = "" → EndsBare msg result) {r' : MessageRow}
      (ht' : r'.text = some t) (hs : r'.decryptStatus = .success) :
      KeepsRow r r' ∧ (nonempty r'.text → r'.IsDecrypted) := by
    refine ⟨?_, fun _ => .inr hs⟩
    by_cases ht : t = ""
    · exact hnone (hb ht) r'
    · refine ⟨fun _ => ?_, fun _ => .inr hs⟩
      rw [ht']
      simpa [nonempty] using ht
  unfold decryptWrite at h
  unfold EndsBare at hnone htext
  cases hw : wantsDecrypt msg with
  | false =>
    rw [hw] at h hnone
    obtain rfl := Option.some.inj h
    exact ⟨hnone rfl _, fun ht => by cases ht⟩
  | true =>
    rw [hw] at h hnone htext
    rcases result with _ | ⟨t, _ | replace⟩ | km | _
    · cases h
    · obtain rfl := Option.some.inj h
      exact htext t (fun ht => by simp [ht]) rfl rfl
    · obtain rfl := Option.some.inj h
      exact htext t (fun ht => by simp [ht]) rfl rfl
    · obtain rfl := Option.some.inj h
      exact ⟨⟨id, fun _ => .inr rfl⟩, fun _ => .inr rfl⟩
    · obtain rfl := Option.some.inj h
      exact ⟨hnone rfl _, fun ht => by cases ht⟩

/-! ## Threads on one connection -/

structure Rows (κ : Type) where
  db : Db
  /-- The database at each BEGIN or SAVEPOINT that is open, with the thread that opened it. -/
  opened : List (κ × Db) := []
  /-- What a sync has left of the list it made. -/
  pending : κ → List (String × Json) := fun _ => []
  /-- The message a live event found without text. -/
  live : κ → Option Json := fun _ => none

inductive RowStep (κ : Type) where
  | begin (k : κ)
  | commit (k : κ)
  | rollback (k : κ)
  | statement (k : κ) (s : RowStatement)
  /-- The sync makes its list of these ids. -/
  | capture (k : κ) (ids : List String)
  | decrypt (k : κ) (result : DecryptResult) (fails : Bool)
  /-- message_has_plaintext; it fails or finds no text. -/
  | check (k : κ) (id : String) (msg : Json) (fails : Bool)
  | decryptLive (k : κ) (result : DecryptResult) (fails : Bool)

variable [DecidableEq κ]

/-- The threads of an account share its connection, and so its transactions. -/
def rowThreads (cj : Cjson) (κ : Type) [DecidableEq κ] : Machine (Rows κ) (RowStep κ) where
  step st
    | .begin k => some { st with opened := (k, st.db) :: st.opened }
    | .commit _ => match st.opened with
      | [] => none
      | _ :: rest => some { st with opened := rest }
    | .rollback _ => match st.opened with
      | [] => none
      | (_, db) :: rest => some { st with db := db, opened := rest }
    | .statement _ s => some { st with db := (s.run st.db).2 }
    | .capture k ids =>
      some { st with pending := Function.update st.pending k (ids.filterMap (needingDecrypt st.db)) }
    | .decrypt k result fails => match st.pending k with
      | [] => none
      | (id, msg) :: rest => some { st with
        db := (decryptPending cj id msg result { db := st.db, faults := [fails] }).2.db
        pending := Function.update st.pending k rest }
    | .check k id msg fails =>
      let found := (messageHasPlaintext id { db := st.db, faults := [fails] }).1
      some { st with live := Function.update st.live k (if found then none else some msg) }
    | .decryptLive k result fails => (st.live k).map fun msg => { st with
        db := (decryptOneMessage cj msg result { db := st.db, faults := [fails] }).2.db
        live := Function.update st.live k none }

/-- The database without what an open transaction has written. -/
def Rows.committed (st : Rows κ) : Db := (st.opened.getLast?.map Prod.snd).getD st.db

/-- A decryption that ends bare is stored only in a row that is not decrypted by then. -/
def RowStep.Spares (st : Rows κ) : RowStep κ → Prop
  | .decrypt k result _ => ∀ id msg, (st.pending k).head? = some (id, msg) →
    EndsBare msg result → ∀ r ∈ st.db.messages id, ¬ r.IsDecrypted
  | .decryptLive k result _ => ∀ id msg, st.live k = some msg →
    msg.stringItem "id" = some id → EndsBare msg result → ∀ r ∈ st.db.messages id, ¬ r.IsDecrypted
  | .begin _ | .commit _ | .rollback _ | .statement _ _ | .capture _ _ | .check _ _ _ _ => True

/-- No other thread has a transaction open, so that a rollback undoes what its own thread
wrote. -/
def RowStep.Alone (st : Rows κ) : RowStep κ → Prop
  | .begin _ | .decrypt _ _ _ | .decryptLive _ _ _ => st.opened = []
  | .commit k | .rollback k | .statement k _ => ∀ o ∈ st.opened, o.1 = k
  | .capture _ _ | .check _ _ _ _ => True

def RowStep.Undisturbed (st : Rows κ) (e : RowStep κ) : Prop := e.Spares st ∧ e.Alone st

/-- Text is in decrypted rows only, in what a rollback brings back too. -/
structure Rows.Sound (st : Rows κ) : Prop where
  decrypted : TextDecrypted st.db
  opened : ∀ o ∈ st.opened, TextDecrypted o.2

/-- One transaction is open at most, and has lost no text. -/
def Rows.Kept (st : Rows κ) : Prop :=
  st.opened = [] ∨ ∃ k d, st.opened = [(k, d)] ∧ KeepsPlaintext d st.db

omit [DecidableEq κ] in
theorem Rows.Kept.write {st st' : Rows κ} (h : st.Kept) (ho : st'.opened = st.opened)
    (hk : KeepsPlaintext st.db st'.db) :
    st'.Kept ∧ KeepsPlaintext st.committed st'.committed := by
  unfold Rows.Kept Rows.committed
  rw [ho]
  rcases h with hnil | ⟨k, d, hone, hkept⟩
  · rw [hnil]
    exact ⟨.inl rfl, hk⟩
  · rw [hone]
    exact ⟨.inr ⟨k, d, rfl, hkept.trans hk⟩, .refl d⟩

/-- The write of a decryption. -/
theorem decryptWrite_keeps {d : Db} (hd : TextDecrypted d) {id : String} {msg : Json}
    {result : DecryptResult} {w : DecryptWrite} (hw : decryptWrite cj msg result = some w)
    (hbare : EndsBare msg result → ∀ r ∈ d.messages id, ¬ r.IsDecrypted) :
    KeepsPlaintext d (d.onMessages (·.update id fun r => w.apply r)).2 ∧
      TextDecrypted (d.onMessages (·.update id fun r => w.apply r)).2 := by
  have hrow : ∀ r ∈ d.messages id,
      KeepsRow r (w.apply r) ∧ (nonempty (w.apply r).text → (w.apply r).IsDecrypted) :=
    fun r hr => decryptWrite_keepsRow hw (hd id r hr) fun hb => hbare hb r hr
  exact ⟨keepsPlaintext_updateIf fun r hr => (hrow r hr).1,
    textDecrypted_updateIf hd fun r hr => (hrow r hr).2⟩

/-- What a step that is not a rollback writes. -/
theorem rowThreads_keeps {st st' : Rows κ} {e : RowStep κ} (h : st.Sound) (he : e.Spares st)
    (hstep : (rowThreads cj κ).step st e = some st') :
    st'.Sound ∧ ((∀ k, e ≠ .rollback k) → KeepsPlaintext st.db st'.db) := by
  cases e with
  | begin k =>
    obtain rfl := Option.some.inj hstep
    refine ⟨⟨h.decrypted, ?_⟩, fun _ => .refl _⟩
    rw [List.forall_mem_cons]
    exact ⟨h.decrypted, h.opened⟩
  | commit k =>
    simp only [rowThreads] at hstep
    split at hstep
    · cases hstep
    · rename_i o rest ho
      obtain rfl := Option.some.inj hstep
      refine ⟨⟨h.decrypted, fun o' ho' => h.opened o' ?_⟩, fun _ => .refl _⟩
      rw [ho]
      exact List.mem_cons_of_mem _ ho'
  | rollback k =>
    simp only [rowThreads] at hstep
    split at hstep
    · cases hstep
    · rename_i k' d rest ho
      obtain rfl := Option.some.inj hstep
      have hall := h.opened
      rw [ho, List.forall_mem_cons] at hall
      exact ⟨⟨hall.1, hall.2⟩, fun hne => absurd rfl (hne k)⟩
  | statement k s =>
    obtain rfl := Option.some.inj hstep
    obtain ⟨hk, hd⟩ := s.keeps st.db
    exact ⟨⟨hd h.decrypted, h.opened⟩, fun _ => hk⟩
  | capture k ids =>
    obtain rfl := Option.some.inj hstep
    exact ⟨⟨h.decrypted, h.opened⟩, fun _ => .refl _⟩
  | decrypt k result fails =>
    simp only [rowThreads] at hstep
    split at hstep
    · cases hstep
    · rename_i id msg rest hpending
      obtain rfl := Option.some.inj hstep
      rw [decryptPending_eq]
      cases fails with
      | true => exact ⟨⟨h.decrypted, h.opened⟩, fun _ => .refl _⟩
      | false =>
        obtain ⟨result', hw, hends⟩ := pendingWrite_eq cj msg result
        obtain ⟨hk, hd⟩ := decryptWrite_keeps h.decrypted hw fun hb =>
          he id msg (by rw [hpending]; rfl) (hends ▸ hb)
        exact ⟨⟨hd, h.opened⟩, fun _ => hk⟩
  | check k id msg fails =>
    obtain rfl := Option.some.inj hstep
    exact ⟨⟨h.decrypted, h.opened⟩, fun _ => .refl _⟩
  | decryptLive k result fails =>
    obtain ⟨msg, hmsg, rfl⟩ := Option.map_eq_some_iff.mp hstep
    rcases decryptOneMessage_eq cj msg result st.db fails with hdb | ⟨id, w, hid, hw, hdb⟩
    · rw [hdb]
      exact ⟨⟨h.decrypted, h.opened⟩, fun _ => .refl _⟩
    · rw [hdb]
      obtain ⟨hk, hd⟩ := decryptWrite_keeps h.decrypted hw (he id msg hmsg hid)
      exact ⟨⟨hd, h.opened⟩, fun _ => hk⟩

/-- What is committed, where no transaction is shared. -/
theorem rowThreads_committed {st st' : Rows κ} {e : RowStep κ} (h : st.Kept) (he : e.Alone st)
    (hstep : (rowThreads cj κ).step st e = some st')
    (hkeeps : (∀ k, e ≠ .rollback k) → KeepsPlaintext st.db st'.db) :
    st'.Kept ∧ KeepsPlaintext st.committed st'.committed := by
  cases e with
  | begin k =>
    obtain rfl := Option.some.inj hstep
    have ho : st.opened = [] := he
    refine ⟨.inr ⟨k, st.db, by rw [ho], .refl _⟩, ?_⟩
    simp only [Rows.committed, ho]
    exact .refl _
  | commit k =>
    simp only [rowThreads] at hstep
    rcases h with ho | ⟨k', d, ho, hkept⟩
    · rw [ho] at hstep
      cases hstep
    · rw [ho] at hstep
      obtain rfl := Option.some.inj hstep
      refine ⟨.inl rfl, ?_⟩
      simp only [Rows.committed, ho]
      exact hkept
  | rollback k =>
    simp only [rowThreads] at hstep
    rcases h with ho | ⟨k', d, ho, hkept⟩
    · rw [ho] at hstep
      cases hstep
    · rw [ho] at hstep
      obtain rfl := Option.some.inj hstep
      refine ⟨.inl rfl, ?_⟩
      simp only [Rows.committed, ho]
      exact .refl d
  | statement k s =>
    obtain rfl := Option.some.inj hstep
    exact h.write rfl (hkeeps fun _ hr => by cases hr)
  | capture k ids =>
    obtain rfl := Option.some.inj hstep
    exact h.write rfl (.refl _)
  | decrypt k result fails =>
    simp only [rowThreads] at hstep
    split at hstep
    · cases hstep
    · obtain rfl := Option.some.inj hstep
      exact h.write rfl (hkeeps fun _ hr => by cases hr)
  | check k id msg fails =>
    obtain rfl := Option.some.inj hstep
    exact h.write rfl (.refl _)
  | decryptLive k result fails =>
    obtain ⟨msg, hmsg, rfl⟩ := Option.map_eq_some_iff.mp hstep
    exact h.write rfl (hkeeps fun _ hr => by cases hr)

/-- Where no bare result meets a decrypted row, a run comes to a state from which no step but
a rollback loses plaintext; where no transaction is shared either, nothing committed does. -/
theorem plaintext_kept {db : Db} (hdb : TextDecrypted db) {steps : List (RowStep κ)} {st : Rows κ}
    (hspares : (rowThreads cj κ).Meets (fun st e => e.Spares st) { db := db } steps)
    (hrun : (rowThreads cj κ).run { db := db } steps = some st) :
    (∀ e st', RowStep.Spares st e → (rowThreads cj κ).step st e = some st' →
      (∀ k, e ≠ .rollback k) → KeepsPlaintext st.db st'.db) ∧
    ((rowThreads cj κ).Meets (fun st e => e.Undisturbed st) { db := db } steps →
      KeepsPlaintext db st.committed ∧ ∀ e st', RowStep.Undisturbed st e →
        (rowThreads cj κ).step st e = some st' → KeepsPlaintext st.committed st'.committed) := by
  have hsound : Rows.Sound ({ db := db } : Rows κ) := ⟨hdb, fun o ho => by cases ho⟩
  have hst := Machine.run_invariant_of_meets (I := fun st : Rows κ => st.Sound)
    (fun h he hstep => (rowThreads_keeps h he hstep).1) hsound hspares hrun
  refine ⟨fun e st' he hstep => (rowThreads_keeps hst he hstep).2, fun hmeets => ?_⟩
  have hinit : Rows.Sound ({ db := db } : Rows κ) ∧ Rows.Kept ({ db := db } : Rows κ) ∧
      KeepsPlaintext db ({ db := db } : Rows κ).committed := ⟨hsound, .inl rfl, .refl db⟩
  have hall := Machine.run_invariant_of_meets
    (I := fun st : Rows κ => st.Sound ∧ st.Kept ∧ KeepsPlaintext db st.committed)
    (fun h he hstep => by
      obtain ⟨hs, hkeeps⟩ := rowThreads_keeps h.1 he.1 hstep
      obtain ⟨hk, hc⟩ := rowThreads_committed h.2.1 he.2 hstep hkeeps
      exact ⟨hs, hk, h.2.2.trans hc⟩) hinit hmeets hrun
  refine ⟨hall.2.2, fun e st' he hstep => ?_⟩
  exact (rowThreads_committed hall.2.1 he.2 hstep (rowThreads_keeps hst he.1 hstep).2).2

/-- A sealed text as the stream echoes it, and as the end of its send stores it. -/
def echoedText : TalkMessage where
  id := "m1"
  chatId := some "u1"
  raw := .obj [("id", .str "m1"),
    ("chunks", .arr [.str "a", .str "b", .str "c", .str "d", .str "e"]),
    ("contentMetadata", .obj [("e2eeVersion", .str "2")])]

def sentText : TalkMessage := { echoedText with text := some "hello" }

/-- The echo is stored, and a sync lists it and decrypts it. -/
def decryptedEcho : List (RowStep Unit) := [
  .statement () (.insert plainJson echoedText "u1"), .capture () ["m1"],
  .decrypt () (.plaintext "hello" none) false]

theorem decryptedEcho_spares : (rowThreads plainJson Unit).Meets (fun st e => e.Spares st)
    { db := Db.empty } decryptedEcho := by
  refine ⟨trivial, fun st hst => ⟨trivial, fun st' hst' => ⟨?_, fun _ _ => trivial⟩⟩⟩
  obtain rfl := Option.some.inj hst
  obtain rfl := Option.some.inj hst'
  intro id msg hpending hends
  have hmsg : msg = echoedText.raw := by
    obtain ⟨-, rfl⟩ := Prod.mk.inj (Option.some.inj hpending)
    rfl
  have hfull : EndsBare echoedText.raw (.plaintext "hello" none) = false := by decide
  rw [hmsg, hfull] at hends
  cases hends

theorem decryptedEcho_meets : (rowThreads plainJson Unit).Meets (fun st e => e.Undisturbed st)
    { db := Db.empty } decryptedEcho := by
  obtain ⟨hinsert, hrest⟩ := decryptedEcho_spares
  refine ⟨⟨hinsert, fun o ho => (by cases ho)⟩, fun st hst => ?_⟩
  obtain ⟨hcapture, hrest⟩ := hrest st hst
  refine ⟨⟨hcapture, trivial⟩, fun st' hst' => ?_⟩
  obtain ⟨hdecrypt, -⟩ := hrest st' hst'
  obtain rfl := Option.some.inj hst
  obtain rfl := Option.some.inj hst'
  exact ⟨⟨hdecrypt, rfl⟩, fun _ _ => trivial⟩

theorem plaintext_kept_echo : ∃ st,
    (rowThreads plainJson Unit).run { db := Db.empty } decryptedEcho = some st ∧
      (st.db.messages "m1").map MessageRow.text = some (some "hello") ∧
      (∀ e st', RowStep.Spares st e → (rowThreads plainJson Unit).step st e = some st' →
        (∀ k, e ≠ .rollback k) → KeepsPlaintext st.db st'.db) ∧
      KeepsPlaintext Db.empty st.committed ∧ ∀ e st', RowStep.Undisturbed st e →
        (rowThreads plainJson Unit).step st e = some st' →
          KeepsPlaintext st.committed st'.committed := by
  have hrun : ((rowThreads plainJson Unit).run { db := Db.empty } decryptedEcho).map
      (fun st => (st.db.messages "m1").map MessageRow.text) = some (some (some "hello")) := by
    decide
  obtain ⟨st, hst, htext⟩ := Option.map_eq_some_iff.mp hrun
  obtain ⟨hstep, hcommitted⟩ := plaintext_kept (fun _ _ h => by cases h) decryptedEcho_spares hst
  exact ⟨st, hst, htext, hstep, hcommitted decryptedEcho_meets⟩

/-- The list of a sync is older than the text of a send, and a live event is delivered
again after its key was found: a decryption that fails takes them back. -/
theorem plaintext_lost :
    ¬ ∀ (steps : List (RowStep Unit)) (st st' : Rows Unit) (e : RowStep Unit),
      (rowThreads plainJson Unit).run { db := Db.empty } steps = some st →
        (rowThreads plainJson Unit).step st e = some st' → (∀ k, e ≠ .rollback k) →
          KeepsPlaintext st.db st'.db := by
  intro hall
  let steps : List (RowStep Unit) := [.statement () (.insert plainJson echoedText "u1"),
    .capture () ["m1"], .statement () (.fillText sentText rfl)]
  have hrun : (((rowThreads plainJson Unit).run { db := Db.empty } steps).bind fun st =>
      ((rowThreads plainJson Unit).step st (.decrypt () .nothing false)).map fun st' =>
        ((st.db.messages "m1").map MessageRow.text, (st'.db.messages "m1").map MessageRow.text)) =
      some (some (some "hello"), some none) := by
    decide
  obtain ⟨st, hst, hstep⟩ := Option.bind_eq_some_iff.mp hrun
  obtain ⟨st', hst', htexts⟩ := Option.map_eq_some_iff.mp hstep
  obtain ⟨hbefore, hafter⟩ := Prod.mk.inj htexts
  obtain ⟨r, hr, hr'⟩ := Option.map_eq_some_iff.mp hbefore
  obtain ⟨r', hget, hkeeps⟩ := hall steps st st' _ hst hst' (fun _ h => by cases h) "m1" r hr
  rw [hget, Option.map_some, Option.some.injEq] at hafter
  have htext := hkeeps.text
  rw [hr', hafter] at htext
  exact absurd (htext rfl) (by decide)

end Enil
