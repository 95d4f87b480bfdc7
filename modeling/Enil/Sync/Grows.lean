import Enil.Sync.Effect

/-!
# What no event takes away

Rows stay once they are there, stored text and REPLACE are never lost, and read
marks never go back: `Grows` between the database before and after every event.
-/

namespace Enil

open Lib Db

/-- A stored row keeps its chat, and has text and REPLACE once it had them. -/
structure RowGrows (r r' : MessageRow) : Prop where
  chatId : r'.chatId = r.chatId
  text : nonempty r.text → nonempty r'.text
  replace : replaceMissing r' → replaceMissing r

theorem RowGrows.refl (r : MessageRow) : RowGrows r r := ⟨rfl, id, id⟩

theorem RowGrows.trans {a b c : MessageRow} (h : RowGrows a b) (h' : RowGrows b c) :
    RowGrows a c :=
  ⟨h'.chatId.trans h.chatId, fun ht => h'.text (h.text ht), fun hr => h.replace (h'.replace hr)⟩

/-- A read time that is not there or not later than another one. -/
def timeLe : Option Int → Option Int → Prop
  | none, _ => True
  | some t, some t' => t ≤ t'
  | some _, none => False

theorem timeLe.refl : ∀ t, timeLe t t
  | none => trivial
  | some t => le_refl t

theorem timeLe.trans : ∀ {a b c : Option Int}, timeLe a b → timeLe b c → timeLe a c
  | none, _, _, _, _ => trivial
  | some _, some _, some _, h, h' => Int.le_trans h h'
  | some _, some _, none, _, h' => h'.elim
  | some _, none, _, h, _ => h.elim

structure Grows (d d' : Db) : Prop where
  row : ∀ id r, d.messages id = some r → ∃ r', d'.messages id = some r' ∧ RowGrows r r'
  box : ∀ chat b, d.messageBoxes chat = some b →
    ∃ b', d'.messageBoxes chat = some b' ∧ timeLe b.peerLastReadTime b'.peerLastReadTime
  reader : ∀ k, timeLe (d.messageBoxReaders k) (d'.messageBoxReaders k)

theorem Grows.refl (d : Db) : Grows d d :=
  ⟨fun _ r h => ⟨r, h, .refl r⟩, fun _ b h => ⟨b, h, timeLe.refl _⟩, fun _ => timeLe.refl _⟩

theorem Grows.trans {a b c : Db} (h : Grows a b) (h' : Grows b c) : Grows a c := by
  refine ⟨fun id r hr => ?_, fun chat x hx => ?_, fun k => (h.reader k).trans (h'.reader k)⟩
  · obtain ⟨r1, h1, g1⟩ := h.row id r hr
    obtain ⟨r2, h2, g2⟩ := h'.row id r1 h1
    exact ⟨r2, h2, g1.trans g2⟩
  · obtain ⟨x1, h1, g1⟩ := h.box chat x hx
    obtain ⟨x2, h2, g2⟩ := h'.box chat x1 h1
    exact ⟨x2, h2, g1.trans g2⟩

namespace StoreMessage

variable (e : StoreMessage)

theorem overwriteOrFillRow_some {arr : List Json}
    (h : reactionsExtractForStorage e.message = some arr) (r : MessageRow) :
    e.overwriteOrFillRow r = { r with reactionsJson := arr } := by
  unfold overwriteOrFillRow; rw [h]

theorem overwriteOrFillRow_none (h : reactionsExtractForStorage e.message = none)
    (r : MessageRow) : e.overwriteOrFillRow r =
      if nonempty e.message.text && !nonempty r.text then fillTextColumns e.message r else r := by
  unfold overwriteOrFillRow; rw [h]

/-- A message with text and no reactions field leaves a row with text. -/
theorem overwriteOrFillRow_text (h : reactionsExtractForStorage e.message = none)
    (ht : nonempty e.message.text) (r : MessageRow) :
    nonempty (e.overwriteOrFillRow r).text := by
  rw [e.overwriteOrFillRow_none h, ht, Bool.true_and]
  split
  · exact ht
  · rename_i hr; simpa using hr

theorem overwriteOrFillRow_of_text {r : MessageRow} (h : reactionsExtractForStorage e.message = none)
    (ht : nonempty r.text) : e.overwriteOrFillRow r = r := by
  rw [e.overwriteOrFillRow_none h, ht]; simp

/-- A REPLACE that is there stays. -/
theorem replaceRow_of_not_missing {r : MessageRow} (h : replaceMissing r = false) :
    e.replaceRow r = r := by
  unfold replaceRow
  split
  · rw [h]; simp
  · rfl

/-- A message with a REPLACE leaves a row with one; without it nothing is written. -/
theorem replaceRow_cases :
    (∀ r, e.replaceRow r = r) ∨ ∃ replace, (∀ r, replaceMissing (e.replaceRow r) = false) ∧
      ∀ r, replaceMissing r → e.replaceRow r = { r with replaceJson := some replace } := by
  cases hrep : messageReplaceJson e.message with
  | none => left; intro r; unfold replaceRow; rw [hrep]
  | some replace =>
    cases hempty : replace.isEmpty with
    | true => left; intro r; unfold replaceRow; simp [hrep, hempty]
    | false =>
      right
      have hrow : ∀ r, replaceMissing r → e.replaceRow r = { r with replaceJson := some replace } :=
        fun r hm => by unfold replaceRow; simp [hrep, hempty, hm]
      refine ⟨replace, fun r => ?_, hrow⟩
      cases hm : replaceMissing r with
      | true => rw [hrow r hm]; simp [replaceMissing, hempty]
      | false => rw [e.replaceRow_of_not_missing hm]; exact hm

theorem overwriteOrFillRow_grows (r : MessageRow) : RowGrows r (e.overwriteOrFillRow r) := by
  unfold overwriteOrFillRow
  split
  · exact ⟨rfl, id, id⟩
  · split
    · rename_i h
      rw [Bool.and_eq_true] at h
      exact ⟨rfl, fun _ => h.1, id⟩
    · exact .refl r

theorem replaceRow_grows (r : MessageRow) : RowGrows r (e.replaceRow r) := by
  unfold replaceRow
  split
  · split
    · rename_i replace _ h
      rw [Bool.and_eq_true] at h
      refine ⟨rfl, id, fun hm => ?_⟩
      simp only [replaceMissing, Option.all_some] at hm
      rw [hm] at h
      exact absurd h.1 (by simp)
    · exact .refl r
  · exact .refl r

/-- The decryption writes only where there is no text to lose. -/
theorem decryptRow_grows {r r' : MessageRow} (h : e.decryptRow r = some r') : RowGrows r r' := by
  unfold decryptRow at h
  split at h
  · cases h; exact .refl r
  · rename_i ht
    obtain ⟨w, -, rfl⟩ := Option.map_eq_some_iff.mp h
    cases w with
    | text t status => exact ⟨rfl, fun h => absurd h ht, id⟩
    | plaintext t raw replace =>
      refine ⟨rfl, fun h => absurd h ht, fun hm => ?_⟩
      simp [replaceMissing, DecryptWrite.apply, JsonText.isEmpty] at hm
    | encKm km => exact ⟨rfl, id, id⟩

theorem mediaRow_grows (r : MessageRow) : RowGrows r (e.mediaRow r) := by
  unfold mediaRow
  cases e.media with
  | none => exact .refl r
  | some info => exact ⟨rfl, id, id⟩

theorem upsertRow_some (r : MessageRow) :
    e.upsertRow (some r) = e.replaceRow (e.overwriteOrFillRow r) := rfl

theorem stepRow_eq_some {old : Option MessageRow} {r' : MessageRow} :
    e.stepRow old = some r' ↔
      ∃ r, e.decryptRow (e.upsertRow old) = some r ∧ e.mediaRow r = r' :=
  Option.map_eq_some_iff

theorem stepRow_grows {r r' : MessageRow} (h : e.stepRow (some r) = some r') : RowGrows r r' := by
  obtain ⟨r1, h1, rfl⟩ := e.stepRow_eq_some.mp h
  exact ((e.overwriteOrFillRow_grows r).trans (e.replaceRow_grows _)).trans
    ((e.decryptRow_grows h1).trans (e.mediaRow_grows r1))

end StoreMessage

theorem upsertReader_grows (k k' : String × String) (t : Int)
    (readers : Table (String × String) Int) :
    timeLe (readers k') ((upsertReader k t readers).2 k') := by
  by_cases hk : k' = k
  · subst hk
    rw [upsertReader_same]
    cases readers k' with
    | none => trivial
    | some t' => exact Int.le_max_left _ _
  · rw [upsertReader_of_ne _ _ hk]
    exact timeLe.refl _

/-- One row changes, and only grows. -/
theorem grows_setRow {d : Db} {id : String} {r r' : MessageRow} (hr : d.messages id = some r)
    (h : RowGrows r r') : Grows d (d.setRow id r') := by
  refine ⟨fun id' r0 hr0 => ?_, fun _ b hb => ⟨b, hb, timeLe.refl _⟩, fun _ => timeLe.refl _⟩
  by_cases hid : id' = id
  · subst hid
    rw [hr, Option.some.injEq] at hr0
    subst hr0
    exact ⟨r', setRow_messages_self _ _ _, h⟩
  · exact ⟨r0, by rw [setRow_messages_of_ne _ _ hid]; exact hr0, .refl _⟩

/-- A row that was not there is written. -/
theorem grows_setRow_none {d : Db} {id : String} (hr : d.messages id = none) (r' : MessageRow) :
    Grows d (d.setRow id r') := by
  refine ⟨fun id' r0 hr0 => ?_, fun _ b hb => ⟨b, hb, timeLe.refl _⟩, fun _ => timeLe.refl _⟩
  have hid : id' ≠ id := by rintro rfl; rw [hr] at hr0; cases hr0
  exact ⟨r0, by rw [setRow_messages_of_ne _ _ hid]; exact hr0, .refl _⟩

/-- One box changes, and its read time does not go back. -/
theorem grows_setBox {d : Db} {chat : String} {b' : MessageBox}
    (h : ∀ b, d.messageBoxes chat = some b → timeLe b.peerLastReadTime b'.peerLastReadTime) :
    Grows d (d.setBox chat b') := by
  refine ⟨fun _ r hr => ⟨r, hr, .refl r⟩, fun chat' b hb => ?_, fun _ => timeLe.refl _⟩
  by_cases hc : chat' = chat
  · subst hc
    exact ⟨b', setBox_messageBoxes_self _ _ _, h b hb⟩
  · exact ⟨b, by rw [setBox_messageBoxes_of_ne _ _ hc]; exact hb, timeLe.refl _⟩

theorem grows_updateBox {d : Db} {chat : String} {p : MessageBox → Bool}
    {f : MessageBox → MessageBox}
    (h : ∀ b, p b → timeLe b.peerLastReadTime (f b).peerLastReadTime) :
    Grows d (d.onBoxes (·.updateIf chat p f)).2 := by
  cases hb : d.messageBoxes chat with
  | none => rw [onBoxes_updateIf_none hb]; exact .refl d
  | some b =>
    rw [onBoxes_updateIf hb]
    refine grows_setBox fun b' hb' => ?_
    rw [hb, Option.some.injEq] at hb'
    subst hb'
    split
    · exact h b ‹_›
    · exact timeLe.refl _

theorem grows_updateRow {d : Db} {id : String} {f : MessageRow → MessageRow}
    (h : ∀ r, RowGrows r (f r)) : Grows d (d.onMessages (·.update id f)).2 := by
  cases hr : d.messages id with
  | none => rw [onMessages_update_none hr]; exact .refl d
  | some r => rw [onMessages_update hr]; exact grows_setRow hr (h r)

theorem timeLe_of_peerReadDue {t : Int} {b : MessageBox} (h : peerReadDue t b) :
    timeLe b.peerLastReadTime (some t) := by
  unfold peerReadDue at h
  cases hb : b.peerLastReadTime with
  | none => trivial
  | some t' => rw [hb] at h; simpa [timeLe] using h

/-- No event takes a row, stored text or a read mark away. -/
theorem Effect.step_grows {e : Effect} {d d' : Db} (h : e.step d = some d') : Grows d d' := by
  cases e with
  | skip => cases h; exact .refl d
  | seen chat messageId => cases h; exact grows_updateBox fun _ _ => timeLe.refl _
  | deleted id => cases h; exact grows_updateRow fun r => ⟨rfl, fun h => h, fun h => h⟩
  | peerRead chat reader time =>
    cases h
    exact grows_updateBox fun b hb => timeLe_of_peerReadDue hb
  | groupRead chat reader time =>
    cases h
    exact ⟨fun _ r hr => ⟨r, hr, .refl r⟩, fun _ b hb => ⟨b, hb, timeLe.refl _⟩,
      fun k => upsertReader_grows _ k _ _⟩
  | react id reactor entry => cases h; exact grows_updateRow fun r => ⟨rfl, fun h => h, fun h => h⟩
  | store e =>
    obtain ⟨row, hrow, rfl⟩ := Option.map_eq_some_iff.mp h
    have hbox : Grows d (d.setBox e.chatId (e.stepBox d (d.messageBoxes e.chatId))) :=
      grows_setBox fun b hb => by rw [hb]; exact timeLe.refl _
    refine hbox.trans ?_
    cases hr : d.messages e.message.id with
    | none => exact grows_setRow_none (d := d.setBox e.chatId _) hr row
    | some r => exact grows_setRow (d := d.setBox e.chatId _) hr (e.stepRow_grows (hr ▸ hrow))

end Enil
