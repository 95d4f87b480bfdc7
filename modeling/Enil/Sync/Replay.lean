import Enil.Sync.Grows
import Enil.Lib.Replay

/-!
# Replaying the event stream

A sequence of events is applied, then applied again to the result. The relation
`Replaying` between the first run, the replay and the final database says of each
column that the replay has the final value, or the value of the first run at the
same point; reactions, which are edited in place, are split into the entries of
reactors touched so far and the others. What makes it hold is `Grows`. The columns
that an event changes without regard to what is stored (the deletion mark, the
reactions and the unread count) are left out where the event found no row the first
time, or where the count was not the one the event writes.
-/

namespace Enil

open Lib Db

/-! ## The replay of one row -/

namespace MessageRow

/-- The columns no replayed event writes. -/
def core (r : MessageRow) : MessageRow :=
  { r with
    text := none
    rawJson := none
    decryptStatus := .pending
    replaceJson := none
    encKm := none
    mediaPath := none
    origWidth := 0
    origHeight := 0
    thumbPath := none
    thumbWidth := 0
    thumbHeight := 0
    isDeleted := false
    reactionsJson := [] }

def media (r : MessageRow) : Option String × Int × Int × Option String × Int × Int :=
  (r.mediaPath, r.origWidth, r.origHeight, r.thumbPath, r.thumbWidth, r.thumbHeight)

/-- The columns the decryption writes. -/
def content (r : MessageRow) :
    Option String × DecryptStatus × Option Json × Option JsonText × Option String :=
  (r.text, r.decryptStatus, r.rawJson, r.replaceJson, r.encKm)

theorem eq_of_core {r s : MessageRow} (hcore : r.core = s.core) (hcontent : r.content = s.content)
    (hmedia : r.media = s.media) (hdel : r.isDeleted = s.isDeleted)
    (hreact : r.reactionsJson = s.reactionsJson) : r = s := by
  cases r; cases s
  simp only [core, mk.injEq] at hcore
  simp only [content, media, Prod.mk.injEq] at hcontent hmedia
  simp only at hdel hreact
  simp only [mk.injEq]
  tauto

end MessageRow

/-- The reactions of the replay: those of reactors the run has touched as the first
run has them, behind the others as they are in the end. -/
def ReactionsRel (f r s : List Json) : Prop :=
  ∃ touched : Json → Bool,
    f = f.filter (fun j => !touched j) ++ f.filter touched ∧
    r = s.filter (fun j => !touched j) ++ f.filter touched

theorem ReactionsRel.final {r s : List Json} (h : ReactionsRel s r s) : r = s := by
  obtain ⟨touched, hs, hr⟩ := h
  rw [hr, ← hs]

theorem ReactionsRel.start (f s : List Json) : ReactionsRel f s s :=
  ⟨fun _ => false, by simp, by simp⟩

/-- Both runs overwrite the reactions. -/
theorem ReactionsRel.overwrite (arr s : List Json) : ReactionsRel arr arr s :=
  ⟨fun _ => true, by simp, by simp⟩

theorem isReactor_reactionEntry (reactor : String) (predefinedType : Int)
    (productId emojiId : Option String) (time : Int) :
    isReactor reactor (reactionEntry reactor predefinedType productId emojiId time) = true := by
  simp [isReactor, reactionEntry, Json.stringItem, Json.getObjectItem, Json.keyEq_refl,
    Json.getStringValue]

/-- After a change the entries of touched reactors are the old ones without those of
this reactor, and the new entry. -/
theorem filter_touched_reactRow {reactor : String} {entry : Option Json}
    (hentry : ∀ j ∈ entry, isReactor reactor j = true) (touched : Json → Bool) (f : List Json) :
    (reactRow reactor entry f).filter (fun j => touched j || isReactor reactor j) =
      (f.filter touched).filter (fun j => !isReactor reactor j) ++ entry.toList := by
  have he : entry.toList.filter (fun j => touched j || isReactor reactor j) = entry.toList :=
    List.filter_eq_self.mpr fun j hj => by
      rw [hentry j (Option.mem_toList.mp hj), Bool.or_true]
  rw [reactRow, List.filter_append, he, List.filter_filter, List.filter_filter]
  congr 1
  refine List.filter_congr fun j _ => ?_
  cases touched j <;> cases isReactor reactor j <;> rfl

theorem filter_untouched_reactRow {reactor : String} {entry : Option Json}
    (hentry : ∀ j ∈ entry, isReactor reactor j = true) (touched : Json → Bool) (f : List Json) :
    (reactRow reactor entry f).filter (fun j => !(touched j || isReactor reactor j)) =
      (f.filter fun j => !touched j).filter (fun j => !isReactor reactor j) := by
  have he : entry.toList.filter (fun j => !(touched j || isReactor reactor j)) = [] :=
    List.filter_eq_nil_iff.mpr fun j hj => by
      rw [hentry j (Option.mem_toList.mp hj), Bool.or_true]; simp
  rw [reactRow, List.filter_append, he, List.append_nil, List.filter_filter, List.filter_filter]
  refine List.filter_congr fun j _ => ?_
  cases touched j <;> cases isReactor reactor j <;> rfl

/-- One reaction change on both sides. -/
theorem ReactionsRel.react {f r s : List Json} (h : ReactionsRel f r s) (reactor : String)
    {entry : Option Json} (hentry : ∀ j ∈ entry, isReactor reactor j = true) :
    ReactionsRel (reactRow reactor entry f) (reactRow reactor entry r) s := by
  obtain ⟨touched, hf, hr⟩ := h
  refine ⟨fun j => touched j || isReactor reactor j, ?_, ?_⟩
  · rw [filter_untouched_reactRow hentry, filter_touched_reactRow hentry, ← List.append_assoc,
      ← List.filter_append, ← hf]
    rfl
  · have hs : s.filter (fun j => !(touched j || isReactor reactor j)) =
        (s.filter fun j => !touched j).filter fun j => !isReactor reactor j := by
      rw [List.filter_filter]
      refine List.filter_congr fun j _ => ?_
      cases touched j <;> cases isReactor reactor j <;> rfl
    rw [filter_touched_reactRow hentry, hs, ← List.append_assoc, ← List.filter_append, ← hr]
    rfl

/-- Two rows that are the same, their deletion and their reactions where these are
asked about. -/
structure SameRow (deletes reacts : Prop) (r s : MessageRow) : Prop where
  others : { r with isDeleted := s.isDeleted, reactionsJson := s.reactionsJson } = s
  isDeleted : deletes → r.isDeleted = s.isDeleted
  reactions : reacts → r.reactionsJson = s.reactionsJson

/-- The replay of a row that is there in the first run, with its deletion and its
reactions where these are asked about. -/
structure RowRel (deletes reacts : Prop) (f r s : MessageRow) : Prop where
  core : r.core = s.core
  text : Pick (·.text) f r s
  status : Pick (·.decryptStatus) f r s
  rawJson : Pick (·.rawJson) f r s
  replace : Pick (·.replaceJson) f r s
  encKm : Pick (·.encKm) f r s
  media : Pick (·.media) f r s
  deleted : deletes → Pick (·.isDeleted) f r s
  reactions : reacts → ReactionsRel f.reactionsJson r.reactionsJson s.reactionsJson
  /-- A message that ends with a text is not written again. -/
  settled : nonempty s.text → r.content = s.content

namespace RowRel

variable {deletes reacts : Prop} {f r s f' r' : MessageRow}

theorem start (f s : MessageRow) : RowRel deletes reacts f s s :=
  ⟨rfl, .inl rfl, .inl rfl, .inl rfl, .inl rfl, .inl rfl, .inl rfl, fun _ => .inl rfl,
    fun _ => .start _ _, fun _ => rfl⟩

/-- Where the first run has ended, the columns that are asked about are the same. -/
theorem final (h : RowRel deletes reacts s r s) : SameRow deletes reacts r s := by
  refine ⟨MessageRow.eq_of_core h.core ?_ h.media.final rfl rfl,
    fun hd => (h.deleted hd).final, fun hq => (h.reactions hq).final⟩
  simp only [MessageRow.content, h.text.final, h.status.final, h.rawJson.final,
    h.replace.final, h.encKm.final]

/-- Once the first run has the text of the end, the replay is settled. -/
theorem of_settled (h : RowRel deletes reacts f r s) (ht : nonempty s.text) (hmedia : f'.media = f.media)
    (hdel : f'.isDeleted = f.isDeleted) (hreact : f'.reactionsJson = f.reactionsJson) :
    RowRel deletes reacts f' r s := by
  have hc := h.settled ht
  simp only [MessageRow.content, Prod.mk.injEq] at hc
  obtain ⟨htext, hstatus, hraw, hrep, hkm⟩ := hc
  exact ⟨h.core, .inl htext, .inl hstatus, .inl hraw, .inl hrep, .inl hkm,
    h.media.keep hmedia rfl, fun hd => (h.deleted hd).keep hdel rfl,
    by rw [hreact]; exact h.reactions, h.settled⟩

/-- The text of the replay is there only where that of the end is. -/
theorem nonempty_text (h : RowRel deletes reacts f r s) (hg : RowGrows f s) (ht : nonempty r.text) :
    nonempty s.text := by
  rcases h.text with heq | heq
  · simp only at heq; rwa [← heq]
  · simp only at heq; exact hg.text (heq ▸ ht)

variable (e : StoreMessage)

theorem overwriteOrFillRow (h : RowRel deletes reacts f r s) (hg : RowGrows (e.overwriteOrFillRow f) s) :
    RowRel deletes reacts (e.overwriteOrFillRow f) (e.overwriteOrFillRow r) s := by
  cases hx : reactionsExtractForStorage e.message with
  | some arr =>
    rw [e.overwriteOrFillRow_some hx, e.overwriteOrFillRow_some hx]
    exact ⟨h.core, h.text, h.status, h.rawJson, h.replace, h.encKm, h.media, h.deleted,
      fun _ => .overwrite arr _, h.settled⟩
  | none =>
    cases ht : nonempty e.message.text with
    | false => simpa [e.overwriteOrFillRow_none hx, ht] using h
    | true =>
      -- The first run has text now, so the end has, and the replay has it already.
      have hs : nonempty s.text := hg.text (e.overwriteOrFillRow_text hx ht f)
      have hr : nonempty r.text := by
        have hc := h.settled hs
        simp only [MessageRow.content, Prod.mk.injEq] at hc
        rw [hc.1]; exact hs
      rw [e.overwriteOrFillRow_of_text hx hr, e.overwriteOrFillRow_none hx]
      split
      · exact h.of_settled hs rfl rfl rfl
      · exact h

theorem replaceRow (h : RowRel deletes reacts f r s) (hg : RowGrows (e.replaceRow f) s) :
    RowRel deletes reacts (e.replaceRow f) (e.replaceRow r) s := by
  obtain hsame | ⟨replace, hthere, hfill⟩ := e.replaceRow_cases
  · rw [hsame, hsame]; exact h
  have hs : replaceMissing s = false := by
    rw [Bool.eq_false_iff]
    intro hm
    have hf := hg.replace hm
    rw [hthere f] at hf; cases hf
  have hrs : replaceMissing r → ¬ r.replaceJson = s.replaceJson := by
    intro hm heq
    rw [replaceMissing, heq] at hm
    exact absurd hm (by rw [Bool.not_eq_true]; exact hs)
  cases hr : replaceMissing r with
  | true =>
    -- Neither run has a REPLACE yet: both take the one of the message.
    have heq : r.replaceJson = f.replaceJson := h.replace.resolve_left (hrs hr)
    have hf : replaceMissing f = true := by rw [replaceMissing, ← heq]; exact hr
    rw [hfill f hf, hfill r hr]
    refine ⟨h.core, h.text, h.status, h.rawJson, .write rfl, h.encKm, h.media, h.deleted,
      h.reactions, fun ht => ?_⟩
    have hc := h.settled ht
    simp only [MessageRow.content, Prod.mk.injEq] at hc
    exact absurd hc.2.2.2.1 (hrs hr)
  | false =>
    rw [e.replaceRow_of_not_missing hr]
    cases hf : replaceMissing f with
    | false => rw [e.replaceRow_of_not_missing hf]; exact h
    | true =>
      have heq : r.replaceJson = s.replaceJson := h.replace.resolve_right fun heq => by
        rw [replaceMissing, show r.replaceJson = f.replaceJson from heq] at hr
        exact absurd hf (by rw [Bool.not_eq_true]; exact hr)
      rw [hfill f hf]
      exact ⟨h.core, h.text, h.status, h.rawJson, .inl heq, h.encKm, h.media, h.deleted,
        h.reactions, h.settled⟩

theorem of_decryptWrite (h : RowRel deletes reacts f r s) (w : DecryptWrite) (ht : ¬ nonempty s.text) :
    RowRel deletes reacts (w.apply f) (w.apply r) s := by
  cases w with
  | text t status =>
    exact ⟨h.core, .write rfl, .write rfl, h.rawJson, h.replace, h.encKm, h.media, h.deleted,
      h.reactions, fun hs => absurd hs ht⟩
  | plaintext t raw replace =>
    exact ⟨h.core, .write rfl, .write rfl, .write rfl, .write rfl, h.encKm, h.media, h.deleted,
      h.reactions, fun hs => absurd hs ht⟩
  | encKm km =>
    exact ⟨h.core, h.text, .write rfl, h.rawJson, h.replace, .write rfl, h.media, h.deleted,
      h.reactions, fun hs => absurd hs ht⟩

theorem decryptWrite_keeps (w : DecryptWrite) (f : MessageRow) : (w.apply f).media = f.media ∧
    (w.apply f).isDeleted = f.isDeleted ∧ (w.apply f).reactionsJson = f.reactionsJson := by
  cases w <;> exact ⟨rfl, rfl, rfl⟩

/-- The replay decrypts exactly where it has no text, and there the first run did. -/
theorem decryptRow (h : RowRel deletes reacts f r s) (hgf : RowGrows f s) (hf : e.decryptRow f = some f') :
    ∃ r', e.decryptRow r = some r' ∧ RowRel deletes reacts f' r' s := by
  by_cases hs : nonempty s.text
  · have hr : nonempty r.text := by
      have hc := h.settled hs
      simp only [MessageRow.content, Prod.mk.injEq] at hc
      rw [hc.1]; exact hs
    refine ⟨r, by rw [StoreMessage.decryptRow, if_pos hr], ?_⟩
    unfold StoreMessage.decryptRow at hf
    split at hf
    · cases hf; exact h
    · obtain ⟨w, -, rfl⟩ := Option.map_eq_some_iff.mp hf
      obtain ⟨hm, hd, hre⟩ := decryptWrite_keeps w f
      exact h.of_settled hs hm hd hre
  · have hr : ¬ nonempty r.text := fun hr => hs (h.nonempty_text hgf hr)
    have hft : ¬ nonempty f.text := fun hft => hs (hgf.text hft)
    rw [StoreMessage.decryptRow, if_neg hft] at hf
    obtain ⟨w, hw, rfl⟩ := Option.map_eq_some_iff.mp hf
    exact ⟨w.apply r, by rw [StoreMessage.decryptRow, if_neg hr, hw]; rfl, h.of_decryptWrite w hs⟩

theorem mediaRow (h : RowRel deletes reacts f r s) (hg : RowGrows f s) :
    RowRel deletes reacts (e.mediaRow f) (e.mediaRow r) s := by
  unfold StoreMessage.mediaRow
  cases e.media with
  | none => exact h
  | some info =>
    have hcore : r.chatId = s.chatId := by
      have h := h.core
      simp only [MessageRow.core, MessageRow.mk.injEq] at h
      tauto
    refine ⟨h.core, h.text, h.status, h.rawJson, h.replace, h.encKm, .write ?_, h.deleted,
      h.reactions, h.settled⟩
    simp only [Option.elim_some, hcore, hg.chatId]
    rfl

/-- The delivery that inserts the row in the first run finds the row of the end in
the replay. -/
theorem inserted (h : RowRel deletes reacts s r s) (hg : RowGrows e.row s) :
    RowRel deletes reacts e.row (e.upsertRow (some r)) s := by
  obtain ⟨cj, hrow⟩ := e.row_eq
  have hover : RowRel deletes reacts e.row (e.overwriteOrFillRow r) s := by
    cases hx : reactionsExtractForStorage e.message with
    | some arr =>
      rw [e.overwriteOrFillRow_some hx]
      have harr : e.row.reactionsJson = arr := by rw [hrow]; simp [messageRow, hx]
      exact ⟨h.core, .inl h.text.final, .inl h.status.final, .inl h.rawJson.final,
        .inl h.replace.final, .inl h.encKm.final, .inl h.media.final,
        fun hd => .inl (h.deleted hd).final, fun _ => by rw [harr]; exact .overwrite arr _,
        h.settled⟩
    | none =>
      have hkeep : e.overwriteOrFillRow r = r := by
        rw [e.overwriteOrFillRow_none hx, if_neg]
        intro hfill
        rw [Bool.and_eq_true] at hfill
        have htext : e.row.text = e.message.text := by rw [hrow]; rfl
        have hs := hg.text (by rw [htext]; exact hfill.1)
        rw [← show r.text = s.text from h.text.final] at hs
        simp [hs] at hfill
      rw [hkeep]
      exact ⟨h.core, .inl h.text.final, .inl h.status.final, .inl h.rawJson.final,
        .inl h.replace.final, .inl h.encKm.final, .inl h.media.final,
        fun hd => .inl (h.deleted hd).final,
        fun hq => by rw [(h.reactions hq).final]; exact .start _ _, h.settled⟩
  have hkeep : e.replaceRow e.row = e.row := by rw [hrow]; exact replaceRow_messageRow e _
  have h := hover.replaceRow e (by rw [hkeep]; exact hg)
  rw [hkeep] at h
  exact h

end RowRel

/-- One delivery on a row: where it was there in the first run, and where it was
inserted. -/
theorem stepRow_replay {deletes reacts : Prop} {e : StoreMessage} {old : Option MessageRow}
    {r s f' : MessageRow} (hrel : OptRel (RowRel deletes reacts) old (some r) (some s))
    (hf : e.stepRow old = some f') (hg : RowGrows f' s) :
    ∃ r', e.stepRow (some r) = some r' ∧ RowRel deletes reacts f' r' s := by
  obtain ⟨f1, hf1, rfl⟩ := e.stepRow_eq_some.mp hf
  have hg1 : RowGrows f1 s := (e.mediaRow_grows f1).trans hg
  have hgu : RowGrows (e.upsertRow old) s := (e.decryptRow_grows hf1).trans hg1
  have hup : RowRel deletes reacts (e.upsertRow old) (e.upsertRow (some r)) s := by
    cases old with
    | none => exact .inserted e hrel hgu
    | some f =>
      have hgo : RowGrows (e.overwriteOrFillRow f) s := (e.replaceRow_grows _).trans hgu
      exact (RowRel.overwriteOrFillRow e hrel hgo).replaceRow e hgu
  obtain ⟨r1, hr1, h1⟩ := hup.decryptRow e hgu hf1
  exact ⟨e.mediaRow r1, e.stepRow_eq_some.mpr ⟨r1, hr1, rfl⟩, h1.mediaRow e hg1⟩

/-! ## The replay of one box -/

theorem peerReadDue_of_some {b : MessageBox} {t time : Int} (h : b.peerLastReadTime = some t) :
    peerReadDue time b ↔ t ≤ time := by
  simp [peerReadDue, h]

theorem exists_of_not_peerReadDue {b : MessageBox} {time : Int} (h : ¬ peerReadDue time b) :
    ∃ t, b.peerLastReadTime = some t ∧ time < t := by
  cases hb : b.peerLastReadTime with
  | none => simp [peerReadDue, hb] at h
  | some t =>
    rw [peerReadDue_of_some hb, Int.not_le] at h
    exact ⟨t, rfl, h⟩

theorem exists_of_timeLe {t : Int} {o : Option Int} (h : timeLe (some t) o) :
    ∃ t', o = some t' ∧ t ≤ t' := by
  cases o with
  | none => exact h.elim
  | some t' => exact ⟨t', rfl, h⟩

/-- Two boxes that are the same, the columns of seen marks, counts and read receipts
where these are asked about. -/
structure SameBox (seen counts reads : Prop) (r s : MessageBox) : Prop where
  others : { r with
    lastSeenMessageId := s.lastSeenMessageId
    unreadCount := s.unreadCount
    peerLastReadTime := s.peerLastReadTime
    peerLastReaderMid := s.peerLastReaderMid } = s
  lastSeen : seen → r.lastSeenMessageId = s.lastSeenMessageId
  unreadCount : counts → r.unreadCount = s.unreadCount
  peerRead : reads → r.peerLastReadTime = s.peerLastReadTime ∧
    r.peerLastReaderMid = s.peerLastReaderMid

/-- The replay of a box that is there in the first run. -/
structure BoxRel (seen counts reads : Prop) (f r s : MessageBox) : Prop where
  delivered : Pick (fun b => (b.midType, b.lastDeliveredMessageId, b.lastDeliveredTime)) f r s
  rawJson : r.rawJson = s.rawJson
  lastSeen : seen → Pick (·.lastSeenMessageId) f r s
  unreadCount : counts → r.unreadCount = s.unreadCount
  peerTime : reads → r.peerLastReadTime = s.peerLastReadTime
  /-- The reader is taken from the first run only where that has the last read time. -/
  peerReader : reads → r.peerLastReaderMid = s.peerLastReaderMid ∨
    (f.peerLastReadTime = s.peerLastReadTime ∧ r.peerLastReaderMid = f.peerLastReaderMid)

namespace BoxRel

variable {seen counts reads : Prop} {f r s : MessageBox}

theorem start (f s : MessageBox) : BoxRel seen counts reads f s s :=
  ⟨.inl rfl, rfl, fun _ => .inl rfl, fun _ => rfl, fun _ => rfl, fun _ => .inl rfl⟩

theorem final (h : BoxRel seen counts reads s r s) : SameBox seen counts reads r s := by
  have hd := h.delivered.final
  simp only [Prod.mk.injEq] at hd
  obtain ⟨hmid, hid, htime⟩ := hd
  refine ⟨?_, fun hl => (h.lastSeen hl).final, h.unreadCount,
    fun hp => ⟨h.peerTime hp, (h.peerReader hp).elim id And.right⟩⟩
  cases r; cases s
  simp only [MessageBox.mk.injEq, true_and]
  exact ⟨hmid, hid, htime, h.rawJson⟩

/-- A chat marked as seen whose count the first run leaves at zero. -/
theorem markSeen (h : BoxRel seen counts reads f r s) (messageId : Option String)
    (hzero : counts → s.unreadCount = some 0) :
    BoxRel seen counts reads
      { f with unreadCount := some 0, lastSeenMessageId := messageId }
      { r with unreadCount := some 0, lastSeenMessageId := messageId } s :=
  ⟨h.delivered, h.rawJson, fun _ => .write rfl, fun hc => (hzero hc).symm, h.peerTime,
    h.peerReader⟩

/-- A read receipt writes again only where it is the last one. -/
theorem setPeerRead (h : BoxRel seen counts reads f r s) (time : Int) (reader : Option String)
    (hgrow : timeLe (if peerReadDue time f then some time else f.peerLastReadTime)
      s.peerLastReadTime) :
    BoxRel seen counts reads
      (if peerReadDue time f then
        { f with peerLastReadTime := some time, peerLastReaderMid := reader } else f)
      (if peerReadDue time r then
        { r with peerLastReadTime := some time, peerLastReaderMid := reader } else r) s := by
  by_cases hf : peerReadDue time f
  · rw [if_pos hf] at hgrow ⊢
    obtain ⟨t, hs, ht⟩ := exists_of_timeLe hgrow
    by_cases hr : peerReadDue time r
    · rw [if_pos hr]
      have hlast : reads → some time = s.peerLastReadTime := fun hp => by
        rw [peerReadDue_of_some ((h.peerTime hp).trans hs)] at hr
        rw [hs, Int.le_antisymm ht hr]
      exact ⟨h.delivered, h.rawJson, h.lastSeen, h.unreadCount, hlast,
        fun hp => .inr ⟨hlast hp, rfl⟩⟩
    · rw [if_neg hr]
      refine ⟨h.delivered, h.rawJson, h.lastSeen, h.unreadCount, h.peerTime, fun hp => ?_⟩
      refine .inl ((h.peerReader hp).resolve_right fun ⟨hfs, _⟩ => hr ?_)
      rw [peerReadDue_of_some (hfs.trans hs)] at hf
      rwa [peerReadDue_of_some ((h.peerTime hp).trans hs)]
  · rw [if_neg hf] at hgrow ⊢
    obtain ⟨t₀, hf₀, hlate⟩ := exists_of_not_peerReadDue hf
    rw [hf₀] at hgrow
    obtain ⟨t, hs, ht⟩ := exists_of_timeLe hgrow
    by_cases hr : peerReadDue time r
    · rw [if_pos hr]
      have hnot : ¬ reads := fun hp => by
        rw [peerReadDue_of_some ((h.peerTime hp).trans hs)] at hr
        omega
      exact ⟨h.delivered, h.rawJson, h.lastSeen, h.unreadCount, fun hp => absurd hp hnot,
        fun hp => absurd hp hnot⟩
    · rw [if_neg hr]; exact h

end BoxRel

/-- A delivery whose message has a row already leaves the count alone. -/
theorem stepBox_replay {seen counts reads : Prop} {e : StoreMessage} {F R : Db}
    {old : Option MessageBox} {r s : MessageBox}
    (hrel : OptRel (BoxRel seen counts reads) old (some r) (some s))
    (hstored : (R.messages e.message.id).isSome) :
    BoxRel seen counts reads (e.stepBox F old) (e.stepBox R (some r)) s := by
  have hcount : (e.stepBox R (some r)).unreadCount = r.unreadCount := by
    simp [StoreMessage.stepBox, Db.liveUnread, Option.isNone_iff_eq_none,
      Option.isSome_iff_ne_none.mp hstored]
  cases old with
  | none =>
    have h : BoxRel seen counts reads s r s := hrel
    exact ⟨.write rfl, h.rawJson, fun hl => .inl (h.lastSeen hl).final,
      fun hc => hcount.trans (h.unreadCount hc), h.peerTime,
      fun hp => .inl ((h.peerReader hp).elim id And.right)⟩
  | some f =>
    have h : BoxRel seen counts reads f r s := hrel
    exact ⟨.write rfl, h.rawJson, h.lastSeen, fun hc => hcount.trans (h.unreadCount hc),
      h.peerTime, h.peerReader⟩

/-! ## The replay of an event -/

/-- The columns that are asked about where an event may have found no row, by the key
of the row. -/
structure Asked where
  deleted : String → Prop
  reactions : String → Prop
  lastSeen : String → Prop
  unreadCount : String → Prop
  peerRead : String → Prop

/-- The relation between the first run, the replay and the end of the first run. -/
structure Replaying (A : Asked) (F R S : Db) : Prop where
  messages : ∀ id, OptRel (RowRel (A.deleted id) (A.reactions id))
    (F.messages id) (R.messages id) (S.messages id)
  boxes : ∀ chat, OptRel (BoxRel (A.lastSeen chat) (A.unreadCount chat) (A.peerRead chat))
    (F.messageBoxes chat) (R.messageBoxes chat) (S.messageBoxes chat)
  readers : R.messageBoxReaders = S.messageBoxReaders

/-- Where a column is asked about, the event finds its row unless there never is one;
a chat with a count that is asked about ends with none unread. -/
def Effect.Lands (A : Asked) (S F : Db) : Effect → Prop
  | deleted id => A.deleted id → (S.messages id).isSome → (F.messages id).isSome
  | react id _ _ => A.reactions id → (S.messages id).isSome → (F.messages id).isSome
  | seen chat _ =>
    (A.lastSeen chat → (S.messageBoxes chat).isSome → (F.messageBoxes chat).isSome) ∧
    (A.unreadCount chat → ∀ b, S.messageBoxes chat = some b → b.unreadCount = some 0)
  | peerRead chat _ _ =>
    A.peerRead chat → (S.messageBoxes chat).isSome → (F.messageBoxes chat).isSome
  | _ => True

/-- A stored message has an id, and the entry of a reaction is one of its reactor. -/
def Effect.WellFormed : Effect → Prop
  | store e => e.message.id ≠ ""
  | react _ reactor entry => ∀ j ∈ entry, isReactor reactor j = true
  | _ => True

namespace Replaying

variable {A : Asked} {F R S : Db}

theorem start (h : Grows F S) : Replaying A F S S where
  messages id := .start RowRel.start fun hs => by
    cases hF : F.messages id with
    | none => rfl
    | some r => obtain ⟨r', hr', -⟩ := h.row id r hF; rw [hs] at hr'; cases hr'
  boxes chat := .start BoxRel.start fun hs => by
    cases hF : F.messageBoxes chat with
    | none => rfl
    | some b => obtain ⟨b', hb', -⟩ := h.box chat b hF; rw [hs] at hb'; cases hb'
  readers := rfl

theorem seen (h : Replaying A F R S) {chat : String} {messageId : Option String}
    (hlands : (Effect.seen chat messageId).Lands A S F) :
    ∃ R', (Effect.seen chat messageId).step R = some R' ∧ Replaying A
      (F.onBoxes (·.update chat fun b =>
        { b with unreadCount := some 0, lastSeenMessageId := messageId })).2 R' S := by
  refine ⟨_, rfl, h.messages, ?_, h.readers⟩
  refine OptRel.updateIf h.boxes chat _ _ (fun _ hs hrel => ?_) (fun hF hs hrel => ?_)
  · exact hrel.markSeen messageId fun hc => hlands.2 hc _ hs
  · have hnot : ¬ A.lastSeen chat := fun hl => by
      have := hlands.1 hl (by rw [hs]; rfl)
      rw [hF] at this; cases this
    exact ⟨hrel.delivered, hrel.rawJson, fun hl => absurd hl hnot,
      fun hc => (hlands.2 hc _ hs).symm, hrel.peerTime, hrel.peerReader⟩

theorem peerRead (h : Replaying A F R S) {chat : String} {reader : Option String} {time : Int}
    (hlands : (Effect.peerRead chat reader time).Lands A S F)
    (hg : ∀ F', (Effect.peerRead chat reader time).step F = some F' → Grows F' S) :
    ∃ R', (Effect.peerRead chat reader time).step R = some R' ∧ Replaying A
      (F.onBoxes (·.updateIf chat (peerReadDue time) fun b =>
        { b with peerLastReadTime := some time, peerLastReaderMid := reader })).2 R' S := by
  refine ⟨_, rfl, h.messages, ?_, h.readers⟩
  refine OptRel.updateIf h.boxes chat _ _ (fun {f _ s} hF hs hrel => ?_) (fun hF hs hrel => ?_)
  · refine hrel.setPeerRead time reader ?_
    have hbox := (hg _ rfl).box chat
    rw [onBoxes_updateIf hF] at hbox
    obtain ⟨b, hb, ht⟩ := hbox _ (setBox_messageBoxes_self _ _ _)
    rw [hs, Option.some.injEq] at hb
    subst hb
    split at ht
    · rename_i hdue; rw [if_pos hdue]; exact ht
    · rename_i hdue; rw [if_neg hdue]; exact ht
  · have hnot : ¬ A.peerRead chat := fun hp => by
      have := hlands hp (by rw [hs]; rfl)
      rw [hF] at this; cases this
    split
    · exact ⟨hrel.delivered, hrel.rawJson, hrel.lastSeen, hrel.unreadCount,
        fun hp => absurd hp hnot, fun hp => absurd hp hnot⟩
    · exact hrel

/-- The read time of the end is at least that of the receipt. -/
theorem groupRead (h : Replaying A F R S) {chat reader : String} {time : Int}
    (hg : ∀ F', (Effect.groupRead chat reader time).step F = some F' → Grows F' S) :
    ∃ R', (Effect.groupRead chat reader time).step R = some R' ∧ Replaying A
      (F.onReaders (upsertReader (chat, reader) time)).2 R' S := by
  refine ⟨_, rfl, h.messages, h.boxes, ?_⟩
  have hread := (hg _ rfl).reader (chat, reader)
  simp only [onReaders] at hread ⊢
  rw [upsertReader_same] at hread
  obtain ⟨t, hs, ht⟩ := exists_of_timeLe hread
  have htime : time ≤ t := by
    refine Int.le_trans ?_ ht
    cases F.messageBoxReaders (chat, reader) with
    | none => exact Int.le_refl _
    | some t' => exact Int.le_max_right _ _
  funext k
  by_cases hk : k = (chat, reader)
  · subst hk
    rw [upsertReader_same, h.readers, hs, Option.map_some, Option.getD_some,
      Int.max_eq_left htime]
  · rw [upsertReader_of_ne _ _ hk, h.readers]

theorem deleted (h : Replaying A F R S) {id : String}
    (hlands : (Effect.deleted id).Lands A S F) :
    ∃ R', (Effect.deleted id).step R = some R' ∧ Replaying A
      (F.onMessages (·.update id fun r => { r with isDeleted := true })).2 R' S := by
  refine ⟨_, rfl, ?_, h.boxes, h.readers⟩
  refine OptRel.updateIf h.messages id _ _ (fun _ _ hrel => ?_) (fun hF hs hrel => ?_)
  · exact ⟨hrel.core, hrel.text, hrel.status, hrel.rawJson, hrel.replace, hrel.encKm, hrel.media,
      fun _ => .write rfl, hrel.reactions, hrel.settled⟩
  · have hnot : ¬ A.deleted id := fun hd => by
      have := hlands hd (by rw [hs]; rfl)
      rw [hF] at this; cases this
    exact ⟨hrel.core, hrel.text, hrel.status, hrel.rawJson, hrel.replace, hrel.encKm, hrel.media,
      fun hd => absurd hd hnot, hrel.reactions, hrel.settled⟩

theorem react (h : Replaying A F R S) {id reactor : String} {entry : Option Json}
    (hlands : (Effect.react id reactor entry).Lands A S F)
    (hentry : (Effect.react id reactor entry).WellFormed) :
    ∃ R', (Effect.react id reactor entry).step R = some R' ∧ Replaying A
      (F.onMessages (·.update id fun r =>
        { r with reactionsJson := reactRow reactor entry r.reactionsJson })).2 R' S := by
  refine ⟨_, rfl, ?_, h.boxes, h.readers⟩
  refine OptRel.updateIf h.messages id _ _ (fun _ _ hrel => ?_) (fun hF hs hrel => ?_)
  · exact ⟨hrel.core, hrel.text, hrel.status, hrel.rawJson, hrel.replace, hrel.encKm, hrel.media,
      hrel.deleted, fun hq => (hrel.reactions hq).react reactor hentry, hrel.settled⟩
  · have hnot : ¬ A.reactions id := fun hq => by
      have := hlands hq (by rw [hs]; rfl)
      rw [hF] at this; cases this
    exact ⟨hrel.core, hrel.text, hrel.status, hrel.rawJson, hrel.replace, hrel.encKm, hrel.media,
      hrel.deleted, fun hq => absurd hq hnot, hrel.settled⟩

theorem store (h : Replaying A F R S) {e : StoreMessage} {F' : Db}
    (hF : (Effect.store e).step F = some F') (hg : Grows F' S) :
    ∃ R', (Effect.store e).step R = some R' ∧ Replaying A F' R' S := by
  obtain ⟨f', hf', rfl⟩ := Option.map_eq_some_iff.mp hF
  obtain ⟨s, hs, hrow⟩ := hg.row e.message.id f' (setRow_messages_self _ _ _)
  obtain ⟨b, hb, -⟩ := hg.box e.chatId (e.stepBox F (F.messageBoxes e.chatId))
    (setBox_messageBoxes_self _ _ _)
  have hm := h.messages e.message.id
  rw [hs] at hm
  obtain ⟨r, hr, -⟩ := hm.exists_of_final
  rw [hr] at hm
  have hc := h.boxes e.chatId
  rw [hb] at hc
  obtain ⟨br, hbr, -⟩ := hc.exists_of_final
  rw [hbr] at hc
  obtain ⟨r', hr', hrel⟩ := stepRow_replay hm hf' hrow
  refine ⟨(R.setBox e.chatId (e.stepBox R (some br))).setRow e.message.id r', ?_, ?_, ?_, h.readers⟩
  · simp only [Effect.step, hr, hr', hbr, Option.map_some]
  · exact OptRel.write h.messages hs hrel
  · exact OptRel.write h.boxes hb (stepBox_replay hc (by rw [hr]; rfl))

/-- An event that the first run applied is applied by the replay. -/
theorem step (h : Replaying A F R S) {e : Effect} {F' : Db} (hF : e.step F = some F')
    (hg : Grows F' S) (hlands : e.Lands A S F) (hentry : e.WellFormed) :
    ∃ R', e.step R = some R' ∧ Replaying A F' R' S := by
  have hgrow : ∀ G, e.step F = some G → Grows G S := fun G hG => by
    rw [hF, Option.some.injEq] at hG; exact hG ▸ hg
  cases e with
  | skip => cases hF; exact ⟨R, rfl, h⟩
  | seen chat messageId => cases hF; exact h.seen hlands
  | deleted id => cases hF; exact h.deleted hlands
  | peerRead chat reader time => cases hF; exact h.peerRead hlands hgrow
  | groupRead chat reader time => cases hF; exact h.groupRead hgrow
  | react id reactor entry => cases hF; exact h.react hlands hentry
  | store e => exact h.store hF hg

end Replaying

end Enil
