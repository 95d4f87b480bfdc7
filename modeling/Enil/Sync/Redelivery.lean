import Enil.Sync.Replay
import Enil.Sync.Unread

/-!
# Redelivery of applied events

A full sync commits the cursor read before its fetches, and a connection resumes
from the last committed cursor, so events that were applied are delivered again.
What the second application leaves as it is, is read off the first one: which events
found their row, and which chats were left without unread messages.
-/

namespace Enil

open Lib Db

variable {cj : Cjson} {myMid : Option String}

variable (cj myMid) in
/-- The event stream applied to the message tables. -/
def receiver : Machine Db Delivery where
  step := deliver cj myMid

/-- The same event, with the remote side answering as before: the same decryption,
the same attachment, the same steps failed. -/
structure Delivery.SameAnswers (d d' : Delivery) : Prop where
  event : d'.event = d.event
  refetch : d'.remote.refetch = d.remote.refetch
  scan : d'.remote.scan = d.remote.scan
  rescan : d'.remote.rescan = d.remote.rescan
  decrypt : d'.remote.decrypt = d.remote.decrypt
  sticons : d'.remote.sticons = d.remote.sticons
  media : mediaWrite d'.remote.media = mediaWrite d.remote.media
  sticker : d'.remote.sticker = d.remote.sticker

/-- The same answers make the same effect. -/
theorem Delivery.SameAnswers.effectOf_eq {d d' : Delivery} (h : d.SameAnswers d') :
    effectOf cj myMid d' = effectOf cj myMid d := by
  have hstores : d'.remote.storesOk = d.remote.storesOk := by
    funext msg
    simp only [Remote.storesOk, h.scan, h.rescan, h.sticons, h.sticker]
  simp only [effectOf, storeEffect, h.event, h.refetch, h.decrypt, h.sticons, h.media, hstores]

theorem reactionEffect_wellFormed {op : TalkOperation} {e : Effect}
    (h : reactionEffect cj myMid op = some e) : e.WellFormed := by
  unfold reactionEffect at h
  simp only at h
  split at h
  · cases h
    intro j hj
    split at hj
    · cases hj
    · cases hj; exact isReactor_reactionEntry _ _ _ _ _
  · cases h

theorem readEffect_wellFormed {op : TalkOperation} {e : Effect} (h : readEffect op = some e) :
    e.WellFormed := by
  unfold readEffect at h
  simp only at h
  split at h
  · split at h
    · cases h; trivial
    · split at h <;> cases h
      trivial
  · cases h

theorem storeEffect_eq_store {remote : Remote} {root : Json} {op : TalkOperation} {e : Effect}
    (h : storeEffect cj myMid remote root op = some e) : ∃ m, e = .store m := by
  unfold storeEffect at h
  split at h
  · split at h <;> cases h
    exact ⟨_, rfl⟩
  · cases h

theorem storeEffect_wellFormed {remote : Remote} {root : Json} {op : TalkOperation} {e : Effect}
    (h : storeEffect cj myMid remote root op = some e) : e.WellFormed := by
  unfold storeEffect at h
  split at h
  · split at h
    · rename_i hok
      cases h
      simp only [Bool.and_eq_true, decide_eq_true_eq] at hok
      exact hok.1.2
    · cases h
  · cases h

/-- A message event stores its message. -/
theorem effectOf_eq_store {d : Delivery} {e : Effect}
    (htype : (d.event.op myMid).type = .sendMessage ∨ (d.event.op myMid).type = .receiveMessage)
    (h : effectOf cj myMid d = some e) : ∃ m, e = .store m := by
  unfold effectOf at h
  rcases htype with htype | htype <;> simp only [htype] at h <;> exact storeEffect_eq_store h

theorem effectOf_wellFormed {d : Delivery} {e : Effect} (h : effectOf cj myMid d = some e) :
    e.WellFormed := by
  unfold effectOf at h
  simp only at h
  cases hop : (d.event.op myMid).type <;> simp only [hop] at h
  case sendReaction | notifiedSendReaction => exact reactionEffect_wellFormed h
  case notifiedReadMessage => exact readEffect_wellFormed h
  case sendMessage | receiveMessage => exact storeEffect_wellFormed h
  case unhandled => cases h; trivial
  all_goals
    split at h <;> cases h
    trivial

theorem receiver_step_some {d : Delivery} {db db' : Db} :
    (receiver cj myMid).step db d = some db' ↔
      ∃ e, effectOf cj myMid d = some e ∧ e.step db = some db' := by
  rw [← Option.bind_eq_some_iff, ← deliver_eq]; rfl

theorem receiver_run_grows {db db' : Db} {es : List Delivery}
    (h : (receiver cj myMid).run db es = some db') : Grows db db' :=
  Machine.run_rel Grows.refl Grows.trans (fun hstep => by
    obtain ⟨e, -, he⟩ := receiver_step_some.mp hstep
    exact Effect.step_grows he) h

/-- The events again, after they were applied. -/
theorem receiver_replaySim (A : Asked) : (receiver cj myMid).ReplaySim
    (fun S F d => ∀ e ∈ effectOf cj myMid d, e.Lands A S F) (Replaying A) where
  start hrun := .start (receiver_run_grows hrun)
  step hrel hF hrun hlands := by
    obtain ⟨e, he, hstep⟩ := receiver_step_some.mp hF
    obtain ⟨R', hR', hrel'⟩ := hrel.step hstep (receiver_run_grows hrun) (hlands e he)
      (effectOf_wellFormed he)
    exact ⟨R', receiver_step_some.mpr ⟨e, he, hR'⟩, hrel'⟩

/-! ## What is as it was -/

/-- Each event of the run that writes to a row finds it there, unless there is no
such row even in the end. -/
def Finds (cj : Cjson) (myMid : Option String) (db s : Db) (es : List Delivery)
    (writes : Effect → Prop) (row : Db → Prop) : Prop :=
  row s → (receiver cj myMid).Along (fun F d => ∀ e ∈ effectOf cj myMid d, writes e → row F) db es

namespace Effect

def Deletes (id : String) (e : Effect) : Prop := e = .deleted id

def ReactsTo (id : String) (e : Effect) : Prop := ∃ reactor entry, e = .react id reactor entry

def MarksSeen (chat : String) (e : Effect) : Prop := ∃ messageId, e = .seen chat messageId

def ReadsTo (chat : String) (e : Effect) : Prop := ∃ reader time, e = .peerRead chat reader time

end Effect

/-- A chat that the run marks as seen ends with no unread messages. -/
def EndsSeen (cj : Cjson) (myMid : Option String) (s : Db) (es : List Delivery)
    (chat : String) : Prop :=
  ∀ d ∈ es, ∀ e ∈ effectOf cj myMid d, e.MarksSeen chat →
    ∀ b, s.messageBoxes chat = some b → b.unreadCount = some 0

def HasMessage (id : String) (d : Db) : Prop := (d.messages id).isSome

def HasBox (chat : String) (d : Db) : Prop := (d.messageBoxes chat).isSome

/-- The columns in question, by what the first run says of them. -/
def asked (cj : Cjson) (myMid : Option String) (db s : Db) (es : List Delivery) : Asked where
  deleted id := Finds cj myMid db s es (·.Deletes id) (HasMessage id)
  reactions id := Finds cj myMid db s es (·.ReactsTo id) (HasMessage id)
  lastSeen chat := Finds cj myMid db s es (·.MarksSeen chat) (HasBox chat)
  unreadCount := EndsSeen cj myMid s es
  peerRead chat := Finds cj myMid db s es (·.ReadsTo chat) (HasBox chat)

theorem Finds.row_of_split {db s : Db} {es : List Delivery} {writes : Effect → Prop}
    {row : Db → Prop} (h : Finds cj myMid db s es writes row) {pre post : List Delivery}
    {d : Delivery} {F : Db} (hsplit : es = pre ++ d :: post)
    (hrun : (receiver cj myMid).run db pre = some F) {e : Effect}
    (he : e ∈ effectOf cj myMid d) (hw : writes e) (hrow : row s) : row F :=
  Machine.along_iff.mp (h hrow) pre d post F hsplit hrun e he hw

theorem along_lands (db s : Db) (es : List Delivery) :
    (receiver cj myMid).Along
      (fun F d => ∀ e ∈ effectOf cj myMid d, e.Lands (asked cj myMid db s es) s F) db es := by
  rw [Machine.along_iff]
  intro pre d post F hsplit hrun e he
  cases e with
  | deleted id => exact fun h hrow => h.row_of_split hsplit hrun he rfl hrow
  | react id reactor entry =>
    exact fun h hrow => h.row_of_split hsplit hrun he ⟨reactor, entry, rfl⟩ hrow
  | seen chat messageId =>
    refine ⟨fun h hrow => h.row_of_split hsplit hrun he ⟨messageId, rfl⟩ hrow, fun h => ?_⟩
    exact h d (by rw [hsplit]; simp) _ he ⟨messageId, rfl⟩
  | peerRead chat reader time =>
    exact fun h hrow => h.row_of_split hsplit hrun he ⟨reader, time, rfl⟩ hrow
  | skip | groupRead | store => trivial

theorem optRel_final {ρ : Type} {rel : ρ → ρ → ρ → Prop} {same : ρ → ρ → Prop}
    (h : ∀ {r s}, rel s r s → same r s) {r s : Option ρ} (hrel : OptRel rel s r s) :
    Option.Rel same r s := by
  cases s with
  | none => rw [hrel.none_of_final]; exact .none
  | some s =>
    obtain ⟨r', rfl, hr'⟩ := hrel.exists_of_final
    exact .some (h hr')

/-- Events that were applied with success are applied again with success, and leave
every row of messages, boxes and read marks as it was: the deletion mark, the
reactions, the seen mark and the read receipt where each event found its row the
first time, the unread count where a chat marked as seen was left without unread
messages. -/
theorem replay_converges {db s : Db} {es es' : List Delivery}
    (hrun : (receiver cj myMid).run db es = some s)
    (hsame : List.Forall₂ Delivery.SameAnswers es es') :
    ∃ s', (receiver cj myMid).run s es' = some s' ∧
      s'.messageBoxReaders = s.messageBoxReaders ∧
      (∀ id, Option.Rel
        (SameRow (Finds cj myMid db s es (·.Deletes id) (HasMessage id))
          (Finds cj myMid db s es (·.ReactsTo id) (HasMessage id)))
        (s'.messages id) (s.messages id)) ∧
      ∀ chat, Option.Rel
        (SameBox (Finds cj myMid db s es (·.MarksSeen chat) (HasBox chat))
          (EndsSeen cj myMid s es chat)
          (Finds cj myMid db s es (·.ReadsTo chat) (HasBox chat)))
        (s'.messageBoxes chat) (s.messageBoxes chat) := by
  obtain ⟨s', hrun', hrel⟩ := (receiver_replaySim (asked cj myMid db s es)).replay hrun
    (along_lands db s es)
  have hstep : List.Forall₂ (fun d d' => ∀ c, (receiver cj myMid).step c d =
      (receiver cj myMid).step c d') es es' :=
    hsame.imp fun d d' h c => by
      change deliver cj myMid c d = deliver cj myMid c d'
      rw [deliver_eq, deliver_eq, h.effectOf_eq]
  refine ⟨s', (Machine.run_congr hstep s).symm.trans hrun', hrel.readers, fun id => ?_,
    fun chat => ?_⟩
  · exact optRel_final RowRel.final (hrel.messages id)
  · exact optRel_final BoxRel.final (hrel.boxes chat)

/-! ## A chat read between two messages -/

def seenEvent : Json := .obj [("type", .num 40), ("param1", .str "peer"), ("param2", .str "m1")]

def destroyEvent : Json := .obj [("type", .num 65), ("param2", .str "m1")]

/-- A delivery whose remote side has nothing to decrypt and no attachment. -/
def delivered (root : Json) (h : root.KeysDistinct)
    (hmsg : (root.getObjectItem "message").all (fun msg => decide msg.KeysDistinct) = true) :
    Delivery := ⟨.ofJson root h hmsg, {}⟩

def firstMessage : Delivery := ⟨receivedFromPeer.toSseEvent, {}⟩

def secondMessage : Delivery :=
  delivered (receiveEvent "m2" "again") (by decide) (by decide)

def chatSeen : Delivery := delivered seenEvent (by decide) (by decide)

def firstDestroyed : Delivery := delivered destroyEvent (by decide) (by decide)

/-- Two messages again: nothing is counted twice. -/
theorem replay_converges_messages :
    let stream := receiver plainJson (some "me")
    ∃ s s', stream.run Db.empty [firstMessage, secondMessage] = some s ∧
      stream.run s [firstMessage, secondMessage] = some s' ∧
      unreadCount s "peer" = 2 ∧ unreadCount s' "peer" = 2 := by
  intro stream
  have htwo : (stream.run Db.empty [firstMessage, secondMessage]).map (unreadCount · "peer") =
      some 2 := by decide
  obtain ⟨s, hrun, hs⟩ := Option.map_eq_some_iff.mp htwo
  have hrefl (d : Delivery) : d.SameAnswers d := ⟨rfl, rfl, rfl, rfl, rfl, rfl, rfl, rfl⟩
  obtain ⟨s', hrun', -, -, hboxes⟩ := replay_converges hrun
    (.cons (hrefl _) (.cons (hrefl _) .nil))
  refine ⟨s, s', hrun, hrun', hs, ?_⟩
  have hseen : EndsSeen plainJson (some "me") s [firstMessage, secondMessage]
      "peer" := by
    intro d hd e he ⟨messageId, hmark⟩
    have hreceive : (d.event.op (some "me")).type = .receiveMessage := by
      rcases List.mem_pair.mp hd with rfl | rfl <;> decide
    obtain ⟨m, rfl⟩ := effectOf_eq_store (.inr hreceive) he
    cases hmark
  have hsame := hboxes "peer"
  rw [unreadCount] at hs ⊢
  cases hb : s.messageBoxes "peer" with
  | none => rw [hb] at hs; cases hs
  | some b =>
    rw [hb] at hs hsame
    cases hb' : s'.messageBoxes "peer" with
    | none => rw [hb'] at hsame; cases hsame
    | some b' =>
      rw [hb', Option.rel_some_some] at hsame
      rw [Option.bind_some, hsame.unreadCount hseen]; exact hs

/-- A message, a mark as seen and a second message leave one unread message; again,
they leave none. A message deleted before it is stored is deleted only by the second
delivery. -/
theorem replay_unread_lost :
    let stream := receiver plainJson (some "me")
    let twice (es : List Delivery) (proj : Db → Option Int × Option Bool) :=
      (stream.run Db.empty es).bind fun s => (stream.run s es).map fun s' => (proj s, proj s')
    let columns (d : Db) := ((d.messageBoxes "peer").bind (·.unreadCount),
      (d.messages "m1").map (·.isDeleted))
    twice [firstMessage, chatSeen, secondMessage] columns =
      some ((some 1, some false), (some 0, some false)) ∧
    twice [firstDestroyed, firstMessage] columns =
      some ((some 1, some false), (some 1, some true)) := by
  decide

end Enil
