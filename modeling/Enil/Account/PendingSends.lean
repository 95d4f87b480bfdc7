import Enil.Sync.Operation
import Enil.Lib.Machine
import Mathlib.Data.Fintype.Basic
import Mathlib.Data.Fintype.Sets
import Mathlib.Data.List.Nodup

/-!
# Optimistic bubbles and their echoes

`ENILAccount.m` shows a bubble under a temporary id before its message is sent and
replaces it when the event stream echoes the message. The echo is matched by the
message id that the send was confirmed with, else with the oldest temporary id of
the chat. Here sends and event callbacks interleave at the steps that take the lock.
-/

namespace Enil

open Lib

/-! ## The queues of temporary ids -/

namespace SendQueues

/-- The queue of a chat; no entry is an empty queue. -/
def queue : List (String × List String) → String → List String
  | [], _ => []
  | (c, q) :: qs, chatId => if c = chatId then q else queue qs chatId

def add : List (String × List String) → String → String → List (String × List String)
  | [], chatId, tempId => [(chatId, [tempId])]
  | (c, q) :: qs, chatId, tempId =>
    if c = chatId then (c, q ++ [tempId]) :: qs else (c, q) :: add qs chatId tempId

/-- The first queue with the id loses it, and its entry when that leaves it empty. -/
def remove : List (String × List String) → String → List (String × List String)
  | [], _ => []
  | (c, q) :: qs, tempId =>
    if tempId ∈ q then if q.erase tempId = [] then qs else (c, q.erase tempId) :: qs
    else (c, q) :: remove qs tempId

variable {qs : List (String × List String)} {chatId tempId : String}

theorem queue_of_not_mem (h : chatId ∉ qs.map Prod.fst) : queue qs chatId = [] := by
  induction qs with
  | nil => rfl
  | cons p qs ih =>
    rw [List.map_cons, List.mem_cons, not_or] at h
    rw [queue, if_neg (Ne.symm h.1)]
    exact ih h.2

theorem queue_add (qs : List (String × List String)) (chatId tempId c : String) :
    queue (add qs chatId tempId) c = queue qs c ++ if chatId = c then [tempId] else [] := by
  induction qs with
  | nil => simp [add, queue]
  | cons p qs ih =>
    obtain ⟨k, q⟩ := p
    rw [add]
    split
    · rename_i hk
      subst hk
      rw [queue, queue]
      split <;> simp
    · rename_i hk
      rw [queue, queue]
      split
      · rename_i hkc
        rw [if_neg (fun h => hk (hkc.trans h.symm)), List.append_nil]
      · exact ih

theorem keys_add (qs : List (String × List String)) (chatId tempId : String) :
    (add qs chatId tempId).map Prod.fst =
      qs.map Prod.fst ++ if chatId ∈ qs.map Prod.fst then [] else [chatId] := by
  induction qs with
  | nil => rfl
  | cons p qs ih =>
    obtain ⟨k, q⟩ := p
    rw [add]
    split
    · rename_i hk
      simp [hk]
    · rename_i hk
      have hiff : chatId ∈ ((k, q) :: qs).map Prod.fst ↔ chatId ∈ qs.map Prod.fst := by
        simp [Ne.symm hk]
      rw [List.map_cons, ih, if_congr hiff rfl rfl]
      rfl

theorem keys_remove (qs : List (String × List String)) (tempId : String) :
    ((remove qs tempId).map Prod.fst).Sublist (qs.map Prod.fst) := by
  induction qs with
  | nil => exact List.Sublist.refl _
  | cons p qs ih =>
    obtain ⟨k, q⟩ := p
    rw [remove]
    split
    · split
      · exact List.sublist_cons_self _ _
      · exact List.Sublist.refl _
    · exact ih.cons_cons k

/-- An id that only one queue has is taken from there. -/
theorem queue_remove (hd : (qs.map Prod.fst).Nodup)
    (hone : ∀ c c', tempId ∈ queue qs c → tempId ∈ queue qs c' → c = c') (c : String) :
    queue (remove qs tempId) c = (queue qs c).erase tempId := by
  induction qs with
  | nil => rfl
  | cons p qs ih =>
    obtain ⟨k, q⟩ := p
    rw [List.map_cons, List.nodup_cons] at hd
    have hself : queue ((k, q) :: qs) k = q := by rw [queue, if_pos rfl]
    have hother : ∀ c, k ≠ c → queue ((k, q) :: qs) c = queue qs c := fun c hc => by
      rw [queue, if_neg hc]
    have hk : queue qs k = [] := queue_of_not_mem hd.1
    rw [remove]
    rcases Decidable.em (tempId ∈ q) with hq | hq
    · rw [if_pos hq]
      rcases Decidable.em (k = c) with rfl | hc
      · rw [hself]
        split
        · rename_i hempty
          rw [hk, hempty]
        · rw [queue, if_pos rfl]
      · have hnot : tempId ∉ queue qs c := fun hm =>
          hc (hone k c (by rw [hself]; exact hq) (by rw [hother c hc]; exact hm))
        rw [hother c hc, List.erase_of_not_mem hnot]
        split
        · rfl
        · rw [queue, if_neg hc]
    · rw [if_neg hq]
      rcases Decidable.em (k = c) with rfl | hc
      · rw [queue, if_pos rfl, hself, List.erase_of_not_mem hq]
      · rw [queue, if_neg hc, hother c hc]
        refine ih hd.2 fun a b ha hb => ?_
        have hne : ∀ a, tempId ∈ queue qs a → k ≠ a := fun a ha hka => by
          rw [← hka, hk] at ha
          cases ha
        exact hone a b (by rw [hother a (hne a ha)]; exact ha) (by rw [hother b (hne b hb)]; exact hb)

end SendQueues

/-- pendingSendOrderByChat_: the temporary ids of each chat, oldest first. -/
structure SendOrder where
  queues : List (String × List String) := []
  distinct : (queues.map Prod.fst).Nodup := by decide

namespace SendOrder

def queuePendingTemp (map : SendOrder) (chatId tempId : String) : SendOrder where
  queues := SendQueues.add map.queues chatId tempId
  distinct := by
    rw [SendQueues.keys_add]
    split
    · rw [List.append_nil]
      exact map.distinct
    · rename_i h
      exact map.distinct.append (List.nodup_singleton _) (by simpa using h)

def removePendingTemp (map : SendOrder) (tempId : String) : SendOrder where
  queues := SendQueues.remove map.queues tempId
  distinct := map.distinct.sublist (SendQueues.keys_remove _ _)

def queue (map : SendOrder) (chatId : String) : List String := SendQueues.queue map.queues chatId

def firstPendingTempForChat (map : SendOrder) (chatId : String) : Option String :=
  (map.queue chatId).head?

theorem queue_queuePendingTemp (map : SendOrder) (chatId tempId c : String) :
    (map.queuePendingTemp chatId tempId).queue c =
      map.queue c ++ if chatId = c then [tempId] else [] :=
  SendQueues.queue_add _ _ _ _

theorem queue_removePendingTemp {map : SendOrder} {tempId : String}
    (hone : ∀ c c', tempId ∈ map.queue c → tempId ∈ map.queue c' → c = c') (c : String) :
    (map.removePendingTemp tempId).queue c = (map.queue c).erase tempId :=
  SendQueues.queue_remove map.distinct hone c

end SendOrder

/-! ## The echo of a message -/

/-- snprintf of an id into a buffer of `size` bytes; ids are ASCII. -/
def snprintf (size : Nat) (s : String) : String := String.ofList (s.toList.take (size - 1))

theorem snprintf_of_lt {size : Nat} {s : String} (h : s.length < size) : snprintf size s = s := by
  rw [snprintf, List.take_of_length_le (by rw [String.length_toList]; omega), String.ofList_toList]

structure SseMessageInfo where
  messageId : String := ""
  fromMid : String := ""
  toMid : String := ""
  toType : Int := -1
  opType : OpType := .unhandled
  hasMessage : Bool := false
  deriving DecidableEq, Repr

namespace SseEvent

variable (e : SseEvent)

def messageInfo : SseMessageInfo :=
  let op := e.op none
  match op.message with
  | some m => {
      opType := op.type
      hasMessage := true
      messageId := snprintf 128 (if m.id ≠ "" then m.id else op.param3.getD "")
      fromMid := snprintf 256 (m.fromMid.getD "")
      toMid := snprintf 256 (m.toMid.getD "")
      toType := m.toType }
  | none => { opType := op.type, messageId := snprintf 128 (op.param3.getD "") }

/-- The id under which `enil_sync_js_for_sse_message` looks for the row. -/
def renderedId : Option String :=
  let id := (e.root.getObjectItem "message").bind (·.stringItem "id")
  (if nonempty id then id else e.root.stringItem "param3").filter (· ≠ "")

/-- The id was not cut, and both functions find the same one. -/
def IdFits : Prop := e.renderedId.all (· = e.messageInfo.messageId) = true

instance : Decidable e.IdFits := inferInstanceAs (Decidable (_ = true))

end SseEvent

/-- Whether `enil_account_sse_build_message_updates` draws the message. -/
def SseMessageInfo.renderable (info : SseMessageInfo) : Bool :=
  info.hasMessage && (info.opType = .sendMessage || info.opType = .receiveMessage)

/-- The bubble that `enil_html_js_update` replaces and the message it then shows, where
the row is there. -/
def replacedBubble (db : Db) (e : SseEvent) (tempId : Option String) :
    Option (String × String) :=
  if e.messageInfo.renderable then do
    let id ← e.renderedId
    let row ← db.messages id
    if row.chatId ≠ "" then tempId.map (·, id) else none
  else none

theorem replacedBubble_some {db : Db} {e : SseEvent} {tempId : Option String} {t r : String}
    (h : replacedBubble db e tempId = some (t, r)) :
    e.messageInfo.renderable = true ∧ e.renderedId = some r ∧ tempId = some t := by
  unfold replacedBubble at h
  split at h
  · rename_i hr
    obtain ⟨id, hid, h⟩ := Option.bind_eq_some_iff.mp h
    obtain ⟨row, -, h⟩ := Option.bind_eq_some_iff.mp h
    split at h
    · obtain ⟨t', ht, heq⟩ := Option.map_eq_some_iff.mp h
      obtain ⟨rfl, rfl⟩ := Prod.mk.inj heq
      exact ⟨hr, hid, ht⟩
    · cases h
  · cases h

/-! ## Sends and callbacks -/

/-- One send: its bubble, the message id the server gave it, and whether its thread has
ended. -/
structure Outgoing where
  chatId : String
  tempId : String
  id : Option String := none
  finished : Bool := false
  deriving DecidableEq, Repr

/-- The account with its sends `κ` and its event callbacks `ν`. `waiting` are the sends that
neither failed nor had their bubble taken by an echo, oldest first. -/
structure Bubbles (κ ν : Type) where
  pendingSends : Table String String := fun _ => none
  pendingSendOrderByChat : SendOrder := {}
  sends : κ → Option Outgoing := fun _ => none
  waiting : List κ := []
  inFlight : ν → Option (SseEvent × Option String) := fun _ => none
  rendered : List (String × String) := []

inductive BubbleStep (κ ν : Type) where
  /-- A send begins: its bubble is queued. -/
  | queue (i : κ) (chatId : String) (nowMs : Int)
  /-- The server takes the message. -/
  | accept (i : κ) (id : String)
  /-- confirmTempId, after the reply. -/
  | confirm (i : κ)
  /-- failTempId; the server may have taken the message. -/
  | fail (i : κ)
  /-- A callback looks up the temporary id of its event. -/
  | lookup (c : ν) (e : SseEvent)
  /-- The event was processed, or not, and left this database. -/
  | process (c : ν) (ok : Bool) (db : Db)

def localId (nowMs : Int) : String := "local-" ++ toString nowMs

/-- The chat in whose queue the echo of an own message is looked for. -/
def SseMessageInfo.ownChat (info : SseMessageInfo) (myMid : Option String) : Option String :=
  if info.fromMid ≠ "" ∧ some info.fromMid = myMid ∧ (info.toType = 0 ∨ info.toType = 2) ∧
      info.toMid ≠ "" then some info.toMid else none

namespace Bubbles

variable {κ ν : Type} [DecidableEq κ] [DecidableEq ν] (st : Bubbles κ ν) (myMid : Option String)

def confirmedTempId (info : SseMessageInfo) : Option String :=
  if info.messageId ≠ "" then st.pendingSends info.messageId else none

def pendingTempIdForSseMessage (info : SseMessageInfo) : Option String :=
  (st.confirmedTempId info).or
    ((info.ownChat myMid).bind st.pendingSendOrderByChat.firstPendingTempForChat)

def setSend (i : κ) (o : Outgoing) : Bubbles κ ν :=
  { st with sends := Function.update st.sends i (some o) }

/-- A new bubble enters the queue of its chat. -/
def beginSend (i : κ) (o : Outgoing) : Bubbles κ ν :=
  { st.setSend i o with
    pendingSendOrderByChat := st.pendingSendOrderByChat.queuePendingTemp o.chatId o.tempId
    waiting := st.waiting ++ [i] }

/-- The temporary id leaves the queues, and its send waits no longer. -/
def settle (tempId : String) : Bubbles κ ν where
  pendingSends := st.pendingSends
  pendingSendOrderByChat := st.pendingSendOrderByChat.removePendingTemp tempId
  sends := st.sends
  waiting := st.waiting.filter fun i => (st.sends i).all (·.tempId ≠ tempId)
  inFlight := st.inFlight
  rendered := st.rendered

/-- The message id is confirmed with the temporary id no longer. -/
def unconfirm (id tempId : String) : Bubbles κ ν :=
  { st with
    pendingSends := if id ≠ "" ∧ st.pendingSends id = some tempId
      then Function.update st.pendingSends id none else st.pendingSends }

/-- What `sse_event_cb` does with the temporary id after the event was processed. -/
def consume (e : SseEvent) : Option String → Bubbles κ ν
  | none => st
  | some tempId => (st.unconfirm e.messageInfo.messageId tempId).settle tempId

def setInFlight (c : ν) (f : Option (SseEvent × Option String)) : Bubbles κ ν :=
  { st with inFlight := Function.update st.inFlight c f }

def step : BubbleStep κ ν → Option (Bubbles κ ν)
  | .queue i chatId nowMs =>
    match st.sends i with
    | some _ => none
    | none => some (st.beginSend i { chatId, tempId := localId nowMs })
  | .accept i id =>
    match st.sends i with
    | some o =>
      if o.id = none ∧ o.finished = false then
        some (st.setSend i { o with id := some id })
      else none
    | none => none
  | .confirm i =>
    match st.sends i with
    | some o =>
      match o.id, o.finished with
      | some id, false => some { st.setSend i { o with finished := true } with
          pendingSends := if id ≠ "" then Function.update st.pendingSends id (some o.tempId)
            else st.pendingSends }
      | _, _ => none
    | none => none
  | .fail i =>
    match st.sends i with
    | some o =>
      if o.finished = false then
        some ((st.setSend i { o with finished := true }).settle o.tempId)
      else none
    | none => none
  | .lookup c e =>
    match st.inFlight c with
    | some _ => none
    | none =>
      some (st.setInFlight c (some (e, st.pendingTempIdForSseMessage myMid e.messageInfo)))
  | .process c ok db =>
    match st.inFlight c with
    | none => none
    | some (e, tempId) =>
      if ok then
        some { (st.setInFlight c none).consume e tempId with
          rendered := st.rendered ++ (replacedBubble db e tempId).toList }
      else some (st.setInFlight c none)

end Bubbles

/-- The sends and the event stream of the account `myMid`. -/
def bubbles (myMid : Option String) (κ ν : Type) [DecidableEq κ] [DecidableEq ν] :
    Machine (Bubbles κ ν) (BubbleStep κ ν) where
  step st e := st.step myMid e

namespace Bubbles

variable {κ ν : Type} (st : Bubbles κ ν)

/-- The send with this temporary id got this message id. -/
def Obtained (tempId id : String) : Prop :=
  ∃ i o, st.sends i = some o ∧ o.tempId = tempId ∧ o.id = some id

/-- Each bubble was replaced by the message of its own send, and by no other. -/
def MatchesOwn : Prop :=
  (∀ t r, (t, r) ∈ st.rendered → st.Obtained t r) ∧
    ∀ t r r', (t, r) ∈ st.rendered → (t, r') ∈ st.rendered → r = r'

/-- The sends to a chat whose echo has not been seen, oldest first. -/
def waitingFor (chatId : String) : List Outgoing :=
  st.waiting.filterMap fun i => (st.sends i).filter (·.chatId = chatId)

end Bubbles

/-- No two sends begin in one millisecond, and an own message that is shown before its send
is confirmed comes from the oldest send to its chat that waits for its echo, if any waits. -/
def BubbleStep.InOrder {κ ν : Type} (myMid : Option String) (st : Bubbles κ ν) :
    BubbleStep κ ν → Prop
  | .queue _ _ nowMs => ∀ i, (st.sends i).all (·.tempId ≠ localId nowMs) = true
  | .lookup _ e => e.messageInfo.renderable = true → e.IdFits ∧
      (st.confirmedTempId e.messageInfo = none → ∀ chatId ∈ e.messageInfo.ownChat myMid,
        ∀ o ∈ (st.waitingFor chatId).head?, o.id = some e.messageInfo.messageId)
  | _ => True

instance {κ ν : Type} [Fintype κ] (myMid : Option String) (st : Bubbles κ ν) :
    (e : BubbleStep κ ν) → Decidable (e.InOrder myMid st)
  | .queue _ _ nowMs =>
    inferInstanceAs (Decidable (∀ i, (st.sends i).all (·.tempId ≠ localId nowMs) = true))
  | .lookup _ e => inferInstanceAs (Decidable (e.messageInfo.renderable = true → e.IdFits ∧
      (st.confirmedTempId e.messageInfo = none → ∀ chatId ∈ e.messageInfo.ownChat myMid,
        ∀ o ∈ (st.waitingFor chatId).head?, o.id = some e.messageInfo.messageId)))
  | .accept _ _ | .confirm _ | .fail _ | .process _ _ _ => inferInstanceAs (Decidable True)

namespace Bubbles

variable {κ ν : Type} {st : Bubbles κ ν}

/-- What every step keeps where sends and echoes are in order. -/
structure Sound (st : Bubbles κ ν) : Prop where
  distinct : ∀ i j o o', st.sends i = some o → st.sends j = some o' → o.tempId = o'.tempId → i = j
  nodup : st.waiting.Nodup
  sent : ∀ i ∈ st.waiting, (st.sends i).isSome
  queues : ∀ c, st.pendingSendOrderByChat.queue c = (st.waitingFor c).map (·.tempId)
  confirmed : ∀ id t, st.pendingSends id = some t → st.Obtained t id
  matched : ∀ c e t r, st.inFlight c = some (e, some t) → e.messageInfo.renderable = true →
    e.renderedId = some r → st.Obtained t r
  rendered : ∀ t r, (t, r) ∈ st.rendered → st.Obtained t r

theorem Obtained.congr {st' : Bubbles κ ν} {t r : String} (h : st.Obtained t r)
    (hsends : ∀ i o, st.sends i = some o → ∃ o', st'.sends i = some o' ∧ o'.tempId = o.tempId ∧
      (∀ id, o.id = some id → o'.id = some id)) : st'.Obtained t r := by
  obtain ⟨i, o, ho, rfl, hid⟩ := h
  obtain ⟨o', ho', ht, hids⟩ := hsends i o ho
  exact ⟨i, o', ho', ht, hids r hid⟩

/-- A send has one message id. -/
theorem Sound.matchesOwn (h : st.Sound) : st.MatchesOwn := by
  refine ⟨h.rendered, fun t r r' hr hr' => ?_⟩
  obtain ⟨i, o, ho, ht, hid⟩ := h.rendered t r hr
  obtain ⟨j, o', ho', ht', hid'⟩ := h.rendered t r' hr'
  obtain rfl := h.distinct i j o o' ho ho' (ht.trans ht'.symm)
  obtain rfl : o = o' := Option.some.inj (ho.symm.trans ho')
  exact Option.some.inj (hid.symm.trans hid')

/-- The temporary ids that wait for a chat. -/
theorem waitingFor_tempIds (st : Bubbles κ ν) (c : String) :
    (st.waitingFor c).map (·.tempId) =
      st.waiting.filterMap fun i => ((st.sends i).filter (·.chatId = c)).map (·.tempId) := by
  rw [waitingFor, List.map_filterMap]

theorem mem_waitingFor {c : String} {o : Outgoing} (h : o ∈ st.waitingFor c) :
    ∃ i ∈ st.waiting, st.sends i = some o ∧ o.chatId = c := by
  obtain ⟨i, hi, ho⟩ := List.mem_filterMap.mp h
  rw [Option.filter_eq_some_iff] at ho
  exact ⟨i, hi, ho.1, of_decide_eq_true ho.2⟩

theorem Sound.mem_queue (h : st.Sound) {c t : String}
    (ht : t ∈ st.pendingSendOrderByChat.queue c) :
    ∃ i o, st.sends i = some o ∧ o.tempId = t ∧ o.chatId = c := by
  rw [h.queues, List.mem_map] at ht
  obtain ⟨o, ho, rfl⟩ := ht
  obtain ⟨i, -, hi, hc⟩ := mem_waitingFor ho
  exact ⟨i, o, hi, rfl, hc⟩

/-- A temporary id waits in one chat. -/
theorem Sound.one_queue (h : st.Sound) (t c c' : String)
    (hc : t ∈ st.pendingSendOrderByChat.queue c) (hc' : t ∈ st.pendingSendOrderByChat.queue c') :
    c = c' := by
  obtain ⟨i, o, ho, ht, rfl⟩ := h.mem_queue hc
  obtain ⟨j, o', ho', ht', rfl⟩ := h.mem_queue hc'
  obtain rfl := h.distinct i j o o' ho ho' (ht.trans ht'.symm)
  rw [Option.some.inj (ho.symm.trans ho')]

theorem Sound.queue_nodup (h : st.Sound) (c : String) :
    (st.pendingSendOrderByChat.queue c).Nodup := by
  rw [h.queues, waitingFor_tempIds]
  refine h.nodup.filterMap fun i j t hi hj => ?_
  obtain ⟨o, ho, rfl⟩ := Option.map_eq_some_iff.mp hi
  obtain ⟨o', ho', ht⟩ := Option.map_eq_some_iff.mp hj
  rw [Option.filter_eq_some_iff] at ho ho'
  exact h.distinct i j o o' ho.1 ho'.1 ht.symm

/-! ## One step -/

/-- The sends with another temporary id go on waiting. -/
theorem waitingFor_settle (st : Bubbles κ ν) (tempId c : String) :
    (st.settle tempId).waitingFor c = (st.waitingFor c).filter (·.tempId ≠ tempId) := by
  show (st.waiting.filter _).filterMap _ = (st.waiting.filterMap _).filter _
  rw [List.filterMap_filter, List.filter_filterMap]
  refine List.filterMap_congr fun i _ => ?_
  show (if (st.sends i).all _ = true then (st.sends i).filter _ else none) =
    ((st.sends i).filter _).filter _
  cases st.sends i with
  | none => rfl
  | some o => by_cases ht : o.tempId = tempId <;> by_cases hc : o.chatId = c <;>
      simp [Option.filter_some, ht, hc]

theorem Sound.settle (h : st.Sound) (tempId : String) : (st.settle tempId).Sound where
  distinct := h.distinct
  nodup := h.nodup.filter _
  sent := fun i hi => h.sent i (List.mem_filter.mp hi).1
  queues := fun c => by
    show (st.pendingSendOrderByChat.removePendingTemp tempId).queue c = _
    rw [SendOrder.queue_removePendingTemp (h.one_queue tempId), (h.queue_nodup c).erase_eq_filter,
      h.queues, waitingFor_settle, List.filter_map]
    congr 2
    funext o
    rw [Function.comp_apply, bne, beq_eq_decide, decide_not]
  confirmed := h.confirmed
  matched := h.matched
  rendered := h.rendered

/-- Sends that keep their chat and temporary id, and the message id they have. -/
theorem Sound.update (h : st.Sound) {i : κ} [DecidableEq κ] {o : Outgoing} (o' : Outgoing)
    (ho : st.sends i = some o) (hchat : o'.chatId = o.chatId) (htemp : o'.tempId = o.tempId)
    (hid : ∀ id, o.id = some id → o'.id = some id) : (st.setSend i o').Sound := by
  have hget : ∀ j, (Function.update st.sends i (some o') j).map (fun o => (o.chatId, o.tempId)) =
      (st.sends j).map fun o => (o.chatId, o.tempId) := fun j => by
    rcases Decidable.em (j = i) with rfl | hj
    · rw [Function.update_self, ho, Option.map_some, Option.map_some, hchat, htemp]
    · rw [Function.update_of_ne hj]
  have hold : ∀ j p, Function.update st.sends i (some o') j = some p →
      ∃ q, st.sends j = some q ∧ q.tempId = p.tempId := fun j p hp => by
    have := hget j
    rw [hp] at this
    obtain ⟨q, hq, heq⟩ := Option.map_eq_some_iff.mp this.symm
    exact ⟨q, hq, congrArg Prod.snd heq⟩
  have hobt : ∀ t r, st.Obtained t r → (st.setSend i o').Obtained t r := fun t r ht => by
    refine ht.congr fun j p hp => ?_
    show ∃ q, Function.update st.sends i (some o') j = some q ∧ _
    rcases Decidable.em (j = i) with rfl | hj
    · obtain rfl : o = p := Option.some.inj (ho.symm.trans hp)
      exact ⟨o', Function.update_self .., htemp, hid⟩
    · exact ⟨p, (Function.update_of_ne hj ..).trans hp, rfl, fun _ h => h⟩
  exact {
    distinct := fun a b p q hp hq ht => by
      obtain ⟨p', hp', hpt⟩ := hold a p hp
      obtain ⟨q', hq', hqt⟩ := hold b q hq
      exact h.distinct a b p' q' hp' hq' (hpt.trans (ht.trans hqt.symm))
    nodup := h.nodup
    sent := fun j hj => by
      have := congrArg Option.isSome (hget j)
      rw [Option.isSome_map, Option.isSome_map] at this
      exact this.trans (h.sent j hj)
    queues := fun c => by
      rw [waitingFor_tempIds]
      refine (h.queues c).trans ((waitingFor_tempIds st c).trans ?_)
      refine List.filterMap_congr fun j _ => ?_
      have := hget j
      show _ = ((Function.update st.sends i (some o') j).filter _).map _
      cases hq : Function.update st.sends i (some o') j with
      | none =>
        rw [hq, Option.map_none, eq_comm, Option.map_eq_none_iff] at this
        rw [this]
      | some q =>
        rw [hq, Option.map_some, eq_comm] at this
        obtain ⟨p, hp, heq⟩ := Option.map_eq_some_iff.mp this
        obtain ⟨hc, ht⟩ := Prod.mk.inj heq
        rw [hp]
        simp [Option.filter, hc, apply_ite, ht]
    confirmed := fun id t ht => hobt t id (h.confirmed id t ht)
    matched := fun c e t r hf hr hid => hobt t r (h.matched c e t r hf hr hid)
    rendered := fun t r hr => hobt t r (h.rendered t r hr) }

/-- A new send with a temporary id of its own. -/
theorem Sound.beginSend (h : st.Sound) [DecidableEq κ] {i : κ} (hi : st.sends i = none)
    {o : Outgoing} (hnew : ∀ j, (st.sends j).all (·.tempId ≠ o.tempId) = true) :
    (st.beginSend i o).Sound := by
  have hne : ∀ j p, st.sends j = some p → j ≠ i := fun j p hp hji => by
    rw [hji, hi] at hp
    cases hp
  have hget : ∀ j p, st.sends j = some p → (st.beginSend i o).sends j = some p :=
    fun j p hp => (Function.update_of_ne (hne j p hp) ..).trans hp
  have hself : (st.beginSend i o).sends i = some o := Function.update_self ..
  have hcases : ∀ j p, (st.beginSend i o).sends j = some p →
      (j = i ∧ p = o) ∨ (st.sends j = some p ∧ p.tempId ≠ o.tempId) := fun j p hp => by
    rcases Decidable.em (j = i) with rfl | hj
    · exact .inl ⟨rfl, Option.some.inj (hp.symm.trans hself)⟩
    · have hold := (Function.update_of_ne hj ..).symm.trans hp
      have := hnew j
      rw [hold] at this
      exact .inr ⟨hold, of_decide_eq_true this⟩
  have hobt : ∀ t r, st.Obtained t r → (st.beginSend i o).Obtained t r := fun t r ht =>
    ht.congr fun j p hp => ⟨p, hget j p hp, rfl, fun _ h => h⟩
  exact {
    distinct := fun a b p q hp hq ht => by
      rcases hcases a p hp with ⟨rfl, rfl⟩ | ⟨hp, hpt⟩ <;>
        rcases hcases b q hq with ⟨rfl, rfl⟩ | ⟨hq, hqt⟩
      · rfl
      · exact absurd ht.symm hqt
      · exact absurd ht hpt
      · exact h.distinct a b p q hp hq ht
    nodup := h.nodup.append (List.nodup_singleton i) fun j hj hji => by
      obtain ⟨p, hp⟩ := Option.isSome_iff_exists.mp (h.sent j hj)
      exact hne j p hp (List.mem_singleton.mp hji)
    sent := fun j hj => by
      rcases List.mem_append.mp hj with hj | hj
      · obtain ⟨p, hp⟩ := Option.isSome_iff_exists.mp (h.sent j hj)
        rw [hget j p hp]
        rfl
      · rw [List.mem_singleton.mp hj, hself]
        rfl
    queues := fun c => by
      show (st.pendingSendOrderByChat.queuePendingTemp o.chatId o.tempId).queue c =
        ((st.waiting ++ [i]).filterMap _).map _
      rw [SendOrder.queue_queuePendingTemp, List.filterMap_append, List.map_append, h.queues]
      congr 1
      · refine congrArg _ (List.filterMap_congr fun j hj => ?_)
        obtain ⟨p, hp⟩ := Option.isSome_iff_exists.mp (h.sent j hj)
        rw [hget j p hp, hp]
      · rw [List.filterMap_cons, hself]
        rcases Decidable.em (o.chatId = c) with hc | hc <;> simp [Option.filter_some, hc]
    confirmed := fun id t ht => hobt t id (h.confirmed id t ht)
    matched := fun c e t r hf hr hid => hobt t r (h.matched c e t r hf hr hid)
    rendered := fun t r hr => hobt t r (h.rendered t r hr) }

/-- What a lookup finds in order is the bubble of the message. -/
theorem Sound.lookup (h : st.Sound) {myMid : Option String} {e : SseEvent} {t r : String}
    {c : ν} (hord : BubbleStep.InOrder myMid st (.lookup c e))
    (ht : st.pendingTempIdForSseMessage myMid e.messageInfo = some t)
    (hr : e.messageInfo.renderable = true) (hid : e.renderedId = some r) : st.Obtained t r := by
  obtain ⟨hfits, hfirst⟩ := hord hr
  have hr : r = e.messageInfo.messageId := by
    rw [SseEvent.IdFits, hid] at hfits
    exact of_decide_eq_true hfits
  rw [hr]
  unfold pendingTempIdForSseMessage at ht
  rcases Option.or_eq_some_iff.mp ht with hc | ⟨hnone, hq⟩
  · unfold confirmedTempId at hc
    split at hc
    · exact h.confirmed _ _ hc
    · cases hc
  · obtain ⟨chatId, hchat, hhead⟩ := Option.bind_eq_some_iff.mp hq
    unfold SendOrder.firstPendingTempForChat at hhead
    rw [h.queues, List.head?_map] at hhead
    obtain ⟨o, ho, rfl⟩ := Option.map_eq_some_iff.mp hhead
    obtain ⟨i, -, hi, -⟩ := mem_waitingFor (List.mem_of_mem_head? ho)
    exact ⟨i, o, hi, rfl, hfirst hnone chatId hchat o ho⟩

theorem Sound.unconfirm (h : st.Sound) (id tempId : String) : (st.unconfirm id tempId).Sound := by
  have hold : ∀ r t, (st.unconfirm id tempId).pendingSends r = some t →
      st.pendingSends r = some t := fun r t ht => by
    unfold Bubbles.unconfirm at ht
    dsimp only at ht
    split at ht
    · rcases Decidable.em (r = id) with rfl | hr
      · rw [Function.update_self] at ht
        cases ht
      · exact (Function.update_of_ne hr ..).symm.trans ht
    · exact ht
  exact { h with confirmed := fun r t ht => h.confirmed r t (hold r t ht) }

theorem Sound.consume (h : st.Sound) (e : SseEvent) (tempId : Option String) :
    (st.consume e tempId).Sound := by
  cases tempId with
  | none => exact h
  | some t => exact (h.unconfirm _ t).settle t

theorem Sound.setInFlight [DecidableEq ν] (h : st.Sound) (c : ν)
    {f : Option (SseEvent × Option String)}
    (hf : ∀ e t r, f = some (e, some t) → e.messageInfo.renderable = true →
      e.renderedId = some r → st.Obtained t r) : (st.setInFlight c f).Sound := by
  refine { h with matched := fun c' e t r hin hr hid => ?_ }
  show st.Obtained t r
  rcases Decidable.em (c' = c) with rfl | hc
  · have hself : (st.setInFlight c' f).inFlight c' = f := Function.update_self ..
    exact hf e t r (hself.symm.trans hin) hr hid
  · exact h.matched c' e t r ((Function.update_of_ne hc ..).symm.trans hin) hr hid

theorem consume_obtained (e : SseEvent) (tempId : Option String) (t r : String) :
    (st.consume e tempId).Obtained t r ↔ st.Obtained t r := by
  cases tempId <;> exact Iff.rfl

/-- A step in order keeps every bubble matched. -/
theorem Sound.step [DecidableEq κ] [DecidableEq ν] (h : st.Sound) {myMid : Option String}
    {e : BubbleStep κ ν} {st' : Bubbles κ ν} (hord : e.InOrder myMid st)
    (hstep : st.step myMid e = some st') : st'.Sound := by
  cases e with
  | queue i chatId nowMs =>
    simp only [Bubbles.step] at hstep
    split at hstep
    · cases hstep
    · rename_i hi
      obtain rfl := Option.some.inj hstep
      exact h.beginSend hi hord
  | accept i id =>
    simp only [Bubbles.step] at hstep
    split at hstep
    · rename_i o ho
      split at hstep
      · rename_i hnone
        obtain rfl := Option.some.inj hstep
        exact h.update _ ho rfl rfl fun r hr => by rw [hnone.1] at hr; cases hr
      · cases hstep
    · cases hstep
  | confirm i =>
    simp only [Bubbles.step] at hstep
    split at hstep
    · rename_i o ho
      split at hstep
      · rename_i id hid hfin
        obtain rfl := Option.some.inj hstep
        have hs := h.update { o with finished := true } ho rfl rfl fun _ hr => hr
        refine { hs with confirmed := fun r t ht => ?_ }
        replace ht : (if id ≠ "" then Function.update st.pendingSends id (some o.tempId)
          else st.pendingSends) r = some t := ht
        split at ht
        · rcases Decidable.em (r = id) with rfl | hr
          · rw [Function.update_self] at ht
            exact ⟨i, _, Function.update_self .., Option.some.inj ht, hid⟩
          · rw [Function.update_of_ne hr] at ht
            exact hs.confirmed r t ht
        · exact hs.confirmed r t ht
      · cases hstep
    · cases hstep
  | fail i =>
    simp only [Bubbles.step] at hstep
    split at hstep
    · rename_i o ho
      split at hstep
      · obtain rfl := Option.some.inj hstep
        exact (h.update { o with finished := true } ho rfl rfl fun _ hr => hr).settle _
      · cases hstep
    · cases hstep
  | lookup c e =>
    simp only [Bubbles.step] at hstep
    split at hstep
    · cases hstep
    · obtain rfl := Option.some.inj hstep
      refine h.setInFlight c fun e' t r hf hr hid => ?_
      obtain ⟨rfl, ht⟩ := Prod.mk.inj (Option.some.inj hf)
      exact h.lookup hord ht hr hid
  | process c ok db =>
    simp only [Bubbles.step] at hstep
    split at hstep
    · cases hstep
    · rename_i e tempId hf
      have hs : (st.setInFlight c none).Sound := h.setInFlight c fun _ _ _ hnone => by cases hnone
      split at hstep
      · obtain rfl := Option.some.inj hstep
        refine { hs.consume e tempId with rendered := fun t r hr => ?_ }
        refine (consume_obtained e tempId t r).mpr ?_
        rcases List.mem_append.mp hr with hr | hr
        · exact h.rendered t r hr
        · obtain ⟨hdraw, hid, rfl⟩ := replacedBubble_some (Option.mem_toList.mp hr)
          exact h.matched c e t r hf hdraw hid
      · obtain rfl := Option.some.inj hstep
        exact hs

theorem sound_init : Sound ({} : Bubbles κ ν) where
  distinct := fun _ _ _ _ h => by cases h
  nodup := List.nodup_nil
  sent := fun _ h => by cases h
  queues := fun _ => rfl
  confirmed := fun _ _ h => by cases h
  matched := fun _ _ _ _ h => by cases h
  rendered := fun _ _ h => by cases h

end Bubbles

/-- Where sends and echoes are in order, a bubble is only replaced by the message of its own
send. -/
theorem bubbles_match_own {κ ν : Type} [DecidableEq κ] [DecidableEq ν] {myMid : Option String}
    {steps : List (BubbleStep κ ν)} {st : Bubbles κ ν}
    (hmeets : (bubbles myMid κ ν).Meets (fun st e => e.InOrder myMid st) {} steps)
    (hrun : (bubbles myMid κ ν).run {} steps = some st) : st.MatchesOwn :=
  (Machine.run_invariant_of_meets (I := fun st : Bubbles κ ν => st.Sound)
    (fun h hord hstep => h.step hord hstep) Bubbles.sound_init hmeets hrun).matchesOwn

/-- The echo of a message of `u0` to `u1`. -/
def ownEcho (id : String) : Json := .obj [("type", .num 25), ("message", .obj
  [("id", .str id), ("from", .str "u0"), ("to", .str "u1"), ("toType", .num 0)])]

def firstEcho : SseEvent := .ofJson (ownEcho "m1") (by decide) (by decide)

def secondEcho : SseEvent := .ofJson (ownEcho "m2") (by decide) (by decide)

/-- A database where every message is in the chat `u1`. -/
def storedEchoes : Db where
  messageBoxes := fun _ => none
  messages := fun _ => some { chatId := "u1" }
  messageBoxReaders := fun _ => none

def twoSends : List (BubbleStep Bool Unit) := [.queue false "u1" 1, .queue true "u1" 2,
  .accept false "m1", .accept true "m2"]

/-- The echoes arrive in the order of the sends; the second send is confirmed before. -/
theorem bubbles_match_own_twoSends : ∃ st : Bubbles Bool Unit,
    (bubbles (some "u0") Bool Unit).run {} (twoSends ++ [.lookup () firstEcho,
      .process () true storedEchoes, .confirm true, .lookup () secondEcho,
      .process () true storedEchoes]) = some st ∧
    st.rendered = [("local-1", "m1"), ("local-2", "m2")] ∧ st.MatchesOwn := by
  have hrun : ((bubbles (some "u0") Bool Unit).run {} (twoSends ++ [.lookup () firstEcho,
      .process () true storedEchoes, .confirm true, .lookup () secondEcho,
      .process () true storedEchoes])).map (·.rendered) =
      some [("local-1", "m1"), ("local-2", "m2")] := by
    decide
  obtain ⟨st, hst, hrendered⟩ := Option.map_eq_some_iff.mp hrun
  exact ⟨st, hst, hrendered, bubbles_match_own (by decide) hst⟩

/-- The echo of the second send arrives first and replaces the bubble of the first send. -/
theorem bubble_of_other_send : ¬ ∀ (steps : List (BubbleStep Bool Unit)) (st : Bubbles Bool Unit),
    (bubbles (some "u0") Bool Unit).run {} steps = some st → st.MatchesOwn := by
  intro hall
  have hrun : ((bubbles (some "u0") Bool Unit).run {} (twoSends ++ [.lookup () secondEcho,
      .process () true storedEchoes])).map
        (fun st => (st.rendered, st.sends false, st.sends true)) =
      some ([("local-1", "m2")],
        some { chatId := "u1", tempId := "local-1", id := some "m1" },
        some { chatId := "u1", tempId := "local-2", id := some "m2" }) := by
    decide
  obtain ⟨st, hst, hends⟩ := Option.map_eq_some_iff.mp hrun
  obtain ⟨hrendered, hsends⟩ := Prod.mk.inj hends
  obtain ⟨hfirst, hsecond⟩ := Prod.mk.inj hsends
  obtain ⟨i, o, ho, htemp, hid⟩ := (hall _ st hst).1 "local-1" "m2" (by simp [hrendered])
  cases i with
  | false =>
    obtain rfl := Option.some.inj (hfirst.symm.trans ho)
    exact absurd hid (by decide)
  | true =>
    obtain rfl := Option.some.inj (hsecond.symm.trans ho)
    exact absurd htemp (by decide)

end Enil
