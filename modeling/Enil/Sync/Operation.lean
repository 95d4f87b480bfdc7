import Enil.Db.Messages

/-!
# Operations of the event stream

`talk_operation_parse`: the operation a JSON event holds, with the message in it
and the chat that message belongs to.
-/

namespace Enil

inductive OpType where
  | sendMessage
  | receiveMessage
  | sendChatChecked
  | updateContact
  | notifiedReadMessage
  | destroyMessage
  | notifiedDestroyMessage
  | updateChat
  | notifiedUpdateChat
  | sendReaction
  | notifiedSendReaction
  | unhandled
  deriving DecidableEq, Repr

/-- The numbers of ENIL_OP_LIST. -/
def OpType.ofInt (n : Int) : OpType :=
  if n = 25 then .sendMessage
  else if n = 26 then .receiveMessage
  else if n = 40 then .sendChatChecked
  else if n = 49 then .updateContact
  else if n = 55 then .notifiedReadMessage
  else if n = 64 then .destroyMessage
  else if n = 65 then .notifiedDestroyMessage
  else if n = 121 then .updateChat
  else if n = 122 then .notifiedUpdateChat
  else if n = 139 then .sendReaction
  else if n = 140 then .notifiedSendReaction
  else .unhandled

structure TalkOperation where
  type : OpType
  createdTime : Int := 0
  param1 : Option String := none
  param2 : Option String := none
  param3 : Option String := none
  message : Option TalkMessage := none

/-- operation_chat_id: the peer of a 1:1 message, else the addressed chat. -/
def operationChatId (msg : Json) (myMid : Option String) : Option String :=
  let toMid := msg.stringItem "to"
  let toType := match msg.getObjectItem "toType" with
    | some (.num q) => Json.truncate q
    | _ => 0
  if toType = 0 ∧ toMid.isSome ∧ toMid = myMid then msg.stringItem "from" else toMid

def talkOperationParse (root : Json) (myMid : Option String) : TalkOperation where
  type := OpType.ofInt (root.getInt "type")
  createdTime := root.getInt64 "createdTime"
  param1 := root.dupStringOpt "param1"
  param2 := root.dupStringOpt "param2"
  param3 := root.dupStringOpt "param3"
  message := ((root.getObjectItemCaseSensitive "message").filter (·.isObject)).bind fun msg =>
    talkMessageParse msg (operationChatId msg myMid)

/-- The data of an event, with the keys of the event and of its message distinct
ignoring case, so that the exact lookups of the parser and those without regard to
case agree. -/
structure SseEvent where
  root : Json
  rootDistinct : root.KeysDistinct
  msgDistinct : ∀ msg, root.getObjectItem "message" = some msg → msg.KeysDistinct

namespace SseEvent

/-- An event whose keys were checked. -/
def ofJson (root : Json) (h : root.KeysDistinct)
    (hmsg : (root.getObjectItem "message").all (fun msg => decide msg.KeysDistinct) = true) :
    SseEvent where
  root := root
  rootDistinct := h
  msgDistinct := fun msg hget => by rw [hget] at hmsg; simpa using hmsg

variable (e : SseEvent) {myMid : Option String}

def op (myMid : Option String) : TalkOperation := talkOperationParse e.root myMid

/-- The parsed message and the JSON object are the same message. -/
theorem msg_of_message {m : TalkMessage} (h : (e.op myMid).message = some m) :
    ∃ msg, e.root.getObjectItem "message" = some msg ∧ msg.stringItem "id" = some m.id := by
  obtain ⟨msg, hmsg, hm⟩ := Option.bind_eq_some_iff.mp h
  rw [Option.filter_eq_some_iff] at hmsg
  have hget := Json.getObjectItem_of_caseSensitive e.rootDistinct hmsg.1
  refine ⟨msg, hget, ?_⟩
  obtain ⟨id, hid, rfl⟩ := Option.map_eq_some_iff.mp hm
  obtain ⟨v, hv, hs⟩ := Option.bind_eq_some_iff.mp hid
  rw [Json.stringItem, Json.getObjectItem_of_caseSensitive (e.msgDistinct msg hget) hv]
  exact hs

end SseEvent

end Enil
