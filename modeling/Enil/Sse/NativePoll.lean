import Enil.Sse.Client

/-!
# The native poll

`enil_native_poll`: one turn of the loop asks for the operations after the cursor and
dispatches those of the reply in order, up to the first that fails. Only a reply that
was delivered whole moves the two revisions kept in the session. Delays between turns
are left out.
-/

namespace Enil

/-- ENILLineResponse. -/
structure PollReply where
  status : Int
  body : Option String := none

structure PollTurn where
  /-- enil_session_continue_identity. -/
  identity : Bool := true
  /-- The flags up when the request has returned. -/
  during : Handled := {}
  reply : PollReply
  /-- What the callback and the cursor write answer to each event. -/
  answers : List Handled := []
  patchWrite : WriteResult := .written

/-- The client and session of the loop, with the number of failed turns in a row. -/
structure PollState where
  client : SseClient
  session : Option Fields
  failures : Nat := 0
  running : Bool := true

/-- The client while the events of one reply are dispatched. -/
structure Polling where
  client : SseClient
  events : List Dispatched := []
  answers : List Handled := []

section

variable (cj : Cjson)

def nativeDispatch (p : Polling) (type : String) (data : Json) : Bool × Polling :=
  let e : StreamEvent := ⟨type, cj.print data⟩
  let h := p.answers.headD {}
  let c := p.client.raise h
  let (ok, c) :=
    if c.accepts h then
      if type = "fullSync" then (true, c) else c.saveLocalRev (eventRevision cj e) h.write
    else (false, c)
  (ok, { client := c, events := p.events ++ [⟨e, h, ok⟩], answers := p.answers.tail })

/-- The loop over the operations: it ends with the first that fails. -/
def nativeDispatchAll : Polling → List (String × Json) → Bool × Polling
  | p, [] => (true, p)
  | p, (type, data) :: rest =>
    match nativeDispatch cj p type data with
    | (true, p) => nativeDispatchAll p rest
    | (false, p) => (false, p)

/-- The operations of a reply and its partial-sync event, with their types. -/
def replyEvents (data : Json) : List (String × Json) :=
  let operations := ((data.getObjectItemCaseSensitive "operationResponse").bind
    (·.getObjectItemCaseSensitive "operations")).elim [] (·.children)
  operations.map (("message", ·)) ++
    (data.getObjectItemCaseSensitive "partialFullSyncResponse").toList.map (("partialFullSync", ·))

/-- The revisions of a reply that the session keeps. -/
def replyPatch (data : Json) : Fields :=
  let lastRevision (key : String) := ((data.getObjectItemCaseSensitive "operationResponse").bind
    (·.getObjectItemCaseSensitive key)).bind (·.getObjectItemCaseSensitive "lastRevision")
  (lastRevision "globalEvents").toList.map (("nativeGlobalRevision", ·)) ++
    (lastRevision "individualEvents").toList.map (("nativeIndividualRevision", ·))

/-- The end of a turn: the fifth failure in a row fails the account. -/
def finishTurn (s : PollState) (ok : Bool) : PollState :=
  let failures := if ok then 0 else s.failures + 1
  { s with
    failures := failures
    client := { s.client with healthFailed := s.client.healthFailed || 5 ≤ failures }
    running := s.running && failures < 5 }

/-- A reply with operations: they are dispatched, then the revisions are patched. -/
def pollOperations (turn : PollTurn) (s : PollState) (data : Json) : PollState × Batch :=
  let events := replyEvents data
  let (ok, p) := nativeDispatchAll cj { client := s.client, answers := turn.answers } events
  let patch := replyPatch data
  let (ok', session) :=
    if ok && !patch.isEmpty then sessionPatch s.session patch turn.patchWrite
    else (ok, s.session)
  (finishTurn { s with client := p.client, session := session } ok',
    { events := p.events
      reply := events.map fun e => ⟨e.1, cj.print e.2⟩
      patch := if ok && s.session.isSome && turn.patchWrite.visible then patch else [] })

/-- A reply that is one event by itself, after which the loop ends. -/
def pollSingle (turn : PollTurn) (s : PollState) (type : String) (data : Json) :
    PollState × Batch :=
  let (_, p) := nativeDispatch cj { client := s.client, answers := turn.answers } type data
  ({ s with client := p.client, running := false },
    { events := p.events, reply := [⟨type, cj.print data⟩] })

/-- What a turn does with the response of its request. -/
def pollResponse (turn : PollTurn) (s : PollState) : PollState × Batch :=
  let reply := turn.reply
  if reply.status = 204 ∨ s.client.reconnect ∨ s.client.stop then
    ({ s with failures :=
        if reply.status = 204 ∧ !s.client.reconnect ∧ !s.client.stop then 0 else s.failures }, {})
  else if reply.status = 400 ∧ reply.body.isSome then
    match reply.body.bind cj.parse with
    | some root => pollSingle cj turn s "talkException" root
    | none => ({ s with running := false }, {})
  else
    let root := if reply.status = 200 then reply.body.bind cj.parse else none
    match root.bind (·.getObjectItemCaseSensitive "data") with
    | none => (finishTurn s false, {})
    | some data =>
      match data.getObjectItemCaseSensitive "fullSyncResponse" with
      | some v => pollSingle cj turn s "fullSync" v
      | none => pollOperations cj turn s data

def sessionToken (session : Option Fields) : Option String :=
  (session.bind (·.get "accessToken")).bind (·.getStringValue)

/-- One turn of enil_native_poll. -/
def nativePoll (turn : PollTurn) (s : PollState) : PollState × Batch :=
  if s.client.stop || s.client.healthFailed then ({ s with running := false }, {})
  else if !turn.identity || (sessionToken s.session).isNone then ({ s with running := false }, {})
  else pollResponse cj turn
    { s with client := { s.client with reconnect := false }.raise turn.during }

end

/-! ## What a reply does to the cursor -/

variable (cj : Cjson)

theorem nativeDispatch_dispatch (p : Polling) (type : String) (data : Json) :
    ∃ e, (nativeDispatch cj p type data).2.events = p.events ++ [e] ∧
      e.event = ⟨type, cj.print data⟩ ∧ e.ok = (nativeDispatch cj p type data).1 ∧
      Dispatch cj p.client (nativeDispatch cj p type data).2.client e := by
  refine ⟨⟨⟨type, cj.print data⟩, p.answers.headD {}, (nativeDispatch cj p type data).1⟩,
    rfl, rfl, rfl, ?_⟩
  unfold nativeDispatch
  simp only
  split
  · rename_i haccepts
    have hcallback : (p.answers.headD {}).callback = true := by
      unfold SseClient.accepts at haccepts
      simp only [Bool.and_eq_true] at haccepts
      exact haccepts.1.1
    split
    · exact .of_cursor _ rfl rfl
    · rename_i htype
      have hsave := dispatch_saveLocalRev cj (p.client.raise (p.answers.headD {}))
        (e := ⟨type, cj.print data⟩) hcallback htype
      exact ⟨hsave.inStep, hsave.backed⟩
  · exact .of_cursor _ rfl rfl

/-- The operations are dispatched in order up to the first that fails. -/
theorem nativeDispatchAll_reads {p : Polling} (h : ∀ e ∈ p.events, e.ok = true)
    (events : List (String × Json)) :
    Reads cj p.client p.events (nativeDispatchAll cj p events).2.client
      (nativeDispatchAll cj p events).2.events ∧
    ((nativeDispatchAll cj p events).1 = true →
      (∀ e ∈ (nativeDispatchAll cj p events).2.events, e.ok = true) ∧
      (nativeDispatchAll cj p events).2.events.map (·.event) =
        p.events.map (·.event) ++ events.map fun e => ⟨e.1, cj.print e.2⟩) := by
  induction events generalizing p with
  | nil => exact ⟨.of_quiet (.of_all h) rfl rfl, fun _ => ⟨h, by simp [nativeDispatchAll]⟩⟩
  | cons event rest ih =>
    obtain ⟨type, data⟩ := event
    obtain ⟨e, hevents, hevent, hok, hdispatch⟩ := nativeDispatch_dispatch cj p type data
    have hone := Reads.of_dispatch h hdispatch
    rw [← hevents] at hone
    unfold nativeDispatchAll
    rcases hd : nativeDispatch cj p type data with ⟨ok, p'⟩
    rw [hd] at hevents hok hone
    cases ok with
    | false => exact ⟨hone, fun hfalse => by cases hfalse⟩
    | true =>
      have hall : ∀ e' ∈ p'.events, e'.ok = true := fun e' he' => by
        rw [hevents] at he'
        rcases List.mem_append.mp he' with he' | he'
        · exact h e' he'
        · rw [List.mem_singleton.mp he']; exact hok
      obtain ⟨hreads, hrest⟩ := ih hall
      refine ⟨hone.trans hreads, fun htrue => ⟨(hrest htrue).1, ?_⟩⟩
      rw [(hrest htrue).2, hevents]
      simp [hevent]

/-- What a turn of the loop does: its events are behind the cursor and stop at a
failure, and the session changes only by the patch of a reply delivered whole. -/
structure Turned (cj : Cjson) (s s' : PollState) (b : Batch) : Prop where
  reads : Reads cj s.client [] s'.client b.events
  session : s'.session = s.session.map fun fs => b.patch.foldl Fields.put fs
  whole : b.patch ≠ [] → b.events.map (·.event) = b.reply ∧ ∀ e ∈ b.events, e.ok = true

variable {cj} in
/-- A turn that dispatches nothing. -/
theorem Turned.of_quiet {s s' : PollState} (hrev : s'.client.localRev = s.client.localRev)
    (hstored : s'.client.storedRev = s.client.storedRev) (hsession : s'.session = s.session) :
    Turned cj s s' {} :=
  ⟨.of_quiet .nil hrev hstored, by rw [hsession]; simp, fun h => absurd rfl h⟩

variable {cj} in
theorem Turned.of_client {s₀ s s' : PollState} {b : Batch} (h : Turned cj s s' b)
    (hrev : s.client.localRev = s₀.client.localRev)
    (hstored : s.client.storedRev = s₀.client.storedRev) (hsession : s.session = s₀.session) :
    Turned cj s₀ s' b :=
  ⟨(Reads.of_quiet .nil hrev hstored).trans h.reads, by rw [h.session, hsession], h.whole⟩

theorem turned_pollSingle (turn : PollTurn) (s : PollState) (type : String) (data : Json) :
    Turned cj s (pollSingle cj turn s type data).1 (pollSingle cj turn s type data).2 := by
  obtain ⟨e, hevents, -, -, hdispatch⟩ := nativeDispatch_dispatch cj
    { client := s.client, answers := turn.answers } type data
  have hnone : ∀ e ∈ ([] : List Dispatched), e.ok = true := fun _ he => by cases he
  have hreads := Reads.of_dispatch hnone hdispatch
  rw [List.nil_append] at hreads
  refine ⟨?_, by simp [pollSingle], fun h => absurd rfl h⟩
  simp only [pollSingle, hevents, List.nil_append]
  exact hreads

/-- The revisions are patched only after every event of the reply was delivered. -/
theorem turned_pollOperations (turn : PollTurn) (s : PollState) (data : Json) :
    Turned cj s (pollOperations cj turn s data).1 (pollOperations cj turn s data).2 := by
  obtain ⟨hreads, hall⟩ := nativeDispatchAll_reads cj
    (p := { client := s.client, answers := turn.answers }) (fun _ he => by cases he)
    (replyEvents data)
  unfold pollOperations
  simp only
  refine ⟨?_, ?_, fun hpatch => ?_⟩
  · exact hreads.trans (.of_quiet hreads.stops rfl rfl)
  · simp only [finishTurn]
    cases hok : (nativeDispatchAll cj { client := s.client, answers := turn.answers }
      (replyEvents data)).1 with
    | false => simp
    | true =>
      cases hempty : (replyPatch data).isEmpty with
      | true => rw [List.isEmpty_iff] at hempty; simp [hempty]
      | false =>
        cases hs : s.session with
        | none => simp [sessionPatch]
        | some fs => cases turn.patchWrite <;> simp [sessionPatch, sessionWrite, WriteResult.visible]
  · cases hok : (nativeDispatchAll cj { client := s.client, answers := turn.answers }
      (replyEvents data)).1 with
    | false => simp [hok] at hpatch
    | true =>
      obtain ⟨hdelivered, hevents⟩ := hall hok
      exact ⟨by simpa using hevents, hdelivered⟩

theorem turned_pollResponse (turn : PollTurn) (s : PollState) :
    Turned cj s (pollResponse cj turn s).1 (pollResponse cj turn s).2 := by
  unfold pollResponse
  simp only
  split
  · exact .of_quiet rfl rfl rfl
  · split
    · split
      · exact turned_pollSingle _ _ _ _ _
      · exact .of_quiet rfl rfl rfl
    · split
      · exact .of_quiet rfl rfl rfl
      · split
        · exact turned_pollSingle _ _ _ _ _
        · exact turned_pollOperations _ _ _ _

theorem turned_nativePoll (turn : PollTurn) (s : PollState) :
    Turned cj s (nativePoll cj turn s).1 (nativePoll cj turn s).2 := by
  unfold nativePoll
  split
  · exact .of_quiet rfl rfl rfl
  · split
    · exact .of_quiet rfl rfl rfl
    · exact (turned_pollResponse _ _ _).of_client rfl rfl rfl

end Enil
