import Enil.Sse.Client

/-!
# The event stream

`write_cb` reads the stream byte by byte: a line ends at LF, an empty line dispatches
the event read so far. A byte is the character with its number. The transfer ends
where `write_cb` returns 0.
-/

namespace Enil

abbrev Bytes := List Char

def sseMaxEventSize : Nat := 8 * 1024 * 1024

/-- `data: ` and the CR of CRLF on top of an event. -/
def sseMaxLineSize : Nat := sseMaxEventSize + 7

/-- `sizeof(event_type)`. -/
def eventTypeSize : Nat := 64

/-- The string a C pointer into a buffer stands for. -/
def cstr (bytes : Bytes) : Bytes := bytes.takeWhile (· ≠ '\x00')

structure SseState where
  line : Bytes := []
  eventType : Bytes := []
  data : Bytes := []
  hasData : Bool := false
  deriving DecidableEq, Repr

/-- The state of one transfer: what is parsed, the client, the events dispatched so
far, and what the next ones will be answered. -/
structure Receiving where
  state : SseState
  client : SseClient
  events : List Dispatched := []
  answers : List Handled := []

namespace Receiving

/-- What `append_sse` and an over-long event type leave behind. -/
def reject (r : Receiving) : Receiving :=
  { r with client := { r.client with deliveryFailed := true, healthFailed := true } }

/-- append_sse: the buffer with the text, unless it would grow over the limit. -/
def appendSse (buf text : Bytes) (limit : Nat) : Option Bytes :=
  if limit - buf.length < text.length then none else some (buf ++ text)

variable (cj : Cjson)

/-- The event that an empty line completes. -/
def event (s : SseState) : StreamEvent where
  type := if s.eventType = [] then "message" else String.ofList s.eventType
  data := String.ofList s.data

/-- What follows a callback that returned success: a full sync stops the client and
keeps the cursor, any other event moves it. -/
def settle (c : SseClient) (e : StreamEvent) (h : Handled) : Bool × SseClient :=
  if e.type = "fullSync" then (true, { c with stop := true })
  else
    let (saved, c) := c.saveLocalRev (eventRevision cj e) h.write
    (saved, { c with deliveryFailed := c.deliveryFailed || !saved })

/-- What the client is after an event, and whether the event was delivered. -/
def handle (c : SseClient) (e : StreamEvent) (h : Handled) : Bool × SseClient :=
  let c := c.raise h
  if c.accepts h then
    let (ok, c) := settle cj c e h
    (ok, { c with reconnect := c.reconnect || e.type == "reconnect" })
  else (false, { c with deliveryFailed := true })

def dispatchEvent (r : Receiving) : Receiving :=
  let s := r.state
  if s.eventType = [] ∧ !s.hasData then r
  else
    let h := r.answers.headD {}
    let (ok, c) := handle cj r.client (event s) h
    { state := if (r.client.raise h).accepts h then { s with eventType := [], data := [], hasData := false }
        else s
      client := c
      events := r.events ++ [⟨event s, h, ok⟩]
      answers := r.answers.tail }

/-- The value of a field line: one space after the colon is dropped. -/
def fieldValue (line : Bytes) (name : String) : Option Bytes :=
  if name.toList.isPrefixOf line then
    let val := cstr (line.drop name.length)
    some (if val.head? = some ' ' then val.tail else val)
  else none

def processLine (r : Receiving) : Receiving :=
  let s := r.state
  if s.line = [] then r.dispatchEvent cj
  else match fieldValue s.line "event:" with
    | some val =>
      if eventTypeSize ≤ val.length then r.reject
      else { r with state := { s with eventType := val } }
    | none => match fieldValue s.line "data:" with
      | some val =>
        let joined := if s.hasData then appendSse s.data ['\n'] sseMaxEventSize else some s.data
        match joined.bind fun buf => appendSse buf val sseMaxEventSize with
        | some buf => { r with state := { s with data := buf, hasData := true } }
        | none => r.reject
      | none => r

/-- The end of a line: a CR before LF is dropped. -/
def endLine (r : Receiving) : Receiving :=
  let line := r.state.line
  let line := if line.getLast? = some '\r' then line.dropLast else line
  let r := processLine cj { r with state := { r.state with line := line } }
  { r with state := { r.state with line := [] } }

/-- One byte of `write_cb`, and whether the transfer goes on. -/
def writeByte (r : Receiving) (byte : Char) : Bool × Receiving :=
  if byte = '\n' then
    let r := r.endLine cj
    (!(r.client.stop || r.client.reconnect || r.client.deliveryFailed), r)
  else match appendSse r.state.line [byte] sseMaxLineSize with
    | some line => (true, { r with state := { r.state with line := line } })
    | none => (false, r.reject)

/-- write_cb on one chunk. -/
def writeCb (r : Receiving) : Bytes → Bool × Receiving
  | [] => (!(r.client.reconnect || r.client.stop), r)
  | byte :: bytes =>
    match r.writeByte cj byte with
    | (true, r) => writeCb r bytes
    | (false, r) => (false, r)

/-! ## What a transfer does to the cursor -/

/-- The transfer may go on: all events were delivered. -/
structure Clean (r : Receiving) : Prop where
  delivered : ∀ e ∈ r.events, e.ok = true
  notFailed : r.client.deliveryFailed = false

/-- What a step of the transfer does to the cursor and the events. -/
abbrev Step (r r' : Receiving) : Prop := Reads cj r.client r.events r'.client r'.events

theorem Clean.stops {r : Receiving} (h : r.Clean) : StopsAtFailure r.events :=
  .of_all h.delivered

theorem reads_reject {r : Receiving} (h : r.Clean) : Step cj r r.reject := .of_quiet h.stops rfl rfl

theorem settle_dispatch (c : SseClient) (e : StreamEvent) {h : Handled}
    (hcallback : h.callback = true) :
    Dispatch cj c (settle cj c e h).2 ⟨e, h, (settle cj c e h).1⟩ ∧
    (settle cj c e h).2.deliveryFailed = (c.deliveryFailed || !(settle cj c e h).1) := by
  unfold settle
  by_cases htype : e.type = "fullSync"
  · rw [if_pos htype]
    exact ⟨.of_cursor _ rfl rfl, by simp⟩
  · rw [if_neg htype]
    have hsave := dispatch_saveLocalRev cj c hcallback htype
    have hfailed : (c.saveLocalRev (eventRevision cj e) h.write).2.deliveryFailed =
        c.deliveryFailed := by
      unfold SseClient.saveLocalRev; split <;> [rfl; split <;> rfl]
    exact ⟨⟨hsave.inStep, hsave.backed⟩, by simp only [hfailed]⟩

/-- An event that is not delivered fails the transfer. -/
theorem handle_dispatch (c : SseClient) (e : StreamEvent) (h : Handled) :
    Dispatch cj c (handle cj c e h).2 ⟨e, h, (handle cj c e h).1⟩ ∧
    (handle cj c e h).2.deliveryFailed = (c.deliveryFailed || !(handle cj c e h).1) := by
  unfold handle
  by_cases haccepts : (c.raise h).accepts h
  · have hcallback : h.callback = true := by
      unfold SseClient.accepts at haccepts
      simp only [Bool.and_eq_true] at haccepts
      exact haccepts.1.1
    rw [if_pos haccepts]
    obtain ⟨hdispatch, hfailed⟩ := settle_dispatch cj (c.raise h) e hcallback
    exact ⟨⟨hdispatch.inStep, hdispatch.backed⟩, hfailed⟩
  · rw [if_neg haccepts]
    exact ⟨.of_cursor _ rfl rfl, by simp⟩

theorem dispatchEvent_reads {r : Receiving} (h : r.Clean) :
    Step cj r (r.dispatchEvent cj) ∧
    ((r.dispatchEvent cj).client.deliveryFailed = false → (r.dispatchEvent cj).Clean) := by
  unfold dispatchEvent
  simp only
  split
  · exact ⟨.of_quiet h.stops rfl rfl, fun _ => h⟩
  · obtain ⟨hdispatch, hfailed⟩ := handle_dispatch cj r.client (event r.state)
      (r.answers.headD {})
    refine ⟨.of_dispatch h.delivered hdispatch,
      fun hok => ⟨fun e he => ?_, hok⟩⟩
    simp only at hok he
    rw [hok, h.notFailed] at hfailed
    rcases List.mem_append.mp he with he | he
    · exact h.delivered e he
    · rw [List.mem_singleton.mp he]
      simpa using hfailed

theorem processLine_reads {r : Receiving} (h : r.Clean) :
    Step cj r (r.processLine cj) ∧
    ((r.processLine cj).client.deliveryFailed = false → (r.processLine cj).Clean) := by
  have hreject : Step cj r r.reject ∧ (r.reject.client.deliveryFailed = false → r.reject.Clean) :=
    ⟨reads_reject cj h, fun hf => by cases hf⟩
  have hquiet : ∀ s, Step cj r { r with state := s } ∧
      (r.client.deliveryFailed = false → Clean { r with state := s }) :=
    fun s => ⟨.of_quiet h.stops rfl rfl, fun _ => ⟨h.delivered, h.notFailed⟩⟩
  unfold processLine
  simp only
  split
  · exact dispatchEvent_reads cj h
  · split
    · split
      · exact hreject
      · exact hquiet _
    · split
      · split
        · exact hquiet _
        · exact hreject
      · exact hquiet r.state

theorem endLine_reads {r : Receiving} (h : r.Clean) :
    Step cj r (r.endLine cj) ∧
    ((r.endLine cj).client.deliveryFailed = false → (r.endLine cj).Clean) := by
  unfold endLine
  obtain ⟨hreads, hclean⟩ := processLine_reads cj (r := { r with state := { r.state with
    line := if r.state.line.getLast? = some '\r' then r.state.line.dropLast else r.state.line } })
    ⟨h.delivered, h.notFailed⟩
  exact ⟨⟨hreads.inStep, hreads.events, hreads.stops⟩,
    fun hf => ⟨(hclean hf).delivered, (hclean hf).notFailed⟩⟩

/-- One byte keeps the cursor behind delivered events. -/
theorem writeByte_reads {r : Receiving} (h : r.Clean) (byte : Char) :
    Step cj r (r.writeByte cj byte).2 ∧
    ((r.writeByte cj byte).1 = true → (r.writeByte cj byte).2.Clean) := by
  unfold writeByte
  split
  · obtain ⟨hreads, hclean⟩ := endLine_reads cj h
    refine ⟨hreads, fun hgo => hclean ?_⟩
    simp only [Bool.not_eq_true', Bool.or_eq_false_iff] at hgo
    exact hgo.2
  · split
    · exact ⟨.of_quiet h.stops rfl rfl, fun _ => ⟨h.delivered, h.notFailed⟩⟩
    · exact ⟨reads_reject cj h, fun hgo => by cases hgo⟩

/-- So does a chunk, however the stream is cut into chunks. -/
theorem writeCb_reads {r : Receiving} (h : r.Clean) (bytes : Bytes) :
    Step cj r (r.writeCb cj bytes).2 ∧
    ((r.writeCb cj bytes).1 = true → (r.writeCb cj bytes).2.Clean) := by
  induction bytes generalizing r with
  | nil => exact ⟨.of_quiet h.stops rfl rfl, fun _ => h⟩
  | cons byte bytes ih =>
    obtain ⟨hreads, hclean⟩ := writeByte_reads cj h byte
    unfold writeCb
    rcases hw : r.writeByte cj byte with ⟨go, r'⟩
    rw [hw] at hreads hclean
    cases go with
    | true =>
      obtain ⟨hrest, hclean'⟩ := ih (hclean rfl)
      exact ⟨hreads.trans hrest, hclean'⟩
    | false => exact ⟨hreads, fun hgo => by cases hgo⟩

end Receiving

end Enil
