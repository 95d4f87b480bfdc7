import Enil.Session.File

/-!
# The event client and its cursor

The client that both transports share: the cursor in memory and as it is stored,
and the flags that end a transfer. `Batch` is the trace of one connection or one
poll reply, `Backed` what the cursor may be after it.
-/

namespace Enil

structure StreamEvent where
  type : String
  data : String
  deriving DecidableEq, Repr

/-- What the event callback and the write of the cursor do with one event, and the
flags that are up when the callback has returned. -/
structure Handled where
  callback : Bool := true
  healthFailed : Bool := false
  stop : Bool := false
  reconnect : Bool := false
  write : Bool := true
  deriving DecidableEq, Repr

/-- ENILSSEClient with the stored cursor and the health of its account. -/
structure SseClient where
  localRev : Int
  /-- `localRev` of db_meta. -/
  storedRev : Int
  stop : Bool := false
  reconnect : Bool := false
  deliveryFailed : Bool := false
  healthFailed : Bool := false
  deriving DecidableEq, Repr

def eventRevision (cj : Cjson) (e : StreamEvent) : Int :=
  match cj.parse e.data with
  | none => 0
  | some root =>
    let rev := Json.coerceInt64 (root.getObjectItem
      (if e.type = "fullSync" then "nextRevision" else "revision"))
    if 0 < rev then rev else 0

namespace SseClient

/-- The flags another thread or the callback may have raised. -/
def raise (c : SseClient) (h : Handled) : SseClient :=
  { c with
    stop := c.stop || h.stop
    reconnect := c.reconnect || h.reconnect
    healthFailed := c.healthFailed || h.healthFailed }

/-- The callback returned success with the account healthy and not stopping. -/
def accepts (c : SseClient) (h : Handled) : Bool := h.callback && !c.healthFailed && !c.stop

def saveLocalRev (c : SseClient) (rev : Int) (write : Bool) : Bool × SseClient :=
  if rev ≤ c.localRev then (true, c)
  else if write then (true, { c with localRev := rev, storedRev := rev })
  else (false, c)

/-- The cursor is written from memory. -/
def InStep (c : SseClient) : Prop := c.storedRev = c.localRev

end SseClient

/-! ## The trace of a connection or reply -/

/-- An event given to the callback, and whether it was delivered. -/
structure Dispatched where
  event : StreamEvent
  handled : Handled
  ok : Bool
  deriving DecidableEq, Repr

structure Batch where
  events : List Dispatched := []
  /-- The events a poll reply holds. -/
  reply : List StreamEvent := []
  /-- What was patched into the session for the reply. -/
  patch : Fields := []
  deriving Repr

/-- Nothing is dispatched after an event that failed. -/
def StopsAtFailure (es : List Dispatched) : Prop := ∀ e ∈ es.dropLast, e.ok = true

/-- The revision that an event acknowledges. -/
def Dispatched.Acknowledges (cj : Cjson) (e : Dispatched) (rev : Int) : Prop :=
  e.ok = true ∧ e.handled.callback = true ∧ e.event.type ≠ "fullSync" ∧
    eventRevision cj e.event = rev

/-- The cursor is where it was, or at the revision of a delivered event. -/
def Backed (cj : Cjson) (es : List Dispatched) (rev rev' : Int) : Prop :=
  rev' = rev ∨ rev < rev' ∧ ∃ e ∈ es, e.Acknowledges cj rev'

theorem StopsAtFailure.nil : StopsAtFailure [] := fun _ h => by cases h

/-- One more event after delivered ones. -/
theorem StopsAtFailure.of_delivered {es : List Dispatched} (h : ∀ e ∈ es, e.ok = true)
    (e : Dispatched) : StopsAtFailure (es ++ [e]) := by
  unfold StopsAtFailure
  rwa [List.dropLast_concat]

theorem StopsAtFailure.of_all {es : List Dispatched} (h : ∀ e ∈ es, e.ok = true) :
    StopsAtFailure es := fun e he => h e (List.dropLast_subset es he)

/-- Whatever was dispatched before an event was delivered. -/
theorem StopsAtFailure.before {es pre post : List Dispatched} {e : Dispatched}
    (h : StopsAtFailure es) (hsplit : es = pre ++ e :: post) : ∀ e' ∈ pre, e'.ok = true := by
  subst hsplit
  intro e' he'
  refine h e' ?_
  rw [List.dropLast_append_of_ne_nil (by simp)]
  exact List.mem_append_left _ he'

theorem Backed.refl (cj : Cjson) (es : List Dispatched) (rev : Int) : Backed cj es rev rev :=
  .inl rfl

theorem Backed.trans {cj : Cjson} {es fs : List Dispatched} {a b c : Int} (h : Backed cj es a b)
    (h' : Backed cj fs b c) : Backed cj (es ++ fs) a c := by
  rcases h with rfl | ⟨hlt, e, he, hack⟩
  · rcases h' with rfl | ⟨hlt', e', he', hack'⟩
    · exact .inl rfl
    · exact .inr ⟨hlt', e', List.mem_append_right _ he', hack'⟩
  · rcases h' with rfl | ⟨hlt', e', he', hack'⟩
    · exact .inr ⟨hlt, e, List.mem_append_left _ he, hack⟩
    · exact .inr ⟨Int.lt_trans hlt hlt', e', List.mem_append_right _ he', hack'⟩

theorem Backed.mono {cj : Cjson} {es es' : List Dispatched} {rev rev' : Int}
    (h : Backed cj es rev rev') (hsub : ∀ e ∈ es, e ∈ es') : Backed cj es' rev rev' :=
  h.imp id fun ⟨hlt, e, he, hack⟩ => ⟨hlt, e, hsub e he, hack⟩

theorem Backed.le {cj : Cjson} {es : List Dispatched} {rev rev' : Int}
    (h : Backed cj es rev rev') : rev ≤ rev' := by
  rcases h with rfl | ⟨hlt, -⟩ <;> omega

/-- What one event does to the cursor: it is at the event's revision after a
delivery, or where it was. -/
structure Dispatch (cj : Cjson) (c c' : SseClient) (e : Dispatched) : Prop where
  inStep : c.InStep → c'.InStep
  backed : Backed cj [e] c.localRev c'.localRev

/-- The write of the cursor after a delivered event. -/
theorem dispatch_saveLocalRev (cj : Cjson) (c : SseClient) {e : StreamEvent} {h : Handled}
    (hcallback : h.callback = true) (htype : e.type ≠ "fullSync") :
    let r := c.saveLocalRev (eventRevision cj e) h.write
    Dispatch cj c r.2 ⟨e, h, r.1⟩ := by
  intro r
  have hr : r = c.saveLocalRev (eventRevision cj e) h.write := rfl
  unfold SseClient.saveLocalRev at hr
  split at hr
  · rw [hr]; exact ⟨id, .refl _ _ _⟩
  · rename_i hlt
    split at hr
    · rw [hr]
      exact ⟨fun _ => rfl, .inr ⟨Int.not_le.mp hlt, _, List.mem_singleton_self _, rfl, hcallback,
        htype, rfl⟩⟩
    · rw [hr]; exact ⟨id, .refl _ _ _⟩

/-- Flags do not move the cursor. -/
theorem Dispatch.of_cursor {cj : Cjson} {c c' : SseClient} (e : Dispatched)
    (hrev : c'.localRev = c.localRev) (hstored : c'.storedRev = c.storedRev) :
    Dispatch cj c c' e :=
  ⟨fun h => by unfold SseClient.InStep at h ⊢; rw [hrev, hstored, h], by rw [hrev]; exact .refl _ _ _⟩

/-- Between two points of a connection or reply: the events dispatched since are
behind the cursor, and all of them stop at a failure. -/
structure Reads (cj : Cjson) (c : SseClient) (es : List Dispatched) (c' : SseClient)
    (es' : List Dispatched) : Prop where
  inStep : c.InStep → c'.InStep
  events : ∃ new, es' = es ++ new ∧ Backed cj new c.localRev c'.localRev
  stops : StopsAtFailure es'

namespace Reads

variable {cj : Cjson} {c c' c'' : SseClient} {es es' es'' : List Dispatched}

theorem trans (h : Reads cj c es c' es') (h' : Reads cj c' es' c'' es'') :
    Reads cj c es c'' es'' := by
  obtain ⟨new, hnew, hback⟩ := h.events
  obtain ⟨new', hnew', hback'⟩ := h'.events
  exact ⟨fun hs => h'.inStep (h.inStep hs),
    ⟨new ++ new', by rw [hnew', hnew, List.append_assoc], hback.trans hback'⟩, h'.stops⟩

/-- A step that dispatches nothing and leaves the cursor. -/
theorem of_quiet (h : StopsAtFailure es) (hrev : c'.localRev = c.localRev)
    (hstored : c'.storedRev = c.storedRev) : Reads cj c es c' es :=
  ⟨fun hs => by unfold SseClient.InStep at hs ⊢; rw [hrev, hstored, hs],
    ⟨[], by rw [List.append_nil], by rw [hrev]; exact .refl _ _ _⟩, h⟩

/-- One event after delivered ones. -/
theorem of_dispatch (h : ∀ e ∈ es, e.ok = true) {e : Dispatched} (hd : Dispatch cj c c' e) :
    Reads cj c es c' (es ++ [e]) :=
  ⟨hd.inStep, ⟨_, rfl, hd.backed⟩, .of_delivered h _⟩

/-- What a connection or reply does from its start. -/
theorem backed_of_nil (h : Reads cj c [] c' es') : Backed cj es' c.localRev c'.localRev := by
  obtain ⟨new, hnew, hback⟩ := h.events
  rw [List.nil_append] at hnew
  rwa [hnew]

end Reads

end Enil
