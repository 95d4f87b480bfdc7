import Enil.Sse.Stream
import Enil.Sse.NativePoll
import Enil.Lib.Machine

/-!
# The cursor over connections and replies

The event client with either transport, over any sequence of starts, connections,
chunks, poll turns and flags of other threads. `past` and `current` are the trace:
the batches that are over, and the events of the open connection.
-/

namespace Enil

open Lib

structure EventClient where
  client : SseClient
  /-- The parse state of the open transfer. -/
  transfer : Option SseState := none
  /-- The native loop. -/
  polling : Bool := false
  failures : Nat := 0
  session : Option Fields := none
  past : List Batch := []
  current : List Dispatched := []

inductive ClientInput where
  /-- A new client with the stored cursor. -/
  | start (healthFailed : Bool)
  /-- The top of the loop of `sse_thread`. -/
  | connect
  /-- A chunk for `write_cb`, and what its events are answered. -/
  | receive (bytes : Bytes) (answers : List Handled)
  /-- The loop of enil_native_poll is entered. -/
  | beginPoll
  | poll (turn : PollTurn)
  /-- Flags raised by other threads. -/
  | raise (flags : Handled)

namespace EventClient

def batches (s : EventClient) : List Batch := s.past ++ [{ events := s.current }]

/-- The connection is over. -/
def closed (s : EventClient) : EventClient :=
  { s with transfer := none, past := s.batches, current := [] }

variable (cj : Cjson)

def receive (s : EventClient) (state : SseState) (bytes : Bytes) (answers : List Handled) :
    EventClient :=
  let (go, r) := Receiving.writeCb cj
    { state := state, client := s.client, events := s.current, answers := answers } bytes
  { s with
    client := r.client
    transfer := if go then some r.state else none
    current := r.events }

def poll (s : EventClient) (turn : PollTurn) : EventClient :=
  let r := nativePoll cj turn
    { client := s.client, session := s.session, failures := s.failures, running := s.polling }
  { s with
    client := r.1.client
    session := r.1.session
    failures := r.1.failures
    polling := r.1.running
    past := s.past ++ [r.2] }

def step (s : EventClient) : ClientInput → Option EventClient
  | .start healthFailed =>
    some { s.closed with
      client := {
        localRev := s.client.storedRev
        storedRev := s.client.storedRev
        healthFailed := healthFailed }
      polling := false
      failures := 0 }
  | .connect =>
    if s.polling || s.client.stop || s.client.healthFailed then none
    else some { s.closed with
      client := { s.client with reconnect := false, deliveryFailed := false }
      transfer := some {} }
  | .receive bytes answers => s.transfer.map fun state => s.receive cj state bytes answers
  | .beginPoll => some { s.closed with polling := true, failures := 0 }
  | .poll turn => if s.polling then some (s.poll cj turn) else none
  | .raise flags => some { s with client := s.client.raise flags }

end EventClient

namespace EventClient

variable {cj : Cjson}

def events (s : EventClient) : List Dispatched := s.batches.flatMap (·.events)

/-- What holds of the trace and the cursor in every state of a run. -/
structure Safe (cj : Cjson) (rev : Int) (session : Option Fields) (s : EventClient) : Prop where
  inStep : s.client.InStep
  backed : Backed cj s.events rev s.client.localRev
  stops : ∀ b ∈ s.batches, StopsAtFailure b.events
  exclusive : s.polling = true → s.transfer = none
  clean : s.transfer.isSome → (∀ e ∈ s.current, e.ok = true) ∧ s.client.deliveryFailed = false
  whole : ∀ b ∈ s.past, b.patch ≠ [] → b.events.map (·.event) = b.reply ∧
    ∀ e ∈ b.events, e.ok = true
  session : s.session =
    session.map fun fs => s.past.foldl (fun fs b => b.patch.foldl Fields.put fs) fs

namespace Safe

variable {rev : Int} {session : Option Fields} {s : EventClient}

theorem closed (h : Safe cj rev session s) : Safe cj rev session s.closed where
  inStep := h.inStep
  backed := by
    have hevents : s.closed.events = s.events := by simp [events, EventClient.closed, batches]
    rw [hevents]; exact h.backed
  stops b hb := by
    rcases List.mem_append.mp hb with hb | hb
    · exact h.stops b hb
    · rw [List.mem_singleton.mp hb]; exact .nil
  exclusive _ := rfl
  clean h := by cases h
  whole b hb := by
    rcases List.mem_append.mp hb with hb | hb
    · exact h.whole b hb
    · rw [List.mem_singleton.mp hb]; exact fun hne => absurd rfl hne
  session := by
    rw [show s.closed.session = s.session from rfl, h.session]
    simp [EventClient.closed, batches, List.foldl_append]

/-- Flags and the parse state do not touch the trace. -/
theorem of_flags (h : Safe cj rev session s) {s' : EventClient} (hpast : s'.past = s.past)
    (hcurrent : s'.current = s.current) (hsession : s'.session = s.session)
    (hrev : s'.client.localRev = s.client.localRev)
    (hstored : s'.client.storedRev = s.client.storedRev)
    (hexclusive : s'.polling = true → s'.transfer = none)
    (hclean : s'.transfer.isSome →
      (∀ e ∈ s'.current, e.ok = true) ∧ s'.client.deliveryFailed = false) :
    Safe cj rev session s' := by
  have hbatches : s'.batches = s.batches := by simp [batches, hpast, hcurrent]
  refine ⟨?_, ?_, ?_, hexclusive, hclean, ?_, ?_⟩
  · have hs := h.inStep
    unfold SseClient.InStep at hs ⊢
    rw [hrev, hstored, hs]
  · rw [events, hbatches, hrev]; exact h.backed
  · rw [hbatches]; exact h.stops
  · rw [hpast]; exact h.whole
  · rw [hsession, hpast]; exact h.session

theorem receive (h : Safe cj rev session s) {state : SseState} (ht : s.transfer = some state)
    (bytes : Bytes) (answers : List Handled) :
    Safe cj rev session (s.receive cj state bytes answers) := by
  obtain ⟨hok, hfailed⟩ := h.clean (by rw [ht]; rfl)
  obtain ⟨hreads, hclean⟩ := Receiving.writeCb_reads cj
    (r := { state := state, client := s.client, events := s.current, answers := answers })
    ⟨hok, hfailed⟩ bytes
  unfold EventClient.receive
  obtain ⟨new, hnew, hback⟩ := hreads.events
  refine ⟨hreads.inStep h.inStep, ?_, ?_, fun hp => ?_, ?_, h.whole, h.session⟩
  · refine (h.backed.trans hback).mono fun e he => ?_
    simp only [events, batches, List.flatMap_append, List.flatMap_singleton, hnew] at he ⊢
    rw [List.append_assoc] at he
    exact he
  · intro b hb
    rcases List.mem_append.mp hb with hb | hb
    · exact h.stops b (List.mem_append_left _ hb)
    · rw [List.mem_singleton.mp hb]; exact hreads.stops
  · rw [h.exclusive hp] at ht; cases ht
  · intro hopen
    simp only at hopen
    split at hopen
    · rename_i hgo
      exact ⟨(hclean hgo).delivered, (hclean hgo).notFailed⟩
    · cases hopen

theorem poll (h : Safe cj rev session s) (hpolling : s.polling = true) (turn : PollTurn) :
    Safe cj rev session (s.poll cj turn) := by
  have hturn := turned_nativePoll cj turn
    { client := s.client, session := s.session, failures := s.failures, running := s.polling }
  unfold EventClient.poll
  have hclosed := h.exclusive hpolling
  refine ⟨hturn.reads.inStep h.inStep, ?_, ?_, fun _ => hclosed, ?_, ?_, ?_⟩
  · refine (h.backed.trans hturn.reads.backed_of_nil).mono fun e he => ?_
    simp only [events, batches, List.flatMap_append, List.flatMap_singleton, List.mem_append] at he ⊢
    tauto
  · intro b hb
    simp only [batches, List.mem_append, List.mem_singleton] at hb
    rcases hb with (hb | rfl) | rfl
    · exact h.stops b (List.mem_append_left _ hb)
    · exact hturn.reads.stops
    · exact h.stops _ (List.mem_append_right _ (List.mem_singleton_self _))
  · intro hopen; simp only [hclosed] at hopen; cases hopen
  · intro b hb
    rcases List.mem_append.mp hb with hb | hb
    · exact h.whole b hb
    · rw [List.mem_singleton.mp hb]; exact hturn.whole
  · have hsession := hturn.session
    simp only at hsession ⊢
    rw [hsession, h.session, Option.map_map]
    simp [List.foldl_append, Function.comp_def]

/-- One input keeps the trace safe. -/
theorem step (h : Safe cj rev session s) {i : ClientInput} {s' : EventClient}
    (hstep : s.step cj i = some s') : Safe cj rev session s' := by
  cases i with
  | start healthFailed =>
    cases hstep
    have hs := h.inStep
    unfold SseClient.InStep at hs
    exact h.closed.of_flags rfl rfl rfl hs rfl (fun _ => rfl) (fun hopen => by cases hopen)
  | connect =>
    simp only [EventClient.step] at hstep
    split at hstep
    · cases hstep
    · rename_i hgo
      cases hstep
      simp only [Bool.or_eq_true, not_or, Bool.not_eq_true] at hgo
      refine h.closed.of_flags rfl rfl rfl rfl rfl (fun hp => ?_) fun _ => ⟨?_, rfl⟩
      · rw [show s.polling = true from hp] at hgo; cases hgo.1.1
      · intro e he; cases he
  | receive bytes answers =>
    obtain ⟨state, ht, rfl⟩ := Option.map_eq_some_iff.mp hstep
    exact h.receive ht bytes answers
  | beginPoll =>
    cases hstep
    exact h.closed.of_flags rfl rfl rfl rfl rfl (fun _ => rfl) (fun hopen => by cases hopen)
  | poll turn =>
    simp only [EventClient.step] at hstep
    split at hstep
    · rename_i hp; cases hstep; exact h.poll hp turn
    · cases hstep
  | raise flags =>
    cases hstep
    exact h.of_flags rfl rfl rfl rfl rfl h.exclusive h.clean

end Safe

end EventClient

/-- A client whose cursor is as stored and that has dispatched nothing yet. -/
def EventClient.Fresh (s : EventClient) : Prop :=
  s.client.InStep ∧ s.past = [] ∧ s.current = [] ∧ s.transfer = none

theorem EventClient.Fresh.safe {cj : Cjson} {s : EventClient} (h : s.Fresh) :
    EventClient.Safe cj s.client.storedRev s.session s := by
  obtain ⟨hs, hpast, hcurrent, htransfer⟩ := h
  refine ⟨hs, .inl hs.symm, fun b hb => ?_, fun _ => htransfer, fun hopen => ?_, fun b hb => ?_, ?_⟩
  · simp only [EventClient.batches, hpast, hcurrent, List.nil_append, List.mem_singleton] at hb
    rw [hb]; exact .nil
  · rw [htransfer] at hopen; cases hopen
  · rw [hpast] at hb; cases hb
  · simp [hpast]

end Enil
