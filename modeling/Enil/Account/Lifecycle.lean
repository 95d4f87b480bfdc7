import Enil.Lib.Machine

/-!
# The event client and the sync worker

The lifecycle fields of `ENILAccount` change on the main thread only: each handler runs
to its end before the next one. A client is stopped and a sync is run by a thread of its
own, which posts its end to the main thread; until that is handled the client counts as
one that exists and the worker as one that runs. What the file and the database say while
a handler runs is in `Outside`.

The handlers follow a machine of five phases (`LinkPhase`).
-/

namespace Enil

open Lib

/-! ## The account -/

inductive SyncState where
  | neverSynced
  | syncing
  | syncNeeded
  | live
  | error
  | reauthNeeded
  | offline
  | reconnecting
  deriving DecidableEq

inductive TalkAction where
  | none
  | reauthNeeded
  | refreshReconnect
  | syncNeeded
  | error
  deriving DecidableEq

/-- What a handler finds in session.json and in the database, and how its calls end. -/
structure Outside where
  /-- The token of `enil_session_validate`. -/
  token : Option String := none
  /-- Whether `enil_session_get_token_refresh_eta` is positive. -/
  refreshEta : Bool := false
  reauthNeeded : Bool := false
  hasLocalRev : Bool := true
  /-- Whether `enil_sse_create` and `enil_sse_start` succeed. -/
  creates : Bool := true
  starts : Bool := true

/-- What there is and what the gates say when a client or a worker is made. -/
structure View where
  clients : List Nat
  workers : Nat
  syncRunning : Bool
  sseEnabled : Bool

inductive Made where
  | client (v : View)
  | worker (v : View)

/-- The fields of the account, and after them its clients and its threads. -/
structure Account where
  sseClient : Option Nat := none
  sseEnabled : Bool
  syncRunning : Bool := false
  syncAttachmentsOnly : Bool := false
  syncRetryRequested : Bool := false
  sseStopping : Bool := false
  sseStartPending : Bool := false
  syncWaitingForSSE : Bool := false
  syncState : SyncState := .neverSynced
  accessToken : Option String
  /-- Whether `tokenRefreshTimer_` is set. -/
  tokenRefreshTimer : Bool := false
  /-- The clients that are not freed; their number so far is the next one's name. -/
  clients : List Nat := []
  created : Nat := 0
  /-- The threads in `stopSSEInBackground`, `syncInBackground` and `tokenRefreshInBackground`. -/
  stopThreads : List Nat := []
  workers : Nat := 0
  refreshes : Nat := 0
  made : List Made := []

namespace Account

variable (a : Account)

def setSyncState (s : SyncState) : Account := { a with syncState := s }

def view : View := ⟨a.clients, a.workers, a.syncRunning, a.sseEnabled⟩

/-! ## The handlers -/

/-- A thread in `syncInBackground`. -/
def detachSync : Account :=
  { a with workers := a.workers + 1, made := a.made ++ [.worker a.view] }

/-- A thread in `tokenRefreshInBackground`. -/
def detachRefresh : Account := { a with refreshes := a.refreshes + 1 }

def stopSSE : Account :=
  let a := { a with sseStartPending := false }
  match a.sseClient with
  | none => a
  | some c => { a with sseClient := none, sseStopping := true, stopThreads := c :: a.stopThreads }

def createClient : Account :=
  { a with
    sseClient := some a.created
    clients := a.created :: a.clients
    created := a.created + 1
    made := a.made ++ [.client a.view] }

def freeClient : Account :=
  { a with sseClient := none, clients := a.clients.filter fun c => a.sseClient ≠ some c }

def startSSE (o : Outside) : Account :=
  if a.syncRunning then a
  else
    let a := if a.sseClient.isSome then a.stopSSE else a
    if a.sseStopping then
      let a := { a with sseStartPending := true }
      if a.sseEnabled then a.setSyncState .reconnecting else a
    else if !a.sseEnabled then a.setSyncState .offline
    else if a.accessToken = none then a.setSyncState .neverSynced
    else if o.reauthNeeded then a.setSyncState .reauthNeeded
    else if !o.hasLocalRev then a.setSyncState .neverSynced
    else if !o.creates then a.setSyncState .syncNeeded
    else
      let a := a.createClient
      if !o.starts then a.freeClient.setSyncState .error
      else a.setSyncState .live

def sseDidStop (o : Outside) : Account :=
  let a := { a with sseStopping := false }
  if a.syncWaitingForSSE then
    { a with syncWaitingForSSE := false, sseStartPending := false }.detachSync
  else if a.sseStartPending then { a with sseStartPending := false }.startSSE o
  else a

/-- On a client the kick sets a flag that its thread polls. -/
def forceReconnectSSE (o : Outside) : Account :=
  if a.sseClient.isSome then a else a.startSSE o

def setSSEEnabled (enabled : Bool) (o : Outside) : Account :=
  if a.sseEnabled = enabled then a
  else
    let a := { a with sseEnabled := enabled }
    if enabled then a.startSSE o else a.stopSSE.setSyncState .offline

def startSync : Account :=
  if a.syncRunning then a
  else
    let a := { a with syncRunning := true, syncWaitingForSSE := true }
    let a := a.stopSSE.setSyncState .syncing
    if !a.sseStopping then { a with syncWaitingForSSE := false }.detachSync else a

def retryAttachments : Account :=
  if a.syncRunning then a else { a with syncAttachmentsOnly := true }.startSync

def retrySync : Account :=
  if a.syncRunning then a else { a with syncRetryRequested := true }.startSync

def cancelTokenRefreshTimer : Account := { a with tokenRefreshTimer := false }

def scheduleNextTokenRefresh (o : Outside) : Account :=
  let a := a.cancelTokenRefreshTimer
  if a.accessToken = none then a else { a with tokenRefreshTimer := o.refreshEta }

/-- A token in session.json that is not empty replaces the account's. -/
def readToken (o : Outside) : Account :=
  match o.token with
  | some t => if t = "" then a else { a with accessToken := some t }
  | none => a

def syncDidFinish (ok : Bool) (o : Outside) : Account :=
  let a := { a with syncRunning := false, syncRetryRequested := false, syncAttachmentsOnly := false }
  if ok then ((a.readToken o).startSSE o).scheduleNextTokenRefresh o
  else a.setSyncState .error

def tokenRefreshTimerFired : Account := { a with tokenRefreshTimer := false }.detachRefresh

def tokenRefreshDidFinish (ok : Bool) (lineCode : Int) (o : Outside) : Account :=
  if !ok then
    if lineCode = 10201 then a.cancelTokenRefreshTimer.setSyncState .reauthNeeded
    else { a with tokenRefreshTimer := true }.setSyncState .error
  else (((a.readToken o).stopSSE).startSSE o).scheduleNextTokenRefresh o

def handleSSETalkExceptionResult (action : TalkAction) : Account :=
  match action with
  | .reauthNeeded => a.setSyncState .reauthNeeded
  | .refreshReconnect =>
    ((a.setSyncState .reconnecting).cancelTokenRefreshTimer).detachRefresh
  | .none => a
  | .syncNeeded => a.cancelTokenRefreshTimer.setSyncState .syncNeeded
  | .error => a.cancelTokenRefreshTimer.setSyncState .error

end Account

/-! ## The main thread -/

inductive MainEvent where
  | startSSE (o : Outside)
  | stopSSE
  /-- The end of the thread that stopped the client. -/
  | sseDidStop (client : Nat) (o : Outside)
  | startSync
  | retrySync
  | retryAttachments
  | syncDidFinish (ok : Bool) (o : Outside)
  | setSSEEnabled (enabled : Bool) (o : Outside)
  | forceReconnectSSE (o : Outside)
  | tokenRefreshTimerFired
  | tokenRefreshDidFinish (ok : Bool) (lineCode : Int) (o : Outside)
  | handleSSETalkExceptionResult (action : TalkAction)

/-- The account when the end of the thread that stopped `c` is handled. -/
def Account.afterStop (a : Account) (c : Nat) : Account :=
  { a with stopThreads := a.stopThreads.erase c, clients := a.clients.erase c }

/-- The end of a thread is posted by a thread that runs. -/
def Account.step (a : Account) : MainEvent → Option Account
  | .startSSE o => some (a.startSSE o)
  | .stopSSE => some a.stopSSE
  | .sseDidStop c o =>
    if c ∈ a.stopThreads then some ((a.afterStop c).sseDidStop o) else none
  | .startSync => some a.startSync
  | .retrySync => some a.retrySync
  | .retryAttachments => some a.retryAttachments
  | .syncDidFinish ok o =>
    if 0 < a.workers then some ({ a with workers := a.workers - 1 }.syncDidFinish ok o) else none
  | .setSSEEnabled enabled o => some (a.setSSEEnabled enabled o)
  | .forceReconnectSSE o => some (a.forceReconnectSSE o)
  | .tokenRefreshTimerFired => if a.tokenRefreshTimer then some a.tokenRefreshTimerFired else none
  | .tokenRefreshDidFinish ok lineCode o =>
    if 0 < a.refreshes then
      some ({ a with refreshes := a.refreshes - 1 }.tokenRefreshDidFinish ok lineCode o)
    else none
  | .handleSSETalkExceptionResult action => some (a.handleSSETalkExceptionResult action)

/-- The account from its start, with the link as session.json has it. -/
def mainThread : Machine Account MainEvent := ⟨Account.step⟩

/-! ## Phases -/

/-- What the account is doing about its event client and its sync. -/
inductive LinkPhase where
  | idle
  | live (c : Nat)
  /-- The old client stops; perhaps a start waits for that. -/
  | stopping (c : Nat) (startPending : Bool)
  /-- A sync waits for the old client to stop. -/
  | waiting (c : Nat)
  | syncing

/-- The lifecycle fields, and the clients and threads behind them. -/
structure LifecycleFields where
  sseClient : Option Nat := none
  clients : List Nat := []
  stopThreads : List Nat := []
  sseStopping : Bool := false
  sseStartPending : Bool := false
  syncRunning : Bool := false
  syncWaitingForSSE : Bool := false
  workers : Nat := 0

def Account.lifecycle (a : Account) : LifecycleFields where
  sseClient := a.sseClient
  clients := a.clients
  stopThreads := a.stopThreads
  sseStopping := a.sseStopping
  sseStartPending := a.sseStartPending
  syncRunning := a.syncRunning
  syncWaitingForSSE := a.syncWaitingForSSE
  workers := a.workers

namespace LinkPhase

def lifecycle : LinkPhase → LifecycleFields
  | idle => {}
  | live c => { sseClient := some c, clients := [c] }
  | stopping c startPending =>
    { clients := [c], stopThreads := [c], sseStopping := true, sseStartPending := startPending }
  | waiting c =>
    { clients := [c], stopThreads := [c], sseStopping := true, syncRunning := true,
      syncWaitingForSSE := true }
  | syncing => { syncRunning := true, workers := 1 }

def ofClient : Option Nat → LinkPhase
  | some c => live c
  | none => idle

def stop : LinkPhase → LinkPhase
  | live c => stopping c false
  | stopping c _ => stopping c false
  | p => p

/-- A start, which makes the client `opened` where it may. -/
def start (opened : Option Nat) : LinkPhase → LinkPhase
  | idle => ofClient opened
  | live c => stopping c true
  | stopping c _ => stopping c true
  | p => p

def sync : LinkPhase → LinkPhase
  | idle => syncing
  | live c => waiting c
  | stopping c _ => waiting c
  | p => p

def stopped (opened : Option Nat) : LinkPhase → LinkPhase
  | stopping _ true => ofClient opened
  | stopping _ false => idle
  | waiting _ => syncing
  | p => p

/-- A handler, by whether the link was on; a start may make the client `opened`. -/
def next (enabled : Bool) (opened : Option Nat) (p : LinkPhase) : MainEvent → LinkPhase
  | .startSSE _ => p.start opened
  | .stopSSE => p.stop
  | .sseDidStop _ _ => p.stopped opened
  | .startSync | .retrySync | .retryAttachments => p.sync
  | .syncDidFinish ok _ => if ok then ofClient opened else idle
  | .setSSEEnabled on _ => if enabled = on then p else if on then p.start opened else p.stop
  | .forceReconnectSSE _ =>
    match p with
    | live c => live c
    | p => p.start opened
  | .tokenRefreshDidFinish ok _ _ => if ok then p.stop.start opened else p
  | .tokenRefreshTimerFired | .handleSSETalkExceptionResult _ => p

end LinkPhase

/-- A client was made while there was none, no sync ran and the link was on; a worker
while there was neither a client nor a worker. -/
def Made.Ok : Made → Prop
  | .client v => v.clients = [] ∧ v.syncRunning = false ∧ v.sseEnabled = true
  | .worker v => v.clients = [] ∧ v.workers = 0

/-- The account is in a phase, and made its clients and workers where it should. -/
structure Account.In (a : Account) (p : LinkPhase) : Prop where
  lifecycle_eq : a.lifecycle = p.lifecycle
  made : ∀ m ∈ a.made, m.Ok

namespace Account

variable {a : Account} {p : LinkPhase} {o : Outside}

theorem In.of_eq {b : Account} (h : a.In p) (hb : b.lifecycle = a.lifecycle)
    (hm : b.made = a.made) : b.In p :=
  ⟨hb.trans h.lifecycle_eq, by rw [hm]; exact h.made⟩

/-- What was made before, and one more. -/
theorem In.made_concat (h : a.In p) {m : Made} (hm : m.Ok) : ∀ n ∈ a.made ++ [m], n.Ok := by
  intro n hn
  rcases List.mem_append.mp hn with hn | hn
  · exact h.made n hn
  · obtain rfl := List.mem_singleton.mp hn
    exact hm

/-- The state a start announces where a gate refuses it or a call fails. -/
def refusal (a : Account) (o : Outside) : Option SyncState :=
  if !a.sseEnabled then some .offline
  else if a.accessToken = none then some .neverSynced
  else if o.reauthNeeded then some .reauthNeeded
  else if !o.hasLocalRev then some .neverSynced
  else if !o.creates then some .syncNeeded
  else if !o.starts then some .error
  else none

/-- The client a start makes where none is in its way. -/
def opens (a : Account) (o : Outside) : Option Nat :=
  (a.refusal o).elim (some a.created) fun _ => none

theorem stopSSE_made (a : Account) : a.stopSSE.made = a.made := by
  unfold stopSSE
  dsimp only
  split <;> rfl

theorem stopSSE_in (h : a.In p) : a.stopSSE.In p.stop := by
  refine ⟨?_, by rw [stopSSE_made]; exact h.made⟩
  have heq := h.lifecycle_eq
  cases p <;>
    simp only [lifecycle, LinkPhase.lifecycle, LinkPhase.stop, LifecycleFields.mk.injEq] at heq ⊢ <;>
    simp [stopSSE, heq]

/-- A worker is detached at once where no client is left. -/
theorem detachSync_in (h : a.In .idle) :
    { a with syncRunning := true }.detachSync.In .syncing := by
  have heq := h.lifecycle_eq
  simp only [lifecycle, LinkPhase.lifecycle, LifecycleFields.mk.injEq] at heq
  refine ⟨?_, h.made_concat ?_⟩
  · simp [lifecycle, LinkPhase.lifecycle, detachSync, heq]
  · simp [Made.Ok, view, heq]

theorem startSync_in (h : a.In p) : a.startSync.In p.sync := by
  have heq := h.lifecycle_eq
  cases p with
  | idle =>
    simp only [lifecycle, LinkPhase.lifecycle, LifecycleFields.mk.injEq] at heq
    have hsync : a.startSync = { (a.setSyncState .syncing) with
        sseStartPending := false, syncRunning := true, syncWaitingForSSE := false }.detachSync := by
      simp [startSync, stopSSE, setSyncState, heq]
    rw [hsync]
    have hidle : { (a.setSyncState .syncing) with
        sseStartPending := false, syncWaitingForSSE := false }.In .idle :=
      h.of_eq (by simp [lifecycle, setSyncState, heq]) rfl
    exact detachSync_in hidle
  | live c | stopping c startPending | waiting c | syncing =>
    simp only [lifecycle, LinkPhase.lifecycle, LifecycleFields.mk.injEq] at heq
    refine ⟨?_, ?_⟩
    · simp [lifecycle, LinkPhase.lifecycle, LinkPhase.sync, startSync, stopSSE, setSyncState, heq]
    · have hmade : a.startSync.made = a.made := by
        simp [startSync, stopSSE, setSyncState, heq]
      rw [hmade]
      exact h.made

/-- A start with no client in its way makes one where every gate lets it. -/
theorem startSSE_idle (h : a.In .idle) : (a.startSSE o).In (.ofClient (a.opens o)) := by
  have heq := h.lifecycle_eq
  simp only [lifecycle, LinkPhase.lifecycle, LifecycleFields.mk.injEq] at heq
  unfold startSSE opens refusal
  simp only [heq, Option.isSome_none, Bool.false_eq_true, if_false]
  split_ifs with hlink
  -- Refused, the account stays as it is.
  · exact h.of_eq rfl rfl
  · exact h.of_eq rfl rfl
  · exact h.of_eq rfl rfl
  · exact h.of_eq rfl rfl
  · exact h.of_eq rfl rfl
  · -- The client that could not be started is freed.
    refine ⟨?_, h.made_concat ?_⟩
    · simp [lifecycle, LinkPhase.lifecycle, LinkPhase.ofClient, setSyncState, freeClient,
        createClient, heq]
    · simpa [Made.Ok, view, heq] using hlink
  · refine ⟨?_, h.made_concat ?_⟩
    · simp [lifecycle, LinkPhase.lifecycle, LinkPhase.ofClient, setSyncState, createClient, heq]
    · simpa [Made.Ok, view, heq] using hlink

theorem startSSE_in (h : a.In p) : (a.startSSE o).In (p.start (a.opens o)) := by
  have heq := h.lifecycle_eq
  cases p with
  | idle => exact startSSE_idle h
  | live c | stopping c startPending | waiting c | syncing =>
    simp only [lifecycle, LinkPhase.lifecycle, LifecycleFields.mk.injEq] at heq
    refine ⟨?_, ?_⟩
    · cases he : a.sseEnabled <;>
        simp [lifecycle, LinkPhase.lifecycle, LinkPhase.start, startSSE, stopSSE, setSyncState, he,
          heq]
    · have hmade : (a.startSSE o).made = a.made := by
        cases he : a.sseEnabled <;> simp [startSSE, stopSSE, setSyncState, he, heq]
      rw [hmade]
      exact h.made

theorem sseDidStop_in {c : Nat} (h : a.In p) (hc : c ∈ a.stopThreads) :
    ((a.afterStop c).sseDidStop o).In (p.stopped (a.opens o)) := by
  have heq := h.lifecycle_eq
  have hthreads : a.stopThreads = p.lifecycle.stopThreads :=
    congrArg LifecycleFields.stopThreads heq
  rw [hthreads] at hc
  cases p with
  | idle | live _ | syncing => cases hc
  | stopping d startPending =>
    obtain rfl := List.mem_singleton.mp hc
    simp only [lifecycle, LinkPhase.lifecycle, LifecycleFields.mk.injEq] at heq
    have hidle :
        { a.afterStop c with sseStopping := false, sseStartPending := false }.In .idle :=
      ⟨by simp [lifecycle, LinkPhase.lifecycle, afterStop, heq], h.made⟩
    cases startPending with
    | false =>
      have hstay : (a.afterStop c).sseDidStop o = { a.afterStop c with sseStopping := false } := by
        simp [sseDidStop, afterStop, heq]
      rw [hstay]
      exact hidle.of_eq (by simp [lifecycle, afterStop, heq]) rfl
    | true =>
      have hstart : (a.afterStop c).sseDidStop o =
          { a.afterStop c with sseStopping := false, sseStartPending := false }.startSSE o := by
        simp [sseDidStop, afterStop, heq]
      rw [hstart]
      exact startSSE_idle hidle
  | waiting d =>
    obtain rfl := List.mem_singleton.mp hc
    simp only [lifecycle, LinkPhase.lifecycle, LifecycleFields.mk.injEq] at heq
    have hidle : { a.afterStop c with
        sseStopping := false, sseStartPending := false, syncWaitingForSSE := false,
        syncRunning := false }.In .idle :=
      ⟨by simp [lifecycle, LinkPhase.lifecycle, afterStop, heq], h.made⟩
    have hdetach : (a.afterStop c).sseDidStop o = { { a.afterStop c with
        sseStopping := false, sseStartPending := false, syncWaitingForSSE := false,
        syncRunning := false } with syncRunning := true }.detachSync := by
      simp [sseDidStop, afterStop, heq]
    rw [hdetach]
    exact detachSync_in hidle

theorem readToken_lifecycle (a : Account) (o : Outside) :
    (a.readToken o).lifecycle = a.lifecycle := by
  unfold readToken
  split
  · split <;> rfl
  · rfl

theorem readToken_made (a : Account) (o : Outside) : (a.readToken o).made = a.made := by
  unfold readToken
  split
  · split <;> rfl
  · rfl

theorem scheduleNextTokenRefresh_lifecycle (a : Account) (o : Outside) :
    (a.scheduleNextTokenRefresh o).lifecycle = a.lifecycle := by
  unfold scheduleNextTokenRefresh
  dsimp only
  split <;> rfl

theorem scheduleNextTokenRefresh_made (a : Account) (o : Outside) :
    (a.scheduleNextTokenRefresh o).made = a.made := by
  unfold scheduleNextTokenRefresh
  dsimp only
  split <;> rfl

theorem sync_of_running (h : a.In p) (hr : a.syncRunning = true) : p.sync = p := by
  have hp : a.syncRunning = p.lifecycle.syncRunning :=
    congrArg LifecycleFields.syncRunning h.lifecycle_eq
  rw [hr] at hp
  cases p with
  | idle | live _ | stopping _ _ => cases hp
  | waiting _ | syncing => rfl

theorem retrySync_in (h : a.In p) : a.retrySync.In p.sync := by
  unfold retrySync
  split_ifs with hr
  · rw [sync_of_running h hr]
    exact h
  · exact startSync_in (h.of_eq rfl rfl)

theorem retryAttachments_in (h : a.In p) : a.retryAttachments.In p.sync := by
  unfold retryAttachments
  split_ifs with hr
  · rw [sync_of_running h hr]
    exact h
  · exact startSync_in (h.of_eq rfl rfl)

/-- A worker runs in the phase of a sync only, and leaves nothing behind. -/
theorem syncDidFinish_in (h : a.In p) (hworkers : 0 < a.workers) (ok : Bool) :
    ∃ opened, (({ a with workers := a.workers - 1 }).syncDidFinish ok o).In
      (p.next a.sseEnabled opened (.syncDidFinish ok o)) := by
  have hw : a.workers = p.lifecycle.workers := congrArg LifecycleFields.workers h.lifecycle_eq
  rw [hw] at hworkers
  cases p with
  | idle | live _ | stopping _ _ | waiting _ => exact absurd hworkers (Nat.lt_irrefl 0)
  | syncing =>
    have hidle : { a with
        workers := a.workers - 1, syncRunning := false, syncRetryRequested := false,
        syncAttachmentsOnly := false }.In .idle := by
      have heq := h.lifecycle_eq
      simp only [lifecycle, LinkPhase.lifecycle, LifecycleFields.mk.injEq] at heq
      exact ⟨by simp [lifecycle, LinkPhase.lifecycle, heq], h.made⟩
    unfold syncDidFinish LinkPhase.next
    cases ok with
    | false => exact ⟨none, hidle.of_eq rfl rfl⟩
    | true =>
      have htoken := hidle.of_eq (readToken_lifecycle _ o) (readToken_made _ o)
      exact ⟨_, (startSSE_idle htoken).of_eq (scheduleNextTokenRefresh_lifecycle _ o)
        (scheduleNextTokenRefresh_made _ o)⟩

theorem setSSEEnabled_in (h : a.In p) (enabled : Bool) :
    ∃ opened, (a.setSSEEnabled enabled o).In
      (p.next a.sseEnabled opened (.setSSEEnabled enabled o)) := by
  have hset : { a with sseEnabled := enabled }.In p := h.of_eq rfl rfl
  unfold setSSEEnabled LinkPhase.next
  dsimp only
  split_ifs
  · exact ⟨none, h⟩
  · exact ⟨_, startSSE_in hset⟩
  · exact ⟨none, (stopSSE_in hset).of_eq rfl rfl⟩

theorem forceReconnectSSE_in (h : a.In p) :
    ∃ opened, (a.forceReconnectSSE o).In (p.next a.sseEnabled opened (.forceReconnectSSE o)) := by
  have hclient : a.sseClient = p.lifecycle.sseClient :=
    congrArg LifecycleFields.sseClient h.lifecycle_eq
  unfold forceReconnectSSE
  rw [hclient]
  cases p with
  | live c => exact ⟨none, h⟩
  | idle | stopping _ _ | waiting _ | syncing => exact ⟨a.opens o, startSSE_in h⟩

/-- A refresh that succeeded takes the new token and starts the stream again. -/
theorem tokenRefreshDidFinish_in (h : a.In p) (ok : Bool) (lineCode : Int) :
    ∃ opened, (({ a with refreshes := a.refreshes - 1 }).tokenRefreshDidFinish ok lineCode o).In
      (p.next a.sseEnabled opened (.tokenRefreshDidFinish ok lineCode o)) := by
  unfold tokenRefreshDidFinish LinkPhase.next
  cases ok with
  | false =>
    refine ⟨none, ?_⟩
    show Account.In (if lineCode = 10201 then _ else _) p
    split_ifs
    · exact h.of_eq rfl rfl
    · exact h.of_eq rfl rfl
  | true =>
    have hless : { a with refreshes := a.refreshes - 1 }.In p := h.of_eq rfl rfl
    have htoken := hless.of_eq (readToken_lifecycle _ o) (readToken_made _ o)
    exact ⟨_, (startSSE_in (stopSSE_in htoken)).of_eq (scheduleNextTokenRefresh_lifecycle _ o)
      (scheduleNextTokenRefresh_made _ o)⟩

/-- Every handler takes the phase to the next one. -/
theorem step_in {b : Account} {e : MainEvent} (h : a.In p) (hs : a.step e = some b) :
    ∃ opened, b.In (p.next a.sseEnabled opened e) := by
  cases e with
  | startSSE o =>
    cases hs
    exact ⟨_, startSSE_in h⟩
  | stopSSE =>
    cases hs
    exact ⟨none, stopSSE_in h⟩
  | sseDidStop c o =>
    rw [step] at hs
    split_ifs at hs with hc
    cases hs
    exact ⟨_, sseDidStop_in h hc⟩
  | startSync =>
    cases hs
    exact ⟨none, startSync_in h⟩
  | retrySync =>
    cases hs
    exact ⟨none, retrySync_in h⟩
  | retryAttachments =>
    cases hs
    exact ⟨none, retryAttachments_in h⟩
  | syncDidFinish ok o =>
    rw [step] at hs
    split_ifs at hs with hworkers
    cases hs
    exact syncDidFinish_in h hworkers ok
  | setSSEEnabled enabled o =>
    cases hs
    exact setSSEEnabled_in h enabled
  | forceReconnectSSE o =>
    cases hs
    exact forceReconnectSSE_in h
  | tokenRefreshTimerFired =>
    rw [step] at hs
    split_ifs at hs
    cases hs
    exact ⟨none, h.of_eq rfl rfl⟩
  | tokenRefreshDidFinish ok lineCode o =>
    rw [step] at hs
    split_ifs at hs
    cases hs
    exact tokenRefreshDidFinish_in h ok lineCode
  | handleSSETalkExceptionResult action =>
    cases hs
    cases action <;> exact ⟨none, h.of_eq rfl rfl⟩

/-! ## Runs -/

/-- An account that was just opened, with the link and the token of session.json. -/
def initial (sseEnabled : Bool) (accessToken : Option String) : Account where
  sseEnabled := sseEnabled
  accessToken := accessToken

theorem initial_in (sseEnabled : Bool) (accessToken : Option String) :
    (initial sseEnabled accessToken).In .idle :=
  ⟨rfl, by simp [initial]⟩

theorem run_in {b : Account} {es : List MainEvent} (h : a.In p) (hr : mainThread.run a es = some b) :
    ∃ q, b.In q := by
  have hpres : mainThread.Preserves fun a => ∃ q, Account.In a q := by
    rintro a b e ⟨q, hq⟩ hs
    obtain ⟨opened, hb⟩ := step_in hq hs
    exact ⟨_, hb⟩
  exact Machine.run_invariant hpres ⟨p, h⟩ hr

end Account

def MainEvent.IsStopEnd : MainEvent → Prop
  | .sseDidStop _ _ => True
  | _ => False

def MainEvent.IsSync : MainEvent → Prop
  | .startSync | .retrySync | .retryAttachments => True
  | _ => False

/-- A stop of the client, or a sync that begins. -/
def MainEvent.Supersedes (a : Account) : MainEvent → Prop
  | .stopSSE | .startSync | .retrySync | .retryAttachments => True
  | .setSSEEnabled on _ => a.sseEnabled = true ∧ on = false
  | _ => False

namespace Account

variable {a b : Account} {p : LinkPhase} {o : Outside}

/-- No worker ends where none runs. -/
theorem not_syncDidFinish {ok : Bool} (hw : a.workers = 0) :
    a.step (.syncDidFinish ok o) = none := by
  rw [step, hw]
  rfl

theorem In.workers (h : a.In p) : a.workers = p.lifecycle.workers :=
  congrArg LifecycleFields.workers h.lifecycle_eq

theorem In.stopThreads (h : a.In p) : a.stopThreads = p.lifecycle.stopThreads :=
  congrArg LifecycleFields.stopThreads h.lifecycle_eq

/-- A waiting sync waits on until the stop of the old client ends. -/
theorem step_waiting {c : Nat} {e : MainEvent} (h : a.In (.waiting c)) (he : ¬ e.IsStopEnd)
    (hs : a.step e = some b) : b.In (.waiting c) := by
  obtain ⟨opened, hb⟩ := step_in h hs
  cases e with
  | sseDidStop => exact absurd trivial he
  | syncDidFinish ok o =>
    rw [not_syncDidFinish h.workers] at hs
    cases hs
  | setSSEEnabled on o =>
    rw [LinkPhase.next] at hb
    split_ifs at hb
    · exact hb
    · exact hb
    · exact hb
  | tokenRefreshDidFinish ok lineCode o => cases ok <;> exact hb
  | _ => exact hb

/-- A deferred start stays deferred until then, if nothing supersedes it. -/
theorem step_deferred {c : Nat} {e : MainEvent} (h : a.In (.stopping c true)) (he : ¬ e.IsStopEnd)
    (hsup : ¬ e.Supersedes a) (hs : a.step e = some b) : b.In (.stopping c true) := by
  obtain ⟨opened, hb⟩ := step_in h hs
  cases e with
  | sseDidStop => exact absurd trivial he
  | stopSSE | startSync | retrySync | retryAttachments => exact absurd trivial hsup
  | syncDidFinish ok o =>
    rw [not_syncDidFinish h.workers] at hs
    cases hs
  | setSSEEnabled on o =>
    rw [LinkPhase.next] at hb
    split_ifs at hb with h₁ h₂
    · exact hb
    · exact hb
    · exact absurd ⟨by simp_all, by simp_all⟩ hsup
  | tokenRefreshDidFinish ok lineCode o => cases ok <;> exact hb
  | _ => exact hb

theorem waiting_iff (h : a.In p) : a.syncWaitingForSSE = true ↔ ∃ c, p = .waiting c := by
  have heq : a.syncWaitingForSSE = p.lifecycle.syncWaitingForSSE :=
    congrArg LifecycleFields.syncWaitingForSSE h.lifecycle_eq
  rw [heq]
  cases p <;> simp [LinkPhase.lifecycle]

theorem deferred_iff (h : a.In p) : a.sseStartPending = true ↔ ∃ c, p = .stopping c true := by
  have heq : a.sseStartPending = p.lifecycle.sseStartPending :=
    congrArg LifecycleFields.sseStartPending h.lifecycle_eq
  rw [heq]
  cases p <;> simp [LinkPhase.lifecycle]

/-- A sync that is asked for while none runs has its worker at once, or waits for the client
that there is. -/
theorem step_sync {e : MainEvent} (h : a.In p) (he : e.IsSync) (hr : a.syncRunning = false) :
    ∃ b, a.step e = some b ∧ b.syncRunning = true ∧
      if a.clients = [] then b.workers = 1 else b.syncWaitingForSSE = true := by
  obtain ⟨b, hs, hb⟩ : ∃ b, a.step e = some b ∧ b.In p.sync := by
    cases e with
    | startSync =>
      have hs : a.step .startSync = some a.startSync := rfl
      obtain ⟨opened, hb⟩ := step_in h hs
      exact ⟨_, hs, hb⟩
    | retrySync =>
      have hs : a.step .retrySync = some a.retrySync := rfl
      obtain ⟨opened, hb⟩ := step_in h hs
      exact ⟨_, hs, hb⟩
    | retryAttachments =>
      have hs : a.step .retryAttachments = some a.retryAttachments := rfl
      obtain ⟨opened, hb⟩ := step_in h hs
      exact ⟨_, hs, hb⟩
    | _ => exact absurd he id
  have hrunning : a.syncRunning = p.lifecycle.syncRunning :=
    congrArg LifecycleFields.syncRunning h.lifecycle_eq
  have hclients : a.clients = p.lifecycle.clients :=
    congrArg LifecycleFields.clients h.lifecycle_eq
  have hb' : b.syncRunning = p.sync.lifecycle.syncRunning :=
    congrArg LifecycleFields.syncRunning hb.lifecycle_eq
  refine ⟨b, hs, ?_, ?_⟩
  · rw [hb']
    cases p <;> rfl
  · rw [hclients]
    cases p with
    | idle => exact hb.workers
    | live c | stopping c _ =>
      have hold : [c] ≠ [] := List.cons_ne_nil c []
      exact (if_neg hold).mpr ((waiting_iff hb).mpr ⟨c, rfl⟩)
    | waiting c | syncing =>
      rw [hr] at hrunning
      cases hrunning

/-- The account when the stop of the only client that stops has ended. -/
theorem step_sseDidStop {c : Nat} (h : a.In p) (hc : a.stopThreads = [c]) (o : Outside) :
    ∃ b, a.step (.sseDidStop c o) = some b ∧ b.In (p.stopped (a.opens o)) := by
  have hmem : c ∈ a.stopThreads := by
    rw [hc]
    exact List.mem_singleton_self c
  refine ⟨_, ?_, sseDidStop_in h hmem⟩
  rw [step, if_pos hmem]

end Account

section

variable (sseEnabled : Bool) (accessToken : Option String) {es : List MainEvent} {a : Account}

/-- Whatever happens on the main thread, there is one client and one worker at most, and
they are made only where none of either is in the way. A sync that is accepted has its worker
at once or waits for the old client. The end of the stop of an old client starts the sync that
waits for it, and carries a deferred start out where nothing superseded that. -/
theorem lifecycle_safe (h : mainThread.run (.initial sseEnabled accessToken) es = some a) :
    a.clients.length ≤ 1 ∧ a.workers ≤ 1 ∧ (∀ m ∈ a.made, m.Ok) ∧
    (∀ e : MainEvent, e.IsSync → a.syncRunning = false → ∃ b, a.step e = some b ∧
      b.syncRunning = true ∧
      if a.clients = [] then b.workers = 1 else b.syncWaitingForSSE = true) ∧
    (a.syncWaitingForSSE = true → ∃ c,
      (∀ fs b, mainThread.run a fs = some b → (∀ e ∈ fs, ¬ e.IsStopEnd) →
        b.syncWaitingForSSE = true ∧ b.stopThreads = [c]) ∧
      ∀ o, ∃ b, a.step (.sseDidStop c o) = some b ∧ a.workers = 0 ∧ b.workers = 1) ∧
    (∀ o, a.syncRunning = false → a.sseClient.isSome ∨ a.sseStopping = true →
      (a.startSSE o).sseStartPending = true) ∧
    (a.sseStartPending = true → ∃ c,
      (∀ fs b, mainThread.run a fs = some b →
        mainThread.Meets (fun a e => ¬ e.IsStopEnd ∧ ¬ e.Supersedes a) a fs →
        b.sseStartPending = true ∧ b.stopThreads = [c]) ∧
      ∀ o, ∃ b, a.step (.sseDidStop c o) = some b ∧ b.sseClient = a.opens o) := by
  obtain ⟨p, hp⟩ := Account.run_in (Account.initial_in sseEnabled accessToken) h
  have hclients : a.clients = p.lifecycle.clients :=
    congrArg LifecycleFields.clients hp.lifecycle_eq
  refine ⟨?_, ?_, hp.made, fun e => Account.step_sync hp, ?_, ?_, ?_⟩
  · rw [hclients]
    cases p <;> simp [LinkPhase.lifecycle]
  · rw [hp.workers]
    cases p <;> simp [LinkPhase.lifecycle]
  · intro hw
    obtain ⟨c, rfl⟩ := (Account.waiting_iff hp).mp hw
    refine ⟨c, fun fs b hb hfs => ?_, fun o => ?_⟩
    · have hin : b.In (.waiting c) := Machine.run_invariant_of_meets
        (I := fun a : Account => a.In (.waiting c))
        (fun hI hP hs => Account.step_waiting hI hP hs) hp
        (Machine.Meets.of_forall (fun e he _ => hfs e he) a) hb
      exact ⟨(Account.waiting_iff hin).mpr ⟨c, rfl⟩, hin.stopThreads⟩
    · obtain ⟨b, hb, hin⟩ := Account.step_sseDidStop hp hp.stopThreads o
      exact ⟨b, hb, hp.workers, hin.workers⟩
  · intro o hrun hold
    have hin := Account.startSSE_in (o := o) hp
    have hphase : ∃ c, p.start (a.opens o) = .stopping c true := by
      have heq := hp.lifecycle_eq
      cases p with
      | live c | stopping c _ => exact ⟨c, rfl⟩
      | idle | waiting c | syncing =>
        simp only [Account.lifecycle, LinkPhase.lifecycle, LifecycleFields.mk.injEq] at heq
        simp [heq] at hrun hold
    exact (Account.deferred_iff hin).mpr hphase
  · intro hd
    obtain ⟨c, rfl⟩ := (Account.deferred_iff hp).mp hd
    refine ⟨c, fun fs b hb hfs => ?_, fun o => ?_⟩
    · have hin : b.In (.stopping c true) := Machine.run_invariant_of_meets
        (I := fun a : Account => a.In (.stopping c true))
        (fun hI hP hs => Account.step_deferred hI hP.1 hP.2 hs) hp hfs hb
      exact ⟨(Account.deferred_iff hin).mpr ⟨c, rfl⟩, hin.stopThreads⟩
    · obtain ⟨b, hb, hin⟩ := Account.step_sseDidStop hp hp.stopThreads o
      have hclient : b.sseClient = (LinkPhase.ofClient (a.opens o)).lifecycle.sseClient :=
        congrArg LifecycleFields.sseClient hin.lifecycle_eq
      refine ⟨b, hb, ?_⟩
      rw [hclient]
      cases a.opens o <;> rfl

/-- A second start finds the client of the first, and so does a sync. -/
theorem lifecycle_safe_restart :
    (∃ a c, mainThread.run (.initial true (some "token")) [.startSSE {}, .startSSE {}] = some a ∧
      a.clients.length ≤ 1 ∧
      ∀ o, ∃ b, a.step (.sseDidStop c o) = some b ∧ b.sseClient = a.opens o) ∧
    ∃ a b c, mainThread.run (.initial true (some "token")) [.startSSE {}] = some a ∧
      a.step .startSync = some b ∧ b.workers = 0 ∧ b.syncWaitingForSSE = true ∧
      ∀ o, ∃ d, b.step (.sseDidStop c o) = some d ∧ d.workers = 1 := by
  constructor
  · have hrun : mainThread.run (.initial true (some "token")) [.startSSE {}, .startSSE {}] =
        some _ := rfl
    obtain ⟨hone, -, -, -, -, -, hdeferred⟩ := lifecycle_safe true (some "token") hrun
    obtain ⟨c, -, hstop⟩ := hdeferred rfl
    exact ⟨_, c, hrun, hone, hstop⟩
  · have hrun : mainThread.run (.initial true (some "token")) [.startSSE {}] = some _ := rfl
    obtain ⟨-, -, -, hsync, -⟩ := lifecycle_safe true (some "token") hrun
    obtain ⟨b, hb, -, hheld⟩ := hsync .startSync trivial rfl
    have hwaits : b.syncWaitingForSSE = true := (if_neg (List.cons_ne_nil 0 [])).mp hheld
    have hrun' : mainThread.run (.initial true (some "token")) [.startSSE {}, .startSync] =
        some b := by
      rw [← hb]
      rfl
    obtain ⟨-, -, -, -, hwaiting, -⟩ := lifecycle_safe true (some "token") hrun'
    obtain ⟨c, -, hstop⟩ := hwaiting hwaits
    obtain ⟨-, -, hnone, -⟩ := hstop {}
    exact ⟨_, b, c, hrun, hb, hnone, hwaits, fun o => (hstop o).imp fun d h => ⟨h.1, h.2.2⟩⟩

end

end Enil
