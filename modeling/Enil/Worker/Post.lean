import Enil.Lib.Crew
import Enil.Session.Save
import Enil.Thrift.Write

/-!
# Requests to the worker

`worker_post` of `enil_worker.c`, and the health that `enil_health.c` keeps: the worker fails
for the whole app, LINE for an account. A request that fails leaves its source in the failed
state, in which the next one is not sent; only the user takes it out again.
-/

namespace Enil

open Lib

inductive CurlEnd where
  | ok
  | timedOut
  | aborted
  | failed
  deriving DecidableEq, Repr

structure WorkerRequest where
  url : String
  secretHeader : String
  body : String
  deriving DecidableEq, Repr

/-- A request to LINE, as it is sent, with the health and the client identity it is sent
under. -/
structure WireRequest (A : Type) where
  health : Option A
  identity : Identity
  url : List UInt8
  headers : List (List UInt8)
  body : List UInt8

/-- What the calls of all the accounts `A` share. -/
structure Network (A : Type) where
  workerUrl : Option String := none
  workerSecret : Option String := none
  workerFailed : Bool := false
  /-- The LINE state in the enil_health_t of an account. -/
  lineFailed : A → Bool := fun _ => false
  /-- The session.json of an account. -/
  session : A → Option Fields := fun _ => none
  toWorker : List WorkerRequest := []
  toLine : List (WireRequest A) := []

/-- The account that is bound goes into the failed state. -/
def Network.failFor {A : Type} [DecidableEq A] (w : Network A) : Option A → Network A
  | none => w
  | some a => { w with lineFailed := fun b => if b = a then true else w.lineFailed b }

/-- What decides an operation from outside: each looks at the fields it needs. -/
structure PostOutcome where
  /-- The cancel flag is set. -/
  cancelled : Bool := false
  /-- Whether a copy, a handle or a read is to be had. -/
  ok : Bool := true
  code : CurlEnd := .ok
  status : Int := 200
  /-- The reply as text, where there is any. -/
  text : Option String := none
  /-- The reply as bytes. -/
  bytes : List UInt8 := []
  /-- The connection was made and everything uploaded. -/
  uploaded : Bool := true
  write : WriteResult := .written

abbrev Posting (A : Type) := Prog (Network A) PostOutcome

/-- The client identity and the login that a thread is bound to. -/
inductive Bound (A : Type) where
  | nothing
  | identity (i : Identity)
  | login (a : A) (b : Binding)

/-- enil_identity_current. -/
def Bound.current {A : Type} : Bound A → Option Identity
  | nothing => none
  | identity i => some i
  | login _ b => some b.identity

namespace Posting

variable {A : Type}

/-! ## Health -/

/-- enil_health_is_failed of the worker. -/
def isWorkerFailed : Posting A Bool := .op fun _ w => (w.workerFailed, w)

/-- enil_health_is_failed of LINE: a thread with no health bound has none. -/
def isLineFailed (h : Option A) : Posting A Bool := .op fun _ w => (h.any w.lineFailed, w)

def workerSetFailure : Posting A Unit := .op fun _ w => ((), { w with workerFailed := true })

/-- line_set_failure: a thread with no health bound leaves every account as it is. -/
def lineSetFailure [DecidableEq A] (h : Option A) : Posting A Unit :=
  .op fun _ w => ((), w.failFor h)

/-! ## The worker -/

/-- The cancel flag of a call, where it has one. -/
def isCancelled (cancel : Bool) : Posting A Bool := .op fun o w => (cancel && o.cancelled, w)

/-- A copy or a handle is to be had. -/
def attempt : Posting A Bool := .op fun o w => (o.ok, w)

def workerCredentialsCopy (path : String) : Posting A (Option (String × String)) := .op fun o w =>
  (match w.workerUrl, w.workerSecret with
    | some url, some secret =>
      if o.ok then some (url ++ path, "X-Worker-Secret: " ++ secret) else none
    | _, _ => none, w)

structure Performed where
  code : CurlEnd
  status : Int
  text : Option String
  bytes : List UInt8
  uploaded : Bool

def performed (o : PostOutcome) : Performed := ⟨o.code, o.status, o.text, o.bytes, o.uploaded⟩

def sendToWorker (r : WorkerRequest) : Posting A Performed := .op fun o w =>
  (performed o, { w with toWorker := w.toWorker ++ [r] })

def sendToLine (r : WireRequest A) : Posting A Performed := .op fun o w =>
  (performed o, { w with toLine := w.toLine ++ [r] })

/-- worker_post past the gate. -/
def sendPost (path jsonBody : String) (cancel : Bool) : Posting A (Option String) := do
  match ← workerCredentialsCopy path with
  | none => return none
  | some (url, secretHeader) =>
    if !(← attempt) then return none
    let r ← sendToWorker ⟨url, secretHeader, jsonBody⟩
    if ← isCancelled cancel then return none
    if r.code ≠ .ok ∨ r.status < 200 ∨ 300 ≤ r.status then
      workerSetFailure
      return none
    return r.text

def workerPost (path jsonBody : String) (cancel : Bool) : Posting A (Option String) := do
  if ← isCancelled cancel then return none
  if ← isWorkerFailed then return none
  sendPost path jsonBody cancel

variable (cj : Cjson)

/-- enil_worker_decrypt_ex; worker_call is the same with no cancel flag. -/
def workerCall (path : String) (payload : Json) (cancel : Bool) : Posting A (Option Json) := do
  let text ← workerPost path (cj.print payload) cancel
  return text.bind cj.parse

def workerSign (path body accessToken : String) : Posting A (Option String) := do
  let resp ← workerCall cj "/sign"
    (.obj [("path", .str path), ("body", .str body), ("accessToken", .str accessToken)]) false
  return resp.bind (·.dupStringOpt "hmac")

end Posting

end Enil
