import Mathlib.Data.List.AList
import Enil.Login.Directory

/-!
# The store of logins

`enil_login_store.c`. The root has staging directories, one for each client of a login
window, pending directories, which keep the native logins, and accounts. A native login is
made in a pending directory, copied into the staging one and from there into the account;
`select` says in which pending directory the login of a staging directory goes on.
-/

namespace Enil

open Lib

/-! ## Names -/

def pendingName (name : String) : Bool :=
  safeName name &&
    (name == ".windows-login-probe" || ".native-login-".toList.isPrefixOf name.toList)

/-! ## Directories -/

structure PendingDir where
  session : LoginFile := .missing
  retired : Bool := false

/-- The directories of the root. No name of an account is one of the others. -/
structure LoginStore where
  staging : String → LoginFile := fun _ => .missing
  pending : AList fun _ : String => PendingDir := ∅
  accounts : String → LoginFile := fun _ => .missing
  /-- The session in which an access token was issued. -/
  issued : String → Option Keyed := fun _ => none
  /-- The access tokens that were activated into an account. -/
  activated : List String := []

/-- What decides an operation from outside: each looks at the fields it needs. -/
structure StoreOutcome where
  write : WriteResult := .written
  /-- A file cannot be opened or read. -/
  readFails : Bool := false
  /-- `access` fails on a file that is there. -/
  accessFails : Bool := false
  /-- The pending directories whose session, or whose marker, a selection cannot read. -/
  sessionFails : List String := []
  markerFails : List String := []
  /-- Those with which it cannot read the session of their account. -/
  activeFails : List String := []
  /-- Whether a directory is made or opened, or a lock taken. -/
  ok : Bool := true
  newId : String := "login-1"
  /-- What mkdtemp puts for XXXXXX. -/
  suffix : String := "aaaaaa"
  /-- The order in which readdir gives the pending directories. -/
  entries : List String := []

/-- A directory with a `session.json`. -/
inductive LoginPlace where
  | staging (name : String)
  | pending (name : String)
  | account (mid : String)

namespace LoginFile

/-- string on what is read of a file. -/
def str (f : LoginFile) (key : String) : Option String := f.parsed.join.bind (·.str key)

def seen (f : LoginFile) (fails : Bool) : LoginFile := if fails then .missing else f

end LoginFile

namespace Keyed

/-- cJSON_GetObjectItem. -/
def item (s : Keyed) (key : String) : Option Json := (Json.obj s.root).getObjectItem key

def isTrueItem (s : Keyed) (key : String) : Bool :=
  (s.item key).bind Json.getBoolValue == some true

def identity (s : Keyed) : Option Identity := Identity.parse (s.item "clientIdentity")

end Keyed

namespace LoginStore

variable (w : LoginStore)

def session (name : String) : LoginFile := (w.pending.lookup name).elim .missing PendingDir.session

def isRetired (name : String) : Bool := (w.pending.lookup name).any PendingDir.retired

def file : LoginPlace → LoginFile
  | .staging name => w.staging name
  | .pending name => w.session name
  | .account mid => w.accounts mid

def put (f : LoginFile) : LoginPlace → LoginStore
  | .staging name => { w with staging := Function.update w.staging name f }
  | .pending name => { w with pending := w.pending.insert name ⟨f, w.isRetired name⟩ }
  | .account mid => { w with accounts := Function.update w.accounts mid f }

/-- Whether a pending directory is there; the others are. -/
def hasPlace : LoginPlace → Bool
  | .pending name => (w.pending.lookup name).isSome
  | _ => true

/-! ### Which login goes on -/

/-- The account has a login that is not to be replaced by the saved one. -/
def isSuperseded (o : StoreOutcome) (prior : Keyed) (expected : Option String)
    (name mid : String) : Bool :=
  let active := (w.accounts mid).seen (o.activeFails.contains name)
  let generation := active.str "loginId"
  let baseline := prior.str "reauthLoginId"
  (expected.isNone && active.parsed.isSome) || active.str "nativeLoginSource" == some name ||
    (generation.isSome && generation == prior.str "loginId") ||
    (expected == some mid && active.parsed.isSome &&
      (generation.isNone || baseline.isNone || generation != baseline))

def isMatch (o : StoreOutcome) (staged prior : Keyed) (name : String) : Bool :=
  let expected := staged.str "reauthMid"
  let saved := (prior.str "accessToken").isSome || prior.isTrueItem "nativeTokenRequestStarted"
  if staged.identity.isNone || prior.identity.isNone || staged.identity ≠ prior.identity then false
  else if expected ≠ prior.str "reauthMid" then false
  else if expected.isSome && ((staged.str "reauthLoginId").isNone ||
    staged.str "reauthLoginId" ≠ prior.str "reauthLoginId") then false
  else match prior.str "mid" with
    | none => saved
    | some mid => safeName mid && !w.isSuperseded o prior expected name mid && saved

/-- A pending directory that a staging session without a source may go on in. -/
def isCandidate (o : StoreOutcome) (staged : Keyed) (name : String) : Bool :=
  pendingName name && !(w.isRetired name && !o.markerFails.contains name) &&
    ((w.session name).seen (o.sessionFails.contains name)).parsed.join.any fun prior =>
      w.isMatch o staged prior name

/-- The source that a staging session names, unless it is retired. -/
def sourceOf (o : StoreOutcome) (staged : Keyed) : Option String :=
  (staged.str "nativeLoginSource").filter fun name =>
    pendingName name && !(w.isRetired name && !o.accessFails)

end LoginStore

/-! ## Operations -/

abbrev Store := Prog LoginStore StoreOutcome

namespace Store

def attempt : Store Bool := .op fun o w => (o.ok, w)

def newId : Store String := .op fun o w => (o.newId, w)

def read (p : LoginPlace) : Store (Option (Option Keyed)) := .op fun o w =>
  (((w.file p).seen o.readFails).parsed, w)

def isFound (p : LoginPlace) : Store Bool := .op fun o w =>
  (((w.file p).seen o.accessFails).isFound, w)

def isRetired (name : String) : Store Bool := .op fun o w =>
  (w.isRetired name && !o.accessFails, w)

def write (p : LoginPlace) (s : Keyed) : Store Bool := .op fun o w =>
  if w.hasPlace p && o.write.visible then (o.write.ok, w.put (.object s) p) else (false, w)

def patch (p : LoginPlace) (items : Fields) : Store Bool := .op fun o w =>
  match (w.file p).seen o.readFails with
  | .object s =>
    if o.write.visible then
      (o.write.ok, w.put (.object (items.foldl (fun s f => s.set f.1 f.2) s)) p)
    else (false, w)
  | _ => (false, w)

def loginId (p : LoginPlace) : Store (Option String) := .op fun o w =>
  match (w.file p).seen o.readFails with
  | .object s =>
    match Login.addLoginId s o.newId with
    | none => (none, w)
    | some (id, s') =>
      if (s.item "loginId").isSome then (some id, w)
      else if o.write.visible then
        (if o.write.ok then some id else none, w.put (.object s') p)
      else (none, w)
  | _ => (none, w)

/-- retire; the lock may be held by a handshake. -/
def retire (name : String) : Store Bool := .op fun o w =>
  match w.pending.lookup name with
  | some d =>
    if o.ok && o.write.visible then
      (o.write.ok, { w with pending := w.pending.insert name { d with retired := true } })
    else (false, w)
  | none => (false, w)

/-- mkdtemp. -/
def makePending : Store (Option String) := .op fun o w =>
  let name := ".native-login-" ++ o.suffix
  if o.ok && (w.pending.lookup name).isNone then
    (some name, { w with pending := w.pending.insert name {} })
  else (none, w)

/-- The first directory that matches; one read of them all. -/
def findSaved (staged : Keyed) : Store (Option String) :=
  .step (fun o w => if o.entries.isPerm w.pending.keys then some w else none) fun o w =>
    .pure (o.entries.find? fun name => w.isCandidate o staged name)

def activateSession (mid : String) (staged : Keyed) : Store Bool := .op fun o w =>
  if o.write.visible then
    (o.write.ok, { w.put (.object staged) (.account mid) with
      activated := (staged.str "accessToken").toList ++ w.activated })
  else (false, w)

/-! ## enil_login_store.c -/

/-- The identity and the certificate of a new login. -/
def loginBase (profile reauth : Option String) : Store (Option Keyed) :=
  match reauth with
  | none => pure ((profile.bind Identity.default).map fun i =>
      Keyed.empty.set "clientIdentity" i.toJson)
  | some mid => do
    match ← read (.account mid) with
    | some (some s) =>
      return (Identity.parse (s.get "clientIdentity")).map fun i =>
        (Keyed.empty.set "clientIdentity" i.toJson).copyField "certificate" (some (.obj s.root))
          "certificate"
    | _ => return none

def prepareLogin (staging : String) (profile reauth : Option String) : Store Bool := do
  if ← isFound (.staging staging) then return false
  match ← loginBase profile reauth with
  | none => return false
  | some s => write (.staging staging) (s.set "loginId" (.str (← newId)))

def prepare (staging : String) (profile : Option String) : Option String → Store Bool
  | none => prepareLogin staging profile none
  | some mid => do
    if !safeName mid then return false
    match ← loginId (.account mid) with
    | none => return false
    | some id =>
      if !(← prepareLogin staging profile (some mid)) then return false
      patch (.staging staging) [("reauthMid", .str mid), ("reauthLoginId", .str id)]

/-- A new pending directory with the staging session. -/
def createPending (staged : Keyed) : Store (Option String) := do
  match ← makePending with
  | none => return none
  | some name =>
    if ← write (.pending name) staged then return some name
    return none

/-- The pending directory of a staging session that names no live source. -/
def choose (staged : Keyed) : Store (Option String) := do
  let saved ← if staged.isTrueItem "nativeLoginFresh" then pure none else findSaved staged
  match saved with
  | some name => return some name
  | none => createPending staged

/-- The staging session names the directory that was selected. -/
def nameSource (staging : String) : Option String → Store (Option String)
  | none => return none
  | some name => do
    if ← patch (.staging staging) [("nativeLoginSource", .str name)] then return some name
    return none

def select (staging : String) : Store (Option String) := do
  match ← read (.staging staging) with
  | some (some staged) =>
    let source ← .op fun o w => (w.sourceOf o staged, w)
    if !(← attempt) then return source
    match source with
    | some name => nameSource staging (some name)
    | none => nameSource staging (← choose staged)
  | _ => return none

def stage (staging pending : String) : Store Bool := do
  let id ← loginId (.pending pending)
  match ← read (.pending pending) with
  | some (some ready) =>
    if id.isNone || (← isRetired pending) then return false
    if (ready.str "accessToken").isNone || (ready.str "mid").isNone then return false
    write (.staging staging) (ready.set "nativeLoginSource" (.str pending))
  | _ => return false

/-- What a restarted login keeps. -/
def freshSession (staged : Keyed) : Keyed :=
  let fields := ["clientIdentity", "reauthMid", "reauthLoginId", "certificate"]
  let copy (s : Keyed) (key : String) : Keyed := s.copyField key (some (.obj staged.root)) key
  (fields.foldl copy .empty).set "nativeLoginFresh" (.bool true)

def restart (staging : String) : Store Bool := do
  match ← read (.staging staging) with
  | some (some staged) =>
    match (staged.str "nativeLoginSource").filter pendingName with
    | none => return false
    | some source =>
      if !(← retire source) then return false
      if !(← write (.staging staging) (freshSession staged)) then return false
      return (← loginId (.staging staging)).isSome
  | _ => return false

def activate (staging account : String) : Store Bool := do
  match ← read (.staging staging) with
  | some (some staged) =>
    if staged.str "mid" ≠ some account || !safeName account ||
      (staged.str "accessToken").isNone then return false
    if !(← attempt) then return false
    if !(← activateSession account staged) then return false
    match (staged.str "nativeLoginSource").filter pendingName with
    | none => return true
    | some source => do
      let _ ← retire source
      return true
  | _ => return false

end Store

/-! ## Runs -/

inductive StoreCall where
  | prepare (staging : String) (profile expected : Option String)
  | select (staging : String)
  | stage (staging pending : String)
  | restart (staging : String)
  | activate (staging account : String)

/-- The directory that a call selects. -/
def StoreCall.run : StoreCall → Store (Option String)
  | .prepare staging profile expected => do
    let _ ← Store.prepare staging profile expected
    return none
  | .select staging => Store.select staging
  | .stage staging pending => do
    let _ ← Store.stage staging pending
    return none
  | .restart staging => do
    let _ ← Store.restart staging
    return none
  | .activate staging account => do
    let _ ← Store.activate staging account
    return none

inductive StoreEvent where
  /-- A call, cut off by a crash where its outcomes end. -/
  | call (c : StoreCall) (outcomes : List StoreOutcome)
  /-- A staging directory is removed. -/
  | discard (staging : String)
  /-- An account directory is removed. -/
  | remove (mid : String)
  /-- The native login saves its session. -/
  | login (pending : String) (s : Keyed)
  /-- A login without a pending directory saves its session. -/
  | gateway (staging : String) (s : Keyed)
  /-- An account saves its session. -/
  | save (mid : String) (s : Keyed)

/-- What a login does not change once it has its access token. -/
def loginKeys : List String := ["mid", "loginId", "reauthMid", "reauthLoginId"]

namespace LoginStore

variable (w : LoginStore)

/-- A login replaces its session: it has an id before a token is issued, which is a new one. -/
def logIn (p : LoginPlace) (s : Keyed) : Option LoginStore :=
  match w.file p with
  | .object s₀ =>
    match s₀.str "accessToken", s.str "accessToken" with
    | none, none => some (w.put (.object s) p)
    | none, some token =>
      if (w.issued token).isNone && (s.str "loginId").isSome then
        some { w.put (.object s) p with issued := Function.update w.issued token (some s) }
      else none
    | some token, token' =>
      if token' = some token ∧ ∀ key ∈ loginKeys, s.str key = s₀.str key then
        some (w.put (.object s) p)
      else none
  | _ => none

/-- An account keeps its login id and its source; it may be given what it lacks. -/
def saveAccount (mid : String) (s : Keyed) : Option LoginStore :=
  match w.accounts mid with
  | .object a =>
    if ∀ key ∈ ["loginId", "nativeLoginSource"], (a.str key).isSome → s.str key = a.str key then
      some (w.put (.object s) (.account mid))
    else none
  | _ => none

/-- The login of a pending directory was activated. -/
def isConsumed (name : String) : Bool :=
  ((w.session name).str "accessToken").any fun token => token ∈ w.activated

end LoginStore

/-- The store, and every directory that was selected with whether its login had been
activated. -/
structure StoreRun where
  store : LoginStore := {}
  selections : List (String × Bool) := []

def StoreRun.step (st : StoreRun) : StoreEvent → Option StoreRun
  | .call c outcomes =>
    let (selected, w) := c.run.upTo outcomes st.store
    some ⟨w, st.selections ++ selected.join.toList.map fun name => (name, w.isConsumed name)⟩
  | .discard staging => some { st with store := st.store.put .missing (.staging staging) }
  | .remove mid => some { st with store := st.store.put .missing (.account mid) }
  | .login pending s => (st.store.logIn (.pending pending) s).map fun w => { st with store := w }
  | .gateway staging s => (st.store.logIn (.staging staging) s).map fun w => { st with store := w }
  | .save mid s => (st.store.saveAccount mid s).map fun w => { st with store := w }

def loginStore : Machine StoreRun StoreEvent := ⟨StoreRun.step⟩

end Enil
