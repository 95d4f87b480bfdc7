import Enil.Line.Talk
import Enil.Login.Directory
import Enil.Session.Isolation

/-!
# Refresh of the tokens

`token_refresh_locked` of `enil_line.c`. A refresh token is good for one request. The reply
to it is kept in a journal beside `session.json` until its tokens stand in the session, so
that whatever ends the call in between, the next one goes on from the reply.
-/

namespace Enil

open Lib

/-! ## The files -/

/-- session.json.refresh-pending: no file, a text that does not parse, or a value. -/
inductive JournalFile where
  | missing
  | garbled
  | value (j : Json)

namespace JournalFile

def isFound : JournalFile → Bool
  | missing => false
  | _ => true

/-- enil_session_read. -/
def parsed : JournalFile → Option Json
  | value j => some j
  | _ => none

end JournalFile

def refreshString (root : Option Json) (name : String) : Option String :=
  root.bind (·.dupStringOpt name)

structure RefreshReply where
  loginId : String
  refreshId : String
  previousRefreshToken : String
  responseBody : String
  deriving DecidableEq, Repr

def RefreshReply.toJson (r : RefreshReply) : Json :=
  .obj [
    ("loginId", .str r.loginId),
    ("refreshId", .str r.refreshId),
    ("previousRefreshToken", .str r.previousRefreshToken),
    ("responseBody", .str r.responseBody)]

/-- A save of refreshed tokens: the reply they are from, the session the call had loaded and
the file that was left. -/
structure Commit where
  reply : RefreshReply
  loaded : Session
  file : Fields

/-- The two files, with the saves of tokens that this session.json came from. -/
structure RefreshFiles where
  session : Option Fields
  journal : JournalFile := .missing
  commits : List Commit := []

/-- A request that was sent, with the replies that were in the journal before it and the saves
there were. -/
structure RefreshRequest where
  loginId : String
  refreshToken : String
  journaled : List RefreshReply
  commits : List Commit

/-- The directory of an account. Both files are in it, so that a flush is one of both and a
crash leaves a state that it had. -/
structure RefreshDir where
  files : Disk RefreshFiles
  /-- LINE is in its failed state. -/
  failed : Bool := false
  /-- An activation has replaced the session and still holds the mutex. -/
  activating : Bool := false
  /-- A call has loaded the session and has not looked for the journal yet. -/
  loaded : Bool := false
  /-- The ids of logins and refreshes there were. -/
  ids : List String := []
  /-- The replies whose journal was flushed. -/
  journaled : List RefreshReply := []
  requests : List RefreshRequest := []

namespace RefreshDir

variable (w : RefreshDir)

abbrev now : RefreshFiles := w.files.visible

/-- enil_session_new_id gives 128 random bits: an id that there was not before. -/
def isNew (id : String) : Bool := id != "" && !w.ids.contains id

end RefreshDir

/-! ## Operations -/

/-- What decides an operation from outside: each looks at the fields it needs. -/
structure RefreshOutcome where
  write : WriteResult := .written
  /-- A file cannot be read. -/
  readFails : Bool := false
  /-- `access` fails on a file that is there. -/
  accessFails : Bool := false
  /-- Whether a copy, a request or a removal succeeds. -/
  ok : Bool := true
  newId : String := "refresh-1"
  reply : LineResponse := { status := 200, body := none }

abbrev Refresh := Prog RefreshDir RefreshOutcome

/-- What a call goes on with of the session it loaded. -/
structure Loaded where
  session : Session
  accessToken : String
  refreshToken : String
  loginId : String

/-- The session loaded has both tokens and a loginId. -/
def loadedOf (s : Session) : Option Loaded := do
  let accessToken ← s.accessToken
  let refreshToken ← s.refreshToken
  let loginId ← refreshString (some (.obj s.snapshot)) "loginId"
  if loginId = "" then none else some ⟨s, accessToken, refreshToken, loginId⟩

inductive Access where
  | found
  | missing
  | error

namespace Refresh

def attempt : Refresh Bool := .op fun o w => (o.ok, w)

/-- enil_session_login_id on the file that is read. -/
def loginIdOn (o : RefreshOutcome) (w : RefreshDir) : Option String × RefreshDir :=
  match if o.readFails then none else w.now.session with
  | none => (none, w)
  | some root =>
    match addLoginId root o.newId with
    | none => (none, w)
    | some (id, root') =>
      if ((Json.obj root).getObjectItem "loginId").isSome then (some id, w)
      else
        (if o.write.ok then some id else none,
          { w with
            ids := o.newId :: w.ids
            files := w.files.write { w.now with session := some root' } o.write })

/-- enil_session_login_id: it waits for the mutex. -/
def loginId : Refresh (Option String) :=
  .step (fun o w => if w.activating || !w.isNew o.newId then none else some (loginIdOn o w).2)
    fun o w => .pure (loginIdOn o w).1

def bindIdentity : Refresh Bool := .op fun o w =>
  ((if o.readFails then none else Enil.bindIdentity w.now.session).isSome, w)

/-- enil_session_load, and the copies that are made of what was loaded. -/
def load : Refresh (Option Loaded) := .op fun o w =>
  match (if o.readFails || !o.ok then none else sessionLoad w.now.session).bind loadedOf with
  | none => (none, w)
  | some s => (some s, { w with loaded := true })

/-- access. -/
def lookForJournal : Refresh Access := .op fun o w =>
  (if o.accessFails then .error else if w.now.journal.isFound then .found else .missing,
    { w with loaded := false })

def readJournal : Refresh (Option Json) := .op fun o w =>
  (if o.readFails then none else w.now.journal.parsed, w)

/-- enil_session_retire_file on the journal. -/
def retire : Refresh Bool := .op fun o w =>
  if o.accessFails then (false, w)
  else if !w.now.journal.isFound then (true, w)
  else (o.write.ok, { w with files := w.files.write { w.now with journal := .missing } o.write })

def newId : Refresh (Option String) :=
  .step (fun o w => if w.isNew o.newId then some { w with ids := o.newId :: w.ids } else none)
    fun o _ => .pure (if o.ok then some o.newId else none)

/-- enil_line_post: nothing is sent in the failed state. -/
def post (s : Loaded) : Refresh LineResponse := .op fun o w =>
  if w.failed || !o.ok then ({ status := 0, body := none }, w)
  else (o.reply, { w with
    requests := w.requests ++ [⟨s.loginId, s.refreshToken, w.journaled, w.now.commits⟩] })

/-- The write of the journal; LINE fails where it does. -/
def journalOn (r : RefreshReply) (o : RefreshOutcome) (w : RefreshDir) : Bool × RefreshDir :=
  let files := w.files.write { w.now with journal := .value r.toJson } o.write
  if o.write.ok then (true, { w with files := files, journaled := w.journaled ++ [r] })
  else (false, { w with files := files, failed := true })

def writeJournal (r : RefreshReply) : Refresh Bool :=
  .step (fun o w => if w.activating then none else some (journalOn r o w).2)
    fun o w => .pure (journalOn r o w).1

/-- session_persist: the save of the tokens of `r`, of a session loaded as `loaded`. -/
def persistOn (r : RefreshReply) (loaded s : Session) (o : RefreshOutcome) (w : RefreshDir) :
    Bool × RefreshDir :=
  match sessionSave w.now.session s .written with
  | (true, some file) =>
    (o.write.ok, { w with
      failed := w.failed || !o.write.ok
      files := w.files.write
        { w.now with session := some file, commits := ⟨r, loaded, file⟩ :: w.now.commits }
        o.write })
  | _ => (false, { w with failed := true })

def persist (r : RefreshReply) (loaded s : Session) : Refresh Bool :=
  .step (fun o w => if w.activating then none else some (persistOn r loaded s o w).2)
    fun o w => .pure (persistOn r loaded s o w).1

def unlink : Refresh Unit := .op fun o w =>
  ((), if o.ok then { w with files := w.files.put { w.now with journal := .missing } } else w)

end Refresh

/-! ## The tokens of a reply -/

/-- talk_token_v3_issue_result_t, by the fields that go into a session. -/
structure TokenV3IssueResult where
  accessToken : String
  refreshToken : Option String
  durationUntilRefreshInSec : Int
  tokenIssueTimeEpochSec : Int
  raw : Json

/-- talk_token_v3_issue_result_parse. -/
def parseTokenV3 (data : Option Json) : Option TokenV3IssueResult := do
  let data ← data
  if !data.isObject then none
  let accessToken ← data.dupStringOpt "accessToken"
  some {
    accessToken := accessToken
    refreshToken := data.dupStringOpt "refreshToken"
    durationUntilRefreshInSec := data.getInt64 "durationUntilRefreshInSec"
    tokenIssueTimeEpochSec := data.getInt64 "tokenIssueTimeEpochSec"
    raw := data }

/-- The object of a reply that the tokens stand in. -/
def issuedIn (root : Option Json) : Option Json :=
  let data := root.bind (·.getObjectItemCaseSensitive "data")
  if data.any fun d => (d.getObjectItem "tokenV3IssueResult").isSome then
    data.bind (·.getObjectItemCaseSensitive "tokenV3IssueResult")
  else data

/-- session_apply_token_v3, with the id of the refresh. -/
def applyTokenV3 (t : TokenV3IssueResult) (refreshId : String) (s : Session) : Session :=
  { s with
    accessToken := some t.accessToken
    refreshToken := t.refreshToken.or s.refreshToken
    durationUntilRefreshInSec := t.durationUntilRefreshInSec
    tokenIssueTimeEpochSec := t.tokenIssueTimeEpochSec
    refreshApiRetryPolicy :=
      (t.raw.getObjectItemCaseSensitive "refreshApiRetryPolicy").filter Json.isObject
    refreshJournalId := some refreshId }

/-! ## The call -/

inductive Recovery where
  /-- The journal is kept, and nothing is done. -/
  | stop
  | fresh
  | replay (body refreshId : String)
  | committed

/-- The result of a refresh, with the code of an error of LINE. -/
structure Refreshed where
  token : Option String := none
  lineCode : Int := 0

/-- The int that cJSON keeps beside a number. -/
def Json.valueint (q : Rat) : Int := max (-2 ^ 31) (min (2 ^ 31 - 1) (truncate q))

namespace Refresh

variable (cj : Cjson)

/-- The tokens in the text of a reply. -/
def tokensIn (body : String) : Option TokenV3IssueResult := parseTokenV3 (issuedIn (cj.parse body))

/-- A journal without a refresh id: whether its tokens are those of the session. -/
def wasCommitted (raw : String) (s : Loaded) : Bool :=
  let tokens := issuedIn (cj.parse raw)
  refreshString tokens "accessToken" == some s.accessToken ||
    refreshString tokens "refreshToken" == some s.refreshToken

def retireAs (r : Recovery) : Refresh Recovery := do
  if ← retire then return r
  return .stop

/-- recover_refresh on a journal that is there. -/
def recoverFrom (s : Loaded) (pending : Option Json) : Refresh Recovery :=
  let id := refreshString pending "refreshId"
  if (refreshString pending "loginId").any (· ≠ s.loginId) then retireAs .fresh
  else if id.isSome && id == s.session.refreshJournalId then retireAs .committed
  else
    match refreshString pending "previousRefreshToken", refreshString pending "responseBody" with
    | some previous, some raw =>
      if previous = s.refreshToken then
        match id with
        | some id => return .replay raw id
        | none => do
          match ← newId with
          | some id => return .replay raw id
          | none => return .stop
      else retireAs (if wasCommitted cj raw s then .committed else .fresh)
    | _, _ => return .stop

def recoverRefresh (s : Loaded) : Refresh Recovery := do
  match ← lookForJournal with
  | .missing => return .fresh
  | .error => return .stop
  | .found =>
    let pending ← readJournal
    recoverFrom cj s pending

/-- A reply, new or replayed: it is in the journal before its tokens are saved. -/
def commitReply (s : Loaded) (r : RefreshReply) : Refresh Refreshed := do
  if !(← writeJournal r) then return {}
  match tokensIn cj r.responseBody with
  | none => return {}
  | some t =>
    if !(← persist r s.session (applyTokenV3 t r.refreshId s.session)) then return {}
    unlink
    return { token := some t.accessToken }

/-- The code in the reply to a request that failed. -/
def lineCodeOf (resp : LineResponse) : Int :=
  (((resp.body.bind cj.parse).bind (·.getObjectItemCaseSensitive "code")).bind
    Json.getNumberValue).elim 0 Json.valueint

def requestTokens (s : Loaded) : Refresh Refreshed := do
  match ← newId with
  | none => return {}
  | some id =>
    if !(← attempt) then return {}
    let resp ← post s
    match resp.body with
    | none => return {}
    | some body =>
      if resp.status ≠ 200 then return { lineCode := lineCodeOf cj resp }
      commitReply cj s ⟨s.loginId, id, s.refreshToken, body⟩

/-- token_refresh_locked from the load on. -/
def refreshLoaded (s : Loaded) : Refresh Refreshed := do
  match ← recoverRefresh cj s with
  | .stop => return {}
  | .committed => return { token := some s.accessToken }
  | .replay body id => commitReply cj s ⟨s.loginId, id, s.refreshToken, body⟩
  | .fresh => requestTokens cj s

def tokenRefreshLocked : Refresh Refreshed := do
  if (← loginId).isNone then return {}
  if !(← bindIdentity) then return {}
  match ← load with
  | none => return {}
  | some s => refreshLoaded cj s

end Refresh

/-! ## The account -/

structure Edit.KeepsRefresh (e : Edit) : Prop where
  refreshToken : ∀ s, e.Keeps "refreshToken" s
  refreshJournalId : ∀ s, e.Keeps "refreshJournalId" s

/-- What else writes to the files of the account, and what the system does. -/
inductive RefreshEvent (N : Set String) where
  | save (root : Fields) (isOver : root.Over N) (e : Edit) (keeps : e.KeepsRefresh)
  | patch (p : Fields) (isOver : p.Over N)
      (keeps : ∀ k ∈ ["loginId", "refreshToken", "refreshJournalId"], p.get k = none)
  | acceptNextAccess (b : Binding) (previous next : String)
  | updatePartial (b : Option Binding) (targets : Fields)
  | completePartial (snapshot : Fields)
  | loginId (newId : String)
  | activate (root : Fields) (isOver : root.Over N) (w : WriteResult)
  | retireJournal (w : WriteResult)
  | flush
  | health (failed : Bool)

variable {N : Set String}

def refreshTokenOf (file : Option Fields) : Option String :=
  (file.bind fun root => root.get "refreshToken").bind Json.getStringValue

/-- The id of the refresh that a session file has taken up last. -/
def journalIdOf (file : Option Fields) : Option String :=
  (file.bind fun root => root.get "refreshJournalId").bind Json.getStringValue

namespace RefreshDir

variable (w : RefreshDir)

/-- A replacement of the session; the flush is an event of its own. -/
def putSession (file : Option Fields) : RefreshDir :=
  { w with files := w.files.put { w.now with session := file } }

/-- enil_session_activate up to the journal: with the session in place it goes on to it. -/
def activate (root : Fields) (id : String) (o : WriteResult) : RefreshDir :=
  { w with
    ids := id :: (journalIdOf (some root)).toList ++ w.ids
    files := w.files.write { w.now with session := some root } o
    activating := o.ok }

/-- The journal of the old login is retired, and the mutex is free. -/
def retireJournal (o : WriteResult) : RefreshDir :=
  { w with
    files := if w.now.journal.isFound then w.files.write { w.now with journal := .missing } o
      else w.files
    activating := false }

/-- What the mutex of the session is needed for. -/
def locked (w' : RefreshDir) : Option RefreshDir := if w.activating then none else some w'

def event : RefreshEvent N → Option RefreshDir
  | .save root _ e _ =>
    (sessionParse root).bind fun s =>
      w.locked (w.putSession (sessionSave w.now.session (e.apply s) .unsynced).2)
  | .patch p _ _ => w.locked (w.putSession (sessionPatch w.now.session p .unsynced).2)
  | .acceptNextAccess b previous next =>
    w.locked (w.putSession (acceptNextAccess b w.now.session previous next .unsynced).2)
  | .updatePartial b targets =>
    w.locked (w.putSession (updatePartialFullSyncs b w.now.session targets .unsynced).2)
  | .completePartial snapshot =>
    w.locked (w.putSession (completePartialFullSyncs snapshot w.now.session .unsynced).2)
  | .loginId newId =>
    if w.isNew newId then
      w.locked { w.putSession (sessionLoginId w.now.session newId .unsynced).2 with
        ids := newId :: w.ids }
    else none
  | .activate root _ o =>
    match root.get "loginId" with
    | some (.str id) => if w.isNew id then w.locked (w.activate root id o) else none
    | _ => none
  | .retireJournal o => if w.activating then some (w.retireJournal o) else none
  | .flush => some { w with files := w.files.sync }
  | .health failed => some { w with failed := failed }

end RefreshDir

/-- Refreshes of an account one at a time, beside its other writers, with crashes. -/
def tokenRefreshes (cj : Cjson) (N : Set String) :
    System RefreshDir RefreshOutcome Unit (RefreshEvent N) Nat Refreshed where
  call _ := Refresh.tokenRefreshLocked cj
  others e w := w.event e
  crash k w :=
    { w with files := w.files.crash k, failed := false, activating := false, loaded := false }

end Enil
