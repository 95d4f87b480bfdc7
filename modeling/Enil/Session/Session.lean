import Enil.Json.Compare
import Enil.Session.File

/-!
# The session

`session_t` with its parser and serialiser, and the client identity it carries.
The serialiser starts from the object the session was parsed from and sets the
fields it knows, so other keys survive.
-/

namespace Enil

/-! ## Identity -/

structure Identity where
  profileId : String
  transport : String
  application : String
  userAgent : String
  systemName : String
  modelName : String
  gatewayVersion : String
  autoLoginRequired : Bool
  deriving DecidableEq, Repr

namespace Identity

def legacyChrome : Identity where
  profileId := "chrome"
  transport := "chrome-gateway"
  application := "CHROMEOS\t3.7.2\tChrome_OS"
  userAgent := "Mozilla/5.0 (Macintosh; Intel Mac OS X 10_15_7) " ++
    "AppleWebKit/537.36 (KHTML, like Gecko) Chrome/145.0.0.0 Safari/537.36"
  systemName := "CHROMEOS"
  modelName := "CHROME"
  gatewayVersion := "3.7.2"
  autoLoginRequired := false

def windows : Identity where
  profileId := "desktopwin"
  transport := "native-thrift"
  application := "DESKTOPWIN\t9.7.0.3556\tWINDOWS\t10.0.0-NT-x64"
  userAgent := "Line/9.7.0.3556"
  systemName := "DESKTOPWIN"
  modelName := "DESKTOPWIN"
  gatewayVersion := "3.7.2"
  autoLoginRequired := true

def android : Identity where
  profileId := "android"
  transport := "native-thrift"
  application := "ANDROIDSECONDARY\t26.6.2\tAndroid OS\t16"
  userAgent := "Line/26.6.2"
  systemName := "Pixel Tablet"
  modelName := "Pixel Tablet"
  gatewayVersion := "3.7.2"
  autoLoginRequired := true

def default (profileId : String) : Option Identity :=
  [legacyChrome, windows, android].find? fun i => i.profileId == profileId

/-- read_string into a buffer of `size` bytes. -/
def readString (j : Json) (key : String) (size : Nat) (allowTabs : Bool) : Option String :=
  (j.dupStringOpt key).filter fun s =>
    0 < s.utf8ByteSize && s.utf8ByteSize < size &&
      s.toList.all fun c => (32 ≤ c.toNat || (allowTabs && c == '\t')) && c.toNat != 127

/-- The application up to its first tab. -/
def applicationPrefix (application : String) : List Char :=
  application.toList.takeWhile (· != '\t') ++ ['\t']

def parse : Option Json → Option Identity
  | none => some legacyChrome
  | some j => do
    if !j.isObject || (j.getObjectItemCaseSensitive "schemaVersion").bind Json.getNumberValue
      ≠ some 1 then none
    let transport ← j.dupStringOpt "transport"
    if transport ≠ "chrome-gateway" ∧ transport ≠ "native-thrift" then none
    let autoLogin := j.getObjectItemCaseSensitive "autoLoginIsRequired"
    if autoLogin.any fun v => v.getBoolValue.isNone then none
    let profileId ← readString j "profileId" 16 false
    let known ← default profileId
    let application ← readString j "application" 160 true
    let userAgent ← readString j "userAgent" 256 false
    let systemName ← readString j "systemName" 64 false
    let modelName ← readString j "modelName" 64 false
    let gatewayVersion ← readString j "gatewayVersion" 32 false
    if transport ≠ known.transport ∧ ¬(profileId = "desktopwin" ∧ transport = "chrome-gateway")
      then none
    if !(applicationPrefix known.application).isPrefixOf application.toList then none
    some ⟨profileId, transport, application, userAgent, systemName, modelName, gatewayVersion,
      (autoLogin.bind Json.getBoolValue).getD false⟩

def toJson (i : Identity) : Json :=
  .obj [
    ("schemaVersion", .num 1),
    ("transport", .str i.transport),
    ("profileId", .str i.profileId),
    ("application", .str i.application),
    ("userAgent", .str i.userAgent),
    ("systemName", .str i.systemName),
    ("modelName", .str i.modelName),
    ("gatewayVersion", .str i.gatewayVersion),
    ("autoLoginIsRequired", .bool i.autoLoginRequired)]

end Identity

/-! ## Fields -/

/-- A field of `session_t` by the way it is stored. -/
inductive FieldValue where
  /-- set_str_field. -/
  | str (v : Option String)
  /-- set_i64_str_field. -/
  | i64Str (v : Int)
  /-- set_i64_num_field. -/
  | i64Num (v : Int)
  /-- set_obj_field. -/
  | obj (v : Option Json)
  | flag (v : Bool)
  | identity (v : Identity)

/-- The item stored for a field; a cleared field has none. -/
def FieldValue.item : FieldValue → Option Json
  | str v => v.map .str
  | i64Str v => some (.str (toString v))
  | i64Num v => some (.num (Json.toDouble v))
  | obj v => v
  | flag v => if v then some (.bool true) else none
  | identity v => some v.toJson

/-- session_t; `snapshot` is the object it was parsed from. -/
structure Session where
  snapshot : Fields
  clientIdentity : Identity
  accessToken : Option String
  refreshToken : Option String
  refreshJournalId : Option String
  mid : Option String
  displayName : Option String
  regionCode : Option String
  certificate : Option String
  e2eeLoginPublicKey : Option String
  e2eeVersion : Option String
  e2eeHashKeyChain : Option String
  durationUntilRefreshInSec : Int
  tokenIssueTimeEpochSec : Int
  e2eeLatestKeyId : Int
  e2eeSequenceNumber : Int
  reqSeq : Int
  needsReauth : Bool
  e2eeKeys : Option Json
  e2eeLoginMetaData : Option Json
  encryptedAccessTokens : Option Json
  workerRestoreState : Option Json
  refreshApiRetryPolicy : Option Json
  lastPartialFullSyncs : Option Json

def sessionParse (root : Fields) : Option Session := do
  let item := (Json.obj root).getObjectItem
  let string := (Json.obj root).stringItem
  let identity ← Identity.parse (root.get "clientIdentity")
  let accessToken ← string "accessToken"
  some {
    snapshot := root
    clientIdentity := identity
    accessToken := some accessToken
    refreshToken := string "refreshToken"
    refreshJournalId := string "refreshJournalId"
    mid := string "mid"
    displayName := string "displayName"
    regionCode := string "regionCode"
    certificate := string "certificate"
    e2eeLoginPublicKey := string "e2eeLoginPublicKey"
    e2eeVersion := string "e2eeVersion"
    e2eeHashKeyChain := string "e2eeHashKeyChain"
    durationUntilRefreshInSec := Json.coerceInt64 (item "durationUntilRefreshInSec")
    tokenIssueTimeEpochSec := Json.coerceInt64 (item "tokenIssueTimeEpochSec")
    e2eeLatestKeyId := Json.coerceInt64 (item "e2eeLatestKeyId")
    e2eeSequenceNumber := Json.coerceInt64 (item "e2eeSequenceNumber")
    reqSeq := Json.coerceInt64 (item "reqSeq")
    needsReauth := ((item "needsReauth").bind Json.getBoolValue).getD false
    e2eeKeys := item "e2eeKeys"
    e2eeLoginMetaData := item "e2eeLoginMetaData"
    encryptedAccessTokens := item "encryptedAccessTokens"
    workerRestoreState := item "workerRestoreState"
    refreshApiRetryPolicy := item "refreshApiRetryPolicy"
    lastPartialFullSyncs := item "lastPartialFullSyncs" }

/-- The fields in the order `enil_session_to_json` sets them. -/
def Session.fields (s : Session) : List (String × FieldValue) := [
  ("clientIdentity", .identity s.clientIdentity),
  ("certificate", .str s.certificate),
  ("e2eeKeys", .obj s.e2eeKeys),
  ("e2eeLatestKeyId", .i64Num s.e2eeLatestKeyId),
  ("e2eeLoginMetaData", .obj s.e2eeLoginMetaData),
  ("e2eeLoginPublicKey", .str s.e2eeLoginPublicKey),
  ("e2eeVersion", .str s.e2eeVersion),
  ("e2eeHashKeyChain", .str s.e2eeHashKeyChain),
  ("mid", .str s.mid),
  ("displayName", .str s.displayName),
  ("regionCode", .str s.regionCode),
  ("encryptedAccessTokens", .obj s.encryptedAccessTokens),
  ("accessToken", .str s.accessToken),
  ("refreshToken", .str s.refreshToken),
  ("refreshJournalId", .str s.refreshJournalId),
  ("durationUntilRefreshInSec", .i64Str s.durationUntilRefreshInSec),
  ("tokenIssueTimeEpochSec", .i64Str s.tokenIssueTimeEpochSec),
  ("reqSeq", .i64Num s.reqSeq),
  ("e2eeSequenceNumber", .i64Num s.e2eeSequenceNumber),
  ("workerRestoreState", .obj s.workerRestoreState),
  ("refreshApiRetryPolicy", .obj s.refreshApiRetryPolicy),
  ("lastPartialFullSyncs", .obj s.lastPartialFullSyncs),
  ("needsReauth", .flag s.needsReauth)]

/-- The item deleted without regard to case and, when there is a value, added. -/
def Fields.set (fs : Fields) (key : String) (v : Option Json) : Fields :=
  Json.deleteItem key fs ++ (v.map fun v => (key, v)).toList

def sessionToJson (s : Session) : Fields :=
  s.fields.foldl (fun root f => root.set f.1 f.2.item) s.snapshot

def sessionKeys : List String := [
  "clientIdentity", "certificate", "e2eeKeys", "e2eeLatestKeyId", "e2eeLoginMetaData",
  "e2eeLoginPublicKey", "e2eeVersion", "e2eeHashKeyChain", "mid", "displayName", "regionCode",
  "encryptedAccessTokens", "accessToken", "refreshToken", "refreshJournalId",
  "durationUntilRefreshInSec", "tokenIssueTimeEpochSec", "reqSeq", "e2eeSequenceNumber",
  "workerRestoreState", "refreshApiRetryPolicy", "lastPartialFullSyncs", "needsReauth"]

@[simp] theorem Session.fields_keys (s : Session) : s.fields.map Prod.fst = sessionKeys := rfl

theorem sessionKeys_nodup : sessionKeys.Nodup := by decide

theorem loginId_notMem : "loginId" ∉ sessionKeys := by decide

end Enil
