import Enil.Json.B64
import Enil.Login.Directory

/-!
# The native login

`enil_native_login_run` from the lock on, with the raw replies decoded by `decode`. Each
stage does nothing where `session.json` says that it is done; `none` ends the call.
-/

namespace Enil

open Lib

/-- enil_thrift_decode_raw: whether the reply is an exception, and its fields. -/
abbrev DecodeRaw := String → List UInt8 → Option (Bool × Json)

/-- qrCodeLoginV2ForSecure. -/
def tokenMethod : String := "qrCodeLoginV2ForSecure"

namespace Login

variable (decode : DecodeRaw) (evp : Evp)

/-- decode: a reply of no bytes is none. -/
def decodeWire (method : String) (body : List UInt8) : Option (Bool × Json) :=
  if body = [] then none else decode method body

/-! ## Requests -/

/-- Whether `encode` has what the request of a method takes from the session. -/
def canEncode (method : String) (s : Keyed) : Bool :=
  method == "createSession" || ((s.str "authSessionId").isSome &&
    (method != tokenMethod || ((s.str "nativeQrNonce").isSome &&
      (Identity.parse ((Json.obj s.root).getObjectItem "clientIdentity")).isSome)))

/-- The session id of a poll goes into a header. -/
def fitsHeader (s : Keyed) : Bool :=
  (s.str "authSessionId").any fun sid =>
    sid.utf8ByteSize ≤ 450 && sid.toList.all fun c => c != '\r' && c != '\n'

/-- What `call` leaves: the session, the result, whether the call of the program failed, the
error code, and whether a poll may try again. -/
structure CallResult where
  state : Keyed
  result : Option Json := none
  failed : Bool := false
  errorCode : Int := -1
  timedOut : Bool := false

def rawReply (method : String) (reply : LoginReply) (s : Keyed) : Keyed :=
  ((s.set "lastNativeMethod" (.str method)).set "lastNativeHttpStatus" (.num reply.status)).set
    "lastNativeResponseBase64" (.str (b64Encode reply.body))

/-- The result of a decoded reply, or its error code. -/
def resultOf (method : String) (polling exception : Bool) (root : Json) : Option Json × Int :=
  let field (key : String) := root.getObjectItemCaseSensitive key
  match if exception then some root else field "1" with
  | some error =>
    (none, if exception then -1
      else ((error.getObjectItemCaseSensitive "1").bind Json.getNumberValue).elim (-1) Json.truncate)
  | none =>
    (if (field "0").isNone && (polling || method == "verifyCertificate") then some (.obj [])
      else field "0", -1)

/-- call: the raw reply is saved before it is decoded. -/
def call (method : String) (polling : Bool) (s : Keyed) : Login CallResult := do
  if ← cancelled then return { state := s }
  if !canEncode method s || (Identity.parse (s.get "clientIdentity")).isNone then
    return { state := s }
  if !(← attempt) || (polling && !fitsHeader s) then return { state := s }
  let reply ← perform method
  let timedOut := reply.curl == .timedOut || reply.status == 408
  if !(← attempt) then return { state := s, timedOut := timedOut }
  let s := rawReply method reply s
  if !(← write s) then return { state := s, failed := true }
  if reply.curl ≠ .ok || reply.status ≠ 200 then return { state := s, timedOut := timedOut }
  match decodeWire decode method reply.body with
  | none => return { state := s, failed := true }
  | some (exception, root) =>
    let s := s.set "lastNativeResponse" root
    if !(← write s) then return { state := s, failed := true }
    let (result, errorCode) := resultOf method polling exception root
    return { state := s, result := result, errorCode := errorCode }

/-- call where nothing but a result lets the login go on. -/
def callFor (method : String) (s : Keyed) : Login (Option (Keyed × Json)) := do
  let r ← call decode method false s
  return r.result.map fun j => (r.state, j)

def poll (method : String) : Nat → Keyed → Login (Option Keyed)
  | 0, _ => pure none
  | n + 1, s => do
    if ← cancelled then return none
    let r ← call decode method true s
    if r.result.isSome then return some r.state
    if r.failed || !r.timedOut then return none
    poll method n r.state

def save (s : Keyed) : Login (Option Keyed) := do
  if ← write s then return some s
  return none

/-! ## The stages of the handshake -/

def defaultIdentity : Json :=
  .obj (Fields.put Identity.windows.toJson.items ("transport", .str "native-thrift"))

/-- The session read, or a new one where there is no file. -/
def openSession : Login (Option Keyed) := do
  match ← read with
  | some s => return s
  | none =>
    if ← isFound then return none
    return some .empty

def prepare (s : Keyed) : Login (Option Keyed) := do
  if ← cancelled then return none
  let s := s.set "nativeTransport" (.str "compact-thrift")
  let s := if (s.get "clientIdentity").isNone then s.set "clientIdentity" defaultIdentity else s
  if !(← write s) then return none
  match ← loginId with
  | none => return none
  | some id => return some (s.set "loginId" (.str id))

def createKeys (s : Keyed) : Login (Option Keyed) :=
  if (s.str "e2eePublicKey").isSome then pure (some s)
  else do
    match ← keygen with
    | none => return none
    | some keys =>
      save (((s.set "e2eePublicKey" (.str keys.publicKey)).set "e2eeKeyId"
        (.num keys.keyId)).setOpt "workerRestoreState" keys.workerRestoreState)

def createSession (s : Keyed) : Login (Option Keyed) :=
  if (s.str "authSessionId").isSome then pure (some s)
  else Prog.andThen (callFor decode "createSession" s) fun (s, result) =>
    if (result.dupStringOpt "1").isNone then pure none
    else save (s.copyField "authSessionId" result "1")

def createQrCode (s : Keyed) : Login (Option Keyed) :=
  if (s.str "callbackUrl").isSome then pure (some s)
  else Prog.andThen (callFor decode "createQrCodeForSecure" s) fun (s, result) =>
    if (result.dupStringOpt "1").isNone || (result.dupStringOpt "4").isNone then pure none
    else do
      let now ← time
      let s := ((s.copyField "callbackUrl" result "1").copyField "nativeQrNonce" result "4")
      let s := (s.copyField "longPollingMaxCount" result "2").copyField "longPollingIntervalSec"
        result "3"
      save (s.set "createdAt" (.num now))

def intItem (s : Keyed) (key : String) (fallback : Int) : Int :=
  ((s.get key).bind Json.getNumberValue).elim fallback Json.truncate

def pollCount (s : Keyed) : Int := intItem s "longPollingMaxCount" 12

/-- The polling limits, and the QR code on the screen. -/
def showQrCode (s : Keyed) : Login (Option Keyed) :=
  let interval := intItem s "longPollingIntervalSec" 30
  if pollCount s < 1 || pollCount s > 120 || interval < 1 || interval > 180 ||
    pollCount s * interval > 1800 then pure none
  else if (s.str "callbackUrl").isNone || (s.str "e2eePublicKey").isNone ||
    (s.str "nativeQrNonce").isNone then pure none
  else do
    if ← attempt then return some s
    return none

def verifyScan (s : Keyed) : Login (Option Keyed) :=
  if s.isTrue "nativeScanVerified" then pure (some s)
  else Prog.andThen (poll decode "checkQrCodeVerified" (pollCount s).toNat s) fun s =>
    save (s.set "nativeScanVerified" (.bool true))

/-- The certificate of an earlier login, or a PIN where the server does not take it. -/
def verifyDevice (count : Nat) (s : Keyed) : Login (Option Keyed) := do
  let r ← call decode "verifyCertificate" false s
  if r.result.isSome then return some r.state
  if r.failed || r.errorCode ≠ 2 then return none
  Prog.andThen (callFor decode "createPinCode" r.state) fun (s, result) =>
    if (result.dupStringOpt "1").isNone then pure none
    else poll decode "checkPinCodeVerified" count s

def verifyPin (s : Keyed) : Login (Option Keyed) :=
  if s.isTrue "nativePinVerified" then pure (some s)
  else Prog.andThen loadCertificate fun certificate =>
    Prog.andThen (verifyDevice decode (pollCount s).toNat
      (certificate.elim s fun c => s.set "certificate" (.str c))) fun s =>
        save (s.set "nativePinVerified" (.bool true))

/-- The handshake up to the request for the tokens. -/
def handshake (s : Keyed) : Login (Option Keyed) :=
  Prog.andThen (prepare s) fun s => Prog.andThen (createKeys s) fun s =>
    Prog.andThen (createSession decode s) fun s => Prog.andThen (createQrCode decode s) fun s =>
      Prog.andThen (showQrCode s) fun s => Prog.andThen (verifyScan decode s) fun s =>
        verifyPin decode s

/-! ## The tokens -/

def loginFields (result : Json) (s : Keyed) : Keyed :=
  let tokens := result.getObjectItemCaseSensitive "3"
  let metadata := result.getObjectItemCaseSensitive "10"
  let s := s.set "nativeLoginResult" result
  let s := (s.copyField "accessToken" tokens "1").copyField "refreshToken" tokens "2"
  let s := s.copyField "durationUntilRefreshInSec" tokens "3"
  let s := s.copyField "tokenIssueTimeEpochSec" tokens "6"
  let s := (s.copyField "certificate" result "1").copyField "mid" result "4"
  let s := s.copyField "e2eeLoginMetaData" result "10"
  let s := s.copyField "e2eeLoginPublicKey" metadata "publicKey"
  let s := s.copyField "e2eeVersion" metadata "e2eeVersion"
  s.copyField "e2eeHashKeyChain" metadata "hashKeyChain"

/-- save_login_result; the certificate goes to a file outside the directory. -/
def saveLoginResult (result : Json) (s : Keyed) : Login (Option Keyed) :=
  save (loginFields result s)

/-- The result in the bytes of a reply to the token request. -/
def resultIn (body : List UInt8) : Option Json :=
  match decodeWire decode tokenMethod body with
  | some (false, root) => root.getObjectItemCaseSensitive "0"
  | _ => none

/-- The result in the reply to the token request that a session holds. -/
def savedResult (s : Keyed) : Option Json :=
  if s.str "lastNativeMethod" = some tokenMethod then
    ((s.str "lastNativeResponseBase64").bind (b64DecodeAlloc evp)).bind (resultIn decode)
  else none

def tokenOf (result : Json) : Option String :=
  (result.getObjectItemCaseSensitive "3").bind (·.dupStringOpt "1")

/-- recover_login_reply: nothing is sent. -/
def recoverLoginReply (s : Keyed) : Login Bool :=
  match savedResult decode evp s with
  | none => pure false
  | some result =>
    if (tokenOf result).isNone then pure false
    else do return (← saveLoginResult result s).isSome

/-- The keychain of the login, where it can be unwrapped; its failure to be saved is the
only one that counts. -/
def unwrapKeys (result : Json) (s : Keyed) : Login Bool := do
  let metadata := result.getObjectItemCaseSensitive "10"
  let item (key : String) := metadata.bind (·.dupStringOpt key)
  if (item "publicKey").isNone || (item "encryptedKeyChain").isNone then return true
  if ← cancelled then return true
  if (item "errorCode").any fun e => e != "0" && e != "SUCCESS" then return true
  if (s.get "workerRestoreState").isNone ||
    ((s.get "e2eeKeyId").bind Json.getNumberValue).isNone then return true
  match ← unwrapKeychain with
  | none => return true
  | some unwrapped =>
    write (((s.set "e2eeKeys" unwrapped.keys).setOpt "workerRestoreState"
      unwrapped.workerRestoreState).copyField "e2eeLatestKeyId" metadata "keyId")

/-- The token request: the session says that it was started before it is sent. -/
def requestToken (s : Keyed) : Login Bool := do
  if ← cancelled then return false
  let s := s.set "nativeTokenRequestStarted" (.bool true)
  if !(← write s) then return false
  match ← callFor decode tokenMethod s with
  | none => return false
  | some (s, result) =>
    match ← saveLoginResult result s with
    | none => return false
    | some s =>
      if (s.str "accessToken").isNone then return false
      unwrapKeys result s

/-- A login that was read: done, started, or still to be made. -/
def resume (s : Keyed) : Login Bool :=
  if (s.str "accessToken").isSome then pure true
  else if s.isTrue "nativeTokenRequestStarted" then recoverLoginReply decode evp s
  else do
    match ← handshake decode s with
    | none => return false
    | some s => requestToken decode s

/-- enil_native_login_run, with the lock. -/
def run : Login Bool := do
  if ← isRetired then return false
  match ← openSession with
  | none => return false
  | some s => resume decode evp s

def retire : Login Bool := .op fun o d =>
  (o.write.ok, { d with retired := d.retired.write true o.write })

end Login

/-! ## Runs -/

inductive LoginTask where
  | run
  | retire
  deriving DecidableEq

/-- A crash leaves one of the versions of each file. -/
structure LoginCrash where
  session : Nat := 0
  retired : Nat := 0

/-- Runs and retirements of one directory, one at a time, with crashes. A call that finds
the lock taken does nothing. -/
def nativeLogins (decode : DecodeRaw) (evp : Evp) :
    System LoginDir LoginOutcome LoginTask Empty LoginCrash (LoginTask × Bool) where
  call
    | .run => do return (.run, ← Login.run decode evp)
    | .retire => do return (.retire, ← Login.retire)
  others e _ := nomatch e
  crash x d := { d with session := d.session.crash x.session, retired := d.retired.crash x.retired }

end Enil
