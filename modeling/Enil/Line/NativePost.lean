import Enil.Line.Gateway
import Enil.Line.TokenRefresh
import Enil.Thrift.Read

/-!
# Requests of the native client

`enil_native_post`: the JSON call of the gateway becomes a Compact Thrift message, sealed by
the worker where the endpoint wants it, and the reply becomes the JSON that the gateway would
have answered. The call sends nothing, and takes up nothing, of a login that was replaced.
-/

namespace Enil

open Lib Thrift

/-! ## Items -/

mutual

/-- The same item with its strings as bytes. -/
def Json.toItem : Json → Item
  | .null => .null
  | .bool b => .bool b
  | .num q => .num q
  | .str s => .str (utf8 s)
  | .arr items => .arr (Json.toItems items)
  | .obj members => .obj (Json.toMembers members)

def Json.toItems : List Json → List Item
  | [] => []
  | j :: js => j.toItem :: Json.toItems js

def Json.toMembers : List (String × Json) → List (List UInt8 × Item)
  | [] => []
  | (key, j) :: fs => (utf8 key, j.toItem) :: Json.toMembers fs

end

namespace Thrift.Item

def get (key : String) : Item → Option Item
  | obj fs => (fs.find? fun f => f.1 == utf8 key).map Prod.snd
  | _ => none

/-- What an item has inside, as `child` and `next` go through it. -/
def children : Item → List Item
  | obj fs => fs.map Prod.snd
  | arr xs => xs
  | _ => []

def string (key : String) (o : Item) : Option (List UInt8) :=
  match o.get key with
  | some (.str s) => some s
  | _ => none

def valueint : Item → Option Int
  | num q => some (Json.valueint q)
  | _ => none

end Thrift.Item

/-! ## The call -/

structure NativeCall where
  method : String
  endpoint : String
  encrypted : Bool
  args : Item
  /-- The reply is a list of contacts, and is wanted as a map. -/
  contacts : Bool := false

/-- What stands behind the last slash. -/
def methodOf (path : String) : Option String :=
  if path.toList.contains '/' then
    some (.ofList (path.toList.reverse.takeWhile (· ≠ '/')).reverse)
  else none

def shopService : String := "/api/shop/thrift/ShopService/ShopService/"

def talkService : String := "/api/talk/thrift/Talk/TalkService/"

/-- The endpoint of a path. -/
def routeCall (path method : String) (args : Item) : Option NativeCall :=
  if path = "/api/auth/tokenRefresh" then
    some ⟨"refresh", "/EXT/auth/tokenrefresh/v1", false, .arr [args], false⟩
  else if path = "/native/sync" then some ⟨method, "/SYNC4", true, args, false⟩
  else if shopService.toList.isPrefixOf path.toList then
    some ⟨method, "/TSHOP4", false, args, false⟩
  else if talkService.toList.isPrefixOf path.toList then some ⟨method, "/S4", true, args, false⟩
  else none

/-- getContactsV2 is asked for as getContacts. -/
def adaptContacts (c : NativeCall) : Option NativeCall :=
  if c.method = "getContactsV2" then
    match c.args.children.head?.bind (·.get "targetUserMids") with
    | some (.arr mids) =>
      some { c with method := "getContacts", args := .arr [.arr mids], contacts := true }
    | _ => none
  else some c

/-- sendChatRemoved has no time as its fourth argument. -/
def adaptChatRemoved (c : NativeCall) : Option NativeCall :=
  if c.method = "sendChatRemoved" then
    match c.args with
    | .arr [a, b, d, _] => some { c with args := .arr [a, b, d] }
    | _ => none
  else some c

def nativeCall (path : String) (args : Item) : Option NativeCall := do
  let method ← methodOf path
  let call ← routeCall path method args
  let call ← adaptContacts call
  adaptChatRemoved call

/-! ## The reply -/

def contactsMap (data : Item) : Item :=
  .obj [(utf8 "contacts", .obj (data.children.filterMap fun item =>
    (item.string "mid").map fun mid => (mid, .obj [(utf8 "contact", item)])))]

/-- What the gateway answers. -/
def envelope (data : Item) : Item :=
  .obj [(utf8 "message", .str (utf8 "OK")), (utf8 "data", data)]

def replyData (c : NativeCall) (reply : Item) : Option Item :=
  let data := match reply.get "success" with
    | some data => some data
    | none => if c.method = "sendChatChecked" ∨ c.method = "sendChatRemoved" then some (.obj [])
      else none
  if c.contacts then data.map contactsMap else data

/-- A code of LINE that says the login is no longer good. -/
def isRejection (data : Item) : Bool :=
  match (data.get "code").bind Item.valueint with
  | some code => code == 1 || code == 14 || code == 117
  | none => false

structure Codec where
  cj : Cjson
  source : Source
  double : Nat → Rat
  printItem : Item → String
  language : String

namespace Posting

variable {A : Type} [DecidableEq A] (k : Codec)

/-! ## The login -/

/-- enil_session_bound_access_token: `none` where the login that is bound is gone, `some none`
where no login is bound. -/
def boundAccessToken : Bound A → Posting A (Option (Option String))
  | .login a b => .op fun o w =>
    (((if o.ok then w.session a else none).bind fun root =>
      if b.isMatch root then
        match root.get "accessToken" with
        | some (.str token) => if token = "" then none else some (some token)
        | _ => none
      else none), w)
  | _ => return some none

def currentLogin (b : Bound A) : Posting A Bool := do
  return (← boundAccessToken b).isSome

/-- enil_session_accept_next_access. -/
def acceptNext (b : Bound A) (previous next : String) : Posting A Bool :=
  match b with
  | .login a b => .op fun o w =>
    let r := acceptNextAccess b (if o.ok then w.session a else none) previous next o.write
    (r.1, if o.ok then { w with session := fun c => if c = a then r.2 else w.session c } else w)
  | _ => return false

/-! ## Sealing -/

/-- Where what the worker sealed is sent to. -/
def sealedUrl : String := "https://gf.line.naver.jp/enc"

/-- A request that is ready, with the key its reply is sealed with. -/
structure Sealed where
  url : String
  headers : List (List UInt8)
  body : List UInt8
  key : Option String

def commonHeaders (identity : Identity) : List (List UInt8) :=
  [utf8 "Content-Type: application/x-thrift", utf8 "Accept: application/x-thrift",
    utf8 ("X-Line-Application: " ++ identity.application)] ++
    (languageHeaders k.language).map utf8

def sealedHeaders (xLcs : String) : List (List UInt8) :=
  [utf8 "X-LE: 7", utf8 "X-LAP: 5", utf8 "X-LPV: 1", utf8 ("X-LCS: " ++ xLcs), utf8 "X-LHM: POST"]

def sealPayload (c : NativeCall) (wire : List UInt8) (token : String) : Json :=
  .obj [("path", .str c.endpoint), ("body", .str (b64Encode wire)), ("accessToken", .str token)]

def openPayload (key : String) (bytes : List UInt8) : Json :=
  .obj [("key", .str key), ("body", .str (b64Encode bytes))]

/-- The request with its headers, sealed by the worker where it is to be. -/
def sealCall (p : LinePost A) (identity : Identity) (token : String) (c : NativeCall)
    (wire : List UInt8) : Posting A (Option Sealed) := do
  if c.encrypted then
    let encoded ← workerCall k.cj "/transport/legy/encode" (sealPayload c wire token) p.cancel
    if ← isCancelled p.cancel then return none
    return do
      let encoded ← encoded
      let body ← encoded.dupStringOpt "body"
      let key ← encoded.dupStringOpt "key"
      let xLcs ← encoded.dupStringOpt "xLcs"
      let bytes ← b64DecodeAlloc k.source.evp body
      return {
        url := sealedUrl
        headers := sealedHeaders xLcs ++ commonHeaders k identity
        body := bytes
        key := some key }
  else
    return some {
      url := if c.method = "refresh" then "https://legy.line-apps.com/EXT/auth/tokenrefresh/v1"
        else "https://legy.line-apps.com/TSHOP4"
      headers := (if token = "" then [] else [utf8 ("X-Line-Access: " ++ token)]) ++
        commonHeaders k identity
      body := wire
      key := none }

/-- The bytes of a reply, opened by the worker; or the status the call ends with. -/
def openReply (p : LinePost A) (token : String) (key : Option String) (bytes : List UInt8) :
    Posting A (Except Int (List UInt8)) := do
  match key with
  | none => return .ok bytes
  | some key =>
    let decoded ← workerCall k.cj "/transport/legy/decode" (openPayload key bytes) p.cancel
    match decoded.bind (·.dupStringOpt "body") with
    | none => return .error 200
    | some body =>
      let status := ((decoded.bind (·.getObjectItemCaseSensitive "status")).bind
        Json.getNumberValue).elim 200 Json.valueint
      if status ≠ 200 then return .error status
      if !(← currentLogin p.bound) then return .error 200
      match (decoded.bind (·.getObjectItemCaseSensitive "headers")).bind
        (·.dupStringOpt "x-line-next-access") with
      | some next =>
        if !(← acceptNext p.bound token next) then
          lineSetFailure p.health
          return .error 200
      | none => pure ()
      return (b64DecodeAlloc k.source.evp body).elim (.error 200) .ok

/-! ## The post -/

/-- The end of every call. -/
def finish (p : LinePost A) (r : LineResponse) : Posting A LineResponse := do
  if r.status = 401 ∨ r.status = 403 then lineSetFailure p.health
  return r

/-- The JSON that the bytes of a reply become. -/
def readReply (p : LinePost A) (c : NativeCall) (bytes : List UInt8) : Posting A LineResponse :=
  match (enilThriftDecode k.source.schema k.double c.method (some bytes)).bind (·.item) with
  | none => return ⟨200, none⟩
  | some reply =>
    match reply.get "e" with
    | some data => do
      if isRejection data then lineSetFailure p.health
      return ⟨400, some (k.printItem data)⟩
    | none => return ⟨200, (replyData c reply).map fun data => k.printItem (envelope data)⟩

/-- What is made of a reply: nothing where its login was replaced, but for a refresh. -/
def nativeReply (p : LinePost A) (c : NativeCall) (bytes : List UInt8) :
    Posting A LineResponse := do
  if c.method ≠ "refresh" then
    if !(← currentLogin p.bound) then return ⟨200, none⟩
  readReply k p c bytes

def isIdle (r : Performed) : Bool :=
  r.bytes.isEmpty && (r.status == 0 || r.status == 200) && r.uploaded

/-- The request that is ready is sent, if its login was not replaced in the meantime. -/
def nativeSend (p : LinePost A) (identity : Identity) (token : String) (c : NativeCall)
    (s : Sealed) : Posting A LineResponse := do
  if !(← attempt) then return .empty
  if !(← currentLogin p.bound) then return .empty
  let r ← sendToLine ⟨p.health, identity, utf8 s.url, s.headers, s.body⟩
  if r.code ≠ .ok then
    finish p ⟨if r.code = .timedOut ∧ c.method = "sync" ∧ isIdle r then 204 else r.status, none⟩
  else if r.status ≠ 200 then finish p ⟨r.status, none⟩
  else
    match ← openReply k p token s.key r.bytes with
    | .error status => finish p ⟨status, none⟩
    | .ok bytes => nativeReply k p c bytes

def nativePost (p : LinePost A) (identity : Identity) : Posting A LineResponse := do
  if ← isCancelled p.cancel then return .empty
  match ← boundAccessToken p.bound with
  | none => return .empty
  | some bound =>
    let token := bound.getD p.accessToken
    match (k.cj.parse p.body).bind fun args => nativeCall p.path args.toItem with
    | none => return .empty
    | some c =>
      match enilThriftEncode k.source c.method c.args with
      | none => return .empty
      | some wire =>
        match ← sealCall k p identity token c wire with
        | none => return .empty
        | some s => nativeSend k p identity token c s

def linePostEx (p : LinePost A) : Posting A LineResponse := do
  match p.bound.current with
  | none => return .empty
  | some identity =>
    if ← isLineFailed p.health then return .empty
    if identity.transport = "native-thrift" then nativePost k p identity
    else if identity.transport = "chrome-gateway" then
      chromeGatewayPost k.cj k.language p identity
    else return .empty

end Posting

end Enil
