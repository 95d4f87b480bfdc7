import Enil.Line.Talk
import Enil.Worker.Post

/-!
# Requests to the Chrome gateway

`enil_chrome_gateway_post`: a request that the worker signs, with the status it comes back
with deciding whether the account is in order.
-/

namespace Enil

open Lib

/-- A call of enil_line_post_ex, on a thread with a health and a login bound. -/
structure LinePost (A : Type) where
  health : Option A := none
  bound : Bound A
  path : String
  body : String
  accessToken : String
  extraHeaders : List String := []
  /-- A cancel flag is passed. -/
  cancel : Bool := false

def lineGateway : String := "https://line-chrome-gw.line-apps.com"

def lineOrigin : String := "chrome-extension://ophjlpahpchlmihnnnihgmmeilfjmjjc"

/-- enil_line_language_headers, in the language of enil_line_set_language. -/
def languageHeaders (language : String) : List String :=
  if language = "ja" then ["Accept-Language: ja-JP", "X-LAL: ja_JP"]
  else ["Accept-Language: en-US", "X-LAL: en_US"]

def LineResponse.empty : LineResponse := ⟨0, none⟩

namespace Posting

variable {A : Type} [DecidableEq A] (cj : Cjson) (language : String)

/-- snprintf of a string into a buffer of `size` bytes. -/
def buffered (size : Nat) (s : String) : List UInt8 := (utf8 s).take (size - 1)

def gatewayRequest (p : LinePost A) (identity : Identity) (hmac : String) : WireRequest A where
  health := p.health
  identity := identity
  url := buffered 512 (lineGateway ++ p.path)
  headers :=
    [utf8 "Accept: application/json, text/plain, */*"] ++
    (languageHeaders language).map utf8 ++
    [utf8 "Content-Type: application/json",
      buffered 64 ("X-Line-Chrome-Version: " ++ identity.gatewayVersion),
      buffered 192 ("X-Line-Application: " ++ identity.application),
      utf8 ("Origin: " ++ lineOrigin),
      utf8 ("X-Hmac: " ++ hmac)] ++
    (if p.accessToken = "" then []
      else [utf8 ("X-Line-Access: " ++ p.accessToken), utf8 ("Cookie: lct=" ++ p.accessToken)]) ++
    p.extraHeaders.map utf8
  body := utf8 p.body

/-- The method of a key lookup, whose 400 says nothing about the account. -/
def publicKeyPath : String := "/api/talk/thrift/Talk/TalkService/getE2EEPublicKey"

/-- A status that puts the account into the failed state. -/
def isGatewayFailure (path : String) (status : Int) : Bool :=
  status == 401 || status == 403 || (500 ≤ status && status < 600) ||
    (!(status == 400 && path == publicKeyPath) && status != 0 && (status < 200 || 300 ≤ status))

/-- A status that comes with no body. -/
def isGatewayRefusal (path : String) (status : Int) : Bool :=
  isGatewayFailure path status || (status == 400 && path == publicKeyPath)

def gatewayReply (p : LinePost A) (r : Performed) : Posting A LineResponse := do
  if r.code ≠ .ok then
    if r.code ≠ .aborted then lineSetFailure p.health
    return .empty
  if isGatewayFailure p.path r.status then lineSetFailure p.health
  if isGatewayRefusal p.path r.status then return ⟨r.status, none⟩
  return ⟨r.status, r.text⟩

def chromeGatewayPost (p : LinePost A) (identity : Identity) : Posting A LineResponse := do
  match ← workerSign cj p.path p.body p.accessToken with
  | none => return .empty
  | some hmac =>
    if !(← attempt) then return .empty
    let r ← sendToLine (gatewayRequest language p identity hmac)
    gatewayReply p r

end Posting

end Enil
