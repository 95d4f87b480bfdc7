import Enil.Line.Talk
import Enil.Login.Directory

/-!
# The login by QR code

`enil_qrlogin_run` with the Chrome transport, any number of times over one directory. A call
writes the session whether it succeeds or not, so that the next one can go on from there,
and a session that has an access token ends the next call at once. What the callers count
on is that the session of a call that succeeds has an access token and a mid.
-/

namespace Enil

open Lib

/-! ## The session of a login -/

/-- The items of an object that a key finds. -/
def matching (key : String) (fs : Fields) : Nat := fs.countP fun f => Json.keyEq f.1 key

/-- An object without a second access token or mid. -/
structure LoginSession where
  root : Fields
  oneToken : matching "accessToken" root ≤ 1
  oneMid : matching "mid" root ≤ 1

/-- set_str, set_num and set_obj on the items. -/
def setItem (key : String) (v : Json) (fs : Fields) : Fields := Json.deleteItem key fs ++ [(key, v)]

theorem matching_delete_le (k key : String) (fs : Fields) :
    matching key (Json.deleteItem k fs) ≤ matching key fs :=
  List.Sublist.countP_le List.eraseP_sublist

theorem keyEq_congr {k key : String} (h : Json.keyEq k key = true) (k' : String) :
    Json.keyEq k' k = Json.keyEq k' key := by
  unfold Json.keyEq
  rw [Json.keyEq_iff.mp h]

theorem matching_delete_same {k key : String} {fs : Fields} (h : Json.keyEq k key = true)
    (hone : matching key fs ≤ 1) : matching key (Json.deleteItem k fs) = 0 := by
  induction fs with
  | nil => rfl
  | cons f fs ih =>
    unfold matching Json.deleteItem at *
    rw [List.countP_cons] at hone
    cases hf : Json.keyEq f.1 key with
    | true =>
      rw [hf, if_pos rfl] at hone
      rw [List.eraseP_cons_of_pos (by rw [keyEq_congr h, hf])]
      omega
    | false =>
      rw [hf, if_neg Bool.false_ne_true] at hone
      rw [List.eraseP_cons_of_neg (by rw [keyEq_congr h, hf]; exact Bool.false_ne_true),
        List.countP_cons_of_neg (by rw [hf]; exact Bool.false_ne_true)]
      exact ih hone

theorem matching_setItem (k key : String) (v : Json) {fs : Fields} (hone : matching key fs ≤ 1) :
    matching key (setItem k v fs) ≤ 1 := by
  have hdelete := matching_delete_le k key fs
  unfold setItem matching at *
  rw [List.countP_append, List.countP_singleton]
  cases hk : Json.keyEq k key with
  | true =>
    have hzero : List.countP (fun f => Json.keyEq f.1 key) (Json.deleteItem k fs) = 0 :=
      matching_delete_same hk hone
    rw [hzero, if_pos rfl]
  | false =>
    rw [if_neg Bool.false_ne_true]
    omega

theorem matching_put (k key : String) (v : Json) {fs : Fields} (h : Json.keyEq k key = false)
    (hone : matching key fs ≤ 1) : matching key (fs.put (k, v)) ≤ 1 := by
  have hdelete : matching key (fs.delete k) ≤ matching key fs :=
    List.Sublist.countP_le List.eraseP_sublist
  have hput : matching key (fs.put (k, v)) = matching key (fs.delete k) := by
    unfold Fields.put matching
    rw [List.countP_append, List.countP_singleton, h, if_neg Bool.false_ne_true]
    rfl
  omega

namespace LoginSession

variable (s : LoginSession)

def item (key : String) : Option Json := (Json.obj s.root).getObjectItem key

/-- jstr. -/
def str (key : String) : Option String := (Json.obj s.root).stringItem key

def set (key : String) (v : Json) : LoginSession :=
  ⟨setItem key v s.root, matching_setItem _ _ _ s.oneToken, matching_setItem _ _ _ s.oneMid⟩

def delete (key : String) : LoginSession :=
  ⟨Json.deleteItem key s.root, (matching_delete_le _ _ _).trans s.oneToken,
    (matching_delete_le _ _ _).trans s.oneMid⟩

/-- The certificate of an earlier login, deleted and added as its key is spelled. -/
def putCertificate (v : Json) : LoginSession :=
  ⟨s.root.put ("certificate", v), matching_put _ _ _ rfl s.oneToken,
    matching_put _ _ _ rfl s.oneMid⟩

/-- string: the item found by its exact key. -/
def string (key : String) : Option String := (s.root.get key).bind Json.getStringValue

/-- set_str and set_obj with a value that may be missing. -/
def setOpt (key : String) : Option Json → LoginSession
  | some v => s.set key v
  | none => s.delete key

end LoginSession

def jstrDef (j : Option Json) (key fallback : String) : String :=
  match j.bind (·.stringItem key) with
  | some v => if v = "" then fallback else v
  | none => fallback

/-- A number of an object, where it is greater than zero. -/
def positiveItem (j : Option Json) (key : String) : Option Rat :=
  ((j.bind (·.getObjectItem key)).bind Json.getNumberValue).filter fun q => 0 < q

/-! ## What a call is answered -/

/-- What the server, the worker, the disk and the user answer in one call. -/
structure QrAnswers where
  readFails : Bool := false
  cancelledAtStart : Bool := false
  cancelledPoll : Nat → Bool := fun _ => false
  cancelledAfterScan : Bool := false
  cancelledBeforeFinalize : Bool := false
  identityWrite : WriteResult := .written
  qrWrite : WriteResult := .written
  finalWrite : WriteResult := .written
  /-- The write at `done`. -/
  resumableWrite : WriteResult := .written
  time : Rat := 0
  createSession : LineResponse
  createQrCode : LineResponse
  keygen : Option KeygenResult
  checkQrCodeVerified : Nat → LineResponse
  /-- `none` where the certificate cannot be read. -/
  certificate : Option (Option String) := some none
  verifyCertificate : LineResponse
  createPinCode : LineResponse
  checkPinCodeVerified : LineResponse
  qrCodeLogin : LineResponse
  unwrapped : Option UnwrapResult
  getProfile : LineResponse

variable (cj : Cjson)

def callData (r : LineResponse) : Option Json :=
  if r.body = some "" then none else unwrapOk cj r

namespace QrLogin

/-- A step of the login with the session as it leaves it, and whether the login goes on. -/
abbrev Stage := LoginSession → LoginSession × Bool

def ensureQrSession (a : QrAnswers) : Stage := fun s =>
  if (s.str "authSessionId").isSome && (s.str "callbackUrl").isSome then (s, true)
  else match (callData cj a.createSession).bind (·.stringItem "authSessionId") with
    | none => (s, false)
    | some auth =>
      let s := s.set "authSessionId" (.str auth)
      match callData cj a.createQrCode with
      | none => (s, false)
      | some qr =>
        match qr.stringItem "callbackUrl" with
        | none => (s, false)
        | some url =>
          let number (key : String) (fallback : Rat) : Json :=
            .num (((qr.getObjectItem key).bind Json.getNumberValue).getD fallback)
          ((((s.set "callbackUrl" (.str url)).set "longPollingIntervalSec"
            (number "longPollingIntervalSec" 1)).set "longPollingMaxCount"
              (number "longPollingMaxCount" 30)).set "createdAt" (.num a.time), true)

def ensureE2eeKey (a : QrAnswers) : Stage := fun s =>
  if (s.item "e2eeKeyId").isSome && (s.str "e2eePublicKey").isSome &&
    (s.str "authSessionId").isSome && s.str "authSessionId" == s.str "e2eeKeyAuthSessionId" then
      (s, true)
  else match a.keygen with
    | none => (s, false)
    | some keys =>
      ((((s.set "e2eeKeyId" (.num keys.keyId)).set "e2eePublicKey" (.str keys.publicKey)).setOpt
        "e2eeKeyAuthSessionId" ((s.str "authSessionId").map .str)).setOpt "workerRestoreState"
          keys.workerRestoreState, true)

/-- The QR code is shown. -/
def showQrUrl : Stage := fun s =>
  (s, (s.str "callbackUrl").isSome && (s.str "e2eePublicKey").isSome)

/-- The polls from the `i`th on, `n` at most. -/
def pollFrom (a : QrAnswers) : Nat → Nat → Bool
  | _, 0 => false
  | i, n + 1 =>
    if a.cancelledPoll i then false
    else if (a.checkQrCodeVerified i).status = 200 then true
    else if (a.checkQrCodeVerified i).status = 410 ∨ (a.checkQrCodeVerified i).status = 400 then
      false
    else pollFrom a (i + 1) n

def pollForScan (a : QrAnswers) : Stage := fun s =>
  let count := ((s.item "longPollingMaxCount").bind Json.getNumberValue).elim 30 Json.truncate
  (s, pollFrom a 1 (if count ≤ 0 then 30 else count.toNat))

/-- enil_session_load_login_certificate. -/
def loadCertificate (a : QrAnswers) : Stage := fun s =>
  match a.certificate with
  | none => (s, false)
  | some none => (s, true)
  | some (some certificate) => (s.putCertificate (.str certificate), true)

def runPinFlow (a : QrAnswers) : Bool :=
  ((callData cj a.createPinCode).bind (·.stringItem "pinCode")).isSome &&
    a.checkPinCodeVerified.status == 200

/-- verify_certificate, or else the PIN. -/
def verifyDevice (a : QrAnswers) : Stage := fun s =>
  (s, a.verifyCertificate.status == 200 || runPinFlow cj a)

def storeLoginMeta (info : Json) (s : LoginSession) : LoginSession :=
  let field (key fallback : String) : String × Json :=
    (key, .str (jstrDef (some info) key fallback))
  s.set "e2eeLoginMetaData" (.obj [field "keyId" "", field "publicKey" "",
    field "encryptedKeyChain" "", field "e2eeVersion" "1", field "hashKeyChain" ""])

def unwrapAndStore (a : QrAnswers) (info : Json) (s : LoginSession) : Option LoginSession :=
  let pub := jstrDef (some info) "publicKey" ""
  let kid := jstrDef (some info) "keyId" ""
  if ((s.item "e2eeKeyId").bind Json.getNumberValue).isNone then none
  else if pub = "" ∨ jstrDef (some info) "encryptedKeyChain" "" = "" ∨ kid = "" then none
  else a.unwrapped.map fun u =>
    let s := (s.set "e2eeKeys" u.keys).set "e2eeLatestKeyId"
      (.num ((Json.strtoll kid).bmod (2 ^ 32) : Int))
    let s := (s.set "e2eeLoginPublicKey" (.str pub)).set "e2eeVersion"
      (.str (jstrDef (some info) "e2eeVersion" "1"))
    let s := s.set "e2eeHashKeyChain" (.str (jstrDef (some info) "hashKeyChain" ""))
    ((storeLoginMeta info s).setOpt "workerRestoreState" u.workerRestoreState).delete
      "e2eeKeyCaptureError"

/-- capture_e2ee_keys; the flag is whether the keys were captured. -/
def captureE2eeKeys (a : QrAnswers) (data : Json) (s : LoginSession) : LoginSession × Bool :=
  let failed (s : LoginSession) (why : String) : LoginSession × Bool :=
    (s.set "e2eeKeyCaptureError" (.str why), false)
  match data.getObjectItem "metaData" with
  | none => failed s "no metaData in qrCodeLoginV2 response"
  | some info =>
    let s := storeLoginMeta info s
    let err := jstrDef (some info) "errorCode" ""
    if err ≠ "" ∧ err ≠ "SUCCESS" then failed s err
    else if jstrDef (some info) "encryptedKeyChain" "" = "" ∨
      jstrDef (some info) "publicKey" "" = "" then failed s "no keychain material in metaData"
    else match unwrapAndStore a info s with
      | none => failed s "unwrap failed — metaData persisted for offline recovery"
      | some s => (s, true)

def clearQrState (keepE2eeRuntime : Bool) (s : LoginSession) : LoginSession :=
  let s := ((((s.delete "authSessionId").delete "callbackUrl").delete
    "longPollingIntervalSec").delete "longPollingMaxCount").delete "createdAt"
  if keepE2eeRuntime then s
  else ((s.delete "e2eeKeyId").delete "e2eePublicKey").delete "e2eeKeyAuthSessionId"

/-- The access token in the reply to qrCodeLoginV2. -/
def grantedToken (a : QrAnswers) : Option String :=
  ((callData cj a.qrCodeLogin).bind (·.getObjectItem "tokenV3IssueResult")).bind
    (·.stringItem "accessToken")

/-- The fields of a login, and its keys. -/
def storeLogin (a : QrAnswers) (data : Json) (access : String) (s : LoginSession) : LoginSession :=
  let issue := data.getObjectItem "tokenV3IssueResult"
  let s := (s.set "accessToken" (.str access)).set "refreshToken"
    (.str (jstrDef issue "refreshToken" ""))
  let s := s.set "certificate" (.str (jstrDef (some data) "certificate" ""))
  let s := match positiveItem issue "durationUntilRefreshInSec" with
    | some q => s.set "durationUntilRefreshInSec" (.num q)
    | none => s
  let s := match positiveItem issue "tokenIssueTimeEpochSec" with
    | some q => s.set "tokenIssueTimeEpochSec" (.num q)
    | none => s
  let r := captureE2eeKeys a data s
  clearQrState (!r.2) r.1

/-- finalize_login; the certificate goes to a file outside the directory too. -/
def finalizeLogin (a : QrAnswers) : Stage := fun s =>
  match callData cj a.qrCodeLogin, grantedToken cj a with
  | some data, some access => (storeLogin a data access s, true)
  | _, _ => (s, false)

def profileMid (a : QrAnswers) : Option String :=
  (callData cj a.getProfile).bind (·.stringItem "mid")

def postLoginHandshake (a : QrAnswers) : Stage := fun s =>
  match callData cj a.getProfile with
  | none => (s, false)
  | some profile =>
    let s := match profile.stringItem "mid" with
      | some mid => s.set "mid" (.str mid)
      | none => s
    let s := match profile.stringItem "displayName" with
      | some name => s.set "displayName" (.str name)
      | none => s
    (s.set "regionCode" (.str (jstrDef (some profile) "regionCode" "JP")), true)

/-! ## A call -/

/-- The session in memory, and what was written so far. -/
structure Going where
  session : LoginSession
  writes : List (LoginSession × WriteResult)

abbrev Step := Going → Going × Bool

def onSession (stage : Stage) : Step := fun g =>
  let r := stage g.session
  ({ g with session := r.1 }, r.2)

/-- enil_session_write, as a step. -/
def save (w : WriteResult) : Step := fun g =>
  ({ g with writes := g.writes ++ [(g.session, w)] }, w.ok)

def unlessCancelled (cancelled : Bool) : Step := fun g => (g, !cancelled)

/-- The steps up to the first that fails. -/
def runSteps : List Step → Step
  | [], g => (g, true)
  | step :: steps, g =>
    let r := step g
    if r.2 then runSteps steps r.1 else r

def untilToken (a : QrAnswers) : List Step :=
  [onSession (ensureQrSession cj a), onSession (ensureE2eeKey a), save a.qrWrite,
    onSession showQrUrl, onSession (pollForScan a), unlessCancelled a.cancelledAfterScan,
    onSession (loadCertificate a), onSession (verifyDevice cj a),
    unlessCancelled a.cancelledBeforeFinalize]

def fromToken (a : QrAnswers) : List Step :=
  [onSession (finalizeLogin cj a), onSession fun s => (s, (s.str "accessToken").isSome),
    onSession (postLoginHandshake cj a), save a.finalWrite]

/-- What is written, and whether the call returns 1, after the steps. -/
def ended (a : QrAnswers) (r : Going × Bool) : List (LoginSession × WriteResult) × Bool :=
  if r.2 then (r.1.writes, true) else (r.1.writes ++ [(r.1.session, a.resumableWrite)], false)

/-- What `enil_qrlogin_run` writes, and what it returns, on a session with the Chrome
transport. -/
def runOn (a : QrAnswers) (s : LoginSession) : List (LoginSession × WriteResult) × Bool :=
  if a.cancelledAtStart then ([], false)
  else if !a.identityWrite.ok then ([(s, a.identityWrite)], false)
  else if (s.str "accessToken").isSome then ([(s, a.identityWrite)], true)
  else ended a (runSteps (untilToken cj a ++ fromToken cj a) ⟨s, [(s, a.identityWrite)]⟩)

def identityOf (s : LoginSession) : Option Identity :=
  if (s.root.get "clientIdentity").isNone then none
  else Identity.parse (s.root.get "clientIdentity")

end QrLogin

/-! ## Runs -/

/-- session.json, `none` where there is no object in it, what the last call returned, where it
did, and the mids in the profiles so far. -/
structure QrLoginDir where
  file : Disk (Option LoginSession)
  last : Option Bool := none
  mids : List String := []

/-- A call that returns, one that is stopped, and a crash that leaves one of the versions. -/
inductive QrLoginEvent where
  | call (a : QrAnswers)
  | stopped (a : QrAnswers)
  | crash (version : Nat)

namespace QrLoginDir

def afterWrites (file : Disk (Option LoginSession)) (writes : List (LoginSession × WriteResult)) :
    Disk (Option LoginSession) :=
  writes.foldl (fun d w => d.write (some w.1) w.2) file

/-- What a call does; none where the login is not one of the Chrome transport. -/
def enilQrloginRun (a : QrAnswers) (d : QrLoginDir) : Option QrLoginDir :=
  match if a.readFails then none else d.file.visible with
  | none => some { d with last := some false }
  | some s =>
    match QrLogin.identityOf s with
    | none => some { d with last := some false }
    | some identity =>
      if identity.transport = "native-thrift" then none
      else
        let r := QrLogin.runOn cj a s
        some { d with file := afterWrites d.file r.1, last := some r.2 }

def profiled (a : QrAnswers) (d : QrLoginDir) : QrLoginDir :=
  { d with mids := (QrLogin.profileMid cj a).toList ++ d.mids }

/-- What a stopped call would have written after it was stopped counts as a write that failed. -/
def machine : Machine QrLoginDir QrLoginEvent where
  step
    | d, .call a => (enilQrloginRun cj a d).map (profiled cj a)
    | d, .stopped a => (enilQrloginRun cj a d).map fun d' => { profiled cj a d' with last := none }
    | d, .crash k => some { d with file := d.file.crash k, last := none }

end QrLoginDir

/-! ## Half a login -/

namespace LoginSession

variable (mids : List String) (s : LoginSession)

/-- What the activation of a session needs: an access token, and one of the mids as the name of
its account. -/
def Complete : Prop := (s.string "accessToken").isSome = true ∧
  ∃ mid ∈ mids, s.string "mid" = some mid ∧ safeName mid = true

/-- No login, or all of it. -/
def Whole : Prop := s.str "accessToken" = none ∧ s.root.get "mid" = none ∨ s.Complete mids

variable {mids s}

theorem Complete.mono {mids' : List String} (hsub : mids ⊆ mids') (h : s.Complete mids) :
    s.Complete mids' := by
  obtain ⟨htoken, mid, hmid, hs⟩ := h
  exact ⟨htoken, mid, hsub hmid, hs⟩

theorem Whole.mono {mids' : List String} (hsub : mids ⊆ mids') (h : s.Whole mids) :
    s.Whole mids' :=
  h.imp_right (Complete.mono hsub)

end LoginSession

/-! ## What a change of other items keeps -/

structure KeepsLogin (s s' : LoginSession) : Prop where
  token : s'.str "accessToken" = s.str "accessToken"
  exact : s'.string "accessToken" = s.string "accessToken"
  mid : s'.root.get "mid" = s.root.get "mid"

theorem KeepsLogin.refl (s : LoginSession) : KeepsLogin s s := ⟨rfl, rfl, rfl⟩

theorem KeepsLogin.trans {a b c : LoginSession} (h : KeepsLogin a b) (h' : KeepsLogin b c) :
    KeepsLogin a c :=
  ⟨h'.token.trans h.token, h'.exact.trans h.exact, h'.mid.trans h.mid⟩

theorem find?_eraseP_other {p q : String × Json → Bool} (h : ∀ f, p f = true → q f = false)
    (fs : Fields) : (fs.eraseP p).find? q = fs.find? q := by
  induction fs with
  | nil => rfl
  | cons f fs ih =>
    cases hp : p f with
    | true => rw [List.eraseP_cons_of_pos hp, List.find?_cons_of_neg (by simp [h f hp])]
    | false =>
      rw [List.eraseP_cons_of_neg (by simp [hp]), List.find?_cons, List.find?_cons, ih]

theorem find?_concat_other {q : String × Json → Bool} {f : String × Json} (h : q f = false)
    (fs : Fields) : (fs ++ [f]).find? q = fs.find? q := by
  rw [List.find?_append, List.find?_cons_of_neg (by simp [h]), List.find?_nil, Option.or_none]

/-- A key that finds neither the access token nor the mid. -/
def Aside (k : String) : Prop :=
  Json.keyEq k "accessToken" = false ∧ Json.keyEq k "mid" = false

instance (k : String) : Decidable (Aside k) := inferInstanceAs (Decidable (_ ∧ _))

theorem keyEq_other {k key : String} (h : Json.keyEq k key = false) {k' : String}
    (hk : Json.keyEq k' k = true) : Json.keyEq k' key = false := by
  rw [Bool.eq_false_iff] at h ⊢
  intro hkey
  rw [Json.keyEq_iff] at hk hkey
  exact h (Json.keyEq_iff.mpr (hk.symm.trans hkey))

theorem exact_other {k key : String} (h : Json.keyEq k key = false) {k' : String}
    (hk : Json.keyEq k' k = true) : (k' == key) = false := by
  have hne := keyEq_other h hk
  rw [beq_eq_false_iff_ne]
  rintro rfl
  rw [Json.keyEq_refl] at hne
  cases hne

/-- The ways to find the access token and the mid. -/
def FindsLogin (q : String × Json → Bool) : Prop :=
  q = (fun f => Json.keyEq f.1 "accessToken") ∨ q = (fun f => f.1 == "accessToken") ∨
    q = fun f => f.1 == "mid"

theorem Aside.misses {k : String} (hk : Aside k) {q : String × Json → Bool} (hq : FindsLogin q)
    {f : String × Json} (hf : Json.keyEq f.1 k = true) : q f = false := by
  rcases hq with rfl | rfl | rfl
  · exact keyEq_other hk.1 hf
  · exact exact_other hk.1 hf
  · exact exact_other hk.2 hf

theorem KeepsLogin.of_find? {s s' : LoginSession}
    (h : ∀ q, FindsLogin q → s'.root.find? q = s.root.find? q) : KeepsLogin s s' where
  token := congrArg (fun f => (f.map Prod.snd).bind Json.getStringValue) (h _ (.inl rfl))
  exact := congrArg (fun f => (f.map Prod.snd).bind Json.getStringValue) (h _ (.inr (.inl rfl)))
  mid := congrArg (Option.map Prod.snd) (h _ (.inr (.inr rfl)))

theorem KeepsLogin.delete (s : LoginSession) {k : String} (hk : Aside k) :
    KeepsLogin s (s.delete k) :=
  .of_find? fun _ hq => find?_eraseP_other (fun _ hf => hk.misses hq hf) _

theorem KeepsLogin.set (s : LoginSession) {k : String} (hk : Aside k) (v : Json) :
    KeepsLogin s (s.set k v) :=
  (KeepsLogin.delete s hk).trans <| .of_find? fun _ hq =>
    find?_concat_other (hk.misses hq (Json.keyEq_refl k)) _

theorem KeepsLogin.setOpt (s : LoginSession) {k : String} (hk : Aside k) (v : Option Json) :
    KeepsLogin s (s.setOpt k v) := by
  cases v with
  | none => exact .delete s hk
  | some v => exact .set s hk v

theorem KeepsLogin.putCertificate (s : LoginSession) (v : Json) :
    KeepsLogin s (s.putCertificate v) := by
  have hk : Aside "certificate" := ⟨rfl, rfl⟩
  refine .of_find? fun q hq => (find?_concat_other (hk.misses hq (Json.keyEq_refl _)) _).trans
    (find?_eraseP_other (fun f hf => hk.misses hq ?_) _)
  rw [beq_iff_eq.mp hf]
  exact Json.keyEq_refl _

namespace QrLogin

variable {cj}

/-- A stage that leaves the access token and the mid alone. -/
def Quiet (stage : Stage) : Prop := ∀ s, KeepsLogin s (stage s).1

theorem ensureQrSession_quiet (a : QrAnswers) : Quiet (ensureQrSession cj a) := by
  intro s
  have hauth : KeepsLogin s (s.set "authSessionId" (.str ((callData cj a.createSession).bind
      (·.stringItem "authSessionId") |>.getD ""))) := .set s ⟨rfl, rfl⟩ _
  unfold ensureQrSession
  split
  · exact .refl s
  split
  · exact .refl s
  · rename_i auth hget
    rw [hget, Option.getD_some] at hauth
    dsimp only
    split
    · exact hauth
    split
    · exact hauth
    · exact (((hauth.trans (.set _ ⟨rfl, rfl⟩ _)).trans (.set _ ⟨rfl, rfl⟩ _)).trans
        (.set _ ⟨rfl, rfl⟩ _)).trans (.set _ ⟨rfl, rfl⟩ _)

theorem ensureE2eeKey_quiet (a : QrAnswers) : Quiet (ensureE2eeKey a) := by
  intro s
  unfold ensureE2eeKey
  split
  · exact .refl s
  split
  · exact .refl s
  · exact (((KeepsLogin.set s ⟨rfl, rfl⟩ _).trans (.set _ ⟨rfl, rfl⟩ _)).trans
      (.setOpt _ ⟨rfl, rfl⟩ _)).trans (.setOpt _ ⟨rfl, rfl⟩ _)

theorem loadCertificate_quiet (a : QrAnswers) : Quiet (loadCertificate a) := by
  intro s
  unfold loadCertificate
  split
  · exact .refl s
  · exact .refl s
  · exact .putCertificate s _

theorem storeLoginMeta_keeps (info : Json) (s : LoginSession) :
    KeepsLogin s (storeLoginMeta info s) :=
  .set s ⟨rfl, rfl⟩ _

theorem unwrapAndStore_keeps {a : QrAnswers} {info : Json} {s s' : LoginSession}
    (h : unwrapAndStore a info s = some s') : KeepsLogin s s' := by
  unfold unwrapAndStore at h
  dsimp only at h
  split at h
  · cases h
  split at h
  · cases h
  · obtain ⟨u, -, rfl⟩ := Option.map_eq_some_iff.mp h
    have hkeys := (KeepsLogin.set s (k := "e2eeKeys") ⟨rfl, rfl⟩ u.keys)
    exact ((((((((hkeys.trans (.set _ ⟨rfl, rfl⟩ _)).trans (.set _ ⟨rfl, rfl⟩ _)).trans
      (.set _ ⟨rfl, rfl⟩ _)).trans (.set _ ⟨rfl, rfl⟩ _)).trans (storeLoginMeta_keeps _ _)).trans
      (.setOpt _ ⟨rfl, rfl⟩ _)).trans (.delete _ ⟨rfl, rfl⟩)))

theorem captureE2eeKeys_keeps (a : QrAnswers) (data : Json) (s : LoginSession) :
    KeepsLogin s (captureE2eeKeys a data s).1 := by
  have hfailed : ∀ s : LoginSession, ∀ v, KeepsLogin s (s.set "e2eeKeyCaptureError" v) :=
    fun s v => .set s ⟨rfl, rfl⟩ v
  unfold captureE2eeKeys
  dsimp only
  split
  · exact hfailed s _
  · rename_i info _
    have hinfo := storeLoginMeta_keeps info s
    split
    · exact hinfo.trans (hfailed _ _)
    split
    · exact hinfo.trans (hfailed _ _)
    split
    · exact hinfo.trans (hfailed _ _)
    · rename_i s' hs'
      exact hinfo.trans (unwrapAndStore_keeps hs')

theorem clearQrState_keeps (keep : Bool) (s : LoginSession) :
    KeepsLogin s (clearQrState keep s) := by
  have hqr : KeepsLogin s (clearQrState true s) :=
    ((((KeepsLogin.delete s ⟨rfl, rfl⟩).trans (.delete _ ⟨rfl, rfl⟩)).trans
      (.delete _ ⟨rfl, rfl⟩)).trans (.delete _ ⟨rfl, rfl⟩)).trans (.delete _ ⟨rfl, rfl⟩)
  cases keep with
  | true => exact hqr
  | false =>
    exact ((hqr.trans (.delete _ ⟨rfl, rfl⟩)).trans (.delete _ ⟨rfl, rfl⟩)).trans
      (.delete _ ⟨rfl, rfl⟩)

/-- Behind the access token nothing of the login touches it, nor the mid. -/
theorem storeLogin_keeps (a : QrAnswers) (data : Json) (access : String) (s : LoginSession) :
    KeepsLogin (s.set "accessToken" (.str access)) (storeLogin a data access s) := by
  unfold storeLogin
  dsimp only
  refine KeepsLogin.trans ?_ (clearQrState_keeps _ _)
  refine KeepsLogin.trans ?_ (captureE2eeKeys_keeps _ _ _)
  have hcert := (KeepsLogin.set (s.set "accessToken" (.str access)) (k := "refreshToken") ⟨rfl, rfl⟩
    (.str (jstrDef (data.getObjectItem "tokenV3IssueResult") "refreshToken" ""))).trans
      (.set _ (k := "certificate") ⟨rfl, rfl⟩ (.str (jstrDef (some data) "certificate" "")))
  split
  · refine KeepsLogin.trans ?_ (.set _ ⟨rfl, rfl⟩ _)
    split
    · exact hcert.trans (.set _ ⟨rfl, rfl⟩ _)
    · exact hcert
  · split
    · exact hcert.trans (.set _ ⟨rfl, rfl⟩ _)
    · exact hcert

end QrLogin

/-! ## The access token and the mid -/

theorem find?_of_matching {key : String} {fs : Fields} (hone : matching key fs ≤ 1)
    {f : String × Json} (h : fs.find? (fun f => f.1 == key) = some f) :
    fs.find? (fun f => Json.keyEq f.1 key) = some f := by
  induction fs with
  | nil => cases h
  | cons g fs ih =>
    unfold matching at hone
    rw [List.countP_cons] at hone
    by_cases hg : g.1 = key
    · rw [List.find?_cons_of_pos (by simpa using hg)] at h
      rw [List.find?_cons_of_pos (by rw [hg]; exact Json.keyEq_refl key)]
      exact h
    · rw [List.find?_cons_of_neg (by simpa using hg)] at h
      cases hk : Json.keyEq g.1 key with
      | true =>
        have hpos : 0 < List.countP (fun f => Json.keyEq f.1 key) fs := by
          refine List.countP_pos_iff.mpr ⟨f, List.mem_of_find?_eq_some h, ?_⟩
          have hkey := List.find?_some h
          rw [beq_iff_eq.mp hkey]
          exact Json.keyEq_refl key
        rw [hk, if_pos rfl] at hone
        omega
      | false =>
        rw [hk, if_neg Bool.false_ne_true] at hone
        rw [List.find?_cons_of_neg (by simp [hk])]
        exact ih hone h

namespace LoginSession

theorem get_set_same (s : LoginSession) {key : String} (hone : matching key s.root ≤ 1) (v : Json) :
    (s.set key v).root.get key = some v := by
  have hgone : ∀ f ∈ Json.deleteItem key s.root, ¬ (f.1 == key) = true := by
    intro f hf hkey
    have hzero := matching_delete_same (Json.keyEq_refl key) hone
    rw [matching, List.countP_eq_zero] at hzero
    apply hzero f hf
    rw [beq_iff_eq.mp hkey]
    exact Json.keyEq_refl key
  show ((Json.deleteItem key s.root ++ [(key, v)]).find? fun f => f.1 == key).map Prod.snd = _
  rw [List.find?_append, List.find?_eq_none.mpr hgone, Option.none_or,
    List.find?_cons_of_pos (by simp)]
  rfl

/-- A string found by its exact key is found without regard to case. -/
theorem str_of_string {s : LoginSession} {key v : String} (hone : matching key s.root ≤ 1)
    (h : s.string key = some v) : s.str key = some v := by
  obtain ⟨j, hget, hstr⟩ := Option.bind_eq_some_iff.mp h
  obtain ⟨f, hfind, rfl⟩ := Option.map_eq_some_iff.mp hget
  show ((s.root.find? fun f => Json.keyEq f.1 key).map Prod.snd).bind Json.getStringValue = _
  rw [find?_of_matching hone hfind]
  exact hstr

theorem get_set_other (s : LoginSession) {k key : String} (h : Json.keyEq k key = false)
    (v : Json) : (s.set k v).root.get key = s.root.get key := by
  refine congrArg (Option.map Prod.snd) ?_
  exact (find?_concat_other (exact_other h (Json.keyEq_refl k)) _).trans
    (find?_eraseP_other (fun f hf => exact_other h hf) _)

end LoginSession

/-- A session in which no login is. -/
def Unlogged (s : LoginSession) : Prop := s.str "accessToken" = none ∧ s.root.get "mid" = none

/-- A session with an access token before the profile. -/
def Granted (s : LoginSession) : Prop :=
  (s.string "accessToken").isSome = true ∧ s.root.get "mid" = none

/-- A session with an access token and no mid that is a name. -/
def Half (s : LoginSession) : Prop :=
  (s.string "accessToken").isSome = true ∧ ¬ ∃ mid, s.string "mid" = some mid ∧ safeName mid = true

theorem Granted.half {s : LoginSession} (h : Granted s) : Half s := by
  refine ⟨h.1, ?_⟩
  rintro ⟨mid, hmid, -⟩
  unfold LoginSession.string at hmid
  rw [h.2] at hmid
  cases hmid

theorem KeepsLogin.unlogged {s s' : LoginSession} (h : KeepsLogin s s') (hs : Unlogged s) :
    Unlogged s' :=
  ⟨h.token.trans hs.1, h.mid.trans hs.2⟩

theorem KeepsLogin.granted {s s' : LoginSession} (h : KeepsLogin s s') (hs : Granted s) :
    Granted s' :=
  ⟨h.exact ▸ hs.1, h.mid.trans hs.2⟩

theorem KeepsLogin.string_mid {s s' : LoginSession} (h : KeepsLogin s s') :
    s'.string "mid" = s.string "mid" :=
  congrArg (·.bind Json.getStringValue) h.mid

theorem KeepsLogin.half {s s' : LoginSession} (h : KeepsLogin s s') (hs : Half s) : Half s' := by
  refine ⟨h.exact ▸ hs.1, ?_⟩
  rw [h.string_mid]
  exact hs.2

theorem KeepsLogin.complete {mids : List String} {s s' : LoginSession} (h : KeepsLogin s s')
    (hs : s.Complete mids) : s'.Complete mids := by
  refine ⟨h.exact ▸ hs.1, ?_⟩
  rw [h.string_mid]
  exact hs.2

theorem half_token {s : LoginSession} (h : (s.string "accessToken").isSome = true) :
    (s.str "accessToken").isSome = true := by
  obtain ⟨v, hv⟩ := Option.isSome_iff_exists.mp h
  rw [LoginSession.str_of_string s.oneToken hv]
  rfl

theorem Half.not_whole {mids : List String} {s : LoginSession} (h : Half s) :
    ¬ s.Whole mids := by
  have htoken := half_token h.1
  rintro (⟨hnone, -⟩ | ⟨-, mid, -, hmid⟩)
  · rw [hnone] at htoken
    cases htoken
  · exact h.2 ⟨mid, hmid⟩

namespace QrLogin

variable {cj}

theorem finalizeLogin_cases (a : QrAnswers) {s : LoginSession} (hs : Unlogged s) :
    (grantedToken cj a = none ∧ finalizeLogin cj a s = (s, false)) ∨
      ((grantedToken cj a).isSome = true ∧ (finalizeLogin cj a s).2 = true ∧
        Granted (finalizeLogin cj a s).1) := by
  unfold finalizeLogin
  cases hdata : callData cj a.qrCodeLogin with
  | none =>
    refine .inl ⟨?_, rfl⟩
    unfold grantedToken
    rw [hdata]
    rfl
  | some data =>
    cases htoken : grantedToken cj a with
    | none => exact .inl ⟨rfl, rfl⟩
    | some access =>
      refine .inr ⟨rfl, rfl, (storeLogin_keeps a data access s).granted ⟨?_, ?_⟩⟩
      · unfold LoginSession.string
        rw [s.get_set_same s.oneToken]
        rfl
      · exact (s.get_set_other rfl _).trans hs.2

/-- The profile has a mid that is a name, one of `mids`, or none. -/
theorem postLoginHandshake_cases (a : QrAnswers) {mids : List String} {s : LoginSession}
    (hs : Granted s) (hmids : ∀ mid, profileMid cj a = some mid → mid ∈ mids) :
    (callData cj a.getProfile = none ∧ postLoginHandshake cj a s = (s, false)) ∨
      ((callData cj a.getProfile).isSome = true ∧ (postLoginHandshake cj a s).2 = true ∧
        ((profileMid cj a).any safeName = false ∧ Half (postLoginHandshake cj a s).1 ∨
          (profileMid cj a).any safeName = true ∧
            (postLoginHandshake cj a s).1.Complete mids)) := by
  have hprofileMid : profileMid cj a = (callData cj a.getProfile).bind (·.stringItem "mid") := rfl
  rw [hprofileMid] at hmids ⊢
  unfold postLoginHandshake
  cases hprofile : callData cj a.getProfile with
  | none => exact .inl ⟨rfl, rfl⟩
  | some profile =>
    refine .inr ⟨rfl, rfl, ?_⟩
    rw [hprofile, Option.bind_some] at hmids
    dsimp only
    have hrest : ∀ s : LoginSession, KeepsLogin s ((match profile.stringItem "displayName" with
        | some name => s.set "displayName" (.str name)
        | none => s).set "regionCode" (.str (jstrDef (some profile) "regionCode" "JP"))) := by
      intro s
      refine KeepsLogin.trans ?_ (.set _ ⟨rfl, rfl⟩ _)
      split
      · exact .set s ⟨rfl, rfl⟩ _
      · exact .refl s
    rw [Option.bind_some]
    cases hmid : profile.stringItem "mid" with
    | none => exact .inl ⟨rfl, (hrest s).half hs.half⟩
    | some mid =>
      have htoken : ((s.set "mid" (.str mid)).string "accessToken").isSome = true := by
        unfold LoginSession.string
        rw [s.get_set_other rfl]
        exact hs.1
      have hstring : (s.set "mid" (.str mid)).string "mid" = some mid := by
        unfold LoginSession.string
        rw [s.get_set_same s.oneMid]
        rfl
      cases hsafe : safeName mid with
      | false =>
        refine .inl ⟨hsafe, (hrest _).half ⟨htoken, ?_⟩⟩
        rintro ⟨mid', hmid', hsafe'⟩
        obtain rfl := Option.some.inj (hstring.symm.trans hmid')
        rw [hsafe] at hsafe'
        cases hsafe'
      | true =>
        exact .inr ⟨hsafe, (hrest _).complete ⟨htoken, mid, hmids mid hmid, hstring, hsafe⟩⟩

/-! ## The steps of a call -/

theorem runSteps_cons (step : Step) (steps : List Step) (g : Going) :
    runSteps (step :: steps) g = if (step g).2 then runSteps steps (step g).1 else step g := rfl

theorem runSteps_append (steps steps' : List Step) (g : Going) :
    runSteps (steps ++ steps') g =
      if (runSteps steps g).2 then runSteps steps' (runSteps steps g).1 else runSteps steps g := by
  induction steps generalizing g with
  | nil => rfl
  | cons step steps ih =>
    rw [List.cons_append, runSteps_cons, runSteps_cons]
    split
    · exact ih _
    · rfl

/-- Where no login was in the session or in what was written, none is after the step. -/
def Waits (step : Step) : Prop :=
  ∀ g, Unlogged g.session → (∀ w ∈ g.writes, Unlogged w.1) →
    Unlogged (step g).1.session ∧ ∀ w ∈ (step g).1.writes, Unlogged w.1

theorem Quiet.waits {stage : Stage} (h : Quiet stage) : Waits (onSession stage) :=
  fun g hs hw => ⟨(h g.session).unlogged hs, hw⟩

theorem waits_save (w : WriteResult) : Waits (save w) := by
  intro g hs hw
  refine ⟨hs, fun v hv => ?_⟩
  rcases List.mem_append.mp hv with hv | hv
  · exact hw v hv
  · rw [List.mem_singleton.mp hv]
    exact hs

theorem runSteps_waits {steps : List Step} (h : ∀ step ∈ steps, Waits step) :
    Waits (runSteps steps) := by
  induction steps with
  | nil => exact fun g hs hw => ⟨hs, hw⟩
  | cons step steps ih =>
    rw [List.forall_mem_cons] at h
    intro g hs hw
    have hstep := h.1 g hs hw
    rw [runSteps_cons]
    split
    · exact ih h.2 _ hstep.1 hstep.2
    · exact hstep

theorem untilToken_waits (a : QrAnswers) : Waits (runSteps (untilToken cj a)) := by
  have hsame : ∀ ok : LoginSession → Bool, Waits (onSession fun s => (s, ok s)) :=
    fun _ => Quiet.waits fun s => .refl s
  have hcancel : ∀ c, Waits (unlessCancelled c) := fun _ g hs hw => ⟨hs, hw⟩
  refine runSteps_waits ?_
  simp only [untilToken, List.forall_mem_cons]
  exact ⟨(ensureQrSession_quiet a).waits, (ensureE2eeKey_quiet a).waits, waits_save _, hsame _,
    hsame _, hcancel _, (loadCertificate_quiet a).waits, hsame _, hcancel _, List.forall_mem_nil _⟩

variable (cj) in
/-- What a call with an access token writes from the profile on: nothing but the session it
ends with. -/
def lastWrites (a : QrAnswers) (s : LoginSession) : List (LoginSession × WriteResult) :=
  if (callData cj a.getProfile).isNone then [(s, a.resumableWrite)]
  else if a.finalWrite.ok then [(s, a.finalWrite)]
  else [(s, a.finalWrite), (s, a.resumableWrite)]

theorem runSteps_go {stage : Stage} {g : Going} (h : (stage g.session).2 = true)
    (steps : List Step) : runSteps (onSession stage :: steps) g =
      runSteps steps { g with session := (stage g.session).1 } := by
  rw [runSteps_cons]
  exact if_pos h

theorem runSteps_stop {stage : Stage} {g : Going} (h : (stage g.session).2 = false)
    (steps : List Step) : runSteps (onSession stage :: steps) g =
      ({ g with session := (stage g.session).1 }, false) := by
  rw [runSteps_cons, if_neg (show ¬ _ by rw [show (onSession stage g).2 = false from h]; decide)]
  exact congrArg (_, ·) h

theorem runSteps_save (w : WriteResult) (g : Going) :
    runSteps [save w] g = ({ g with writes := g.writes ++ [(g.session, w)] }, w.ok) := by
  rw [runSteps_cons]
  cases w <;> rfl

theorem fromToken_cases (a : QrAnswers) {mids : List String} {g : Going}
    (hs : Unlogged g.session) (hmids : ∀ mid, profileMid cj a = some mid → mid ∈ mids) :
    (grantedToken cj a = none ∧ runSteps (fromToken cj a) g = (g, false)) ∨
      ((grantedToken cj a).isSome = true ∧ ∃ s,
        ended a (runSteps (fromToken cj a) g) = (g.writes ++ lastWrites cj a s,
          (callData cj a.getProfile).isSome && a.finalWrite.ok) ∧
        ((profileMid cj a).any safeName = false ∧ Half s ∨
          (profileMid cj a).any safeName = true ∧ s.Complete mids)) := by
  rcases finalizeLogin_cases a hs with ⟨hnone, hstop⟩ | ⟨hsome, hgo, hgranted⟩
  · refine .inl ⟨hnone, ?_⟩
    unfold fromToken
    rw [runSteps_stop (congrArg Prod.snd hstop), congrArg Prod.fst hstop]
  · refine .inr ⟨hsome, ?_⟩
    have htoken : ((finalizeLogin cj a g.session).1.str "accessToken").isSome = true :=
      half_token hgranted.1
    unfold fromToken
    rw [runSteps_go hgo, @runSteps_go (fun s => (s, (s.str "accessToken").isSome)) _ htoken]
    unfold lastWrites
    rcases postLoginHandshake_cases a hgranted hmids with ⟨hprofile, hstop⟩ | ⟨hprofile, hdone, hmid⟩
    · have hmid : profileMid cj a = none := by
        unfold profileMid
        rw [hprofile]
        rfl
      rw [runSteps_stop (congrArg Prod.snd hstop), hprofile, hmid]
      exact ⟨_, rfl, .inl ⟨rfl, by rw [hstop]; exact hgranted.half⟩⟩
    · obtain ⟨profile, hprofile⟩ := Option.isSome_iff_exists.mp hprofile
      refine ⟨_, ?_, hmid⟩
      rw [runSteps_go hdone, runSteps_save, hprofile]
      unfold ended
      dsimp only
      cases hok : a.finalWrite.ok with
      | true => rfl
      | false =>
        rw [if_neg Bool.false_ne_true, List.append_assoc]
        rfl

variable (cj) in
/-- The calls that get an access token and no mid for an account. -/
def EndsHalf (a : QrAnswers) (s : LoginSession) : Prop :=
  a.cancelledAtStart = false ∧ a.identityWrite.ok = true ∧ s.str "accessToken" = none ∧
    (runSteps (untilToken cj a) ⟨s, [(s, a.identityWrite)]⟩).2 = true ∧
    (grantedToken cj a).isSome = true ∧ (profileMid cj a).any safeName = false

/-- The last write succeeds, and writes an access token. -/
def WritesToken (writes : List (LoginSession × WriteResult)) : Prop :=
  ∃ early s w, writes = early ++ [(s, w)] ∧ w.ok = true ∧ (s.str "accessToken").isSome = true

theorem writesToken_lastWrites {a : QrAnswers} {s : LoginSession}
    (hs : (s.string "accessToken").isSome = true) (early : List (LoginSession × WriteResult))
    (h : ((callData cj a.getProfile).isSome && a.finalWrite.ok) = true) :
    WritesToken (early ++ lastWrites cj a s) := by
  obtain ⟨hprofile, hok⟩ := Bool.and_eq_true_iff.mp h
  obtain ⟨profile, hprofile⟩ := Option.isSome_iff_exists.mp hprofile
  refine ⟨early, s, a.finalWrite, ?_, hok, half_token hs⟩
  unfold lastWrites
  rw [hprofile, hok]
  rfl

theorem lastWrites_session {a : QrAnswers} {s : LoginSession} :
    ∀ w ∈ lastWrites cj a s, w.1 = s := by
  unfold lastWrites
  split
  · simp
  split
  · simp
  · simp

theorem runOn_cases (a : QrAnswers) {mids : List String} {s : LoginSession} (hs : s.Whole mids)
    (hmids : ∀ mid, profileMid cj a = some mid → mid ∈ mids) :
    ((runOn cj a s).2 = true → WritesToken (runOn cj a s).1) ∧
      (¬ EndsHalf cj a s ∧ (∀ w ∈ (runOn cj a s).1, w.1.Whole mids) ∨
        EndsHalf cj a s ∧ ∃ early s', (runOn cj a s).1 = early ++ lastWrites cj a s' ∧
          (∀ w ∈ early, w.1.Whole mids) ∧ Half s') := by
  unfold runOn EndsHalf
  split
  · rename_i hcancel
    refine ⟨fun h => absurd h Bool.false_ne_true, .inl ⟨fun h => ?_, List.forall_mem_nil _⟩⟩
    rw [h.1] at hcancel
    cases hcancel
  split
  · rename_i hok
    refine ⟨fun h => absurd h Bool.false_ne_true, .inl ⟨fun h => ?_, ?_⟩⟩
    · rw [h.2.1] at hok
      cases hok
    · exact List.forall_mem_singleton.mpr hs
  rename_i hok
  split
  · rename_i htoken
    refine ⟨fun _ => ⟨[], s, _, rfl, by simpa using hok, htoken⟩, .inl ⟨fun h => ?_, ?_⟩⟩
    · rw [h.2.2.1] at htoken
      cases htoken
    · exact List.forall_mem_singleton.mpr hs
  rename_i hcancel htoken
  have hnone : s.str "accessToken" = none := by simpa using htoken
  have hun : Unlogged s := by
    rcases hs with hun | hdone
    · exact hun
    · rw [half_token hdone.1] at htoken
      exact absurd rfl htoken
  have hearly := @untilToken_waits cj a ⟨s, [(s, a.identityWrite)]⟩ hun
    (List.forall_mem_singleton.mpr hun)
  rw [runSteps_append]
  generalize hg : runSteps (untilToken cj a) ⟨s, [(s, a.identityWrite)]⟩ = g at hearly
  have hwhole : ∀ w ∈ g.1.writes, w.1.Whole mids := fun w hw => .inl (hearly.2 w hw)
  have hstopped : ¬ (ended a (g.1, false)).2 = true ∧
      ∀ w ∈ (ended a (g.1, false)).1, w.1.Whole mids := by
    refine ⟨Bool.false_ne_true, fun w hw => ?_⟩
    rcases List.mem_append.mp hw with hw | hw
    · exact hwhole w hw
    · rw [List.mem_singleton.mp hw]
      exact .inl hearly.1
  cases hreached : g.2 with
  | false =>
    rw [if_neg Bool.false_ne_true, show g = (g.1, false) from congrArg (g.1, ·) hreached]
    refine ⟨fun h => absurd h hstopped.1, .inl ⟨fun h => ?_, hstopped.2⟩⟩
    cases h.2.2.2.1
  | true =>
    rw [if_pos rfl]
    rcases @fromToken_cases cj a mids _ hearly.1 hmids with ⟨hgrant, heq⟩ | ⟨hgrant, s', heq, hmid⟩
    · rw [heq]
      refine ⟨fun h => absurd h hstopped.1, .inl ⟨fun h => ?_, hstopped.2⟩⟩
      rw [hgrant] at h
      cases h.2.2.2.2.1
    · rw [heq]
      rcases hmid with ⟨hmid, hhalf⟩ | ⟨hmid, hdone⟩
      · refine ⟨writesToken_lastWrites hhalf.1 _, .inr ⟨?_, g.1.writes, s', rfl, hwhole, hhalf⟩⟩
        exact ⟨by simpa using hcancel, by simpa using hok, hnone, rfl, hgrant, hmid⟩
      · refine ⟨writesToken_lastWrites hdone.1 _, .inl ⟨fun h => ?_, fun w hw => ?_⟩⟩
        · rw [hmid] at h
          cases h.2.2.2.2.2
        · rcases List.mem_append.mp hw with hw | hw
          · exact hwhole w hw
          · rw [lastWrites_session w hw]
            exact .inr hdone

end QrLogin

/-! ## The file -/

section

variable {α : Type} {P : α → Prop} {d : Disk α}

theorem Lib.Disk.holds_write_iff (h : d.Holds P) {a : α} (w : WriteResult) :
    (d.write a w).Holds P ↔ (w.visible = true → P a) := by
  cases w with
  | failed => exact iff_of_true h fun hw => by cases hw
  | unsynced =>
    refine Disk.holds_put.trans ⟨fun hd _ => hd.1, fun ha => ⟨ha rfl, h⟩⟩
  | written => exact Disk.holds_sync.trans ⟨fun ha _ => ha, fun ha => ha rfl⟩

theorem Lib.Disk.not_holds_write {a : α} (ha : ¬ P a) (h : ¬ d.Holds P) (w : WriteResult) :
    ¬ (d.write a w).Holds P := by
  cases w with
  | failed => exact h
  | unsynced => exact fun hd => h (Disk.holds_put.mp hd).2
  | written => exact fun hd => ha (Disk.holds_sync.mp hd)

end

/-- A file that has no object, or no half of a login. -/
def WholeFile (mids : List String) (f : Option LoginSession) : Prop := ∀ s ∈ f, s.Whole mids

theorem wholeFile_some {mids : List String} {s : LoginSession} :
    WholeFile mids (some s) ↔ s.Whole mids :=
  ⟨fun h => h s rfl, fun h _ hs => Option.some.inj hs ▸ h⟩

theorem wholeFile_mono {mids mids' : List String} (hsub : mids ⊆ mids')
    {file : Disk (Option LoginSession)} (h : file.Holds (WholeFile mids)) :
    file.Holds (WholeFile mids') :=
  fun f hf s hs => (h f hf s hs).mono hsub

namespace QrLoginDir

open QrLogin

variable {cj} {file : Disk (Option LoginSession)} {mids : List String}

theorem afterWrites_append (file : Disk (Option LoginSession))
    (writes writes' : List (LoginSession × WriteResult)) :
    afterWrites file (writes ++ writes') = afterWrites (afterWrites file writes) writes' :=
  List.foldl_append

theorem afterWrites_whole {writes : List (LoginSession × WriteResult)} (h : file.Holds (WholeFile mids))
    (hw : ∀ w ∈ writes, w.1.Whole mids) : (afterWrites file writes).Holds (WholeFile mids) := by
  induction writes generalizing file with
  | nil => exact h
  | cons w writes ih =>
    rw [List.forall_mem_cons] at hw
    exact ih ((Disk.holds_write_iff h w.2).mpr fun _ => wholeFile_some.mpr hw.1) hw.2

/-- The last writes of a call that has no mid keep the file whole only where they fail. -/
theorem lastWrites_holds_iff (h : file.Holds (WholeFile mids)) {a : QrAnswers} {s : LoginSession}
    (hs : Half s) : (afterWrites file (lastWrites cj a s)).Holds (WholeFile mids) ↔
      ((callData cj a.getProfile).isSome = true → a.finalWrite.visible = false) ∧
        a.resumableWrite.visible = false := by
  have hhalf : ¬ WholeFile mids (some s) := fun hw => hs.not_whole (wholeFile_some.mp hw)
  have hwrite : ∀ w, (file.write (some s) w).Holds (WholeFile mids) ↔ w.visible = false := by
    intro w
    rw [Disk.holds_write_iff h, ← Bool.not_eq_true]
    exact ⟨fun hw hv => hhalf (hw hv), fun hw hv => absurd hv hw⟩
  unfold lastWrites
  cases hprofile : callData cj a.getProfile with
  | none =>
    refine (hwrite a.resumableWrite).trans ⟨fun hw => ⟨fun h => ?_, hw⟩, And.right⟩
    cases h
  | some profile =>
    rw [if_neg (by simp)]
    cases hfinal : a.finalWrite with
    | failed =>
      exact (hwrite a.resumableWrite).trans ⟨fun hw => ⟨fun _ => rfl, hw⟩, And.right⟩
    | unsynced =>
      refine iff_of_false ?_ fun hw => by cases hw.1 rfl
      refine Disk.not_holds_write hhalf (fun hw => ?_) _
      cases (hwrite .unsynced).mp hw
    | written =>
      refine iff_of_false (fun hw => ?_) fun hw => by cases hw.1 rfl
      cases (hwrite .written).mp hw

variable (cj) in
/-- A call ends its login, or what it has of it is not written. -/
def Finishes (a : QrAnswers) (d : QrLoginDir) : Prop :=
  ∀ s identity, a.readFails = false → d.file.visible = some s → identityOf s = some identity →
    EndsHalf cj a s →
      ((callData cj a.getProfile).isSome = true → a.finalWrite.visible = false) ∧
        a.resumableWrite.visible = false

variable (cj) in
def Meets (d : QrLoginDir) : QrLoginEvent → Prop
  | .call a | .stopped a => Finishes cj a d
  | .crash _ => True

/-- The last call that returned 1 left a login that can be activated, with the mid of a profile,
and no version of the file holds half of one. -/
structure Sound (d : QrLoginDir) : Prop where
  reported : d.last = some true → ∃ s, d.file.visible = some s ∧ s.Complete d.mids
  whole : d.file.Holds (WholeFile d.mids)

theorem reported_of_whole {writes : List (LoginSession × WriteResult)} (h : WritesToken writes)
    (hfile : (afterWrites file writes).Holds (WholeFile mids)) :
    ∃ s, (afterWrites file writes).visible = some s ∧ s.Complete mids := by
  obtain ⟨early, s, w, rfl, hok, htoken⟩ := h
  rw [afterWrites_append] at hfile ⊢
  have hw : w = .written := by
    cases w with
    | written => rfl
    | _ => cases hok
  subst hw
  refine ⟨s, rfl, ?_⟩
  rcases wholeFile_some.mp hfile.visible with ⟨hnone, -⟩ | hdone
  · rw [hnone] at htoken
    cases htoken
  · exact hdone

theorem enilQrloginRun_sound_iff {a : QrAnswers} {d t : QrLoginDir}
    (hwhole : d.file.Holds (WholeFile mids))
    (hmids : ∀ mid, profileMid cj a = some mid → mid ∈ mids)
    (h : enilQrloginRun cj a d = some t) :
    (t.file.Holds (WholeFile mids) ↔ Finishes cj a d) ∧
      (t.last = some true → t.file.Holds (WholeFile mids) →
        ∃ s, t.file.visible = some s ∧ s.Complete mids) := by
  unfold enilQrloginRun at h
  unfold Finishes
  have hstays : ∀ {t}, some { d with last := some false } = some t →
      t.file.Holds (WholeFile mids) ∧ t.last ≠ some true := by
    rintro t ⟨⟩
    exact ⟨hwhole, by simp⟩
  split at h
  · rename_i hread
    refine ⟨iff_of_true (hstays h).1 fun s _ hok hfile => ?_, fun hl => absurd hl (hstays h).2⟩
    rw [hok, hfile] at hread
    cases hread
  rename_i s hread
  have hvisible : d.file.visible = some s := by
    split at hread
    · cases hread
    · exact hread
  have hok : a.readFails = false := by
    cases hfails : a.readFails with
    | false => rfl
    | true => rw [hfails] at hread; cases hread
  split at h
  · rename_i hidentity
    refine ⟨iff_of_true (hstays h).1 fun s' _ _ hfile hid => ?_, fun hl => absurd hl (hstays h).2⟩
    obtain rfl := Option.some.inj (hvisible.symm.trans hfile)
    rw [hidentity] at hid
    cases hid
  rename_i identity hidentity
  split at h
  · cases h
  obtain rfl := Option.some.inj h
  have hs : s.Whole mids := hwhole.visible s hvisible
  obtain ⟨htoken, hcases⟩ := runOn_cases a hs hmids
  refine ⟨?_, fun hl => reported_of_whole (htoken (Option.some.inj hl))⟩
  rcases hcases with ⟨hends, hwrites⟩ | ⟨hends, early, s', hwrites, hearly, hhalf⟩
  · refine iff_of_true (afterWrites_whole hwhole hwrites) fun s' _ _ hfile _ hends' => ?_
    obtain rfl := Option.some.inj (hvisible.symm.trans hfile)
    exact absurd hends' hends
  · show (afterWrites d.file (runOn cj a s).1).Holds (WholeFile mids) ↔ _
    rw [hwrites, afterWrites_append,
      lastWrites_holds_iff (afterWrites_whole hwhole hearly) hhalf]
    exact ⟨fun hw _ _ _ _ _ _ => hw, fun hw => hw s identity hok hvisible hidentity hends⟩

theorem mids_of_run {a : QrAnswers} {d t : QrLoginDir} (h : enilQrloginRun cj a d = some t) :
    t.mids = d.mids := by
  unfold enilQrloginRun at h
  split at h
  · cases h; rfl
  split at h
  · cases h; rfl
  split at h
  · cases h
  · cases h; rfl

/-- The directory after a call, whose mid counts from now on. -/
theorem profiled_sound_iff {a : QrAnswers} {d t : QrLoginDir} (hd : d.Sound)
    (h : enilQrloginRun cj a d = some t) :
    (t.file.Holds (WholeFile (profiled cj a t).mids) ↔ Finishes cj a d) ∧
      (t.last = some true → t.file.Holds (WholeFile (profiled cj a t).mids) →
        ∃ s, t.file.visible = some s ∧ s.Complete (profiled cj a t).mids) := by
  have hmids : (profiled cj a t).mids = (profileMid cj a).toList ++ d.mids :=
    congrArg ((profileMid cj a).toList ++ ·) (mids_of_run h)
  rw [hmids]
  refine enilQrloginRun_sound_iff (wholeFile_mono (List.subset_append_right _ _) hd.whole)
    (fun mid hmid => ?_) h
  rw [hmid]
  exact List.mem_append_left _ List.mem_cons_self

theorem step_sound_iff {d t : QrLoginDir} {e : QrLoginEvent} (hd : d.Sound)
    (h : (machine cj).step d e = some t) : t.Sound ↔ Meets cj d e := by
  cases e with
  | call a =>
    obtain ⟨t', ht', rfl⟩ := Option.map_eq_some_iff.mp h
    obtain ⟨hfile, hlast⟩ := profiled_sound_iff hd ht'
    exact ⟨fun ht => hfile.mp ht.whole,
      fun hm => ⟨fun hl => hlast hl (hfile.mpr hm), hfile.mpr hm⟩⟩
  | stopped a =>
    obtain ⟨t', ht', rfl⟩ := Option.map_eq_some_iff.mp h
    obtain ⟨hfile, -⟩ := profiled_sound_iff hd ht'
    exact ⟨fun ht => hfile.mp ht.whole, fun hm => ⟨fun hl => (by cases hl), hfile.mpr hm⟩⟩
  | crash k =>
    obtain rfl := Option.some.inj h
    exact iff_of_true ⟨fun hl => (by cases hl), hd.whole.crash k⟩ trivial

/-- Through every call, stop and crash, the calls that return 1 leave a login that can be
activated, and no half of one stays on the disk, exactly where every call that gets an
access token gets a mid for an account too, or writes nothing of the login. -/
theorem qrLogin_sound_iff {d t : QrLoginDir} {es : List QrLoginEvent} (hd : d.Sound)
    (hrun : (machine cj).run d es = some t) :
    (∀ fs m, fs <+: es → (machine cj).run d fs = some m → m.Sound) ↔
      (machine cj).Meets (Meets cj) d es :=
  Machine.prefixes_iff_meets step_sound_iff hd hrun

/-! ## Half a login reported -/

def sessionData : Json := .obj [("authSessionId", .str "a1")]

def qrData : Json := .obj [("callbackUrl", .str "line://q")]

def tokenData : Json := .obj [("tokenV3IssueResult", .obj [("accessToken", .str "t1")])]

def profileData : Json := .obj [("mid", .str "u0")]

def loginJson : Cjson := textsOf ([sessionData, qrData, tokenData, profileData].map okReply)

/-- All goes well, but for the profile. -/
def profileLost : QrAnswers where
  createSession := replyOf sessionData
  createQrCode := replyOf qrData
  keygen := some ⟨"p1", 1, none⟩
  checkQrCodeVerified := fun _ => ⟨200, none⟩
  verifyCertificate := ⟨200, none⟩
  createPinCode := ⟨500, none⟩
  checkPinCodeVerified := ⟨500, none⟩
  qrCodeLogin := replyOf tokenData
  unwrapped := none
  getProfile := ⟨500, none⟩

/-- A directory as it is made for a login. -/
def prepared : QrLoginDir where
  file := ⟨some ⟨[("clientIdentity", Identity.legacyChrome.toJson)], by decide, by decide⟩, []⟩

theorem prepared_sound : prepared.Sound where
  reported h := by cases h
  whole := List.forall_mem_singleton.mpr (wholeFile_some.mpr (.inl ⟨by decide, by decide⟩))

/-- The profile is lost in one call, and the next returns 1 without a mid. -/
theorem retry_reports_half : ¬ ∀ (cj : Cjson) (d t : QrLoginDir) (es : List QrLoginEvent),
    d.Sound → (machine cj).run d es = some t → t.last = some true →
      ∃ s, t.file.visible = some s ∧ s.Complete t.mids := by
  intro hall
  have hrun : ((machine loginJson).run prepared [.call profileLost, .call profileLost]).map
      (fun t => (t.last, t.file.visible.map fun s => (s.string "mid").isSome)) =
        some (some true, some false) := by
    decide +kernel
  obtain ⟨t, ht, hend⟩ := Option.map_eq_some_iff.mp hrun
  obtain ⟨s, hs, -, mid, -, hmid, -⟩ := hall _ _ _ _ prepared_sound ht (congrArg Prod.fst hend)
  have hnone := congrArg Prod.snd hend
  dsimp only at hnone
  rw [hs, Option.map_some, hmid] at hnone
  cases hnone

def profileFound : QrAnswers := { profileLost with getProfile := replyOf profileData }

/-- A login in one call. -/
theorem login_sound : ∃ t s, (machine loginJson).run prepared [.call profileFound] = some t ∧
    t.last = some true ∧ t.file.visible = some s ∧ s.Complete ["u0"] := by
  have hrun : ((machine loginJson).run prepared [.call profileFound]).map
      (fun t => (t.last, t.mids)) = some (some true, ["u0"]) := by
    decide +kernel
  obtain ⟨t, ht, hend⟩ := Option.map_eq_some_iff.mp hrun
  obtain ⟨hlast, hmids⟩ := Prod.mk.inj hend
  have hmid : (profileMid loginJson profileFound).any safeName = true := by decide
  have hmeets : (machine loginJson).Meets (Meets loginJson) prepared [.call profileFound] := by
    refine ⟨fun s identity _ _ _ hends => ?_, fun _ _ => trivial⟩
    obtain ⟨-, -, -, -, -, hnone⟩ := hends
    rw [hmid] at hnone
    cases hnone
  obtain ⟨s, hs, hdone⟩ := ((qrLogin_sound_iff prepared_sound ht).mpr hmeets _ t
    List.prefix_rfl ht).reported hlast
  rw [hmids] at hdone
  exact ⟨t, s, ht, hlast, hs, hdone⟩

end QrLoginDir

end Enil
