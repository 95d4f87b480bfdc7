import Enil.Line.Posts
import Enil.Thrift.Canonical
import Enil.Worker.Legy

/-!
# A call of the native client from end to end

What LINE opens of a sealed request is the Compact Thrift message of the call, and what the
caller gets is the answer that LINE wrote, in the envelope of the gateway.
-/

namespace Enil

open Lib Thrift

/-- JSON that reads as a result of legyEncode. -/
structure SealedAs (j : Json) (s : LegyRequest) : Prop where
  body : j.dupStringOpt "body" = some s.body
  key : j.dupStringOpt "key" = some s.key
  xLcs : j.dupStringOpt "xLcs" = some s.xLcs

/-- JSON that reads as a result of legyDecode. -/
structure OpenedAs (j : Json) (r : LegyResponse) : Prop where
  body : j.dupStringOpt "body" = some r.body
  status : (j.getObjectItemCaseSensitive "status").bind Json.getNumberValue = some (r.status : Rat)
  next : (j.getObjectItemCaseSensitive "headers").bind (·.dupStringOpt "x-line-next-access") =
    r.headers "x-line-next-access"

variable {A : Type}

/-- Nothing has failed, and the login is the one of the session, with its token. -/
structure Network.Ready (w : Network A) (p : LinePost A) (a : A) (b : Binding) (root : Fields)
    (token : String) : Prop where
  line : p.health.any w.lineFailed = false
  worker : w.workerFailed = false
  url : w.workerUrl.isSome = true
  secret : w.workerSecret.isSome = true
  session : w.session a = some root
  isMatch : b.isMatch root = true
  hasToken : root.get "accessToken" = some (.str token)
  nonempty : token ≠ ""

/-- What a reply that was read is answered with. -/
def answerOf (k : Codec) (c : NativeCall) : Option Item → LineResponse
  | none => ⟨200, none⟩
  | some reply =>
    match reply.get "e" with
    | some data => ⟨400, some (k.printItem data)⟩
    | none => ⟨200, (replyData c reply).map fun data => k.printItem (envelope data)⟩

namespace Posting

variable {k : Codec} {w : Network A} {p : LinePost A} {a : A} {b : Binding} {root : Fields}
  {token : String} {α : Type}

/-! ## Operations that meet no trouble -/

theorem upTo_workerCall {url secret : String} (hfailed : w.workerFailed = false)
    (hurl : w.workerUrl = some url) (hsecret : w.workerSecret = some secret) (path : String)
    (payload : Json) (cancel : Bool) (text : String) (f : Option Json → Posting A α)
    (os : List PostOutcome) :
    (workerCall k.cj path payload cancel >>= f).upTo
        (List.replicate 6 { text := some text } ++ os) w =
      (f (k.cj.parse text)).upTo os { w with
        toWorker := w.toWorker ++
          [⟨url ++ path, "X-Worker-Secret: " ++ secret, k.cj.print payload⟩] } := by
  obtain ⟨_, _, _, _, _, _, _⟩ := w
  obtain rfl := hfailed
  obtain rfl := hurl
  obtain rfl := hsecret
  cases cancel <;> rfl

/-- The world with a request to LINE more. -/
def sent (w : Network A) (r : WireRequest A) : Network A := { w with toLine := w.toLine ++ [r] }

theorem upTo_sendToLine (r : WireRequest A) (f : Performed → Posting A α) (o : PostOutcome)
    (os : List PostOutcome) : (sendToLine r >>= f).upTo (o :: os) w =
      (f (performed o)).upTo os (sent w r) := rfl

theorem upTo_boundAccessToken (hsession : w.session a = some root) (hmatch : b.isMatch root = true)
    (htoken : root.get "accessToken" = some (.str token)) (hne : token ≠ "") (o : PostOutcome)
    (ho : o.ok = true) (f : Option (Option String) → Posting A α) (os : List PostOutcome) :
    (boundAccessToken (.login a b) >>= f).upTo (o :: os) w = (f (some (some token))).upTo os w := by
  rw [boundAccessToken, Prog.upTo_op_bind, ho, if_pos rfl, hsession, Option.bind_some,
    if_pos hmatch, htoken]
  simp only [if_neg hne]

theorem upTo_currentLogin (hsession : w.session a = some root) (hmatch : b.isMatch root = true)
    (htoken : root.get "accessToken" = some (.str token)) (hne : token ≠ "") (o : PostOutcome)
    (ho : o.ok = true) (f : Bool → Posting A α) (os : List PostOutcome) :
    (currentLogin (.login a b) >>= f).upTo (o :: os) w = (f true).upTo os w := by
  rw [currentLogin, Prog.bind_bind, upTo_boundAccessToken hsession hmatch htoken hne o ho]
  rfl

variable [DecidableEq A]

theorem upTo_acceptNext {next : String} (hsession : w.session a = some root)
    (hmatch : b.isMatch root = true) (htoken : root.get "accessToken" = some (.str token))
    (hsafe : isHeaderSafe next = true) (o : PostOutcome) (ho : o.ok = true)
    (hwrite : o.write = .written) (f : Bool → Posting A α) (os : List PostOutcome) :
    (acceptNext (.login a b) token next >>= f).upTo (o :: os) w = (f true).upTo os { w with
      session := fun c =>
        if c = a then some (root.replace "accessToken" (.str next)) else w.session c } := by
  have haccept : acceptNextAccess b (some root) token next .written =
      (true, some (root.replace "accessToken" (.str next))) := by
    rw [acceptNextAccess]
    simp only [hsafe, hmatch, htoken, Bool.and_self, if_true]
    rfl
  rw [acceptNext, Prog.upTo_op_bind]
  simp only [ho, if_true, hsession, hwrite, haccept]

/-- The session with its next token is of the same login. -/
theorem isMatch_replace (v : Json) (hmatch : b.isMatch root = true) :
    b.isMatch (root.replace "accessToken" v) = true := by
  have hid : (root.replace "accessToken" v).get "loginId" = root.get "loginId" := by
    rw [Fields.get_replace, if_neg fun h => absurd h.1 (by decide)]
  have hidentity : (root.replace "accessToken" v).get "clientIdentity" =
      root.get "clientIdentity" := by
    rw [Fields.get_replace, if_neg fun h => absurd h.1 (by decide)]
  rw [Binding.isMatch, hid, hidentity]
  exact hmatch

theorem get_replaced (htoken : root.get "accessToken" = some (.str token)) {next : String} :
    (root.replace "accessToken" (.str next)).get "accessToken" = some (.str next) := by
  rw [Fields.get_replace, htoken]
  exact if_pos ⟨rfl, rfl⟩

/-! ## The stages -/

/-- The outcomes of a call that meets no trouble. -/
def sealedOutcomes (sealText openText : String) (raw : List UInt8) : List PostOutcome :=
  List.replicate 12 { text := some sealText } ++
    { bytes := raw } :: List.replicate 10 { text := some openText }

/-- The world with a request to the worker more. -/
def asked (w : Network A) (url secret path : String) (payload : Json) : Network A :=
  { w with toWorker := w.toWorker ++
      [⟨url ++ path, "X-Worker-Secret: " ++ secret, k.cj.print payload⟩] }

/-- Up to the request that is ready. -/
theorem upTo_seal (hready : w.Ready p a b root token) (hbound : p.bound = .login a b)
    (hnative : b.identity.transport = "native-thrift") {url secret : String}
    (hurl : w.workerUrl = some url) (hsecret : w.workerSecret = some secret) {args : Json}
    (hargs : k.cj.parse p.body = some args) {c : NativeCall}
    (hcall : nativeCall p.path args.toItem = some c) (henc : c.encrypted = true)
    {wire : List UInt8} (hwire : enilThriftEncode k.source c.method c.args = some wire)
    {sealText : String} {j : Json} (hj : k.cj.parse sealText = some j) {s : LegyRequest}
    (hs : SealedAs j s) {bytes : List UInt8}
    (hbytes : b64DecodeAlloc k.source.evp s.body = some bytes) (os : List PostOutcome) :
    (linePostEx k p).upTo (List.replicate 10 { text := some sealText } ++ os) w =
      (nativeSend k p b.identity token c ⟨sealedUrl, sealedHeaders s.xLcs ++
        commonHeaders k b.identity, bytes, some s.key⟩).upTo os
        (asked (k := k) w url secret "/transport/legy/encode" (sealPayload c wire token)) := by
  have hcall' : (k.cj.parse p.body).bind (fun args => nativeCall p.path args.toItem) = some c := by
    rw [hargs]
    exact hcall
  rw [linePostEx, hbound]
  show (isLineFailed p.health >>= _).upTo (_ :: _) w = _
  rw [isLineFailed, Prog.upTo_op_bind]
  dsimp only
  rw [hready.line, if_neg Bool.false_ne_true, if_pos hnative, nativePost, isCancelled]
  show (Prog.op _ >>= _).upTo (_ :: _) w = _
  rw [Prog.upTo_op_bind]
  dsimp only
  rw [Bool.and_false, if_neg Bool.false_ne_true, hbound]
  show (boundAccessToken _ >>= _).upTo (_ :: _) w = _
  rw [upTo_boundAccessToken hready.session hready.isMatch hready.hasToken hready.nonempty _ rfl]
  dsimp only
  rw [hcall', Option.getD_some]
  dsimp only
  rw [hwire]
  dsimp only
  rw [sealCall, if_pos henc, Prog.bind_bind]
  show (workerCall _ _ _ _ >>= _).upTo (List.replicate 6 _ ++ _) w = _
  rw [upTo_workerCall hready.worker hurl hsecret, hj, Prog.bind_bind]
  show (isCancelled _ >>= _).upTo (_ :: _) _ = _
  rw [isCancelled, Prog.upTo_op_bind]
  dsimp only
  rw [Bool.and_false, if_neg Bool.false_ne_true, Prog.pure_bind]
  simp only [Option.bind_eq_bind, Option.bind_some, hs.body, hs.key, hs.xLcs, hbytes]
  rfl

/-- The world where the session has the next token, if there is one. -/
def rotated (w : Network A) (a : A) (root : Fields) : Option String → Network A
  | none => w
  | some next =>
    { w with
      session := fun c =>
        if c = a then some (root.replace "accessToken" (.str next)) else w.session c }

theorem rotated_toLine (w : Network A) (root : Fields) (next : Option String) :
    (rotated w a root next).toLine = w.toLine := by
  cases next <;> rfl

theorem rotated_toWorker (w : Network A) (root : Fields) (next : Option String) :
    (rotated w a root next).toWorker = w.toWorker := by
  cases next <;> rfl

theorem rotated_lineFailed (w : Network A) (root : Fields) (next : Option String) :
    (rotated w a root next).lineFailed = w.lineFailed := by
  cases next <;> rfl

theorem rotated_others {d : A} (hd : d ≠ a) (next : Option String) :
    (rotated w a root next).session d = w.session d := by
  cases next with
  | none => rfl
  | some next => exact if_neg hd

/-- The session is of the same login, with the next token. -/
theorem rotated_session (hsession : w.session a = some root) (hmatch : b.isMatch root = true)
    (htoken : root.get "accessToken" = some (.str token)) (next : Option String) :
    ∃ root', (rotated w a root next).session a = some root' ∧ b.isMatch root' = true ∧
      root'.get "accessToken" = some (.str (next.getD token)) := by
  cases next with
  | none => exact ⟨root, hsession, hmatch, htoken⟩
  | some next => exact ⟨_, if_pos rfl, isMatch_replace _ hmatch, get_replaced htoken⟩

/-- Whether a reply says that the login is no longer good. -/
def isRejected (item : Option Item) : Bool := item.any fun reply => (reply.get "e").any isRejection

/-- The world where the account has failed, if the reply rejected it. -/
def settled (w : Network A) (h : Option A) (item : Option Item) : Network A :=
  if isRejected item then w.failFor h else w

theorem upTo_readReply {c : NativeCall} {bytes : List UInt8} {reply : Reply}
    (hread : enilThriftDecode k.source.schema k.double c.method (some bytes) = some reply)
    (o : PostOutcome) (os : List PostOutcome) :
    (readReply k p c bytes).upTo (o :: os) w =
      (some (answerOf k c reply.item), settled w p.health reply.item) := by
  rw [readReply, hread, Option.bind_some]
  cases reply.item with
  | none => rfl
  | some item =>
    rw [settled, isRejected, Option.any_some, answerOf]
    dsimp only
    cases item.get "e" with
    | none => rfl
    | some data =>
      rw [Option.any_some]
      dsimp only
      cases isRejection data <;> rfl

/-- How many of the outcomes are left when the reply is open: a next token is saved with one. -/
def outcomesLeft (next : Option String) : Nat := if next.isSome then 2 else 3

/-- A reply is opened, and its next token is in the session. -/
theorem upTo_openReply (hready : w.Ready p a b root token) (hbound : p.bound = .login a b)
    {url secret : String} (hurl : w.workerUrl = some url) (hsecret : w.workerSecret = some secret)
    (key : String) (raw : List UInt8) {openText : String} {j : Json}
    (hj : k.cj.parse openText = some j) {r : LegyResponse} (hr : OpenedAs j r)
    (hstatus : r.status = 200) {bytes : List UInt8}
    (hbytes : b64DecodeAlloc k.source.evp r.body = some bytes)
    (hnext : ∀ next ∈ r.headers "x-line-next-access", isHeaderSafe next = true)
    (f : Except Int (List UInt8) → Posting A α) :
    (openReply k p token (some key) raw >>= f).upTo
        (List.replicate 10 { text := some openText }) w =
      (f (.ok bytes)).upTo
        (List.replicate (outcomesLeft (r.headers "x-line-next-access")) { text := some openText })
        (rotated (asked (k := k) w url secret "/transport/legy/decode" (openPayload key raw)) a root
          (r.headers "x-line-next-access")) := by
  have hnumber : ((j.getObjectItemCaseSensitive "status").bind Json.getNumberValue).elim 200
      Json.valueint = 200 := by
    rw [hr.status, hstatus]
    decide
  have hopened : (b64DecodeAlloc k.source.evp r.body).elim (.error 200)
      (Except.ok (ε := Int)) = .ok bytes := by
    rw [hbytes]
    rfl
  rw [openReply, Prog.bind_bind]
  show (workerCall _ _ _ _ >>= _).upTo (List.replicate 6 _ ++ List.replicate 4 _) _ = _
  rw [upTo_workerCall hready.worker hurl hsecret, hj]
  simp only [Option.bind_some, hr.body, hnumber, ne_eq, not_true_eq_false, if_false, hbound,
    hr.next, hopened]
  rw [Prog.bind_bind]
  show (currentLogin _ >>= _).upTo (_ :: List.replicate 3 _) (asked w url secret _ _) = _
  rw [upTo_currentLogin (w := asked w url secret _ _) hready.session hready.isMatch hready.hasToken
    hready.nonempty _ rfl]
  cases hn : r.headers "x-line-next-access" with
  | none => rfl
  | some next =>
    show ((acceptNext _ _ _ >>= _) >>= f).upTo (_ :: List.replicate 2 _) _ = _
    rw [Prog.bind_bind, upTo_acceptNext (w := asked w url secret _ _) hready.session hready.isMatch
      hready.hasToken (hnext next hn) _ rfl rfl]
    rfl

/-- What is made of the reply, where the login was not replaced. -/
theorem upTo_nativeReply (hbound : p.bound = .login a b) (hsession : w.session a = some root)
    (hmatch : b.isMatch root = true) (htoken : root.get "accessToken" = some (.str token))
    (hne : token ≠ "") {c : NativeCall} {bytes : List UInt8} {reply : Reply}
    (hread : enilThriftDecode k.source.schema k.double c.method (some bytes) = some reply)
    {o : PostOutcome} (ho : o.ok = true) {m : Nat} (hm : 2 ≤ m) :
    (nativeReply k p c bytes).upTo (List.replicate m o) w =
      (some (answerOf k c reply.item), settled w p.health reply.item) := by
  obtain ⟨m, rfl⟩ : ∃ n, m = n + 2 := ⟨m - 2, by omega⟩
  rw [List.replicate_succ, List.replicate_succ, nativeReply]
  split
  · rw [hbound, upTo_currentLogin hsession hmatch htoken hne o ho]
    exact upTo_readReply hread o _
  · exact upTo_readReply hread o _

/-- From the request that is ready to the answer. -/
theorem upTo_send (hready : w.Ready p a b root token) (hbound : p.bound = .login a b)
    {url secret : String} (hurl : w.workerUrl = some url) (hsecret : w.workerSecret = some secret)
    {c : NativeCall} {s : Sealed} {key : String} (hkey : s.key = some key) {sealText : String}
    (raw : List UInt8) {openText : String} {j : Json} (hj : k.cj.parse openText = some j)
    {r : LegyResponse} (hr : OpenedAs j r) (hstatus : r.status = 200) {bytes : List UInt8}
    (hbytes : b64DecodeAlloc k.source.evp r.body = some bytes)
    (hnext : ∀ next ∈ r.headers "x-line-next-access", isHeaderSafe next = true) {reply : Reply}
    (hread : enilThriftDecode k.source.schema k.double c.method (some bytes) = some reply) :
    (nativeSend k p b.identity token c s).upTo
        (List.replicate 2 { text := some sealText } ++
          { bytes := raw } :: List.replicate 10 { text := some openText }) w =
      (some (answerOf k c reply.item), settled
        (rotated (asked (k := k)
          (sent w ⟨p.health, b.identity, utf8 s.url, s.headers, s.body⟩)
          url secret "/transport/legy/decode" (openPayload key raw)) a root
          (r.headers "x-line-next-access"))
        p.health reply.item) := by
  have hready' : (sent w ⟨p.health, b.identity, utf8 s.url, s.headers, s.body⟩).Ready p a b root
      token :=
    ⟨hready.line, hready.worker, hready.url, hready.secret, hready.session, hready.isMatch,
      hready.hasToken, hready.nonempty⟩
  rw [nativeSend]
  show (attempt >>= _).upTo (_ :: (_ :: _)) w = _
  rw [attempt, Prog.upTo_op_bind, hbound]
  show (currentLogin _ >>= _).upTo (_ :: _) w = _
  rw [upTo_currentLogin hready.session hready.isMatch hready.hasToken hready.nonempty _ rfl]
  show (sendToLine _ >>= _).upTo (_ :: _) w = _
  rw [upTo_sendToLine, hkey]
  refine (upTo_openReply hready' hbound hurl hsecret key raw hj hr hstatus hbytes hnext _).trans ?_
  obtain ⟨root', hsession, hmatch, htoken⟩ :=
    rotated_session (w := asked (k := k)
      (sent w ⟨p.health, b.identity, utf8 s.url, s.headers, s.body⟩) url secret
      "/transport/legy/decode" (openPayload key raw)) hready.session hready.isMatch
      hready.hasToken (r.headers "x-line-next-access")
  have hne : (r.headers "x-line-next-access").getD token ≠ "" := by
    cases hn : r.headers "x-line-next-access" with
    | none => exact hready.nonempty
    | some next =>
      rintro rfl
      exact absurd (hnext _ hn) (by decide)
  have ho : ({ text := some openText } : PostOutcome).ok = true := rfl
  have hleft : 2 ≤ outcomesLeft (r.headers "x-line-next-access") := by
    unfold outcomesLeft
    split <;> omega
  exact upTo_nativeReply hbound hsession hmatch htoken hne hread ho hleft

/-! ## The whole call -/

/-- A call as the worker and LINE serve it: sealed under a fresh key, and answered under the same
key with a message of the schema. -/
structure Exchange (k : Codec) (cipher : Cipher) (number : String → Option Int) (c : NativeCall)
    (token : String) where
  key : AesKey
  wire : List UInt8
  wire_eq : enilThriftEncode k.source c.method c.args = some wire
  sealed : LegyRequest
  sealed_eq : legyEncode cipher key c.endpoint (b64Encode wire) token = some sealed
  sealText : String
  sealText_eq : ∃ j, k.cj.parse sealText = some j ∧ SealedAs j sealed
  /-- What LINE answers. -/
  answer : Item
  fields : List Field
  fields_eq : resultFields k.source.schema c.method = some fields
  reply : List UInt8
  reply_eq : writeMessage k.source 2 c.method fields answer [] = some reply
  stop : List UInt8
  stop_eq : stop = [] ∨ stop = [0]
  small : (reply ++ stop).length ≤ maxWireSize
  raw : List UInt8
  opened : LegyResponse
  opened_eq : legyDecode cipher number sealed.key (b64Encode raw) = some opened
  body_eq : opened.body = b64Encode (reply ++ stop)
  status_eq : opened.status = 200
  next_safe : ∀ next ∈ opened.headers "x-line-next-access", isHeaderSafe next = true
  openText : String
  openText_eq : ∃ j, k.cj.parse openText = some j ∧ OpenedAs j opened

section

variable {cipher : Cipher} {number : String → Option Int} {c : NativeCall}

/-- The answer as it is read. -/
def Exchange.item (e : Exchange k cipher number c token) : Option Item :=
  rereadStruct (rereadValue k.source k.double 42) (some e.fields) e.answer 0

/-- The token of the session behind the call. -/
def Exchange.tokenAfter (e : Exchange k cipher number c token) : String :=
  (e.opened.headers "x-line-next-access").getD token

/-- What the worker sealed is base64, and LINE opens it with the key. -/
theorem Exchange.opens (e : Exchange k cipher number c token)
    (hbom : token.toList.head? ≠ some '\uFEFF') :
    ∃ bytes, e.sealed.body = b64Encode bytes ∧
      legyDecode cipher number e.sealed.key (b64Encode bytes) =
        some ⟨b64Encode e.wire, sentHeaders c.endpoint token, 200⟩ := by
  obtain ⟨-, _, _, -, -, -, hbody⟩ := legyEncode_eq cipher e.sealed_eq
  obtain ⟨raw, hraw, hdecode⟩ := legyDecode_encode cipher number hbom e.sealed_eq
  obtain rfl : e.wire = raw := Option.some.inj ((b64_base64 e.wire).symm.trans hraw)
  rw [hbody] at hdecode
  exact ⟨_, hbody, hdecode⟩

theorem settled_eq (w : Network A) (h : Option A) (item : Option Item) :
    settled w h item = { w with
      lineFailed := fun b => w.lineFailed b || (isRejected item && h == some b) } := by
  unfold settled Network.failFor
  cases isRejected item with
  | false => simp
  | true =>
    cases h with
    | none => simp
    | some a =>
      simp only [if_true, Bool.true_and]
      congr 1
      funext b
      by_cases hb : b = a
      · rw [if_pos hb, hb, beq_self_eq_true, Bool.or_true]
      · have hne : (some a == some b) = false := beq_eq_false_iff_ne.mpr fun h =>
          hb (Option.some.inj h).symm
        rw [if_neg hb, hne, Bool.or_false]

/-- The answer and the world of a sealed call that meets no trouble. -/
theorem upTo_exchange (hready : w.Ready p a b root token) (hbound : p.bound = .login a b)
    (hnative : b.identity.transport = "native-thrift") {url secret : String}
    (hurl : w.workerUrl = some url) (hsecret : w.workerSecret = some secret) {args : Json}
    (hargs : k.cj.parse p.body = some args) (hcall : nativeCall p.path args.toItem = some c)
    (henc : c.encrypted = true) (hok : SchemaOk k.source.schema)
    (e : Exchange k cipher number c token) {bytes : List UInt8}
    (hbody : e.sealed.body = b64Encode bytes) :
    (linePostEx k p).upTo (sealedOutcomes e.sealText e.openText e.raw) w =
      (some (answerOf k c e.item), settled
        (rotated (asked (k := k)
          (sent (asked (k := k) w url secret "/transport/legy/encode" (sealPayload c e.wire token))
            ⟨p.health, b.identity, utf8 sealedUrl,
              sealedHeaders e.sealed.xLcs ++ commonHeaders k b.identity, bytes⟩)
          url secret "/transport/legy/decode" (openPayload e.sealed.key e.raw)) a root
          (e.opened.headers "x-line-next-access"))
        p.health e.item) := by
  obtain ⟨sealJson, hsealJson, hsealed⟩ := e.sealText_eq
  obtain ⟨openJson, hopenJson, hopened⟩ := e.openText_eq
  obtain ⟨reply, hreply, hitem⟩ :=
    item_of_writeMessage k.double hok e.fields_eq e.reply_eq e.stop e.small
  rw [if_pos e.stop_eq] at hitem
  have hsealedBytes : b64DecodeAlloc k.source.evp e.sealed.body = some bytes := by
    rw [hbody, b64DecodeAlloc_encode]
  have hopenedBytes : b64DecodeAlloc k.source.evp e.opened.body = some (e.reply ++ e.stop) := by
    rw [e.body_eq, b64DecodeAlloc_encode]
  have hasked : (asked (k := k) w url secret "/transport/legy/encode"
      (sealPayload c e.wire token)).Ready p a b root token :=
    ⟨hready.line, hready.worker, hready.url, hready.secret, hready.session, hready.isMatch,
      hready.hasToken, hready.nonempty⟩
  have houtcomes : sealedOutcomes e.sealText e.openText e.raw =
      List.replicate 10 { text := some e.sealText } ++
        (List.replicate 2 { text := some e.sealText } ++
          { bytes := e.raw } :: List.replicate 10 { text := some e.openText }) := rfl
  rw [houtcomes, upTo_seal hready hbound hnative hurl hsecret hargs hcall henc e.wire_eq hsealJson
    hsealed hsealedBytes, upTo_send hasked hbound hurl hsecret rfl e.raw hopenJson hopened
    e.status_eq hopenedBytes e.next_safe hreply, hitem, Exchange.item]

/-- A sealed call that meets no trouble, with LINE at the other end: LINE opens the one request
that is sent to the message of the call, under the token of the session, and the caller gets what
LINE answered. The worker is asked twice, the session has the next token, and the account fails
where LINE rejected it. -/
theorem native_call_sealed (hready : w.Ready p a b root token) (hbound : p.bound = .login a b)
    (hnative : b.identity.transport = "native-thrift") {args : Json}
    (hargs : k.cj.parse p.body = some args) (hcall : nativeCall p.path args.toItem = some c)
    (henc : c.encrypted = true) (hok : SchemaOk k.source.schema)
    (hbom : token.toList.head? ≠ some '\uFEFF') (e : Exchange k cipher number c token) :
    ∃ request w', (linePostEx k p).upTo (sealedOutcomes e.sealText e.openText e.raw) w =
        (some (answerOf k c e.item), w') ∧
      w'.toLine = w.toLine ++ [request] ∧ request.health = p.health ∧
      request.identity = b.identity ∧
      legyDecode cipher number e.sealed.key (b64Encode request.body) =
        some ⟨b64Encode e.wire, sentHeaders c.endpoint token, 200⟩ ∧
      w'.toWorker.map WorkerRequest.body = w.toWorker.map WorkerRequest.body ++
        [k.cj.print (sealPayload c e.wire token), k.cj.print (openPayload e.sealed.key e.raw)] ∧
      (∃ root', w'.session a = some root' ∧ b.isMatch root' = true ∧
        root'.get "accessToken" = some (.str e.tokenAfter)) ∧
      (∀ d, d ≠ a → w'.session d = w.session d) ∧
      ∀ d, w'.lineFailed d = (w.lineFailed d || (isRejected e.item && p.health == some d)) := by
  obtain ⟨url, hurl⟩ := Option.isSome_iff_exists.mp hready.url
  obtain ⟨secret, hsecret⟩ := Option.isSome_iff_exists.mp hready.secret
  obtain ⟨bytes, hbody, hopens⟩ := e.opens hbom
  rw [upTo_exchange hready hbound hnative hurl hsecret hargs hcall henc hok e hbody, settled_eq]
  refine ⟨⟨p.health, b.identity, utf8 sealedUrl, sealedHeaders e.sealed.xLcs ++
    commonHeaders k b.identity, bytes⟩, _, rfl, rotated_toLine .., rfl, rfl, hopens, ?_, ?_, ?_, ?_⟩
  · simp [rotated_toWorker, asked, sent]
  · refine rotated_session ?_ hready.isMatch hready.hasToken _
    exact hready.session
  · exact fun d hd => rotated_others hd _
  · exact fun d => by simp [rotated_lineFailed, asked, sent, Exchange.item]

end

/-! ## A call that is sealed -/

/-- The ids of all contacts, in the schema. -/
def idsCallSource : Source where
  schema := [("getAllContactIds_args", [⟨1, "syncReason", .name "i32"⟩]),
    ("getAllContactIds_result", [⟨0, "success", .of "list" [.name "string"]⟩])]
  bits _ := 0
  evp := .groups

def idsCall : List UInt8 :=
  [130, 33, 0, 16, 103, 101, 116, 65, 108, 108, 67, 111, 110, 116, 97, 99, 116, 73, 100, 115, 21, 6,
    0]

theorem utf8_getAllContactIds : utf8 "getAllContactIds" =
    [103, 101, 116, 65, 108, 108, 67, 111, 110, 116, 97, 99, 116, 73, 100, 115] := by
  rw [utf8_eq_flatMap]
  decide

theorem find_idsArgs : (idsCallSource.schema.find? fun e =>
    utf8 e.1 == (utf8 "getAllContactIds" ++ utf8 "_args").take 159) =
      some ("getAllContactIds_args", [⟨1, "syncReason", .name "i32"⟩]) := by
  have hname : "getAllContactIds" ++ "_args" = "getAllContactIds_args" := by decide
  unfold idsCallSource
  rw [← utf8_append, hname, List.take_of_length_le (by rw [length_utf8]; decide),
    List.find?_cons_of_pos (by simp)]

theorem resultFields_idsCallSource : resultFields idsCallSource.schema "getAllContactIds" =
    some [⟨0, "success", .of "list" [.name "string"]⟩] := by
  have hname : "getAllContactIds" ++ "_result" = "getAllContactIds_result" := by decide
  have hne : utf8 "getAllContactIds_args" ≠ utf8 "getAllContactIds_result" := fun h =>
    absurd (utf8_injective h) (by decide)
  unfold resultFields idsCallSource
  rw [← utf8_append, hname, List.take_of_length_le (by rw [length_utf8]; decide),
    List.find?_cons_of_neg (by simpa using hne), List.find?_cons_of_pos (by simp)]
  rfl

theorem enilThriftEncode_idsCall :
    enilThriftEncode idsCallSource "getAllContactIds" (.arr [.num 3]) = some idsCall := by
  unfold enilThriftEncode
  rw [find_idsArgs]
  unfold writeMessage
  rw [utf8_getAllContactIds]
  decide

theorem writeMessage_idsReply : writeMessage idsCallSource 2 "getAllContactIds"
    [⟨0, "success", .of "list" [.name "string"]⟩] (.arr [.arr [.str [117, 49]]]) [] =
      some idsReply := by
  unfold writeMessage
  rw [utf8_getAllContactIds]
  decide

theorem schemaOk_idsCallSource : SchemaOk idsCallSource.schema := by
  intro e he
  simp only [idsCallSource, List.mem_cons, List.not_mem_nil, or_false] at he
  rcases he with rfl | rfl <;> exact ⟨by decide, by decide, List.nodup_singleton _⟩

/-- What is sealed is short, so its headers are encoded. -/
theorem isSome_legyEncode (raw : List UInt8) :
    (legyEncode plainCipher zeroKey "/S4" (b64Encode raw) "access-1").isSome = true := by
  have hrequest : requestHeaders "/S4" "access-1" = [("x-lpqs", "/S4"), ("x-lt", "access-1")] := by
    decide
  obtain ⟨headers, hheaders⟩ : ∃ xs, encodeHeaders (requestHeaders "/S4" "access-1") = some xs := by
    refine ⟨_, encodeHeaders_iff.mpr ⟨?_, rfl⟩⟩
    rw [hrequest]
    simp only [block, fields, field, List.map_cons, List.map_nil, List.flatMap_cons,
      List.flatMap_nil, List.length_append, length_be16, length_utf8, List.length_nil]
    decide
  have hraw : b64 (b64Encode raw) = some raw := b64_base64 raw
  rw [legyEncode, if_neg (by decide), hraw, hheaders]
  rfl

def sealedMessage (raw : List UInt8) : LegyRequest :=
  (legyEncode plainCipher zeroKey "/S4" (b64Encode raw) "access-1").get (isSome_legyEncode raw)

theorem legyEncode_sealedMessage (raw : List UInt8) :
    legyEncode plainCipher zeroKey "/S4" (b64Encode raw) "access-1" = some (sealedMessage raw) :=
  (Option.some_get _).symm

theorem sealedMessage_key (raw : List UInt8) : (sealedMessage raw).key = base64 zeroKey.bytes := by
  obtain ⟨-, _, _, -, -, hkey, -⟩ := legyEncode_eq plainCipher (legyEncode_sealedMessage raw)
  exact hkey

/-- The worker seals the call and opens the reply, and cJSON reads what it answers. -/
def idsCodec : Codec where
  cj := {
    parse := fun s =>
      if s = "[3]" then some (.arr [.num 3])
      else if s = "sealed" then
        some (.obj [("body", .str (sealedMessage idsCall).body),
          ("key", .str (sealedMessage idsCall).key), ("xLcs", .str (sealedMessage idsCall).xLcs)])
      else if s = "opened" then
        some (.obj [("body", .str (b64Encode (idsReply ++ [0]))), ("headers", .obj []),
          ("status", .num 200)])
      else none
    print := fun _ => "" }
  source := idsCallSource
  double _ := 0
  printItem _ := ""
  language := "en"

def idsBinding : Binding := ⟨some "login-1", .windows⟩

def idsFile : Fields := [
  ("accessToken", .str "access-1"),
  ("loginId", .str "login-1"),
  ("clientIdentity", Identity.windows.toJson)]

def idsPost : LinePost Bool where
  health := some true
  bound := .login true idsBinding
  path := "/api/talk/thrift/Talk/TalkService/getAllContactIds"
  body := "[3]"
  accessToken := "access-1"

def idsNetwork : Network Bool where
  workerUrl := some "https://worker"
  workerSecret := some "secret"
  session a := if a then some idsFile else none

def idsNativeCall : NativeCall := ⟨"getAllContactIds", "/S4", true, .arr [.num 3], false⟩

theorem exists_idsExchange : ∃ e : Exchange idsCodec plainCipher (fun _ => none) idsNativeCall
    "access-1", e.item = some (.obj [(utf8 "success", .arr [.str [117, 49]])]) := by
  obtain ⟨-, _, headers, -, -, hkey, hbody⟩ :=
    legyEncode_eq plainCipher (legyEncode_sealedMessage (idsReply ++ [0]))
  have hhead : "access-1".toList.head? ≠ some '\uFEFF' := by decide
  obtain ⟨raw, hraw, hdecode⟩ := legyDecode_encode plainCipher (fun _ => none) hhead
    (legyEncode_sealedMessage (idsReply ++ [0]))
  obtain rfl : idsReply ++ [0] = raw := Option.some.inj ((b64_base64 _).symm.trans hraw)
  rw [hbody, sealedMessage_key, ← sealedMessage_key idsCall] at hdecode
  refine ⟨{
    key := zeroKey
    wire := idsCall
    wire_eq := enilThriftEncode_idsCall
    sealed := sealedMessage idsCall
    sealed_eq := legyEncode_sealedMessage idsCall
    sealText := "sealed"
    sealText_eq := ⟨_, rfl, rfl, rfl, rfl⟩
    answer := .arr [.arr [.str [117, 49]]]
    fields := _
    fields_eq := resultFields_idsCallSource
    reply := idsReply
    reply_eq := writeMessage_idsReply
    stop := [0]
    stop_eq := .inr rfl
    small := by decide
    raw := _
    opened := _
    opened_eq := hdecode
    body_eq := rfl
    status_eq := rfl
    next_safe := by
      intro next hnext
      simp [sentHeaders] at hnext
    openText := "opened"
    openText_eq := ⟨_, rfl, rfl, rfl, rfl⟩ }, rfl⟩

theorem native_call_sealed_ids : ∃ e : Exchange idsCodec plainCipher (fun _ => none) idsNativeCall
    "access-1", e.item = some (.obj [(utf8 "success", .arr [.str [117, 49]])]) ∧
      ∃ w', (linePostEx idsCodec idsPost).upTo
          (sealedOutcomes e.sealText e.openText e.raw) idsNetwork =
        (some (answerOf idsCodec idsNativeCall e.item), w') ∧ w'.toLine.length = 1 := by
  obtain ⟨e, hitem⟩ := exists_idsExchange
  have hhead : "access-1".toList.head? ≠ some '\uFEFF' := by decide
  have hready : idsNetwork.Ready idsPost true idsBinding idsFile "access-1" :=
    ⟨rfl, rfl, rfl, rfl, rfl, by decide, rfl, by decide⟩
  have hargs : idsCodec.cj.parse idsPost.body = some (.arr [.num 3]) := rfl
  have hcall : nativeCall idsPost.path (Json.arr [.num 3]).toItem = some idsNativeCall := by rfl
  obtain ⟨request, w', hrun, hline, -⟩ := native_call_sealed hready rfl rfl hargs hcall rfl
    schemaOk_idsCallSource hhead e
  exact ⟨e, hitem, w', hrun, by rw [hline]; rfl⟩

end Posting

end Enil
