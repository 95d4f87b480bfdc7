import Enil.Login.NativeLogin

/-!
# Credentials are issued once

Through all runs, crashes and retirements of a login directory the token request is sent
at most once, and the access token comes from its reply. The one thing the code counts on
is that `access` finds a file that is there.
-/

namespace Enil

open Lib

variable {decode : DecodeRaw} {evp : Evp}

/-! ## What the directory says of the token request -/

namespace LoginDir

def tokenRequests (d : LoginDir) : Nat := d.calls.countP (·.method == tokenMethod)

/-- A session that holds this reply to the token request. -/
structure Holds (s : Keyed) (reply : LoginReply) : Prop where
  method : s.str "lastNativeMethod" = some tokenMethod
  base64 : s.str "lastNativeResponseBase64" = some (b64Encode reply.body)

variable (decode evp)

def tokenIn (body : List UInt8) : Option String := (Login.resultIn decode body).bind Login.tokenOf

/-- A session since the token request was sent: an access token in it is the one of the reply
it holds. -/
structure Started (s : Keyed) : Prop where
  started : s.isTrue "nativeTokenRequestStarted" = true
  token : ∀ a, s.str "accessToken" = some a →
    (Login.savedResult decode evp s).bind Login.tokenOf = some a

/-- What holds of the directory at every moment. -/
structure Safe (d : LoginDir) : Prop where
  once : d.tokenRequests ≤ 1
  session : d.tokenRequests ≠ 0 →
    d.session.Holds fun f => ∃ s, f = .object s ∧ Started decode evp s
  unretired : ∀ c ∈ d.calls, c.retired = false

/-- The reply to the token request, with this token, survives every crash. -/
def HasReply (d : LoginDir) (token : String) : Prop :=
  ∃ c ∈ d.calls, c.method = tokenMethod ∧ tokenIn decode c.reply.body = some token ∧
    d.session.Holds fun f => ∃ s, f = .object s ∧ Holds s c.reply

/-- The retirement survives every crash. -/
def Retired (d : LoginDir) : Prop := d.retired.Holds (· = true)

/-- What is true of every later moment. -/
structure Follows (d d' : LoginDir) : Prop where
  calls : d.calls <+: d'.calls
  reply : ∀ token, d.HasReply decode token → d'.HasReply decode token ∧ d'.calls = d.calls
  retired : d.Retired → d'.Retired ∧ d'.calls = d.calls

variable {decode evp}

theorem Follows.refl (d : LoginDir) : d.Follows decode d :=
  ⟨List.prefix_rfl, fun _ h => ⟨h, rfl⟩, fun h => ⟨h, rfl⟩⟩

theorem Follows.trans {a b c : LoginDir} (h : a.Follows decode b) (h' : b.Follows decode c) :
    a.Follows decode c where
  calls := h.calls.trans h'.calls
  reply token ha := by
    obtain ⟨hb, hcalls⟩ := h.reply token ha
    obtain ⟨hc, hcalls'⟩ := h'.reply token hb
    exact ⟨hc, hcalls'.trans hcalls⟩
  retired ha := by
    obtain ⟨hb, hcalls⟩ := h.retired ha
    obtain ⟨hc, hcalls'⟩ := h'.retired hb
    exact ⟨hc, hcalls'.trans hcalls⟩

theorem HasReply.sent {d : LoginDir} {token : String} (h : d.HasReply decode token) :
    d.tokenRequests ≠ 0 := by
  obtain ⟨c, hc, hmethod, -⟩ := h
  have hpos : 0 < d.tokenRequests := List.countP_pos_iff.mpr ⟨c, hc, by simp [hmethod]⟩
  omega

/-- The session holds the reply as the saved result. -/
theorem Holds.savedResult {s : Keyed} {reply : LoginReply} (h : Holds s reply) :
    Login.savedResult decode evp s = Login.resultIn decode reply.body := by
  rw [Login.savedResult, if_pos h.method, h.base64, Option.bind_some, b64DecodeAlloc_encode,
    Option.bind_some]

end LoginDir

open LoginDir

variable (decode evp) in
/-- What a call keeps. The lock keeps others away. -/
def loginRules : Rules LoginDir LoginOutcome where
  inv d := d.Safe decode evp
  rely d d' := d' = d
  rely_refl _ := rfl
  rely_trans h h' := h'.trans h
  guar d d' := d.Follows decode d'
  guar_refl := Follows.refl
  guar_trans := Follows.trans
  ok o := o.accessFails = false

variable (decode) in
/-- A run that succeeds leaves the access token of the reply. -/
def Delivers (r : LoginTask × Bool) (d : LoginDir) : Prop :=
  r = (.run, true) → ∀ token, d.HasReply decode token →
    ∃ s, d.session.visible = .object s ∧ s.str "accessToken" = some token

/-! ## The handshake -/

structure LoginDir.Fresh (d : LoginDir) : Prop where
  unsent : d.tokenRequests = 0
  unretired : d.retired.visible = false

/-- An operation that sends at most a request of the handshake. -/
def Quiet (act : LoginOutcome → LoginDir → Option LoginDir) : Prop :=
  ∀ o d d', act o d = some d' → d'.retired = d.retired ∧
    (d'.calls = d.calls ∨ ∃ m ≠ tokenMethod, ∃ reply,
      d'.calls = d.calls ++ [⟨m, reply, d.retired.visible⟩])

theorem quiet_op {α : Type} {f : LoginOutcome → LoginDir → α × LoginDir}
    (h : ∀ o d, (f o d).2.retired = d.retired ∧ (f o d).2.calls = d.calls) :
    (Prog.op f).Only Quiet fun _ => True :=
  .op (fun o d d' hact => by
    obtain rfl := Option.some.inj hact
    exact ⟨(h o d).1, .inl (h o d).2⟩) fun _ _ => trivial

theorem quiet_keeps {act : LoginOutcome → LoginDir → Option LoginDir} (hact : Quiet act)
    {o : LoginOutcome} {d d' : LoginDir} (hsafe : d.Safe decode evp) (hfresh : d.Fresh)
    (h : act o d = some d') :
    d'.Safe decode evp ∧ d.Follows decode d' ∧ d'.Fresh := by
  obtain ⟨hretired, hcalls⟩ := hact o d d' h
  have hstart : d.calls <+: d'.calls := by
    rcases hcalls with hcalls | ⟨m, -, reply, hcalls⟩
    · exact hcalls ▸ List.prefix_rfl
    · exact hcalls ▸ List.prefix_append ..
  have hunsent : d'.tokenRequests = 0 := by
    have hnone := hfresh.unsent
    unfold tokenRequests at hnone ⊢
    rcases hcalls with hcalls | ⟨m, hm, reply, hcalls⟩
    · rw [hcalls]
      exact hnone
    · rw [hcalls, List.countP_append, hnone, List.countP_singleton, if_neg (by simpa using hm)]
  refine ⟨⟨?_, ?_, ?_⟩, ⟨hstart, ?_, ?_⟩, hunsent, ?_⟩
  · omega
  · intro hsent
    exact absurd hunsent hsent
  · intro c hc
    rcases hcalls with hcalls | ⟨m, -, reply, hcalls⟩
    · exact hsafe.unretired c (hcalls ▸ hc)
    · rw [hcalls] at hc
      rcases List.mem_append.mp hc with hc | hc
      · exact hsafe.unretired c hc
      · obtain rfl := List.mem_singleton.mp hc
        exact hfresh.unretired
  · intro token hreply
    exact absurd hfresh.unsent hreply.sent
  · intro hret
    have hvisible := hret.visible
    rw [hfresh.unretired] at hvisible
    cases hvisible
  · rw [hretired]
    exact hfresh.unretired

/-- A program of quiet operations on a fresh directory. -/
theorem ensures_of_quiet {α : Type} {K : α → Prop} {p : Login α} (hp : p.Only Quiet K)
    {d : LoginDir} (hd : d.Fresh) :
    p.Ensures (loginRules decode evp) (fun a d => K a ∧ d.Fresh) d :=
  .of_only (fun heq hfresh => by
      obtain rfl : _ = _ := heq
      exact hfresh)
    (fun _ hact _ _ _ _ hsafe hfresh h => quiet_keeps hact hsafe hfresh h) hp hd

namespace Login

/-- A session in which no access token stands. -/
def NoToken (s : Keyed) : Prop := s.str "accessToken" = none

theorem NoToken.set {s : Keyed} (h : NoToken s) {key : String} (hne : "accessToken" ≠ key)
    (v : Json) : NoToken (s.set key v) := by
  unfold NoToken Keyed.str at h ⊢
  rw [s.get_set_of_ne hne]
  exact h

theorem NoToken.setOpt {s : Keyed} (h : NoToken s) {key : String} (hne : "accessToken" ≠ key)
    (v : Option Json) : NoToken (s.setOpt key v) := by
  unfold NoToken Keyed.str at h ⊢
  rw [s.get_setOpt_of_ne hne]
  exact h

theorem NoToken.copyField {s : Keyed} (h : NoToken s) {name : String} (hne : "accessToken" ≠ name)
    (source : Option Json) (key : String) : NoToken (s.copyField name source key) := by
  unfold NoToken Keyed.str at h ⊢
  rw [s.get_copyField_of_ne hne]
  exact h

/-- A stage that issues nothing and brings in no token. -/
abbrev Handshake (p : Login (Option Keyed)) : Prop := p.Only Quiet fun r => ∀ s ∈ r, NoToken s

theorem handshake_none : Handshake (pure none) := .pure fun _ hs => nomatch hs

theorem handshake_some {s : Keyed} (hs : NoToken s) : Handshake (pure (some s)) :=
  .pure fun _ h => Option.some.inj h ▸ hs

theorem quiet_cancelled : cancelled.Only Quiet fun _ => True := quiet_op fun _ _ => ⟨rfl, rfl⟩

theorem quiet_attempt : attempt.Only Quiet fun _ => True := quiet_op fun _ _ => ⟨rfl, rfl⟩

theorem quiet_write (s : Keyed) : (write s).Only Quiet fun _ => True :=
  quiet_op fun _ _ => ⟨rfl, rfl⟩

theorem quiet_loginId : loginId.Only Quiet fun _ => True := by
  refine quiet_op fun o d => ?_
  split
  · exact ⟨rfl, rfl⟩
  · split
    · exact ⟨rfl, rfl⟩
    · split
      · exact ⟨rfl, rfl⟩
      · exact ⟨rfl, rfl⟩

theorem quiet_perform {method : String} (h : method ≠ tokenMethod) :
    (perform method).Only Quiet fun _ => True :=
  .op (fun o d d' hact => by
    obtain rfl := Option.some.inj hact
    exact ⟨rfl, .inr ⟨method, h, o.reply, rfl⟩⟩) fun _ _ => trivial

theorem noToken_rawReply {s : Keyed} (h : NoToken s) (method : String) (reply : LoginReply) :
    NoToken (rawReply method reply s) :=
  ((h.set (by decide) _).set (by decide) _).set (by decide) _

theorem quiet_call {method : String} (h : method ≠ tokenMethod) (polling : Bool) {s : Keyed}
    (hs : NoToken s) : (call decode method polling s).Only Quiet fun r => NoToken r.state := by
  unfold call
  refine quiet_cancelled.bind fun _ _ => .ite (fun _ => .pure hs) fun _ => ?_
  refine .ite (fun _ => .pure hs) fun _ => ?_
  refine quiet_attempt.bind fun _ _ => .ite (fun _ => .pure hs) fun _ => ?_
  refine (quiet_perform h).bind fun reply _ => ?_
  refine quiet_attempt.bind fun _ _ => .ite (fun _ => .pure hs) fun _ => ?_
  have hraw := noToken_rawReply hs method reply
  refine (quiet_write _).bind fun _ _ => .ite (fun _ => .pure hraw) fun _ => ?_
  refine .ite (fun _ => .pure hraw) fun _ => ?_
  cases decodeWire decode method reply.body with
  | none => exact .pure hraw
  | some wire =>
    have hdecoded := hraw.set (by decide : "accessToken" ≠ "lastNativeResponse") wire.2
    refine (quiet_write _).bind fun _ _ => .ite (fun _ => .pure hdecoded) fun _ => ?_
    exact .pure hdecoded

theorem quiet_callFor {method : String} (h : method ≠ tokenMethod) {s : Keyed} (hs : NoToken s) :
    (callFor decode method s).Only Quiet fun r => ∀ e ∈ r, NoToken e.1 := by
  refine (quiet_call h false hs).bind fun r hr => .pure fun e he => ?_
  obtain ⟨j, -, rfl⟩ := Option.map_eq_some_iff.mp he
  exact hr

theorem quiet_poll {method : String} (h : method ≠ tokenMethod) (n : Nat) {s : Keyed}
    (hs : NoToken s) : Handshake (poll decode method n s) := by
  induction n generalizing s with
  | zero => exact handshake_none
  | succ n ih =>
    refine quiet_cancelled.bind fun _ _ => .ite (fun _ => handshake_none) fun _ => ?_
    refine (quiet_call h true hs).bind fun r hr => ?_
    refine .ite (fun _ => handshake_some hr) fun _ => ?_
    exact .ite (fun _ => handshake_none) fun _ => ih hr

theorem quiet_save {s : Keyed} (hs : NoToken s) : Handshake (save s) :=
  (quiet_write s).bind fun _ _ => .ite (fun _ => handshake_some hs) fun _ => handshake_none

theorem quiet_prepare {s : Keyed} (hs : NoToken s) : Handshake (prepare s) := by
  refine quiet_cancelled.bind fun _ _ => .ite (fun _ => handshake_none) fun _ => ?_
  have htransport := hs.set (by decide : "accessToken" ≠ "nativeTransport") (.str "compact-thrift")
  have hidentity : NoToken (if ((s.set "nativeTransport" (.str "compact-thrift")).get
      "clientIdentity").isNone then (s.set "nativeTransport" (.str "compact-thrift")).set
        "clientIdentity" defaultIdentity else s.set "nativeTransport" (.str "compact-thrift")) := by
    split
    · exact htransport.set (by decide) _
    · exact htransport
  refine (quiet_write _).bind fun _ _ => .ite (fun _ => handshake_none) fun _ => ?_
  refine quiet_loginId.bind fun id _ => ?_
  cases id with
  | none => exact handshake_none
  | some id => exact handshake_some (hidentity.set (by decide) _)

theorem quiet_createKeys {s : Keyed} (hs : NoToken s) : Handshake (createKeys s) := by
  refine .ite (fun _ => handshake_some hs) fun _ => ?_
  refine (quiet_op fun _ _ => ⟨rfl, rfl⟩).bind fun keys _ => ?_
  cases keys with
  | none => exact handshake_none
  | some keys =>
    refine quiet_save ?_
    exact ((hs.set (by decide) _).set (by decide) _).setOpt (by decide) _

theorem quiet_createSession {s : Keyed} (hs : NoToken s) :
    Handshake (createSession decode s) := by
  refine .ite (fun _ => handshake_some hs) fun _ => ?_
  refine .andThen (quiet_callFor (by decide) hs) fun r hr => ?_
  refine .ite (fun _ => handshake_none) fun _ => quiet_save ?_
  exact hr.copyField (by decide) _ _

theorem quiet_createQrCode {s : Keyed} (hs : NoToken s) : Handshake (createQrCode decode s) := by
  refine .ite (fun _ => handshake_some hs) fun _ => ?_
  refine .andThen (quiet_callFor (by decide) hs) fun r hr => ?_
  refine .ite (fun _ => handshake_none) fun _ => ?_
  refine (quiet_op fun _ _ => ⟨rfl, rfl⟩).bind fun now _ => quiet_save ?_
  have hcode := (hr.copyField (by decide : "accessToken" ≠ "callbackUrl") r.2 "1").copyField
    (by decide : "accessToken" ≠ "nativeQrNonce") r.2 "4"
  exact ((hcode.copyField (by decide) _ _).copyField (by decide) _ _).set (by decide) _

theorem quiet_showQrCode {s : Keyed} (hs : NoToken s) : Handshake (showQrCode s) := by
  refine .ite (fun _ => handshake_none) fun _ => .ite (fun _ => handshake_none) fun _ => ?_
  refine quiet_attempt.bind fun _ _ => ?_
  exact .ite (fun _ => handshake_some hs) fun _ => handshake_none

theorem quiet_verifyScan {s : Keyed} (hs : NoToken s) : Handshake (verifyScan decode s) := by
  refine .ite (fun _ => handshake_some hs) fun _ => ?_
  exact .andThen (quiet_poll (by decide) _ hs) fun s' hs' => quiet_save (hs'.set (by decide) _)

theorem quiet_verifyDevice (count : Nat) {s : Keyed} (hs : NoToken s) :
    Handshake (verifyDevice decode count s) := by
  refine (quiet_call (by decide) false hs).bind fun r hr => ?_
  refine .ite (fun _ => handshake_some hr) fun _ => .ite (fun _ => handshake_none) fun _ => ?_
  refine .andThen (quiet_callFor (by decide) hr) fun e he => ?_
  exact .ite (fun _ => handshake_none) fun _ => quiet_poll (by decide) count he

theorem quiet_verifyPin {s : Keyed} (hs : NoToken s) : Handshake (verifyPin decode s) := by
  refine .ite (fun _ => handshake_some hs) fun _ => ?_
  refine .andThen ((quiet_op fun _ _ => ⟨rfl, rfl⟩).mono fun _ _ _ _ => trivial)
    fun certificate _ => ?_
  have hcertificate : NoToken (certificate.elim s fun c => s.set "certificate" (.str c)) := by
    cases certificate with
    | none => exact hs
    | some c => exact hs.set (by decide) _
  exact .andThen (quiet_verifyDevice _ hcertificate) fun s' hs' =>
    quiet_save (hs'.set (by decide) _)

theorem quiet_handshake {s : Keyed} (hs : NoToken s) : Handshake (handshake decode s) :=
  .andThen (quiet_prepare hs) fun _ h => .andThen (quiet_createKeys h) fun _ h =>
    .andThen (quiet_createSession h) fun _ h => .andThen (quiet_createQrCode h) fun _ h =>
      .andThen (quiet_showQrCode h) fun _ h => .andThen (quiet_verifyScan h) fun _ h =>
        quiet_verifyPin h

/-! ## The token request -/

variable {d : LoginDir}

theorem ensures_op {α : Type} {f : LoginOutcome → LoginDir → α × LoginDir}
    {Q : α → LoginDir → Prop} (h : d.Safe decode evp → ∀ o, o.accessFails = false →
      (f o d).2.Safe decode evp ∧ d.Follows decode (f o d).2 ∧ Q (f o d).1 (f o d).2) :
    (Prog.op f).Ensures (loginRules decode evp) Q d :=
  .op fun d₁ heq hsafe o ho => by
    obtain rfl : d₁ = d := heq
    exact h hsafe o ho

/-- An operation that only looks, and what follows it. -/
theorem ensures_look {α β : Type} {f : LoginOutcome → LoginDir → α × LoginDir}
    {k : α → Login β} {Q : β → LoginDir → Prop} (hf : ∀ o, (f o d).2 = d)
    (h : ∀ o, o.accessFails = false → (k (f o d).1).Ensures (loginRules decode evp) Q d) :
    (Prog.op f >>= k).Ensures (loginRules decode evp) Q d := by
  refine .bind (Q := fun a d' => d' = d ∧ (k a).Ensures (loginRules decode evp) Q d)
    (ensures_op fun hsafe o ho => ?_) fun a d' h' => ?_
  · rw [hf o]
    exact ⟨hsafe, .refl d, rfl, h o ho⟩
  · rw [h'.1]
    exact h'.2

/-- A session may replace the one that is seen where it says no less of the token request. -/
def MayReplace (decode : DecodeRaw) (evp : Evp) (d : LoginDir) (s' : Keyed) : Prop :=
  d.tokenRequests ≠ 0 → Started decode evp s' ∧ ∀ c ∈ d.calls, c.method = tokenMethod →
    ∀ s, d.session.visible = .object s → Holds s c.reply → Holds s' c.reply

theorem ensures_write {s' : Keyed} (h : MayReplace decode evp d s') :
    (write s').Ensures (loginRules decode evp) (fun ok d' => d'.calls = d.calls ∧
      d'.retired = d.retired ∧ (ok = true → d'.session = { visible := .object s' })) d := by
  refine ensures_op fun hsafe o _ => ⟨⟨hsafe.once, fun hsent => ?_, hsafe.unretired⟩,
    ⟨List.prefix_rfl, fun token hreply => ⟨?_, rfl⟩, fun hret => ⟨hret, rfl⟩⟩, rfl, rfl,
    fun hok => d.session.write_ok _ hok⟩
  · exact (hsafe.session hsent).write ⟨s', rfl, (h hsent).1⟩ _
  · have hsent := hreply.sent
    obtain ⟨c, hc, hmethod, htoken, hheld⟩ := hreply
    obtain ⟨s, hs, hholds⟩ := hheld.visible
    exact ⟨c, hc, hmethod, htoken,
      hheld.write ⟨s', rfl, (h hsent).2 c hc hmethod s hs hholds⟩ _⟩

/-- A session with the token of the reply is what a run has to leave. -/
theorem delivers_of_visible {s : Keyed} (hs : d.session.visible = .object s)
    (hstarted : d.tokenRequests ≠ 0 → Started decode evp s) (htoken : (s.str "accessToken").isSome) :
    Delivers decode (.run, true) d := by
  intro _ token hreply
  have hsent := hreply.sent
  obtain ⟨c, -, -, hin, hheld⟩ := hreply
  obtain ⟨s', hs', hholds⟩ := hheld.visible
  obtain rfl : s = s' := LoginFile.object.inj (hs.symm.trans hs')
  obtain ⟨a, ha⟩ := Option.isSome_iff_exists.mp htoken
  have hsaved := (hstarted hsent).token a ha
  rw [hholds.savedResult] at hsaved
  exact ⟨s, hs, ha.trans (hsaved.symm.trans hin)⟩

theorem delivers_false : Delivers decode (.run, false) d := fun h => nomatch h

/-! ### Fields that say nothing of the request -/

/-- The keys that say how far the token request is. -/
def requestKeys : List String :=
  ["nativeTokenRequestStarted", "lastNativeMethod", "lastNativeResponseBase64", "accessToken"]

/-- The two sessions say the same of the token request. -/
def SameRequest (s s' : Keyed) : Prop := ∀ key ∈ requestKeys, s'.get key = s.get key

theorem SameRequest.refl (s : Keyed) : SameRequest s s := fun _ _ => rfl

theorem SameRequest.set {s s' : Keyed} (h : SameRequest s s') {key : String}
    (hkey : key ∉ requestKeys) (v : Json) : SameRequest s (s'.set key v) := by
  rintro k hk
  rw [s'.get_set_of_ne (ne_of_mem_of_not_mem hk hkey)]
  exact h k hk

theorem SameRequest.setOpt {s s' : Keyed} (h : SameRequest s s') {key : String}
    (hkey : key ∉ requestKeys) (v : Option Json) : SameRequest s (s'.setOpt key v) := by
  rintro k hk
  rw [s'.get_setOpt_of_ne (ne_of_mem_of_not_mem hk hkey)]
  exact h k hk

theorem SameRequest.copyField {s s' : Keyed} (h : SameRequest s s') {name : String}
    (hname : name ∉ requestKeys) (source : Option Json) (key : String) :
    SameRequest s (s'.copyField name source key) := by
  rintro k hk
  rw [s'.get_copyField_of_ne (ne_of_mem_of_not_mem hk hname)]
  exact h k hk

theorem SameRequest.str {s s' : Keyed} (h : SameRequest s s') {key : String}
    (hkey : key ∈ requestKeys) : s'.str key = s.str key := by
  rw [Keyed.str, Keyed.str, h key hkey]

theorem SameRequest.holds {s s' : Keyed} (h : SameRequest s s') {reply : LoginReply}
    (hs : Holds s reply) : Holds s' reply where
  method := (h.str (by decide)).trans hs.method
  base64 := (h.str (by decide)).trans hs.base64

theorem SameRequest.started {s s' : Keyed} (h : SameRequest s s') (hs : Started decode evp s) :
    Started decode evp s' := by
  refine ⟨?_, fun a ha => ?_⟩
  · rw [Keyed.isTrue, h _ (by decide)]
    exact hs.started
  · rw [h.str (by decide)] at ha
    rw [savedResult, h.str (by decide), h.str (by decide)]
    exact hs.token a ha

/-! ### The fields of a result -/

/-- The access token of a result, before its other fields. -/
def tokenField (result : Json) (s : Keyed) : Keyed :=
  (s.set "nativeLoginResult" result).copyField "accessToken"
    (result.getObjectItemCaseSensitive "3") "1"

theorem sameRequest_loginFields (result : Json) (s : Keyed) :
    SameRequest (tokenField result s) (loginFields result s) := by
  have h := SameRequest.refl (tokenField result s)
  have h₂ := h.copyField (by decide : "refreshToken" ∉ requestKeys)
    (result.getObjectItemCaseSensitive "3") "2"
  have h₄ := (h₂.copyField (by decide : "durationUntilRefreshInSec" ∉ requestKeys)
    (result.getObjectItemCaseSensitive "3") "3").copyField
    (by decide : "tokenIssueTimeEpochSec" ∉ requestKeys)
    (result.getObjectItemCaseSensitive "3") "6"
  have h₆ := (h₄.copyField (by decide : "certificate" ∉ requestKeys) result "1").copyField
    (by decide : "mid" ∉ requestKeys) result "4"
  have h₇ := h₆.copyField (by decide : "e2eeLoginMetaData" ∉ requestKeys) result "10"
  exact ((h₇.copyField (by decide) _ _).copyField (by decide) _ _).copyField (by decide) _ _

theorem tokenField_get {key : String} (hkey : key ∈ requestKeys) (hne : key ≠ "accessToken")
    (result : Json) (s : Keyed) : (tokenField result s).get key = s.get key := by
  have hresult : "nativeLoginResult" ∉ requestKeys := by decide
  rw [tokenField, Keyed.get_copyField_of_ne _ hne,
    Keyed.get_set_of_ne _ (ne_of_mem_of_not_mem hkey hresult)]

/-- Where the session had no access token, it gets the one of the result. -/
theorem tokenField_token {s : Keyed} (hs : NoToken s) (result : Json) :
    (tokenField result s).str "accessToken" = tokenOf result := by
  have hnone : NoToken (s.set "nativeLoginResult" result) := hs.set (by decide) _
  unfold tokenField tokenOf Keyed.copyField
  cases htokens : result.getObjectItemCaseSensitive "3" with
  | none => exact hnone
  | some tokens =>
    simp only [Option.bind_some]
    unfold Json.dupStringOpt
    cases tokens.getObjectItemCaseSensitive "1" with
    | none => exact hnone
    | some token => rw [Keyed.str, Keyed.get_set_same]

theorem loginFields_token {s : Keyed} (hs : NoToken s) (result : Json) :
    (loginFields result s).str "accessToken" = tokenOf result :=
  ((sameRequest_loginFields result s).str (by decide)).trans (tokenField_token hs result)

theorem loginFields_holds {s : Keyed} {reply : LoginReply} (hs : Holds s reply) (result : Json) :
    Holds (loginFields result s) reply := by
  refine (sameRequest_loginFields result s).holds ⟨?_, ?_⟩
  · rw [Keyed.str, tokenField_get (by decide) (by decide)]
    exact hs.method
  · rw [Keyed.str, tokenField_get (by decide) (by decide)]
    exact hs.base64

theorem loginFields_started {s : Keyed} (hnone : NoToken s)
    (hs : s.isTrue "nativeTokenRequestStarted" = true) {result : Json}
    (hsaved : savedResult decode evp s = some result) :
    Started decode evp (loginFields result s) := by
  refine (sameRequest_loginFields result s).started ⟨?_, fun a ha => ?_⟩
  · rw [Keyed.isTrue, tokenField_get (by decide) (by decide)]
    exact hs
  · rw [tokenField_token hnone] at ha
    have hsame : savedResult decode evp (tokenField result s) = savedResult decode evp s := by
      rw [savedResult, savedResult, Keyed.str, Keyed.str, tokenField_get (by decide) (by decide),
        tokenField_get (by decide) (by decide)]
      rfl
    rw [hsame, hsaved]
    exact ha

/-! ### A login that was started -/

theorem ensures_save {s' : Keyed} (h : MayReplace decode evp d s') :
    (save s').Ensures (loginRules decode evp) (fun r d' => ∀ s ∈ r, s = s' ∧ d'.calls = d.calls ∧
      d'.retired = d.retired ∧ d'.session = { visible := .object s' }) d := by
  refine (ensures_write h).bind fun ok d' hd => ?_
  cases ok with
  | false => exact .pure fun _ hs => nomatch hs
  | true =>
    refine .pure fun s hs => ?_
    obtain rfl := Option.some.inj hs
    exact ⟨rfl, hd.1, hd.2.1, hd.2.2 rfl⟩

theorem ensures_recoverLoginReply {s : Keyed} (hs : d.session.visible = .object s)
    (hnone : NoToken s) (hstarted : s.isTrue "nativeTokenRequestStarted" = true) :
    (recoverLoginReply decode evp s).Ensures (loginRules decode evp)
      (fun ok d' => Delivers decode (.run, ok) d') d := by
  unfold recoverLoginReply
  cases hsaved : savedResult decode evp s with
  | none => exact .pure delivers_false
  | some result =>
    dsimp only
    split
    · exact .pure delivers_false
    · rename_i htoken
      have hfields := loginFields_started hnone hstarted hsaved
      have hmay : MayReplace decode evp d (loginFields result s) :=
        fun _ => ⟨hfields, fun c _ _ s' hs' hheld => by
          obtain rfl : s = s' := LoginFile.object.inj (hs.symm.trans hs')
          exact loginFields_holds hheld result⟩
      refine (ensures_save hmay).bind fun r d' hd => ?_
      cases r with
      | none => exact .pure delivers_false
      | some s' =>
        obtain ⟨rfl, -, -, hsession⟩ := hd s' rfl
        refine .pure (delivers_of_visible (by rw [hsession]) (fun _ => hfields) ?_)
        rw [loginFields_token hnone]
        exact Option.isSome_iff_ne_none.mpr (by simpa using htoken)

/-! ### A login that is to be made -/

structure Requested (s : Keyed) (reply : LoginReply) (d : LoginDir) : Prop where
  session : d.session = { visible := .object s }
  reply : ∀ c ∈ d.calls, c.method = tokenMethod → c.reply = reply
  started : s.isTrue "nativeTokenRequestStarted" = true
  noToken : NoToken s

theorem Requested.mayReplace {s s' : Keyed} {reply : LoginReply} (h : Requested s reply d)
    (hs : Started decode evp s') (hholds : Holds s' reply) : MayReplace decode evp d s' :=
  fun _ => ⟨hs, fun c hc hmethod _ _ _ => by
    rw [h.reply c hc hmethod]
    exact hholds⟩

theorem NoToken.started {s : Keyed} (h : NoToken s)
    (hs : s.isTrue "nativeTokenRequestStarted" = true) : Started decode evp s :=
  ⟨hs, fun a ha => by
    rw [h] at ha
    cases ha⟩

theorem ensures_perform {s : Keyed} (hd : d.Fresh) (hs : d.session = { visible := .object s })
    (hstarted : s.isTrue "nativeTokenRequestStarted" = true) (hnone : NoToken s) :
    (perform tokenMethod).Ensures (loginRules decode evp) (fun reply d' => Requested s reply d')
      d := by
  have hunsent : d.calls.countP (·.method == tokenMethod) = 0 := hd.unsent
  refine ensures_op fun hsafe o _ => ⟨⟨?_, fun _ => ?_, ?_⟩,
    ⟨List.prefix_append .., fun token hreply => absurd hd.unsent hreply.sent, fun hret => ?_⟩,
    hs, ?_, hstarted, hnone⟩
  · show List.countP _ (d.calls ++ [_]) ≤ 1
    rw [List.countP_append, hunsent, List.countP_singleton]
    split <;> omega
  · show d.session.Holds _
    rw [hs]
    rintro f hf
    obtain rfl := List.mem_singleton.mp hf
    exact ⟨s, rfl, hnone.started hstarted⟩
  · rintro c hc
    rcases List.mem_append.mp hc with hc | hc
    · exact hsafe.unretired c hc
    · obtain rfl := List.mem_singleton.mp hc
      exact hd.unretired
  · have hvisible := hret.visible
    rw [hd.unretired] at hvisible
    cases hvisible
  · rintro c hc hmethod
    rcases List.mem_append.mp hc with hc | hc
    · exact absurd (by simp [hmethod]) (List.countP_eq_zero.mp hunsent c hc)
    · obtain rfl := List.mem_singleton.mp hc
      rfl

theorem rawReply_get {key : String} (h₁ : key ≠ "lastNativeMethod")
    (h₂ : key ≠ "lastNativeHttpStatus") (h₃ : key ≠ "lastNativeResponseBase64") (method : String)
    (reply : LoginReply) (s : Keyed) : (rawReply method reply s).get key = s.get key := by
  rw [rawReply, Keyed.get_set_of_ne _ h₃, Keyed.get_set_of_ne _ h₂, Keyed.get_set_of_ne _ h₁]

theorem rawReply_holds (reply : LoginReply) (s : Keyed) :
    Holds (rawReply tokenMethod reply s) reply := by
  refine ⟨?_, ?_⟩
  · rw [rawReply, Keyed.str, Keyed.get_set_of_ne _ (by decide), Keyed.get_set_of_ne _ (by decide),
      Keyed.get_set_same]
    rfl
  · rw [rawReply, Keyed.str, Keyed.get_set_same]
    rfl

theorem resultOf_some {exception : Bool} {root j : Json}
    (h : (resultOf tokenMethod false exception root).1 = some j) :
    exception = false ∧ root.getObjectItemCaseSensitive "0" = some j := by
  unfold resultOf at h
  cases exception with
  | true => cases h
  | false =>
    dsimp only at h
    cases herror : root.getObjectItemCaseSensitive "1" with
    | some error =>
      rw [herror] at h
      cases h
    | none =>
      rw [herror] at h
      have hmethod : tokenMethod ≠ "verifyCertificate" := by decide
      exact ⟨rfl, by simpa [hmethod] using h⟩

/-- The result of the token request is used only when its reply is saved. -/
theorem ensures_call {s : Keyed} (hd : d.Fresh) (hs : d.session = { visible := .object s })
    (hstarted : s.isTrue "nativeTokenRequestStarted" = true) (hnone : NoToken s) :
    (call decode tokenMethod false s).Ensures (loginRules decode evp) (fun r d' => ∀ j ∈ r.result,
      ∃ reply, Requested r.state reply d' ∧ Holds r.state reply ∧
        resultIn decode reply.body = some j) d := by
  unfold call
  refine ensures_look (fun _ => rfl) fun _ _ => ?_
  split
  · exact .pure fun _ hj => nomatch hj
  split
  · exact .pure fun _ hj => nomatch hj
  refine ensures_look (fun _ => rfl) fun _ _ => ?_
  split
  · exact .pure fun _ hj => nomatch hj
  refine (ensures_perform hd hs hstarted hnone).bind fun reply d hreq => ?_
  refine ensures_look (fun _ => rfl) fun _ _ => ?_
  split
  · exact .pure fun _ hj => nomatch hj
  -- The session has the raw reply from here on.
  have hheld := rawReply_holds reply s
  have hnone' := noToken_rawReply hnone tokenMethod reply
  have hstarted' : Started decode evp (rawReply tokenMethod reply s) := by
    refine hnone'.started ?_
    rw [Keyed.isTrue, rawReply_get (by decide) (by decide) (by decide)]
    exact hstarted
  refine (ensures_write (hreq.mayReplace hstarted' hheld)).bind fun ok d' hd' => ?_
  cases ok with
  | false => exact .pure fun _ hj => nomatch hj
  | true =>
    have hreq' : Requested (rawReply tokenMethod reply s) reply d' :=
      ⟨hd'.2.2 rfl, fun c hc => hreq.reply c (hd'.1 ▸ hc), hstarted'.started, hnone'⟩
    simp only [Bool.not_true, Bool.false_eq_true, if_false]
    split
    · exact .pure fun _ hj => nomatch hj
    cases hwire : decodeWire decode tokenMethod reply.body with
    | none => exact .pure fun _ hj => nomatch hj
    | some wire =>
      have hsame := (SameRequest.refl (rawReply tokenMethod reply s)).set
        (by decide : "lastNativeResponse" ∉ requestKeys) wire.2
      have hmade := hsame.started hstarted'
      refine (ensures_write (hreq'.mayReplace hmade (hsame.holds hheld))).bind
        fun ok d'' hd'' => ?_
      cases ok with
      | false => exact .pure fun _ hj => nomatch hj
      | true =>
        refine .pure fun j hj => ⟨reply, ⟨hd''.2.2 rfl, fun c hc => hreq'.reply c (hd''.1 ▸ hc),
          hmade.started, (hsame.str (by decide)).trans hnone'⟩, hsame.holds hheld, ?_⟩
        obtain ⟨hexception, hresult⟩ := resultOf_some hj
        rw [resultIn, hwire]
        obtain ⟨exception, root⟩ := wire
        obtain rfl : exception = false := hexception
        exact hresult

/-- The keychain changes nothing that the request needs. -/
theorem ensures_unwrapKeys {s : Keyed} {reply : LoginReply} {result : Json}
    (hs : d.session = { visible := .object s }) (hstarted : Started decode evp s)
    (hreply : ∀ c ∈ d.calls, c.method = tokenMethod → c.reply = reply) (hheld : Holds s reply)
    (htoken : (s.str "accessToken").isSome) :
    (unwrapKeys result s).Ensures (loginRules decode evp)
      (fun ok d' => Delivers decode (.run, ok) d') d := by
  have hkeep : Delivers decode (.run, true) d :=
    delivers_of_visible (by rw [hs]) (fun _ => hstarted) htoken
  unfold unwrapKeys
  dsimp only
  split
  · exact .pure hkeep
  refine ensures_look (fun _ => rfl) fun _ _ => ?_
  split
  · exact .pure hkeep
  split
  · exact .pure hkeep
  split
  · exact .pure hkeep
  refine ensures_look (fun _ => rfl) fun o _ => ?_
  cases o.unwrapped with
  | none => exact .pure hkeep
  | some unwrapped =>
    have hsame := (((SameRequest.refl s).set (by decide : "e2eeKeys" ∉ requestKeys)
      unwrapped.keys).setOpt (by decide : "workerRestoreState" ∉ requestKeys)
      unwrapped.workerRestoreState).copyField (by decide : "e2eeLatestKeyId" ∉ requestKeys)
      (result.getObjectItemCaseSensitive "10") "keyId"
    have hmade := hsame.started hstarted
    refine (ensures_write fun _ => ⟨hmade, fun c hc hmethod _ _ _ => ?_⟩).mono fun ok d' hd' => ?_
    · rw [hreply c hc hmethod]
      exact hsame.holds hheld
    · cases ok with
      | false => exact delivers_false
      | true =>
        refine delivers_of_visible (by rw [hd'.2.2 rfl]) (fun _ => hmade) ?_
        rw [hsame.str (by decide)]
        exact htoken

theorem ensures_requestToken {s : Keyed} (hd : d.Fresh) (hnone : NoToken s) :
    (requestToken decode s).Ensures (loginRules decode evp)
      (fun ok d' => Delivers decode (.run, ok) d') d := by
  unfold requestToken
  refine ensures_look (fun _ => rfl) fun _ _ => ?_
  split
  · exact .pure delivers_false
  have hnone' : NoToken (s.set "nativeTokenRequestStarted" (.bool true)) := hnone.set (by decide) _
  have hstarted : (s.set "nativeTokenRequestStarted" (.bool true)).isTrue
      "nativeTokenRequestStarted" = true := by
    rw [Keyed.isTrue, Keyed.get_set_same]
    rfl
  refine (ensures_write fun hsent => absurd hd.unsent hsent).bind fun ok d' hd' => ?_
  cases ok with
  | false => exact .pure delivers_false
  | true =>
    have hfresh : d'.Fresh := by
      refine ⟨?_, ?_⟩
      · rw [tokenRequests, hd'.1]
        exact hd.unsent
      · rw [hd'.2.1]
        exact hd.unretired
    refine ((ensures_call hfresh (hd'.2.2 rfl) hstarted hnone').bind fun r d hr => .pure ?_).bind
      (Q := fun e d => ∀ p ∈ e, ∃ reply, Requested p.1 reply d ∧ Holds p.1 reply ∧
        resultIn decode reply.body = some p.2) fun e d he => ?_
    · rintro p hp
      obtain ⟨j, hj, rfl⟩ := Option.map_eq_some_iff.mp hp
      exact hr j hj
    cases e with
    | none => exact .pure delivers_false
    | some p =>
      obtain ⟨reply, hreq, hheld, hresult⟩ := he p rfl
      have hsaved : savedResult decode evp p.1 = some p.2 := hheld.savedResult.trans hresult
      have hfields := loginFields_started hreq.noToken hreq.started hsaved
      refine (ensures_save (hreq.mayReplace hfields (loginFields_holds hheld p.2))).bind
        fun r d' hr => ?_
      cases r with
      | none => exact .pure delivers_false
      | some s' =>
        obtain ⟨rfl, hcalls, -, hsession⟩ := hr s' rfl
        dsimp only
        split
        · exact .pure delivers_false
        · rename_i htoken
          exact ensures_unwrapKeys hsession hfields
            (fun c hc => hreq.reply c (hcalls ▸ hc)) (loginFields_holds hheld p.2)
            (Option.isSome_iff_ne_none.mpr (by simpa using htoken))

/-! ## A run -/

/-- The session that a run goes on with is the file that is seen, or it starts anew where
there is none. -/
theorem ensures_openSession :
    openSession.Ensures (loginRules decode evp) (fun r d' => d' = d ∧ ∀ s ∈ r,
      d.session.visible = .object s ∨ (s = .empty ∧ d.session.visible = .missing)) d := by
  unfold openSession
  refine ensures_look (fun _ => rfl) fun o ho => ?_
  cases hread : if o.readFails then none else d.session.visible.parsed with
  | some s =>
    refine .pure ⟨rfl, fun s' hs' => .inl ?_⟩
    obtain rfl : s = some s' := hs'
    split at hread
    · cases hread
    · unfold LoginFile.parsed at hread
      split at hread
      · rename_i root hvisible
        obtain rfl := Option.some.inj (Option.some.inj hread)
        exact hvisible
      · cases hread
      · cases hread
  | none =>
    refine ensures_look (fun _ => rfl) fun o ho => ?_
    dsimp only
    rw [ho]
    cases hvisible : d.session.visible with
    | missing =>
      refine .pure ⟨rfl, fun s hs => .inr ⟨(Option.some.inj hs).symm, rfl⟩⟩
    | garbled | value | object _ => exact .pure ⟨rfl, fun _ hs => nomatch hs⟩

theorem ensures_resume {s : Keyed} (hsafe : d.Safe decode evp) (hret : d.retired.visible = false)
    (hs : d.session.visible = .object s ∨ (s = .empty ∧ d.session.visible = .missing)) :
    (resume decode evp s).Ensures (loginRules decode evp)
      (fun ok d' => Delivers decode (.run, ok) d') d := by
  have hseen : d.tokenRequests ≠ 0 → d.session.visible = .object s ∧ Started decode evp s := by
    intro hsent
    obtain ⟨s', hs', hstarted⟩ := (hsafe.session hsent).visible
    rcases hs with hs | ⟨-, hmissing⟩
    · obtain rfl : s = s' := LoginFile.object.inj (hs.symm.trans hs')
      exact ⟨hs, hstarted⟩
    · cases hs'.symm.trans hmissing
  unfold resume
  split
  · rename_i htoken
    refine .pure fun h token hreply => ?_
    exact delivers_of_visible (hseen hreply.sent).1 (fun hsent => (hseen hsent).2) htoken h token
      hreply
  rename_i htoken
  have hnone : NoToken s := by
    unfold NoToken
    simpa using htoken
  split
  · rename_i hstarted
    rcases hs with hs | ⟨rfl, -⟩
    · exact ensures_recoverLoginReply hs hnone hstarted
    · cases hstarted
  · rename_i hunstarted
    have hfresh : d.Fresh := by
      refine ⟨?_, hret⟩
      by_contra hsent
      exact hunstarted (hseen hsent).2.started
    refine (ensures_of_quiet (quiet_handshake hnone) hfresh).bind fun r d' hr => ?_
    cases r with
    | none => exact .pure delivers_false
    | some s' => exact ensures_requestToken hr.2 (hr.1 s' rfl)

theorem ensures_run (hsafe : d.Safe decode evp) : (run decode evp).Ensures (loginRules decode evp)
    (fun ok d' => Delivers decode (.run, ok) d') d := by
  unfold run
  refine ensures_look (fun _ => rfl) fun o ho => ?_
  dsimp only
  rw [ho]
  cases hret : d.retired.visible with
  | true => exact .pure delivers_false
  | false =>
    refine ensures_openSession.bind fun r d' hr => ?_
    obtain ⟨rfl, hs⟩ := hr
    cases r with
    | none => exact .pure delivers_false
    | some s => exact ensures_resume hsafe hret (hs s rfl)

end Login

/-! ## All runs -/

theorem nativeLogins_keeps (decode : DecodeRaw) (evp : Evp) :
    (nativeLogins decode evp).Keeps (loginRules decode evp) (fun _ _ => True)
      (Delivers decode) where
  call t d hsafe := by
    cases t with
    | run => exact (Login.ensures_run hsafe).bind fun _ _ h => .pure h
    | retire =>
      refine .bind (Q := fun _ _ => True) (Login.ensures_op fun hsafe o _ => ?_)
        fun _ _ _ => .pure fun h => nomatch h
      exact ⟨⟨hsafe.once, hsafe.session, hsafe.unretired⟩,
        ⟨List.prefix_rfl, fun _ hreply => ⟨hreply, rfl⟩,
          fun hret => ⟨Disk.Holds.write hret rfl _, rfl⟩⟩, trivial⟩
  others e := nomatch e
  crash x d hsafe := by
    refine ⟨⟨hsafe.once, fun hsent => (hsafe.session hsent).crash _, hsafe.unretired⟩,
      ⟨List.prefix_rfl, fun token hreply => ⟨?_, rfl⟩, fun hret => ⟨Disk.Holds.crash hret _, rfl⟩⟩⟩
    obtain ⟨c, hc, hmethod, htoken, hheld⟩ := hreply
    exact ⟨c, hc, hmethod, htoken, hheld.crash _⟩

abbrev LoginMove := Move LoginOutcome LoginTask Empty LoginCrash

abbrev LoginRun := Running LoginDir LoginOutcome (LoginTask × Bool)

/-- Whether `access` finds the files that are there. -/
def findsFiles : LoginMove → Bool
  | .go o => !o.accessFails
  | _ => true

/-- What a login directory promises in every run: the request for the tokens is sent once, no
request is sent from a retired directory, and once the reply with the token lasts, nothing is
sent and every run that succeeds leaves its token. -/
structure IssuesOnce (decode : DecodeRaw) (st st' : LoginRun) : Prop where
  once : st'.world.tokenRequests ≤ 1
  unretired : ∀ c ∈ st'.world.calls, c.retired = false
  retired : st.world.Retired → st'.world.calls = st.world.calls
  silent : ∀ token, st.world.HasReply decode token → st'.world.calls = st.world.calls
  delivers : ∀ token, st.world.HasReply decode token →
    ∃ ended, st'.ended = ended ++ st.ended ∧ ∀ e ∈ ended, e.1 = (.run, true) →
      ∃ s, e.2.session.visible = .object s ∧ s.str "accessToken" = some token

theorem run_under {decode : DecodeRaw} {evp : Evp} {moves : List LoginMove} {st st' : LoginRun}
    (hmoves : ∀ m ∈ moves, findsFiles m = true)
    (hst : st.Under (loginRules decode evp) (Delivers decode))
    (h : (nativeLogins decode evp).machine.run st moves = some st') :
    st'.Under (loginRules decode evp) (Delivers decode) ∧
      st.Later (loginRules decode evp) (Delivers decode) st' := by
  refine System.run_ensures (nativeLogins_keeps decode evp) hst (.of_forall (fun m hm st => ?_) st)
    h
  cases m with
  | go o =>
    show o.accessFails = false
    simpa [findsFiles] using hmoves _ hm
  | call _ | crash _ => trivial
  | others e => nomatch e

/-- Through every run in which `access` finds the files that are there, the credentials of a
login directory are issued once. -/
theorem issuesOnce (decode : DecodeRaw) (evp : Evp) {dir : LoginDir} (hdir : dir.calls = [])
    {moves later : List LoginMove} (hfinds : ∀ m ∈ moves ++ later, findsFiles m = true)
    {st st' : LoginRun} (h : (nativeLogins decode evp).machine.run { world := dir } moves = some st)
    (h' : (nativeLogins decode evp).machine.run st later = some st') :
    IssuesOnce decode st st' := by
  have hsafe : dir.Safe decode evp := by
    refine ⟨?_, fun hsent => absurd ?_ hsent, fun c hc => ?_⟩
    · rw [tokenRequests, hdir]
      exact Nat.zero_le 1
    · rw [tokenRequests, hdir]
      rfl
    · rw [hdir] at hc
      cases hc
  have hstart : Running.Under (loginRules decode evp) (Delivers decode) { world := dir } :=
    ⟨hsafe, fun p hp => nomatch hp⟩
  obtain ⟨hst, -⟩ := run_under (fun m hm => hfinds m (List.mem_append_left _ hm)) hstart h
  obtain ⟨hst', hlater⟩ := run_under (fun m hm => hfinds m (List.mem_append_right _ hm)) hst h'
  have hfollows : st.world.Follows decode st'.world := hlater.guar
  refine ⟨hst'.inv.once, hst'.inv.unretired, fun hret => (hfollows.retired hret).2,
    fun token hreply => (hfollows.reply token hreply).2, fun token hreply => ?_⟩
  obtain ⟨ended, heq, hended⟩ := hlater.ended
  refine ⟨ended, heq, fun e he hrun => ?_⟩
  obtain ⟨hdelivers, hbetween⟩ := hended e he
  have hreply' : e.2.HasReply decode token := (Follows.reply hbetween token hreply).1
  exact hdelivers hrun token hreply'

/-! ## Two runs of a directory -/

/-- A server that answers every request of the handshake, and issues `token-1`. -/
def answers : DecodeRaw := fun _ _ => some (false, .obj [("0", .obj [("1", .str "x"),
  ("4", .str "x"), ("3", .obj [("1", .str "token-1")])])])

/-- Nothing fails. -/
def smooth : LoginOutcome := { reply := { body := [1] }, keys := some ⟨"key", 1, none⟩ }

def emptyLogin : LoginDir := { session := { visible := .missing } }

/-- A run that crashes when the raw reply is saved, and one that recovers its token. -/
theorem issuesOnce_recovered : ∃ st st' : LoginRun,
    (nativeLogins answers Evp.groups).machine.run { world := emptyLogin }
      (.call .run :: List.replicate 47 (.go smooth)) = some st ∧
    (nativeLogins answers Evp.groups).machine.run st
      [.crash {}, .call .run, .go smooth, .go smooth, .go smooth] = some st' ∧
    st'.ended.map Prod.fst = [(.run, true)] ∧ IssuesOnce answers st st' := by
  have hrun : ((nativeLogins answers Evp.groups).machine.run { world := emptyLogin }
      (.call .run :: List.replicate 47 (.go smooth))).bind (fun st =>
        ((nativeLogins answers Evp.groups).machine.run st
          [.crash {}, .call .run, .go smooth, .go smooth, .go smooth]).map fun st' =>
            st'.ended.map Prod.fst) = some [(.run, true)] := by
    decide
  obtain ⟨st, hst, hrest⟩ := Option.bind_eq_some_iff.mp hrun
  obtain ⟨st', hst', hended⟩ := Option.map_eq_some_iff.mp hrest
  exact ⟨st, st', hst, hst', hended, issuesOnce answers Evp.groups rfl (by decide) hst hst'⟩

/-- `access` fails on the session of a login whose token was requested: the next run takes it
for a new login and requests a token again. -/
theorem issued_twice : ¬ ∀ (decode : DecodeRaw) (evp : Evp) (dir : LoginDir)
    (moves later : List LoginMove) (st st' : LoginRun), dir.calls = [] →
    (nativeLogins decode evp).machine.run { world := dir } moves = some st →
    (nativeLogins decode evp).machine.run st later = some st' → IssuesOnce decode st st' := by
  intro hall
  have hrun : ((nativeLogins answers Evp.groups).machine.run { world := emptyLogin }
      (.call .run :: List.replicate 45 (.go smooth))).bind (fun st =>
        ((nativeLogins answers Evp.groups).machine.run st
          ([.crash {}, .call .run, .go smooth, .go { smooth with readFails := true },
            .go { smooth with accessFails := true }] ++ List.replicate 42 (.go smooth))).map
              fun st' => st'.world.tokenRequests) = some 2 := by
    decide
  obtain ⟨st, hst, hrest⟩ := Option.bind_eq_some_iff.mp hrun
  obtain ⟨st', hst', htwo⟩ := Option.map_eq_some_iff.mp hrest
  have honce := (hall _ _ _ _ _ st st' rfl hst hst').once
  omega

end Enil
