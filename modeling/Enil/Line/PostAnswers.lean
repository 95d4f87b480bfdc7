import Enil.Line.NativeWire

/-!
# What the calls answer

A reply that a call of the native client hands on is one of the login that is still there, and
a call that was rejected leaves its account in the failed state, whatever the others did in the
meantime.
-/

namespace Enil

open Lib

variable {A : Type}

/-- The login that is bound is the one of the session, with a token. -/
def Network.Current (w : Network A) (a : A) (b : Binding) : Prop :=
  ∃ root token, w.session a = some root ∧ b.isMatch root = true ∧
    root.get "accessToken" = some (.str token) ∧ token ≠ ""

structure Network.Answered (p : LinePost A) (r : LineResponse) (w : Network A) : Prop where
  current : ∀ a b, p.bound = .login a b → b.identity.transport = "native-thrift" →
    p.path ≠ "/api/auth/tokenRefresh" → methodOf p.path ≠ some "refresh" →
    r.status = 200 → r.body.isSome = true → w.Current a b
  rejected : ∀ a, p.health = some a → r.status = 401 ∨ r.status = 403 → w.lineFailed a = true

namespace Posting

def anything : Rules (Network A) PostOutcome where
  inv _ := True
  rely _ _ := True
  rely_refl _ := trivial
  rely_trans _ _ := trivial
  guar _ _ := True
  guar_refl _ := trivial
  guar_trans _ _ := trivial
  ok _ := True

/-- From anywhere the program ends where `Q` holds. -/
abbrev Ends {α : Type} (Q : α → Network A → Prop) (p : Posting A α) : Prop :=
  ∀ w, p.Ensures anything Q w

variable {α β : Type} {Q : α → Network A → Prop} {Q' : β → Network A → Prop}

theorem ends_true (p : Posting A α) : Ends (fun _ _ => True) p := by
  induction p with
  | pure a => exact fun _ => trivial
  | step act next ih => exact fun _ w₁ _ _ o w₂ _ _ => ⟨trivial, trivial, ih o w₁ w₂⟩

theorem ends_pure {a : α} (h : ∀ w, Q a w) : Ends Q (Pure.pure a : Posting A α) := h

theorem ends_op {f : PostOutcome → Network A → α × Network A}
    (h : ∀ o w, Q (f o w).1 (f o w).2) : Ends Q (Prog.op f) :=
  fun _ => .op fun w _ _ o _ => ⟨trivial, trivial, h o w⟩

/-- What went before is no matter. -/
theorem ends_bind {p : Posting A α} {f : α → Posting A β} (hf : ∀ a, Ends Q' (f a)) :
    Ends Q' (p >>= f) := fun w => (ends_true p w).bind fun a w' _ => hf a w'

theorem ends_ite {c : Prop} [Decidable c] {p q : Posting A α} (hp : c → Ends Q p)
    (hq : ¬c → Ends Q q) : Ends Q (if c then p else q) := by
  split
  · exact hp ‹_›
  · exact hq ‹_›

variable {p : LinePost A} {w : Network A}

/-- An answer that rejects nothing. -/
theorem answered_of {status : Int} {body : Option String} (h : ¬(status = 401 ∨ status = 403))
    (hcurrent : status = 200 → body.isSome = true → ∀ a b, p.bound = .login a b →
      b.identity.transport = "native-thrift" → p.path ≠ "/api/auth/tokenRefresh" →
      methodOf p.path ≠ some "refresh" → w.Current a b) : Network.Answered p ⟨status, body⟩ w :=
  ⟨fun a b hb ht hp hm hs hbody => hcurrent hs hbody a b hb ht hp hm,
    fun _ _ hstatus => absurd hstatus h⟩

/-- An answer with no body. -/
theorem answered_bare {status : Int} (h : ¬(status = 401 ∨ status = 403)) :
    Network.Answered p ⟨status, none⟩ w := answered_of h fun _ hbody => nomatch hbody

theorem answered_empty : Network.Answered p .empty w := answered_bare (by omega)

variable [DecidableEq A]

theorem ends_failed {r : LineResponse} (hbody : r.status = 200 → r.body = none) :
    Ends (Network.Answered p) (do
      lineSetFailure p.health
      return r) := by
  intro w
  refine Prog.Ensures.bind (Q := fun _ w => ∀ a, p.health = some a → w.lineFailed a = true) ?_
    fun _ w hfailed => ⟨fun _ _ _ _ _ _ hs hb => ?_, fun a ha _ => hfailed a ha⟩
  · refine ends_op (fun o w a ha => ?_) w
    rw [ha]
    exact if_pos rfl
  · rw [hbody hs] at hb
    cases hb

theorem ends_finish {r : LineResponse} (hbody : r.body = none) :
    Ends (Network.Answered p) (finish p r) := by
  obtain ⟨status, body⟩ := r
  obtain rfl : body = none := hbody
  refine ends_ite (fun _ => ends_failed fun _ => rfl) fun h => ?_
  exact ends_pure fun w => answered_bare h

/-! ## The gateway -/

theorem isGatewayFailure_of_rejected {path : String} {status : Int}
    (h : status = 401 ∨ status = 403) : isGatewayFailure path status = true := by
  rcases h with rfl | rfl <;> simp [isGatewayFailure]

theorem ends_gatewayReply (r : Performed)
    (hbound : ∀ a b, p.bound = .login a b → b.identity.transport ≠ "native-thrift") :
    Ends (Network.Answered p) (gatewayReply p r) := by
  have hother : ∀ (body : Option String) (w : Network A),
      ¬(r.status = 401 ∨ r.status = 403) → Network.Answered p ⟨r.status, body⟩ w :=
    fun body w h => ⟨fun a b hb ht => absurd ht (hbound a b hb), fun _ _ hs => absurd hs h⟩
  refine ends_ite (fun _ => ends_ite (fun _ => ?_) fun _ => ?_) fun _ =>
    ends_ite (fun hfail => ?_) fun hfail => ?_
  · exact ends_failed fun h => nomatch h
  · exact ends_pure fun w => answered_empty
  · have hrefusal : isGatewayRefusal p.path r.status = true := by
      rw [isGatewayRefusal, hfail, Bool.true_or]
    rw [if_pos hrefusal]
    exact ends_failed fun _ => rfl
  · have hstatus : ¬(r.status = 401 ∨ r.status = 403) :=
      fun h => hfail (isGatewayFailure_of_rejected h)
    exact ends_ite (fun _ => ends_pure fun w => hother _ w hstatus)
      fun _ => ends_pure fun w => hother _ w hstatus

/-! ## The native client -/

/-- A call is a refresh by its path alone. -/
theorem nativeCall_method {path : String} {args : Thrift.Item} {c : NativeCall}
    (h : nativeCall path args = some c) (hpath : path ≠ "/api/auth/tokenRefresh")
    (hmethod : methodOf path ≠ some "refresh") : c.method ≠ "refresh" := by
  obtain ⟨method, hm, h⟩ := Option.bind_eq_some_iff.mp h
  obtain ⟨c₁, h₁, h⟩ := Option.bind_eq_some_iff.mp h
  obtain ⟨c₂, h₂, h₃⟩ := Option.bind_eq_some_iff.mp h
  have hne : method ≠ "refresh" := fun he => hmethod (he ▸ hm)
  have hm₁ : c₁.method = method := by
    unfold routeCall at h₁
    rw [if_neg hpath] at h₁
    split_ifs at h₁ <;> (obtain rfl := Option.some.inj h₁; rfl)
  have hm₂ : c₂.method ≠ "refresh" := by
    unfold adaptContacts at h₂
    split at h₂
    · split at h₂
      · obtain rfl := Option.some.inj h₂
        show "getContacts" ≠ "refresh"
        decide
      · cases h₂
    · obtain rfl := Option.some.inj h₂
      rwa [hm₁]
  unfold adaptChatRemoved at h₃
  split at h₃
  · split at h₃
    · obtain rfl := Option.some.inj h₃
      exact hm₂
    · cases h₃
  · obtain rfl := Option.some.inj h₃
    exact hm₂

variable {k : Codec}

omit [DecidableEq A] in
theorem ends_currentLogin (b : Bound A) : Ends (fun ok w => ok = true →
    ∀ a c, b = .login a c → w.Current a c) (currentLogin b) := by
  cases b with
  | nothing => exact ends_pure fun w _ a c h => nomatch h
  | identity i => exact ends_pure fun w _ a c h => nomatch h
  | login a c =>
    intro w
    refine Prog.Ensures.bind (Q := fun t w => t.isSome = true → w.Current a c) ?_
      fun t w ht => fun ok a' c' h => ?_
    · refine ends_op (fun o w hsome => ?_) w
      obtain ⟨t, ht⟩ := Option.isSome_iff_exists.mp hsome
      obtain ⟨root, hroot, h⟩ := Option.bind_eq_some_iff.mp ht
      have hsession : w.session a = some root := by
        split at hroot
        · exact hroot
        · cases hroot
      split at h
      · rename_i hmatch
        split at h
        · rename_i token htoken
          split at h
          · cases h
          · rename_i hne
            exact ⟨root, token, hsession, hmatch, htoken, hne⟩
        · cases h
      · cases h
    · obtain ⟨rfl, rfl⟩ := Bound.login.inj h
      exact ht ok

/-- The read of a reply, where the login was looked at. -/
theorem ensures_readReply {c : NativeCall} {bytes : List UInt8}
    (h : ∀ a b, p.bound = .login a b → b.identity.transport = "native-thrift" →
      p.path ≠ "/api/auth/tokenRefresh" → methodOf p.path ≠ some "refresh" → w.Current a b) :
    (readReply k p c bytes).Ensures anything (Network.Answered p) w := by
  unfold readReply
  split
  · exact answered_bare (by omega)
  · split
    · have h400 : (400 : Int) ≠ 200 := by omega
      refine ends_ite (fun _ => ends_failed fun hs => absurd hs h400) (fun _ => ends_pure ?_) w
      exact fun w => answered_of (by omega) fun hs => absurd hs h400
    · exact answered_of (by omega) fun _ _ => h

theorem ends_nativeReply {args : Thrift.Item} {c : NativeCall}
    (hcall : nativeCall p.path args = some c) (bytes : List UInt8) :
    Ends (Network.Answered p) (nativeReply k p c bytes) := by
  refine ends_ite (fun _ w => ?_) fun hrefresh w => ?_
  · refine (ends_currentLogin p.bound w).bind fun ok w hok => ?_
    split
    · exact answered_bare (by omega)
    · rename_i hnot
      have hok' : ok = true := by simpa using hnot
      exact ensures_readReply fun a b hb _ _ _ => hok hok' a b hb
  · refine ensures_readReply fun a b hb _ hpath hmethod => ?_
    exact absurd (not_not.mp hrefresh) (nativeCall_method hcall hpath hmethod)

theorem ends_nativeSend {args : Thrift.Item} {c : NativeCall}
    (hcall : nativeCall p.path args = some c) (identity : Identity) (token : String)
    (s : Sealed) : Ends (Network.Answered p) (nativeSend k p identity token c s) := by
  refine ends_bind fun ok => ends_ite (fun _ => ends_pure fun w => answered_empty) fun _ => ?_
  refine ends_bind fun ok => ends_ite (fun _ => ends_pure fun w => answered_empty) fun _ => ?_
  refine ends_bind fun r => ends_ite (fun _ => ends_finish rfl) fun _ =>
    ends_ite (fun _ => ends_finish rfl) fun _ => ends_bind fun opened => ?_
  cases opened with
  | error status => exact ends_finish rfl
  | ok bytes => exact ends_nativeReply hcall bytes

theorem ends_nativePost (identity : Identity) :
    Ends (Network.Answered p) (nativePost k p identity) := by
  refine ends_bind fun c => ends_ite (fun _ => ends_pure fun w => answered_empty) fun _ => ?_
  refine ends_bind fun bound => ?_
  cases bound with
  | none => exact ends_pure fun w => answered_empty
  | some bound =>
    dsimp only
    split
    · exact ends_pure fun w => answered_empty
    · rename_i c hc
      obtain ⟨args, -, hcall⟩ := Option.bind_eq_some_iff.mp hc
      split
      · exact ends_pure fun w => answered_empty
      · refine ends_bind fun s => ?_
        cases s with
        | none => exact ends_pure fun w => answered_empty
        | some s => exact ends_nativeSend hcall identity _ s

theorem ends_linePostEx : Ends (Network.Answered p) (linePostEx k p) := by
  unfold linePostEx
  cases hbound : p.bound.current with
  | none => exact ends_pure fun w => answered_empty
  | some identity =>
    refine ends_bind fun f => ends_ite (fun _ => ends_pure fun w => answered_empty) fun _ => ?_
    refine ends_ite (fun _ => ends_nativePost identity) fun hnative =>
      ends_ite (fun _ => ?_) fun _ => ends_pure fun w => answered_empty
    refine ends_bind fun hmac => ?_
    cases hmac with
    | none => exact ends_pure fun w => answered_empty
    | some hmac =>
      refine ends_bind fun ok => ends_ite (fun _ => ends_pure fun w => answered_empty) fun _ => ?_
      refine ends_bind fun r => ends_gatewayReply r fun a b hb ht => ?_
      rw [hb] at hbound
      obtain rfl := Option.some.inj hbound
      exact hnative ht

/-! ## Runs -/

/-- What holds of an answer of either kind. -/
def AnsweredBy (t : NetCall A) (r : NetAnswer) (w : Network A) : Prop :=
  ∀ p answer, t = .line p → r = .line answer → w.Answered p answer

theorem posts_keep : (posts A k).Keeps anything (fun _ _ => True) AnsweredBy where
  call t w _ := by
    cases t with
    | line p =>
      refine (ends_linePostEx w).bind fun r w h => ?_
      rintro p' answer ⟨⟩ ⟨⟩
      exact h
    | worker path payload cancel =>
      refine (ends_true _ w).mono fun r w _ => ?_
      rintro p answer ⟨⟩
  beside _ := trivial
  others _ _ _ _ _ _ := ⟨trivial, trivial⟩

/-- In every run of the calls of all accounts beside one another, the user and the other
writers of the sessions: a call of the native client that answers 200 with a body, and is no
refresh, ends where the session is still of the login it is bound to; and a call that answers
401 or 403 ends where its account is in the failed state. -/
theorem posts_answered {st st' : AtWork (Network A) PostOutcome (NetCall A) NetAnswer}
    (hcalls : st.calls = []) (hended : st.ended = []) {ms : List (NetTurn A)}
    (hrun : (posts A k).machine.run st ms = some st') {p : LinePost A} {r : LineResponse}
    {w : Network A} (hmem : (.line p, .line r, w) ∈ st'.ended) : w.Answered p r := by
  have hstart : Crew.Under anything AnsweredBy st :=
    ⟨trivial, by simp [hcalls], by simp [hended]⟩
  have hms : (posts A k).machine.Meets (Crew.Allowed anything fun _ _ => True) st ms :=
    .of_forall (fun m _ st => by cases m <;> trivial) st
  exact (Crew.run_ensures posts_keep hstart hms hrun).ended _ hmem p r rfl rfl

theorem answerOf_ids : answerOf idsCodec idsNativeCall
    (some (.obj [(utf8 "success", .arr [.str [117, 49]])])) = ⟨200, some ""⟩ := by
  have hne : utf8 "success" ≠ utf8 "e" := fun h => absurd (utf8_injective h) (by decide)
  have hexception : Thrift.Item.get "e" (.obj [(utf8 "success", .arr [.str [117, 49]])]) = none := by
    simp [Thrift.Item.get, hne]
  unfold answerOf
  dsimp only
  rw [hexception]
  simp [replyData, Thrift.Item.get, idsNativeCall, idsCodec]

/-- A call of the native client that is answered, alone. -/
theorem run_idsPost : ∃ ms w, (posts Bool idsCodec).machine.run { world := idsNetwork } ms =
    some { world := w, ended := [(.line idsPost, .line ⟨200, some ""⟩, w)] } := by
  obtain ⟨e, hitem⟩ := exists_idsExchange
  have hready : idsNetwork.Ready idsPost true idsBinding idsFile "access-1" :=
    ⟨rfl, rfl, rfl, rfl, rfl, by decide, rfl, by decide⟩
  have hargs : idsCodec.cj.parse idsPost.body = some (.arr [.num 3]) := rfl
  have hcall : nativeCall idsPost.path (Json.arr [.num 3]).toItem = some idsNativeCall := by rfl
  have hhead : "access-1".toList.head? ≠ some '\uFEFF' := by decide
  obtain ⟨bytes, hbody, -⟩ := e.opens hhead
  have hend := upTo_exchange hready rfl rfl rfl rfl hargs hcall rfl schemaOk_idsCallSource e hbody
  rw [hitem, answerOf_ids] at hend
  obtain ⟨n, hrun⟩ := Crew.run_alone (S := posts Bool idsCodec) (t := .line idsPost)
    (r := .line ⟨200, some ""⟩) { world := idsNetwork } rfl (Prog.upTo_bind_pure hend)
  exact ⟨_, _, hrun⟩

/-- A call of the gateway that was refused, and one of the native client with its answer. -/
theorem posts_answered_refused :
    (∃ w, (NetCall.line gatewayPost, NetAnswer.line ⟨401, none⟩, w) ∈ refusedState.ended ∧
      Network.Answered gatewayPost ⟨401, none⟩ w) ∧
    ∃ ms st w, (posts Bool idsCodec).machine.run { world := idsNetwork } ms = some st ∧
      (NetCall.line idsPost, NetAnswer.line ⟨200, some ""⟩, w) ∈ st.ended ∧
      w.Current true idsBinding := by
  have hrun : (posts Bool signCodec).machine.run gatewayStart refusedMoves = some refusedState :=
    (Option.some_get _).symm
  have hmem : (NetCall.line gatewayPost, NetAnswer.line ⟨401, none⟩,
      (refusedState.ended.head (by decide)).2.2) ∈ refusedState.ended :=
    List.mem_of_getElem? (i := 0) rfl
  refine ⟨⟨_, hmem, posts_answered rfl rfl hrun hmem⟩, ?_⟩
  obtain ⟨ms, w, hrun⟩ := run_idsPost
  have hmem := List.mem_singleton_self
    ((.line idsPost, .line ⟨200, some ""⟩, w) : NetCall Bool × NetAnswer × Network Bool)
  have hmethod : methodOf idsPost.path ≠ some "refresh" := by decide
  exact ⟨ms, _, w, hrun, hmem, (posts_answered rfl rfl hrun hmem).current true idsBinding rfl rfl
    (by decide) hmethod rfl rfl⟩

end Posting

end Enil
