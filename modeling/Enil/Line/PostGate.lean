import Enil.Line.NativePost

/-!
# The gate

Every call looks at the health before it sends anything. So what is sent after a failure is
what was under way already: no more than one request for each call at work.
-/

namespace Enil

open Lib

namespace Posting

variable {A : Type} [DecidableEq A]

/-! ## What an operation may do -/

/-- The requests sent under the health of `a`. -/
def sentFor (a : A) (w : Network A) : List (WireRequest A) :=
  w.toLine.filter fun r => r.health == some a

/-- An operation for `h`: it sends to the worker and to LINE only where it may, of the other
accounts it leaves the state and sends nothing, and what has failed stays so. -/
structure Acts (h : Option A) (worker line : Bool)
    (act : PostOutcome → Network A → Option (Network A)) : Prop where
  toWorker : worker = false → ∀ o w w', act o w = some w' → w'.toWorker = w.toWorker
  toLine : line = false → ∀ o w w', act o w = some w' → w'.toLine = w.toLine
  others : ∀ b, h ≠ some b → ∀ o w w', act o w = some w' →
    w'.lineFailed b = w.lineFailed b ∧ sentFor b w' = sentFor b w
  lineFailed : ∀ b o w w', act o w = some w' → w.lineFailed b = true → w'.lineFailed b = true
  workerFailed : ∀ o w w', act o w = some w' → w.workerFailed = true → w'.workerFailed = true

/-- Programs of such operations. -/
abbrev Does (h : Option A) (worker line : Bool) {α : Type} (p : Posting A α) : Prop :=
  Prog.Only (Acts h worker line) (fun _ => True) p

variable {h : Option A} {worker line : Bool}

/-- An operation of which the parts are given for each outcome and world. -/
theorem does_op {α : Type} {f : PostOutcome → Network A → α × Network A}
    (toWorker : worker = false → ∀ o w, (f o w).2.toWorker = w.toWorker)
    (toLine : line = false → ∀ o w, (f o w).2.toLine = w.toLine)
    (others : ∀ b, h ≠ some b → ∀ o w, (f o w).2.lineFailed b = w.lineFailed b ∧
      sentFor b (f o w).2 = sentFor b w)
    (lineFailed : ∀ b o w, w.lineFailed b = true → (f o w).2.lineFailed b = true)
    (workerFailed : ∀ o w, w.workerFailed = true → (f o w).2.workerFailed = true) :
    Does h worker line (Prog.op f) := by
  refine .op ⟨fun hno o w w' hact => ?_, fun hno o w w' hact => ?_, fun b hb o w w' hact => ?_,
    fun b o w w' hact => ?_, fun o w w' hact => ?_⟩ fun _ _ => trivial
  all_goals obtain rfl := Option.some.inj hact
  · exact toWorker hno o w
  · exact toLine hno o w
  · exact others b hb o w
  · exact lineFailed b o w
  · exact workerFailed o w

/-- An operation that sends nothing and leaves the health. -/
theorem does_still {α : Type} {f : PostOutcome → Network A → α × Network A}
    (hf : ∀ o w, (f o w).2.toWorker = w.toWorker ∧ (f o w).2.toLine = w.toLine ∧
      (f o w).2.lineFailed = w.lineFailed ∧ (f o w).2.workerFailed = w.workerFailed) :
    Does h worker line (Prog.op f) := by
  refine does_op (fun _ o w => (hf o w).1) (fun _ o w => (hf o w).2.1) (fun b _ o w => ?_)
    (fun b o w hb => ?_) fun o w hw => (hf o w).2.2.2.trans hw
  · exact ⟨congrFun (hf o w).2.2.1 b, by rw [sentFor, sentFor, (hf o w).2.1]⟩
  · rw [(hf o w).2.2.1]
    exact hb

theorem does_isWorkerFailed : Does h worker line (isWorkerFailed : Posting A Bool) :=
  does_still fun _ _ => ⟨rfl, rfl, rfl, rfl⟩

theorem does_isLineFailed (h' : Option A) : Does h worker line (isLineFailed h') :=
  does_still fun _ _ => ⟨rfl, rfl, rfl, rfl⟩

theorem does_isCancelled (cancel : Bool) :
    Does h worker line (isCancelled cancel : Posting A Bool) :=
  does_still fun _ _ => ⟨rfl, rfl, rfl, rfl⟩

theorem does_attempt : Does h worker line (attempt : Posting A Bool) :=
  does_still fun _ _ => ⟨rfl, rfl, rfl, rfl⟩

theorem does_workerCredentialsCopy (path : String) :
    Does h worker line (workerCredentialsCopy path : Posting A (Option (String × String))) :=
  does_still fun _ _ => ⟨rfl, rfl, rfl, rfl⟩

theorem does_workerSetFailure : Does h worker line (workerSetFailure : Posting A Unit) :=
  does_op (fun _ _ _ => rfl) (fun _ _ _ => rfl) (fun _ _ _ _ => ⟨rfl, rfl⟩) (fun _ _ _ h => h)
    fun _ _ _ => rfl

theorem does_lineSetFailure : Does h worker line (lineSetFailure h) := by
  cases h with
  | none => exact does_still fun _ _ => ⟨rfl, rfl, rfl, rfl⟩
  | some a =>
    refine does_op (fun _ _ _ => rfl) (fun _ _ _ => rfl) (fun b hb o w => ⟨?_, rfl⟩)
      (fun b o w hb => ?_) fun _ _ hw => hw
    · exact if_neg fun hba => hb (congrArg some hba.symm)
    · show (if b = a then true else w.lineFailed b) = true
      rw [hb, ite_self]

theorem does_sendToWorker (r : WorkerRequest) :
    Does h true line (sendToWorker r : Posting A Performed) :=
  does_op (fun hno => Bool.noConfusion hno) (fun _ _ _ => rfl) (fun _ _ _ _ => ⟨rfl, rfl⟩)
    (fun _ _ _ h => h) fun _ _ h => h

theorem does_sendToLine {r : WireRequest A} (hr : r.health = h) :
    Does h worker true (sendToLine r) := by
  refine does_op (fun _ _ _ => rfl) (fun hno => Bool.noConfusion hno) (fun b hb o w => ⟨rfl, ?_⟩)
    (fun _ _ _ h => h) fun _ _ h => h
  show (w.toLine ++ [r]).filter _ = _
  rw [List.filter_append, List.filter_cons_of_neg (by simp [hr, hb]), List.filter_nil,
    List.append_nil]
  rfl

theorem does_pure {α : Type} (a : α) : Does h worker line (Pure.pure a : Posting A α) := trivial

theorem does_ite {α : Type} {c : Prop} [Decidable c] {p q : Posting A α}
    (hp : Does h worker line p) (hq : Does h worker line q) :
    Does h worker line (if c then p else q) := .ite (fun _ => hp) fun _ => hq

theorem does_bind {α β : Type} {p : Posting A α} {f : α → Posting A β}
    (hp : Does h worker line p) (hf : ∀ a, Does h worker line (f a)) :
    Does h worker line (p >>= f) := hp.bind fun a _ => hf a

/-! ## The programs -/

theorem does_sendPost (path jsonBody : String) (cancel : Bool) :
    Does h true line (sendPost path jsonBody cancel : Posting A (Option String)) := by
  refine does_bind (does_workerCredentialsCopy path) fun c => ?_
  rcases c with _ | ⟨url, secretHeader⟩
  · exact does_pure none
  refine does_bind does_attempt fun ok => does_ite (does_pure none) ?_
  refine does_bind (does_sendToWorker _) fun r => does_bind (does_isCancelled cancel) fun c => ?_
  refine does_ite (does_pure none) (does_ite ?_ (does_pure _))
  exact does_bind does_workerSetFailure fun _ => does_pure none

theorem does_workerPost (path jsonBody : String) (cancel : Bool) :
    Does h true line (workerPost path jsonBody cancel : Posting A (Option String)) := by
  refine does_bind (does_isCancelled cancel) fun c => does_ite (does_pure none) ?_
  refine does_bind does_isWorkerFailed fun f => does_ite (does_pure none) ?_
  exact does_sendPost path jsonBody cancel

theorem does_workerCall (cj : Cjson) (path : String) (payload : Json) (cancel : Bool) :
    Does h true line (workerCall cj path payload cancel : Posting A (Option Json)) :=
  does_bind (does_workerPost path _ cancel) fun _ => does_pure _

theorem does_workerSign (cj : Cjson) (path body accessToken : String) :
    Does h true line (workerSign cj path body accessToken : Posting A (Option String)) :=
  does_bind (does_workerCall cj _ _ _) fun _ => does_pure _

theorem does_gatewayReply (p : LinePost A) (r : Performed) :
    Does p.health worker line (gatewayReply p r) := by
  unfold gatewayReply
  refine does_ite ?_ ?_
  · exact does_ite (does_bind does_lineSetFailure fun _ => does_pure _) (does_pure _)
  · refine does_ite (does_bind does_lineSetFailure fun _ => ?_) ?_
    · exact does_ite (does_pure _) (does_pure _)
    · exact does_ite (does_pure _) (does_pure _)

theorem does_boundAccessToken (b : Bound A) :
    Does h worker line (boundAccessToken b : Posting A (Option (Option String))) := by
  cases b with
  | nothing => exact does_pure _
  | identity i => exact does_pure _
  | login a b => exact does_still fun _ _ => ⟨rfl, rfl, rfl, rfl⟩

theorem does_currentLogin (b : Bound A) : Does h worker line (currentLogin b) :=
  does_bind (does_boundAccessToken b) fun _ => does_pure _

theorem does_acceptNext (b : Bound A) (previous next : String) :
    Does h worker line (acceptNext b previous next) := by
  cases b with
  | nothing => exact does_pure _
  | identity i => exact does_pure _
  | login a b =>
    refine does_still fun o w => ?_
    dsimp only
    split
    · exact ⟨rfl, rfl, rfl, rfl⟩
    · exact ⟨rfl, rfl, rfl, rfl⟩

theorem does_finish (p : LinePost A) (r : LineResponse) : Does p.health worker line (finish p r) :=
  does_ite (does_bind does_lineSetFailure fun _ => does_pure r) (does_pure r)

variable (k : Codec)

theorem does_sealCall (p : LinePost A) (identity : Identity) (token : String) (c : NativeCall)
    (wire : List UInt8) : Does h true line (sealCall k p identity token c wire) := by
  refine does_ite ?_ (does_pure _)
  refine does_bind (does_workerCall k.cj _ _ _) fun encoded => ?_
  exact does_bind (does_isCancelled p.cancel) fun cancelled => does_ite (does_pure _) (does_pure _)

theorem does_openReply (p : LinePost A) (token : String) (key : Option String)
    (bytes : List UInt8) : Does p.health true line (openReply k p token key bytes) := by
  cases key with
  | none => exact does_pure _
  | some key =>
    refine does_bind (does_workerCall k.cj _ _ _) fun decoded => ?_
    cases decoded.bind (·.dupStringOpt "body") with
    | none => exact does_pure _
    | some body =>
      refine does_ite (does_pure _) (does_bind (does_currentLogin p.bound) fun c => ?_)
      refine does_ite (does_pure _) ?_
      cases (decoded.bind (·.getObjectItemCaseSensitive "headers")).bind
          (·.dupStringOpt "x-line-next-access") with
      | none => exact does_pure _
      | some next =>
        refine does_bind (does_acceptNext p.bound token next) fun c => ?_
        exact does_ite (does_bind does_lineSetFailure fun _ => does_pure _) (does_pure _)

theorem does_readReply (p : LinePost A) (c : NativeCall) (bytes : List UInt8) :
    Does p.health worker line (readReply k p c bytes) := by
  unfold readReply
  split
  · exact does_pure _
  · split
    · exact does_ite (does_bind does_lineSetFailure fun _ => does_pure _) (does_pure _)
    · exact does_pure _

theorem does_nativeReply (p : LinePost A) (c : NativeCall) (bytes : List UInt8) :
    Does p.health worker line (nativeReply k p c bytes) := by
  refine does_ite (does_bind (does_currentLogin p.bound) fun current => ?_)
    (does_readReply k p c bytes)
  exact does_ite (does_pure _) (does_readReply k p c bytes)

section

variable {P : (PostOutcome → Network A → Option (Network A)) → Prop}

/-- The send of a request that is ready, by what it does beside the request to LINE. -/
theorem only_nativeSend {p : LinePost A} {identity : Identity} {s : Sealed}
    (hP : ∀ act, Acts p.health true false act → P act)
    (hsend : Prog.Only P (fun _ => True)
      (sendToLine ⟨p.health, identity, utf8 s.url, s.headers, s.body⟩)) (token : String)
    (c : NativeCall) : Prog.Only P (fun _ => True) (nativeSend k p identity token c s) := by
  refine (does_attempt.imp hP).bind fun ok _ => .ite (fun _ => trivial) fun _ => ?_
  refine ((does_currentLogin p.bound).imp hP).bind fun b _ => .ite (fun _ => trivial) fun _ => ?_
  refine hsend.bind fun r _ => ?_
  refine .ite (fun _ => (does_finish p _).imp hP) fun _ =>
    .ite (fun _ => (does_finish p _).imp hP) fun _ => ?_
  refine ((does_openReply k p token s.key r.bytes).imp hP).bind fun opened _ => ?_
  cases opened with
  | error status => exact (does_finish p _).imp hP
  | ok bytes => exact (does_nativeReply k p c bytes).imp hP

end

theorem Acts.mono {worker' line' : Bool} {act : PostOutcome → Network A → Option (Network A)}
    (h' : Acts h worker line act) (hw : worker' = false → worker = false)
    (hl : line' = false → line = false) : Acts h worker' line' act :=
  ⟨fun e => h'.toWorker (hw e), fun e => h'.toLine (hl e), h'.others, h'.lineFailed,
    h'.workerFailed⟩

theorem does_nativeSend (p : LinePost A) (identity : Identity) (token : String) (c : NativeCall)
    (s : Sealed) : Does p.health true true (nativeSend k p identity token c s) :=
  only_nativeSend k (fun _ h' => h'.mono id fun e => Bool.noConfusion e) (does_sendToLine rfl) token c

theorem does_nativePost (p : LinePost A) (identity : Identity) :
    Does p.health true true (nativePost k p identity) := by
  refine does_bind (does_isCancelled p.cancel) fun c => does_ite (does_pure _) ?_
  refine does_bind (does_boundAccessToken p.bound) fun bound => ?_
  cases bound with
  | none => exact does_pure _
  | some bound =>
    dsimp only
    split
    · exact does_pure _
    · split
      · exact does_pure _
      · refine does_bind (does_sealCall k p identity _ _ _) fun s => ?_
        cases s with
        | none => exact does_pure _
        | some s => exact does_nativeSend k p identity _ _ s

theorem does_chromeGatewayPost (cj : Cjson) (language : String) (p : LinePost A)
    (identity : Identity) : Does p.health true true (chromeGatewayPost cj language p identity) := by
  refine does_bind (does_workerSign cj _ _ _) fun hmac => ?_
  cases hmac with
  | none => exact does_pure _
  | some hmac =>
    refine does_bind does_attempt fun ok => does_ite (does_pure _) ?_
    exact does_bind (does_sendToLine rfl) fun r => does_gatewayReply p r

theorem does_linePostEx (p : LinePost A) : Does p.health true true (linePostEx k p) := by
  unfold linePostEx
  cases p.bound.current with
  | none => exact does_pure _
  | some identity =>
    refine does_bind (does_isLineFailed p.health) fun f => does_ite (does_pure _) ?_
    refine does_ite (does_nativePost k p identity) (does_ite ?_ (does_pure _))
    exact does_chromeGatewayPost k.cj k.language p identity

/-! ## The meters -/

abbrev workerShut (w : Network A) : Prop := w.workerFailed = true

abbrev lineShut (a : A) (w : Network A) : Prop := w.lineFailed a = true

/-- The requests sent to the worker. -/
def workerMeter (w : Network A) : Nat := w.toWorker.length

/-- The requests sent to LINE for `a`. -/
def lineMeter (a : A) (w : Network A) : Nat := (sentFor a w).length

/-- A request that the worker signed or sealed. -/
def needsWorker (r : WireRequest A) : Bool :=
  r.identity.transport == "chrome-gateway" || r.url == utf8 sealedUrl

/-- The requests sent to LINE that the worker had a part in. -/
def sealedMeter (w : Network A) : Nat := (w.toLine.filter needsWorker).length

variable {act : PostOutcome → Network A → Option (Network A)}

theorem Acts.still_worker (h' : Acts h false line act) : Prog.Still workerMeter act :=
  fun o w w' hact => by rw [workerMeter, workerMeter, h'.toWorker rfl o w w' hact]

theorem Acts.still_line (h' : Acts h worker false act) (a : A) :
    Prog.Still (lineMeter a) act :=
  fun o w w' hact => by rw [lineMeter, lineMeter, sentFor, sentFor, h'.toLine rfl o w w' hact]

theorem Acts.still_sealed (h' : Acts h worker false act) : Prog.Still sealedMeter act :=
  fun o w w' hact => by rw [sealedMeter, sealedMeter, h'.toLine rfl o w w' hact]

theorem Acts.still_others (h' : Acts h worker line act) {b : A} (hb : h ≠ some b) :
    Prog.Still (lineMeter b) act :=
  fun o w w' hact => by rw [lineMeter, lineMeter, (h'.others b hb o w w' hact).2]

theorem lineMeter_send (a : A) (w : Network A) (r : WireRequest A) :
    lineMeter a { w with toLine := w.toLine ++ [r] } ≤ lineMeter a w + 1 := by
  rw [lineMeter, lineMeter, sentFor, sentFor, List.filter_append, List.length_append]
  have := List.length_filter_le (fun r => r.health == some a) [r]
  rw [List.length_singleton] at this
  omega

omit [DecidableEq A] in
theorem sealedMeter_send (w : Network A) (r : WireRequest A) :
    sealedMeter { w with toLine := w.toLine ++ [r] } ≤ sealedMeter w + 1 := by
  rw [sealedMeter, sealedMeter, List.filter_append, List.length_append]
  have := List.length_filter_le needsWorker [r]
  rw [List.length_singleton] at this
  omega

/-! ## The worker -/

omit [DecidableEq A] in
/-- Whatever is metered: past its gate a post to the worker has a share, before it has none. -/
theorem gated_workerPost {meter : Network A → Nat} {Q : Option String → Nat → Prop}
    (hnone : ∀ n, Q none n) {path jsonBody : String} {cancel : Bool}
    (hpost : (sendPost path jsonBody cancel).Always fun q => q.Spends meter workerShut Q 1) :
    Prog.Gated meter workerShut Q (workerPost path jsonBody cancel) := by
  refine .andThen (Q := fun _ _ => True)
    (.op (fun _ _ => Nat.le_refl _) (fun _ _ _ _ => trivial) fun _ => trivial) fun c => ?_
  refine .ite (.pure (hnone 0) (hnone 1)) (.bind (Q := fun failed n => n = 0 → failed = true) ?_
    (fun failed hfailed => ?_) fun failed => ?_)
  · exact .op (fun _ _ => Nat.le_refl _) (fun _ _ _ hs _ => hs) fun _ h => nomatch h
  · rw [if_pos (hfailed rfl)]
    exact hnone 0
  · split
    · exact hnone 1
    · exact hpost

theorem share_sendPost (path jsonBody : String) (cancel : Bool) :
    (sendPost path jsonBody cancel : Posting A (Option String)).Always
      fun q => q.Spends workerMeter workerShut (fun _ _ => True) 1 := by
  have hstill : ∀ act : PostOutcome → Network A → Option (Network A), Acts none false true act →
      Prog.Still workerMeter act := fun _ h' => h'.still_worker
  refine ((does_workerCredentialsCopy path).imp hstill).bind_share fun c _ => ?_
  rcases c with _ | ⟨url, secretHeader⟩
  · exact trivial
  refine (does_attempt.imp hstill).bind_share fun ok _ => ?_
  split
  · exact trivial
  refine Prog.share_op_bind (K := fun _ => True) (fun o w => ?_) (fun r => ?_) fun _ _ _ => trivial
  · show (w.toWorker ++ [_]).length ≤ w.toWorker.length + 1
    rw [List.length_append, List.length_singleton]
  · refine Prog.Only.imp (P := Acts none false true) ?_ hstill
    refine does_bind (does_isCancelled cancel) fun c => does_ite (does_pure _) ?_
    exact does_ite (does_bind does_workerSetFailure fun _ => does_pure _) (does_pure _)

theorem gated_workerCall (cj : Cjson) (path : String) (payload : Json) (cancel : Bool) :
    Prog.Gated workerMeter workerShut (fun _ _ => True)
      (workerCall cj path payload cancel : Posting A (Option Json)) :=
  (gated_workerPost (fun _ => trivial) (share_sendPost path _ cancel)).andThen
    fun _ => .pure trivial trivial

/-- A result that is there has left a share. -/
def Granted {α : Type} (r : Option α) (n : Nat) : Prop := r.isSome = true → 1 ≤ n

theorem Granted.bind {α β : Type} {r : Option α} {f : α → Option β} {n : Nat} (h : Granted r n) :
    Granted (r.bind f) n := by
  intro hsome
  cases r with
  | none => cases hsome
  | some a => exact h rfl

/-- Nothing comes from the worker to a call that starts when it has failed. -/
theorem granted_workerCall (cj : Cjson) (path : String) (payload : Json) (cancel : Bool) :
    Prog.Gated sealedMeter workerShut Granted
      (workerCall cj path payload cancel : Posting A (Option Json)) := by
  have hpost : (sendPost path (cj.print payload) cancel : Posting A (Option String)).Always
      fun q => q.Spends sealedMeter workerShut Granted 1 :=
    ((does_sendPost path _ cancel).imp fun _ (h' : Acts none true false _) =>
      h'.still_sealed).spends fun _ _ _ => Nat.le_refl 1
  refine (gated_workerPost (fun _ h => nomatch h) hpost).bind (fun text htext => ?_)
    fun text _ => Nat.le_refl 1
  exact Granted.bind htext

theorem granted_workerSign (cj : Cjson) (path body accessToken : String) :
    Prog.Gated sealedMeter workerShut Granted
      (workerSign cj path body accessToken : Posting A (Option String)) :=
  (granted_workerCall cj _ _ _).bind (fun _ h => Granted.bind h) fun _ _ => Nat.le_refl 1

/-! ## The gateway -/

section

variable {meter : Network A → Nat} {shut : Network A → Prop}

/-- Of a meter that a request to LINE raises by no more than one, and nothing else. -/
structure LineMeter (meter : Network A → Nat) : Prop where
  send : ∀ (w : Network A) (r : WireRequest A),
    meter { w with toLine := w.toLine ++ [r] } ≤ meter w + 1
  still : ∀ {h worker act}, Acts h worker false act → Prog.Still meter act

theorem lineMeter_of (a : A) : LineMeter (lineMeter a) :=
  ⟨fun w r => lineMeter_send a w r, fun h' => h'.still_line a⟩

theorem lineMeter_sealed : LineMeter (sealedMeter : Network A → Nat) :=
  ⟨sealedMeter_send, fun h' => h'.still_sealed⟩

theorem share_gateway (hm : LineMeter meter) (language : String) (p : LinePost A)
    (identity : Identity) (hmac : String) :
    (do
      if !(← attempt) then return .empty
      let r ← sendToLine (gatewayRequest language p identity hmac)
      gatewayReply p r : Posting A LineResponse).Always
        fun q => q.Spends meter shut (fun _ _ => True) 1 := by
  have hstill : ∀ act : PostOutcome → Network A → Option (Network A),
      Acts p.health true false act → Prog.Still meter act := fun _ h' => hm.still h'
  refine (does_attempt.imp hstill).bind_share fun ok _ => ?_
  split
  · exact trivial
  · exact Prog.share_op_bind (fun _ w => hm.send w _)
      (fun r => (does_gatewayReply p r).imp hstill) fun _ _ _ => trivial

theorem share_chromeGatewayPost (hm : LineMeter meter) (cj : Cjson) (language : String)
    (p : LinePost A) (identity : Identity) : (chromeGatewayPost cj language p identity).Always
      fun q => q.Spends meter shut (fun _ _ => True) 1 := by
  refine ((does_workerSign cj _ _ _).imp fun _ (h' : Acts p.health true false _) =>
    hm.still h').bind_share fun hmac _ => ?_
  cases hmac with
  | none => exact trivial
  | some hmac => exact share_gateway hm language p identity hmac

/-- No signature, no request. -/
theorem gated_chromeGatewayPost (cj : Cjson) (language : String) (p : LinePost A)
    (identity : Identity) : Prog.Gated sealedMeter workerShut (fun _ _ => True)
      (chromeGatewayPost cj language p identity) := by
  refine (granted_workerSign cj _ _ _).bind (fun hmac hgrant => ?_) fun hmac => ?_
  · cases hmac with
    | none => exact trivial
    | some hmac => exact absurd (hgrant rfl) (by omega)
  · cases hmac with
    | none => exact trivial
    | some hmac => exact share_gateway lineMeter_sealed language p identity hmac

/-! ## The native client -/

theorem share_nativeSend (hm : LineMeter meter) (p : LinePost A) (identity : Identity)
    (token : String) (c : NativeCall) (s : Sealed) :
    (nativeSend k p identity token c s).Always
      fun q => q.Spends meter shut (fun _ _ => True) 1 := by
  have hstill : ∀ act : PostOutcome → Network A → Option (Network A),
      Acts p.health true false act → Prog.Still meter act := fun _ h' => hm.still h'
  refine (does_attempt.imp hstill).bind_share fun ok _ => ?_
  split
  · exact trivial
  refine ((does_currentLogin p.bound).imp hstill).bind_share fun current _ => ?_
  split
  · exact trivial
  refine Prog.share_op_bind (K := fun _ => True) (fun _ w => hm.send w _) (fun r => ?_)
    fun _ _ _ => trivial
  refine Prog.Only.imp (P := Acts p.health true false) ?_ hstill
  refine does_ite (does_finish p _) (does_ite (does_finish p _) ?_)
  refine does_bind (does_openReply k p token s.key r.bytes) fun opened => ?_
  cases opened with
  | error status => exact does_finish p _
  | ok bytes => exact does_nativeReply k p c bytes

theorem share_nativePost (hm : LineMeter meter) (p : LinePost A) (identity : Identity) :
    (nativePost k p identity).Always fun q => q.Spends meter shut (fun _ _ => True) 1 := by
  have hstill : ∀ act : PostOutcome → Network A → Option (Network A),
      Acts p.health true false act → Prog.Still meter act := fun _ h' => hm.still h'
  refine ((does_isCancelled p.cancel).imp hstill).bind_share fun c _ => ?_
  split
  · exact trivial
  refine ((does_boundAccessToken p.bound).imp hstill).bind_share fun bound _ => ?_
  cases bound with
  | none => exact trivial
  | some bound =>
    dsimp only
    split
    · exact trivial
    · split
      · exact trivial
      · refine ((does_sealCall k p identity _ _ _).imp hstill).bind_share fun s _ => ?_
        cases s with
        | none => exact trivial
        | some s => exact share_nativeSend k hm p identity _ _ s

/-- A request that is ready: where it goes out sealed, the worker has granted it. -/
def SealGranted (s : Option Sealed) (n : Nat) : Prop := ∀ x, s = some x → x.url = sealedUrl → 1 ≤ n

theorem sealGranted_sealCall (p : LinePost A) (identity : Identity) (token : String)
    (c : NativeCall) (wire : List UInt8) :
    Prog.Gated sealedMeter workerShut SealGranted (sealCall k p identity token c wire) := by
  unfold sealCall
  split
  · refine (granted_workerCall k.cj _ _ _).bind (fun encoded hgrant => ?_) fun encoded => ?_
    · cases encoded with
      | some j => exact absurd (hgrant rfl) (by omega)
      | none =>
        refine .bind (.op fun o w hs => ⟨0, Nat.le_refl 0, Nat.le_refl _, trivial⟩)
          (Q := fun _ _ => True) fun cancelled m hm _ => ?_
        split
        · exact fun x hx => nomatch hx
        · exact fun x hx => nomatch hx
    · refine ((does_isCancelled p.cancel).imp fun _ (h' : Acts none true false _) =>
        h'.still_sealed).bind_share fun cancelled _ => ?_
      split
      · exact fun _ _ _ => Nat.le_refl 1
      · exact fun _ _ _ => Nat.le_refl 1
  · refine .pure (fun x hx hurl => ?_) fun _ _ _ => Nat.le_refl 1
    obtain rfl := Option.some.inj hx
    exact absurd hurl (by dsimp only; split <;> decide)

/-- Before it is sealed nothing goes out. -/
theorem gated_nativePost (p : LinePost A) {identity : Identity}
    (hidentity : identity.transport = "native-thrift") :
    Prog.Gated sealedMeter workerShut (fun _ _ => True) (nativePost k p identity) := by
  have hstill : ∀ act : PostOutcome → Network A → Option (Network A),
      Acts p.health true false act → Prog.Still sealedMeter act := fun _ h' => h'.still_sealed
  refine .andThen (.of_only ((does_isCancelled p.cancel).imp hstill) (Q := fun _ _ => True)
    fun _ _ _ => trivial) fun c => .ite (.pure trivial trivial) ?_
  refine .andThen (.of_only ((does_boundAccessToken p.bound).imp hstill) (Q := fun _ _ => True)
    fun _ _ _ => trivial) fun bound => ?_
  cases bound with
  | none => exact .pure trivial trivial
  | some bound =>
    dsimp only
    split
    · exact .pure trivial trivial
    · split
      · exact .pure trivial trivial
      · refine (sealGranted_sealCall k p identity _ _ _).bind (fun s hgrant => ?_) fun s => ?_
        · cases s with
          | none => exact trivial
          | some s =>
            have hurl : s.url ≠ sealedUrl := fun hs => absurd (hgrant s rfl hs) (by omega)
            refine ((only_nativeSend k hstill ?_ _ _).spends fun _ _ => trivial).now
            refine .op (fun o w w' hact => ?_) fun _ _ => trivial
            obtain rfl := Option.some.inj hact
            show ((w.toLine ++ [_]).filter needsWorker).length ≤ _
            rw [List.filter_append, List.filter_cons_of_neg, List.filter_nil, List.append_nil]
            · exact Nat.le_refl _
            · simp only [needsWorker, hidentity, Bool.or_eq_true, beq_iff_eq, not_or]
              exact ⟨by decide, fun heq => hurl (utf8_injective heq)⟩
        · cases s with
          | none => exact trivial
          | some s => exact share_nativeSend k lineMeter_sealed p identity _ _ s

/-! ## The share of the worker -/

theorem worker_of_does {α : Type} {p : Posting A α} (hp : Does h false true p) :
    Prog.Gated workerMeter workerShut (fun _ _ => True) p :=
  .of_only (hp.imp fun _ h' => h'.still_worker) fun _ _ _ => trivial

theorem worker_openReply (p : LinePost A) (token : String) (key : Option String)
    (bytes : List UInt8) : Prog.Gated workerMeter workerShut (fun _ _ => True)
      (openReply k p token key bytes) := by
  cases key with
  | none => exact .pure trivial trivial
  | some key =>
    refine (gated_workerCall k.cj _ _ _).andThen fun decoded => ?_
    refine worker_of_does (h := p.health) ?_
    cases decoded.bind (·.dupStringOpt "body") with
    | none => exact does_pure _
    | some body =>
      refine does_ite (does_pure _) (does_bind (does_currentLogin p.bound) fun c => ?_)
      refine does_ite (does_pure _) ?_
      cases (decoded.bind (·.getObjectItemCaseSensitive "headers")).bind
          (·.dupStringOpt "x-line-next-access") with
      | none => exact does_pure _
      | some next =>
        refine does_bind (does_acceptNext p.bound token next) fun c => ?_
        exact does_ite (does_bind does_lineSetFailure fun _ => does_pure _) (does_pure _)

theorem worker_nativeSend (p : LinePost A) (identity : Identity) (token : String)
    (c : NativeCall) (s : Sealed) : Prog.Gated workerMeter workerShut (fun _ _ => True)
      (nativeSend k p identity token c s) := by
  refine (worker_of_does (h := p.health) does_attempt).andThen fun ok =>
    .ite (.pure trivial trivial) ?_
  refine (worker_of_does (h := p.health) (does_currentLogin p.bound)).andThen fun current =>
    .ite (.pure trivial trivial) ?_
  refine (worker_of_does (h := p.health) (does_sendToLine rfl)).andThen fun r => ?_
  refine .ite (worker_of_does (does_finish p _)) (.ite (worker_of_does (does_finish p _)) ?_)
  refine (worker_openReply k p token s.key r.bytes).andThen fun opened => ?_
  cases opened with
  | error status => exact worker_of_does (does_finish p _)
  | ok bytes => exact worker_of_does (does_nativeReply k p c bytes)

theorem worker_sealCall (p : LinePost A) (identity : Identity) (token : String) (c : NativeCall)
    (wire : List UInt8) : Prog.Gated workerMeter workerShut (fun _ _ => True)
      (sealCall k p identity token c wire) := by
  refine .ite ?_ (.pure trivial trivial)
  refine (gated_workerCall k.cj _ _ _).andThen fun encoded => ?_
  refine worker_of_does (h := p.health) (does_bind (does_isCancelled p.cancel) fun cancelled => ?_)
  exact does_ite (does_pure _) (does_pure _)

theorem worker_nativePost (p : LinePost A) (identity : Identity) :
    Prog.Gated workerMeter workerShut (fun _ _ => True) (nativePost k p identity) := by
  refine (worker_of_does (h := p.health) (does_isCancelled p.cancel)).andThen fun c =>
    .ite (.pure trivial trivial) ?_
  refine (worker_of_does (h := p.health) (does_boundAccessToken p.bound)).andThen fun bound => ?_
  cases bound with
  | none => exact .pure trivial trivial
  | some bound =>
    dsimp only
    split
    · exact .pure trivial trivial
    · split
      · exact .pure trivial trivial
      · refine (worker_sealCall k p identity _ _ _).andThen fun s => ?_
        cases s with
        | none => exact .pure trivial trivial
        | some s => exact worker_nativeSend k p identity _ _ s

theorem worker_chromeGatewayPost (cj : Cjson) (language : String) (p : LinePost A)
    (identity : Identity) : Prog.Gated workerMeter workerShut (fun _ _ => True)
      (chromeGatewayPost cj language p identity) := by
  have hsign : Prog.Gated workerMeter workerShut (fun _ _ => True)
      (workerSign (A := A) cj p.path p.body p.accessToken) :=
    (gated_workerCall cj _ _ _).andThen fun _ => .pure trivial trivial
  refine hsign.andThen fun hmac => ?_
  cases hmac with
  | none => exact .pure trivial trivial
  | some hmac =>
    refine worker_of_does (h := p.health) (does_bind does_attempt fun ok => ?_)
    refine does_ite (does_pure _) (does_bind (does_sendToLine rfl) fun r => ?_)
    exact does_gatewayReply p r

/-! ## enil_line_post_ex -/

theorem worker_linePostEx (p : LinePost A) :
    Prog.Gated workerMeter workerShut (fun _ _ => True) (linePostEx k p) := by
  unfold linePostEx
  cases p.bound.current with
  | none => exact .pure trivial trivial
  | some identity =>
    refine (worker_of_does (h := p.health) (does_isLineFailed p.health)).andThen fun f =>
      .ite (.pure trivial trivial) ?_
    refine .ite (worker_nativePost k p identity) (.ite ?_ (.pure trivial trivial))
    exact worker_chromeGatewayPost k.cj k.language p identity

theorem sealed_linePostEx (p : LinePost A) :
    Prog.Gated sealedMeter workerShut (fun _ _ => True) (linePostEx k p) := by
  unfold linePostEx
  cases p.bound.current with
  | none => exact .pure trivial trivial
  | some identity =>
    refine .andThen (.of_only ((does_isLineFailed p.health).imp fun _
      (h' : Acts p.health true false _) => h'.still_sealed) (Q := fun _ _ => True)
      fun _ _ _ => trivial) fun f => .ite (.pure trivial trivial) ?_
    split
    · exact gated_nativePost k p ‹_›
    · exact .ite (gated_chromeGatewayPost k.cj k.language p identity) (.pure trivial trivial)

/-- The look at the health of `a` stands before everything that is sent for it. -/
theorem line_linePostEx {p : LinePost A} {a : A} (ha : p.health = some a) :
    Prog.Gated (lineMeter a) (lineShut a) (fun _ _ => True) (linePostEx k p) := by
  unfold linePostEx
  cases p.bound.current with
  | none => exact .pure trivial trivial
  | some identity =>
    refine .bind (Q := fun failed n => n = 0 → failed = true) ?_ (fun failed hfailed => ?_)
      fun failed => ?_
    · refine .op (fun _ _ => Nat.le_refl _) (fun _ w _ hs _ => ?_) fun _ h => nomatch h
      rw [ha]
      exact hs
    · rw [if_pos (hfailed rfl)]
      exact trivial
    · split
      · exact trivial
      · split
        · exact share_nativePost k (lineMeter_of a) p identity
        · split
          · exact share_chromeGatewayPost (lineMeter_of a) k.cj k.language p identity
          · exact trivial

end

end Posting

end Enil
