import Enil.Line.Send
import Enil.Session.Merge

/-!
# The course of a send

Of what a send does, the part that its counters are about: at most one encryption, then at
most one request with the number taken from the loaded session, then, if the reply is
understood, the session with that number.
-/

namespace Enil

open Lib

inductive SendOp where
  | text (chat text : String)
  | inlineSticon (chat text : String) (resources : List SticonResource) (nonempty : resources ≠ [])
  | sticker (chat : String) (p : StickerParams)
  | image (probe : Option Session) (chat : String) (p : ImageParams)
  | chatRemoved (chat : String) (lastReadId : Option String) (lastReadTime : Int)

/-- The operation asks the worker to encrypt, unless it fails or there is no group key. -/
def SendOp.Encrypts (a : Answers) : SendOp → Prop
  | text _ _ | inlineSticon _ _ _ _ => True
  | image probe _ _ => imageFlow a probe = 2
  | _ => False

def SendOp.run (cj : Cjson) (a : Answers) (loaded : Option Session) : SendOp → Send Unit
  | text chat t => do let _ ← sendText cj a loaded chat t
  | inlineSticon chat t resources h => do let _ ← sendInlineSticon cj a loaded chat t resources h
  | sticker chat p => do let _ ← sendSticker a loaded chat p
  | image probe chat p => do let _ ← sendImage cj a loaded chat probe p
  | chatRemoved chat id time => sendChatRemoved a loaded chat id time

/-- The message the reply to sendMessage confirms. -/
def Answers.reply (a : Answers) : Option TalkMessage :=
  a.sendMessage.bind fun resp => talkMessageParse resp none

/-- The reply to the request of the operation is understood. -/
def SendOp.confirmed (a : Answers) : SendOp → Bool
  | chatRemoved _ _ _ => a.chatRemoved
  | _ => a.reply.isSome

/-! ## Views -/

/-- An encrypt request: the key and number it uses, and whether it is for a group. -/
structure Encryption where
  senderKeyId : Int
  sequenceNumber : Int
  isGroup : Bool
  deriving DecidableEq

def EncryptParams.encryption (p : EncryptParams) : Encryption where
  senderKeyId := p.senderKeyId
  sequenceNumber := p.sequenceNumber
  isGroup := match p.recipient with
    | .user _ _ _ => false
    | .group _ _ _ _ => true

inductive SendView where
  | encrypt (e : Encryption)
  | request (reqSeq : Int)
  | save (s : Session)

def SendEffect.view : SendEffect → Option SendView
  | .encrypt p => some (.encrypt p.encryption)
  | .sendMessage n _ | .sendChatRemoved n _ _ _ => some (.request n)
  | .persist s => some (.save s)
  | .upload _ _ _ => none

/-- What the counters see of a send. -/
def viewOf {α : Type} (m : Send α) : List SendView := m.trace.filterMap SendEffect.view

section View

variable {α β : Type} {m : Send α} {f : α → Send β}

theorem viewOf_bind_none (h : m.result = none) : viewOf (m >>= f) = viewOf m := by
  rw [viewOf, (Traced.bind_of_none h).2, viewOf]

theorem viewOf_bind_some {a : α} (h : m.result = some a) :
    viewOf (m >>= f) = viewOf m ++ viewOf (f a) := by
  rw [viewOf, (Traced.bind_of_some h).2, List.filterMap_append, viewOf, viewOf]

/-- What follows does nothing that the counters see. -/
theorem viewOf_bind_silent (hf : ∀ a, viewOf (f a) = []) : viewOf (m >>= f) = viewOf m := by
  cases h : m.result with
  | none => rw [viewOf_bind_none h]
  | some a => rw [viewOf_bind_some h, hf, List.append_nil]

theorem viewOf_emit_bind (e : SendEffect) (f : Unit → Send β) :
    viewOf (Traced.emit e >>= f) = e.view.toList ++ viewOf (f ()) := by
  rw [viewOf_bind_some (Traced.result_emit e), viewOf, Traced.trace_emit, List.filterMap_cons]
  cases e.view <;> rfl

/-- A reply that is understood, the session that is stored then, and what follows. -/
theorem viewOf_reply {a : Answers} {m : TalkMessage} {s : Session} {f : TalkMessage → Send α}
    (hf : ∀ m, viewOf (f m) = []) :
    viewOf (do
      let m ← Traced.ofOption (a.sendMessage.bind (overlaySendResult m))
      Traced.emit (.persist s)
      f m) = if a.reply.isSome then [.save s] else [] := by
  have hreply : a.sendMessage.bind (overlaySendResult m) = a.reply.map fun server => { m with
      id := server.id
      createdTime := server.createdTime
      sessionId := server.sessionId
      hasContent := server.hasContent } := by
    unfold Answers.reply overlaySendResult
    cases a.sendMessage <;> rfl
  rw [hreply]
  cases a.reply with
  | none => rfl
  | some server =>
    rw [Option.map_some, Traced.ofOption_some_bind, viewOf_emit_bind, hf]
    rfl

end View

/-- The states the worker returns have no double keys. -/
structure Answers.DistinctStates (cj : Cjson) (a : Answers) : Prop where
  encrypt : ∀ enc ∈ a.encrypt, ∀ j ∈ enc.restoreState.bind cj.parse, j.distinct = true
  created : ∀ c ∈ a.createdGroupKey, ∀ j ∈ c.restoreState.bind cj.parse, j.distinct = true

/-- What a send that asked for `es` stores when its request `n` is confirmed. -/
structure Updated (s : Session) (n : Int) (es : List Encryption) (s' : Session) : Prop where
  snapshot : s'.snapshot = s.snapshot
  reqSeq : s'.reqSeq = n
  e2eeSequenceNumber : s'.e2eeSequenceNumber =
    if es.any (!·.isGroup) then s.e2eeSequenceNumber + 1 else s.e2eeSequenceNumber
  distinct : s'.Distinct

/-- The encryptions a send can ask for: none, or if `encrypts`, one under the latest key. -/
def IsEncryption (encrypts : Prop) (s : Session) (es : List Encryption) : Prop :=
  es = [] ∨ encrypts ∧ ∃ isGroup, es = [⟨toCInt s.e2eeLatestKeyId, s.e2eeSequenceNumber, isGroup⟩]

inductive Course (s : Session) (n : Int) (confirmed : Bool) (es : List Encryption) :
    List SendView → Prop
  /-- It fails before the request. -/
  | stopped : Course s n confirmed es (es.map .encrypt)
  /-- The reply is not understood. -/
  | lost (h : confirmed = false) : Course s n confirmed es (es.map .encrypt ++ [.request n])
  | stored (h : confirmed = true) {s' : Session} (hs : Updated s n es s') :
    Course s n confirmed es (es.map .encrypt ++ [.request n, .save s'])

/-- A send that asks for at most one encryption, and goes one of these ways. -/
def GoesBy (encrypts : Prop) (s : Session) (n : Int) (confirmed : Bool) (v : List SendView) :
    Prop :=
  ∃ es, IsEncryption encrypts s es ∧ Course s n confirmed es v

theorem GoesBy.imp {p q : Prop} {s : Session} {n : Int} {confirmed : Bool} {v : List SendView}
    (hpq : p → q) (h : GoesBy p s n confirmed v) : GoesBy q s n confirmed v := by
  obtain ⟨es, hes, hcourse⟩ := h
  exact ⟨es, hes.imp_right fun he => ⟨hpq he.1, he.2⟩, hcourse⟩

/-- What a course says of the session is its base and its sequence number. -/
theorem Course.congr {s s₁ : Session} {n : Int} {confirmed : Bool} {es : List Encryption}
    {v : List SendView} (h : Course s₁ n confirmed es v) (hsnap : s₁.snapshot = s.snapshot)
    (hseq : s₁.e2eeSequenceNumber = s.e2eeSequenceNumber) : Course s n confirmed es v := by
  cases h with
  | stopped => exact .stopped
  | lost h => exact .lost h
  | stored h hs' =>
    exact .stored h ⟨hs'.snapshot.trans hsnap, hs'.reqSeq, hseq ▸ hs'.e2eeSequenceNumber,
      hs'.distinct⟩

theorem Session.Distinct.withRestoreState {s : Session} (h : s.Distinct) {restore : Option Json}
    (hr : ∀ j ∈ restore, j.distinct = true) :
    Session.Distinct { s with workerRestoreState := restore.or s.workerRestoreState } := by
  simp only [Session.Distinct, Session.fields, List.forall_mem_cons, FieldValue.Distinct,
    true_and, and_true, List.not_mem_nil, false_implies, implies_true] at h ⊢
  obtain ⟨h₁, h₂, h₃, h₄, h₅, h₆⟩ := h
  refine ⟨h₁, h₂, h₃, ?_, h₅, h₆⟩
  intro j hj
  cases restore with
  | none => exact h₄ j hj
  | some r => exact hr j hj

theorem Session.Distinct.update {s : Session} (h : s.Distinct) (n : Int) (seq : Option Int)
    {restore : Option Json} (hr : ∀ j ∈ restore, j.distinct = true) :
    (updateSendState s n seq restore).Distinct := by
  have hrest := h.withRestoreState hr
  simpa [updateSendState, Session.Distinct, Session.fields, FieldValue.Distinct] using hrest

section Parts

variable {cj : Cjson} {a : Answers} {s : Session} (hs : s.Distinct) (ha : a.DistinctStates cj)

/-- A send whose request is followed by its reply. -/
theorem Course.of_reply {n : Int} (es : List Encryption) {s' : Session}
    (hs' : Updated s n es s') :
    Course s n a.reply.isSome es
      (es.map .encrypt ++ .request n :: if a.reply.isSome then [.save s'] else []) := by
  cases h : a.reply.isSome with
  | true => exact .stored rfl hs'
  | false => exact .lost rfl

include hs in
theorem postPlain_course {n : Int} (m : TalkMessage) :
    Course s n a.reply.isSome [] (viewOf (postPlain a s n m)) := by
  unfold postPlain
  rw [viewOf_emit_bind, viewOf_reply fun _ => rfl]
  exact .of_reply [] ⟨rfl, rfl, rfl, hs.update n none fun _ h => by cases h⟩

include hs ha

/-- What follows an encryption: `finish_e2ee_send`. -/
theorem finishE2eeSend_course {n : Int} {enc : Encrypted} (henc : a.encrypt = some enc)
    (keyIdA keyIdB : Int) (isGroup : Bool) (m : TalkMessage) (k : Int) {seq : Option Int}
    (hseq : seq = if isGroup then none else some (s.e2eeSequenceNumber + 1)) :
    Course s n a.reply.isSome [⟨k, s.e2eeSequenceNumber, isGroup⟩]
      (.encrypt ⟨k, s.e2eeSequenceNumber, isGroup⟩ ::
        viewOf (finishE2eeSend cj a s n enc keyIdA keyIdB seq m)) := by
  unfold finishE2eeSend
  cases hchunks : splitV2Ciphertext enc.ciphertext keyIdA keyIdB with
  | none =>
    rw [Traced.ofOption_none_bind]
    exact .stopped
  | some chunks =>
    rw [Traced.ofOption_some_bind, viewOf_emit_bind, viewOf_reply fun _ => rfl]
    refine .of_reply [⟨k, s.e2eeSequenceNumber, isGroup⟩] ⟨rfl, rfl, ?_, ?_⟩
    · rw [hseq]
      cases isGroup <;> rfl
    · exact hs.update n seq fun j hj => ha.encrypt enc henc j hj

theorem send1on1_course (myMid chat : String) (n : Int) (plaintext : String) (contentType : Int)
    (m : TalkMessage) :
    GoesBy True s n a.reply.isSome
      (viewOf (send1on1 cj a s myMid chat n plaintext contentType m)) := by
  unfold send1on1
  cases findE2eeKey s s.e2eeLatestKeyId with
  | none => exact ⟨[], .inl rfl, .stopped⟩
  | some privateKey =>
    cases a.peerKey with
    | none => exact ⟨[], .inl rfl, .stopped⟩
    | some peer =>
      rw [Traced.ofOption_some_bind, Traced.ofOption_some_bind, viewOf_emit_bind]
      refine ⟨_, .inr ⟨trivial, false, rfl⟩, ?_⟩
      cases henc : a.encrypt with
      | none => exact .stopped
      | some enc =>
        rw [Traced.ofOption_some_bind]
        exact finishE2eeSend_course hs ha henc _ _ false m _ rfl

theorem sendGroupSealed_course (key : GroupKey) (myMid chat : String) (n : Int)
    (plaintext : String) (contentType : Int) (m : TalkMessage) :
    GoesBy True s n a.reply.isSome
      (viewOf (sendGroupSealed cj a s key myMid chat n plaintext contentType m)) := by
  unfold sendGroupSealed
  cases key.creator with
  | none => exact ⟨[], .inl rfl, .stopped⟩
  | some creator =>
    cases findE2eeKey s key.receiverKeyId with
    | none => exact ⟨[], .inl rfl, .stopped⟩
    | some privateKey =>
      cases a.creatorPublicKey with
      | none => exact ⟨[], .inl rfl, .stopped⟩
      | some creatorKey =>
        cases a.senderPublicKey with
        | none => exact ⟨[], .inl rfl, .stopped⟩
        | some senderKey =>
          iterate 4 rw [Traced.ofOption_some_bind]
          rw [viewOf_emit_bind]
          refine ⟨_, .inr ⟨trivial, true, rfl⟩, ?_⟩
          cases henc : a.encrypt with
          | none => exact .stopped
          | some enc =>
            rw [Traced.ofOption_some_bind]
            exact finishE2eeSend_course hs ha henc _ _ true m _ rfl

/-- The session a group send goes on with differs in the state of the worker only. -/
theorem groupKeyOf_session (myMid : String) :
    ∃ restore, (groupKeyOf cj a s myMid).2 = { s with workerRestoreState := restore } ∧
      Session.Distinct { s with workerRestoreState := restore } := by
  have hsame : ∃ restore, s = { s with workerRestoreState := restore } ∧
      Session.Distinct { s with workerRestoreState := restore } := ⟨s.workerRestoreState, rfl, hs⟩
  unfold groupKeyOf
  split
  · exact hsame
  · unfold createAndRegisterGroupKey
    split
    · split
      · exact hsame
      · split
        · exact hsame
        · rename_i created hcreated
          exact ⟨_, rfl, hs.withRestoreState fun j hj => ha.created created hcreated j hj⟩
    · exact hsame

theorem sendGroup_course (myMid chat : String) (n : Int) (plaintext : String) (contentType : Int)
    (m : TalkMessage) :
    GoesBy True s n a.reply.isSome
      (viewOf (sendGroup cj a s myMid chat n plaintext contentType m)) := by
  obtain ⟨restore, hrest, hd⟩ := groupKeyOf_session hs ha myMid
  unfold sendGroup
  rcases hkey : groupKeyOf cj a s myMid with ⟨_ | key, s'⟩
  · rw [hkey] at hrest
    obtain rfl : s' = _ := hrest
    dsimp only
    unfold sendGroupPlain
    cases htext : m.text.isNone with
    | true => exact ⟨[], .inl rfl, .stopped⟩
    | false =>
      simp only [Bool.false_eq_true, if_false]
      rw [viewOf_emit_bind, viewOf_reply fun _ => rfl]
      refine ⟨[], .inl rfl, .of_reply [] ⟨rfl, rfl, rfl, ?_⟩⟩
      exact hd.update n none fun _ h => by cases h
  · rw [hkey] at hrest
    obtain rfl : s' = _ := hrest
    dsimp only
    obtain ⟨es, hes, hcourse⟩ :=
      sendGroupSealed_course hd ha key myMid chat n plaintext contentType m
    exact ⟨es, hes, hcourse.congr rfl rfl⟩

theorem sendContent_course (myMid chat : String) (c : Content) :
    GoesBy True s (nextReqSeq s a.seqTime) a.reply.isSome
      (viewOf (sendContent cj a s myMid chat c)) := by
  unfold sendContent
  dsimp only
  split
  · exact send1on1_course hs ha myMid chat _ _ _ _
  · exact sendGroup_course hs ha myMid chat _ _ _ _

end Parts

/-! ## Whole sends -/

theorem GoesBy.fail (p : Prop) (s : Session) (n : Int) (confirmed : Bool) :
    GoesBy p s n confirmed [] :=
  ⟨[], .inl rfl, .stopped⟩

theorem viewOf_uploads {α : Type} (o : Option α) (f : α → SendEffect)
    (hf : ∀ x, (f x).view = none) : viewOf (o.forM fun x => Traced.emit (f x)) = [] := by
  cases o with
  | none => rfl
  | some x =>
    show [f x].filterMap SendEffect.view = []
    rw [List.filterMap_cons, hf]
    rfl

section Operations

variable {cj : Cjson} {a : Answers} {s : Session} (hs : s.Distinct) (ha : a.DistinctStates cj)

theorem loadedAccount_session {loaded : Option Session} {account : Session × String}
    (h : loadedAccount loaded = some account) : loaded = some account.1 := by
  unfold loadedAccount at h
  obtain ⟨s, hs, h⟩ := Option.bind_eq_some_iff.mp h
  obtain ⟨_, -, h⟩ := Option.bind_eq_some_iff.mp h
  obtain ⟨mid, -, h⟩ := Option.bind_eq_some_iff.mp h
  obtain rfl := Option.some.inj h
  exact hs

/-- A send that first needs the loaded account. -/
theorem GoesBy.of_account {α : Type} {e : Prop} {n : Int} {confirmed : Bool} {f : Session × String → Send α}
    (h : ∀ mid, GoesBy e s n confirmed (viewOf (f (s, mid)))) :
    GoesBy e s n confirmed (viewOf (Traced.ofOption (loadedAccount (some s)) >>= f)) := by
  cases haccount : loadedAccount (some s) with
  | none => exact .fail e s n confirmed
  | some account =>
    obtain ⟨s', mid⟩ := account
    obtain rfl : s = s' := Option.some.inj (loadedAccount_session haccount)
    rw [Traced.ofOption_some_bind]
    exact h mid

/-- A send whose guard fails does nothing. -/
theorem GoesBy.of_guard {α : Type} {e : Prop} {n : Int} {confirmed : Bool} {c : Prop} [Decidable c]
    {m : Send α} (h : GoesBy e s n confirmed (viewOf m)) :
    GoesBy e s n confirmed (viewOf (do
      if c then Traced.fail
      m)) := by
  split
  · exact .fail e s n confirmed
  · exact h

theorem GoesBy.of_silent {α : Type} {e : Prop} {n : Int} {confirmed : Bool} {m : Send α}
    (h : GoesBy e s n confirmed (viewOf m)) :
    GoesBy e s n confirmed (viewOf (m >>= fun _ => pure ())) := by
  rw [viewOf_bind_silent fun _ => rfl]
  exact h

include hs in
theorem sendSticker_course (chat : String) (p : StickerParams) :
    GoesBy False s (nextReqSeq s a.seqTime) a.reply.isSome (viewOf (sendSticker a (some s) chat p)) :=
  .of_guard (.of_account fun _ => ⟨[], .inl rfl, postPlain_course hs _⟩)

include hs in
theorem sendImagePlain_course (chat : String) (p : ImageParams) :
    GoesBy False s (nextReqSeq s a.seqTime) a.reply.isSome
      (viewOf (sendImagePlain a (some s) chat p)) := by
  refine .of_guard (.of_account fun mid => ⟨[], .inl rfl, ?_⟩)
  dsimp only
  rw [viewOf_bind_silent]
  · exact postPlain_course hs _
  · intro m
    rw [viewOf_emit_bind]
    cases a.uploadPlain with
    | false => rfl
    | true => exact (viewOf_bind_silent fun _ => rfl).trans (viewOf_uploads _ _ fun _ => rfl)

include hs ha in
theorem sendImageE2ee_course (chat : String) (p : ImageParams) :
    GoesBy True s (nextReqSeq s a.seqTime) a.reply.isSome
      (viewOf (sendImageE2ee cj a (some s) chat p)) := by
  refine .of_account fun mid => ?_
  dsimp only
  cases a.encryptFile with
  | none => exact .fail _ _ _ _
  | some file =>
    rw [Traced.ofOption_some_bind, viewOf_emit_bind]
    show GoesBy True s _ _ (viewOf _)
    cases a.uploadOid with
    | none => exact .fail _ _ _ _
    | some oid =>
      rw [Traced.ofOption_some_bind]
      -- The upload of a preview is out of sight.
      split
      · cases a.encryptThumb with
        | none => exact sendContent_course hs ha mid chat _
        | some thumb =>
          show GoesBy True s _ _ (viewOf (Traced.emit _ >>= fun _ => sendContent _ _ _ _ _ _))
          rw [viewOf_emit_bind]
          exact sendContent_course hs ha mid chat _
      · exact sendContent_course hs ha mid chat _

include hs ha in
/-- A send from the session `s`, whatever the outside answers. -/
theorem SendOp.run_course (op : SendOp) :
    GoesBy (op.Encrypts a) s (nextReqSeq s a.seqTime) (op.confirmed a)
      (viewOf (op.run cj a (some s))) := by
  have hdraft (chat : String) (c : Content) : GoesBy True s (nextReqSeq s a.seqTime) a.reply.isSome
      (viewOf (sendDraft cj a (some s) chat c)) :=
    .of_guard (.of_account fun mid => sendContent_course hs ha mid chat c)
  cases op with
  | text chat t =>
    refine .of_silent ?_
    exact hdraft chat _
  | inlineSticon chat t resources h =>
    refine .of_silent ?_
    exact hdraft chat _
  | sticker chat p =>
    refine .of_silent ?_
    exact sendSticker_course hs chat p
  | image probe chat p =>
    refine .of_silent ?_
    unfold sendImage
    split
    · exact .fail _ _ _ _
    · split
      · rename_i hflow
        exact (sendImageE2ee_course hs ha chat p).imp fun _ => hflow
      · exact (sendImagePlain_course hs chat p).imp False.elim
  | chatRemoved chat id time =>
    show GoesBy False s _ a.chatRemoved (viewOf (sendChatRemoved a (some s) chat id time))
    unfold sendChatRemoved
    rw [Traced.ofOption_some_bind]
    cases s.accessToken with
    | none => exact .fail _ _ _ _
    | some token =>
      rw [Traced.ofOption_some_bind, viewOf_emit_bind]
      refine ⟨[], .inl rfl, ?_⟩
      cases a.chatRemoved with
      | false => exact .lost rfl
      | true => exact .stored rfl ⟨rfl, rfl, rfl, hs.update _ none fun _ h => by cases h⟩

/-- Without a session nothing is sent. -/
theorem SendOp.run_unloaded (op : SendOp) : viewOf (op.run cj a none) = [] := by
  have hguard {c : Prop} [Decidable c] (f : Session × String → Send TalkMessage) :
      viewOf (do
        if c then Traced.fail
        let account ← Traced.ofOption (loadedAccount none)
        f account) = [] := by
    split <;> rfl
  have hsilent {m : Send TalkMessage} (h : viewOf m = []) :
      viewOf (m >>= fun _ => (pure () : Send Unit)) = [] := by
    rw [viewOf_bind_silent fun _ => rfl, h]
  cases op with
  | text chat t =>
    refine hsilent ?_
    exact hguard _
  | inlineSticon chat t resources h =>
    refine hsilent ?_
    exact hguard _
  | sticker chat p =>
    refine hsilent ?_
    exact hguard _
  | image probe chat p =>
    refine hsilent ?_
    unfold sendImage
    split
    · rfl
    · split
      · rfl
      · exact hguard _
  | chatRemoved chat id time => rfl

end Operations

end Enil
