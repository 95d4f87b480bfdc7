import Mathlib.Data.List.Nodup
import Mathlib.Logic.Function.Basic
import Enil.Json.Basic
import Enil.Lib.Base64
import Enil.Lib.Machine

/-!
# The login key of a client

A client is given a handle for the key that was generated for it, and in its restore
state the key itself. Handles are numbers of one isolate: another isolate gives the same
ones to other keys. `unwrapKeychain` tries the handle before the key of the restore
state, so it opens a channel with whatever key has that handle in the isolate that
serves the request.
-/

namespace Enil

open Lib

/-! ## The sandbox -/

/-- The external LTSM on its private keys `κ`. -/
structure Ltsm (κ : Type) where
  exportKey : κ → List UInt8
  publicKey : κ → List UInt8
  loadKey : List UInt8 → Option κ
  load_export : ∀ k, loadKey (exportKey k) = some k
  export_ne : ∀ k, exportKey k ≠ []

/-- An isolate: of `__ENIL_LTSM_STATE__` the keys and the next object id, which keys and
channels take alike, and the QR keys of `__ENIL_WORKER_RESTORE_HANDLES__`. -/
structure Isolate (κ : Type) where
  keys : Nat → Option κ := fun _ => none
  nextObjectId : Nat := 0
  qrKeys : List (String × Nat) := []

namespace Isolate

variable {κ : Type} (s : Isolate κ)

/-- A new object, a key or (`none`) a channel. -/
def add (o : Option κ) : Isolate κ :=
  { s with keys := Function.update s.keys s.nextObjectId o, nextObjectId := s.nextObjectId + 1 }

def addAll (os : List (Option κ)) : Isolate κ := os.foldl add s

def keyAt : Int → Option κ
  | .ofNat n => s.keys n
  | .negSucc _ => none

/-- createE2eeChannel, and the key the channel is created from. -/
def createE2eeChannel (handle : Int) : Option (κ × Isolate κ) :=
  (s.keyAt handle).map fun k => (k, s.add none)

def resetRestoreHandles : Isolate κ := { s with qrKeys := [] }

end Isolate

/-! ## Base64 -/

def bytesToBase64 (bytes : List UInt8) : String := .ofList (Base64.encode bytes)

def isAsciiSpace (c : Char) : Bool :=
  c == ' ' || c == '\t' || c == '\n' || c == '\r' || c.toNat == 12

/-- A text of whole groups without the characters that fill up the last one. -/
def dropPadding (cs : List Char) : List Char :=
  if cs.length % 4 = 0 then
    if cs.drop (cs.length - 2) = ['=', '='] then cs.take (cs.length - 2)
    else if cs.drop (cs.length - 1) = ['='] then cs.take (cs.length - 1)
    else cs
  else cs

/-- atob: blanks are ignored and the last group need not be filled up. -/
def atob (s : String) : Option (List UInt8) :=
  let cs := dropPadding (s.toList.filter fun c => !isAsciiSpace c)
  Base64.decode (cs ++ List.replicate ((4 - cs.length % 4) % 4) '=')

/-- base64ToBytes; `none` is an exception. -/
def base64ToBytes (s : String) : Option (List UInt8) := if s = "" then none else atob s

/-! ## The restore state -/

/-- An entry of `workerRestoreState.qrKeys`; what is no string is left out. -/
structure QrKey where
  logicalId : Option String
  keyId : Int
  publicKey : String
  exportedKey : Option String

def qrKeyLogicalId (keyId : Int) : String := "qr-login-" ++ toString keyId

def upsertQrKeyState (keyId : Int) (publicKey exportedKey : String) : List QrKey → List QrKey
  | [] => [⟨some (qrKeyLogicalId keyId), keyId, publicKey, some exportedKey⟩]
  | q :: qs =>
    if q.logicalId = some (qrKeyLogicalId keyId) then
      { q with publicKey := publicKey, exportedKey := some exportedKey } :: qs
    else q :: upsertQrKeyState keyId publicKey exportedKey qs

section

variable {κ : Type} (ltsm : Ltsm κ)

def loadRestoredQrKey (s : Isolate κ) (state : List QrKey) (qrKeyId : Int) :
    Option (Int × Isolate κ) :=
  match state.find? fun q => q.keyId == qrKeyId with
  | none => some (qrKeyId, s)
  | some q =>
    match q.exportedKey with
    | none => some (qrKeyId, s)
    | some exportedKey =>
      let logicalId := q.logicalId.getD (qrKeyLogicalId qrKeyId)
      match s.qrKeys.lookup logicalId with
      | some h => some (h, s)
      | none => do
        let k ← ltsm.loadKey (← base64ToBytes exportedKey)
        return (s.nextObjectId, { s.add (some k) with
          qrKeys := (logicalId, s.nextObjectId) :: s.qrKeys })

/-- createQrLoginChannel; a channel fails for an unknown handle only. -/
def createQrLoginChannel (s : Isolate κ) (state : List QrKey) (qrKeyId : Int) :
    Option (κ × Isolate κ) :=
  match s.createE2eeChannel qrKeyId with
  | some r => some r
  | none => do
    let (handle, s) ← loadRestoredQrKey ltsm s state qrKeyId
    s.createE2eeChannel handle

/-- generatePortableCurveKey, when `k` is the key that is generated. -/
def generatePortableCurveKey (s : Isolate κ) (state : List QrKey) (k : κ) :
    Int × List QrKey × Isolate κ :=
  let keyId : Int := s.nextObjectId
  (keyId,
    upsertQrKeyState keyId (bytesToBase64 (ltsm.publicKey k)) (bytesToBase64 (ltsm.exportKey k))
      state,
    s.add (some k))

end

/-! ## Clients and isolates -/

/-- A client: the QR keys of its restore state, and for each key id it holds the key that
was generated by the call that returned the id. -/
structure WorkerClient (κ : Type) where
  qrKeys : List QrKey := []
  generated : Int → Option κ := fun _ => none

/-- A channel of `unwrapKeychain`: the key it is created from, and the client's. -/
structure Unwrapping (κ : Type) where
  used : κ
  generated : Option κ

structure WorkerWorld (κ : Type) where
  isolates : Nat → Isolate κ := fun _ => {}
  clients : Nat → WorkerClient κ := fun _ => {}
  unwrappings : List (Unwrapping κ) := []

inductive WorkerEvent (κ : Type) where
  /-- /keygen; the response may be lost. -/
  | keygen (isolate client : Nat) (k : κ) (arrives : Bool)
  /-- /e2ee/unwrap-keychain; the keys of the chain, if the channel can unwrap it. -/
  | unwrap (isolate client : Nat) (qrKeyId : Int) (chain : Option (List κ)) (arrives : Bool)
  /-- Any other request; of these only the objects count that they make. -/
  | serve (isolate : Nat) (objects : List (Option κ))
  /-- The isolate begins anew, or its state is reset. -/
  | restart (isolate : Nat)

namespace WorkerWorld

variable {κ : Type} (ltsm : Ltsm κ) (w : WorkerWorld κ)

/-- The handles of a request are forgotten at its end. -/
def setIsolate (i : Nat) (s : Isolate κ) : WorkerWorld κ :=
  { w with isolates := Function.update w.isolates i s.resetRestoreHandles }

def setClient (c : Nat) (x : WorkerClient κ) : WorkerWorld κ :=
  { w with clients := Function.update w.clients c x }

def keygen (i c : Nat) (k : κ) (arrives : Bool) : WorkerWorld κ :=
  let x := w.clients c
  let (keyId, state, s) := generatePortableCurveKey ltsm (w.isolates i) x.qrKeys k
  let w := w.setIsolate i s
  if arrives then w.setClient c ⟨state, Function.update x.generated keyId (some k)⟩ else w

def unwrap (i c : Nat) (qrKeyId : Int) (chain : Option (List κ)) (arrives : Bool) :
    WorkerWorld κ :=
  let x := w.clients c
  match createQrLoginChannel ltsm (w.isolates i) x.qrKeys qrKeyId with
  | none => w.setIsolate i (w.isolates i)
  | some (k, s) =>
    let w := { w with unwrappings := w.unwrappings ++ [Unwrapping.mk k (x.generated qrKeyId)] }
    match chain with
    | none => w.setIsolate i s
    | some keys =>
      let w := w.setIsolate i (s.addAll (keys.map some))
      if arrives then
        w.setClient c ⟨x.qrKeys.filter fun q => q.keyId != qrKeyId,
          Function.update x.generated qrKeyId none⟩
      else w

def step : WorkerEvent κ → WorkerWorld κ
  | .keygen i c k arrives => w.keygen ltsm i c k arrives
  | .unwrap i c qrKeyId chain arrives => w.unwrap ltsm i c qrKeyId chain arrives
  | .serve i objects => w.setIsolate i ((w.isolates i).addAll objects)
  | .restart i => w.setIsolate i {}

end WorkerWorld

def workerMachine {κ : Type} (ltsm : Ltsm κ) : Machine (WorkerWorld κ) (WorkerEvent κ) :=
  ⟨fun w e => some (w.step ltsm e)⟩

/-! ## An exported key is loaded again -/

theorem refill {cs : List Char} (h : cs.length % 4 = 0) :
    dropPadding cs ++ List.replicate ((4 - (dropPadding cs).length % 4) % 4) '=' = cs := by
  unfold dropPadding
  rw [if_pos h]
  split_ifs with h₂ h₁
  · have hlen := congrArg List.length h₂
    simp only [List.length_drop, List.length_cons, List.length_nil] at hlen
    have htake : (cs.take (cs.length - 2)).length = cs.length - 2 := by
      rw [List.length_take]
      omega
    rw [htake, show (4 - (cs.length - 2) % 4) % 4 = 2 by omega,
      show List.replicate 2 '=' = ['=', '='] from rfl, ← h₂, List.take_append_drop]
  · have hlen := congrArg List.length h₁
    simp only [List.length_drop, List.length_cons, List.length_nil] at hlen
    have htake : (cs.take (cs.length - 1)).length = cs.length - 1 := by
      rw [List.length_take]
      omega
    rw [htake, show (4 - (cs.length - 1) % 4) % 4 = 1 by omega,
      show List.replicate 1 '=' = ['='] from rfl, ← h₁, List.take_append_drop]
  · rw [show (4 - cs.length % 4) % 4 = 0 by omega, List.replicate_zero, List.append_nil]

theorem base64ToBytes_bytesToBase64 {bytes : List UInt8} (h : bytes ≠ []) :
    base64ToBytes (bytesToBase64 bytes) = some bytes := by
  have hlen := Base64.length_encode bytes
  have hpos := List.length_pos_iff.mpr h
  have hne : bytesToBase64 bytes ≠ "" := by
    intro he
    have hnil : Base64.encode bytes = [] := by
      rw [← String.toList_ofList (l := Base64.encode bytes), ← bytesToBase64, he]
      rfl
    rw [hnil, List.length_nil] at hlen
    omega
  have hspace : (Base64.alphabet.all fun c => !isAsciiSpace c) = true := by decide
  have hfilter : (Base64.encode bytes).filter (fun c => !isAsciiSpace c) = Base64.encode bytes := by
    rw [List.filter_eq_self]
    intro c hc
    rcases Base64.mem_encode hc with hc | rfl
    · exact List.all_eq_true.mp hspace c hc
    · rfl
  rw [base64ToBytes, if_neg hne, atob, bytesToBase64, String.toList_ofList, hfilter,
    refill (by omega), Base64.decode_encode]

/-! ## Names of keys -/

theorem natRepr_inj {m n : Nat} (h : m.repr = n.repr) : m = n := by
  have hd := congrArg (fun s : String => digits (s.toList.map Char.toNat)) h
  simp only [digits_repr] at hd
  exact hd

/-- The sign of a number is no digit. -/
theorem minus_append_ne {m n : Nat} : "-" ++ m.repr ≠ n.repr := by
  intro h
  have hlist := congrArg String.toList h
  rw [String.toList_append] at hlist
  have hmem : '-' ∈ n.repr.toList := by
    rw [← hlist]
    exact List.mem_append_left _ (by decide)
  exact absurd (isDigit_repr hmem) (by decide)

theorem intRepr_inj {a b : Int} (h : toString a = toString b) : a = b := by
  change a.repr = b.repr at h
  rw [Int.repr_eq_if, Int.repr_eq_if] at h
  split_ifs at h
  · have := natRepr_inj h
    omega
  · exact absurd h.symm minus_append_ne
  · exact absurd h minus_append_ne
  · have := natRepr_inj (String.append_right_inj _ |>.mp h)
    omega

theorem qrKeyLogicalId_inj {a b : Int} (h : qrKeyLogicalId a = qrKeyLogicalId b) : a = b :=
  intRepr_inj (String.append_right_inj _ |>.mp h)

section

variable {state : List QrKey} {keyId id : Int} {publicKey exportedKey : String}

/-- Every entry is under the name of its id. -/
def Named (state : List QrKey) : Prop :=
  ∀ q ∈ state, q.logicalId = some (qrKeyLogicalId q.keyId)

theorem named_upsert (h : Named state) :
    Named (upsertQrKeyState keyId publicKey exportedKey state) := by
  induction state with
  | nil =>
    intro q hq
    obtain rfl := List.mem_singleton.mp hq
    rfl
  | cons q qs ih =>
    obtain ⟨hq, hqs⟩ := List.forall_mem_cons.mp h
    rw [upsertQrKeyState]
    split_ifs
    · exact List.forall_mem_cons.mpr ⟨hq, hqs⟩
    · exact List.forall_mem_cons.mpr ⟨hq, ih hqs⟩

theorem find?_upsert_self (h : Named state) :
    ∃ q, (upsertQrKeyState keyId publicKey exportedKey state).find? (fun q => q.keyId == keyId) =
      some q ∧ q.exportedKey = some exportedKey := by
  induction state with
  | nil =>
    rw [upsertQrKeyState, List.find?_cons, beq_self_eq_true]
    exact ⟨_, rfl, rfl⟩
  | cons q qs ih =>
    obtain ⟨hq, hqs⟩ := List.forall_mem_cons.mp h
    rw [upsertQrKeyState]
    split_ifs with hname
    · rw [hq] at hname
      have hid := qrKeyLogicalId_inj (Option.some.inj hname)
      rw [List.find?_cons]
      dsimp only
      rw [hid, beq_self_eq_true]
      exact ⟨_, rfl, rfl⟩
    · have hid : q.keyId ≠ keyId := by
        rintro rfl
        exact hname hq
      obtain ⟨r, hr, he⟩ := ih hqs
      exact ⟨r, by rw [List.find?_cons, beq_false_of_ne hid]; exact hr, he⟩

theorem find?_upsert_other (h : Named state) (hne : id ≠ keyId) :
    (upsertQrKeyState keyId publicKey exportedKey state).find? (fun q => q.keyId == id) =
      state.find? fun q => q.keyId == id := by
  induction state with
  | nil =>
    rw [upsertQrKeyState, List.find?_cons, beq_false_of_ne (Ne.symm hne)]
  | cons q qs ih =>
    obtain ⟨hq, hqs⟩ := List.forall_mem_cons.mp h
    rw [upsertQrKeyState]
    split_ifs with hname
    · rw [hq] at hname
      have hid : q.keyId ≠ id := by
        rw [qrKeyLogicalId_inj (Option.some.inj hname)]
        exact Ne.symm hne
      rw [List.find?_cons, List.find?_cons]
      dsimp only
      rw [beq_false_of_ne hid]
    · rw [List.find?_cons, List.find?_cons, ih hqs]

theorem find?_filter_other (hne : id ≠ keyId) :
    (state.filter fun q => q.keyId != keyId).find? (fun q => q.keyId == id) =
      state.find? fun q => q.keyId == id := by
  rw [List.find?_filter]
  congr 1
  funext q
  by_cases hq : q.keyId = id
  · simp [hq, hne]
  · simp [hq]

end

/-! ## The channel of a request -/

section

variable {κ : Type} {ltsm : Ltsm κ} {s : Isolate κ} {state : List QrKey} {id : Int} {k : κ}

/-- The state has the key for an id. -/
def Holds (ltsm : Ltsm κ) (state : List QrKey) (id : Int) (k : κ) : Prop :=
  ∃ q, state.find? (fun q => q.keyId == id) = some q ∧
    q.exportedKey = some (bytesToBase64 (ltsm.exportKey k))

theorem Isolate.keyAt_add (s : Isolate κ) (o : Option κ) :
    (s.add o).keyAt s.nextObjectId = o := by
  show Function.update s.keys s.nextObjectId o s.nextObjectId = o
  rw [Function.update_self]

/-- The key that has the handle in the isolate comes before the client's. -/
theorem createQrLoginChannel_key (hs : s.qrKeys = []) (hq : Holds ltsm state id k) :
    (createQrLoginChannel ltsm s state id).map Prod.fst = some ((s.keyAt id).getD k) := by
  obtain ⟨q, hfind, hexported⟩ := hq
  unfold createQrLoginChannel Isolate.createE2eeChannel
  cases hk : s.keyAt id with
  | some k' => rfl
  | none =>
    have hload : loadRestoredQrKey ltsm s state id = some ((s.nextObjectId : Int),
        { s.add (some k) with
          qrKeys := (q.logicalId.getD (qrKeyLogicalId id), s.nextObjectId) :: s.qrKeys }) := by
      unfold loadRestoredQrKey
      rw [hfind]
      dsimp only
      rw [hexported, hs]
      simp only [List.lookup_nil, base64ToBytes_bytesToBase64 (ltsm.export_ne k),
        Option.bind_eq_bind, Option.bind_some, ltsm.load_export]
      rfl
    have hkey := s.keyAt_add (some k)
    simp only [Option.map_none, hload, Option.bind_eq_bind, Option.bind_some, Option.map_map]
    show Option.map _ ((s.add (some k)).keyAt s.nextObjectId) = _
    rw [hkey]
    rfl

end

/-! ## Runs -/

namespace WorkerWorld

variable {κ : Type} {ltsm : Ltsm κ} {w : WorkerWorld κ}

/-- Between requests no handle is remembered, and every client has the keys that were
generated for it. -/
structure Ok (ltsm : Ltsm κ) (w : WorkerWorld κ) : Prop where
  handles : ∀ i, (w.isolates i).qrKeys = []
  named : ∀ c, Named (w.clients c).qrKeys
  holds : ∀ c id k, (w.clients c).generated id = some k → Holds ltsm (w.clients c).qrKeys id k

theorem Ok.initial : Ok ltsm ({} : WorkerWorld κ) where
  handles _ := rfl
  named _ := by
    rintro q ⟨⟩
  holds := by
    rintro c id k ⟨⟩

theorem Ok.setIsolate (h : w.Ok ltsm) (i : Nat) (s : Isolate κ) : (w.setIsolate i s).Ok ltsm where
  handles j := by
    show (Function.update w.isolates i s.resetRestoreHandles j).qrKeys = []
    rw [Function.update_apply]
    split
    · rfl
    · exact h.handles j
  named := h.named
  holds := h.holds

theorem Ok.setClient (h : w.Ok ltsm) (c : Nat) {x : WorkerClient κ} (hn : Named x.qrKeys)
    (hx : ∀ id k, x.generated id = some k → Holds ltsm x.qrKeys id k) :
    (w.setClient c x).Ok ltsm where
  handles := h.handles
  named d := by
    show Named (Function.update w.clients c x d).qrKeys
    rw [Function.update_apply]
    split
    · exact hn
    · exact h.named d
  holds d := by
    show ∀ id k, (Function.update w.clients c x d).generated id = some k →
      Holds ltsm (Function.update w.clients c x d).qrKeys id k
    rw [Function.update_apply]
    split
    · exact hx
    · exact h.holds d

theorem Ok.record (h : w.Ok ltsm) (us : List (Unwrapping κ)) :
    { w with unwrappings := us }.Ok ltsm := ⟨h.handles, h.named, h.holds⟩

theorem Ok.keygen (h : w.Ok ltsm) (i c : Nat) (k : κ) (arrives : Bool) :
    (w.keygen ltsm i c k arrives).Ok ltsm := by
  unfold WorkerWorld.keygen generatePortableCurveKey
  dsimp only
  cases arrives with
  | false => exact h.setIsolate i _
  | true =>
    refine (h.setIsolate i _).setClient c (named_upsert (h.named c)) ?_
    intro id k' hk'
    dsimp only at hk' ⊢
    by_cases hid : id = (w.isolates i).nextObjectId
    · subst hid
      rw [Function.update_self] at hk'
      obtain rfl := Option.some.inj hk'
      exact find?_upsert_self (h.named c)
    · rw [Function.update_of_ne hid] at hk'
      obtain ⟨q, hq, he⟩ := h.holds c id k' hk'
      exact ⟨q, by rw [find?_upsert_other (h.named c) hid]; exact hq, he⟩

theorem Ok.unwrap (h : w.Ok ltsm) (i c : Nat) (qrKeyId : Int) (chain : Option (List κ))
    (arrives : Bool) : (w.unwrap ltsm i c qrKeyId chain arrives).Ok ltsm := by
  unfold WorkerWorld.unwrap
  dsimp only
  split
  · exact h.setIsolate i _
  · cases chain with
    | none => exact (h.record _).setIsolate i _
    | some keys =>
      cases arrives with
      | false => exact (h.record _).setIsolate i _
      | true =>
        refine ((h.record _).setIsolate i _).setClient c ?_ ?_
        · intro q hq
          exact h.named c q (List.mem_filter.mp hq).1
        · intro id k hk
          dsimp only at hk ⊢
          by_cases hid : id = qrKeyId
          · subst hid
            rw [Function.update_self] at hk
            cases hk
          · rw [Function.update_of_ne hid] at hk
            obtain ⟨q, hq, he⟩ := h.holds c id k hk
            exact ⟨q, by rw [find?_filter_other hid]; exact hq, he⟩

theorem Ok.step (h : w.Ok ltsm) (e : WorkerEvent κ) : (w.step ltsm e).Ok ltsm := by
  cases e with
  | keygen i c k arrives => exact h.keygen i c k arrives
  | unwrap i c qrKeyId chain arrives => exact h.unwrap i c qrKeyId chain arrives
  | serve i objects => exact h.setIsolate i _
  | restart i => exact h.setIsolate i _

/-- No other key has the handle in the isolate that serves the request. -/
def Unaliased (w : WorkerWorld κ) : WorkerEvent κ → Prop
  | .unwrap i c qrKeyId _ _ => ∀ k, (w.clients c).generated qrKeyId = some k →
      ∀ k', (w.isolates i).keyAt qrKeyId = some k' → k' = k
  | _ => True

/-- Every channel so far was created from the client's own key. -/
def Own (w : WorkerWorld κ) : Prop :=
  ∀ u ∈ w.unwrappings, ∀ k, u.generated = some k → u.used = k

theorem own_unwrap (hok : w.Ok ltsm) (h : w.Own) {i c : Nat} {qrKeyId : Int}
    {chain : Option (List κ)} {arrives : Bool}
    (hun : w.Unaliased (.unwrap i c qrKeyId chain arrives)) :
    (w.unwrap ltsm i c qrKeyId chain arrives).Own := by
  unfold WorkerWorld.unwrap
  dsimp only
  split
  · exact h
  · rename_i used s hchannel
    have hnew : ∀ k, (w.clients c).generated qrKeyId = some k → used = k := by
      intro k hk
      have hkey := createQrLoginChannel_key (hok.handles i) (hok.holds c qrKeyId k hk)
      rw [hchannel, Option.map_some, Option.some.injEq] at hkey
      have hused : used = ((w.isolates i).keyAt qrKeyId).getD k := hkey
      rw [hused]
      cases hat : (w.isolates i).keyAt qrKeyId with
      | none => rfl
      | some k' => exact hun k hk k' hat
    have hall : { w with unwrappings :=
        w.unwrappings ++ [Unwrapping.mk used ((w.clients c).generated qrKeyId)] }.Own := by
      intro u hu
      rcases List.mem_append.mp hu with hu | hu
      · exact h u hu
      · obtain rfl := List.mem_singleton.mp hu
        exact hnew
    cases chain with
    | none => exact hall
    | some keys => cases arrives <;> exact hall

theorem own_step (hok : w.Ok ltsm) (h : w.Own) {e : WorkerEvent κ} (hun : w.Unaliased e) :
    (w.step ltsm e).Own := by
  cases e with
  | keygen i c k arrives => cases arrives <;> exact h
  | unwrap i c qrKeyId chain arrives => exact own_unwrap hok h hun
  | serve i objects => exact h
  | restart i => exact h

theorem run_ok {es : List (WorkerEvent κ)} (h : (workerMachine ltsm).run {} es = some w) :
    w.Ok ltsm := by
  refine Machine.run_invariant (I := fun w => w.Ok ltsm) ?_ Ok.initial h
  intro s t e hs ht
  obtain rfl := Option.some.inj ht
  exact hs.step e

end WorkerWorld

/-- In a run where every unwrapping finds no other key under the client's handle, each
channel is created from the key that was generated for the client; and a channel that a
client asks for is created from that key exactly where no other key has the handle. -/
theorem unwraps_own_key {κ : Type} (ltsm : Ltsm κ) {es : List (WorkerEvent κ)}
    {w : WorkerWorld κ} (h : (workerMachine ltsm).run {} es = some w) :
    ((workerMachine ltsm).Meets WorkerWorld.Unaliased {} es → w.Own) ∧
    ∀ i c id k, (w.clients c).generated id = some k →
      ((createQrLoginChannel ltsm (w.isolates i) (w.clients c).qrKeys id).map Prod.fst = some k ↔
        ∀ k', (w.isolates i).keyAt id = some k' → k' = k) := by
  constructor
  · intro hmeets
    have hstep : ∀ {s t : WorkerWorld κ} {e : WorkerEvent κ}, s.Ok ltsm ∧ s.Own →
        s.Unaliased e → (workerMachine ltsm).step s e = some t → t.Ok ltsm ∧ t.Own := by
      rintro s t e ⟨hok, hown⟩ hun ht
      obtain rfl := Option.some.inj ht
      exact ⟨hok.step e, WorkerWorld.own_step hok hown hun⟩
    have hinit : ({} : WorkerWorld κ).Own := by
      rintro u ⟨⟩
    exact (Machine.run_invariant_of_meets hstep ⟨.initial, hinit⟩ hmeets h).2
  · intro i c id k hk
    have hok := WorkerWorld.run_ok h
    rw [createQrLoginChannel_key (hok.handles i) (hok.holds c id k hk), Option.some.injEq]
    cases hat : (w.isolates i).keyAt id with
    | none =>
      constructor
      · rintro _ k' ⟨⟩
      · intro _
        rfl
    | some k₁ =>
      constructor
      · intro hk₁ k' hk'
        have hown : k₁ = k := hk₁
        rw [← Option.some.inj hk', hown]
      · exact fun hall => hall k₁ rfl

/-- A key is its number, and is exported as one byte. -/
def byteLtsm : Ltsm UInt8 where
  exportKey k := [k]
  publicKey k := [k]
  loadKey
    | [k] => some k
    | _ => none
  load_export _ := rfl
  export_ne _ := List.cons_ne_nil _ _

/-- A key is generated in isolate 0 and its handle is tried there. -/
theorem unwraps_own_key_same_isolate : ∃ w : WorkerWorld UInt8,
    (workerMachine byteLtsm).run {} [.keygen 0 0 7 true, .unwrap 0 0 0 (some []) true] = some w ∧
    w.Own := by
  have hrun : (workerMachine byteLtsm).run {}
      [.keygen 0 0 7 true, .unwrap 0 0 0 (some []) true] = some _ := rfl
  refine ⟨_, hrun, (unwraps_own_key byteLtsm hrun).1 ?_⟩
  refine ⟨trivial, fun m hm => ⟨?_, fun _ _ => trivial⟩⟩
  obtain rfl := Option.some.inj hm
  intro k hk k' hk'
  have hk7 : some (7 : UInt8) = some k := hk
  have hk7' : some (7 : UInt8) = some k' := hk'
  exact Option.some.inj (hk7'.symm.trans hk7)

/-- Two clients are given handle 0 in different isolates: the second isolate opens the
first client's channel with the second client's key. -/
theorem unwraps_other_key : ¬ ∀ (es : List (WorkerEvent UInt8)) (w : WorkerWorld UInt8),
    (workerMachine byteLtsm).run {} es = some w → w.Own := by
  intro hall
  have h := hall [.keygen 0 0 7 true, .restart 0, .keygen 0 1 9 true, .unwrap 0 0 0 (some []) true]
    _ rfl
  have hused : (9 : UInt8) = 7 := h ⟨9, some 7⟩ (List.mem_singleton.mpr rfl) 7 rfl
  exact absurd hused (by decide)

end Enil
