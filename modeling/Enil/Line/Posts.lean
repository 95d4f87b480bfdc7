import Enil.Line.PostGate

/-!
# Calls over the network

Any number of calls at once, of any accounts and to either source, with the user and the other
writers of the sessions beside them. Once a source has failed only what was under way is still
sent to it, and an account is stopped by its own failures alone.
-/

namespace Enil

open Lib

/-! ## All the calls -/

inductive NetCall (A : Type) where
  | line (p : LinePost A)
  | worker (path : String) (payload : Json) (cancel : Bool)

inductive NetAnswer where
  | line (r : LineResponse)
  | worker (j : Option Json)

inductive NetEvent (A : Type) where
  | setCredentials (url secret : Option String)
  | clearWorker
  | clearLine (a : A)
  | session (a : A) (file : Option Fields)

variable {A : Type} [DecidableEq A]

namespace NetCall

def health : NetCall A → Option A
  | .line p => p.health
  | .worker .. => none

def isLine : NetCall A → Bool
  | .line _ => true
  | .worker .. => false

def run (k : Codec) : NetCall A → Posting A NetAnswer
  | .line p => do return .line (← Posting.linePostEx k p)
  | .worker path payload cancel => do
    return .worker (← Posting.workerCall k.cj path payload cancel)

end NetCall

namespace Network

def event (w : Network A) : NetEvent A → Network A
  | .setCredentials url secret => { w with workerUrl := url, workerSecret := secret }
  | .clearWorker => { w with workerFailed := false }
  | .clearLine a => { w with lineFailed := fun b => if b = a then false else w.lineFailed b }
  | .session a file => { w with session := fun b => if b = a then file else w.session b }

end Network

/-- Any number of calls of any accounts at once. -/
def posts (A : Type) [DecidableEq A] (k : Codec) :
    Crew (Network A) PostOutcome (NetCall A) (NetEvent A) NetAnswer where
  call := NetCall.run k
  others e w := some (w.event e)

namespace Posting

variable {k : Codec}

theorem does_run (c : NetCall A) : Does c.health true true (c.run k) := by
  cases c with
  | line p => exact does_bind (does_linePostEx k p) fun _ => does_pure _
  | worker path payload cancel => exact does_bind (does_workerCall k.cj _ _ _) fun _ => does_pure _

theorem worker_run (c : NetCall A) :
    Prog.Gated workerMeter workerShut (fun _ _ => True) (c.run k) := by
  cases c with
  | line p => exact (worker_linePostEx k p).andThen fun _ => .pure trivial trivial
  | worker path payload cancel =>
    exact (gated_workerCall k.cj _ _ _).andThen fun _ => .pure trivial trivial

theorem sealed_run (c : NetCall A) :
    Prog.Gated sealedMeter workerShut (fun _ _ => True) (c.run k) := by
  cases c with
  | line p => exact (sealed_linePostEx k p).andThen fun _ => .pure trivial trivial
  | worker path payload cancel =>
    have hcall : Prog.Gated sealedMeter workerShut (fun _ _ => True)
        (workerCall (A := A) k.cj path payload cancel >>= fun r => pure (NetAnswer.worker r)) :=
      (granted_workerCall k.cj _ _ _).andThen fun _ => .pure trivial trivial
    exact hcall

theorem line_run {c : NetCall A} {a : A} (hc : c.health = some a) :
    Prog.Gated (lineMeter a) (lineShut a) (fun _ _ => True) (c.run k) := by
  cases c with
  | line p => exact (line_linePostEx k hc).andThen fun _ => .pure trivial trivial
  | worker path payload cancel => cases hc

/-! ## Failed states stay -/

/-- Every call at work does only what is for its health. -/
def Working (st : AtWork (Network A) PostOutcome (NetCall A) NetAnswer) : Prop :=
  ∀ c ∈ st.calls, Does c.1.health true true c.2

abbrev NetTurn (A : Type) := Crew.Turn PostOutcome (NetCall A) (NetEvent A)

variable {st st₁ st₂ : AtWork (Network A) PostOutcome (NetCall A) NetAnswer}
  {ms ms₁ ms₂ : List (NetTurn A)}

theorem working_of_run (h : st.calls = []) (hrun : (posts A k).machine.run st ms = some st₁) :
    Working st₁ := by
  have halways := Crew.run_always (P := fun c p => Does c.health true true p)
    (fun c => (does_run (k := k) c).always) (by rw [h]; exact fun c hc => nomatch hc) hrun
  exact fun c hc => (halways c hc).now

/-- A step of a call is an operation for its health. -/
theorem working_step {m : NetTurn A} (h : Working st)
    (hstep : (posts A k).step st m = some st₁) :
    Working st₁ ∧ ∀ i o, m = .go i o → ∃ c ∈ st.calls, ∃ act, Acts c.1.health true true act ∧
      act o st.world = some st₁.world := by
  cases m with
  | call t =>
    obtain rfl := Option.some.inj hstep
    refine ⟨?_, fun i o hm => nomatch hm⟩
    have ht := does_run (k := k) t
    show ∀ c ∈ (AtWork.start st t (NetCall.run k t)).calls, Does c.1.health true true c.2
    cases hp : NetCall.run k t with
    | pure a => exact h
    | step act next =>
      rw [hp] at ht
      intro c hc
      rcases List.mem_append.mp hc with hc | hc
      · exact h c hc
      · obtain rfl := List.mem_singleton.mp hc
        exact ht
  | go i o =>
    obtain ⟨t, act, next, w, hcall, hact, rfl⟩ := Crew.step_go hstep
    have hmem := List.mem_of_getElem? hcall
    have hdoes := h _ hmem
    refine ⟨fun c hc => ?_, fun i' o' hm => ?_⟩
    · rcases Crew.mem_resume hc with hc | rfl
      · exact h c hc
      · exact hdoes.2 o st.world
    · cases hm
      refine ⟨_, hmem, act, hdoes.1, hact.trans (congrArg some ?_)⟩
      cases next o st.world <;> rfl
  | others e =>
    obtain rfl := Option.some.inj hstep
    exact ⟨h, fun i o hm => nomatch hm⟩

/-- What has failed stays so but for the user. -/
theorem lineShut_step {a : A} {m : NetTurn A} (h : Working st) (hshut : lineShut a st.world)
    (hm : m ≠ .others (.clearLine a)) (hstep : (posts A k).step st m = some st₁) :
    lineShut a st₁.world := by
  obtain ⟨-, hgo⟩ := working_step h hstep
  cases m with
  | call t =>
    obtain rfl := Option.some.inj hstep
    show (AtWork.start st t (NetCall.run k t)).world.lineFailed a = true
    cases NetCall.run k t <;> exact hshut
  | go i o =>
    obtain ⟨c, -, act, hacts, hact⟩ := hgo i o rfl
    exact hacts.lineFailed a o _ _ hact hshut
  | others e =>
    obtain rfl := Option.some.inj hstep
    cases e with
    | clearLine b =>
      have hne : a ≠ b := fun hab => hm (by rw [hab])
      exact (if_neg hne).trans hshut
    | _ => exact hshut

theorem workerShut_step {m : NetTurn A} (h : Working st) (hshut : workerShut st.world)
    (hm : m ≠ .others .clearWorker) (hstep : (posts A k).step st m = some st₁) :
    workerShut st₁.world := by
  obtain ⟨-, hgo⟩ := working_step h hstep
  cases m with
  | call t =>
    obtain rfl := Option.some.inj hstep
    show (AtWork.start st t (NetCall.run k t)).world.workerFailed = true
    cases NetCall.run k t <;> exact hshut
  | go i o =>
    obtain ⟨c, -, act, hacts, hact⟩ := hgo i o rfl
    exact hacts.workerFailed o _ _ hact hshut
  | others e =>
    obtain rfl := Option.some.inj hstep
    cases e with
    | clearWorker => exact absurd rfl hm
    | _ => exact hshut

/-- A state that stays along a run in which nobody clears it. -/
theorem meets_shut {shut : Network A → Prop} {clear : NetEvent A}
    (hstep : ∀ {st st₁ : AtWork (Network A) PostOutcome (NetCall A) NetAnswer} {m : NetTurn A},
      Working st → shut st.world → m ≠ .others clear → (posts A k).step st m = some st₁ →
      shut st₁.world)
    (hwork : Working st₁) (hshut : shut st₁.world) (hms : ∀ m ∈ ms, m ≠ .others clear) :
    (posts A k).machine.Meets (fun st _ => shut st.world) st₁ ms := by
  have hclear : (posts A k).machine.Meets (fun _ m => m ≠ .others clear) st₁ ms := by
    induction ms generalizing st₁ with
    | nil => trivial
    | cons m ms ih =>
      rw [List.forall_mem_cons] at hms
      refine ⟨hms.1, fun st₂ hm => ih ?_ ?_ hms.2⟩
      · exact (working_step hwork hm).1
      · exact hstep hwork hshut hms.1 hm
  refine Machine.Meets.of_kept (I := fun st => Working st ∧ shut st.world)
    (fun hI hm hs => ⟨(working_step hI.1 hs).1, hstep hI.1 hI.2 hm hs⟩) (fun _ _ hI _ => hI.2)
    ⟨hwork, hshut⟩ hclear

/-- What the calls of other accounts leave. -/
theorem others_step {b : A} {m : NetTurn A} (h : Working st)
    (hcalls : ∀ c ∈ st.calls, c.1.health ≠ some b) (hcall : ∀ t, m = .call t → t.health ≠ some b)
    (hm : m ≠ .others (.clearLine b)) (hstep : (posts A k).step st m = some st₁) :
    (∀ c ∈ st₁.calls, c.1.health ≠ some b) ∧
      st₁.world.lineFailed b = st.world.lineFailed b ∧ sentFor b st₁.world = sentFor b st.world := by
  obtain ⟨-, hgo⟩ := working_step h hstep
  cases m with
  | call t =>
    obtain rfl := Option.some.inj hstep
    show (∀ c ∈ (AtWork.start st t (NetCall.run k t)).calls, c.1.health ≠ some b) ∧
      (AtWork.start st t (NetCall.run k t)).world.lineFailed b = _ ∧
      sentFor b (AtWork.start st t (NetCall.run k t)).world = _
    cases NetCall.run k t with
    | pure a => exact ⟨hcalls, rfl, rfl⟩
    | step act next =>
      refine ⟨fun c hc => ?_, rfl, rfl⟩
      rcases List.mem_append.mp hc with hc | hc
      · exact hcalls c hc
      · obtain rfl := List.mem_singleton.mp hc
        exact hcall t rfl
  | go i o =>
    obtain ⟨c, hc, act, hacts, hact⟩ := hgo i o rfl
    obtain ⟨t, act', next, w, hcall', hact', rfl⟩ := Crew.step_go hstep
    refine ⟨fun c hc => ?_, hacts.others b (hcalls c hc) o _ _ hact⟩
    rcases Crew.mem_resume hc with hc | rfl
    · exact hcalls c hc
    · exact hcalls (t, .step act' next) (List.mem_of_getElem? hcall')
  | others e =>
    obtain rfl := Option.some.inj hstep
    refine ⟨hcalls, ?_, by cases e <;> rfl⟩
    cases e with
    | clearLine a =>
      have hne : b ≠ a := fun hab => hm (by rw [hab])
      exact if_neg hne
    | _ => rfl

theorem others_run {b : A} (hwork : Working st₁) (hcalls : ∀ c ∈ st₁.calls, c.1.health ≠ some b)
    (hms : ∀ m ∈ ms, (∀ t, m = .call t → t.health ≠ some b) ∧ m ≠ .others (.clearLine b))
    (hrun : (posts A k).machine.run st₁ ms = some st₂) :
    st₂.world.lineFailed b = st₁.world.lineFailed b ∧
      sentFor b st₂.world = sentFor b st₁.world := by
  induction ms generalizing st₁ with
  | nil =>
    obtain rfl := Option.some.inj hrun
    exact ⟨rfl, rfl⟩
  | cons m ms ih =>
    obtain ⟨mid, hstep, hrest⟩ := Machine.run_cons_some.mp hrun
    rw [List.forall_mem_cons] at hms
    obtain ⟨hmid, hfailed, hsent⟩ := others_step hwork hcalls hms.1.1 hms.1.2 hstep
    obtain ⟨hfailed', hsent'⟩ := ih (working_step hwork hstep).1 hmid hms.2 hrest
    exact ⟨hfailed'.trans hfailed, hsent'.trans hsent⟩

/-! ## What is sent after a failure -/

/-- A call may send for the account it is under, and no other. -/
theorem quiet_run {c : NetCall A} {a : A} (hc : c.health ≠ some a) :
    (c.run k).Always fun p => p.Spends (lineMeter a) (lineShut a) (fun _ _ => True) 0 :=
  ((does_run c).imp fun _ h' => h'.still_others hc).spends fun _ _ => trivial

theorem quiet_worker {c : NetCall A} (hc : c.isLine = false) :
    (c.run k).Always fun p => p.Spends sealedMeter workerShut (fun _ _ => True) 0 := by
  cases c with
  | line p => cases hc
  | worker path payload cancel =>
    refine Prog.Only.spends (K := fun _ => True) (Prog.Only.imp (P := Acts none true false) ?_
      fun _ h' => h'.still_sealed) fun _ _ => trivial
    exact does_bind (does_workerCall k.cj _ _ _) fun _ => does_pure _

/-- However the calls of all accounts run beside one another: with LINE failed for `a`, no more
is sent for `a` than one request for each call for `a` at work when it had failed, until the
user clears it; with the worker failed, to the worker no more than one for each call at work,
and to LINE no more that the worker had signed or sealed than one for each; and where no call
is for `b`, its LINE state and its requests stay. -/
theorem posts_stop (h : st.calls = []) (hrun₁ : (posts A k).machine.run st ms₁ = some st₁)
    (hrun₂ : (posts A k).machine.run st₁ ms₂ = some st₂) :
    (∀ a, st₁.world.lineFailed a = true → (∀ m ∈ ms₂, m ≠ .others (.clearLine a)) →
      (sentFor a st₂.world).length ≤
        (sentFor a st₁.world).length + st₁.calls.countP fun c => c.1.health == some a) ∧
    (st₁.world.workerFailed = true → (∀ m ∈ ms₂, m ≠ .others .clearWorker) →
      st₂.world.toWorker.length ≤ st₁.world.toWorker.length + st₁.calls.length ∧
      (st₂.world.toLine.filter needsWorker).length ≤
        (st₁.world.toLine.filter needsWorker).length + st₁.calls.countP fun c => c.1.isLine) ∧
    ∀ b, (∀ c ∈ st₁.calls, c.1.health ≠ some b) →
      (∀ m ∈ ms₂, (∀ t, m = .call t → t.health ≠ some b) ∧ m ≠ .others (.clearLine b)) →
      st₂.world.lineFailed b = st₁.world.lineFailed b ∧
        sentFor b st₂.world = sentFor b st₁.world := by
  have hwork := working_of_run h hrun₁
  refine ⟨fun a hshut hms => ?_, fun hshut hms => ⟨?_, ?_⟩, fun b hcalls hms =>
    others_run hwork hcalls hms hrun₂⟩
  · refine Crew.run_gated (fun t => t.health == some a)
      (fun t ht => line_run (eq_of_beq ht)) (fun t ht => quiet_run fun hc => ?_)
      (fun e w w' _ he => ?_) h hrun₁ hrun₂ (meets_shut lineShut_step hwork hshut hms)
    · rw [hc, beq_self_eq_true] at ht
      cases ht
    · obtain rfl := Option.some.inj he
      cases e <;> exact Nat.le_refl _
  · have hbound := Crew.run_gated (fun _ => true) (fun t _ => worker_run t)
      (fun _ ht => nomatch ht) (fun e w w' _ he => by
        obtain rfl := Option.some.inj he
        cases e <;> exact Nat.le_refl _) h hrun₁ hrun₂
      (meets_shut workerShut_step hwork hshut hms)
    rwa [List.countP_true] at hbound
  · refine Crew.run_gated NetCall.isLine (fun t _ => sealed_run t)
      (fun t ht => quiet_worker ht) (fun e w w' _ he => ?_) h hrun₁ hrun₂
      (meets_shut workerShut_step hwork hshut hms)
    obtain rfl := Option.some.inj he
    cases e <;> exact Nat.le_refl _

/-! ## A request that was under way -/

/-- The worker answers with a signature, and nothing else is read. -/
def signCodec : Codec where
  cj := { parse := fun _ => some (.obj [("hmac", .str "hmac-1")]), print := fun _ => "" }
  source := { schema := [], bits := fun _ => 0, evp := .groups }
  double _ := 0
  printItem _ := ""
  language := "en"

def gatewayPost : LinePost Bool where
  health := some true
  bound := .identity .legacyChrome
  path := "/api/operation"
  body := "{}"
  accessToken := "access-1"

/-- Two calls pass the gate and have their signatures; the first is then refused. -/
def refusedMoves : List (NetTurn Bool) :=
  [.call (.line gatewayPost), .call (.line gatewayPost)] ++
    List.replicate 8 (.go 0 { text := some "signed" }) ++
    List.replicate 8 (.go 1 { text := some "signed" }) ++
    [.go 0 { status := 401 }, .go 0 {}]

/-- The second one is sent, and a third one is not. -/
def lateMoves : List (NetTurn Bool) :=
  [.call (.line gatewayPost), .go 1 {}, .go 0 {}]

abbrev NetState := AtWork (Network Bool) PostOutcome (NetCall Bool) NetAnswer

def gatewayStart : NetState where
  world := { workerUrl := some "https://worker", workerSecret := some "secret" }

def refusedState : NetState :=
  ((posts Bool signCodec).machine.run gatewayStart refusedMoves).get (by decide)

def lateState : NetState :=
  ((posts Bool signCodec).machine.run refusedState lateMoves).get (by decide)

def decryptCall : NetCall Bool := .worker "/decrypt" (.obj []) false

/-- Two calls of the worker pass the gate, and the worker fails the first. -/
def brokenMoves : List (NetTurn Bool) :=
  [.call decryptCall, .call decryptCall] ++ List.replicate 2 (.go 1 {}) ++
    List.replicate 7 (.go 0 { status := 500 })

/-- A third one stops at the gate, and the second is sent. -/
def lateDecryptMoves : List (NetTurn Bool) :=
  .call decryptCall :: (List.replicate 2 (.go 1 {}) ++ List.replicate 3 (.go 0 {}))

def brokenState : NetState :=
  ((posts Bool signCodec).machine.run gatewayStart brokenMoves).get (by decide)

def lateDecryptState : NetState :=
  ((posts Bool signCodec).machine.run brokenState lateDecryptMoves).get (by decide)

example : (sentFor true refusedState.world).length = 1 ∧ refusedState.calls.length = 1 ∧
    (sentFor true lateState.world).length = 2 ∧ lateState.calls.length = 0 := by decide

example : brokenState.world.toWorker.length = 1 ∧ brokenState.calls.length = 1 ∧
    lateDecryptState.world.toWorker.length = 2 ∧ lateDecryptState.calls.length = 1 := by decide

theorem posts_stop_late :
    (sentFor true lateState.world).length ≤ (sentFor true refusedState.world).length +
      (refusedState.calls.countP fun c => c.1.health == some true) ∧
    lateDecryptState.world.toWorker.length ≤
      brokenState.world.toWorker.length + brokenState.calls.length := by
  have hrun₁ : (posts Bool signCodec).machine.run gatewayStart refusedMoves = some refusedState :=
    (Option.some_get _).symm
  have hrun₂ : (posts Bool signCodec).machine.run refusedState lateMoves = some lateState :=
    (Option.some_get _).symm
  have hrun₃ : (posts Bool signCodec).machine.run gatewayStart brokenMoves = some brokenState :=
    (Option.some_get _).symm
  have hrun₄ : (posts Bool signCodec).machine.run brokenState lateDecryptMoves =
      some lateDecryptState := (Option.some_get _).symm
  refine ⟨(posts_stop rfl hrun₁ hrun₂).1 true (by decide) fun m hm => ?_,
    ((posts_stop rfl hrun₃ hrun₄).2.1 (by decide) fun m hm => ?_).1⟩
  · simp only [lateMoves, List.mem_cons, List.not_mem_nil, or_false] at hm
    rcases hm with rfl | rfl | rfl <;> exact fun h => nomatch h
  · rintro rfl
    simp [lateDecryptMoves] at hm

end Posting

end Enil
