import Enil.Lib.Machine

/-!
# Programs that may stop anywhere

A program performs one operation after the other on a world. What an operation does
depends on an outcome from outside, and it may have to wait. Between two operations others
may move the world, and a crash may end the program and leave a world behind. `Prog.Ensures`
says what a program keeps at every one of these points and what holds where it ends;
`Ensures.upTo` carries it to a single call that may be cut off, and `System.run_ensures` to
all runs of calls, crashes and moves of others.
-/

namespace Enil.Lib

/-- Programs on worlds `W` whose operations have outcomes `O`; `act` is `none` where the
operation waits. -/
inductive Prog (W O α : Type) where
  | pure (a : α)
  | step (act : O → W → Option W) (next : O → W → Prog W O α)

namespace Prog

variable {W O α β : Type}

def bind : Prog W O α → (α → Prog W O β) → Prog W O β
  | .pure a, f => f a
  | .step act next, f => .step act fun o w => bind (next o w) f

instance : Monad (Prog W O) where
  pure := .pure
  bind := bind

@[simp] theorem pure_bind (a : α) (f : α → Prog W O β) :
    (Pure.pure a : Prog W O α) >>= f = f a := rfl

@[simp] theorem step_bind (act : O → W → Option W) (next : O → W → Prog W O α)
    (f : α → Prog W O β) : (Prog.step act next) >>= f = .step act fun o w => next o w >>= f := rfl

def op (f : O → W → α × W) : Prog W O α :=
  .step (fun o w => some (f o w).2) fun o w => .pure (f o w).1

/-- `p`, and where it gives a value `f` on it. -/
def andThen (p : Prog W O (Option α)) (f : α → Prog W O (Option β)) : Prog W O (Option β) :=
  p >>= fun
    | none => Pure.pure none
    | some a => f a

/-! ## Programs of harmless operations -/

/-- Every operation has `P` and every value the program may give has `K`. -/
def Only (P : (O → W → Option W) → Prop) (K : α → Prop) : Prog W O α → Prop
  | .pure a => K a
  | .step act next => P act ∧ ∀ o w, Only P K (next o w)

namespace Only

variable {P : (O → W → Option W) → Prop} {K : α → Prop} {L : β → Prop}

theorem pure {a : α} (h : K a) : Only P K (Pure.pure a : Prog W O α) := h

theorem op {f : O → W → α × W} (h : P fun o w => some (f o w).2) (hK : ∀ o w, K (f o w).1) :
    Only P K (Prog.op f) := ⟨h, hK⟩

theorem bind {p : Prog W O α} {f : α → Prog W O β} (hp : Only P K p)
    (hf : ∀ a, K a → Only P L (f a)) : Only P L (p >>= f) := by
  induction p with
  | pure a => exact hf a hp
  | step act next ih => exact ⟨hp.1, fun o w => ih o w (hp.2 o w)⟩

theorem ite {c : Prop} [Decidable c] {p q : Prog W O α} (hp : c → Only P K p)
    (hq : ¬c → Only P K q) : Only P K (if c then p else q) := by
  split
  · exact hp ‹_›
  · exact hq ‹_›

theorem mono (h : ∀ a, K a → K' a) {p : Prog W O α} (hp : Only P K p) : Only P K' p := by
  induction p with
  | pure a => exact h a hp
  | step act next ih => exact ⟨hp.1, fun o w => ih o w (hp.2 o w)⟩

theorem andThen {p : Prog W O (Option α)} {f : α → Prog W O (Option β)}
    (hp : Only P (fun r => ∀ a ∈ r, K a) p)
    (hf : ∀ a, K a → Only P (fun r => ∀ b ∈ r, L b) (f a)) :
    Only P (fun r => ∀ b ∈ r, L b) (p.andThen f) := by
  refine hp.bind fun r hr => ?_
  cases r with
  | none => exact (fun b hb => nomatch hb)
  | some a => exact hf a (hr a rfl)

end Only

end Prog

/-! ## Rely and guarantee -/

/-- What a program may count on and what it keeps: `inv` holds at every point, the moves of
others are in `rely`, its own are in `guar`, and outcomes are `ok`. -/
structure Rules (W O : Type) where
  inv : W → Prop
  rely : W → W → Prop
  rely_refl : ∀ w, rely w w
  rely_trans : ∀ {a b c}, rely a b → rely b c → rely a c
  guar : W → W → Prop
  guar_refl : ∀ w, guar w w
  guar_trans : ∀ {a b c}, guar a b → guar b c → guar a c
  ok : O → Prop

namespace Prog

variable {W O α β : Type} (R : Rules W O)

/-- From `w` the program keeps the rules and ends where `Q` holds of its value and the world. -/
def Ensures (Q : α → W → Prop) : Prog W O α → W → Prop
  | .pure a, w => Q a w
  | .step act next, w => ∀ w₁, R.rely w w₁ → R.inv w₁ → ∀ o w₂, R.ok o → act o w₁ = some w₂ →
      R.inv w₂ ∧ R.guar w₁ w₂ ∧ Ensures Q (next o w₁) w₂

namespace Ensures

variable {R} {Q : α → W → Prop} {Q' : β → W → Prop} {w : W}

theorem pure {a : α} (h : Q a w) : Ensures R Q (Pure.pure a : Prog W O α) w := h

theorem mono (h : ∀ a w, Q a w → Q₁ a w) {p : Prog W O α} (hp : Ensures R Q p w) :
    Ensures R Q₁ p w := by
  induction p generalizing w with
  | pure a => exact h a w hp
  | step act next ih =>
    intro w₁ hrely hinv o w₂ hok hact
    obtain ⟨hinv', hguar, hnext⟩ := hp w₁ hrely hinv o w₂ hok hact
    exact ⟨hinv', hguar, ih o w₁ hnext⟩

theorem bind {p : Prog W O α} {f : α → Prog W O β} (hp : Ensures R Q p w)
    (hf : ∀ a w, Q a w → Ensures R Q' (f a) w) : Ensures R Q' (p >>= f) w := by
  induction p generalizing w with
  | pure a => exact hf a w hp
  | step act next ih =>
    intro w₁ hrely hinv o w₂ hok hact
    obtain ⟨hinv', hguar, hnext⟩ := hp w₁ hrely hinv o w₂ hok hact
    exact ⟨hinv', hguar, ih o w₁ hnext⟩

theorem op {f : O → W → α × W} (h : ∀ w₁, R.rely w w₁ → R.inv w₁ → ∀ o, R.ok o →
      R.inv (f o w₁).2 ∧ R.guar w₁ (f o w₁).2 ∧ Q (f o w₁).1 (f o w₁).2) :
    Ensures R Q (Prog.op f) w := by
  intro w₁ hrely hinv o w₂ hok hact
  obtain rfl := Option.some.inj hact
  exact h w₁ hrely hinv o hok

/-- A program of operations that keep `J` and the rules. -/
theorem of_only {P : (O → W → Option W) → Prop} {K : α → Prop} {J : W → Prop}
    (hrely : ∀ {w w'}, R.rely w w' → J w → J w')
    (hP : ∀ act, P act → ∀ o w w', R.ok o → R.inv w → J w → act o w = some w' →
      R.inv w' ∧ R.guar w w' ∧ J w') {p : Prog W O α} (hp : p.Only P K) (hJ : J w) :
    Ensures R (fun a w => K a ∧ J w) p w := by
  induction p generalizing w with
  | pure a => exact ⟨hp, hJ⟩
  | step act next ih =>
    intro w₁ hw₁ hinv o w₂ hok hact
    obtain ⟨hinv', hguar, hJ'⟩ := hP act hp.1 o w₁ w₂ hok hinv (hrely hw₁ hJ) hact
    exact ⟨hinv', hguar, ih o w₁ (hp.2 o w₁) hJ'⟩

end Ensures

/-- A program with the outcomes it meets; where they end it is cut off. -/
def upTo : Prog W O α → List O → W → Option α × W
  | .pure a, _, w => (some a, w)
  | .step _ _, [], w => (none, w)
  | .step act next, o :: os, w =>
    match act o w with
    | none => (none, w)
    | some w' => upTo (next o w) os w'

theorem bind_bind {γ : Type} (p : Prog W O α) (f : α → Prog W O β) (g : β → Prog W O γ) :
    (p >>= f) >>= g = p >>= fun a => f a >>= g := by
  induction p with
  | pure a => rfl
  | step act next ih => exact congrArg _ (funext fun o => funext fun w => ih o w)

theorem upTo_op_bind (f : O → W → α × W) (k : α → Prog W O β) (o : O) (os : List O) (w : W) :
    (Prog.op f >>= k).upTo (o :: os) w = (k (f o w).1).upTo os (f o w).2 := rfl

theorem upTo_step_bind {act : O → W → Option W} {f : O → W → α × W} {k : α → Prog W O β} {o : O}
    {os : List O} {w : W} (h : act o w = some (f o w).2) :
    ((Prog.step act fun o w => .pure (f o w).1) >>= k).upTo (o :: os) w =
      (k (f o w).1).upTo os (f o w).2 := by
  rw [step_bind, upTo, h]
  rfl

theorem upTo_bind_pure {p : Prog W O α} {f : α → β} {os : List O} {w w' : W} {a : α}
    (h : p.upTo os w = (some a, w')) : (p >>= fun x => pure (f x)).upTo os w = (some (f a), w') := by
  induction os generalizing p w with
  | nil =>
    cases p with
    | pure b =>
      obtain ⟨hb, rfl⟩ := Prod.mk.inj h
      rw [← Option.some.inj hb]
      rfl
    | step act next => cases (Prod.mk.inj h).1
  | cons o os ih =>
    cases p with
    | pure b =>
      obtain ⟨hb, rfl⟩ := Prod.mk.inj h
      rw [← Option.some.inj hb]
      rfl
    | step act next =>
      rw [step_bind]
      unfold Prog.upTo at h ⊢
      cases hact : act o w with
      | none =>
        rw [hact] at h
        cases (Prod.mk.inj h).1
      | some w₁ =>
        rw [hact] at h
        exact ih h

/-- Wherever a program is cut off, it kept the rules until then. -/
theorem Ensures.upTo {R : Rules W O} {Q : α → W → Prop} {p : Prog W O α} {w : W}
    (h : Ensures R Q p w) (hinv : R.inv w) {os : List O} (hos : ∀ o ∈ os, R.ok o) :
    R.inv (p.upTo os w).2 ∧ R.guar w (p.upTo os w).2 ∧
      ∀ a, (p.upTo os w).1 = some a → Q a (p.upTo os w).2 := by
  induction os generalizing p w with
  | nil =>
    cases p with
    | pure a => exact ⟨hinv, R.guar_refl w, fun b hb => Option.some.inj hb ▸ h⟩
    | step act next => exact ⟨hinv, R.guar_refl w, fun b hb => nomatch hb⟩
  | cons o os ih =>
    cases p with
    | pure a => exact ⟨hinv, R.guar_refl w, fun b hb => Option.some.inj hb ▸ h⟩
    | step act next =>
      unfold Prog.upTo
      cases hact : act o w with
      | none => exact ⟨hinv, R.guar_refl w, fun b hb => nomatch hb⟩
      | some w' =>
        obtain ⟨ho, hos⟩ := List.forall_mem_cons.mp hos
        obtain ⟨hinv', hguar, hnext⟩ := h w (R.rely_refl w) hinv o w' ho hact
        obtain ⟨hend, hguar', hQ⟩ := ih hnext hinv' hos
        exact ⟨hend, R.guar_trans hguar hguar', hQ⟩

end Prog

/-! ## Systems -/

/-- Calls of programs, one at a time, with moves of others and crashes. -/
structure System (W O T E X ρ : Type) where
  call : T → Prog W O ρ
  others : E → W → Option W
  crash : X → W → W

/-- The world, the rest of the call that is running, and the calls that ended, each with
its result and the world it left. -/
structure Running (W O ρ : Type) where
  world : W
  call : Option (Prog W O ρ) := none
  ended : List (ρ × W) := []

inductive Move (O T E X : Type) where
  | call (t : T)
  | go (o : O)
  | others (e : E)
  | crash (x : X)

variable {W O T E X ρ : Type}

def Running.resume (st : Running W O ρ) (w : W) : Prog W O ρ → Running W O ρ
  | .pure a => { world := w, call := none, ended := (a, w) :: st.ended }
  | .step act next => { st with world := w, call := some (.step act next) }

namespace System

variable (S : System W O T E X ρ)

def step (st : Running W O ρ) : Move O T E X → Option (Running W O ρ)
  | .call t => match st.call with
    | none => some (st.resume st.world (S.call t))
    | some _ => none
  | .go o => match st.call with
    | some (.step act next) => (act o st.world).map fun w => st.resume w (next o st.world)
    | _ => none
  | .others e => (S.others e st.world).map fun w => { st with world := w }
  | .crash x => some { st with world := S.crash x st.world, call := none }

def machine : Machine (Running W O ρ) (Move O T E X) where
  step := S.step

/-- Every call keeps the rules and ends with `Q`, and so do the others and crashes. -/
structure Keeps (R : Rules W O) (okOthers : W → E → Prop) (Q : ρ → W → Prop) : Prop where
  call : ∀ t w, R.inv w → (S.call t).Ensures R Q w
  others : ∀ e w w', R.inv w → okOthers w e → S.others e w = some w' →
    R.inv w' ∧ R.guar w w' ∧ R.rely w w'
  crash : ∀ x w, R.inv w → R.inv (S.crash x w) ∧ R.guar w (S.crash x w)

/-- The moves the rules speak of. -/
def Allowed (R : Rules W O) (okOthers : W → E → Prop) (st : Running W O ρ) : Move O T E X → Prop
  | .go o => R.ok o
  | .others e => okOthers st.world e
  | _ => True

end System

/-- The invariant holds, and the running call is one that keeps the rules to its end. -/
structure Running.Under (R : Rules W O) (Q : ρ → W → Prop) (st : Running W O ρ) : Prop where
  inv : R.inv st.world
  call : ∀ p ∈ st.call, p.Ensures R Q st.world ∧ ∀ a, p ≠ .pure a

/-- The world moved as the rules say, and so it had when each of the calls in between ended. -/
structure Running.Later (R : Rules W O) (Q : ρ → W → Prop) (st st' : Running W O ρ) : Prop where
  guar : R.guar st.world st'.world
  ended : ∃ ended, st'.ended = ended ++ st.ended ∧ ∀ e ∈ ended, Q e.1 e.2 ∧ R.guar st.world e.2

namespace System

variable {S : System W O T E X ρ} {R : Rules W O} {okOthers : W → E → Prop} {Q : ρ → W → Prop}

theorem later_refl (st : Running W O ρ) : st.Later R Q st :=
  ⟨R.guar_refl _, [], rfl, fun _ he => nomatch he⟩

theorem later_trans {a b c : Running W O ρ} (h : a.Later R Q b) (h' : b.Later R Q c) :
    a.Later R Q c := by
  obtain ⟨es, hes, hq⟩ := h.ended
  obtain ⟨es', hes', hq'⟩ := h'.ended
  refine ⟨R.guar_trans h.guar h'.guar, es' ++ es, ?_, fun e he => ?_⟩
  · rw [hes', hes, List.append_assoc]
  · rcases List.mem_append.mp he with he | he
    · exact ⟨(hq' e he).1, R.guar_trans h.guar (hq' e he).2⟩
    · exact hq e he

/-- A move of the world with no call ended. -/
theorem later_of_guar {st st' : Running W O ρ} (h : R.guar st.world st'.world)
    (hended : st'.ended = st.ended) : st.Later R Q st' :=
  ⟨h, [], hended, fun _ he => nomatch he⟩

theorem resume_under {st : Running W O ρ} {w : W} {p : Prog W O ρ} (hinv : R.inv w)
    (hguar : R.guar st.world w) (hp : p.Ensures R Q w) :
    (st.resume w p).Under R Q ∧ st.Later R Q (st.resume w p) := by
  cases p with
  | pure a =>
    refine ⟨⟨hinv, fun p hp => nomatch hp⟩, hguar, [(a, w)], rfl, fun e he => ?_⟩
    obtain rfl := List.mem_singleton.mp he
    exact ⟨hp, hguar⟩
  | step act next =>
    refine ⟨⟨hinv, fun p hmem => ?_⟩, later_of_guar hguar rfl⟩
    obtain rfl := Option.some.inj hmem
    exact ⟨hp, fun a h => nomatch h⟩

theorem step_under (hS : S.Keeps R okOthers Q) {st st' : Running W O ρ} {m : Move O T E X}
    (h : st.Under R Q) (hm : Allowed R okOthers st m) (hstep : S.step st m = some st') :
    st'.Under R Q ∧ st.Later R Q st' := by
  cases m with
  | call t =>
    simp only [step] at hstep
    split at hstep
    · obtain rfl := Option.some.inj hstep
      exact resume_under h.inv (R.guar_refl _) (hS.call t _ h.inv)
    · cases hstep
  | go o =>
    simp only [step] at hstep
    split at hstep
    · rename_i act next hcall
      obtain ⟨w, hact, rfl⟩ := Option.map_eq_some_iff.mp hstep
      obtain ⟨hinv, hguar, hnext⟩ := (h.call _ hcall).1 st.world (R.rely_refl _) h.inv o w hm hact
      exact resume_under hinv hguar hnext
    · cases hstep
  | others e =>
    obtain ⟨w, hmove, rfl⟩ := Option.map_eq_some_iff.mp hstep
    obtain ⟨hinv, hguar, hrely⟩ := hS.others e _ w h.inv hm hmove
    refine ⟨⟨hinv, fun p hp => ?_⟩, later_of_guar hguar rfl⟩
    obtain ⟨hens, hne⟩ := h.call p hp
    cases p with
    | pure a => exact absurd rfl (hne a)
    | step act next => exact ⟨fun w₂ h₂ => hens w₂ (R.rely_trans hrely h₂), hne⟩
  | crash x =>
    obtain rfl := Option.some.inj hstep
    obtain ⟨hinv, hguar⟩ := hS.crash x _ h.inv
    exact ⟨⟨hinv, fun p hp => nomatch hp⟩, later_of_guar hguar rfl⟩

/-- The rules hold through every run of allowed moves. -/
theorem run_ensures (hS : S.Keeps R okOthers Q) {st st' : Running W O ρ} {ms : List (Move O T E X)}
    (h : st.Under R Q) (hms : S.machine.Meets (Allowed R okOthers) st ms)
    (hrun : S.machine.run st ms = some st') : st'.Under R Q ∧ st.Later R Q st' := by
  induction ms generalizing st with
  | nil =>
    obtain rfl := Option.some.inj hrun
    exact ⟨h, later_refl _⟩
  | cons m ms ih =>
    obtain ⟨mid, hstep, hrest⟩ := Machine.run_cons_some.mp hrun
    obtain ⟨hmid, hlater⟩ := step_under hS h hms.1 hstep
    obtain ⟨hend, hlater'⟩ := ih hmid (hms.2 mid hstep) hrest
    exact ⟨hend, later_trans hlater hlater'⟩

end System
end Enil.Lib
