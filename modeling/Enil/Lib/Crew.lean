import Enil.Lib.Program
import Mathlib.Data.List.Forall2

/-!
# Calls beside one another

Any number of calls run at once on one world, each a program of its own. `Crew.run_ensures` is
the rule for what they keep together, and `Crew.run_spends` bounds what they add to a meter
while something stays shut: a call that starts then adds nothing, and one that was at work
already no more than its share.
-/

namespace Enil.Lib

/-- Where the steps that meet `P` keep `I`, every step of a run of such has what `I` and `P`
give. -/
theorem Machine.Meets.of_kept {σ ε : Type} {M : Machine σ ε} {I : σ → Prop} {P Q : σ → ε → Prop}
    (hI : ∀ {s t : σ} {e : ε}, I s → P s e → M.step s e = some t → I t)
    (hQ : ∀ s e, I s → P s e → Q s e) {s : σ} {es : List ε} (hs : I s) (h : M.Meets P s es) :
    M.Meets Q s es := by
  induction es generalizing s with
  | nil => trivial
  | cons e es ih => exact ⟨hQ s e hs h.1, fun m hm => ih (hI hs h.1 hm) (h.2 m hm)⟩

/-! ## What a program adds to a meter -/

namespace Prog

variable {W O α β : Type} {meter : W → Nat} {shut : W → Prop} {Q : α → Nat → Prop}
  {Q' : β → Nat → Prop}

/-- As long as it is `shut`, the program adds at most `n`, and ends where `Q` holds of its value
and of what is left of `n`. -/
def Spends (meter : W → Nat) (shut : W → Prop) (Q : α → Nat → Prop) : Prog W O α → Nat → Prop
  | .pure a, n => Q a n
  | .step act next, n => ∀ o w w', shut w → act o w = some w' →
      ∃ k ≤ n, meter w' ≤ meter w + k ∧ Spends meter shut Q (next o w) (n - k)

/-- What holds of a program and of all that it may go on as. -/
def Always (P : Prog W O α → Prop) : Prog W O α → Prop
  | .pure a => P (.pure a)
  | .step act next => P (.step act next) ∧ ∀ o w, Always P (next o w)

theorem Always.now {P : Prog W O α → Prop} {p : Prog W O α} (h : Always P p) : P p := by
  cases p with
  | pure a => exact h
  | step act next => exact h.1

namespace Spends

theorem bind {p : Prog W O α} {f : α → Prog W O β} {n : Nat} (hp : Spends meter shut Q p n)
    (hf : ∀ a m, m ≤ n → Q a m → Spends meter shut Q' (f a) m) :
    Spends meter shut Q' (p >>= f) n := by
  induction p generalizing n with
  | pure a => exact hf a n (Nat.le_refl n) hp
  | step act next ih =>
    intro o w w' hs hact
    obtain ⟨k, hk, hm, hnext⟩ := hp o w w' hs hact
    exact ⟨k, hk, hm, ih o w hnext fun a m hmn => hf a m (by omega)⟩

theorem op {f : O → W → α × W} {n : Nat}
    (h : ∀ o w, shut w → ∃ k ≤ n, meter (f o w).2 ≤ meter w + k ∧ Q (f o w).1 (n - k)) :
    Spends meter shut Q (Prog.op f) n := by
  intro o w w' hs hact
  obtain rfl := Option.some.inj hact
  exact h o w hs

end Spends

theorem Only.imp {P P' : (O → W → Option W) → Prop} {K : α → Prop} {p : Prog W O α}
    (hp : Only P K p) (h : ∀ act, P act → P' act) : Only P' K p := by
  induction p with
  | pure a => exact hp
  | step act next ih => exact ⟨h act hp.1, fun o w => ih o w (hp.2 o w)⟩

theorem Only.always {P : (O → W → Option W) → Prop} {K : α → Prop} {p : Prog W O α}
    (hp : Only P K p) : p.Always (Only P K) := by
  induction p with
  | pure a => exact hp
  | step act next ih => exact ⟨hp, fun o w => ih o w (hp.2 o w)⟩

/-- An operation that leaves the meter where it is. -/
def Still (meter : W → Nat) (act : O → W → Option W) : Prop :=
  ∀ o w w', act o w = some w' → meter w' ≤ meter w

theorem Only.spends {K : α → Prop} {p : Prog W O α} {n : Nat} (hp : Only (Still meter) K p)
    (hQ : ∀ a, K a → Q a n) : p.Always fun q => Spends meter shut Q q n := by
  induction p with
  | pure a => exact hQ a hp
  | step act next ih =>
    exact ⟨fun o w w' hs hact => ⟨0, Nat.zero_le n, hp.1 o w w' hact, (ih o w (hp.2 o w)).now⟩,
      fun o w => ih o w (hp.2 o w)⟩

/-- A program that adds nothing if it starts while it is shut, and at most one if it has
started before. -/
structure Gated (meter : W → Nat) (shut : W → Prop) (Q : α → Nat → Prop) (p : Prog W O α) :
    Prop where
  fresh : Spends meter shut Q p 0
  share : p.Always fun q => Spends meter shut Q q 1

theorem Always.bind_share {p : Prog W O α} {f : α → Prog W O β}
    (hp : p.Always fun q => Spends meter shut Q q 1)
    (hf : ∀ a m, m ≤ 1 → Q a m → Spends meter shut Q' (f a) m)
    (halways : ∀ a, (f a).Always fun q => Spends meter shut Q' q 1) :
    (p >>= f).Always fun q => Spends meter shut Q' q 1 := by
  induction p with
  | pure a => exact halways a
  | step act next ih =>
    exact ⟨Spends.bind hp.1 hf, fun o w => ih o w (hp.2 o w)⟩

/-- After what adds nothing the whole share is left. -/
theorem Only.bind_share {K : α → Prop} {p : Prog W O α} {f : α → Prog W O β}
    (hp : Only (Still meter) K p)
    (hf : ∀ a, K a → (f a).Always fun q => Spends meter shut Q' q 1) :
    (p >>= f).Always fun q => Spends meter shut Q' q 1 := by
  induction p with
  | pure a => exact hf a hp
  | step act next ih =>
    have hnext := fun o w => ih o w (hp.2 o w)
    exact ⟨fun o w w' hs hact => ⟨0, Nat.zero_le 1, hp.1 o w w' hact, (hnext o w).now⟩, hnext⟩

/-- An operation that takes the share, and after it what adds nothing. -/
theorem share_op_bind {K : β → Prop} {f : O → W → α × W} {g : α → Prog W O β}
    (hf : ∀ o w, meter (f o w).2 ≤ meter w + 1) (hg : ∀ a, Only (Still meter) K (g a))
    (hQ : ∀ b n, K b → Q' b n) :
    (Prog.op f >>= g).Always fun q => Spends meter shut Q' q 1 := by
  refine ⟨fun o w w' hs hact => ?_, fun o w => (hg (f o w).1).spends fun b => hQ b 1⟩
  obtain rfl := Option.some.inj hact
  exact ⟨1, Nat.le_refl 1, hf o w, ((hg (f o w).1).spends fun b => hQ b 0).now⟩

namespace Gated

theorem of_only {K : α → Prop} {p : Prog W O α} (hp : Only (Still meter) K p)
    (hQ : ∀ a n, K a → Q a n) : Gated meter shut Q p :=
  ⟨(hp.spends fun a => hQ a 0).now, hp.spends fun a => hQ a 1⟩

theorem pure {a : α} (h₀ : Q a 0) (h₁ : Q a 1) :
    Gated meter shut Q (Pure.pure a : Prog W O α) := ⟨h₀, h₁⟩

theorem bind {p : Prog W O α} {f : α → Prog W O β} (hp : Gated meter shut Q p)
    (hfresh : ∀ a, Q a 0 → Spends meter shut Q' (f a) 0)
    (hshare : ∀ a, (f a).Always fun q => Spends meter shut Q' q 1) :
    Gated meter shut Q' (p >>= f) := by
  have hf : ∀ a m, m ≤ 1 → Q a m → Spends meter shut Q' (f a) m := by
    intro a m hm hQ
    obtain rfl | rfl : m = 0 ∨ m = 1 := by omega
    · exact hfresh a hQ
    · exact (hshare a).now
  exact ⟨hp.fresh.bind fun a m hm => hf a m (by omega), hp.share.bind_share hf hshare⟩

/-- One gated program after another. -/
theorem andThen {p : Prog W O α} {f : α → Prog W O β} (hp : Gated meter shut Q p)
    (hf : ∀ a, Gated meter shut Q' (f a)) : Gated meter shut Q' (p >>= f) :=
  hp.bind (fun a _ => (hf a).fresh) fun a => (hf a).share

/-- An operation that adds nothing. -/
theorem op {f : O → W → α × W} (h : ∀ o w, meter (f o w).2 ≤ meter w)
    (hQ : ∀ o w n, shut w → Q (f o w).1 n) (hend : ∀ a, Q a 1) :
    Gated meter shut Q (Prog.op f) :=
  ⟨.op fun o w hs => ⟨0, Nat.le_refl 0, h o w, hQ o w 0 hs⟩,
    .op fun o w hs => ⟨0, Nat.zero_le 1, h o w, hQ o w 1 hs⟩, fun o w => hend (f o w).1⟩

theorem ite {c : Prop} [Decidable c] {p q : Prog W O α} (hp : Gated meter shut Q p)
    (hq : Gated meter shut Q q) : Gated meter shut Q (if c then p else q) := by
  split
  · exact hp
  · exact hq

end Gated

end Prog

/-! ## Crews -/

/-- Calls of programs, with moves of others. -/
structure Crew (W O T E ρ : Type) where
  call : T → Prog W O ρ
  others : E → W → Option W

/-- The world, the calls at work, and those that ended with the world each left. -/
structure AtWork (W O T ρ : Type) where
  world : W
  calls : List (T × Prog W O ρ) := []
  ended : List (T × ρ × W) := []

inductive Crew.Turn (O T E : Type) where
  | call (t : T)
  | go (i : Nat) (o : O)
  | others (e : E)

variable {W O T E ρ : Type}

namespace AtWork

variable (st : AtWork W O T ρ)

/-- A new call; it may be at its end. -/
def start (t : T) : Prog W O ρ → AtWork W O T ρ
  | .pure a => { st with ended := (t, a, st.world) :: st.ended }
  | .step act next => { st with calls := st.calls ++ [(t, .step act next)] }

/-- The call at `i` goes on as this program, in this world. -/
def resume (i : Nat) (t : T) (w : W) : Prog W O ρ → AtWork W O T ρ
  | .pure a =>
    { world := w, calls := st.calls.eraseIdx i, ended := (t, a, w) :: st.ended }
  | .step act next => { st with world := w, calls := st.calls.set i (t, .step act next) }

end AtWork

namespace Crew

variable (S : Crew W O T E ρ)

def step (st : AtWork W O T ρ) : Turn O T E → Option (AtWork W O T ρ)
  | .call t => some (st.start t (S.call t))
  | .go i o => match st.calls[i]? with
    | some (t, .step act next) =>
      (act o st.world).map fun w => st.resume i t w (next o st.world)
    | _ => none
  | .others e => (S.others e st.world).map fun w => { st with world := w }

def machine : Machine (AtWork W O T ρ) (Turn O T E) where
  step := S.step

variable {S}

theorem step_go {st st' : AtWork W O T ρ} {i : Nat} {o : O} (h : S.step st (.go i o) = some st') :
    ∃ t act next w, st.calls[i]? = some (t, .step act next) ∧ act o st.world = some w ∧
      st' = st.resume i t w (next o st.world) := by
  simp only [step] at h
  split at h
  · rename_i t act next hcall
    obtain ⟨w, hact, rfl⟩ := Option.map_eq_some_iff.mp h
    exact ⟨t, act, next, w, hcall, hact, rfl⟩
  · cases h

theorem mem_resume {st : AtWork W O T ρ} {i : Nat} {t : T} {w : W} {p : Prog W O ρ}
    {c : T × Prog W O ρ} (h : c ∈ (st.resume i t w p).calls) : c ∈ st.calls ∨ c = (t, p) := by
  cases p with
  | pure a => exact .inl (List.mem_of_mem_eraseIdx h)
  | step act next => exact List.mem_or_eq_of_mem_set h

/-! ## A call alone -/

/-- The only call goes on as it would begin. -/
theorem resume_start {t : T} {act : O → W → Option W} {next : O → W → Prog W O ρ} {w₀ w : W}
    {ended : List (T × ρ × W)} (p : Prog W O ρ) :
    (AtWork.start { world := w₀, ended := ended } t (.step act next)).resume 0 t w p =
      AtWork.start { world := w, ended := ended } t p := by
  cases p <;> rfl

/-- A program that comes to its end does so as the only call. -/
theorem run_go {t : T} {r : ρ} {w : W} {os : List O} :
    ∀ {p : Prog W O ρ} {w₀ : W} (ended : List (T × ρ × W)), p.upTo os w₀ = (some r, w) →
      ∃ n, S.machine.run (AtWork.start { world := w₀, ended := ended } t p)
        ((os.take n).map (.go 0)) = some { world := w, ended := (t, r, w) :: ended } := by
  induction os with
  | nil =>
    intro p w₀ ended h
    cases p with
    | pure a =>
      obtain ⟨ha, rfl⟩ := Prod.mk.inj h
      obtain rfl := Option.some.inj ha
      exact ⟨0, rfl⟩
    | step act next => cases (Prod.mk.inj h).1
  | cons o os ih =>
    intro p w₀ ended h
    cases p with
    | pure a =>
      obtain ⟨ha, rfl⟩ := Prod.mk.inj h
      obtain rfl := Option.some.inj ha
      exact ⟨0, rfl⟩
    | step act next =>
      unfold Prog.upTo at h
      cases hact : act o w₀ with
      | none =>
        rw [hact] at h
        cases (Prod.mk.inj h).1
      | some w' =>
        rw [hact] at h
        obtain ⟨n, hrun⟩ := ih ended h
        refine ⟨n + 1, Machine.run_cons_some.mpr ⟨_, ?_, hrun⟩⟩
        show (act o w₀).map _ = _
        rw [hact, Option.map_some, resume_start]
        rfl

/-- What a call does alone is a run of the crew. -/
theorem run_alone (st : AtWork W O T ρ) {t : T} {r : ρ} {w : W} {os : List O} (h : st.calls = [])
    (hp : (S.call t).upTo os st.world = (some r, w)) :
    ∃ n, S.machine.run st (.call t :: (os.take n).map (.go 0)) =
      some { world := w, ended := (t, r, w) :: st.ended } := by
  obtain ⟨world, calls, ended⟩ := st
  obtain rfl := h
  obtain ⟨n, hrun⟩ := run_go (S := S) (t := t) ended hp
  exact ⟨n, Machine.run_cons_some.mpr ⟨_, rfl, hrun⟩⟩

/-! ## What they keep together -/

/-- The programs keep the rules beside one another, and so do the others. -/
structure Keeps (S : Crew W O T E ρ) (R : Rules W O) (okOthers : W → E → Prop)
    (Q : T → ρ → W → Prop) : Prop where
  call : ∀ t w, R.inv w → (S.call t).Ensures R (Q t) w
  beside : ∀ {w w'}, R.guar w w' → R.rely w w'
  others : ∀ e w w', R.inv w → okOthers w e → S.others e w = some w' → R.inv w' ∧ R.guar w w'

/-- The turns the rules speak of. -/
def Allowed (R : Rules W O) (okOthers : W → E → Prop) (st : AtWork W O T ρ) : Turn O T E → Prop
  | .go _ o => R.ok o
  | .others e => okOthers st.world e
  | .call _ => True

/-- The invariant holds, every call at work keeps the rules to its end, and those that ended
did. -/
structure Under (R : Rules W O) (Q : T → ρ → W → Prop) (st : AtWork W O T ρ) : Prop where
  inv : R.inv st.world
  calls : ∀ c ∈ st.calls, c.2.Ensures R (Q c.1) st.world ∧ ∀ a, c.2 ≠ .pure a
  ended : ∀ e ∈ st.ended, Q e.1 e.2.1 e.2.2

variable {R : Rules W O} {okOthers : W → E → Prop} {Q : T → ρ → W → Prop}

/-- What others do is no matter to a call at work. -/
theorem still_ensures {c : T × Prog W O ρ} {w w' : W} (hrely : R.rely w w')
    (hc : c.2.Ensures R (Q c.1) w ∧ ∀ a, c.2 ≠ .pure a) :
    c.2.Ensures R (Q c.1) w' ∧ ∀ a, c.2 ≠ .pure a := by
  obtain ⟨t, p⟩ := c
  cases p with
  | pure a => exact absurd rfl (hc.2 a)
  | step act next => exact ⟨fun w₂ h₂ => hc.1 w₂ (R.rely_trans hrely h₂), hc.2⟩

theorem step_under (hS : S.Keeps R okOthers Q) {st st' : AtWork W O T ρ} {m : Turn O T E}
    (h : Under R Q st) (hm : Allowed R okOthers st m) (hstep : S.step st m = some st') :
    Under R Q st' := by
  cases m with
  | call t =>
    obtain rfl := Option.some.inj hstep
    have hens := hS.call t _ h.inv
    cases hp : S.call t with
    | pure a =>
      rw [hp] at hens
      exact ⟨h.inv, h.calls, fun e he => (List.mem_cons.mp he).elim (fun he => he ▸ hens)
        (h.ended e)⟩
    | step act next =>
      rw [hp] at hens
      refine ⟨h.inv, fun c hc => ?_, h.ended⟩
      rcases List.mem_append.mp hc with hc | hc
      · exact h.calls c hc
      · obtain rfl := List.mem_singleton.mp hc
        exact ⟨hens, fun a h => nomatch h⟩
  | go i o =>
    obtain ⟨t, act, next, w, hcall, hact, rfl⟩ := step_go hstep
    obtain ⟨hinv, hguar, hnext⟩ := (h.calls _ (List.mem_of_getElem? hcall)).1 st.world
      (R.rely_refl _) h.inv o w hm hact
    have hrely := hS.beside hguar
    cases hp : next o st.world with
    | pure a =>
      rw [hp] at hnext
      refine ⟨hinv, fun c hc => ?_, fun e he => ?_⟩
      · exact still_ensures hrely (h.calls c (List.mem_of_mem_eraseIdx hc))
      · rcases List.mem_cons.mp he with rfl | he
        · exact hnext
        · exact h.ended e he
    | step act' next' =>
      rw [hp] at hnext
      refine ⟨hinv, fun c hc => ?_, h.ended⟩
      rcases List.mem_or_eq_of_mem_set hc with hc | rfl
      · exact still_ensures hrely (h.calls c hc)
      · exact ⟨hnext, fun a h => nomatch h⟩
  | others e =>
    obtain ⟨w, hmove, rfl⟩ := Option.map_eq_some_iff.mp hstep
    obtain ⟨hinv, hguar⟩ := hS.others e _ w h.inv hm hmove
    exact ⟨hinv, fun c hc => still_ensures (hS.beside hguar) (h.calls c hc), h.ended⟩

/-- The rules hold through every run of allowed turns. -/
theorem run_ensures (hS : S.Keeps R okOthers Q) {st st' : AtWork W O T ρ} {ms : List (Turn O T E)}
    (h : Under R Q st) (hms : S.machine.Meets (Allowed R okOthers) st ms)
    (hrun : S.machine.run st ms = some st') : Under R Q st' :=
  Machine.run_invariant_of_meets (I := Under R Q) (P := Allowed R okOthers)
    (fun hs hm hstep => step_under hS hs hm hstep) h hms hrun

/-! ## What they add to a meter -/

/-- What holds of every program of a call and of all it may go on as, holds of the calls at
work. -/
theorem run_always {P : T → Prog W O ρ → Prop} (hcall : ∀ t, (S.call t).Always (P t))
    {st st' : AtWork W O T ρ} {ms : List (Turn O T E)} (h : ∀ c ∈ st.calls, c.2.Always (P c.1))
    (hrun : S.machine.run st ms = some st') : ∀ c ∈ st'.calls, c.2.Always (P c.1) := by
  refine Machine.run_invariant (I := fun st => ∀ c ∈ st.calls, c.2.Always (P c.1))
    (fun {st st' m} hst hstep => ?_) h hrun
  replace hst : ∀ c ∈ st.calls, c.2.Always (P c.1) := hst
  replace hstep : S.step st m = some st' := hstep
  show ∀ c ∈ st'.calls, c.2.Always (P c.1)
  cases m with
  | call t =>
    obtain rfl := Option.some.inj hstep
    have ht := hcall t
    cases hp : S.call t with
    | pure a => exact hst
    | step act next =>
      rw [hp] at ht
      intro c hc
      rcases List.mem_append.mp hc with hc | hc
      · exact hst c hc
      · obtain rfl := List.mem_singleton.mp hc
        exact ht
  | go i o =>
    obtain ⟨t, act, next, w, hcall, hact, rfl⟩ := step_go hstep
    intro c hc
    rcases mem_resume hc with hc | rfl
    · exact hst c hc
    · exact (hst _ (List.mem_of_getElem? hcall)).2 o st.world
  | others e =>
    obtain ⟨w, hmove, rfl⟩ := Option.map_eq_some_iff.mp hstep
    exact hst

variable {meter : W → Nat} {shut : W → Prop}

def total : List Nat → Nat
  | [] => 0
  | n :: ns => n + total ns

theorem total_cons (n : Nat) (ns : List Nat) : total (n :: ns) = n + total ns := rfl

theorem total_concat_zero (ns : List Nat) : total (ns ++ [0]) = total ns := by
  induction ns with
  | nil => rfl
  | cons n ns ih => rw [List.cons_append, total_cons, total_cons, ih]

/-- Budgets of the elements of a list, and what becomes of them where one element changes or
leaves. -/
theorem budget_at {α : Type} {P : α → Nat → Prop} {xs : List α} {ns : List Nat}
    (h : List.Forall₂ P xs ns) {i : Nat} {x : α} (hi : xs[i]? = some x) :
    ∃ n, P x n ∧
      (∀ y m, P y m → ∃ ms, List.Forall₂ P (xs.set i y) ms ∧ total ms + n = total ns + m) ∧
      ∃ ms, List.Forall₂ P (xs.eraseIdx i) ms ∧ total ms + n = total ns := by
  induction h generalizing i with
  | nil => cases hi
  | @cons a n as ns ha has ih =>
    cases i with
    | zero =>
      obtain rfl := Option.some.inj hi
      refine ⟨n, ha, fun y m hy => ⟨m :: ns, .cons hy has, ?_⟩, ns, has, ?_⟩
      · rw [total_cons, total_cons]
        omega
      · rw [total_cons]
        omega
    | succ i =>
      obtain ⟨k, hk, hset, ms, hms, hsum⟩ := ih (i := i) hi
      refine ⟨k, hk, fun y m hy => ?_, n :: ms, .cons ha hms, ?_⟩
      · obtain ⟨ms', hms', hsum'⟩ := hset y m hy
        refine ⟨n :: ms', .cons ha hms', ?_⟩
        rw [total_cons, total_cons]
        omega
      · rw [total_cons, total_cons]
        omega

/-- The calls at work have budgets that sum up to what is left. -/
def Within (meter : W → Nat) (shut : W → Prop) (bound : Nat) (st : AtWork W O T ρ) : Prop :=
  ∃ ns, List.Forall₂ (fun c n => c.2.Spends meter shut (fun _ _ => True) n) st.calls ns ∧
    meter st.world + total ns ≤ bound

theorem step_within (hfresh : ∀ t, (S.call t).Spends meter shut (fun _ _ => True) 0)
    (hothers : ∀ e w w', shut w → S.others e w = some w' → meter w' ≤ meter w) {bound : Nat}
    {st st' : AtWork W O T ρ} {m : Turn O T E} (h : Within meter shut bound st)
    (hshut : shut st.world) (hstep : S.step st m = some st') : Within meter shut bound st' := by
  obtain ⟨ns, hns, hsum⟩ := h
  cases m with
  | call t =>
    obtain rfl := Option.some.inj hstep
    have ht := hfresh t
    cases hp : S.call t with
    | pure a => exact ⟨ns, hns, hsum⟩
    | step act next =>
      rw [hp] at ht
      refine ⟨ns ++ [0], List.rel_append hns (.cons ht .nil), ?_⟩
      rw [total_concat_zero]
      exact hsum
  | go i o =>
    obtain ⟨t, act, next, w, hcall, hact, rfl⟩ := step_go hstep
    obtain ⟨n, hn, hset, ms, hms, hms'⟩ := budget_at hns hcall
    obtain ⟨k, hk, hmeter, hnext⟩ := hn o st.world w hshut hact
    cases hp : next o st.world with
    | pure a => exact ⟨ms, hms, by dsimp only [AtWork.resume]; omega⟩
    | step act' next' =>
      rw [hp] at hnext
      obtain ⟨ms, hms, hms'⟩ := hset (t, .step act' next') (n - k) hnext
      exact ⟨ms, hms, by dsimp only [AtWork.resume]; omega⟩
  | others e =>
    obtain ⟨w, hmove, rfl⟩ := Option.map_eq_some_iff.mp hstep
    have := hothers e _ w hshut hmove
    exact ⟨ns, hns, by dsimp only; omega⟩

theorem total_shares {α : Type} (p : α → Bool) (xs : List α) :
    total (xs.map fun x => if p x then 1 else 0) = xs.countP p := by
  induction xs with
  | nil => rfl
  | cons x xs ih => rw [List.map_cons, total_cons, ih, List.countP_cons, Nat.add_comm]

/-- Of a run that is shut all along: the meter rises by no more than the number of calls at work
where it began that can add to it at all. -/
theorem run_gated (counts : T → Bool)
    (hcounts : ∀ t, counts t = true → (S.call t).Gated meter shut fun _ _ => True)
    (hquiet : ∀ t, counts t = false → (S.call t).Always
      fun p => p.Spends meter shut (fun _ _ => True) 0)
    (hothers : ∀ e w w', shut w → S.others e w = some w' → meter w' ≤ meter w)
    {st st₁ st₂ : AtWork W O T ρ} {ms₁ ms₂ : List (Turn O T E)} (h : st.calls = [])
    (hrun₁ : S.machine.run st ms₁ = some st₁) (hrun₂ : S.machine.run st₁ ms₂ = some st₂)
    (hshut : S.machine.Meets (fun st _ => shut st.world) st₁ ms₂) :
    meter st₂.world ≤ meter st₁.world + st₁.calls.countP fun c => counts c.1 := by
  have halways : ∀ t, (S.call t).Always
      fun p => p.Spends meter shut (fun _ _ => True) (if counts t then 1 else 0) := by
    intro t
    cases hc : counts t with
    | true => exact (hcounts t hc).share
    | false => exact hquiet t hc
  have hfresh : ∀ t, (S.call t).Spends meter shut (fun _ _ => True) 0 := by
    intro t
    cases hc : counts t with
    | true => exact (hcounts t hc).fresh
    | false => exact (hquiet t hc).now
  have hwork := run_always halways (by rw [h]; exact fun c hc => nomatch hc) hrun₁
  have hstart : Within meter shut (meter st₁.world + total (st₁.calls.map fun c =>
      if counts c.1 then 1 else 0)) st₁ := by
    refine ⟨_, ?_, Nat.le_refl _⟩
    rw [List.forall₂_map_right_iff, List.forall₂_same]
    exact fun c hc => (hwork c hc).now
  obtain ⟨ns, -, hsum⟩ := Machine.run_invariant_of_meets (I := Within meter shut _)
    (P := fun st _ => shut st.world)
    (fun hs hm hstep => step_within hfresh hothers hs hm hstep) hstart hshut hrun₂
  rw [total_shares] at hsum
  omega

end Crew
end Enil.Lib
