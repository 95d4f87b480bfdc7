import Mathlib.Data.Nat.Basic
import Enil.Lib.Loop

/-!
# Reading a buffer

A reader stands at a place of a buffer that may end anywhere. Where the bytes are wrong it
puts up a flag and goes on; what would touch a byte behind the end, or never stop, gives
`none`. `Sound` is a triple whose pre- and postcondition hold as long as the flag is down:
what satisfies one stays inside of the buffer and stops, never takes the flag down, and
does the same on every longer buffer unless it puts the flag up.
-/

namespace Enil.Lib

/-- A place in the buffer `p`, the flag, and a record of what was met. -/
structure Cursor (ε : Type) where
  p : List UInt8
  pos : Nat := 0
  bad : Bool := false
  log : List ε := []

namespace Cursor

variable {ε : Type}

/-- The same place in a longer buffer. -/
def extend (r : Cursor ε) (e : List UInt8) : Cursor ε := { r with p := r.p ++ e }

/-- The bytes before the end. -/
def left (r : Cursor ε) : Nat := r.p.length - r.pos

/-- From `r` to `r'`: on in the same buffer, and `Q` of the flag and of all that is new in
the record. -/
structure Moves (Q : Bool → ε → Prop) (r r' : Cursor ε) : Prop where
  buffer : r'.p = r.p
  le : r.pos ≤ r'.pos
  inside : r'.pos ≤ r'.p.length
  bad : r.bad = true → r'.bad = true
  log : ∃ new, r'.log = r.log ++ new ∧ ∀ e ∈ new, Q r'.bad e

variable {Q : Bool → ε → Prop} {r r' r'' : Cursor ε}

theorem Moves.refl (h : r.pos ≤ r.p.length) : Moves Q r r :=
  ⟨rfl, le_refl _, h, id, [], by simp⟩

/-- The flag that is down was down before. -/
theorem Moves.good (h : Moves Q r r') (hr' : r'.bad = false) : r.bad = false := by
  cases hr : r.bad with
  | false => rfl
  | true => rw [h.bad hr] at hr'; cases hr'

theorem Moves.trans (hQ : ∀ e, Q false e → Q true e) (h : Moves Q r r') (h' : Moves Q r' r'') :
    Moves Q r r'' := by
  obtain ⟨new, hlog, hnew⟩ := h.log
  obtain ⟨new', hlog', hnew'⟩ := h'.log
  refine ⟨h'.buffer.trans h.buffer, Nat.le_trans h.le h'.le, h'.inside, fun hr => h'.bad (h.bad hr),
    new ++ new', by rw [hlog', hlog, List.append_assoc], fun e he => ?_⟩
  rcases List.mem_append.mp he with he | he
  · have hq := hnew e he
    cases hr'' : r''.bad with
    | false => rwa [h'.good hr''] at hq
    | true =>
      cases hr' : r'.bad with
      | false => rw [hr'] at hq; exact hQ e hq
      | true => rwa [hr'] at hq
  · exact hnew' e he

end Cursor

def Turn.state {σ : Type} : Turn σ σ → σ
  | .again s => s
  | .leave s => s

abbrev Reading (ε : Type) := StateT (Cursor ε) Option

namespace Reading

variable {ε α β σ : Type}

/-- What is outside of the buffer, or does not end. -/
def stuck : Reading ε α := fun _ => none

def fail : Reading ε Unit := fun r => some ((), { r with bad := true })

def failIf (c : Prop) [Decidable c] : Reading ε Unit := if c then fail else pure ()

def isBad : Reading ε Bool := fun r => some (r.bad, r)

def note (e : ε) : Reading ε Unit := fun r => some ((), { r with log := r.log ++ [e] })

/-- The next byte; at the end 0 and the flag. -/
def readByte : Reading ε Nat := fun r =>
  if r.p.length ≤ r.pos then some (0, { r with bad := true })
  else
    match r.p[r.pos]? with
    | none => none
    | some c => some (c.toNat, { r with pos := r.pos + 1 })

/-- Whether that many bytes are left; the flag where they are not. -/
def fits (n : Nat) : Reading ε Bool := fun r =>
  if n ≤ r.left then some (true, r) else some (false, { r with bad := true })

/-- The next `n` bytes, where there are as many and they pass `ok`; the flag otherwise. -/
def take (n : Nat) (ok : List UInt8 → Bool) : Reading ε (Option (List UInt8)) := fun r =>
  if n ≤ r.left then
    if r.pos + n ≤ r.p.length then
      if ok ((r.p.drop r.pos).take n) then
        some (some ((r.p.drop r.pos).take n), { r with pos := r.pos + n })
      else some (none, { r with bad := true })
    else none
  else some (none, { r with bad := true })

/-- At most `n` turns, each at a byte of its own that is not 0. -/
def stopTurns (body : Nat → σ → Reading ε (Turn σ σ)) : Nat → σ → Reading ε σ
  | 0, _ => stuck
  | n + 1, s => do
    if ← isBad then pure s
    else
      let h ← readByte
      if h = 0 then pure s
      else
        match ← body h s with
        | .again t => stopTurns body n t
        | .leave t => pure t

/-- Turns up to a byte 0; there are no more of them than bytes. -/
def untilStop (body : Nat → σ → Reading ε (Turn σ σ)) (s : σ) : Reading ε σ := fun r =>
  stopTurns body (r.left + 1) s r

/-- A counted loop, left where the flag is up. -/
def times (body : σ → Reading ε (Turn σ σ)) : Nat → σ → Reading ε σ
  | 0, s => pure s
  | n + 1, s => do
    if ← isBad then pure s
    else
      match ← body s with
      | .again t => times body n t
      | .leave t => pure t

/-- At `r`, `x` stops inside of the buffer; where `I` holds, `P` holds of its result, unless
the flag is up. -/
def SoundAt (Q : Bool → ε → Prop) (I : Prop) (x : Reading ε α) (P : α → Prop) (r : Cursor ε) :
    Prop :=
  r.pos ≤ r.p.length → (r.bad = false → I) →
    ∃ a r', x r = some (a, r') ∧ r.Moves Q r' ∧
      (r'.bad = false → P a ∧ ∀ e, x (r.extend e) = some (a, r'.extend e))

def Sound (Q : Bool → ε → Prop) (I : Prop) (x : Reading ε α) (P : α → Prop) : Prop :=
  ∀ r, SoundAt Q I x P r

section Rules

variable {Q : Bool → ε → Prop} {I I' : Prop} {x y : Reading ε α} {P P' : α → Prop}

theorem SoundAt.mono {r : Cursor ε} (h : SoundAt Q I x P r) (hI : I' → I)
    (hP : ∀ a, P a → P' a) : SoundAt Q I' x P' r := by
  intro hr hI'
  obtain ⟨a, r', hx, hm, hgood⟩ := h hr fun hb => hI (hI' hb)
  exact ⟨a, r', hx, hm, fun hb => ⟨hP a (hgood hb).1, (hgood hb).2⟩⟩

theorem Sound.mono (h : Sound Q I x P) (hI : I' → I) (hP : ∀ a, P a → P' a) :
    Sound Q I' x P' := fun r => (h r).mono hI hP

theorem sound_pure {a : α} (h : I → P a) : Sound Q I (pure a : Reading ε α) P := fun r hr hI =>
  ⟨a, r, rfl, .refl hr, fun hb => ⟨h (hI hb), fun _ => rfl⟩⟩

theorem SoundAt.ite {c : Prop} [Decidable c] {r : Cursor ε} (h : c → SoundAt Q I x P r)
    (h' : ¬ c → SoundAt Q I y P r) : SoundAt Q I (if c then x else y) P r := by
  split
  · exact h ‹_›
  · exact h' ‹_›

theorem Sound.ite {c : Prop} [Decidable c] (h : c → Sound Q I x P) (h' : ¬ c → Sound Q I y P) :
    Sound Q I (if c then x else y) P := fun r =>
  .ite (fun hc => h hc r) fun hc => h' hc r

theorem sound_fail : Sound Q I (fail : Reading ε Unit) fun _ => False := by
  intro r hr _
  exact ⟨(), _, rfl, ⟨rfl, le_refl _, hr, fun _ => rfl, [], by simp⟩, fun h => nomatch h⟩

theorem sound_failIf {c : Prop} [Decidable c] :
    Sound Q I (failIf c : Reading ε Unit) fun _ => ¬ c :=
  .ite (fun _ => sound_fail.mono id fun _ h => h.elim) fun hc => sound_pure fun _ => hc

theorem sound_isBad : Sound Q I (isBad : Reading ε Bool) (· = false) := fun r hr _ =>
  ⟨r.bad, r, rfl, .refl hr, fun hb => ⟨hb, fun _ => rfl⟩⟩

theorem sound_note {e : ε} (hbad : Q true e) (h : I → Q false e) :
    Sound Q I (note e) fun _ => True := by
  intro r hr hI
  refine ⟨(), _, rfl, ⟨rfl, le_refl _, hr, id, [e], rfl, fun e' he' => ?_⟩,
    fun _ => ⟨trivial, fun _ => rfl⟩⟩
  obtain rfl := List.mem_singleton.mp he'
  show Q r.bad e'
  cases hb : r.bad with
  | false => exact h (hI hb)
  | true => exact hbad

theorem sound_readByte : Sound Q I (readByte : Reading ε Nat) (· < 256) := by
  intro r hr _
  by_cases hend : r.p.length ≤ r.pos
  · exact ⟨0, { r with bad := true }, if_pos hend, ⟨rfl, le_refl _, hr, fun _ => rfl, [], by simp⟩,
      fun h => nomatch h⟩
  · have hlt : r.pos < r.p.length := by omega
    have hget : r.p[r.pos]? = some r.p[r.pos] := List.getElem?_eq_getElem hlt
    refine ⟨r.p[r.pos].toNat, { r with pos := r.pos + 1 }, ?_,
      ⟨rfl, Nat.le_succ _, hlt, id, [], by simp⟩, fun _ => ⟨r.p[r.pos].toNat_lt, fun e => ?_⟩⟩
    · simp only [readByte, hend, if_false, hget]
    · have hend' : ¬ (r.extend e).p.length ≤ (r.extend e).pos := by
        simp only [Cursor.extend, List.length_append]
        omega
      have hget' : (r.extend e).p[(r.extend e).pos]? = some r.p[r.pos] := by
        simp only [Cursor.extend, List.getElem?_append_left hlt, hget]
      simp only [readByte, hend', if_false, hget']
      rfl

theorem left_extend_le (r : Cursor ε) (e : List UInt8) : r.left ≤ (r.extend e).left := by
  simp only [Cursor.left, Cursor.extend, List.length_append]
  omega

theorem sound_fits {n : Nat} : Sound Q I (fits n : Reading ε Bool) (· = true) := by
  intro r hr _
  by_cases hn : n ≤ r.left
  · refine ⟨true, r, if_pos hn, .refl hr, fun _ => ⟨rfl, fun e => ?_⟩⟩
    have := left_extend_le r e
    exact if_pos (by omega)
  · exact ⟨false, { r with bad := true }, if_neg hn,
      ⟨rfl, le_refl _, hr, fun _ => rfl, [], by simp⟩, fun h => nomatch h⟩

theorem sound_take {n : Nat} {ok : List UInt8 → Bool} :
    Sound Q I (take n ok : Reading ε _) fun s => ∃ bs, s = some bs ∧ bs.length = n ∧ ok bs := by
  intro r hr _
  have hup : r.Moves Q { r with bad := true } :=
    ⟨rfl, le_refl _, hr, fun _ => rfl, [], by simp⟩
  by_cases hn : n ≤ r.left
  · have hin : r.pos + n ≤ r.p.length := by
      unfold Cursor.left at hn
      omega
    by_cases hok : ok ((r.p.drop r.pos).take n) = true
    · refine ⟨some ((r.p.drop r.pos).take n), { r with pos := r.pos + n }, ?_,
        ⟨rfl, Nat.le_add_right _ _, hin, id, [], by simp⟩, fun _ => ⟨⟨_, rfl, ?_, hok⟩, fun e => ?_⟩⟩
      · simp only [take, hn, hin, hok, if_true]
      · rw [List.length_take, List.length_drop]
        omega
      · have hn' : n ≤ (r.extend e).left := Nat.le_trans hn (left_extend_le r e)
        have hin' : (r.extend e).pos + n ≤ (r.extend e).p.length := by
          simp only [Cursor.extend, List.length_append]
          omega
        have hsame : ((r.extend e).p.drop (r.extend e).pos).take n = (r.p.drop r.pos).take n := by
          simp only [Cursor.extend]
          rw [List.drop_append_of_le_length hr, List.take_append_of_le_length]
          rw [List.length_drop]
          omega
        simp only [take, hn', hin', hsame, hok, if_true]
        rfl
    · refine ⟨none, { r with bad := true }, ?_, hup, fun h => nomatch h⟩
      simp only [take, hn, hin, hok, if_true, if_false, Bool.false_eq_true]
  · exact ⟨none, { r with bad := true }, if_neg hn, hup, fun h => nomatch h⟩

theorem bind_eq_some {f : α → Reading ε β} {r : Cursor ε} {y : β × Cursor ε} :
    (x >>= f) r = some y ↔ ∃ a r', x r = some (a, r') ∧ f a r' = some y := by
  show (x r).bind _ = some y ↔ _
  rw [Option.bind_eq_some_iff]
  exact Prod.exists

/-- A byte that is not 0 was there. -/
theorem readByte_ne_zero {r r' : Cursor ε} {c : Nat} (h : readByte r = some (c, r')) (hc : c ≠ 0) :
    c < 256 ∧ r'.left < r.left := by
  unfold readByte at h
  split at h
  · cases h
    exact absurd rfl hc
  · split at h
    · cases h
    · cases h
      refine ⟨UInt8.toNat_lt _, ?_⟩
      simp only [Cursor.left]
      omega

variable (hQ : ∀ e, Q false e → Q true e)
include hQ

theorem SoundAt.bind {f : α → Reading ε β} {R : β → Prop} {r : Cursor ε}
    (hx : SoundAt Q I x P r)
    (hf : ∀ a r', x r = some (a, r') → r.Moves Q r' → SoundAt Q (I ∧ P a) (f a) R r') :
    SoundAt Q I (x >>= f) R r := by
  intro hr hI
  obtain ⟨a, r', hxr, hm, hgood⟩ := hx hr hI
  obtain ⟨b, r'', hfr, hm', hgood'⟩ :=
    hf a r' hxr hm hm.inside fun hb => ⟨hI (hm.good hb), (hgood hb).1⟩
  have hrun : ∀ s s', x s = some (a, s') → (x >>= f) s = f a s' := by
    intro s s' hs
    show (x s).bind _ = _
    rw [hs]
    rfl
  refine ⟨b, r'', (hrun r r' hxr).trans hfr, hm.trans hQ hm', fun hb => ?_⟩
  obtain ⟨hR, hstable'⟩ := hgood' hb
  obtain ⟨-, hstable⟩ := hgood (hm'.good hb)
  exact ⟨hR, fun e => (hrun _ _ (hstable e)).trans (hstable' e)⟩

theorem Sound.bind {f : α → Reading ε β} {R : β → Prop} (hx : Sound Q I x P)
    (hf : ∀ a, Sound Q (I ∧ P a) (f a) R) : Sound Q I (x >>= f) R := fun r =>
  (hx r).bind hQ fun a r' _ _ => hf a r'

/-- A failure may be followed by anything that stops. -/
theorem sound_fail_then (hx : Sound Q False x P) : Sound Q I (fail >>= fun _ => x) P :=
  sound_fail.bind hQ fun _ => hx.mono (fun h => h.2) fun _ h => h

theorem Sound.map {f : α → β} {R : β → Prop} (hx : Sound Q I x P) (hf : ∀ a, P a → R (f a)) :
    Sound Q I (f <$> x) R := by
  rw [map_eq_pure_bind]
  exact hx.bind hQ fun a => sound_pure fun h => hf a h.2

variable {J : σ → Prop}

/-- What each turn keeps the loop keeps. -/
theorem Sound.times {body : σ → Reading ε (Turn σ σ)}
    (hbody : ∀ s, Sound Q (J s) (body s) fun t => J t.state) (n : Nat) (s : σ) :
    Sound Q (J s) (times body n s) J := by
  induction n generalizing s with
  | zero => exact sound_pure id
  | succ n ih =>
    refine sound_isBad.bind hQ fun b => .ite (fun _ => sound_pure And.left) fun _ => ?_
    refine ((hbody s).mono And.left fun _ h => h).bind hQ fun t => ?_
    cases t with
    | again t => exact (ih t).mono And.right fun _ h => h
    | leave t => exact sound_pure And.right

omit hQ in
/-- More turns than are taken make no difference. -/
theorem stopTurns_le {body : Nat → σ → Reading ε (Turn σ σ)} {n m : Nat} {s : σ} {r : Cursor ε}
    {x : σ × Cursor ε} (h : stopTurns body n s r = some x) (hle : n ≤ m) :
    stopTurns body m s r = some x := by
  induction n generalizing m s r with
  | zero => cases h
  | succ n ih =>
    obtain ⟨m, rfl⟩ : ∃ k, m = k + 1 := ⟨m - 1, by omega⟩
    unfold stopTurns at h ⊢
    rw [bind_eq_some] at h ⊢
    obtain ⟨b, r₁, hb, h⟩ := h
    refine ⟨b, r₁, hb, ?_⟩
    split
    · rwa [if_pos ‹_›] at h
    · rw [if_neg ‹_›, bind_eq_some] at h
      rw [bind_eq_some]
      obtain ⟨c, r₂, hc, h⟩ := h
      refine ⟨c, r₂, hc, ?_⟩
      split
      · rwa [if_pos ‹_›] at h
      · rw [if_neg ‹_›, bind_eq_some] at h
        rw [bind_eq_some]
        obtain ⟨t, r₃, ht, h⟩ := h
        refine ⟨t, r₃, ht, ?_⟩
        cases t with
        | again t => exact ih h (by omega)
        | leave t => exact h

theorem sound_stopTurns {body : Nat → σ → Reading ε (Turn σ σ)}
    (hbody : ∀ h s, h ≠ 0 → h < 256 → Sound Q (J s) (body h s) fun t => J t.state) (n : Nat)
    (s : σ) {r : Cursor ε} (hn : r.left < n) : SoundAt Q (J s) (stopTurns body n s) J r := by
  induction n generalizing s r with
  | zero => omega
  | succ n ih =>
    refine (sound_isBad r).bind hQ fun b r₁ hb _ => ?_
    obtain rfl : r₁ = r := by cases hb; rfl
    refine .ite (fun _ => sound_pure And.left _) fun _ => ?_
    refine (sound_readByte r₁).bind hQ fun h r₂ hh _ => ?_
    refine .ite (fun _ => sound_pure (fun hI => hI.1.1) _) fun hne => ?_
    obtain ⟨hlt, hleft⟩ := readByte_ne_zero hh hne
    refine ((hbody h s hne hlt r₂).mono (fun hI => hI.1.1) fun _ h => h).bind hQ
      fun t r₃ _ hm => ?_
    have hleft' : r₃.left ≤ r₂.left := by
      have := hm.le
      simp only [Cursor.left, hm.buffer]
      omega
    cases t with
    | again t => exact (ih t (by omega)).mono And.right fun _ h => h
    | leave t => exact sound_pure And.right _

theorem Sound.untilStop {body : Nat → σ → Reading ε (Turn σ σ)}
    (hbody : ∀ h s, h ≠ 0 → h < 256 → Sound Q (J s) (body h s) fun t => J t.state) (s : σ) :
    Sound Q (J s) (untilStop body s) J := by
  intro r hr hI
  obtain ⟨a, r', hx, hm, hgood⟩ := sound_stopTurns hQ hbody (r.left + 1) s (by omega) hr hI
  refine ⟨a, r', hx, hm, fun hb => ⟨(hgood hb).1, fun e => ?_⟩⟩
  have := left_extend_le r e
  exact stopTurns_le ((hgood hb).2 e) (by omega)

end Rules

end Reading

end Enil.Lib
