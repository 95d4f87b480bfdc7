import Enil.Lib.Cursor

/-!
# Writers and their readers

A writer appends to a buffer or refuses. `Takes` says what a reader makes of bytes that come
next: it takes just these and gives a result, or the flag is up. `Rereads` is this for whatever
bytes a writer appended; its rules put a writer and its reader together piece by piece.
-/

namespace Enil.Lib

/-- Appends to a buffer, or refuses. -/
abbrev Writing := List UInt8 → Option (List UInt8)

namespace Writing

def refuse : Writing := fun _ => none

/-- Appends to a buffer of at most `cap` bytes. -/
def append (cap : Nat) (s : List UInt8) : Writing := fun b =>
  if s.length ≤ cap ∧ b.length ≤ cap - s.length then some (b ++ s) else none

/-- One after the other. -/
def all {α : Type} (f : α → Writing) : List α → Writing
  | [] => some
  | x :: xs => f x >=> all f xs

theorem append_eq_some {cap : Nat} {s b b' : List UInt8} (h : append cap s b = some b') :
    s.length ≤ cap ∧ b'.length ≤ cap ∧ b' = b ++ s := by
  unfold append at h
  split at h
  · rename_i hfit
    cases h
    refine ⟨hfit.1, ?_, rfl⟩
    rw [List.length_append]
    omega
  · cases h

/-- A buffer that fits is one that fits behind the writer. -/
def Fits (cap : Nat) (f : Writing) : Prop :=
  ∀ b b', b.length ≤ cap → f b = some b' → b'.length ≤ cap

theorem seq_eq_some {f g : Writing} {b b' : List UInt8} :
    (f >=> g) b = some b' ↔ ∃ c, f b = some c ∧ g c = some b' := Option.bind_eq_some_iff

/-- Where each element is written as what was made of it, the whole list is. -/
theorem all_of_mapM {α β : Type} {f : α → Writing} {g : β → Writing} {c : α → Option β}
    (h : ∀ x y b b', f x b = some b' → c x = some y → g y b = some b') {xs : List α} {ys : List β}
    {b b' : List UInt8} (hb : all f xs b = some b') (hys : xs.mapM c = some ys) :
    all g ys b = some b' ∧ ys.length = xs.length := by
  induction xs generalizing ys b with
  | nil =>
    cases hys
    exact ⟨hb, rfl⟩
  | cons x xs ih =>
    rw [List.mapM_cons] at hys
    obtain ⟨y, hy, hys⟩ := Option.bind_eq_some_iff.mp hys
    obtain ⟨zs, hzs, hys⟩ := Option.bind_eq_some_iff.mp hys
    cases hys
    obtain ⟨b₁, hx, hxs⟩ := seq_eq_some.mp hb
    obtain ⟨hall, hlen⟩ := ih hxs hzs
    exact ⟨seq_eq_some.mpr ⟨b₁, h x y b b₁ hx hy, hall⟩, by rw [List.length_cons, hlen, List.length_cons]⟩

theorem fits_refuse {cap : Nat} : Fits cap refuse := fun _ _ _ h => nomatch h

theorem fits_some {cap : Nat} : Fits cap some := fun _ _ hcap h => Option.some.inj h ▸ hcap

theorem fits_append {cap : Nat} {s : List UInt8} : Fits cap (append cap s) :=
  fun _ _ _ h => (append_eq_some h).2.1

theorem Fits.seq {cap : Nat} {f g : Writing} (hf : Fits cap f) (hg : Fits cap g) :
    Fits cap (f >=> g) := by
  intro b b' hcap h
  obtain ⟨c, hfb, hgc⟩ := seq_eq_some.mp h
  exact hg c b' (hf b c hcap hfb) hgc

end Writing

namespace Reading

open Writing

variable {ε α β σ : Type}

/-- These bytes are left. -/
structure Before (r : Cursor ε) (s : List UInt8) : Prop where
  inside : r.pos ≤ r.p.length
  drop : r.p.drop r.pos = s

theorem Before.left {r : Cursor ε} {s : List UInt8} (h : Before r s) : r.left = s.length := by
  rw [← h.drop, List.length_drop, Cursor.left]

theorem Before.advance {r r' : Cursor ε} {enc rest : List UInt8} (h : Before r (enc ++ rest))
    (hp : r'.p = r.p) (hpos : r'.pos = r.pos + enc.length) : Before r' rest := by
  have hlen := congrArg List.length h.drop
  have hin := h.inside
  rw [List.length_drop, List.length_append] at hlen
  refine ⟨by rw [hp, hpos]; omega, ?_⟩
  rw [hp, hpos, ← List.drop_drop, h.drop, List.drop_left]

/-- What has come of a reader: nothing where the flag is up. -/
def upshot (r : Cursor ε) (a : α) : Option α := if r.bad then none else some a

/-- Where the flag is down and `enc` comes next, `x` takes just these bytes, or puts the flag
up; `P` holds of what comes of it. -/
def Takes (enc : List UInt8) (x : Reading ε α) (P : Option α → Prop) : Prop :=
  ∀ (r : Cursor ε) (rest : List UInt8), r.bad = false → Before r (enc ++ rest) →
    ∃ a r', x r = some (a, r') ∧ r'.p = r.p ∧ r'.pos ≤ r'.p.length ∧
      (r'.bad = false → r'.pos = r.pos + enc.length) ∧ P (upshot r' a)

/-- Once the flag is up it stays up. -/
def Keeps (x : Reading ε α) : Prop :=
  ∀ r : Cursor ε, r.bad = true → r.pos ≤ r.p.length →
    ∃ a r', x r = some (a, r') ∧ r'.bad = true ∧ r'.p = r.p ∧ r'.pos ≤ r'.p.length

theorem Sound.keeps {Q : Bool → ε → Prop} {I : Prop} {x : Reading ε α} {P : α → Prop}
    (h : Sound Q I x P) : Keeps x := by
  intro r hbad hin
  obtain ⟨a, r', hx, hm, -⟩ := h r hin fun hgood => by rw [hbad] at hgood; cases hgood
  exact ⟨a, r', hx, hm.bad hbad, hm.buffer, hm.inside⟩

theorem keeps_pure (a : α) : Keeps (pure a : Reading ε α) := fun r hbad hin =>
  ⟨a, r, rfl, hbad, rfl, hin⟩

theorem Keeps.bind {x : Reading ε α} {f : α → Reading ε β} (hx : Keeps x) (hf : ∀ a, Keeps (f a)) :
    Keeps (x >>= f) := by
  intro r hbad hin
  obtain ⟨a, r', hxr, hbad', hp, hin'⟩ := hx r hbad hin
  obtain ⟨b, r'', hfr, hbad'', hp', hin''⟩ := hf a r' hbad' hin'
  exact ⟨b, r'', bind_eq_some.mpr ⟨a, r', hxr, hfr⟩, hbad'', hp'.trans hp, hin''⟩

theorem keeps_fail : Keeps (fail : Reading ε Unit) := fun r _ hin =>
  ⟨(), { r with bad := true }, rfl, rfl, rfl, hin⟩

section Takes

variable {x : Reading ε α} {P P' : Option α → Prop} {enc enc' : List UInt8} {c : α}

theorem Takes.mono (h : Takes enc x P) (hP : ∀ o, P o → P' o) : Takes enc x P' := by
  intro r rest hr hdrop
  obtain ⟨a, r', hx, hp, hin, hpos, ha⟩ := h r rest hr hdrop
  exact ⟨a, r', hx, hp, hin, hpos, hP _ ha⟩

theorem takes_pure (h : P (some c)) : Takes [] (pure c : Reading ε α) P := by
  intro r rest hr hdrop
  refine ⟨c, r, rfl, rfl, hdrop.inside, fun _ => rfl, ?_⟩
  unfold upshot
  rwa [hr]

/-- What follows a reader takes the bytes behind; where the flag is up it leaves it there. -/
theorem Takes.bind {f : α → Reading ε β} {R : Option β → Prop} (hx : Takes enc x P)
    (hf : ∀ a, P (some a) → Takes enc' (f a) R)
    (hbad : P none → R none ∧ ∀ a, Keeps (f a)) : Takes (enc ++ enc') (x >>= f) R := by
  intro r rest hr hdrop
  rw [List.append_assoc] at hdrop
  obtain ⟨a, r', hxr, hp, hin, hpos, ha⟩ := hx r _ hr hdrop
  unfold upshot at ha
  cases hr' : r'.bad with
  | false =>
    rw [hr', if_neg Bool.false_ne_true] at ha
    obtain ⟨b, r'', hfr, hp', hin', hpos', hb⟩ :=
      hf a ha r' rest hr' (hdrop.advance hp (hpos hr'))
    refine ⟨b, r'', bind_eq_some.mpr ⟨a, r', hxr, hfr⟩, hp'.trans hp, hin', fun hr'' => ?_, hb⟩
    rw [hpos' hr'', hpos hr', List.length_append, Nat.add_assoc]
  | true =>
    rw [hr', if_pos rfl] at ha
    obtain ⟨hR, hkeeps⟩ := hbad ha
    obtain ⟨b, r'', hfr, hr'', hp', hin'⟩ := hkeeps a r' hr' hin
    refine ⟨b, r'', bind_eq_some.mpr ⟨a, r', hxr, hfr⟩, hp'.trans hp, hin', fun h => ?_, ?_⟩
    · rw [hr''] at h
      cases h
    · unfold upshot
      rwa [if_pos hr'']

/-- The same where the result is known. -/
theorem Takes.next {f : α → Reading ε β} {R : Option β → Prop} (hx : Takes enc x (· = some c))
    (hf : Takes enc' (f c) R) : Takes (enc ++ enc') (x >>= f) R := by
  refine hx.bind (fun a ha => ?_) fun h => nomatch h
  rwa [Option.some.inj ha]

/-- What takes no byte comes behind what took some. -/
theorem Takes.last {f : α → Reading ε β} {R : Option β → Prop} (hx : Takes enc x (· = some c))
    (hf : Takes [] (f c) R) : Takes enc (x >>= f) R := by
  rw [← List.append_nil enc]
  exact hx.next hf

/-- What takes no byte comes before what takes some. -/
theorem Takes.skip {f : α → Reading ε β} {R : Option β → Prop} (hx : Takes [] x (· = some c))
    (hf : Takes enc (f c) R) : Takes enc (x >>= f) R := hx.next hf

theorem Takes.map {f : α → β} {R : Option β → Prop} (hx : Takes enc x P)
    (hf : ∀ o, P o → R (o.map f)) : Takes enc (f <$> x) R := by
  rw [map_eq_pure_bind, ← List.append_nil enc]
  exact hx.bind (fun a ha => takes_pure (hf _ ha)) fun h => ⟨hf _ h, fun a => keeps_pure _⟩

theorem takes_isBad : Takes [] (isBad : Reading ε Bool) (· = some false) := by
  intro r rest hr hdrop
  refine ⟨false, r, ?_, rfl, hdrop.inside, fun _ => rfl, ?_⟩
  · unfold isBad
    rw [hr]
  · unfold upshot
    rw [hr]
    rfl

theorem takes_failIf {p : Prop} [Decidable p] (h : ¬ p) :
    Takes [] (failIf p : Reading ε Unit) (· = some ()) := by
  unfold failIf
  rw [if_neg h]
  exact takes_pure rfl

theorem takes_note {e : ε} : Takes [] (note e) (· = some ()) := by
  intro r rest hr hdrop
  refine ⟨(), _, rfl, rfl, hdrop.inside, fun _ => rfl, ?_⟩
  unfold upshot
  rw [hr]
  rfl

/-- The flag comes up, whatever is left. -/
theorem takes_fail {f : Unit → Reading ε α} (hf : Keeps (f ())) (hP : P none) :
    Takes enc (fail >>= f) P := by
  intro r rest _ hdrop
  obtain ⟨a, r', hfr, hbad, hp, hin⟩ := hf { r with bad := true } rfl hdrop.inside
  refine ⟨a, r', bind_eq_some.mpr ⟨(), _, rfl, hfr⟩, hp, hin, fun h => ?_, ?_⟩
  · rw [hbad] at h
    cases h
  · unfold upshot
    rwa [if_pos hbad]

theorem takes_readByte (c : UInt8) :
    Takes [c] (readByte : Reading ε Nat) (· = some c.toNat) := by
  intro r rest hr hdrop
  have hget : r.p[r.pos]? = some c := by
    rw [← List.head?_drop, hdrop.drop]
    rfl
  have hlt : ¬ r.p.length ≤ r.pos := by
    intro hle
    have h := hdrop.drop
    rw [List.drop_eq_nil_of_le hle] at h
    cases h
  refine ⟨c.toNat, { r with pos := r.pos + 1 }, ?_, rfl, Nat.lt_of_not_le hlt,
    fun _ => rfl, ?_⟩
  · simp only [readByte, hlt, if_false, hget]
  · unfold upshot
    simp only [hr, Bool.false_eq_true, if_false]

theorem takes_take {bs : List UInt8} {ok : List UInt8 → Bool} (hok : ok bs = true) :
    Takes bs (take bs.length ok : Reading ε _) (· = some (some bs)) := by
  intro r rest hr hdrop
  have hleft := hdrop.left
  rw [List.length_append] at hleft
  have htake : (r.p.drop r.pos).take bs.length = bs := by rw [hdrop.drop, List.take_left]
  have hfits : bs.length ≤ r.left := by omega
  have hin : r.pos + bs.length ≤ r.p.length := by
    have := hdrop.inside
    unfold Cursor.left at hleft
    omega
  refine ⟨some bs, { r with pos := r.pos + bs.length }, ?_, rfl, hin, fun _ => rfl, ?_⟩
  · simp only [take, hfits, hin, htake, hok, if_true]
  · unfold upshot
    simp only [hr, Bool.false_eq_true, if_false]

/-- As many bytes are left as come next. -/
theorem Takes.fits {f : Bool → Reading ε β} {R : Option β → Prop} {n : Nat} (hn : n ≤ enc.length)
    (hf : Takes enc (f true) R) : Takes enc (fits n >>= f) R := by
  intro r rest hr hdrop
  have hleft := hdrop.left
  rw [List.length_append] at hleft
  obtain ⟨b, r', hfr, hr'⟩ := hf r rest hr hdrop
  exact ⟨b, r', bind_eq_some.mpr ⟨true, r, if_pos (by omega), hfr⟩, hr'⟩

/-! ## Loops -/

variable {body : Nat → σ → Reading ε (Turn σ σ)} {s : σ} {n : Nat} {R : Option σ → Prop}

theorem keeps_stopTurns : Keeps (stopTurns body (n + 1) s) := fun r hbad hin =>
  ⟨s, r, bind_eq_some.mpr ⟨true, r, by unfold isBad; rw [hbad], rfl⟩, hbad, rfl, hin⟩

theorem keeps_times {body : σ → Reading ε (Turn σ σ)} (n : Nat) (s : σ) :
    Keeps (times body n s) := by
  intro r hbad hin
  cases n with
  | zero => exact ⟨s, r, rfl, hbad, rfl, hin⟩
  | succ n => exact ⟨s, r, bind_eq_some.mpr ⟨true, r, by unfold isBad; rw [hbad], rfl⟩, hbad, rfl, hin⟩

theorem takes_stop (hR : R (some s)) : Takes [0] (stopTurns body (n + 1) s) R := by
  refine takes_isBad.skip ?_
  rw [if_neg Bool.false_ne_true, ← List.append_nil [0]]
  exact (takes_readByte 0).next (takes_pure hR)

/-- A turn at a byte that is no stop, and the turns behind it. -/
theorem takes_turn {c : UInt8} {t : Option σ} (hc : c ≠ 0)
    (hbody : Takes enc (body c.toNat s) (· = t.map .again))
    (hrest : ∀ s', t = some s' → Takes enc' (stopTurns body (n + 1) s') R)
    (hnone : t = none → R none) :
    Takes (c :: (enc ++ enc')) (stopTurns body (n + 2) s) R := by
  have hne : c.toNat ≠ 0 := fun h0 => hc (UInt8.toNat_inj.mp h0)
  refine takes_isBad.skip ?_
  rw [if_neg Bool.false_ne_true]
  refine (takes_readByte c).next ?_
  rw [if_neg hne]
  refine hbody.bind (fun t' ht' => ?_) fun h => ⟨hnone ?_, fun t' => ?_⟩
  · obtain ⟨s', hs', rfl⟩ := Option.map_eq_some_iff.mp ht'.symm
    exact hrest s' hs'
  · exact Option.map_eq_none_iff.mp h.symm
  · cases t' with
    | again s' => exact keeps_stopTurns
    | leave s' => exact keeps_pure s'

/-- The bytes left are turns enough. -/
theorem Takes.untilStop (h : ∀ n, enc.length ≤ n → Takes enc (stopTurns body n s) R) :
    Takes enc (untilStop body s) R := by
  intro r rest hr hdrop
  have hleft := hdrop.left
  rw [List.length_append] at hleft
  exact h (r.left + 1) (by omega) r rest hr hdrop

end Takes

/-! ## What a writer appended -/

/-- In a buffer of at most `cap` bytes `f` appends `n` bytes at least; `x` takes all of them,
and `P` holds of what comes of it. -/
def Rereads (cap n : Nat) (f : Writing) (x : Reading ε α) (P : Option α → Prop) : Prop :=
  ∀ b b', b.length ≤ cap → f b = some b' →
    ∃ enc, b' = b ++ enc ∧ b'.length ≤ cap ∧ n ≤ enc.length ∧ Takes enc x P

section Rereads

variable {cap : Nat} {f g : Writing} {x : Reading ε α} {P P' : Option α → Prop}
  {k : α → Reading ε β} {R : Option β → Prop} {m n : Nat} {c : α}

theorem Rereads.mono (h : Rereads cap n f x P) (hP : ∀ o, P o → P' o) : Rereads cap n f x P' := by
  intro b b' hcap hb
  obtain ⟨enc, hb', hcap', hn, ht⟩ := h b b' hcap hb
  exact ⟨enc, hb', hcap', hn, ht.mono hP⟩

theorem Rereads.le (h : Rereads cap n f x P) (hm : m ≤ n) : Rereads cap m f x P := by
  intro b b' hcap hb
  obtain ⟨enc, hb', hcap', hn, ht⟩ := h b b' hcap hb
  exact ⟨enc, hb', hcap', by omega, ht⟩

theorem rereads_refuse : Rereads cap n refuse x P := fun _ _ _ h => nomatch h

theorem Rereads.of_takes (hx : Takes [] x P) : Rereads cap 0 some x P := by
  rintro b _ hcap ⟨⟩
  exact ⟨[], (List.append_nil b).symm, hcap, le_refl _, hx⟩

theorem rereads_append {s : List UInt8} (h : s.length ≤ cap → Takes s x P) :
    Rereads cap s.length (append cap s) x P := by
  intro b b' hcap hb
  obtain ⟨hle, hle', rfl⟩ := append_eq_some hb
  exact ⟨s, rfl, hle', le_refl _, h hle⟩

/-- A writer whose reader gives a known result, and the writer behind it. -/
theorem Rereads.next (hx : Rereads cap m f x (· = some c)) (hk : Rereads cap n g (k c) R) :
    Rereads cap (m + n) (f >=> g) (x >>= k) R := by
  intro b b' hcap hb
  obtain ⟨b₁, hf, hg⟩ := seq_eq_some.mp hb
  obtain ⟨enc, rfl, hcap₁, hm, ht⟩ := hx b b₁ hcap hf
  obtain ⟨enc', rfl, hcap', hn, ht'⟩ := hk _ b' hcap₁ hg
  refine ⟨enc ++ enc', List.append_assoc _ _ _, hcap', ?_, ht.next ht'⟩
  rw [List.length_append]
  omega

/-- What is read before the bytes that were written. -/
theorem Rereads.skip (hx : Takes [] x (· = some c)) (hk : Rereads cap n g (k c) R) :
    Rereads cap n g (x >>= k) R := by
  intro b b' hcap hb
  obtain ⟨enc, rfl, hcap', hn, ht⟩ := hk b b' hcap hb
  exact ⟨enc, rfl, hcap', hn, hx.skip ht⟩

/-- What is done with the result. -/
theorem Rereads.andThen (hx : Rereads cap n f x P) (hk : ∀ a, P (some a) → Takes [] (k a) R)
    (hbad : P none → R none ∧ ∀ a, Keeps (k a)) : Rereads cap n f (x >>= k) R := by
  intro b b' hcap hb
  obtain ⟨enc, rfl, hcap', hn, ht⟩ := hx b b' hcap hb
  refine ⟨enc, rfl, hcap', hn, ?_⟩
  rw [← List.append_nil enc]
  exact ht.bind hk hbad

theorem Rereads.map {h : α → β} (hx : Rereads cap n f x P) (hh : ∀ o, P o → R (o.map h)) :
    Rereads cap n f (h <$> x) R := by
  intro b b' hcap hb
  obtain ⟨enc, rfl, hcap', hn, ht⟩ := hx b b' hcap hb
  exact ⟨enc, rfl, hcap', hn, ht.map hh⟩

theorem Rereads.fits {k : Bool → Reading ε β} (hk : Rereads cap n f (k true) R) :
    Rereads cap n f (fits n >>= k) R := by
  intro b b' hcap hb
  obtain ⟨enc, rfl, hcap', hn, ht⟩ := hk b b' hcap hb
  exact ⟨enc, rfl, hcap', hn, ht.fits hn⟩

theorem Rereads.fail {k : Unit → Reading ε β} (hf : Rereads cap n f x P) (hk : Keeps (k ()))
    (hR : R none) : Rereads cap n f (fail >>= k) R := by
  intro b b' hcap hb
  obtain ⟨enc, rfl, hcap', hn, -⟩ := hf b b' hcap hb
  exact ⟨enc, rfl, hcap', hn, takes_fail hk hR⟩

/-- Elements that were written are no more than the buffer takes. -/
theorem length_le_of_all {w : β → Writing} {y : β → Reading ε α} {P : β → Option α → Prop}
    {xs : List β} (h : ∀ z, Rereads cap 1 (w z) (y z) (P z)) {b b' : List UInt8}
    (hb : b.length ≤ cap) (hall : all w xs b = some b') :
    b.length + xs.length ≤ b'.length ∧ b'.length ≤ cap := by
  induction xs generalizing b with
  | nil =>
    cases hall
    exact ⟨le_refl _, hb⟩
  | cons x xs ih =>
    obtain ⟨c, hx, hxs⟩ := seq_eq_some.mp hall
    obtain ⟨enc, rfl, hcap, hlen, -⟩ := h x b c hb hx
    obtain ⟨hle, hcap'⟩ := ih hcap hxs
    rw [List.length_append] at hle
    rw [List.length_cons]
    exact ⟨by omega, hcap'⟩

/-- A counted loop takes the elements one after the other, up to one that is refused. -/
theorem rereads_times {w : β → Writing} {body : σ → Reading ε (Turn σ σ)}
    {step : σ → β → Option σ} (xs : List β)
    (h : ∀ s, ∀ y ∈ xs, Rereads cap 1 (w y) (body s) (· = (step s y).map .again)) (s : σ) :
    Rereads cap xs.length (all w xs) (times body xs.length s) (· = xs.foldlM step s) := by
  induction xs generalizing s with
  | nil => exact .of_takes (takes_pure rfl)
  | cons y ys ih =>
    intro b b' hcap hb
    obtain ⟨b₁, hw, hall⟩ := seq_eq_some.mp hb
    obtain ⟨enc, rfl, hcap₁, hlen, ht⟩ := h s y List.mem_cons_self b b₁ hcap hw
    have hys := ih fun t z hz => h t z (List.mem_cons_of_mem y hz)
    -- the bytes behind are there whatever the state is
    obtain ⟨enc', rfl, hcap', hlen', -⟩ := hys s _ b' hcap₁ hall
    refine ⟨enc ++ enc', List.append_assoc _ _ _, hcap', ?_, ?_⟩
    · rw [List.length_append, List.length_cons]
      omega
    · refine takes_isBad.skip ?_
      rw [if_neg Bool.false_ne_true]
      refine ht.bind (fun t ht' => ?_) fun hnone => ⟨?_, fun t => ?_⟩
      · obtain ⟨s', hs', rfl⟩ := Option.map_eq_some_iff.mp ht'.symm
        obtain ⟨enc'', heq, -, -, hrest⟩ := hys s' _ _ hcap₁ hall
        rw [List.foldlM_cons, hs']
        rwa [← List.append_cancel_left heq] at hrest
      · rw [List.foldlM_cons, Option.map_eq_none_iff.mp hnone.symm]
        rfl
      · cases t with
        | again t => exact keeps_times _ t
        | leave t => exact keeps_pure t

end Rereads

end Reading

end Enil.Lib
