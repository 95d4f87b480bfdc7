import Enil.Login.Store

/-!
# A consumed login is not selected again

Where the process stops between the activation of a login and the retirement of its
directory, the account that the login went into stands for the missing marker. It does so
while it is there, has the login or, where the login was made for that account, one that is
not the login before, and while the staging directory is not used again. These are the
steps that a run has to avoid.
-/

namespace Enil

open Lib

namespace LoginStore

variable {w : LoginStore} {s p staged : Keyed} {name mid : String}

/-! ## What guards a directory without a marker -/

variable (w) in
/-- A session with an access token is of the login in which the token was issued. -/
def Recorded (s : Keyed) : Prop :=
  ∀ token, s.str "accessToken" = some token → ∃ s₀, w.issued token = some s₀ ∧
    (s₀.str "loginId").isSome ∧ ∀ key ∈ loginKeys, s.str key = s₀.str key

variable (w) in
/-- The account tells that the login of a pending directory is used up. -/
def Guards (p : Keyed) (mid : String) : Prop :=
  match p.str "reauthMid" with
  | none => (w.accounts mid).parsed.isSome
  | some expected => ∃ id, (w.accounts mid).str "loginId" = some id ∧
      (p.str "loginId" = some id ∨ (expected = mid ∧ p.str "reauthLoginId" ≠ some id))

variable (w) in
/-- A directory without a marker whose login was activated. -/
structure Exposed (name : String) (p : Keyed) : Prop where
  unretired : w.isRetired name = false
  session : w.session name = .object p
  activated : ∃ token ∈ w.activated, p.str "accessToken" = some token

variable (w) in
/-- Every session with a token is recorded, and the accounts guard what is exposed. -/
structure Safe : Prop where
  staging : ∀ name s, w.staging name = .object s → w.Recorded s
  pending : ∀ name s, w.session name = .object s → w.Recorded s
  activated : ∀ token ∈ w.activated, (w.issued token).isSome
  guarded : ∀ name p, w.Exposed name p → ∃ mid, p.str "mid" = some mid ∧ w.Guards p mid

/-- A guarded login is superseded, if the account can be read. -/
theorem Guards.isSuperseded (h : w.Guards p mid) {o : StoreOutcome} (ho : name ∉ o.activeFails) :
    w.isSuperseded o p (p.str "reauthMid") name mid = true := by
  have hseen : (w.accounts mid).seen (o.activeFails.contains name) = w.accounts mid :=
    if_neg (by simpa using ho)
  unfold Guards at h
  unfold LoginStore.isSuperseded
  rw [hseen]
  cases hexpected : p.str "reauthMid" with
  | none =>
    rw [hexpected] at h
    have hactive : (w.accounts mid).parsed.isSome = true := h
    simp [hactive]
  | some expected =>
    rw [hexpected] at h
    obtain ⟨id, hid, hlogin | ⟨rfl, hbaseline⟩⟩ := h
    · simp [hid, hlogin]
    · have hactive : (w.accounts expected).parsed.isSome = true := by
        cases hfile : w.accounts expected with
        | object a => rfl
        | value => rfl
        | missing | garbled =>
          rw [hfile] at hid
          cases hid
      cases hp : p.str "reauthLoginId" with
      | none => simp [hactive, hid]
      | some baseline =>
        have hne : id ≠ baseline := by
          rintro rfl
          exact hbaseline hp
        simp [hactive, hid, hne]

/-- And so no staging session goes on in its directory. -/
theorem Guards.isMatch (hmid : p.str "mid" = some mid) (h : w.Guards p mid) {o : StoreOutcome}
    (ho : name ∉ o.activeFails) : w.isMatch o staged p name = false := by
  unfold LoginStore.isMatch
  dsimp only
  split_ifs with hidentity hexpected hbaseline
  · rfl
  · rfl
  · rfl
  · have heq : staged.str "reauthMid" = p.str "reauthMid" := by simpa using hexpected
    rw [hmid, heq]
    dsimp only
    rw [h.isSuperseded ho]
    simp

/-- Logins that agree on what does not change are guarded alike. -/
theorem Guards.congr (h : w.Guards p mid) (hkeys : ∀ key ∈ loginKeys, s.str key = p.str key) :
    w.Guards s mid := by
  unfold Guards at h ⊢
  rw [hkeys "reauthMid" (by decide), hkeys "loginId" (by decide),
    hkeys "reauthLoginId" (by decide)]
  exact h

/-- An account that keeps its id goes on to guard. -/
theorem Guards.keep {a : Keyed} {w' : LoginStore} (h : w.Guards p mid)
    (hfile : w'.accounts mid = .object a)
    (hid : ∀ id, (w.accounts mid).str "loginId" = some id → a.str "loginId" = some id) :
    w'.Guards p mid := by
  unfold Guards at h ⊢
  cases hexpected : p.str "reauthMid" with
  | none =>
    show (w'.accounts mid).parsed.isSome = true
    rw [hfile]
    rfl
  | some expected =>
    rw [hexpected] at h
    obtain ⟨id, hold, hlogin⟩ := h
    exact ⟨id, by rw [hfile]; exact hid id hold, hlogin⟩

/-! ## Directories and files -/

theorem lookup_insert_apply {pending : AList fun _ : String => PendingDir} {n m : String}
    {d : PendingDir} :
    (pending.insert n d).lookup m = if m = n then some d else pending.lookup m := by
  split_ifs with h
  · rw [h, AList.lookup_insert]
  · rw [AList.lookup_insert_ne h]

theorem session_insert {d : PendingDir} {n : String} :
    ({ w with pending := w.pending.insert name d } : LoginStore).session n =
      if n = name then d.session else w.session n := by
  unfold session
  dsimp only
  rw [lookup_insert_apply]
  split_ifs <;> rfl

theorem isRetired_insert {d : PendingDir} {n : String} :
    ({ w with pending := w.pending.insert name d } : LoginStore).isRetired n =
      if n = name then d.retired else w.isRetired n := by
  unfold isRetired
  dsimp only
  rw [lookup_insert_apply]
  split_ifs <;> rfl

theorem isRetired_put (f : LoginFile) (q : LoginPlace) (n : String) :
    (w.put f q).isRetired n = w.isRetired n := by
  cases q with
  | staging m | account m => rfl
  | pending m =>
    show ({ w with pending := w.pending.insert m ⟨f, w.isRetired m⟩ } : LoginStore).isRetired n = _
    rw [isRetired_insert]
    split_ifs with h
    · rw [h]
    · rfl

theorem session_put_pending (f : LoginFile) (m n : String) :
    (w.put f (.pending m)).session n = if n = m then f else w.session n := session_insert

theorem Recorded.of_none (h : s.str "accessToken" = none) : w.Recorded s := by
  intro token htoken
  rw [h] at htoken
  cases htoken

/-- What is set beside the keys of a login changes nothing of it. -/
theorem Recorded.set (h : w.Recorded s) {key : String} (htoken : key ≠ "accessToken")
    (hkey : key ∉ loginKeys) (v : Json) : w.Recorded (s.set key v) := by
  intro token ht
  rw [s.str_set_of_ne htoken.symm] at ht
  obtain ⟨s₀, hissued, hid, hkeys⟩ := h token ht
  refine ⟨s₀, hissued, hid, fun k hk => ?_⟩
  rw [s.str_set_of_ne (ne_of_mem_of_not_mem hk hkey)]
  exact hkeys k hk

/-! ## What the operations keep -/

namespace Safe

theorem putStaging (h : w.Safe) (hs : w.Recorded s) :
    (w.put (.object s) (.staging name)).Safe where
  staging n s' hn := by
    have hn' : Function.update w.staging name (.object s) n = .object s' := hn
    rw [Function.update_apply] at hn'
    split at hn'
    · obtain rfl := LoginFile.object.inj hn'
      exact hs
    · exact h.staging n s' hn'
  pending := h.pending
  activated := h.activated
  guarded n p hp := h.guarded n p ⟨hp.unretired, hp.session, hp.activated⟩

theorem discard (h : w.Safe) : (w.put .missing (.staging name)).Safe where
  staging n s' hn := by
    have hn' : Function.update w.staging name .missing n = .object s' := hn
    rw [Function.update_apply] at hn'
    split at hn'
    · cases hn'
    · exact h.staging n s' hn'
  pending := h.pending
  activated := h.activated
  guarded n p hp := h.guarded n p ⟨hp.unretired, hp.session, hp.activated⟩

/-- A pending session gets no activated token that its directory does not have. -/
theorem putPending (h : w.Safe) (hs : w.Recorded s)
    (hold : ∀ token ∈ w.activated, s.str "accessToken" = some token →
      ∃ p, w.session name = .object p ∧ p.str "accessToken" = some token) :
    (w.put (.object s) (.pending name)).Safe where
  staging := h.staging
  pending n s' hn := by
    rw [session_put_pending] at hn
    split at hn
    · obtain rfl := LoginFile.object.inj hn
      exact hs
    · exact h.pending n s' hn
  activated := h.activated
  guarded n p hp := by
    have hunretired := hp.unretired
    have hsession := hp.session
    rw [isRetired_put] at hunretired
    rw [session_put_pending] at hsession
    split at hsession
    · rename_i hn
      subst hn
      obtain rfl := LoginFile.object.inj hsession
      obtain ⟨token, hactivated, htoken⟩ := hp.activated
      obtain ⟨p₀, hp₀, htoken₀⟩ := hold token hactivated htoken
      obtain ⟨mid, hmid, hguards⟩ :=
        h.guarded n p₀ ⟨hunretired, hp₀, token, hactivated, htoken₀⟩
      obtain ⟨s₀, hissued, -, hkeys⟩ := hs token htoken
      obtain ⟨s₁, hissued₁, -, hkeys₁⟩ := h.pending n p₀ hp₀ token htoken₀
      obtain rfl := Option.some.inj (hissued.symm.trans hissued₁)
      have hsame : ∀ key ∈ loginKeys, s.str key = p₀.str key := fun key hk =>
        (hkeys key hk).trans (hkeys₁ key hk).symm
      refine ⟨mid, (hsame _ (by decide)).trans hmid, ?_⟩
      exact Guards.congr (w := w) hguards hsame
    · exact h.guarded n p ⟨hunretired, hsession, hp.activated⟩

/-- An account goes on with its login. -/
theorem putAccount {a : Keyed} (h : w.Safe)
    (hid : ∀ id, (w.accounts mid).str "loginId" = some id → a.str "loginId" = some id) :
    (w.put (.object a) (.account mid)).Safe where
  staging := h.staging
  pending := h.pending
  activated := h.activated
  guarded n p hp := by
    obtain ⟨m, hm, hguards⟩ := h.guarded n p ⟨hp.unretired, hp.session, hp.activated⟩
    refine ⟨m, hm, ?_⟩
    rcases Decidable.em (m = mid) with rfl | hne
    · exact hguards.keep (Function.update_self ..) hid
    · have hother : (w.put (.object a) (.account mid)).accounts m = w.accounts m :=
        Function.update_of_ne hne ..
      unfold Guards at hguards ⊢
      rw [hother]
      exact hguards

/-- An account is removed that guards nothing. -/
theorem remove (h : w.Safe) (hmid : ∀ n p, w.Exposed n p → p.str "mid" ≠ some mid) :
    (w.put .missing (.account mid)).Safe where
  staging := h.staging
  pending := h.pending
  activated := h.activated
  guarded n p hp := by
    have hp' : w.Exposed n p := ⟨hp.unretired, hp.session, hp.activated⟩
    obtain ⟨m, hm, hguards⟩ := h.guarded n p hp'
    have hne : m ≠ mid := by
      rintro rfl
      exact hmid n p hp' hm
    have hother : (w.put .missing (.account mid)).accounts m = w.accounts m :=
      Function.update_of_ne hne ..
    refine ⟨m, hm, ?_⟩
    unfold Guards at hguards ⊢
    rw [hother]
    exact hguards

theorem retire (h : w.Safe) {d : PendingDir} (hd : w.pending.lookup name = some d) :
    ({ w with pending := w.pending.insert name { d with retired := true } } : LoginStore).Safe where
  staging := h.staging
  pending n s' hn := by
    rw [session_insert] at hn
    split at hn
    · rename_i hname
      refine h.pending n s' ?_
      rw [session, hname, hd]
      exact hn
    · exact h.pending n s' hn
  activated := h.activated
  guarded n p hp := by
    have hunretired := hp.unretired
    have hsession := hp.session
    rw [isRetired_insert] at hunretired
    rw [session_insert] at hsession
    split at hunretired
    · cases hunretired
    · rename_i hne
      rw [if_neg hne] at hsession
      exact h.guarded n p ⟨hunretired, hsession, hp.activated⟩

theorem makePending (h : w.Safe) :
    ({ w with pending := w.pending.insert name {} } : LoginStore).Safe where
  staging := h.staging
  pending n s' hn := by
    rw [session_insert] at hn
    split at hn
    · cases hn
    · exact h.pending n s' hn
  activated := h.activated
  guarded n p hp := by
    have hunretired := hp.unretired
    have hsession := hp.session
    rw [isRetired_insert] at hunretired
    rw [session_insert] at hsession
    split at hsession
    · cases hsession
    · rename_i hne
      rw [if_neg hne] at hunretired
      exact h.guarded n p ⟨hunretired, hsession, hp.activated⟩

/-- A login in a staging or a pending directory goes on. -/
theorem putLogin (h : w.Safe) {q : LoginPlace} (hq : ∀ m, q ≠ .account m) (hs : w.Recorded s)
    (hold : ∀ token ∈ w.activated, s.str "accessToken" = some token →
      ∃ p, w.file q = .object p ∧ p.str "accessToken" = some token) :
    (w.put (.object s) q).Safe := by
  cases q with
  | staging n => exact h.putStaging hs
  | pending n => exact h.putPending hs hold
  | account m => exact absurd rfl (hq m)

/-- A token is issued that no session has. -/
theorem issue (h : w.Safe) {token : String} (hnew : w.issued token = none) :
    ({ w with issued := Function.update w.issued token (some s) } : LoginStore).Safe := by
  have hkept {t : String} {s₀ : Keyed} (ht : w.issued t = some s₀) :
      Function.update w.issued token (some s) t = some s₀ := by
    have hne : t ≠ token := by
      rintro rfl
      rw [hnew] at ht
      cases ht
    rw [Function.update_of_ne hne]
    exact ht
  have hrecorded {s' : Keyed} (hs' : w.Recorded s') :
      ({ w with issued := Function.update w.issued token (some s) } : LoginStore).Recorded s' := by
    intro t ht
    obtain ⟨s₀, hissued, hid, hkeys⟩ := hs' t ht
    exact ⟨s₀, hkept hissued, hid, hkeys⟩
  refine ⟨fun n s' hn => hrecorded (h.staging n s' hn),
    fun n s' hn => hrecorded (h.pending n s' hn), fun t ht => ?_,
    fun n p hp => h.guarded n p ⟨hp.unretired, hp.session, hp.activated⟩⟩
  obtain ⟨s₀, hissued⟩ := Option.isSome_iff_exists.mp (h.activated t ht)
  exact Option.isSome_iff_exists.mpr ⟨s₀, hkept hissued⟩

/-- A login in a staging or a pending directory saves its session. -/
theorem logIn (h : w.Safe) {q : LoginPlace} (hq : ∀ m, q ≠ .account m) {w' : LoginStore}
    (hlog : w.logIn q s = some w') : w'.Safe := by
  have hrecorded : ∀ s₀, w.file q = .object s₀ → w.Recorded s₀ := by
    intro s₀ hs₀
    cases q with
    | staging n => exact h.staging n s₀ hs₀
    | pending n => exact h.pending n s₀ hs₀
    | account m => exact absurd rfl (hq m)
  unfold LoginStore.logIn at hlog
  split at hlog
  · rename_i s₀ hfile
    split at hlog
    · rename_i hnone
      obtain rfl := Option.some.inj hlog
      refine h.putLogin hq (.of_none hnone) fun token _ htoken => ?_
      rw [hnone] at htoken
      cases htoken
    · rename_i token _ htoken
      split at hlog
      · rename_i hnew
        simp only [Bool.and_eq_true, Option.isNone_iff_eq_none] at hnew
        obtain rfl := Option.some.inj hlog
        have hissue := h.issue (s := s) hnew.1
        have hput : ({ w with issued := Function.update w.issued token (some s) } :
            LoginStore).put (.object s) q =
            { w.put (.object s) q with issued := Function.update w.issued token (some s) } := by
          cases q <;> rfl
        rw [← hput]
        refine hissue.putLogin hq (fun t ht => ?_) fun t ht htoken' => ?_
        · obtain rfl : token = t := Option.some.inj (htoken.symm.trans ht)
          exact ⟨s, Function.update_self .., hnew.2, fun _ _ => rfl⟩
        · obtain rfl : token = t := Option.some.inj (htoken.symm.trans htoken')
          have hsome := h.activated token ht
          rw [hnew.1] at hsome
          cases hsome
      · cases hlog
    · rename_i token htoken
      split at hlog
      · rename_i hsame
        obtain rfl := Option.some.inj hlog
        refine h.putLogin hq (fun t ht => ?_) fun t _ ht => ⟨s₀, hfile, ?_⟩
        · obtain ⟨s₁, hissued, hid, hkeys⟩ :=
            hrecorded s₀ hfile t (htoken.trans (hsame.1.symm.trans ht))
          exact ⟨s₁, hissued, hid, fun key hk => (hsame.2 key hk).trans (hkeys key hk)⟩
        · exact htoken.trans (hsame.1.symm.trans ht)
      · cases hlog
  · cases hlog

/-- An account saves its session. -/
theorem saveAccount (h : w.Safe) {w' : LoginStore} (hsave : w.saveAccount mid s = some w') :
    w'.Safe := by
  unfold LoginStore.saveAccount at hsave
  split at hsave
  · rename_i a hactive
    split at hsave
    · rename_i hkeep
      obtain rfl := Option.some.inj hsave
      refine h.putAccount fun id hid => ?_
      rw [hactive] at hid
      have hold : a.str "loginId" = some id := hid
      rw [hkeep "loginId" (by decide) (Option.isSome_iff_exists.mpr ⟨id, hold⟩), hold]
    · cases hsave
  · cases hsave

/-- An activation, where it leaves every other exposed login guarded. -/
theorem activate (h : w.Safe) (hs : w.Recorded s) (hmid : s.str "mid" = some mid)
    {token : String} (htoken : s.str "accessToken" = some token)
    (hothers : ∀ n p, w.Exposed n p → p.str "mid" = some mid →
      p.str "accessToken" ≠ s.str "accessToken" → ∀ expected, p.str "reauthMid" = some expected →
        expected = mid ∧ p.str "reauthLoginId" ≠ s.str "loginId") :
    ({ w.put (.object s) (.account mid) with
      activated := (s.str "accessToken").toList ++ w.activated } : LoginStore).Safe := by
  obtain ⟨s₀, hissued, hid, hkeys⟩ := hs token htoken
  obtain ⟨id, hid⟩ := Option.isSome_iff_exists.mp hid
  have hsid : s.str "loginId" = some id := (hkeys _ (by decide)).trans hid
  rw [htoken]
  have hactive : (w.put (.object s) (.account mid)).accounts mid = .object s :=
    Function.update_self ..
  refine ⟨h.staging, h.pending, fun t ht => ?_, fun n p hp => ?_⟩
  · rcases List.mem_cons.mp ht with rfl | ht
    · exact Option.isSome_iff_exists.mpr ⟨s₀, hissued⟩
    · exact h.activated t ht
  · obtain ⟨t, ht, hpt⟩ := hp.activated
    rcases Decidable.em (t = token) with rfl | hne
    · -- The login that is activated, wherever it is kept.
      obtain ⟨s₁, hissued₁, -, hkeys₁⟩ := h.pending n p hp.session t hpt
      obtain rfl := Option.some.inj (hissued.symm.trans hissued₁)
      have hsame : ∀ key ∈ loginKeys, p.str key = s.str key := fun key hk =>
        (hkeys₁ key hk).trans (hkeys key hk).symm
      refine ⟨mid, (hsame _ (by decide)).trans hmid, ?_⟩
      unfold Guards
      cases hexpected : p.str "reauthMid" with
      | none =>
        show ((w.put (.object s) (.account mid)).accounts mid).parsed.isSome = true
        rw [hactive]
        rfl
      | some expected =>
        refine ⟨id, ?_, .inl ((hsame _ (by decide)).trans hsid)⟩
        show ((w.put (.object s) (.account mid)).accounts mid).str "loginId" = some id
        rw [hactive]
        exact hsid
    · have hold : t ∈ w.activated := (List.mem_cons.mp ht).resolve_left hne
      have hp' : w.Exposed n p := ⟨hp.unretired, hp.session, t, hold, hpt⟩
      obtain ⟨m, hm, hguards⟩ := h.guarded n p hp'
      refine ⟨m, hm, ?_⟩
      unfold Guards at hguards ⊢
      rcases Decidable.em (m = mid) with rfl | hother
      · have hdiffers : p.str "accessToken" ≠ s.str "accessToken" := by
          rw [hpt, htoken]
          exact fun he => hne (Option.some.inj he)
        cases hexpected : p.str "reauthMid" with
        | none =>
          show ((w.put (.object s) (.account m)).accounts m).parsed.isSome = true
          rw [hactive]
          rfl
        | some expected =>
          obtain ⟨heq, hbaseline⟩ := hothers n p hp' hm hdiffers expected hexpected
          rw [hsid] at hbaseline
          refine ⟨id, ?_, .inr ⟨heq, hbaseline⟩⟩
          show ((w.put (.object s) (.account m)).accounts m).str "loginId" = some id
          rw [hactive]
          exact hsid
      · have hkept : (w.put (.object s) (.account mid)).accounts m = w.accounts m :=
          Function.update_of_ne hother ..
        show match p.str "reauthMid" with
          | none => ((w.put (.object s) (.account mid)).accounts m).parsed.isSome = true
          | some expected => ∃ id,
              ((w.put (.object s) (.account mid)).accounts m).str "loginId" = some id ∧ _
        rw [hkept]
        exact hguards

end Safe

end LoginStore

/-! ## Calls -/

/-- What a call keeps with outcomes that are `ok`; nobody else moves the store meanwhile. -/
def storeRules (ok : StoreOutcome → Prop) : Rules LoginStore StoreOutcome where
  inv w := w.Safe
  rely w w' := w' = w
  rely_refl _ := rfl
  rely_trans h h' := h'.trans h
  guar w w' := w'.issued = w.issued
  guar_refl _ := rfl
  guar_trans h h' := h'.trans h
  ok := ok

namespace Store

variable {ok : StoreOutcome → Prop} {w : LoginStore} {α β : Type} {Q : α → LoginStore → Prop}

theorem ensures_op {f : StoreOutcome → LoginStore → α × LoginStore}
    (h : w.Safe → ∀ o, ok o →
      (f o w).2.Safe ∧ (f o w).2.issued = w.issued ∧ Q (f o w).1 (f o w).2) :
    (Prog.op f).Ensures (storeRules ok) Q w :=
  .op fun w₁ heq hsafe o ho => by
    obtain rfl : w₁ = w := heq
    exact h hsafe o ho

/-- An operation that only looks, and what follows it. -/
theorem ensures_look {f : StoreOutcome → LoginStore → α × LoginStore} {k : α → Store β}
    {Q : β → LoginStore → Prop} (hf : ∀ o, (f o w).2 = w)
    (h : w.Safe → ∀ o, ok o → (k (f o w).1).Ensures (storeRules ok) Q w) :
    (Prog.op f >>= k).Ensures (storeRules ok) Q w := by
  refine .bind (Q := fun a w' => w' = w ∧ (k a).Ensures (storeRules ok) Q w)
    (ensures_op fun hsafe o ho => ?_) fun a w' h' => ?_
  · rw [hf o]
    exact ⟨hsafe, rfl, rfl, h hsafe o ho⟩
  · rw [h'.1]
    exact h'.2

/-- What is seen as an object is one. -/
theorem seen_eq_object {f : LoginFile} {fails : Bool} {s : Keyed} (h : f.seen fails = .object s) :
    f = .object s := by
  unfold LoginFile.seen at h
  split at h
  · cases h
  · exact h

/-- Reading a session. -/
theorem ensures_read {p : LoginPlace} {k : Option (Option Keyed) → Store β}
    {Q : β → LoginStore → Prop}
    (hobject : w.Safe → ∀ s, w.file p = .object s → (k (some (some s))).Ensures (storeRules ok) Q w)
    (hother : ∀ r, r.join = none → (k r).Ensures (storeRules ok) Q w) :
    (read p >>= k).Ensures (storeRules ok) Q w := by
  refine ensures_look (fun _ => rfl) fun hsafe o _ => ?_
  dsimp only
  cases hfile : (w.file p).seen o.readFails with
  | missing | garbled | value => exact hother _ rfl
  | object s => exact hobject hsafe s (seen_eq_object hfile)

/-! ### Login ids -/

/-- A login id is only added where there is none. -/
theorem addLoginId_keeps {s s' : Keyed} {newId id : String}
    (h : Login.addLoginId s newId = some (id, s')) (key : String) :
    s'.str key = s.str key ∨ (key = "loginId" ∧ s.str key = none) := by
  unfold Login.addLoginId at h
  split at h
  · split at h
    · obtain ⟨-, rfl⟩ := Prod.mk.inj (Option.some.inj h)
      exact .inl rfl
    · cases h
  · cases h
  · rename_i hnone
    obtain ⟨-, rfl⟩ := Prod.mk.inj (Option.some.inj h)
    rcases Decidable.em (key = "loginId") with rfl | hne
    · refine .inr ⟨rfl, ?_⟩
      rw [Keyed.str, hnone]
      rfl
    · refine .inl ?_
      show ((s.root ++ [("loginId", Json.str newId)]).get key).bind _ = (s.root.get key).bind _
      rw [Fields.get_append, Fields.get_cons, if_neg (Ne.symm hne), Fields.get_nil, Option.or_none]

theorem recorded_addLoginId {s s' : Keyed} {newId id : String} (hs : w.Recorded s)
    (h : Login.addLoginId s newId = some (id, s')) : w.Recorded s' := by
  intro token htoken
  have hsame : s'.str "accessToken" = s.str "accessToken" :=
    (addLoginId_keeps h _).resolve_right fun hr => absurd hr.1 (by decide)
  rw [hsame] at htoken
  obtain ⟨s₀, hissued, hid, hkeys⟩ := hs token htoken
  refine ⟨s₀, hissued, hid, fun key hk => ?_⟩
  rcases addLoginId_keeps h key with heq | ⟨rfl, hnone⟩
  · exact heq.trans (hkeys key hk)
  · rw [← hkeys _ hk, hnone] at hid
    cases hid

theorem ensures_loginId (p : LoginPlace) :
    (loginId p).Ensures (storeRules ok) (fun _ _ => True) w := by
  refine ensures_op fun hsafe o _ => ?_
  split
  · rename_i s hseen
    have hfile := seen_eq_object hseen
    split
    · exact ⟨hsafe, rfl, trivial⟩
    · rename_i id s' hadd
      split
      · exact ⟨hsafe, rfl, trivial⟩
      · split
        · cases p with
          | staging name =>
            exact ⟨hsafe.putStaging (recorded_addLoginId (hsafe.staging name s hfile) hadd),
              rfl, trivial⟩
          | pending name =>
            refine ⟨hsafe.putPending (recorded_addLoginId (hsafe.pending name s hfile) hadd)
              fun token _ htoken => ⟨s, hfile, ?_⟩, rfl, trivial⟩
            exact ((addLoginId_keeps hadd _).resolve_right fun hr =>
              absurd hr.1 (by decide)).symm.trans htoken
          | account mid =>
            have hfile' : w.accounts mid = .object s := hfile
            refine ⟨hsafe.putAccount fun id hid => ?_, rfl, trivial⟩
            rw [hfile'] at hid
            have hold : s.str "loginId" = some id := hid
            rcases addLoginId_keeps hadd "loginId" with heq | ⟨-, hnone⟩
            · exact heq.trans hold
            · rw [hold] at hnone
              cases hnone
        · exact ⟨hsafe, rfl, trivial⟩
  · exact ⟨hsafe, rfl, trivial⟩

/-! ### Staging directories -/

/-- What no write to a staging directory changes. -/
structure SamePending (w w' : LoginStore) : Prop where
  session : ∀ name, w'.session name = w.session name
  retired : ∀ name, w'.isRetired name = w.isRetired name
  activated : w'.activated = w.activated

theorem SamePending.refl (w : LoginStore) : SamePending w w := ⟨fun _ => rfl, fun _ => rfl, rfl⟩

theorem SamePending.put (f : LoginFile) (name : String) :
    SamePending w (w.put f (.staging name)) := ⟨fun _ => rfl, fun _ => rfl, rfl⟩

theorem SamePending.isConsumed {w' : LoginStore} (h : SamePending w w') (name : String) :
    w'.isConsumed name = w.isConsumed name := by
  unfold LoginStore.isConsumed
  rw [h.session, h.activated]

theorem ensures_writeStaging {name : String} {s : Keyed} (hs : w.Recorded s) :
    (write (.staging name) s).Ensures (storeRules ok) (fun ok w' => SamePending w w' ∧
      (ok = true → w'.staging name = .object s)) w := by
  refine ensures_op fun hsafe o _ => ?_
  split
  · exact ⟨hsafe.putStaging hs, rfl, .put _ _, fun _ => Function.update_self ..⟩
  · exact ⟨hsafe, rfl, .refl w, fun hok => nomatch hok⟩

theorem ensures_patchStaging {name : String} {items : Fields}
    (hs : w.Safe → ∀ s, w.staging name = .object s →
      w.Recorded (items.foldl (fun s f => s.set f.1 f.2) s)) :
    (patch (.staging name) items).Ensures (storeRules ok) (fun _ w' => SamePending w w') w := by
  refine ensures_op fun hsafe o _ => ?_
  split
  · rename_i s hseen
    split
    · exact ⟨hsafe.putStaging (hs hsafe s (seen_eq_object hseen)), rfl, .put _ _⟩
    · exact ⟨hsafe, rfl, .refl w⟩
  · exact ⟨hsafe, rfl, .refl w⟩

/-! ### The functions of the store -/

/-- What a new login begins with has no token. -/
theorem ensures_loginBase (profile reauth : Option String) :
    (loginBase profile reauth).Ensures (storeRules ok)
      (fun r w' => w' = w ∧ ∀ s ∈ r, s.str "accessToken" = none) w := by
  have hbase (i : Identity) :
      (Keyed.empty.set "clientIdentity" i.toJson).str "accessToken" = none := by
    rw [Keyed.str_set_of_ne _ (by decide)]
    rfl
  cases reauth with
  | none =>
    refine .pure ⟨rfl, fun s hs => ?_⟩
    obtain ⟨i, -, rfl⟩ := Option.map_eq_some_iff.mp hs
    exact hbase i
  | some mid =>
    refine ensures_read (fun _ s _ => .pure ⟨rfl, fun s' hs' => ?_⟩) fun r hr => ?_
    · obtain ⟨i, -, rfl⟩ := Option.map_eq_some_iff.mp hs'
      rw [Keyed.str_copyField_of_ne _ (by decide)]
      exact hbase i
    · cases r with
      | none => exact .pure ⟨rfl, fun s hs => nomatch hs⟩
      | some r =>
        obtain rfl : r = none := hr
        exact .pure ⟨rfl, fun s hs => nomatch hs⟩

theorem ensures_prepareLogin (staging : String) (profile reauth : Option String) :
    (prepareLogin staging profile reauth).Ensures (storeRules ok) (fun ok w' => ok = true →
      ∀ s, w'.staging staging = .object s → s.str "accessToken" = none) w := by
  refine ensures_look (fun _ => rfl) fun _ _ _ => ?_
  split
  · exact .pure fun hok => nomatch hok
  refine (ensures_loginBase profile reauth).bind fun r w' hr => ?_
  obtain ⟨rfl, hnone⟩ := hr
  cases r with
  | none => exact .pure fun hok => nomatch hok
  | some s =>
    refine ensures_look (fun _ => rfl) fun _ o _ => ?_
    have htoken : (s.set "loginId" (.str o.newId)).str "accessToken" = none := by
      rw [Keyed.str_set_of_ne _ (by decide)]
      exact hnone s rfl
    refine (ensures_writeStaging (.of_none htoken)).mono fun ok w'' hw hok s' hs' => ?_
    obtain rfl := LoginFile.object.inj ((hw.2 hok).symm.trans hs')
    exact htoken

theorem ensures_prepare (staging : String) (profile expected : Option String) :
    (prepare staging profile expected).Ensures (storeRules ok) (fun _ _ => True) w := by
  cases expected with
  | none => exact (ensures_prepareLogin staging profile none).mono fun _ _ _ => trivial
  | some mid =>
    dsimp only [prepare]
    split
    · exact .pure trivial
    refine (ensures_loginId _).bind fun id w₁ _ => ?_
    cases id with
    | none => exact .pure trivial
    | some id =>
      refine (ensures_prepareLogin staging profile (some mid)).bind fun ok w₂ hw => ?_
      cases ok with
      | false => exact .pure trivial
      | true =>
        refine (ensures_patchStaging fun _ s hs => ?_).mono fun _ _ _ => trivial
        refine .of_none ?_
        show ((s.set "reauthMid" (.str mid)).set "reauthLoginId" (.str id)).str "accessToken" = none
        rw [Keyed.str_set_of_ne _ (by decide), Keyed.str_set_of_ne _ (by decide)]
        exact hw rfl s hs

theorem ensures_retire (name : String) :
    (retire name).Ensures (storeRules ok) (fun _ _ => True) w := by
  refine ensures_op fun hsafe o _ => ?_
  split
  · rename_i d hd
    split
    · exact ⟨hsafe.retire hd, rfl, trivial⟩
    · exact ⟨hsafe, rfl, trivial⟩
  · exact ⟨hsafe, rfl, trivial⟩

theorem ensures_stage (staging pending : String) :
    (stage staging pending).Ensures (storeRules ok) (fun _ _ => True) w := by
  refine (ensures_loginId _).bind fun id w₁ _ => ?_
  refine ensures_read (fun hsafe ready hready => ?_) fun r hr => ?_
  · refine ensures_look (fun _ => rfl) fun _ _ _ => ?_
    split
    · exact .pure trivial
    split
    · exact .pure trivial
    refine (ensures_writeStaging ?_).mono fun _ _ _ => trivial
    exact (hsafe.pending pending ready hready).set (by decide) (by decide) _
  · cases r with
    | none => exact .pure trivial
    | some r =>
      obtain rfl : r = none := hr
      exact .pure trivial

theorem freshSession_token (staged : Keyed) :
    (freshSession staged).str "accessToken" = none := by
  unfold freshSession
  dsimp only [List.foldl_cons, List.foldl_nil]
  rw [Keyed.str_set_of_ne _ (by decide), Keyed.str_copyField_of_ne _ (by decide),
    Keyed.str_copyField_of_ne _ (by decide), Keyed.str_copyField_of_ne _ (by decide),
    Keyed.str_copyField_of_ne _ (by decide)]
  rfl

theorem ensures_restart (staging : String) :
    (restart staging).Ensures (storeRules ok) (fun _ _ => True) w := by
  refine ensures_read (fun _ staged _ => ?_) fun r hr => ?_
  · dsimp only
    cases (staged.str "nativeLoginSource").filter pendingName with
    | none => exact .pure trivial
    | some source =>
      refine (ensures_retire source).bind fun ok w₁ _ => ?_
      cases ok with
      | false => exact .pure trivial
      | true =>
        refine (ensures_writeStaging (.of_none (freshSession_token staged))).bind
          fun ok w₂ _ => ?_
        cases ok with
        | false => exact .pure trivial
        | true => exact (ensures_loginId _).bind fun _ _ _ => .pure trivial
  · cases r with
    | none => exact .pure trivial
    | some r =>
      obtain rfl : r = none := hr
      exact .pure trivial

/-- The condition under which an activation leaves every exposed login guarded. -/
def MayActivate (w : LoginStore) (staging account : String) : Prop :=
  ∀ s, w.staging staging = .object s → s.str "mid" = some account →
    ∀ name p, w.Exposed name p → p.str "mid" = some account →
      p.str "accessToken" ≠ s.str "accessToken" → ∀ expected, p.str "reauthMid" = some expected →
        expected = account ∧ p.str "reauthLoginId" ≠ s.str "loginId"

theorem ensures_activate {staging account : String} (h : MayActivate w staging account) :
    (activate staging account).Ensures (storeRules ok) (fun _ _ => True) w := by
  refine ensures_read (fun hsafe staged hstaged => ?_) fun r hr => ?_
  · dsimp only
    split
    · exact .pure trivial
    rename_i hchecks
    simp only [Bool.or_eq_true, decide_eq_true_eq, Bool.not_eq_true', not_or, ne_eq,
      Decidable.not_not, Option.isNone_iff_eq_none] at hchecks
    obtain ⟨⟨hmid, -⟩, htoken⟩ := hchecks
    obtain ⟨token, htoken⟩ := Option.ne_none_iff_exists'.mp htoken
    refine ensures_look (fun _ => rfl) fun _ o _ => ?_
    split
    · exact .pure trivial
    have hrecorded := hsafe.staging staging staged hstaged
    refine (ensures_op (Q := fun _ _ => True) fun hsafe o _ => ?_).bind fun ok w₁ _ => ?_
    · split
      · exact ⟨hsafe.activate hrecorded hmid htoken (h staged hstaged hmid), rfl, trivial⟩
      · exact ⟨hsafe, rfl, trivial⟩
    cases ok with
    | false => exact .pure trivial
    | true =>
      cases (staged.str "nativeLoginSource").filter pendingName with
      | none => exact .pure trivial
      | some source => exact (ensures_retire source).bind fun _ _ _ => .pure trivial
  · cases r with
    | none => exact .pure trivial
    | some r =>
      obtain rfl : r = none := hr
      exact .pure trivial

/-! ### Selections -/

theorem exposed_of_isConsumed {name : String} (hretired : w.isRetired name = false)
    (h : w.isConsumed name = true) : ∃ p, w.Exposed name p := by
  unfold LoginStore.isConsumed at h
  obtain ⟨token, htoken, hactivated⟩ := (Option.any_eq_true ..).mp h
  have hactivated := of_decide_eq_true hactivated
  cases hsession : w.session name with
  | object p =>
    rw [hsession] at htoken
    exact ⟨p, hretired, hsession, token, hactivated, htoken⟩
  | missing | garbled | value =>
    rw [hsession] at htoken
    cases htoken

variable (w) in
/-- What tells that a login is used up can be read: the marker of its directory, and in a
selection the session of its account. -/
structure Sees (staging : String) (o : StoreOutcome) : Prop where
  source : o.accessFails = true → ∀ s name, w.staging staging = .object s →
    (s.str "nativeLoginSource").filter pendingName = some name → w.isConsumed name = false
  saved : ∀ name, w.isConsumed name = true → name ∉ o.markerFails ∧ name ∉ o.activeFails

/-- What matches is not used up. -/
theorem isConsumed_of_isCandidate {staged : Keyed} {staging name : String} {o : StoreOutcome}
    (hsafe : w.Safe) (ho : Sees w staging o) (h : w.isCandidate o staged name = true) :
    w.isConsumed name = false := by
  by_contra hnot
  have hconsumed : w.isConsumed name = true := by simpa using hnot
  obtain ⟨hmarker, hactive⟩ := ho.saved name hconsumed
  have hfails : o.markerFails.contains name = false := by simpa using hmarker
  unfold LoginStore.isCandidate at h
  rw [hfails] at h
  simp only [Bool.and_eq_true, Bool.not_eq_true', Bool.not_false, Bool.and_true] at h
  obtain ⟨⟨-, hretired⟩, hmatch⟩ := h
  obtain ⟨p, hp⟩ := exposed_of_isConsumed hretired hconsumed
  obtain ⟨mid, hmid, hguards⟩ := hsafe.guarded name p hp
  rw [hp.session] at hmatch
  obtain ⟨p', hp', hmatch⟩ := (Option.any_eq_true ..).mp hmatch
  have hseen : (LoginFile.object p).seen (o.sessionFails.contains name) = .object p' := by
    unfold LoginFile.seen at hp' ⊢
    split at hp'
    · cases hp'
    · rename_i hread
      rw [if_neg hread]
      exact congrArg LoginFile.object (Option.some.inj hp')
  obtain rfl := LoginFile.object.inj (seen_eq_object hseen)
  rw [hguards.isMatch hmid hactive] at hmatch
  cases hmatch

theorem ensures_findSaved {staging : String} (hok : ∀ o, ok o → Sees w staging o)
    (staged : Keyed) : (findSaved staged).Ensures (storeRules ok)
      (fun r w' => w' = w ∧ ∀ name ∈ r, w'.isConsumed name = false) w := by
  rintro w₁ heq hsafe o w₂ ho hact
  obtain rfl : w₁ = w := heq
  dsimp only at hact
  split at hact
  · obtain rfl := Option.some.inj hact
    refine ⟨hsafe, rfl, rfl, fun name hname => ?_⟩
    exact isConsumed_of_isCandidate hsafe (hok o ho) (List.find?_some hname)
  · cases hact

/-- A new directory has the login of the staging session, which is not used up. -/
theorem ensures_createPending {staged : Keyed} (hs : w.Recorded staged)
    (hnew : ∀ token ∈ w.activated, staged.str "accessToken" ≠ some token) :
    (createPending staged).Ensures (storeRules ok)
      (fun r w' => ∀ name ∈ r, w'.isConsumed name = false) w := by
  refine (ensures_op (Q := fun r w' => w'.issued = w.issued ∧ w'.activated = w.activated)
    fun hsafe o _ => ?_).bind fun r w₁ hw => ?_
  · dsimp only
    split
    · exact ⟨hsafe.makePending, rfl, rfl, rfl⟩
    · exact ⟨hsafe, rfl, rfl, rfl⟩
  cases r with
  | none => exact .pure fun name hname => nomatch hname
  | some name =>
    have hs₁ : w₁.Recorded staged := by
      unfold LoginStore.Recorded
      rw [hw.1]
      exact hs
    refine (ensures_op (Q := fun ok w' => ok = true → w'.isConsumed name = false)
      fun hsafe o _ => ?_).bind fun ok w₂ hok => ?_
    · split
      · refine ⟨hsafe.putPending hs₁ fun token ht htoken => ?_, rfl, fun _ => ?_⟩
        · rw [hw.2] at ht
          exact absurd htoken (hnew token ht)
        · unfold LoginStore.isConsumed
          rw [LoginStore.session_put_pending, if_pos rfl]
          show ((staged.str "accessToken").any fun token => token ∈ w₁.activated) = false
          rw [hw.2]
          cases htoken : staged.str "accessToken" with
          | none => rfl
          | some token =>
            rw [Option.any_some, decide_eq_false_iff_not]
            exact fun ht => hnew token ht htoken
      · exact ⟨hsafe, rfl, fun hok => nomatch hok⟩
    cases ok with
    | false => exact .pure fun name hname => nomatch hname
    | true =>
      refine .pure fun name' hname => ?_
      obtain rfl := Option.some.inj hname
      exact hok rfl

theorem ensures_choose {staging : String} (hok : ∀ o, ok o → Sees w staging o) {staged : Keyed}
    (hs : w.Recorded staged)
    (hnew : ∀ token ∈ w.activated, staged.str "accessToken" ≠ some token) :
    (choose staged).Ensures (storeRules ok)
      (fun r w' => ∀ name ∈ r, w'.isConsumed name = false) w := by
  unfold choose
  split
  · exact ensures_createPending hs hnew
  · refine (ensures_findSaved hok staged).bind fun r w₁ hr => ?_
    obtain ⟨rfl, hr⟩ := hr
    cases r with
    | none => exact ensures_createPending hs hnew
    | some name => exact .pure hr

theorem ensures_nameSource {staging : String} {r : Option String}
    (h : ∀ name ∈ r, w.isConsumed name = false) :
    (nameSource staging r).Ensures (storeRules ok)
      (fun r w' => ∀ name ∈ r, w'.isConsumed name = false) w := by
  cases r with
  | none => exact .pure h
  | some name =>
    refine (ensures_patchStaging fun hsafe s hs => ?_).bind fun ok w₂ hw => ?_
    · show w.Recorded (s.set "nativeLoginSource" (.str name))
      exact (hsafe.staging staging s hs).set (by decide) (by decide) _
    cases ok with
    | false => exact .pure fun name hname => nomatch hname
    | true =>
      refine .pure fun name' hname => ?_
      rw [hw.isConsumed]
      exact h name' hname

/-- The condition under which a selection goes by the marks that the logins left. -/
def MaySelect (w : LoginStore) (staging : String) : Prop :=
  ∀ s, w.staging staging = .object s →
    (∀ token ∈ w.activated, s.str "accessToken" ≠ some token) ∧
    ∀ name p, (s.str "nativeLoginSource").filter pendingName = some name → ¬w.Exposed name p

/-- A source that a selection goes on with is not used up. -/
theorem isConsumed_of_sourceOf {staging name : String} {staged : Keyed} {o : StoreOutcome}
    (h : MaySelect w staging) (ho : Sees w staging o) (hstaged : w.staging staging = .object staged)
    (hname : w.sourceOf o staged = some name) : w.isConsumed name = false := by
  obtain ⟨hstr, hfilter⟩ := Option.filter_eq_some_iff.mp hname
  have hpending : pendingName name = true := (Bool.and_eq_true_iff.mp hfilter).1
  have hsource : (staged.str "nativeLoginSource").filter pendingName = some name :=
    Option.filter_eq_some_iff.mpr ⟨hstr, hpending⟩
  cases hfails : o.accessFails with
  | true => exact ho.source hfails staged name hstaged hsource
  | false =>
    rw [hfails] at hfilter
    simp only [Bool.and_eq_true, Bool.not_eq_true', Bool.not_false, Bool.and_true] at hfilter
    by_contra hconsumed
    obtain ⟨p, hp⟩ := exposed_of_isConsumed hfilter.2 (by simpa using hconsumed)
    exact (h staged hstaged).2 name p hsource hp

theorem ensures_select {staging : String} (h : MaySelect w staging)
    (hok : ∀ o, ok o → Sees w staging o) :
    (select staging).Ensures (storeRules ok)
      (fun r w' => ∀ name ∈ r, w'.isConsumed name = false) w := by
  refine ensures_read (fun hsafe staged hstaged => ?_) fun r hr => ?_
  · obtain ⟨hnew, -⟩ := h staged hstaged
    have hrecorded := hsafe.staging staging staged hstaged
    refine ensures_look (fun _ => rfl) fun _ o ho => ?_
    have hlive : ∀ name ∈ w.sourceOf o staged, w.isConsumed name = false := fun name hname =>
      isConsumed_of_sourceOf h (hok o ho) hstaged hname
    refine ensures_look (fun _ => rfl) fun _ _ _ => ?_
    split
    · exact .pure hlive
    dsimp only
    cases hsourceOf : w.sourceOf o staged with
    | some name =>
      refine ensures_nameSource fun name' hname => ?_
      obtain rfl := Option.some.inj hname
      exact hlive name hsourceOf
    | none => exact (ensures_choose hok hrecorded hnew).bind fun _ _ hr => ensures_nameSource hr
  · cases r with
    | none => exact .pure fun name hname => nomatch hname
    | some r =>
      obtain rfl : r = none := hr
      exact .pure fun name hname => nomatch hname

end Store

/-! ## Runs -/

namespace StoreRun

/-- The steps that leave the guards: an account that guards a login is neither removed nor
given to another login that does not guard it, and a staging directory is not used again. A
selection can read the guards. -/
def Careful (st : StoreRun) : StoreEvent → Prop
  | .call (.select staging) outcomes => Store.MaySelect st.store staging ∧
      ∀ o ∈ outcomes, Store.Sees st.store staging o
  | .call (.activate staging account) _ => Store.MayActivate st.store staging account
  | .remove mid => ∀ name p, st.store.Exposed name p → p.str "mid" ≠ some mid
  | _ => True

/-- A root before any activation, in which the tokens that are there are recorded. -/
structure Initial (st : StoreRun) : Prop where
  selections : st.selections = []
  activated : st.store.activated = []
  staging : ∀ name s, st.store.staging name = .object s → st.store.Recorded s
  pending : ∀ name s, st.store.session name = .object s → st.store.Recorded s

/-- The store is safe and no selection gave a login that was used up. -/
structure Good (st : StoreRun) : Prop where
  safe : st.store.Safe
  selections : ∀ s ∈ st.selections, s.2 = false

theorem Initial.good {st : StoreRun} (h : st.Initial) : st.Good where
  safe := {
    staging := h.staging
    pending := h.pending
    activated := by
      rw [h.activated]
      rintro token ⟨⟩
    guarded := by
      rintro name p ⟨-, -, token, ht, -⟩
      rw [h.activated] at ht
      cases ht }
  selections := by
    rw [h.selections]
    rintro s ⟨⟩

theorem good_call {ok : StoreOutcome → Prop} {st : StoreRun} (h : st.Good) {c : StoreCall}
    {outcomes : List StoreOutcome} (hok : ∀ o ∈ outcomes, ok o)
    {Q : Option String → LoginStore → Prop} (hc : c.run.Ensures (storeRules ok) Q st.store)
    (hQ : ∀ r w, Q r w → ∀ name ∈ r, w.isConsumed name = false) {st' : StoreRun}
    (hstep : st.step (.call c outcomes) = some st') : st'.Good := by
  obtain rfl := Option.some.inj hstep
  obtain ⟨hsafe, -, hresult⟩ := hc.upTo h.safe hok
  refine ⟨hsafe, fun s hs => ?_⟩
  rcases List.mem_append.mp hs with hs | hs
  · exact h.selections s hs
  · obtain ⟨name, hname, rfl⟩ := List.mem_map.mp hs
    cases hr : (c.run.upTo outcomes st.store).1 with
    | none =>
      rw [hr] at hname
      cases hname
    | some r =>
      rw [hr] at hname
      exact hQ r _ (hresult r hr) name (Option.mem_toList.mp hname)

theorem good_step {st st' : StoreRun} {e : StoreEvent} (h : st.Good) (he : st.Careful e)
    (hstep : st.step e = some st') : st'.Good := by
  have hnone {α : Type} {p : Store α}
      (hp : p.Ensures (storeRules fun _ => True) (fun _ _ => True) st.store) :
      (do let _ ← p; return none : Store (Option String)).Ensures (storeRules fun _ => True)
        (fun r _ => r = none) st.store := hp.bind fun _ _ _ => .pure rfl
  have hany {os : List StoreOutcome} : ∀ o ∈ os, True := fun _ _ => trivial
  have hnot : ∀ (r : Option String) (w : LoginStore), r = none →
      ∀ name ∈ r, w.isConsumed name = false := by
    rintro _ w rfl name ⟨⟩
  cases e with
  | call c outcomes =>
    cases c with
    | prepare staging profile expected =>
      exact good_call h hany (hnone (Store.ensures_prepare staging profile expected)) hnot hstep
    | select staging =>
      exact good_call h he.2 (Store.ensures_select he.1 fun _ ho => ho) (fun _ _ hr => hr) hstep
    | stage staging pending =>
      exact good_call h hany (hnone (Store.ensures_stage staging pending)) hnot hstep
    | restart staging => exact good_call h hany (hnone (Store.ensures_restart staging)) hnot hstep
    | activate staging account => exact good_call h hany (hnone (Store.ensures_activate he)) hnot hstep
  | discard staging =>
    obtain rfl := Option.some.inj hstep
    exact ⟨h.safe.discard, h.selections⟩
  | remove mid =>
    obtain rfl := Option.some.inj hstep
    exact ⟨h.safe.remove he, h.selections⟩
  | login pending s =>
    obtain ⟨w, hw, rfl⟩ := Option.map_eq_some_iff.mp hstep
    exact ⟨h.safe.logIn (by rintro m ⟨⟩) hw, h.selections⟩
  | gateway staging s =>
    obtain ⟨w, hw, rfl⟩ := Option.map_eq_some_iff.mp hstep
    exact ⟨h.safe.logIn (by rintro m ⟨⟩) hw, h.selections⟩
  | save mid s =>
    obtain ⟨w, hw, rfl⟩ := Option.map_eq_some_iff.mp hstep
    exact ⟨h.safe.saveAccount hw, h.selections⟩

end StoreRun

/-- A staging directory without a token and without a source may be selected for. -/
theorem Store.maySelect_of_fresh {w : LoginStore} {staging : String}
    (htoken : (w.staging staging).str "accessToken" = none)
    (hsource : (w.staging staging).str "nativeLoginSource" = none) : MaySelect w staging := by
  intro s hs
  rw [hs] at htoken hsource
  have hnone : s.str "accessToken" = none := htoken
  have hnone' : s.str "nativeLoginSource" = none := hsource
  refine ⟨fun token _ ht => ?_, fun name p hname => ?_⟩
  · rw [hnone] at ht
    cases ht
  · rw [hnone'] at hname
    cases hname

/-- Everything is seen where nothing fails. -/
theorem Store.sees_of_quiet {w : LoginStore} {o : StoreOutcome} (haccess : o.accessFails = false)
    (hmarker : o.markerFails = []) (hactive : o.activeFails = []) (staging : String) :
    Sees w staging o where
  source h := by
    rw [haccess] at h
    cases h
  saved name _ := by
    rw [hmarker, hactive]
    exact ⟨List.not_mem_nil, List.not_mem_nil⟩

/-- The first activation leaves nothing unguarded. -/
theorem Store.mayActivate_of_none {w : LoginStore} (h : w.activated = [])
    (staging account : String) : MayActivate w staging account := by
  rintro s - - name p ⟨-, -, token, ht, -⟩
  rw [h] at ht
  cases ht

/-- In every run whose steps leave the guards of the logins that were activated, no selection
gives the directory of one of them. -/
theorem consumed_not_selected {st st' : StoreRun} {es : List StoreEvent} (hst : st.Initial)
    (hes : loginStore.Meets StoreRun.Careful st es) (h : loginStore.run st es = some st') :
    ∀ s ∈ st'.selections, s.2 = false :=
  (Machine.run_invariant_of_meets (I := StoreRun.Good) StoreRun.good_step hst.good hes h).selections

/-! ### A login that is cut off before its directory is retired -/

def loggedIn : Keyed :=
  (((Keyed.empty.set "clientIdentity" Identity.windows.toJson).set "loginId" (.str "login-1")).set
    "accessToken" (.str "token-1")).set "mid" (.str "u1")

/-- A login of a new account, with a crash before its directory is retired. -/
def cutOff : List StoreEvent := [
  .call (.prepare "s1" (some "desktopwin") none) (List.replicate 3 {}),
  .call (.select "s1") (List.replicate 7 {}),
  .login ".native-login-aaaaaa" loggedIn,
  .call (.stage "s1" ".native-login-aaaaaa") (List.replicate 4 {}),
  .call (.activate "s1" "u1") (List.replicate 3 {})]

def loginAgain : List StoreEvent := [
  .call (.prepare "s2" (some "desktopwin") none) (List.replicate 3 { newId := "login-2" }),
  .call (.select "s2")
    (List.replicate 7 { suffix := "bbbbbb", entries := [".native-login-aaaaaa"] })]

/-- With the account in place the login goes to a new directory. -/
theorem consumed_not_selected_cut_off : ∃ st, loginStore.run {} (cutOff ++ loginAgain) = some st ∧
    ∀ s ∈ st.selections, s.2 = false := by
  have hinit : StoreRun.Initial {} :=
    ⟨rfl, rfl, (by rintro name s ⟨⟩), (by rintro name s ⟨⟩)⟩
  have hsees {w : LoginStore} {n : Nat} {r : StoreOutcome} (haccess : r.accessFails = false)
      (hmarker : r.markerFails = []) (hactive : r.activeFails = []) (staging : String) :
      ∀ o ∈ List.replicate n r, Store.Sees w staging o := by
    intro o ho
    rw [List.eq_of_mem_replicate ho]
    exact Store.sees_of_quiet haccess hmarker hactive staging
  have hrun : loginStore.run {} (cutOff ++ loginAgain) = some _ := rfl
  refine ⟨_, hrun, consumed_not_selected hinit ?_ hrun⟩
  refine ⟨trivial, ?_⟩
  rintro _ ⟨⟩
  refine ⟨⟨Store.maySelect_of_fresh rfl rfl, hsees rfl rfl rfl _⟩, ?_⟩
  rintro _ ⟨⟩
  refine ⟨trivial, ?_⟩
  rintro _ ⟨⟩
  refine ⟨trivial, ?_⟩
  rintro _ ⟨⟩
  refine ⟨Store.mayActivate_of_none rfl _ _, ?_⟩
  rintro _ ⟨⟩
  refine ⟨trivial, ?_⟩
  rintro _ ⟨⟩
  refine ⟨⟨Store.maySelect_of_fresh rfl rfl, hsees rfl rfl rfl _⟩, ?_⟩
  rintro _ ⟨⟩
  trivial

/-- Where the account was removed meanwhile, the login that it had is selected again. -/
theorem consumed_selected : ¬ ∀ (es : List StoreEvent) (st : StoreRun),
    loginStore.run {} es = some st → ∀ s ∈ st.selections, s.2 = false := by
  intro hall
  have h := hall (cutOff ++ [.remove "u1"] ++ loginAgain) _ rfl (".native-login-aaaaaa", true)
    (List.mem_cons_of_mem _ (List.mem_singleton.mpr rfl))
  cases h

end Enil
