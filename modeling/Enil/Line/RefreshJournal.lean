import Enil.Line.RefreshSteps

/-!
# No reply to a refresh is lost

Through all refreshes, crashes and other writers: a request goes out only where the tokens of
every journaled reply to its login were saved, a reply is in the journal until they are, and
what is saved are the tokens of a journaled reply of the same login. The one thing the code
counts on is that no activation comes between a load of the session and the look for the
journal after it.
-/

namespace Enil

open Lib

variable {N : Set String} {cj : Cjson}

/-- A directory as the account is opened: nothing was journaled or sent yet. -/
structure RefreshDir.Starts (N : Set String) (cj : Cjson) (w : RefreshDir) : Prop where
  files : w.files.Holds fun f => (∀ root ∈ f.session, root.Over N) ∧
    (∀ id, loginIdOf f.session = some id → id ∈ w.ids) ∧
    (∀ id, journalIdOf f.session = some id → id ∈ w.ids) ∧
    f.journal.Known cj w.ids ∧ f.commits = []
  journaled : w.journaled = []
  requests : w.requests = []
  activating : w.activating = false

/-- No activation comes between the load of a session and the look for its journal, and the
replies have no double keys. -/
def Refresh.Undisturbed (cj : Cjson) (st : Running RefreshDir RefreshOutcome Refreshed) :
    Move RefreshOutcome Unit (RefreshEvent N) Nat → Prop
  | .go o => ∀ body, o.reply.body = some body → DistinctBody cj body
  | .others (.activate _ _ _) => st.world.loaded = false
  | _ => True

/-! ## The other writers -/

section Events

variable (hN : CaseDistinct N) (hkeys : ∀ k ∈ sessionKeys, k ∈ N) (hid : "loginId" ∈ N)
  (hp : pendingKey ∈ N)

namespace RefreshDir

variable {w w' : RefreshDir}

/-- A writer that leaves what the refresh goes by. -/
theorem putSession_sound {file : Option Fields} (hw : w.Sound N cj)
    (hover : ∀ root ∈ file, root.Over N) (hsame : SameRefresh w.now.session file)
    (h : w.locked (w.putSession file) = some w') : w'.Sound N cj ∧ w.Others w' := by
  unfold locked at h
  split at h
  · cases h
  · rename_i hfree
    obtain rfl := Option.some.inj h
    exact ⟨hw.write (fun _ h => h) (hw.visible.withSession hover hsame)
      (fun hact => absurd hact hfree) .unsynced, rfl, fun _ h => h, rfl, .inl rfl, rfl, .inl hsame⟩

/-- The two fields and the login that a writer leaves. -/
theorem SameRefresh.of_writer {ι : Type} [DecidableEq ι] {st st' : Writers ι}
    (hst : st.Sound N) (hN : CaseDistinct N) (hkeys : ∀ k ∈ sessionKeys, k ∈ N)
    (op : WriterOp N ι)
    (hop : ∀ k ∈ ["loginId", "refreshToken", "refreshJournalId"], op.Keeps k)
    (hstep : (writers N ι).step st op = some st') :
    SameRefresh st.file st'.file ∧ ∀ root ∈ st'.file, root.Over N :=
  ⟨.of_get fun k hk => writers_keeps hN hkeys hst (hop k hk) hstep,
    (writers_preserves hN hkeys hst hstep).file⟩

include hN hkeys in
theorem save_sound {root : Fields} (hover : root.Over N) {e : Edit} (he : e.KeepsRefresh)
    {s : Session} (hparse : sessionParse root = some s) (hw : w.Sound N cj)
    (h : w.locked (w.putSession (sessionSave w.now.session (e.apply s) .unsynced).2) = some w') :
    w'.Sound N cj ∧ w.Others w' := by
  have hsnap := sessionParse_snapshot hparse
  have hst : Writers.Sound N (⟨w.now.session, fun _ => some s⟩ : Writers Unit) :=
    ⟨hw.visible.isOver, fun _ s' hs' => by
      obtain rfl := Option.some.inj hs'
      exact ⟨hsnap ▸ hover, sessionParse_distinct hover.distinct hparse, hsnap ▸ hparse⟩⟩
  obtain ⟨hsame, hover'⟩ := SameRefresh.of_writer hst hN hkeys (.save () e .unsynced)
    (fun k hk => by
      intro s
      simp only [List.mem_cons, List.not_mem_nil, or_false] at hk
      rcases hk with rfl | rfl | rfl
      · exact .inl loginId_notMem
      · exact he.refreshToken s
      · exact he.refreshJournalId s) rfl
  exact putSession_sound hw hover' hsame h

include hN hkeys in
theorem patch_sound {p : Fields} (hover : p.Over N)
    (hkeep : ∀ k ∈ ["loginId", "refreshToken", "refreshJournalId"], p.get k = none)
    (hw : w.Sound N cj)
    (h : w.locked (w.putSession (sessionPatch w.now.session p .unsynced).2) = some w') :
    w'.Sound N cj ∧ w.Others w' := by
  have hst : Writers.Sound N (⟨w.now.session, fun _ => none⟩ : Writers Unit) :=
    ⟨hw.visible.isOver, fun _ _ h => nomatch h⟩
  obtain ⟨hsame, hover'⟩ := SameRefresh.of_writer hst hN hkeys (.patch p hover .unsynced)
    hkeep rfl
  exact putSession_sound hw hover' hsame h

theorem acceptNextAccess_sound {b : Binding} {previous next : String} (hw : w.Sound N cj)
    (h : w.locked (w.putSession (acceptNextAccess b w.now.session previous next .unsynced).2) =
      some w') : w'.Sound N cj ∧ w.Others w' := by
  refine putSession_sound hw (acceptNextAccess_over hw.visible.isOver)
    (.of_get fun k hk => acceptNextAccess_get ?_) h
  simp only [List.mem_cons, List.not_mem_nil, or_false] at hk
  rcases hk with rfl | rfl | rfl <;> decide

/-- The maps of the partial syncs are none of what the refresh goes by. -/
theorem partial_sound {file : Option Fields} (hk : KeepsOthers N w.now.session file)
    (hw : w.Sound N cj) (h : w.locked (w.putSession file) = some w') :
    w'.Sound N cj ∧ w.Others w' := by
  refine putSession_sound hw hk.isOver (.of_get fun k hkey => hk.others k ?_ ?_) h
  · simp only [List.mem_cons, List.not_mem_nil, or_false] at hkey
    rcases hkey with rfl | rfl | rfl <;> decide
  · simp only [List.mem_cons, List.not_mem_nil, or_false] at hkey
    rcases hkey with rfl | rfl | rfl <;> decide

/-- A session whose login is new. -/
theorem putLogin_sound (hw : w.Sound N cj) {f : RefreshFiles} {ids : List String} {id : String}
    (hids : ∀ id ∈ w.ids, id ∈ ids) (hnew : id ∉ w.ids) (hlogin : loginIdOf f.session = some id)
    (hf : f = { w.now with session := f.session }) (hover : ∀ root ∈ f.session, root.Over N)
    (hmem : id ∈ ids) (hjournal : ∀ id, journalIdOf f.session = some id → id ∈ ids) :
    f.Sound N cj ids w.journaled ∧ ∀ r ∈ w.journaled, loginIdOf f.session ≠ some r.loginId := by
  have hother : ∀ r ∈ w.journaled, loginIdOf f.session ≠ some r.loginId := by
    intro r hr he
    obtain rfl := Option.some.inj (hlogin.symm.trans he)
    exact hnew (hw.replies r hr)
  refine ⟨?_, hother⟩
  rw [hf]
  refine hw.visible.withLogin hover hids (fun id' h => ?_) hjournal hother
  obtain rfl := Option.some.inj (hlogin.symm.trans h)
  exact hmem

include hid in
theorem loginId_sound {newId : String} (hw : w.Sound N cj) (hnew : w.isNew newId = true)
    (h : w.locked { w.putSession (sessionLoginId w.now.session newId .unsynced).2 with
      ids := newId :: w.ids } = some w') : w'.Sound N cj ∧ w.Others w' := by
  have hids : ∀ id ∈ w.ids, id ∈ newId :: w.ids := fun id h => List.mem_cons_of_mem _ h
  have hfresh := (isNew_iff.mp hnew).2
  unfold locked at h
  split at h
  · cases h
  · rename_i hfree
    have hnever : ∀ {P : Prop}, w.activating = true → P := fun hact => absurd hact hfree
    obtain rfl := Option.some.inj h
    rcases Logins.sessionLoginId_cases w.now.session newId .unsynced with
      he | ⟨root, hroot, hnone, he⟩
    · refine ⟨?_, rfl, hids, rfl, .inl rfl, rfl, .inl ?_⟩
      · have hf := (hw.visible.withSession hw.visible.isOver (.refl _)).mono hids
        rw [he]
        exact hw.write hids hf hnever .unsynced
      · show SameRefresh w.now.session (sessionLoginId w.now.session newId .unsynced).2
        rw [he]
        exact .refl _
    · have hover : root.Over N := hw.visible.isOver root hroot
      obtain ⟨-, -, hlogin, hjournal⟩ := addLoginId_new hnone
        (show addLoginId root newId = some (newId, root ++ [("loginId", .str newId)]) by
          rw [addLoginId, hnone])
      obtain ⟨hf, hother⟩ := putLogin_sound hw (f := { w.now with
        session := some (root ++ [("loginId", .str newId)]) }) hids hfresh hlogin rfl
        (fun fs hfs => Option.some.inj hfs ▸ hover.concat hid rfl hnone) List.mem_cons_self
        fun id h => by
          rw [hjournal, ← hroot] at h
          exact hids _ (hw.visible.journalId id h)
      refine ⟨?_, rfl, hids, rfl, .inl rfl, rfl,
        .inr ⟨.inr ?_, newId, ?_, hfresh, fun r hr hr' => ?_⟩⟩
      · rw [he]
        exact hw.write hids hf hnever .unsynced
      · rw [hroot, loginIdOf, Option.bind_some, hnone]
      · show loginIdOf (sessionLoginId w.now.session newId .unsynced).2 = _
        rw [he]
        exact hlogin
      · exact hfresh (hr' ▸ hw.replies r hr)

theorem activate_sound {root : Fields} {id : String} {o : WriteResult} (hover : root.Over N)
    (hloaded : w.loaded = false) (hget : root.get "loginId" = some (.str id))
    (hnew : w.isNew id = true) (hw : w.Sound N cj)
    (h : w.locked (w.activate root id o) = some w') : w'.Sound N cj ∧ w.Others w' := by
  have hids : ∀ id' ∈ w.ids, id' ∈ id :: (journalIdOf (some root)).toList ++ w.ids :=
    fun id' h => List.mem_append_right _ h
  have hfresh := (isNew_iff.mp hnew).2
  have hlogin := loginIdOf_of_get hget
  obtain ⟨hf, hother⟩ := putLogin_sound hw (f := { w.now with session := some root }) hids hfresh
    hlogin rfl (fun fs hfs => Option.some.inj hfs ▸ hover) List.mem_cons_self
    fun id' h => List.mem_append_left _ (List.mem_cons_of_mem _ (Option.mem_toList.mpr h))
  unfold locked at h
  split at h
  · cases h
  · rename_i hfree
    obtain rfl := Option.some.inj h
    have hsound := hw.write hids hf (fun hact => absurd hact hfree) o
    have hnow : (w.files.write { w.now with session := some root } o).visible.commits =
          w.now.commits ∧
        (w.files.write { w.now with session := some root } o).visible.journal = w.now.journal ∧
        (SameRefresh w.now.session
            (w.files.write { w.now with session := some root } o).visible.session ∨
          loginIdOf (w.files.write { w.now with session := some root } o).visible.session =
            some id) := by
      rcases visible_write w.files { w.now with session := some root } o with he | he
      · rw [he]
        exact ⟨rfl, rfl, .inr hlogin⟩
      · rw [he]
        exact ⟨rfl, rfl, .inl (.refl _)⟩
    refine ⟨⟨hsound.files, hsound.replies, hsound.requests, fun hok r hr => ?_⟩, rfl, hids, hnow.1,
      .inl hnow.2.1, rfl, hnow.2.2.imp_right fun hnew => ⟨.inl hloaded, id, hnew, hfresh, ?_⟩⟩
    · show loginIdOf (w.files.write _ o).visible.session ≠ _
      rw [Disk.write_ok _ _ hok]
      exact hother r hr
    · rintro r hr rfl
      exact hfresh (hw.replies r hr)

theorem retireJournal_sound {o : WriteResult} (hact : w.activating = true) (hw : w.Sound N cj) :
    (w.retireJournal o).Sound N cj ∧ w.Others (w.retireJournal o) := by
  unfold retireJournal
  split
  · have hf := hw.visible.withJournal (j := .missing) RefreshFiles.known_missing
      fun r hr hlogin => absurd hlogin (hw.activating hact r hr)
    have hsound := hw.write (fun _ h => h) hf hw.activating o
    have ho := Others.write_missing w o
    exact ⟨⟨hsound.files, hsound.replies, hsound.requests, fun h => nomatch h⟩,
      ho.journaled, ho.ids, ho.commits, ho.journal, ho.loaded, ho.session⟩
  · exact ⟨⟨hw.files, hw.replies, hw.requests, fun h => nomatch h⟩,
      rfl, fun _ h => h, rfl, .inl rfl, rfl, .inl (.refl _)⟩

include hN hkeys hid hp in
theorem event_sound {e : RefreshEvent N} (hw : w.Sound N cj)
    (hloaded : ∀ root hover o, e = .activate root hover o → w.loaded = false)
    (h : w.event e = some w') : w'.Sound N cj ∧ w.Others w' := by
  have hc : completedKey ∈ N := hkeys _ (by decide)
  cases e with
  | save root hover e he =>
    obtain ⟨s, hparse, h⟩ := Option.bind_eq_some_iff.mp h
    exact save_sound hN hkeys hover he hparse hw h
  | patch p hover hkeep => exact patch_sound hN hkeys hover hkeep hw h
  | acceptNextAccess b previous next => exact acceptNextAccess_sound hw h
  | updatePartial b targets =>
    exact partial_sound (updatePartialFullSyncs_keeps hp hc hw.visible.isOver b targets _) hw h
  | completePartial snapshot =>
    exact partial_sound (completePartialFullSyncs_keeps hp hc hw.visible.isOver snapshot _) hw h
  | loginId newId =>
    simp only [event] at h
    split at h
    · exact loginId_sound hid hw ‹_› h
    · cases h
  | activate root hover o =>
    simp only [event] at h
    split at h
    · split at h
      · exact activate_sound hover (hloaded root hover o rfl) ‹_› ‹_› hw h
      · cases h
    · cases h
  | retireJournal o =>
    simp only [event] at h
    split at h
    · obtain rfl := Option.some.inj h
      exact retireJournal_sound ‹_› hw
    · cases h
  | flush =>
    obtain rfl := Option.some.inj h
    exact ⟨⟨hw.files.sync, hw.replies, hw.requests, hw.activating⟩,
      rfl, fun _ h => h, rfl, .inl rfl, rfl, .inl (.refl _)⟩
  | health failed =>
    obtain rfl := Option.some.inj h
    exact ⟨⟨hw.files, hw.replies, hw.requests, hw.activating⟩,
      rfl, fun _ h => h, rfl, .inl rfl, rfl, .inl (.refl _)⟩

theorem Starts.sound (h : w.Starts N cj) : w.Sound N cj where
  files := h.files.mono fun f hf => by
    obtain ⟨hover, hlogin, hjournal, hknown, hcommits⟩ := hf
    refine ⟨hover, hlogin, hjournal, hknown, fun r hr => ?_, fun c hc => ?_⟩
    · rw [h.journaled] at hr
      cases hr
    · rw [hcommits] at hc
      cases hc
  replies r hr := by
    rw [h.journaled] at hr
    cases hr
  requests q hq := by
    rw [h.requests] at hq
    cases hq
  activating hact := by
    rw [h.activating] at hact
    cases hact

end RefreshDir

/-! ## Runs -/

include hN hkeys hid hp in
theorem refreshes_keep : (tokenRefreshes cj N).Keeps (refreshRules N cj)
    (fun w e => ∀ root hover o, e = .activate root hover o → w.loaded = false) AllTaken where
  call _ _ _ := Refresh.ensures_tokenRefreshLocked hN hkeys hid
  others e w w' hw he h := by
    obtain ⟨hsound, ho⟩ := RefreshDir.event_sound hN hkeys hid hp hw he h
    exact ⟨hsound, trivial, ho⟩
  crash k w hw :=
    ⟨⟨hw.files.crash k, hw.replies, hw.requests, fun h => nomatch h⟩, trivial⟩

end Events

/-- The rules hold through every run. -/
theorem refresh_under (hN : CaseDistinct N) (hkeys : ∀ k ∈ sessionKeys, k ∈ N)
    (hid : "loginId" ∈ N) (hp : pendingKey ∈ N) {w : RefreshDir} (hw : w.Starts N cj)
    {ms : List (Move RefreshOutcome Unit (RefreshEvent N) Nat)}
    {st : Running RefreshDir RefreshOutcome Refreshed}
    (hms : (tokenRefreshes cj N).machine.Meets (Refresh.Undisturbed cj) { world := w } ms)
    (hrun : (tokenRefreshes cj N).machine.run { world := w } ms = some st) :
    st.Under (refreshRules N cj) AllTaken ∧ ∀ e ∈ st.ended, AllTaken e.1 e.2 := by
  have hstart : Running.Under (refreshRules N cj) AllTaken
      ({ world := w } : Running RefreshDir RefreshOutcome Refreshed) :=
    ⟨hw.sound, fun _ h => nomatch h⟩
  have hallowed : (tokenRefreshes cj N).machine.Meets (System.Allowed (refreshRules N cj)
      fun w e => ∀ root hover o, e = .activate root hover o → w.loaded = false)
      { world := w } ms := by
    refine Machine.Meets.of_invariant (I := fun _ => True) (fun _ _ => trivial)
      (fun st m _ h => ?_) trivial hms
    cases m with
    | go o => exact h
    | others e =>
      rintro root hover o rfl
      exact h
    | call _ => trivial
    | crash _ => trivial
  obtain ⟨hunder, -, ended, hended, hq⟩ :=
    System.run_ensures (refreshes_keep hN hkeys hid hp) hstart hallowed hrun
  refine ⟨hunder, fun e he => (hq e ?_).1⟩
  rw [hended, List.append_nil] at he
  exact he

/-- In every run of refreshes, other writers and crashes: a request is sent only when the
tokens of every journaled reply to its login were saved; whatever a crash may bring back, a
journaled reply to the login of the session is still in the journal until its tokens are saved,
and saved are the tokens of journaled replies, into a session of their login; and a refresh
that gives a token leaves nothing to be saved. -/
theorem refresh_journal (hN : CaseDistinct N) (hkeys : ∀ k ∈ sessionKeys, k ∈ N)
    (hid : "loginId" ∈ N) (hp : pendingKey ∈ N) {w : RefreshDir} (hw : w.Starts N cj)
    {ms : List (Move RefreshOutcome Unit (RefreshEvent N) Nat)}
    {st : Running RefreshDir RefreshOutcome Refreshed}
    (hms : (tokenRefreshes cj N).machine.Meets (Refresh.Undisturbed cj) { world := w } ms)
    (hrun : (tokenRefreshes cj N).machine.run { world := w } ms = some st) :
    (∀ q ∈ st.world.requests, q.Clear) ∧
      (st.world.files.Holds fun f => f.Kept st.world.journaled ∧
        ∀ c ∈ f.commits, c.Right cj ∧ c.reply ∈ st.world.journaled) ∧
      ∀ e ∈ st.ended, AllTaken e.1 e.2 := by
  obtain ⟨hunder, hended⟩ := refresh_under hN hkeys hid hp hw hms hrun
  exact ⟨hunder.inv.requests, hunder.inv.files.mono fun f hf => ⟨hf.kept, hf.commits⟩, hended⟩

/-! ## A crash before the save -/

def refreshFile : Fields := [
  ("accessToken", .str "access-1"),
  ("refreshToken", .str "refresh-1"),
  ("loginId", .str "login-1")]

def refreshStart : RefreshDir where
  files := { visible := { session := some refreshFile } }
  ids := ["login-1"]

def issuedText : String :=
  "\x7b\"data\":\x7b\"accessToken\":\"access-2\",\"refreshToken\":\"refresh-2\"\x7d\x7d"

def issuedCjson : Cjson where
  parse s := if s = issuedText then
      some (.obj [("data",
        .obj [("accessToken", .str "access-2"), ("refreshToken", .str "refresh-2")])])
    else none
  print := Json.printUnformatted

/-- The call gets as far as the journal, and the next one starts after a crash. -/
def journaledMoves : List (Move RefreshOutcome Unit (RefreshEvent LoginNames) Nat) :=
  [.call (), .go {}, .go {}, .go {}, .go {}, .go {}, .go {},
    .go { reply := { status := 200, body := some issuedText } }, .go {}, .crash 0,
    .call (), .go { newId := "unused" }, .go {}, .go {}]

/-- The next call finds the journal, reads it and saves the tokens in it. -/
def recoveredMoves : List (Move RefreshOutcome Unit (RefreshEvent LoginNames) Nat) :=
  journaledMoves ++ [.go {}, .go {}, .go {}, .go {}, .go {}]

/-- After the crash and the next call. -/
def recoveredRefresh : Running RefreshDir RefreshOutcome Refreshed :=
  ((tokenRefreshes issuedCjson LoginNames).machine.run { world := refreshStart }
    recoveredMoves).get (by decide)

theorem refreshStart_starts : refreshStart.Starts LoginNames issuedCjson where
  files := by
    rintro f hf
    obtain rfl := List.mem_singleton.mp hf
    refine ⟨fun root hroot => ?_, fun id hid => ?_, fun id hid => (nomatch hid),
      fun pending hp => (nomatch hp), rfl⟩
    · obtain rfl := Option.some.inj hroot
      exact over_loginNames (by decide) (by decide) (by decide)
    · obtain rfl : "login-1" = id := Option.some.inj hid
      exact List.mem_cons_self
  journaled := rfl
  requests := rfl
  activating := rfl

theorem distinct_issued {body : String} : DistinctBody issuedCjson body := by
  intro j hj
  simp only [issuedCjson] at hj
  split at hj
  · obtain rfl := Option.some.inj hj
    decide
  · cases hj

theorem refresh_journal_recovered :
    (∀ q ∈ recoveredRefresh.world.requests, q.Clear) ∧
      (recoveredRefresh.world.files.Holds fun f => f.Kept recoveredRefresh.world.journaled ∧
        ∀ c ∈ f.commits, c.Right issuedCjson ∧ c.reply ∈ recoveredRefresh.world.journaled) ∧
      ∀ e ∈ recoveredRefresh.ended, AllTaken e.1 e.2 :=
  refresh_journal loginNames_distinct (fun _ hk => List.mem_append_left _ hk)
    (by
      show "loginId" ∈ loginNames
      decide)
    (by
      show pendingKey ∈ loginNames
      decide)
    refreshStart_starts
    (.of_forall (fun m hm st => by
      cases m with
      | go o => exact fun _ _ => distinct_issued
      | others e => simp [recoveredMoves, journaledMoves] at hm
      | call _ => trivial
      | crash _ => trivial) _)
    (Option.some_get _).symm

/-- An activation between the load and the look for the journal. -/
def racedMoves : List (Move RefreshOutcome Unit (RefreshEvent LoginNames) Nat) :=
  journaledMoves ++ [
    .others (.activate [("accessToken", .str "access-3"), ("loginId", .str "login-2")]
      (over_loginNames (by decide) (by decide) (by decide)) .written),
    .others (.retireJournal .written), .go {}, .go { newId := "refresh-2" }, .go {}, .go {}]

def racedRefresh : Running RefreshDir RefreshOutcome Refreshed :=
  ((tokenRefreshes issuedCjson LoginNames).machine.run { world := refreshStart }
    racedMoves).get (by decide)

/-- The call of the old login then sends its refresh token once more. -/
theorem refresh_raced : ¬ ∀ q ∈ racedRefresh.world.requests, q.Clear := by
  intro h
  have hlast : ∃ q ∈ racedRefresh.world.requests, q.commits.isEmpty ∧
      q.journaled.any (·.loginId == q.loginId) := by
    have hany : (racedRefresh.world.requests.any fun q => q.commits.isEmpty &&
      q.journaled.any (·.loginId == q.loginId)) = true := by decide
    obtain ⟨q, hq, hb⟩ := List.any_eq_true.mp hany
    exact ⟨q, hq, by simpa using hb⟩
  obtain ⟨q, hq, hempty, hany⟩ := hlast
  obtain ⟨r, hr, he⟩ := List.any_eq_true.mp hany
  obtain ⟨c, hc, -⟩ := h q hq r hr (by simpa using he)
  rw [List.isEmpty_iff.mp hempty] at hc
  cases hc

/-! ## A call without trouble -/

structure RefreshOutcome.Smooth (w : RefreshDir) (o : RefreshOutcome) : Prop where
  write : o.write = .written
  readFails : o.readFails = false
  accessFails : o.accessFails = false
  ok : o.ok = true
  newId : w.isNew o.newId = true

namespace Refresh

variable {w : RefreshDir} {o : RefreshOutcome} {s : Loaded} {r : RefreshReply}

theorem loginIdOn_smooth (hN : CaseDistinct N) (hid : "loginId" ∈ N) (ho : o.Smooth w) {id : String}
    {root : Fields} (hroot : w.now.session = some root) (hover : root.Over N)
    (hget : root.get "loginId" = some (.str id)) (hne : id ≠ "") :
    loginIdOn o w = (some id, w) := by
  have hadd : addLoginId root o.newId = some (id, root) := by
    rw [addLoginId, hget]
    exact if_pos hne
  have hitem : ((Json.obj root).getObjectItem "loginId").isSome = true := by
    rw [hover.getObjectItem_eq hN hid, hget]
    rfl
  unfold loginIdOn
  rw [ho.readFails, hroot]
  simp only [Bool.false_eq_true, if_false, hadd, hitem, if_true]

theorem bindIdentity_isSome {root : Fields} {session : Session} {id : String} (hne : id ≠ "")
    (hparse : sessionParse root = some session) (hget : root.get "loginId" = some (.str id)) :
    (Enil.bindIdentity (some root)).isSome = true := by
  unfold sessionParse at hparse
  simp only [Option.bind_eq_bind, Option.bind_eq_some_iff] at hparse
  obtain ⟨identity, hidentity, -⟩ := hparse
  unfold Enil.bindIdentity
  simp only [Option.bind_eq_bind, Option.bind_some, hidentity, hget, if_neg hne]
  rfl

/-- A pending reply is what the journal is read as. -/
theorem recoverFrom_pending (hp : s.Pends r) (hlogin : r.loginId = s.loginId) :
    recoverFrom cj s (some r.toJson) = pure (.replay r.responseBody r.refreshId) := by
  have hid : refreshString (some r.toJson) "refreshId" = some r.refreshId := rfl
  have hnot : ¬ ((some r.refreshId).isSome && some r.refreshId == s.session.refreshJournalId) =
      true := by
    intro he
    rw [Bool.and_eq_true, beq_iff_eq] at he
    exact hp.id he.2.symm
  unfold recoverFrom
  dsimp only
  rw [hid, if_neg hnot]
  have hother : ¬ ((some r.loginId).any (· ≠ s.loginId)) = true := by simp [hlogin]
  rw [show refreshString (some r.toJson) "loginId" = some r.loginId from rfl, if_neg hother]
  exact if_pos hp.token.symm

theorem sessionSave_ok (hs : s.Sound N) (hN : CaseDistinct N) (hkeys : ∀ k ∈ sessionKeys, k ∈ N)
    {s' : Session} (hsnap : s'.snapshot = s.session.snapshot) {root : Fields}
    (hget : root.get "loginId" = some (.str s.loginId)) :
    ∃ file, sessionSave (some root) s' .written = (true, some file) := by
  have hbase : (sessionToJson s.session).get "loginId" = some (.str s.loginId) :=
    get_loginId_baseline hN hkeys hs.isOver hs.distinct hs.loginId
  have hsame : sameLogin (some (.str s.loginId)) (some (.str s.loginId)) = true := by
    simp [sameLogin, hs.nonempty]
  simp only [sessionSave, hsnap, hs.parsed, hbase, hget, hsame, if_true]
  exact ⟨_, rfl⟩


section Smooth

variable {α : Type} {os : List RefreshOutcome}

theorem upTo_loginId (hN : CaseDistinct N) (hid : "loginId" ∈ N) (ho : o.Smooth w)
    (hfree : w.activating = false) {root : Fields} (hroot : w.now.session = some root)
    (hover : root.Over N) {id : String} (hget : root.get "loginId" = some (.str id)) (hne : id ≠ "")
    (k : Option String → Refresh α) :
    (loginId >>= k).upTo (o :: os) w = (k (some id)).upTo os w := by
  have hon := loginIdOn_smooth hN hid ho hroot hover hget hne
  rw [loginId, Prog.upTo_step_bind (by rw [hfree, ho.newId]; rfl), hon]

theorem upTo_bindIdentity (ho : o.Smooth w) {root : Fields} (hroot : w.now.session = some root)
    {session : Session} (hparse : sessionParse root = some session) {id : String}
    (hget : root.get "loginId" = some (.str id)) (hne : id ≠ "") (k : Bool → Refresh α) :
    (bindIdentity >>= k).upTo (o :: os) w = (k true).upTo os w := by
  rw [bindIdentity, Prog.upTo_op_bind]
  simp only [ho.readFails, Bool.false_eq_true, if_false, hroot, bindIdentity_isSome hne hparse hget]

theorem upTo_load (ho : o.Smooth w) (hload : (sessionLoad w.now.session).bind loadedOf = some s)
    (k : Option Loaded → Refresh α) :
    (load >>= k).upTo (o :: os) w = (k (some s)).upTo os { w with loaded := true } := by
  rw [load, Prog.upTo_op_bind]
  simp only [ho.readFails, ho.ok, Bool.not_true, Bool.or_false, Bool.false_eq_true, if_false, hload]

theorem upTo_lookForJournal (haccess : o.accessFails = false) (hj : w.now.journal.isFound = true)
    (k : Access → Refresh α) :
    (lookForJournal >>= k).upTo (o :: os) w = (k .found).upTo os { w with loaded := false } := by
  rw [lookForJournal, Prog.upTo_op_bind]
  simp only [haccess, Bool.false_eq_true, if_false, hj, if_true]

theorem upTo_readJournal (hread : o.readFails = false) {j : Json}
    (hj : w.now.journal = .value j) (k : Option Json → Refresh α) :
    (readJournal >>= k).upTo (o :: os) w = (k (some j)).upTo os w := by
  rw [readJournal, Prog.upTo_op_bind]
  simp only [hread, Bool.false_eq_true, if_false, hj, JournalFile.parsed]

theorem upTo_writeJournal (hwrite : o.write = .written) (hfree : w.activating = false)
    (k : Bool → Refresh α) :
    (writeJournal r >>= k).upTo (o :: os) w = (k true).upTo os { w with
      files := { visible := { w.now with journal := .value r.toJson } }
      journaled := w.journaled ++ [r] } := by
  have hon : journalOn r o w = (true, { w with
      files := { visible := { w.now with journal := .value r.toJson } }
      journaled := w.journaled ++ [r] }) := by
    rw [journalOn, hwrite]
    rfl
  rw [writeJournal, Prog.upTo_step_bind (by rw [hfree]; rfl), hon]

theorem upTo_persist {loaded session : Session} (file : Fields) (hwrite : o.write = .written)
    (hfree : w.activating = false)
    (hsave : sessionSave w.now.session session .written = (true, some file))
    (k : Bool → Refresh α) :
    (persist r loaded session >>= k).upTo (o :: os) w = (k true).upTo os { w with
      failed := w.failed || false
      files := { visible := { w.now with
        session := some file
        commits := ⟨r, loaded, file⟩ :: w.now.commits } } } := by
  have hon : persistOn r loaded session o w = (true, { w with
      failed := w.failed || false
      files := { visible := { w.now with
        session := some file
        commits := ⟨r, loaded, file⟩ :: w.now.commits } } }) := by
    rw [persistOn, hsave, hwrite]
    rfl
  rw [persist, Prog.upTo_step_bind (by rw [hfree]; rfl), hon]

theorem upTo_unlink (hok : o.ok = true) (k : Unit → Refresh α) :
    (unlink >>= k).upTo (o :: os) w =
      (k ()).upTo os { w with files := w.files.put { w.now with journal := .missing } } := by
  rw [unlink, Prog.upTo_op_bind, hok, if_pos rfl]

end Smooth

end Refresh

open Refresh in
/-- A reply that is pending is taken up by the call. -/
theorem recovers_pending (hN : CaseDistinct N) (hkeys : ∀ k ∈ sessionKeys, k ∈ N)
    (hid : "loginId" ∈ N) {w : RefreshDir} (hw : w.Sound N cj) (hfree : w.activating = false)
    {s : Loaded} (hload : (sessionLoad w.now.session).bind loadedOf = some s) {r : RefreshReply}
    (hlogin : r.loginId = s.loginId) (hp : w.now.Pending r) {t : TokenV3IssueResult}
    (ht : tokensIn cj r.responseBody = some t) {os : List RefreshOutcome} (hlen : os.length = 8)
    (hos : ∀ o ∈ os, o.Smooth w) :
    ∃ w', (tokenRefreshLocked cj).upTo os w = (some { token := some t.accessToken }, w') ∧
      w'.requests = w.requests ∧ w'.now.journal = .missing ∧ w'.now.Took r ∧
      journalIdOf w'.now.session = some r.refreshId ∧
      accessTokenOf w'.now.session = some t.accessToken ∧
      refreshTokenOf w'.now.session = some (t.refreshToken.getD r.previousRefreshToken) := by
  obtain ⟨hs, hlogin', htoken, hjournal⟩ := Loaded.sound_of_load hN hkeys hw.visible.isOver hload
  obtain ⟨session, hsession, hloaded⟩ := Option.bind_eq_some_iff.mp hload
  obtain ⟨root, hroot, hparse⟩ := Option.bind_eq_some_iff.mp hsession
  have hover := hw.visible.isOver root hroot
  have hget : root.get "loginId" = some (.str s.loginId) := by
    obtain ⟨root', hroot', hget⟩ := loginIdOf_eq_some hlogin'
    obtain rfl := Option.some.inj (hroot.symm.trans hroot')
    exact hget
  have hpends : s.Pends r := ⟨Option.some.inj (htoken.symm.trans hp.token), hjournal ▸ hp.id⟩
  have hbody : DistinctBody cj r.responseBody :=
    (hw.visible.journal r.toJson (by rw [hp.journal]; rfl)).2 _ rfl
  have hasked : Asked cj s r := ⟨hpends, hlogin, hbody⟩
  have hsnap : (applyTokenV3 t r.refreshId s.session).snapshot = s.session.snapshot := rfl
  obtain ⟨file, hsave⟩ := sessionSave_ok hs hN hkeys hsnap hget
  obtain ⟨-, -, hright⟩ := saved_tokens (w := w) hN hkeys hs hasked
    ⟨fun id h => hw.visible.journalId id (hjournal.trans h), fun _ => ⟨htoken, hjournal⟩⟩ ht
    hw.visible.isOver (hroot ▸ hsave)
  have haccess : accessTokenOf (some file) = some t.accessToken := by
    obtain ⟨-, -, current, hcurrent, hm⟩ :=
      merged_of_save (w := w) hN hkeys hs hbody ht hw.visible.isOver (hroot ▸ hsave)
    obtain rfl := Option.some.inj (hroot.symm.trans hcurrent)
    have hloads : s.session = session := Loaded.session_of_loadedOf hloaded
    refine (access_of_merged hm).elim id fun h => ?_
    rw [h.2, Loaded.accessToken_of_load hN hkeys hover hparse, ← hloads, h.1]
  have hreply : (⟨s.loginId, r.refreshId, s.refreshToken, r.responseBody⟩ : RefreshReply) = r := by
    rw [← hlogin, hpends.token]
  rcases os with _ | ⟨o₁, _ | ⟨o₂, _ | ⟨o₃, _ | ⟨o₄, _ | ⟨o₅, _ | ⟨o₆, _ | ⟨o₇, _ | ⟨o₈, _ |
    ⟨o₉, os⟩⟩⟩⟩⟩⟩⟩⟩⟩ <;> simp only [List.length_nil, List.length_cons] at hlen
  any_goals omega
  simp only [List.forall_mem_cons] at hos
  obtain ⟨h₁, h₂, h₃, h₄, h₅, h₆, h₇, h₈, -⟩ := hos
  have hfound : w.now.journal.isFound = true := by
    rw [hp.journal]
    rfl
  rw [tokenRefreshLocked, upTo_loginId hN hid h₁ hfree hroot hover hget hs.nonempty,
    if_neg (by simp), upTo_bindIdentity h₂ hroot hparse hget hs.nonempty, if_neg (by decide),
    upTo_load h₃ hload]
  dsimp only
  rw [refreshLoaded, recoverRefresh, Prog.bind_bind,
    upTo_lookForJournal (w := { w with loaded := true }) h₄.accessFails hfound]
  dsimp only
  rw [Prog.bind_bind, upTo_readJournal (w := { w with loaded := false }) h₅.readFails hp.journal,
    recoverFrom_pending hpends hlogin, Prog.pure_bind]
  dsimp only
  rw [hreply, commitReply, upTo_writeJournal (w := { w with loaded := false }) h₆.write hfree,
    if_neg (by decide), ht]
  dsimp only
  rw [upTo_persist file h₇.write ?_ ?_, if_neg (by decide), upTo_unlink h₈.ok]
  · refine ⟨_, rfl, rfl, rfl, ⟨_, List.mem_cons_self, rfl⟩, hright.refreshId, haccess, ?_⟩
    obtain ⟨t', ht', htokens, -⟩ := hright.tokens
    obtain rfl := Option.some.inj (ht.symm.trans ht')
    exact htokens
  · exact hfree
  · exact hroot ▸ hsave

/-- After any such run, a journaled reply to the login of the session whose tokens were not
saved is taken up by the next call that meets no trouble, and nothing is sent for it. -/
theorem refresh_recovers (hN : CaseDistinct N) (hkeys : ∀ k ∈ sessionKeys, k ∈ N)
    (hid : "loginId" ∈ N) (hp : pendingKey ∈ N) {w : RefreshDir} (hw : w.Starts N cj)
    {ms : List (Move RefreshOutcome Unit (RefreshEvent N) Nat)}
    {st : Running RefreshDir RefreshOutcome Refreshed}
    (hms : (tokenRefreshes cj N).machine.Meets (Refresh.Undisturbed cj) { world := w } ms)
    (hrun : (tokenRefreshes cj N).machine.run { world := w } ms = some st)
    (hfree : st.world.activating = false) {s : Loaded}
    (hload : (sessionLoad st.world.now.session).bind loadedOf = some s) {r : RefreshReply}
    (hr : r ∈ st.world.journaled) (hlogin : r.loginId = s.loginId) (hnot : ¬ st.world.now.Took r)
    {t : TokenV3IssueResult} (ht : Refresh.tokensIn cj r.responseBody = some t)
    {os : List RefreshOutcome} (hlen : os.length = 8) (hos : ∀ o ∈ os, o.Smooth st.world) :
    ∃ w', (Refresh.tokenRefreshLocked cj).upTo os st.world =
        (some { token := some t.accessToken }, w') ∧
      w'.requests = st.world.requests ∧ w'.now.journal = .missing ∧ w'.now.Took r ∧
      journalIdOf w'.now.session = some r.refreshId ∧
      accessTokenOf w'.now.session = some t.accessToken ∧
      refreshTokenOf w'.now.session = some (t.refreshToken.getD r.previousRefreshToken) := by
  obtain ⟨hsound, -⟩ := refresh_under hN hkeys hid hp hw hms hrun
  obtain ⟨-, hlogin', -⟩ := Loaded.sound_of_load hN hkeys hsound.inv.visible.isOver hload
  have hpending := (hsound.inv.visible.kept r hr (hlogin ▸ hlogin')).resolve_left hnot
  exact recovers_pending hN hkeys hid hsound.inv hfree hload hlogin hpending ht hlen hos

def crashedMoves : List (Move RefreshOutcome Unit (RefreshEvent LoginNames) Nat) :=
  journaledMoves.take 10

def crashedRefresh : Running RefreshDir RefreshOutcome Refreshed :=
  ((tokenRefreshes issuedCjson LoginNames).machine.run { world := refreshStart }
    crashedMoves).get (by decide)

/-- What the next call loads. -/
def crashedLoaded : Loaded :=
  ((sessionLoad crashedRefresh.world.now.session).bind loadedOf).get (by decide)

def issuedReply : RefreshReply := ⟨"login-1", "refresh-1", "refresh-1", issuedText⟩

def issuedTokens : TokenV3IssueResult := (Refresh.tokensIn issuedCjson issuedText).get (by decide)

theorem refresh_recovers_crashed :
    ∃ w', (Refresh.tokenRefreshLocked issuedCjson).upTo (List.replicate 8 { newId := "unused" })
        crashedRefresh.world = (some { token := some issuedTokens.accessToken }, w') ∧
      w'.requests = crashedRefresh.world.requests ∧ w'.now.journal = .missing ∧
      w'.now.Took issuedReply ∧ journalIdOf w'.now.session = some "refresh-1" ∧
      accessTokenOf w'.now.session = some issuedTokens.accessToken ∧
      refreshTokenOf w'.now.session = some (issuedTokens.refreshToken.getD "refresh-1") := by
  have hrun : (tokenRefreshes issuedCjson LoginNames).machine.run { world := refreshStart }
      crashedMoves = some crashedRefresh := (Option.some_get _).symm
  refine refresh_recovers loginNames_distinct (fun _ hk => List.mem_append_left _ hk) ?_ ?_
    refreshStart_starts (.of_forall (fun m hm st => ?_) _) hrun ?_ (s := crashedLoaded)
    (Option.some_get _).symm (r := issuedReply) ?_ ?_ ?_ (t := issuedTokens)
    (Option.some_get _).symm rfl ?_
  · show "loginId" ∈ loginNames
    decide
  · show pendingKey ∈ loginNames
    decide
  · cases m with
    | go o => exact fun _ _ => distinct_issued
    | others e => simp [crashedMoves, journaledMoves] at hm
    | call _ => trivial
    | crash _ => trivial
  · decide
  · have hany : (crashedRefresh.world.journaled.any (· = issuedReply)) = true := by decide
    obtain ⟨r, hr, he⟩ := List.any_eq_true.mp hany
    obtain rfl := of_decide_eq_true he
    exact hr
  · decide
  · rintro ⟨c, hc, -⟩
    have hnone : crashedRefresh.world.now.commits.isEmpty = true := by decide
    have hc' : c ∈ crashedRefresh.world.now.commits := hc
    rw [List.isEmpty_iff.mp hnone] at hc'
    cases hc'
  · intro o ho
    obtain rfl := List.eq_of_mem_replicate ho
    exact ⟨rfl, rfl, rfl, rfl, by decide⟩

end Enil
