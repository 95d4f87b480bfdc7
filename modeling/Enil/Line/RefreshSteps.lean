import Enil.Line.TokenRefresh

/-!
# The steps of a refresh

What a refresh keeps at every step, and what it counts on while other writers come between
its steps: the login it loaded is still the one of the session, and then so are the tokens, or
the session is one that no journaled reply is for.
-/

namespace Enil

open Lib

variable {N : Set String} {cj : Cjson}

/-! ## What is kept of the replies -/

/-- The objects in the text of a reply have no key twice. -/
def DistinctBody (cj : Cjson) (body : String) : Prop :=
  ∀ j, cj.parse body = some j → j.distinct = true

def accessTokenOf (file : Option Fields) : Option String :=
  (file.bind fun root => root.get "accessToken").bind Json.getStringValue

/-- The file has the tokens of the reply: it keeps its access token only where the call had
loaded the one in the reply. -/
structure Commit.Right (cj : Cjson) (c : Commit) : Prop where
  loginId : loginIdOf (some c.file) = some c.reply.loginId
  refreshId : journalIdOf (some c.file) = some c.reply.refreshId
  tokens : ∃ t, Refresh.tokensIn cj c.reply.responseBody = some t ∧
    refreshTokenOf (some c.file) =
      some (t.refreshToken.getD c.reply.previousRefreshToken) ∧
    (accessTokenOf (some c.file) = some t.accessToken ∨
      c.loaded.accessToken = some t.accessToken)

/-- The tokens of every reply to the login of the request were saved before it. -/
def RefreshRequest.Clear (q : RefreshRequest) : Prop :=
  ∀ r ∈ q.journaled, r.loginId = q.loginId → ∃ c ∈ q.commits, c.reply = r

/-- What the journal says is known: its id, and a reply without double keys. -/
def JournalFile.Known (cj : Cjson) (ids : List String) (f : JournalFile) : Prop :=
  ∀ pending ∈ f.parsed,
    (∀ id, refreshString (some pending) "refreshId" = some id → id ∈ ids) ∧
      ∀ body, refreshString (some pending) "responseBody" = some body → DistinctBody cj body

namespace RefreshFiles

variable (f : RefreshFiles)

/-- The tokens of the reply were saved. -/
def Took (r : RefreshReply) : Prop := ∃ c ∈ f.commits, c.reply = r

/-- The reply is in the journal, and the session is still the one it was asked for with. -/
structure Pending (r : RefreshReply) : Prop where
  journal : f.journal = .value r.toJson
  token : refreshTokenOf f.session = some r.previousRefreshToken
  id : journalIdOf f.session ≠ some r.refreshId

/-- No reply to the login of the session is lost. -/
def Kept (rs : List RefreshReply) : Prop :=
  ∀ r ∈ rs, loginIdOf f.session = some r.loginId → f.Took r ∨ f.Pending r

structure Sound (N : Set String) (cj : Cjson) (ids : List String) (rs : List RefreshReply) :
    Prop where
  isOver : ∀ root ∈ f.session, root.Over N
  loginId : ∀ id, loginIdOf f.session = some id → id ∈ ids
  journalId : ∀ id, journalIdOf f.session = some id → id ∈ ids
  journal : f.journal.Known cj ids
  kept : f.Kept rs
  commits : ∀ c ∈ f.commits, c.Right cj ∧ c.reply ∈ rs

end RefreshFiles

/-- What holds of the directory at every moment. -/
structure RefreshDir.Sound (N : Set String) (cj : Cjson) (w : RefreshDir) : Prop where
  files : w.files.Holds (RefreshFiles.Sound · N cj w.ids w.journaled)
  replies : ∀ r ∈ w.journaled, r.loginId ∈ w.ids
  requests : ∀ q ∈ w.requests, q.Clear
  activating : w.activating = true → ∀ r ∈ w.journaled, loginIdOf w.now.session ≠ some r.loginId

/-- A refresh that gives a token leaves no reply to the login that is not saved. -/
def AllTaken (e : Refreshed) (w : RefreshDir) : Prop :=
  e.token.isSome → ∀ r ∈ w.journaled, loginIdOf w.now.session = some r.loginId → w.now.Took r

/-! ## The files -/

structure SameRefresh (file file' : Option Fields) : Prop where
  loginId : loginIdOf file' = loginIdOf file
  refreshToken : refreshTokenOf file' = refreshTokenOf file
  journalId : journalIdOf file' = journalIdOf file

namespace SameRefresh

theorem refl (file : Option Fields) : SameRefresh file file := ⟨rfl, rfl, rfl⟩

theorem trans {a b c : Option Fields} (h : SameRefresh a b) (h' : SameRefresh b c) :
    SameRefresh a c :=
  ⟨h'.loginId.trans h.loginId, h'.refreshToken.trans h.refreshToken,
    h'.journalId.trans h.journalId⟩

theorem of_get {file file' : Option Fields}
    (h : ∀ k ∈ ["loginId", "refreshToken", "refreshJournalId"],
      (file'.bind fun root => root.get k) = file.bind fun root => root.get k) :
    SameRefresh file file' where
  loginId := loginIdOf_congr (h _ (by decide))
  refreshToken := by rw [refreshTokenOf, refreshTokenOf, h _ (by decide)]
  journalId := by rw [journalIdOf, journalIdOf, h _ (by decide)]

end SameRefresh

namespace RefreshFiles

variable {f : RefreshFiles} {ids ids' : List String} {rs : List RefreshReply}

theorem Known.mono {j : JournalFile} (h : j.Known cj ids) (hids : ∀ id ∈ ids, id ∈ ids') :
    j.Known cj ids' :=
  fun pending hp => ⟨fun id hid => hids id ((h pending hp).1 id hid), (h pending hp).2⟩

theorem known_missing : JournalFile.missing.Known cj ids := fun _ h => nomatch h

theorem Sound.mono (h : f.Sound N cj ids rs) (hids : ∀ id ∈ ids, id ∈ ids') :
    f.Sound N cj ids' rs :=
  ⟨h.isOver, fun id hid => hids id (h.loginId id hid), fun id hid => hids id (h.journalId id hid),
    Known.mono h.journal hids, h.kept, h.commits⟩

/-- Another session that is the same for the refresh. -/
theorem Sound.withSession (h : f.Sound N cj ids rs) {file : Option Fields}
    (hover : ∀ root ∈ file, root.Over N) (hsame : SameRefresh f.session file) :
    Sound { f with session := file } N cj ids rs where
  isOver := hover
  loginId id hid := h.loginId id (hsame.loginId ▸ hid)
  journalId id hid := h.journalId id (hsame.journalId ▸ hid)
  journal := h.journal
  kept r hr hlogin := by
    refine (h.kept r hr (hsame.loginId ▸ hlogin)).imp (fun ht => ht) fun hp => ?_
    exact ⟨hp.journal, hsame.refreshToken.trans hp.token, fun hid => hp.id (hsame.journalId ▸ hid)⟩
  commits := h.commits

/-- Another session, of a login that no reply is for. -/
theorem Sound.withLogin (h : f.Sound N cj ids rs) {file : Option Fields}
    (hover : ∀ root ∈ file, root.Over N) (hids : ∀ id ∈ ids, id ∈ ids')
    (hlogin : ∀ id, loginIdOf file = some id → id ∈ ids')
    (hjournal : ∀ id, journalIdOf file = some id → id ∈ ids')
    (hnew : ∀ r ∈ rs, loginIdOf file ≠ some r.loginId) :
    Sound { f with session := file } N cj ids' rs :=
  ⟨hover, hlogin, hjournal, Known.mono h.journal hids, fun r hr he => absurd he (hnew r hr),
    h.commits⟩

/-- Another journal, where no reply is left in the old one. -/
theorem Sound.withJournal (h : f.Sound N cj ids rs) {j : JournalFile} (hj : j.Known cj ids)
    (hkept : ∀ r ∈ rs, loginIdOf f.session = some r.loginId →
      f.Took r ∨ Pending { f with journal := j } r) :
    Sound { f with journal := j } N cj ids rs :=
  ⟨h.isOver, h.loginId, h.journalId, hj, hkept, h.commits⟩

end RefreshFiles

/-! ## What others do -/

/-- The moves of others, as a call sees them. -/
structure RefreshDir.Others (w w' : RefreshDir) : Prop where
  journaled : w'.journaled = w.journaled
  ids : ∀ id ∈ w.ids, id ∈ w'.ids
  commits : w'.now.commits = w.now.commits
  journal : w'.now.journal = w.now.journal ∨ w'.now.journal = .missing
  loaded : w'.loaded = w.loaded
  session : SameRefresh w.now.session w'.now.session ∨
    (w.loaded = false ∨ loginIdOf w.now.session = none) ∧
      ∃ id, loginIdOf w'.now.session = some id ∧ id ∉ w.ids ∧ ∀ r ∈ w.journaled, r.loginId ≠ id

namespace RefreshDir.Others

theorem refl (w : RefreshDir) : w.Others w :=
  ⟨rfl, fun _ h => h, rfl, .inl rfl, rfl, .inl (.refl _)⟩

theorem trans {a b c : RefreshDir} (h : a.Others b) (h' : b.Others c) : a.Others c where
  journaled := h'.journaled.trans h.journaled
  ids id hid := h'.ids id (h.ids id hid)
  commits := h'.commits.trans h.commits
  journal := by
    rcases h'.journal with hj | hj
    · rw [hj]
      exact h.journal
    · exact .inr hj
  loaded := h'.loaded.trans h.loaded
  session := by
    rcases h.session with hs | ⟨hfree, id, hlogin, hid, hr⟩
    · rcases h'.session with hs' | ⟨hfree', id, hlogin, hid, hr⟩
      · exact .inl (hs.trans hs')
      · rw [h.loaded, hs.loginId] at hfree'
        exact .inr ⟨hfree', id, hlogin, fun hmem => hid (h.ids id hmem), h.journaled ▸ hr⟩
    · refine .inr ⟨hfree, ?_⟩
      rcases h'.session with hs' | ⟨-, id', hlogin', hid', hr'⟩
      · exact ⟨id, hs'.loginId.trans hlogin, hid, hr⟩
      · exact ⟨id', hlogin', fun hmem => hid' (h.ids id' hmem), h.journaled ▸ hr'⟩

end RefreshDir.Others

variable (N cj) in
/-- What a call keeps and counts on. -/
def refreshRules : Rules RefreshDir RefreshOutcome where
  inv w := w.Sound N cj
  rely w w' := w.Others w'
  rely_refl := .refl
  rely_trans := .trans
  guar _ _ := True
  guar_refl _ := trivial
  guar_trans _ _ := trivial
  ok o := ∀ body, o.reply.body = some body → DistinctBody cj body

/-! ## What a call counts on -/

namespace Loaded

variable (s : Loaded)

/-- The session is what was parsed of a file. -/
structure Sound (N : Set String) : Prop where
  isOver : s.session.snapshot.Over N
  distinct : s.session.Distinct
  parsed : sessionParse s.session.snapshot = some s.session
  accessToken : s.session.accessToken = some s.accessToken
  refreshToken : s.session.refreshToken = some s.refreshToken
  loginId : loginIdOf (some s.session.snapshot) = some s.loginId
  nonempty : s.loginId ≠ ""

/-- The session that is seen has the login that was loaded, or one that no reply is for. -/
structure Ours (w : RefreshDir) : Prop where
  id : s.loginId ∈ w.ids
  other : loginIdOf w.now.session = some s.loginId ∨
    ∀ r ∈ w.journaled, loginIdOf w.now.session ≠ some r.loginId

structure Same (w : RefreshDir) : Prop where
  journalId : ∀ id, s.session.refreshJournalId = some id → id ∈ w.ids
  same : loginIdOf w.now.session = some s.loginId →
    refreshTokenOf w.now.session = some s.refreshToken ∧
      journalIdOf w.now.session = s.session.refreshJournalId

/-- The replies whose tokens are not saved have `X`. -/
structure Left (X : JournalFile → RefreshReply → Prop) (w : RefreshDir) : Prop extends
    s.Ours w where
  left : ∀ r ∈ w.journaled, r.loginId = s.loginId → w.now.Took r ∨ X w.now.journal r

/-- The tokens of all replies are saved. -/
abbrev Clear : RefreshDir → Prop := s.Left fun _ _ => False

/-- Where a call is between the load and the look for the journal. -/
structure Fresh (w : RefreshDir) : Prop extends s.Same w where
  loaded : w.loaded = true
  login : loginIdOf w.now.session = some s.loginId
  id : s.loginId ∈ w.ids

structure Pends (r : RefreshReply) : Prop where
  token : s.refreshToken = r.previousRefreshToken
  id : s.session.refreshJournalId ≠ some r.refreshId

variable {s} {w w' : RefreshDir} {X Y : JournalFile → RefreshReply → Prop}

theorem Ours.others (h : s.Ours w) (ho : w.Others w') : s.Ours w' := by
  refine ⟨ho.ids _ h.id, ?_⟩
  rw [ho.journaled]
  rcases ho.session with hs | ⟨-, id, hlogin, -, hr⟩
  · rw [hs.loginId]
    exact h.other
  · refine .inr fun r hmem he => hr r hmem ?_
    exact (Option.some.inj (hlogin.symm.trans he)).symm

theorem Same.others (h : s.Same w) (hid : s.loginId ∈ w.ids) (ho : w.Others w') : s.Same w' := by
  refine ⟨fun id hj => ho.ids _ (h.journalId id hj), fun hlogin => ?_⟩
  rcases ho.session with hs | ⟨-, id, hlogin', hnew, -⟩
  · rw [hs.refreshToken, hs.journalId]
    exact h.same (hs.loginId ▸ hlogin)
  · obtain rfl := Option.some.inj (hlogin'.symm.trans hlogin)
    exact absurd hid hnew

theorem Left.others (hX : ∀ j r, X j r → X .missing r) (h : s.Left X w) (ho : w.Others w') :
    s.Left X w' := by
  refine ⟨h.toOurs.others ho, fun r hr hlogin => ?_⟩
  rw [ho.journaled] at hr
  refine (h.left r hr hlogin).imp (fun ht => ?_) fun hx => ?_
  · unfold RefreshFiles.Took
    rw [ho.commits]
    exact ht
  · rcases ho.journal with hj | hj
    · rw [hj]
      exact hx
    · rw [hj]
      exact hX _ r hx

theorem Fresh.others (h : s.Fresh w) (ho : w.Others w') : s.Fresh w' := by
  refine ⟨h.toSame.others h.id ho, ho.loaded.trans h.loaded, ?_, ho.ids _ h.id⟩
  rcases ho.session with hs | ⟨hfree, -⟩
  · exact hs.loginId.trans h.login
  · rw [h.loaded, h.login] at hfree
    rcases hfree with hfree | hfree <;> cases hfree

theorem Left.imp (h : s.Left X w)
    (hXY : ∀ r, r.loginId = s.loginId → X w.now.journal r → Y w.now.journal r) : s.Left Y w :=
  ⟨h.toOurs, fun r hr hlogin => (h.left r hr hlogin).imp_right (hXY r hlogin)⟩

/-- With nothing left, the login that is seen has all its replies saved. -/
theorem Clear.took (h : s.Clear w) {r : RefreshReply} (hr : r ∈ w.journaled)
    (hlogin : loginIdOf w.now.session = some r.loginId) : w.now.Took r := by
  rcases h.other with hown | hother
  · have he : r.loginId = s.loginId := Option.some.inj (hlogin.symm.trans hown)
    exact (h.left r hr he).resolve_right False.elim
  · exact absurd hlogin (hother r hr)

theorem Clear.allTaken (h : s.Clear w) (e : Refreshed) : AllTaken e w :=
  fun _ _ hr hlogin => h.took hr hlogin

end Loaded

/-! ## The operations of a call -/

namespace Refresh

section Operations

variable {s : Loaded} {w : RefreshDir}

/-- One operation, where what the call counts on stays true whatever others do. -/
theorem ensures_op {α : Type} {A : RefreshDir → Prop}
    {f : RefreshOutcome → RefreshDir → α × RefreshDir} {Q : α → RefreshDir → Prop}
    (hA : ∀ {w w'}, A w → w.Others w' → A w') (hw : A w)
    (h : ∀ w, A w → w.Sound N cj → ∀ o, (refreshRules N cj).ok o →
      (f o w).2.Sound N cj ∧ Q (f o w).1 (f o w).2) :
    (Prog.op f).Ensures (refreshRules N cj) Q w :=
  .op fun w₁ hrely hinv o ho =>
    have ⟨hsound, hq⟩ := h w₁ (hA hw hrely) hinv o ho
    ⟨hsound, trivial, hq⟩

/-- One operation that may have to wait. -/
theorem ensures_step {α : Type} {A : RefreshDir → Prop} {F : RefreshOutcome → RefreshDir → Prop}
    {act : RefreshOutcome → RefreshDir → Option RefreshDir}
    {f : RefreshOutcome → RefreshDir → α × RefreshDir} {Q : α → RefreshDir → Prop}
    (hact : ∀ o w w', act o w = some w' → F o w ∧ w' = (f o w).2)
    (hA : ∀ {w w'}, A w → w.Others w' → A w') (hw : A w)
    (h : ∀ w, A w → w.Sound N cj → ∀ o, F o w → (f o w).2.Sound N cj ∧ Q (f o w).1 (f o w).2) :
    (Prog.step act fun o w => .pure (f o w).1).Ensures (refreshRules N cj) Q w := by
  intro w₁ hrely hinv o w₂ ho hstep
  obtain ⟨hfree, rfl⟩ := hact o w₁ w₂ hstep
  obtain ⟨hsound, hq⟩ := h w₁ (hA hw hrely) hinv o hfree
  exact ⟨hsound, trivial, hq⟩

end Operations

end Refresh

namespace RefreshDir

variable {w : RefreshDir}

theorem isNew_iff {id : String} : w.isNew id = true ↔ id ≠ "" ∧ id ∉ w.ids := by
  simp [isNew]

/-- Other files, of which every version is sound. -/
theorem Sound.withFiles (h : w.Sound N cj) {files : Disk RefreshFiles} {ids : List String}
    (hids : ∀ id ∈ w.ids, id ∈ ids)
    (hfiles : files.Holds (RefreshFiles.Sound · N cj ids w.journaled))
    (hactivating : w.activating = true →
      ∀ r ∈ w.journaled, loginIdOf files.visible.session ≠ some r.loginId) :
    Sound N cj { w with files := files, ids := ids } :=
  ⟨hfiles, fun r hr => hids _ (h.replies r hr), h.requests, hactivating⟩

theorem Sound.visible (h : w.Sound N cj) : w.now.Sound N cj w.ids w.journaled := h.files.visible

/-- The version that is seen after a write is the one written, or the one before it. -/
theorem visible_write {α : Type} (d : Disk α) (a : α) (o : WriteResult) :
    (d.write a o).visible = a ∨ (d.write a o).visible = d.visible := by
  cases o with
  | failed => exact .inr rfl
  | unsynced => exact .inl rfl
  | written => exact .inl rfl

/-- One more version of the files. -/
theorem Sound.write (h : w.Sound N cj) {f : RefreshFiles} {ids : List String}
    (hids : ∀ id ∈ w.ids, id ∈ ids) (hf : f.Sound N cj ids w.journaled)
    (hactivating : w.activating = true →
      ∀ r ∈ w.journaled, loginIdOf f.session ≠ some r.loginId) (o : WriteResult) :
    Sound N cj { w with files := w.files.write f o, ids := ids } := by
  refine h.withFiles hids (Disk.Holds.write (h.files.mono fun _ hv => hv.mono hids) hf o)
    fun hact r hr => ?_
  rcases visible_write w.files f o with he | he
  · rw [he]
    exact hactivating hact r hr
  · rw [he]
    exact h.activating hact r hr

/-- The journal is taken away. -/
theorem Others.write_missing (w : RefreshDir) (o : WriteResult) :
    w.Others { w with files := w.files.write { w.now with journal := .missing } o } := by
  have hnow : (w.files.write { w.now with journal := .missing } o).visible.commits = w.now.commits ∧
      ((w.files.write { w.now with journal := .missing } o).visible.journal = w.now.journal ∨
        (w.files.write { w.now with journal := .missing } o).visible.journal = .missing) ∧
      (w.files.write { w.now with journal := .missing } o).visible.session = w.now.session := by
    rcases visible_write w.files { w.now with journal := .missing } o with he | he
    · rw [he]
      exact ⟨rfl, .inr rfl, rfl⟩
    · rw [he]
      exact ⟨rfl, .inl rfl, rfl⟩
  refine ⟨rfl, fun _ h => h, hnow.1, hnow.2.1, rfl, .inl ?_⟩
  show SameRefresh w.now.session (w.files.write _ o).visible.session
  rw [hnow.2.2]
  exact .refl _

end RefreshDir

/-! ### The session -/

namespace Fields

/-- A field of a file that has one more item. -/
theorem get_concat_of_ne {root : Fields} {k k' : String} {v : Json} (h : k' ≠ k) :
    (root ++ [(k', v)] : Fields).get k = root.get k := by
  rw [Fields.get_append, Fields.get_cons, if_neg h, Fields.get_nil, Option.or_none]

end Fields

/-- A loginId that is added to a session changes nothing for the refresh but the login. -/
theorem addLoginId_new {root root' : Fields} {newId id : String} (hnone : root.get "loginId" = none)
    (h : addLoginId root newId = some (id, root')) :
    id = newId ∧ root' = root ++ [("loginId", .str newId)] ∧
      loginIdOf (some root') = some newId ∧
      journalIdOf (some root') = journalIdOf (some root) := by
  unfold addLoginId at h
  rw [hnone] at h
  obtain ⟨rfl, rfl⟩ := Prod.mk.inj (Option.some.inj h)
  refine ⟨rfl, rfl, ?_, ?_⟩
  · refine loginIdOf_of_get ?_
    rw [Fields.get_append, hnone, Option.none_or, Fields.get_cons, if_pos rfl]
  · unfold journalIdOf
    rw [Option.bind_some, Option.bind_some, Fields.get_concat_of_ne (by decide)]

section Named

variable (hN : CaseDistinct N) (hkeys : ∀ k ∈ sessionKeys, k ∈ N) (hid : "loginId" ∈ N)

namespace Loaded

theorem session_of_loadedOf {session : Session} {s : Loaded} (h : loadedOf session = some s) :
    s.session = session := by
  unfold loadedOf at h
  simp only [Option.bind_eq_bind, Option.bind_eq_some_iff] at h
  obtain ⟨_, -, _, -, _, -, h⟩ := h
  split at h
  · cases h
  · exact (congrArg Loaded.session (Option.some.inj h)).symm

/-- The access token that is loaded is that of the file. -/
theorem accessToken_of_load (hN : CaseDistinct N) (hkeys : ∀ k ∈ sessionKeys, k ∈ N)
    {root : Fields} {session : Session} (hroot : root.Over N)
    (h : sessionParse root = some session) :
    accessTokenOf (some root) = session.accessToken := by
  have hget := hroot.getObjectItem_eq hN (hkeys "accessToken" (by decide))
  unfold sessionParse at h
  simp only [Option.bind_eq_bind, Option.bind_eq_some_iff, Option.some.injEq] at h
  obtain ⟨i, -, t, ht, rfl⟩ := h
  rw [accessTokenOf, Option.bind_some, ← hget]
  exact ht

/-- What is loaded of a file is what the file has. -/
theorem sound_of_load (hN : CaseDistinct N) (hkeys : ∀ k ∈ sessionKeys, k ∈ N)
    {file : Option Fields} {s : Loaded} (hover : ∀ root ∈ file, root.Over N)
    (h : (sessionLoad file).bind loadedOf = some s) :
    s.Sound N ∧ loginIdOf file = some s.loginId ∧ refreshTokenOf file = some s.refreshToken ∧
      journalIdOf file = s.session.refreshJournalId := by
  obtain ⟨session, hload, hs⟩ := Option.bind_eq_some_iff.mp h
  obtain ⟨root, rfl, hparse⟩ := Option.bind_eq_some_iff.mp hload
  have hroot : root.Over N := hover root rfl
  unfold loadedOf at hs
  simp only [Option.bind_eq_bind, Option.bind_eq_some_iff] at hs
  obtain ⟨access, haccess, refresh, hrefresh, id, hloginId, hs⟩ := hs
  split at hs
  · cases hs
  rename_i hne
  obtain rfl := Option.some.inj hs
  have hsnap := sessionParse_snapshot hparse
  have hget : ∀ k, k ∈ sessionKeys →
      (root.get k).bind Json.getStringValue = (Json.obj root).stringItem k := by
    intro k hk
    rw [Json.stringItem, hroot.getObjectItem_eq hN (hkeys k hk)]
  have hfields : session.refreshToken = (Json.obj root).stringItem "refreshToken" ∧
      session.refreshJournalId = (Json.obj root).stringItem "refreshJournalId" := by
    unfold sessionParse at hparse
    simp only [Option.bind_eq_bind, Option.bind_eq_some_iff, Option.some.injEq] at hparse
    obtain ⟨i, -, t, -, rfl⟩ := hparse
    exact ⟨rfl, rfl⟩
  have hlogin : loginIdOf (some root) = some id := by
    rw [hsnap] at hloginId
    have hget : (root.get "loginId").bind Json.getStringValue = some id := hloginId
    obtain ⟨v, hv, hstring⟩ := Option.bind_eq_some_iff.mp hget
    cases v with
    | str a =>
      obtain rfl := Option.some.inj hstring
      exact loginIdOf_of_get hv
    | null | bool _ | num _ | arr _ | obj _ => cases hstring
  refine ⟨⟨hsnap ▸ hroot, sessionParse_distinct hroot.distinct hparse, hsnap ▸ hparse, haccess,
    hrefresh, hsnap ▸ hlogin, hne⟩, hlogin, ?_, ?_⟩
  · rw [refreshTokenOf, Option.bind_some, hget _ (by decide), ← hfields.1, hrefresh]
  · rw [journalIdOf, Option.bind_some, hget _ (by decide), ← hfields.2]

end Loaded

end Named

/-! ### The steps -/

namespace Loaded

variable {s : Loaded} {w w' : RefreshDir} {X : JournalFile → RefreshReply → Prop}

/-- What a call counts on from the look for the journal to the save. -/
structure Stands (s : Loaded) (X : JournalFile → RefreshReply → Prop) (w : RefreshDir) : Prop where
  left : s.Left X w
  same : s.Same w

theorem Stands.others (hX : ∀ j r, X j r → X .missing r) (h : s.Stands X w) (ho : w.Others w') :
    s.Stands X w' :=
  ⟨h.left.others hX ho, h.same.others h.left.id ho⟩

theorem Stands.imp {Y : JournalFile → RefreshReply → Prop} (h : s.Stands X w)
    (hXY : ∀ r, r.loginId = s.loginId → X w.now.journal r → Y w.now.journal r) : s.Stands Y w :=
  ⟨h.left.imp hXY, h.same⟩

/-- A journal that was found has each reply that is left, until an activation retires it. -/
def InFile (s : Loaded) (j : JournalFile) (r : RefreshReply) : Prop :=
  (j = .value r.toJson ∨ j = .missing) ∧ s.Pends r

/-- What was read of the journal is each reply that is left. -/
def InValue (s : Loaded) (pending : Option Json) (_ : JournalFile) (r : RefreshReply) : Prop :=
  (∀ j ∈ pending, j = r.toJson) ∧ s.Pends r

end Loaded

open Loaded

namespace Refresh

variable {s : Loaded} {w : RefreshDir}

section Named

variable (hN : CaseDistinct N) (hkeys : ∀ k ∈ sessionKeys, k ∈ N) (hid : "loginId" ∈ N)

include hN hid in
theorem loginIdOn_sound (hw : w.Sound N cj) (hfree : w.activating = false) {o : RefreshOutcome}
    (hnew : w.isNew o.newId = true) : (loginIdOn o w).2.Sound N cj := by
  unfold loginIdOn
  split
  · exact hw
  · rename_i root hread
    split at hread
    · cases hread
    have hroot : root.Over N := hw.visible.isOver root hread
    split
    · exact hw
    · rename_i id root' hadd
      split
      · exact hw
      · rename_i hnone
        rw [hroot.getObjectItem_eq hN hid, Option.not_isSome_iff_eq_none] at hnone
        obtain ⟨-, rfl, hlogin, hjournal⟩ := addLoginId_new hnone hadd
        obtain ⟨-, hfresh⟩ := RefreshDir.isNew_iff.mp hnew
        refine hw.write (fun id h => List.mem_cons_of_mem _ h)
          (hw.visible.withLogin ?_ (fun id h => List.mem_cons_of_mem _ h) ?_ ?_ ?_)
          (fun hact => by rw [hfree] at hact; cases hact) _
        · intro fs hfs
          exact Option.some.inj hfs ▸ hroot.concat hid rfl hnone
        · intro id hid
          obtain rfl := Option.some.inj (hlogin.symm.trans hid)
          exact List.mem_cons_self
        · intro id hid
          rw [hjournal, ← hread] at hid
          exact List.mem_cons_of_mem _ (hw.visible.journalId id hid)
        · intro r hr he
          obtain he := Option.some.inj (hlogin.symm.trans he)
          exact hfresh (he ▸ hw.replies r hr)

include hN hid in
theorem ensures_loginId : loginId.Ensures (refreshRules N cj) (fun _ _ => True) w := by
  refine ensures_step (A := fun _ => True)
    (F := fun o w => w.activating = false ∧ w.isNew o.newId = true) (fun o w w' h => ?_)
    (fun _ _ => trivial) trivial fun w _ hw o ho => ⟨loginIdOn_sound hN hid hw ho.1 ho.2, trivial⟩
  split at h
  · cases h
  · rename_i hfree
    obtain rfl := Option.some.inj h
    simpa using hfree

include hN hkeys in
theorem ensures_load : load.Ensures (refreshRules N cj)
    (fun r w => ∀ s ∈ r, s.Sound N ∧ s.Fresh w) w := by
  refine ensures_op (A := fun _ => True) (fun _ _ => trivial) trivial fun w _ hw o _ => ?_
  split
  · exact ⟨hw, fun s hs => nomatch hs⟩
  · rename_i s hload
    have hread : (sessionLoad w.now.session).bind loadedOf = some s := by
      split at hload
      · cases hload
      · exact hload
    obtain ⟨hsound, hlogin, htoken, hjournal⟩ := sound_of_load hN hkeys hw.visible.isOver hread
    refine ⟨⟨hw.files, hw.replies, hw.requests, hw.activating⟩, fun s' hs' => ?_⟩
    obtain rfl := Option.some.inj hs'
    refine ⟨hsound, ⟨fun id hid => ?_, fun _ => ⟨htoken, hjournal⟩⟩, rfl, hlogin, ?_⟩
    · exact hw.visible.journalId id (hjournal.trans hid)
    · exact hw.visible.loginId _ hlogin

end Named

theorem ensures_look {α : Type} {f : RefreshOutcome → RefreshDir → α × RefreshDir}
    (hf : ∀ o w, (f o w).2 = w) : (Prog.op f).Ensures (refreshRules N cj) (fun _ _ => True) w :=
  ensures_op (A := fun _ => True) (fun _ _ => trivial) trivial
    fun w _ hw o _ => by
      rw [hf]
      exact ⟨hw, trivial⟩

/-- With the journal looked for while its login is still current, a reply that is left is in
it. -/
theorem ensures_lookForJournal (hw : s.Fresh w) : lookForJournal.Ensures (refreshRules N cj)
    (fun a w => (a = .found → s.Stands s.InFile w) ∧
      (a = .missing → s.Stands (fun _ _ => False) w)) w := by
  refine ensures_op (A := s.Fresh) Fresh.others hw fun w hfresh hw o _ => ?_
  have hleft : ∀ r ∈ w.journaled, r.loginId = s.loginId → w.now.Took r ∨
      w.now.journal = .value r.toJson ∧ s.Pends r := by
    intro r hr hlogin
    refine (hw.visible.kept r hr (hlogin ▸ hfresh.login)).imp (fun ht => ht) fun hp => ?_
    obtain ⟨htoken, hjournal⟩ := hfresh.same hfresh.login
    exact ⟨hp.journal, Option.some.inj (htoken.symm.trans hp.token), hjournal ▸ hp.id⟩
  have hours : s.Ours { w with loaded := false } := ⟨hfresh.id, .inl hfresh.login⟩
  have hsame : s.Same { w with loaded := false } := ⟨hfresh.journalId, hfresh.same⟩
  refine ⟨⟨hw.files, hw.replies, hw.requests, hw.activating⟩, fun _ => ⟨⟨hours, ?_⟩, hsame⟩,
    fun ha => ⟨⟨hours, ?_⟩, hsame⟩⟩
  · intro r hr hlogin
    exact (hleft r hr hlogin).imp_right fun h => ⟨.inl h.1, h.2⟩
  · intro r hr hlogin
    refine (hleft r hr hlogin).imp_right fun h => ?_
    have hfound : w.now.journal.isFound = true := by
      rw [h.1]
      rfl
    simp only [hfound, if_true] at ha
    split at ha <;> cases ha

/-- What was read of the journal is known. -/
def Reads (cj : Cjson) (pending : Option Json) (w : RefreshDir) : Prop :=
  ∀ j ∈ pending, (∀ id, refreshString (some j) "refreshId" = some id → id ∈ w.ids) ∧
    ∀ body, refreshString (some j) "responseBody" = some body → DistinctBody cj body

theorem ensures_readJournal (hw : s.Stands s.InFile w) : readJournal.Ensures (refreshRules N cj)
    (fun pending w => s.Stands (s.InValue pending) w ∧ Reads cj pending w) w := by
  refine ensures_op (A := s.Stands s.InFile)
    (Stands.others fun j r h => ⟨.inr rfl, h.2⟩) hw fun w hstands hw o _ => ⟨hw, ?_, ?_⟩
  · refine hstands.imp fun r _ hin => ⟨fun v hv => ?_, hin.2⟩
    dsimp only at hv
    split at hv
    · cases hv
    · rcases hin.1 with hj | hj
      · rw [hj] at hv
        exact (Option.some.inj hv).symm
      · rw [hj] at hv
        cases hv
  · intro j hj
    dsimp only at hj
    split at hj
    · cases hj
    · exact hw.visible.journal j hj

theorem ensures_retire (hw : s.Stands (fun _ _ => False) w) : retire.Ensures (refreshRules N cj)
    (fun _ w => s.Stands (fun _ _ => False) w) w := by
  refine ensures_op (A := s.Stands fun _ _ => False) (Stands.others fun _ _ h => h) hw
    fun w hstands hw o _ => ?_
  split
  · exact ⟨hw, hstands⟩
  split
  · exact ⟨hw, hstands⟩
  · have ho := RefreshDir.Others.write_missing w o.write
    refine ⟨hw.write (fun _ h => h) (hw.visible.withJournal RefreshFiles.known_missing
      fun r hr hlogin => .inl ?_) hw.activating _, hstands.others (fun _ _ h => h) ho⟩
    exact Clear.took hstands.left hr hlogin

theorem ensures_newId {X : JournalFile → RefreshReply → Prop} (hX : ∀ j r, X j r → X .missing r)
    (hw : s.Stands X w) : newId.Ensures (refreshRules N cj)
    (fun r w => s.Stands X w ∧ ∀ id ∈ r, id ∈ w.ids ∧ s.session.refreshJournalId ≠ some id) w := by
  refine ensures_step (A := s.Stands X) (F := fun o w => w.isNew o.newId = true)
    (f := fun o w => (if o.ok then some o.newId else none, { w with ids := o.newId :: w.ids }))
    (fun o w w' h => ?_) (Stands.others hX) hw fun w hstands hw o hnew => ?_
  · split at h
    · rename_i hnew
      exact ⟨hnew, (Option.some.inj h).symm⟩
    · cases h
  · have hids : ∀ id ∈ w.ids, id ∈ o.newId :: w.ids := fun id h => List.mem_cons_of_mem _ h
    have ho : w.Others { w with ids := o.newId :: w.ids } :=
      ⟨rfl, hids, rfl, .inl rfl, rfl, .inl (.refl _)⟩
    refine ⟨hw.withFiles hids (hw.files.mono fun _ hv => hv.mono hids) hw.activating,
      hstands.others hX ho, fun id hid => ?_⟩
    dsimp only at hid
    split at hid
    · obtain rfl := Option.some.inj hid
      refine ⟨List.mem_cons_self, fun he => ?_⟩
      exact (RefreshDir.isNew_iff.mp hnew).2 (hstands.same.journalId _ he)
    · cases hid

theorem ensures_attempt {X : JournalFile → RefreshReply → Prop} (hX : ∀ j r, X j r → X .missing r)
    {id : String} (hid : id ∈ w.ids) (hw : s.Stands X w) :
    attempt.Ensures (refreshRules N cj) (fun _ w => s.Stands X w ∧ id ∈ w.ids) w :=
  ensures_op (A := fun w => s.Stands X w ∧ id ∈ w.ids)
    (fun h ho => ⟨h.1.others hX ho, ho.ids _ h.2⟩) ⟨hw, hid⟩ fun _ h hw _ _ => ⟨hw, h⟩

/-- A request goes out where no reply is left. -/
theorem ensures_post {id : String} (hid : id ∈ w.ids) (hw : s.Stands (fun _ _ => False) w) :
    (post s).Ensures (refreshRules N cj) (fun resp w => s.Stands (fun _ _ => False) w ∧
      id ∈ w.ids ∧ ∀ body, resp.body = some body → DistinctBody cj body) w := by
  refine ensures_op (A := fun w => s.Stands (fun _ _ => False) w ∧ id ∈ w.ids)
    (fun h ho => ⟨h.1.others (fun _ _ h => h) ho, ho.ids _ h.2⟩) ⟨hw, hid⟩ fun w h hw o ho => ?_
  split
  · exact ⟨hw, h.1, h.2, fun body hbody => nomatch hbody⟩
  · refine ⟨⟨hw.files, hw.replies, fun q hq => ?_, hw.activating⟩,
      ⟨⟨⟨h.1.left.id, h.1.left.other⟩, h.1.left.left⟩, ⟨h.1.same.journalId, h.1.same.same⟩⟩,
      h.2, ho⟩
    rcases List.mem_append.mp hq with hq | hq
    · exact hw.requests q hq
    · obtain rfl := List.mem_singleton.mp hq
      exact fun r hr hlogin => (h.1.left.left r hr hlogin).resolve_right False.elim

/-! ### A reply -/

/-- The reply is to a request that the call made, or to one like it before a crash. -/
structure Asked (cj : Cjson) (s : Loaded) (r : RefreshReply) : Prop extends s.Pends r where
  loginId : r.loginId = s.loginId
  body : DistinctBody cj r.responseBody

variable {r : RefreshReply}

theorem known_toJson {ids : List String} (hid : r.refreshId ∈ ids)
    (hbody : DistinctBody cj r.responseBody) : (JournalFile.value r.toJson).Known cj ids := by
  intro pending hp
  obtain rfl := Option.some.inj hp
  refine ⟨fun id h => ?_, fun body h => ?_⟩
  · obtain rfl : r.refreshId = id := Option.some.inj h
    exact hid
  · obtain rfl : r.responseBody = body := Option.some.inj h
    exact hbody

/-- With the reply in the journal it is pending. -/
theorem pending_journal (hr : Asked cj s r) (hsame : s.Same w)
    (hlogin : loginIdOf w.now.session = some s.loginId) :
    RefreshFiles.Pending { w.now with journal := .value r.toJson } r := by
  obtain ⟨htoken, hjournal⟩ := hsame.same hlogin
  exact ⟨rfl, htoken.trans (congrArg some hr.token), fun he => hr.id (hjournal.symm.trans he)⟩

theorem journaled_sound (hr : Asked cj s r) (hstands : s.Stands (fun _ r' => r' = r) w)
    (hid : r.refreshId ∈ w.ids) (hw : w.Sound N cj) :
    RefreshFiles.Sound { w.now with journal := .value r.toJson } N cj w.ids w.journaled := by
  refine hw.visible.withJournal (known_toJson hid hr.body) fun r' hmem hlogin => ?_
  rcases hstands.left.other with hown | hother
  · have he : r'.loginId = s.loginId := Option.some.inj (hlogin.symm.trans hown)
    rcases hstands.left.left r' hmem he with ht | rfl
    · exact .inl ht
    · exact .inr (pending_journal hr hstands.same hown)
  · exact absurd hlogin (hother r' hmem)

theorem ensures_writeJournal (hr : Asked cj s r) (hid : r.refreshId ∈ w.ids)
    (hw : s.Stands (fun _ r' => r' = r) w) : (writeJournal r).Ensures (refreshRules N cj)
    (fun ok w => ok = true → s.Stands (fun _ r' => r' = r) w ∧ r.refreshId ∈ w.ids ∧
      r ∈ w.journaled) w := by
  refine ensures_step (A := fun w => s.Stands (fun _ r' => r' = r) w ∧ r.refreshId ∈ w.ids)
    (F := fun _ w => w.activating = false) (fun o w w' h => ?_)
    (fun h ho => ⟨h.1.others (fun _ _ h => h) ho, ho.ids _ h.2⟩) ⟨hw, hid⟩
    fun w h hw o hfree => ?_
  · split at h
    · cases h
    · rename_i hfree
      exact ⟨by simpa using hfree, (Option.some.inj h).symm⟩
  · obtain ⟨hstands, hid⟩ := h
    have hf := journaled_sound hr hstands hid hw
    have hnever : ∀ {P : Prop}, w.activating = true → P := fun hact => by
      rw [hfree] at hact
      cases hact
    unfold journalOn
    dsimp only
    split
    · rename_i hok
      rw [Disk.write_ok _ _ hok]
      have hlogin : ∀ r' ∈ w.journaled ++ [r], r'.loginId ∈ w.ids := by
        intro r' hr'
        rcases List.mem_append.mp hr' with hr' | hr'
        · exact hw.replies r' hr'
        · obtain rfl := List.mem_singleton.mp hr'
          exact hr.loginId ▸ hstands.left.id
      refine ⟨⟨?_, hlogin, hw.requests, hnever⟩, fun _ => ⟨⟨⟨⟨hstands.left.id, ?_⟩, ?_⟩,
        hstands.same.journalId, hstands.same.same⟩, hid,
        List.mem_append_right _ List.mem_cons_self⟩⟩
      · intro f hmem
        obtain rfl := List.mem_singleton.mp hmem
        refine ⟨hf.isOver, hf.loginId, hf.journalId, hf.journal, fun r' hr' he => ?_, fun c hc =>
          (hf.commits c hc).imp_right (List.mem_append_left _)⟩
        rcases List.mem_append.mp hr' with hr' | hr'
        · exact hf.kept r' hr' he
        · obtain rfl := List.mem_singleton.mp hr'
          exact .inr (pending_journal hr hstands.same (hr.loginId ▸ he))
      · rcases Decidable.em (loginIdOf w.now.session = some s.loginId) with hown | hown
        · exact .inl hown
        · refine .inr fun r' hr' he => ?_
          rcases List.mem_append.mp hr' with hr' | hr'
          · exact hstands.left.other.resolve_left hown r' hr' he
          · obtain rfl := List.mem_singleton.mp hr'
            exact hown (hr.loginId ▸ he)
      · intro r' hr' he
        rcases List.mem_append.mp hr' with hr' | hr'
        · exact hstands.left.left r' hr' he
        · exact .inr (List.mem_singleton.mp hr')
    · refine ⟨?_, fun h => nomatch h⟩
      have hsound := hw.write (fun _ h => h) hf hnever o.write
      exact ⟨hsound.files, hsound.replies, hsound.requests, hsound.activating⟩

/-! ### The tokens -/

theorem distinct_item {j v : Json} {key : String} (h : j.distinct = true)
    (hv : j.getObjectItemCaseSensitive key = some v) : v.distinct = true := by
  obtain ⟨f, hf, rfl⟩ := Option.map_eq_some_iff.mp hv
  cases j with
  | obj fs => exact (Json.distinct_obj.mp h).2 f (List.mem_of_find?_eq_some hf)
  | null | bool _ | num _ | str _ | arr _ => cases hf

variable {t : TokenV3IssueResult}

theorem distinct_raw {body : String} (hbody : DistinctBody cj body)
    (ht : tokensIn cj body = some t) : t.raw.distinct = true := by
  unfold tokensIn parseTokenV3 at ht
  simp only [Option.bind_eq_bind, Option.bind_eq_some_iff] at ht
  obtain ⟨data, hdata, ht⟩ := ht
  have hraw : t.raw = data := by
    split at ht
    · cases ht
    · simp only [Option.bind_eq_some_iff] at ht
      obtain ⟨access, -, ht⟩ := ht
      exact (congrArg TokenV3IssueResult.raw (Option.some.inj ht)).symm
  have hitem : ∀ d, (cj.parse body).bind (·.getObjectItemCaseSensitive "data") = some d →
      d.distinct = true := by
    intro d hd
    obtain ⟨root, hroot, hd⟩ := Option.bind_eq_some_iff.mp hd
    exact distinct_item (hbody root hroot) hd
  rw [hraw]
  unfold issuedIn at hdata
  dsimp only at hdata
  split at hdata
  · obtain ⟨d, hd, hdata⟩ := Option.bind_eq_some_iff.mp hdata
    exact distinct_item (hitem d hd) hdata
  · exact hitem data hdata

theorem applyTokenV3_distinct {body : String} (hbody : DistinctBody cj body)
    (ht : tokensIn cj body = some t) (id : String) {session : Session} (hd : session.Distinct) :
    (applyTokenV3 t id session).Distinct := by
  have hpolicy : ∀ j, t.raw.getObjectItemCaseSensitive "refreshApiRetryPolicy" = some j →
      j.distinct = true := fun j hj => distinct_item (distinct_raw hbody ht) hj
  simp only [Session.Distinct, Session.fields, List.forall_mem_cons, FieldValue.Distinct, true_and,
    and_true, List.not_mem_nil, false_implies, implies_true] at hd ⊢
  refine ⟨hd.1, hd.2.1, hd.2.2.1, hd.2.2.2.1, fun j hj => ?_, hd.2.2.2.2.2⟩
  obtain ⟨hitem, -⟩ := Option.filter_eq_some_iff.mp hj
  exact hpolicy j hitem

/-- A save compares the login with the one of the session that was loaded. -/
theorem get_loginId_baseline (hN : CaseDistinct N) (hkeys : ∀ k ∈ sessionKeys, k ∈ N)
    {s₀ : Session} {id : String} (hsnap : s₀.snapshot.Over N) (hd : s₀.Distinct)
    (hid : loginIdOf (some s₀.snapshot) = some id) :
    (sessionToJson s₀).get "loginId" = some (.str id) := by
  have hfind : s₀.fields.find? (fun f => f.1 == "loginId") = none := by
    rw [List.find?_eq_none]
    intro f hf he
    rw [beq_iff_eq] at he
    exact loginId_notMem (he ▸ s₀.fields_keys ▸ List.mem_map_of_mem hf)
  have hget := (sessionToJson_get hN hkeys hsnap hd).2 "loginId"
  rw [hfind] at hget
  obtain ⟨root, hroot, hbefore⟩ := loginIdOf_eq_some hid
  obtain rfl := Option.some.inj hroot
  exact hget.trans hbefore

/-- The login of the file that a save goes into. -/
theorem login_of_save (hN : CaseDistinct N) (hkeys : ∀ k ∈ sessionKeys, k ∈ N) {s' s₀ : Session}
    {current : Fields} {id : String} (hsnap : s₀.snapshot.Over N) (hd : s₀.Distinct)
    (hp : sessionParse s'.snapshot = some s₀) (hid : loginIdOf (some s₀.snapshot) = some id)
    {o : WriteResult} (hok : (sessionSave (some current) s' o).1 = true) :
    loginIdOf (some current) = some id := by
  have hbase := get_loginId_baseline hN hkeys hsnap hd hid
  simp only [sessionSave, hp, hbase] at hok
  split at hok
  · rename_i hsame
    unfold sameLogin at hsame
    split at hsame
    · rename_i hnone _
      cases hnone
    · rename_i a b hbefore hnow
      obtain rfl : id = a := Json.str.inj (Option.some.inj hbefore)
      rw [Bool.and_eq_true, beq_iff_eq] at hsame
      exact loginIdOf_of_get (hsame.2 ▸ hnow)
    · cases hsame
  · cases hok

/-- A save of the tokens of a reply merges them into the file that is there. -/
theorem merged_of_save (hN : CaseDistinct N) (hkeys : ∀ k ∈ sessionKeys, k ∈ N) (hs : s.Sound N)
    (hbody : DistinctBody cj r.responseBody) (ht : tokensIn cj r.responseBody = some t)
    (hover : ∀ root ∈ w.now.session, root.Over N) {file : Fields}
    (hsave : sessionSave w.now.session (applyTokenV3 t r.refreshId s.session) .written =
      (true, some file)) :
    file.Over N ∧ loginIdOf w.now.session = some s.loginId ∧ ∃ current,
      w.now.session = some current ∧
        Merged s.session (applyTokenV3 t r.refreshId s.session) current file := by
  have hp : sessionParse (applyTokenV3 t r.refreshId s.session).snapshot = some s.session :=
    hs.parsed
  rcases sessionSave_cases hp w.now.session .written with ⟨current, hc, h⟩ | h
  · obtain ⟨hmerged, hm⟩ := sessionMerge_merged hN hkeys
      (show (applyTokenV3 t r.refreshId s.session).snapshot = s.session.snapshot from rfl)
      hs.isOver hs.distinct (applyTokenV3_distinct hbody ht r.refreshId hs.distinct)
      (hover current hc)
    have hfile : file = sessionMerge (sessionToJson s.session)
        (sessionToJson (applyTokenV3 t r.refreshId s.session)) current := by
      rw [h] at hsave
      exact (Option.some.inj (congrArg Prod.snd hsave)).symm
    rw [← hfile] at hmerged hm
    have hok : (sessionSave (some current) (applyTokenV3 t r.refreshId s.session) .written).1 =
        true := by
      rw [← hc, hsave]
    have hlogin := login_of_save hN hkeys hs.isOver hs.distinct hp hs.loginId hok
    exact ⟨hmerged, hc ▸ hlogin, current, hc, hm⟩
  · rw [h] at hsave
    cases congrArg Prod.fst hsave

/-- The access token is that of the reply, or was it when the call loaded the session and is
left as it is. -/
theorem access_of_merged {current file : Fields}
    (hm : Merged s.session (applyTokenV3 t r.refreshId s.session) current file) :
    accessTokenOf (some file) = some t.accessToken ∨
      s.session.accessToken = some t.accessToken ∧
        accessTokenOf (some file) = accessTokenOf (some current) := by
  rcases Decidable.em (s.session.accessToken = some t.accessToken) with he | hne
  · refine .inr ⟨he, ?_⟩
    rw [accessTokenOf, accessTokenOf, Option.bind_some, Option.bind_some,
      hm.unchanged "accessToken" (.str s.session.accessToken) (by simp [Session.fields])
        (by simp [Session.fields, applyTokenV3, he])]
  · have hchanged := hm.changed "accessToken" (.str s.session.accessToken)
      (.str (some t.accessToken)) (by simp [Session.fields])
      (by simp [Session.fields, applyTokenV3]) hne trivial trivial
    refine .inl ?_
    rw [accessTokenOf, Option.bind_some, hchanged]
    rfl

/-- What a save of the tokens of a reply leaves of the session. -/
theorem saved_tokens (hN : CaseDistinct N) (hkeys : ∀ k ∈ sessionKeys, k ∈ N) (hs : s.Sound N)
    (hr : Asked cj s r) (hsame : s.Same w) (ht : tokensIn cj r.responseBody = some t)
    (hover : ∀ root ∈ w.now.session, root.Over N) {file : Fields}
    (hsave : sessionSave w.now.session (applyTokenV3 t r.refreshId s.session) .written =
      (true, some file)) :
    file.Over N ∧ loginIdOf w.now.session = some s.loginId ∧
      Commit.Right cj ⟨r, s.session, file⟩ := by
  obtain ⟨hmerged, hlogin, current, hc, hm⟩ := merged_of_save hN hkeys hs hr.body ht hover hsave
  obtain ⟨htoken, -⟩ := hsame.same hlogin
  refine ⟨hmerged, hlogin, ?_, ?_, t, ht, ?_, ?_⟩
  · have hkept : loginIdOf (some file) = loginIdOf (some current) :=
      loginIdOf_congr (hm.unknown "loginId" loginId_notMem)
    exact (hkept.trans (hc ▸ hlogin)).trans (congrArg some hr.loginId.symm)
  · have hjournal := hm.changed "refreshJournalId" (.str s.session.refreshJournalId)
      (.str (some r.refreshId)) (by simp [Session.fields])
      (by simp [Session.fields, applyTokenV3]) hr.id trivial trivial
    rw [journalIdOf, Option.bind_some, hjournal]
    rfl
  · have hkeep : t.refreshToken.or s.session.refreshToken = s.session.refreshToken →
        refreshTokenOf (some file) = some s.refreshToken := by
      intro he
      rw [← htoken, hc, refreshTokenOf, refreshTokenOf, Option.bind_some, Option.bind_some,
        hm.unchanged "refreshToken" (.str s.session.refreshToken) (by simp [Session.fields])
          (by simp [Session.fields, applyTokenV3, he])]
    cases hnew : t.refreshToken with
    | none =>
      rw [Option.getD_none, ← hr.token]
      exact hkeep (by rw [hnew, Option.none_or])
    | some new =>
      rw [Option.getD_some]
      rcases Decidable.em (new = s.refreshToken) with rfl | hne
      · exact hkeep (by rw [hnew, Option.some_or, hs.refreshToken])
      · have hchanged := hm.changed "refreshToken" (.str s.session.refreshToken)
          (.str (some new)) (by simp [Session.fields])
          (by simp [Session.fields, applyTokenV3, hnew])
          (fun he => hne (Option.some.inj (hs.refreshToken.symm.trans he)).symm) trivial trivial
        rw [refreshTokenOf, Option.bind_some, hchanged]
        rfl
  · exact (access_of_merged hm).imp_right And.left

theorem ensures_persist (hN : CaseDistinct N) (hkeys : ∀ k ∈ sessionKeys, k ∈ N) (hs : s.Sound N)
    (hr : Asked cj s r) (ht : tokensIn cj r.responseBody = some t)
    (hw : s.Stands (fun _ r' => r' = r) w) (hid : r.refreshId ∈ w.ids) (hmem : r ∈ w.journaled) :
    (persist r s.session (applyTokenV3 t r.refreshId s.session)).Ensures (refreshRules N cj)
      (fun ok w => ok = true → s.Clear w) w := by
  refine ensures_step
    (A := fun w => s.Stands (fun _ r' => r' = r) w ∧ r.refreshId ∈ w.ids ∧ r ∈ w.journaled)
    (F := fun _ w => w.activating = false) (fun o w w' h => ?_)
    (fun h ho => ⟨h.1.others (fun _ _ h => h) ho, ho.ids _ h.2.1, ho.journaled ▸ h.2.2⟩)
    ⟨hw, hid, hmem⟩ fun w h hw o hfree => ?_
  · split at h
    · cases h
    · rename_i hfree
      exact ⟨by simpa using hfree, (Option.some.inj h).symm⟩
  · obtain ⟨hstands, hid, hmem⟩ := h
    unfold persistOn
    split
    · rename_i file hsave
      obtain ⟨hover, hlogin, hright⟩ :=
        saved_tokens hN hkeys hs hr hstands.same ht hw.visible.isOver hsave
      have htook : ∀ r' ∈ w.journaled, r'.loginId = s.loginId →
          RefreshFiles.Took { w.now with
            session := some file
            commits := ⟨r, s.session, file⟩ :: w.now.commits } r' := by
        intro r' hr' he
        rcases hstands.left.left r' hr' he with ⟨c, hc, hcr⟩ | rfl
        · exact ⟨c, List.mem_cons_of_mem _ hc, hcr⟩
        · exact ⟨_, List.mem_cons_self, rfl⟩
      have hlogin' : loginIdOf (some file) = some s.loginId :=
        hright.loginId.trans (congrArg some hr.loginId)
      have hf : RefreshFiles.Sound { w.now with
          session := some file
          commits := ⟨r, s.session, file⟩ :: w.now.commits } N cj w.ids w.journaled := by
        refine ⟨fun root hroot => Option.some.inj hroot ▸ hover, fun id he => ?_, fun id he => ?_,
          hw.visible.journal, fun r' hr' he => .inl (htook r' hr' ?_), fun c hc => ?_⟩
        · exact Option.some.inj (hlogin'.symm.trans he) ▸ hstands.left.id
        · exact Option.some.inj (hright.refreshId.symm.trans he) ▸ hid
        · exact Option.some.inj (he.symm.trans hlogin')
        · rcases List.mem_cons.mp hc with rfl | hc
          · exact ⟨hright, hmem⟩
          · exact hw.visible.commits c hc
      have hsound := hw.write (fun _ h => h) hf
        (fun hact => by rw [hfree] at hact; cases hact) o.write
      refine ⟨⟨hsound.files, hsound.replies, hsound.requests, hsound.activating⟩, fun hok => ?_⟩
      dsimp only at hok ⊢
      rw [Disk.write_ok _ _ hok]
      exact ⟨⟨hstands.left.id, .inl hlogin'⟩, fun r' hr' he => .inl (htook r' hr' he)⟩
    · exact ⟨⟨hw.files, hw.replies, hw.requests, hw.activating⟩, fun h => nomatch h⟩

theorem ensures_unlink (hw : s.Clear w) :
    unlink.Ensures (refreshRules N cj) (fun _ w => s.Clear w) w := by
  refine ensures_op (A := s.Clear) (Left.others fun _ _ h => h) hw fun w hclear hw o _ => ?_
  split
  · refine ⟨hw.write (fun _ h => h) (hw.visible.withJournal RefreshFiles.known_missing
      fun r hr hlogin => .inl (Clear.took hclear hr hlogin)) hw.activating .unsynced, ?_⟩
    exact hclear.others (fun _ _ h => h) (RefreshDir.Others.write_missing w .unsynced)
  · exact ⟨hw, hclear⟩

/-! ## A call -/

theorem ensures_commitReply (hN : CaseDistinct N) (hkeys : ∀ k ∈ sessionKeys, k ∈ N)
    (hs : s.Sound N) (hr : Asked cj s r) (hid : r.refreshId ∈ w.ids)
    (hw : s.Stands (fun _ r' => r' = r) w) :
    (commitReply cj s r).Ensures (refreshRules N cj) AllTaken w := by
  refine (ensures_writeJournal hr hid hw).bind fun ok w hw => ?_
  cases ok with
  | false => exact .pure fun h => nomatch h
  | true =>
    obtain ⟨hstands, hid, hmem⟩ := hw rfl
    simp only [Bool.not_true, Bool.false_eq_true, if_false]
    cases ht : tokensIn cj r.responseBody with
    | none => exact .pure fun h => nomatch h
    | some t =>
      refine (ensures_persist hN hkeys hs hr ht hstands hid hmem).bind fun ok w hw => ?_
      cases ok with
      | false => exact .pure fun h => nomatch h
      | true => exact (ensures_unlink (hw rfl)).bind fun _ w hclear => .pure (hclear.allTaken _)

/-- What a call knows once the journal is dealt with. -/
def Recovered (cj : Cjson) (s : Loaded) : Recovery → RefreshDir → Prop
  | .stop, _ => True
  | .fresh, w => s.Stands (fun _ _ => False) w
  | .committed, w => s.Clear w
  | .replay body id, w => id ∈ w.ids ∧
      s.Stands (fun _ r => r = ⟨s.loginId, id, s.refreshToken, body⟩) w ∧
      Asked cj s ⟨s.loginId, id, s.refreshToken, body⟩

theorem ensures_retireAs {e : Recovery} (he : e = .fresh ∨ e = .committed)
    (hw : s.Stands (fun _ _ => False) w) :
    (retireAs e).Ensures (refreshRules N cj) (Recovered cj s) w := by
  refine (ensures_retire hw).bind fun ok w hw => ?_
  cases ok with
  | false => exact .pure trivial
  | true =>
    rcases he with rfl | rfl
    · exact .pure hw
    · exact .pure hw.left

theorem ensures_recoverFrom {pending : Option Json} (hread : Reads cj pending w)
    (hw : s.Stands (s.InValue pending) w) :
    (recoverFrom cj s pending).Ensures (refreshRules N cj) (Recovered cj s) w := by
  unfold recoverFrom
  dsimp only
  cases pending with
  | none => exact .pure trivial
  | some j =>
    have hvalue : ∀ r, s.InValue (some j) w.now.journal r → j = r.toJson ∧ s.Pends r :=
      fun r h => ⟨h.1 j rfl, h.2⟩
    split
    · -- A journal of another login has no reply to this one.
      rename_i howner
      refine ensures_retireAs (.inl rfl) (hw.imp fun r hlogin h => ?_)
      obtain ⟨rfl, -⟩ := hvalue r h
      have hany : (some r.loginId).any (· ≠ s.loginId) = true := howner
      rw [Option.any_some, decide_eq_true_eq] at hany
      exact hany hlogin
    split
    · -- A reply that is pending is not the one the session has.
      rename_i hcommitted
      refine ensures_retireAs (.inr rfl) (hw.imp fun r _ h => ?_)
      obtain ⟨rfl, hpends⟩ := hvalue r h
      rw [Bool.and_eq_true, beq_iff_eq] at hcommitted
      exact hpends.id hcommitted.2.symm
    · rename_i hnot
      split
      · rename_i previous raw hprevious hraw
        obtain ⟨hids, hbody⟩ := hread j rfl
        split
        · rename_i htoken
          cases hid : refreshString (some j) "refreshId" with
          | some id =>
            have hne : s.session.refreshJournalId ≠ some id := by
              intro he
              rw [hid, he] at hnot
              simp at hnot
            refine .pure ⟨hids id hid, hw.imp fun r hlogin h => ?_,
              ⟨⟨rfl, hne⟩, rfl, hbody raw hraw⟩⟩
            obtain ⟨rfl, -⟩ := hvalue r h
            obtain rfl : r.refreshId = id := Option.some.inj hid
            obtain rfl : r.responseBody = raw := Option.some.inj hraw
            obtain rfl : r.previousRefreshToken = previous := Option.some.inj hprevious
            rw [← hlogin, ← htoken]
          | none =>
            have hclear : s.Stands (fun _ _ => False) w := by
              refine hw.imp fun r _ h => ?_
              obtain ⟨rfl, -⟩ := hvalue r h
              cases hid
            refine (ensures_newId (fun _ _ h => h) hclear).bind fun id w hw => ?_
            cases id with
            | none => exact .pure trivial
            | some id =>
              obtain ⟨hmem, hne⟩ := hw.2 id rfl
              exact .pure ⟨hmem, hw.1.imp fun _ _ h => h.elim, ⟨⟨rfl, hne⟩, rfl, hbody raw hraw⟩⟩
        · rename_i htoken
          refine ensures_retireAs ?_ (hw.imp fun r _ h => ?_)
          · split
            · exact .inr rfl
            · exact .inl rfl
          · obtain ⟨rfl, hpends⟩ := hvalue r h
            obtain rfl : r.previousRefreshToken = previous := Option.some.inj hprevious
            exact htoken hpends.token.symm
      · exact .pure trivial

theorem ensures_recoverRefresh (hw : s.Fresh w) :
    (recoverRefresh cj s).Ensures (refreshRules N cj) (Recovered cj s) w := by
  refine (ensures_lookForJournal hw).bind fun a w hw => ?_
  cases a with
  | missing => exact .pure (hw.2 rfl)
  | error => exact .pure trivial
  | found =>
    exact (ensures_readJournal (hw.1 rfl)).bind fun pending w hw => ensures_recoverFrom hw.2 hw.1

theorem ensures_requestTokens (hN : CaseDistinct N) (hkeys : ∀ k ∈ sessionKeys, k ∈ N)
    (hs : s.Sound N) (hw : s.Stands (fun _ _ => False) w) :
    (requestTokens cj s).Ensures (refreshRules N cj) AllTaken w := by
  refine (ensures_newId (fun _ _ h => h) hw).bind fun id w hw => ?_
  cases id with
  | none => exact .pure fun h => nomatch h
  | some id =>
    obtain ⟨hid, hne⟩ := hw.2 id rfl
    refine (ensures_attempt (fun _ _ h => h) hid hw.1).bind fun ok w hw => ?_
    split
    · exact .pure fun h => nomatch h
    refine (ensures_post hw.2 hw.1).bind fun resp w hw => ?_
    obtain ⟨hstands, hid, hbody⟩ := hw
    split
    · exact .pure fun h => nomatch h
    · rename_i body hresp
      split
      · exact .pure fun h => nomatch h
      · exact ensures_commitReply hN hkeys hs ⟨⟨rfl, hne⟩, rfl, hbody body hresp⟩ hid
          (hstands.imp fun _ _ h => h.elim)

theorem ensures_tokenRefreshLocked (hN : CaseDistinct N) (hkeys : ∀ k ∈ sessionKeys, k ∈ N)
    (hid : "loginId" ∈ N) :
    (tokenRefreshLocked cj).Ensures (refreshRules N cj) AllTaken w := by
  refine (ensures_loginId hN hid).bind fun id w _ => ?_
  split
  · exact .pure fun h => nomatch h
  refine (ensures_look fun _ _ => rfl).bind fun ok w _ => ?_
  split
  · exact .pure fun h => nomatch h
  refine (ensures_load hN hkeys).bind fun r w hw => ?_
  cases r with
  | none => exact .pure fun h => nomatch h
  | some s =>
    obtain ⟨hs, hfresh⟩ := hw s rfl
    refine (ensures_recoverRefresh hfresh).bind fun e w hw => ?_
    cases e with
    | stop => exact .pure fun h => nomatch h
    | committed => exact .pure (Clear.allTaken hw _)
    | replay body id => exact ensures_commitReply hN hkeys hs hw.2.2 hw.1 hw.2.1
    | fresh => exact ensures_requestTokens hN hkeys hs hw

end Refresh

end Enil
