import Enil.Session.Merge

/-!
# Writers side by side

Any number of writers that load the session, change some of its fields and save
it, in any order with patches and rotations of the access token. Every save that
commits is a merge of its own changes into the file it finds, however old the
snapshot it started from.
-/

namespace Enil

open Lib

variable {N : Set String}

structure Edit where
  apply : Session → Session
  keepsSnapshot : ∀ s, (apply s).snapshot = s.snapshot
  keepsDistinct : ∀ s, s.Distinct → (apply s).Distinct

/-- A step on the session file; `i` names a writer. -/
inductive WriterOp (N : Set String) (ι : Type) where
  | load (i : ι)
  | save (i : ι) (e : Edit) (w : WriteResult)
  | patch (p : Fields) (isOver : p.Over N) (w : WriteResult)
  | acceptNextAccess (b : Binding) (previous next : String) (w : WriteResult)

structure Writers (ι : Type) where
  file : Option Fields
  /-- The session each writer loaded last. -/
  loaded : ι → Option Session := fun _ => none

variable {ι : Type} [DecidableEq ι]

/-- Every step holds the session mutex, so steps do not overlap. -/
def writers (N : Set String) (ι : Type) [DecidableEq ι] : Machine (Writers ι) (WriterOp N ι) where
  step st
    | .load i => some { st with loaded := Function.update st.loaded i (sessionLoad st.file) }
    | .save i e w =>
      (st.loaded i).map fun s => { st with file := (sessionSave st.file (e.apply s) w).2 }
    | .patch p _ w => some { st with file := (sessionPatch st.file p w).2 }
    | .acceptNextAccess b previous next w =>
      some { st with file := (acceptNextAccess b st.file previous next w).2 }

/-! ## What the steps keep -/

theorem sessionWrite_cases (file : Option Fields) (next : Fields) (w : WriteResult) :
    (sessionWrite file next w).2 = some next ∨
      (sessionWrite file next w).2 = file ∧ (sessionWrite file next w).1 = false := by
  cases w <;> simp [sessionWrite, WriteResult.ok, WriteResult.visible]

theorem sessionSave_cases {s s₀ : Session} (hp : sessionParse s.snapshot = some s₀)
    (file : Option Fields) (w : WriteResult) :
    (∃ current, file = some current ∧ sessionSave file s w =
        sessionWrite file (sessionMerge (sessionToJson s₀) (sessionToJson s) current) w) ∨
      sessionSave file s w = (false, file) := by
  cases file with
  | none =>
    right
    simp only [sessionSave, hp]
  | some current =>
    simp only [sessionSave, hp]
    split
    · exact .inl ⟨current, rfl, rfl⟩
    · exact .inr rfl

/-- The file after a write, when what was written and what was there are over `N`. -/
theorem sessionWrite_over {file : Option Fields} {next : Fields} {w : WriteResult}
    (hfile : ∀ fs ∈ file, fs.Over N) (hnext : next.Over N) :
    ∀ fs ∈ (sessionWrite file next w).2, fs.Over N := by
  rcases sessionWrite_cases file next w with h | ⟨h, -⟩
  · rw [h]
    intro fs hfs
    exact Option.some.inj hfs ▸ hnext
  · rw [h]
    exact hfile

theorem Fields.Over.foldl_put {p fs : Fields} (hp : ∀ f ∈ p, f.1 ∈ N ∧ f.2.distinct = true)
    (h : fs.Over N) : (p.foldl Fields.put fs).Over N := by
  induction p generalizing fs with
  | nil => exact h
  | cons f p ih =>
    rw [List.forall_mem_cons] at hp
    exact ih hp.2 (h.put hp.1.1 hp.1.2)

theorem acceptNextAccess_over {b : Binding} {file : Option Fields} {previous next : String}
    {w : WriteResult} (hfile : ∀ fs ∈ file, fs.Over N) :
    ∀ fs ∈ (acceptNextAccess b file previous next w).2, fs.Over N := by
  unfold acceptNextAccess
  cases file with
  | none => exact hfile
  | some root =>
    dsimp only
    split
    · split
      · split
        · exact sessionWrite_over hfile ((hfile root rfl).replace rfl)
        · exact hfile
      · exact hfile
    · exact hfile

/-- The file and what was loaded from it are over `N`. -/
structure Writers.Sound (N : Set String) (st : Writers ι) : Prop where
  file : ∀ fs ∈ st.file, fs.Over N
  loaded : ∀ i, ∀ s ∈ st.loaded i, s.snapshot.Over N ∧ s.Distinct ∧
    sessionParse s.snapshot = some s

theorem writers_preserves (hN : CaseDistinct N) (hkeys : ∀ k ∈ sessionKeys, k ∈ N) :
    (writers N ι).Preserves (Writers.Sound N) := by
  intro st st' op hst hstep
  cases op with
  | load i =>
    obtain rfl := Option.some.inj hstep
    refine ⟨hst.file, fun j s hs => ?_⟩
    by_cases hj : j = i
    · subst hj
      simp only [Function.update_self] at hs
      obtain ⟨root, hroot, hparse⟩ := Option.bind_eq_some_iff.mp hs
      obtain rfl := sessionParse_snapshot hparse
      exact ⟨hst.file _ hroot, sessionParse_distinct (hst.file _ hroot).distinct hparse, hparse⟩
    · simp only [Function.update_of_ne hj] at hs
      exact hst.loaded j s hs
  | save i e w =>
    obtain ⟨s, hs, rfl⟩ := Option.map_eq_some_iff.mp hstep
    obtain ⟨hsnap, hd, hparse⟩ := hst.loaded i s hs
    refine ⟨?_, hst.loaded⟩
    rcases sessionSave_cases (s := e.apply s) ((e.keepsSnapshot s).symm ▸ hparse) st.file w with
      ⟨current, hc, h⟩ | h
    · rw [h]
      exact sessionWrite_over hst.file (sessionMerge_merged hN hkeys (e.keepsSnapshot s) hsnap hd
        (e.keepsDistinct s hd) (hst.file current hc)).1
    · rw [h]
      exact hst.file
  | patch p hp w =>
    obtain rfl := Option.some.inj hstep
    refine ⟨?_, hst.loaded⟩
    show ∀ fs ∈ (sessionPatch st.file p w).2, fs.Over N
    unfold sessionPatch
    cases hf : st.file with
    | none => simp
    | some root =>
      have hroot := hst.file root hf
      exact sessionWrite_over (hf ▸ hst.file)
        (hroot.foldl_put fun f hfp => ⟨hp.mem f hfp, hp.distinct f hfp⟩)
  | acceptNextAccess b previous next w =>
    obtain rfl := Option.some.inj hstep
    exact ⟨acceptNextAccess_over hst.file, hst.loaded⟩

/-! ## What a step leaves -/

theorem sessionWrite_get {file : Option Fields} {root next : Fields} {w : WriteResult} {k : String}
    (hf : file = some root) (h : next.get k = root.get k) :
    ((sessionWrite file next w).2.bind fun root => root.get k) = file.bind fun root => root.get k := by
  rcases sessionWrite_cases file next w with he | ⟨he, -⟩
  · rw [he, hf]
    exact h
  · rw [he]

theorem Fields.get_foldl_put {p : Fields} {k : String} (hp : p.get k = none) :
    ∀ {fs : Fields}, fs.Over N → (∀ f ∈ p, f.1 ∈ N ∧ f.2.distinct = true) →
      (p.foldl Fields.put fs).get k = fs.get k := by
  induction p with
  | nil => exact fun _ _ => rfl
  | cons f p ih =>
    intro fs hfs hall
    rw [List.forall_mem_cons] at hall
    rw [Fields.get_cons] at hp
    split at hp
    · cases hp
    · rename_i hne
      rw [List.foldl_cons, ih hp (hfs.put hall.1.1 hall.1.2) hall.2, Fields.get_put_eq hfs,
        Function.update_of_ne (Ne.symm hne)]

theorem acceptNextAccess_get {b : Binding} {file : Option Fields} {previous next : String}
    {w : WriteResult} {k : String} (hk : k ≠ "accessToken") :
    ((acceptNextAccess b file previous next w).2.bind fun root => root.get k) =
      file.bind fun root => root.get k := by
  unfold acceptNextAccess
  cases file with
  | none => rfl
  | some root =>
    dsimp only
    split
    · split
      · split
        · refine sessionWrite_get rfl ?_
          rw [Fields.get_replace, if_neg fun h => hk h.1]
        · rfl
      · rfl
    · rfl

/-- The session and what an edit makes of it agree in the field `k`, if there is one. -/
def Edit.Keeps (e : Edit) (k : String) (s : Session) : Prop :=
  k ∉ sessionKeys ∨ ∃ v, (k, v) ∈ s.fields ∧ (k, v) ∈ (e.apply s).fields

/-- The step leaves the item `k` of the file. -/
def WriterOp.Keeps (k : String) : WriterOp N ι → Prop
  | .load _ => True
  | .save _ e _ => ∀ s, e.Keeps k s
  | .patch p _ _ => p.get k = none
  | .acceptNextAccess _ _ _ _ => k ≠ "accessToken"

section Kept

variable (hN : CaseDistinct N) (hkeys : ∀ k ∈ sessionKeys, k ∈ N)
include hN hkeys

omit [DecidableEq ι] in
theorem sessionSave_get {st : Writers ι} (hst : st.Sound N) {i : ι} {s : Session}
    (hs : st.loaded i = some s) (e : Edit) (w : WriteResult) {k : String} (hk : e.Keeps k s) :
    ((sessionSave st.file (e.apply s) w).2.bind fun root => root.get k) =
      st.file.bind fun root => root.get k := by
  obtain ⟨hsnap, hd, hparse⟩ := hst.loaded i s hs
  rcases sessionSave_cases (s := e.apply s) ((e.keepsSnapshot s).symm ▸ hparse) st.file w with
    ⟨current, hc, h⟩ | h
  · obtain ⟨-, hm⟩ := sessionMerge_merged hN hkeys (e.keepsSnapshot s) hsnap hd
      (e.keepsDistinct s hd) (hst.file current hc)
    rw [h]
    refine sessionWrite_get hc ?_
    rcases hk with hk | ⟨v, hv, hv'⟩
    · exact hm.unknown k hk
    · exact hm.unchanged k v hv hv'
  · rw [h]

theorem writers_keeps {st st' : Writers ι} (hst : st.Sound N) {op : WriterOp N ι} {k : String}
    (hop : op.Keeps k) (hstep : (writers N ι).step st op = some st') :
    (st'.file.bind fun root => root.get k) = st.file.bind fun root => root.get k := by
  cases op with
  | load i =>
    obtain rfl := Option.some.inj hstep
    rfl
  | save i e w =>
    obtain ⟨s, hs, rfl⟩ := Option.map_eq_some_iff.mp hstep
    exact sessionSave_get hN hkeys hst hs e w (hop s)
  | patch p hover w =>
    obtain rfl := Option.some.inj hstep
    show ((sessionPatch st.file p w).2.bind fun root => root.get k) = _
    unfold sessionPatch
    cases hf : st.file with
    | none => rfl
    | some root =>
      exact sessionWrite_get rfl (Fields.get_foldl_put hop (hst.file root hf)
        fun f hfp => ⟨hover.mem f hfp, hover.distinct f hfp⟩)
  | acceptNextAccess b previous next w =>
    obtain rfl := Option.some.inj hstep
    exact acceptNextAccess_get hop

end Kept

/-! ## A file stays -/

theorem sessionWrite_isSome {file : Option Fields} (h : file.isSome) (next : Fields)
    (w : WriteResult) : (sessionWrite file next w).2.isSome := by
  rcases sessionWrite_cases file next w with he | ⟨he, -⟩
  · rw [he]
    rfl
  · rw [he]
    exact h

theorem sessionSave_isSome {file : Option Fields} (h : file.isSome) (s : Session)
    (w : WriteResult) : (sessionSave file s w).2.isSome := by
  unfold sessionSave
  split
  · dsimp only
    split
    · exact sessionWrite_isSome h _ w
    · exact h
  · exact h

theorem writers_isSome {st st' : Writers ι} {op : WriterOp N ι} (h : st.file.isSome)
    (hstep : (writers N ι).step st op = some st') : st'.file.isSome := by
  cases op with
  | load i =>
    obtain rfl := Option.some.inj hstep
    exact h
  | save i e w =>
    obtain ⟨s, hs, rfl⟩ := Option.map_eq_some_iff.mp hstep
    exact sessionSave_isSome h _ w
  | patch p hover w =>
    obtain rfl := Option.some.inj hstep
    show (sessionPatch st.file p w).2.isSome
    obtain ⟨root, hroot⟩ := Option.isSome_iff_exists.mp h
    rw [hroot]
    exact sessionWrite_isSome rfl _ w
  | acceptNextAccess b previous next w =>
    obtain rfl := Option.some.inj hstep
    show (acceptNextAccess b st.file previous next w).2.isSome
    obtain ⟨root, hroot⟩ := Option.isSome_iff_exists.mp h
    rw [hroot]
    unfold acceptNextAccess
    dsimp only
    split
    · split
      · split
        · exact sessionWrite_isSome rfl _ w
        · rfl
      · rfl
    · rfl

/-! ## Every save is a merge -/

/-- After any steps of any writers, a save that commits merges the changes of its
session into the file it finds. -/
theorem save_merges (hN : CaseDistinct N) (hkeys : ∀ k ∈ sessionKeys, k ∈ N)
    {file : Option Fields} (hfile : ∀ fs ∈ file, fs.Over N) {ops : List (WriterOp N ι)}
    {st : Writers ι} (hrun : (writers N ι).run { file := file } ops = some st) {i : ι}
    {s₀ : Session} (hload : st.loaded i = some s₀) (e : Edit) (w : WriteResult)
    (hcommit : (sessionSave st.file (e.apply s₀) w).1 = true) :
    ∃ before after, st.file = some before ∧
      (sessionSave st.file (e.apply s₀) w).2 = some after ∧
      Merged s₀ (e.apply s₀) before after := by
  have hst : st.Sound N := Machine.run_invariant (writers_preserves hN hkeys)
    ⟨hfile, fun _ _ h => by cases h⟩ hrun
  obtain ⟨hsnap, hd, hparse⟩ := hst.loaded i s₀ hload
  rcases sessionSave_cases (s := e.apply s₀) ((e.keepsSnapshot s₀).symm ▸ hparse) st.file w with
    ⟨current, hc, h⟩ | h
  · rw [h] at hcommit ⊢
    refine ⟨current, _, hc, ?_, (sessionMerge_merged hN hkeys (e.keepsSnapshot s₀) hsnap hd
      (e.keepsDistinct s₀ hd) (hst.file current hc)).2⟩
    rcases sessionWrite_cases st.file
        (sessionMerge (sessionToJson s₀) (sessionToJson (e.apply s₀)) current) w with h | ⟨-, h⟩
    · exact h
    · rw [h] at hcommit
      cases hcommit
  · rw [h] at hcommit
    cases hcommit

/-! ## An account with two writers -/

def accountNames : List String := sessionKeys ++ ["loginId", "nativeRevision"]

def AccountNames : Set String := { k | k ∈ accountNames }

theorem accountNames_distinct : CaseDistinct AccountNames := by
  have hn : (accountNames.map Json.foldCase).Nodup := by decide
  exact List.inj_on_of_nodup_map hn

def accountFile : Fields := [
  ("accessToken", .str "access-1"),
  ("refreshToken", .str "refresh-1"),
  ("reqSeq", .num 5),
  ("loginId", .str "login-1"),
  ("nativeRevision", .num 17)]

theorem accountFile_over : accountFile.Over AccountNames where
  nodup := by decide
  mem := by
    have h : ∀ f ∈ accountFile, f.1 ∈ accountNames := by decide
    exact h
  distinct := by decide

/-- What a writer loads from `accountFile`. -/
def accountSession : Session := (sessionParse accountFile).get (by decide)

theorem accountFile_loads : sessionLoad (some accountFile) = some accountSession :=
  (Option.some_get _).symm

def setReqSeq (n : Int) : Edit where
  apply s := { s with reqSeq := n }
  keepsSnapshot _ := rfl
  keepsDistinct s h := by simpa [Session.Distinct, Session.fields, FieldValue.Distinct] using h

def renewTokens (access refresh : String) : Edit where
  apply s := { s with accessToken := some access, refreshToken := some refresh }
  keepsSnapshot _ := rfl
  keepsDistinct s h := by simpa [Session.Distinct, Session.fields, FieldValue.Distinct] using h

/-- Both writers have loaded, and writer 1 has saved new tokens. -/
def renewedAccount : Writers (Fin 2) where
  file := (sessionSave (some accountFile)
    ((renewTokens "access-2" "refresh-2").apply accountSession) .written).2
  loaded := Function.update (Function.update (fun _ => none) 0 (some accountSession)) 1
    (some accountSession)

theorem renewedAccount_run :
    (writers AccountNames (Fin 2)).run { file := some accountFile }
      [.load 0, .load 1, .save 1 (renewTokens "access-2" "refresh-2") .written] =
        some renewedAccount := by
  simp [Machine.run, writers, accountFile_loads, renewedAccount]

/-- Writer 0 saves its counter from the older snapshot. -/
theorem save_merges_after_renewal :
    ∃ before after, renewedAccount.file = some before ∧
      (sessionSave renewedAccount.file ((setReqSeq 6).apply accountSession) .written).2 =
        some after ∧ Merged accountSession ((setReqSeq 6).apply accountSession) before after :=
  save_merges accountNames_distinct (fun k hk => List.mem_append_left _ hk)
    (fun _ hfs => Option.some.inj hfs ▸ accountFile_over) renewedAccount_run
    (i := 0) (by simp [renewedAccount]) (setReqSeq 6) .written (by decide +kernel)

/-- A counter past the integers a double tells apart. -/
def countedFile : Fields := [
  ("accessToken", .str "access-1"),
  ("e2eeSequenceNumber", .num (2 ^ 52))]

/-- What a writer loads from `countedFile`. -/
def countedSession : Session := (sessionParse countedFile).get (by decide)

def setSequenceNumber (n : Int) : Edit where
  apply s := { s with e2eeSequenceNumber := n }
  keepsSnapshot _ := rfl
  keepsDistinct s h := by simpa [Session.Distinct, Session.fields, FieldValue.Distinct] using h

/-- The file after the next number was saved. -/
def countedAfter : Fields :=
  (sessionSave (some countedFile) ((setSequenceNumber (2 ^ 52 + 1)).apply countedSession)
    .written).2.get (by decide)

theorem large_counter_not_saved :
    ¬ ∀ (root : Fields) (s₀ : Session) (e : Edit) (after : Fields),
      sessionLoad (some root) = some s₀ →
      sessionSave (some root) (e.apply s₀) .written = (true, some after) →
      ∀ k a b, (k, a) ∈ s₀.fields → (k, b) ∈ (e.apply s₀).fields → a ≠ b →
        after.get k = b.item := by
  intro hall
  have hsave : sessionSave (some countedFile)
      ((setSequenceNumber (2 ^ 52 + 1)).apply countedSession) .written =
        (true, some countedAfter) :=
    Prod.ext (by decide) (Option.some_get _).symm
  have hget := hall countedFile countedSession (setSequenceNumber (2 ^ 52 + 1)) countedAfter
    (Option.some_get _).symm hsave "e2eeSequenceNumber"
    (.i64Num countedSession.e2eeSequenceNumber) (.i64Num (2 ^ 52 + 1))
    (by simp [Session.fields]) (by simp [Session.fields, setSequenceNumber])
    (fun h => by
      have hne : countedSession.e2eeSequenceNumber ≠ 2 ^ 52 + 1 := by decide
      exact hne (FieldValue.i64Num.inj h))
  have hnum := congrArg (fun j : Option Json => j.bind Json.getNumberValue) hget
  revert hnum
  decide +kernel

end Enil
