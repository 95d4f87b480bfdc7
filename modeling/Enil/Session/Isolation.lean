import Enil.Session.Partial
import Enil.Session.Writers

/-!
# Logins of one account

`enil_session_activate` puts the session of a new login in the place of the old one while
operations of the old login may still run. Each operation works for the login that was
current when it started; what it read of the file carries the login it was read under,
and the writers compare that with the file they find.
-/

namespace Enil

open Lib

variable {N : Set String} {κ : Type}

def loginIdOf (file : Option Fields) : Option String :=
  match file.bind fun root => root.get "loginId" with
  | some (.str id) => some id
  | _ => none

/-- What the native poll patches into the session file after a reply. -/
def pollPatch (globalRevision individualRevision : Option Json) : Fields :=
  (globalRevision.map fun v => ("nativeGlobalRevision", v)).toList ++
    (individualRevision.map fun v => ("nativeIndividualRevision", v)).toList

/-- A step on the session file; `i` names an operation. -/
inductive LoginStep (N : Set String) (κ : Type) where
  | start (i : κ)
  | load (i : κ)
  | save (i : κ) (e : Edit) (w : WriteResult)
  | bind (i : κ)
  | acceptNextAccess (i : κ) (previous next : String) (w : WriteResult)
  | updatePartial (i : κ) (targets : Fields) (w : WriteResult)
  | snapshot (i : κ)
  | completePartial (i : κ) (w : WriteResult)
  | patch (i : κ) (globalRevision individualRevision : Option Json)
      (isOver : (pollPatch globalRevision individualRevision).Over N) (w : WriteResult)
  | loginId (newId : String) (w : WriteResult)
  | activate (root : Fields) (isOver : root.Over N) (w : WriteResult)

/-- The session file and the operations on it. Logins are numbered: `generation` is the
current one, and beside what an operation read stands the login it was read under. -/
structure Logins (κ : Type) extends Writers κ where
  generation : Nat := 0
  /-- The loginIds of earlier logins. -/
  retired : List String := []
  /-- The login an operation works for. -/
  owner : κ → Nat := fun _ => 0
  loadedIn : κ → Nat := fun _ => 0
  bound : κ → Option (Nat × Binding) := fun _ => none
  snapshots : κ → Option (Nat × Fields) := fun _ => none

namespace Logins

variable (st : Logins κ)

/-- No login had this loginId yet. -/
def isNew (id : String) : Bool := id != "" && !st.retired.contains id && loginIdOf st.file != some id

/-- The session of a new login takes the place of the file; a replacement that is visible
counts, whatever the call returns. -/
def activate (root : Fields) (w : WriteResult) : Logins κ :=
  if w.visible then { st with
    file := (sessionWrite st.file root w).2
    generation := st.generation + 1
    retired := (loginIdOf st.file).toList ++ st.retired }
  else { st with file := (sessionWrite st.file root w).2 }

variable [DecidableEq κ]

def step : LoginStep N κ → Option (Logins κ)
  | .start i => some { st with owner := Function.update st.owner i st.generation }
  | .load i => some { st with
      loaded := Function.update st.loaded i (sessionLoad st.file)
      loadedIn := Function.update st.loadedIn i st.generation }
  | .save i e w =>
    (st.loaded i).map fun s => { st with file := (sessionSave st.file (e.apply s) w).2 }
  | .bind i => some { st with
      bound := Function.update st.bound i ((bindIdentity st.file).map fun b => (st.generation, b)) }
  | .acceptNextAccess i previous next w =>
    (st.bound i).map fun b =>
      { st with file := (acceptNextAccess b.2 st.file previous next w).2 }
  | .updatePartial i targets w => some { st with
      file := (updatePartialFullSyncs ((st.bound i).map Prod.snd) st.file targets w).2 }
  | .snapshot i => some { st with
      snapshots := Function.update st.snapshots i (st.file.map fun root => (st.generation, root)) }
  | .completePartial i w =>
    (st.snapshots i).map fun s =>
      { st with file := (completePartialFullSyncs s.2 st.file w).2 }
  | .patch _ globalRevision individualRevision _ w => some { st with
      file := (sessionPatch st.file (pollPatch globalRevision individualRevision) w).2 }
  | .loginId newId w =>
    if st.isNew newId then some { st with file := (sessionLoginId st.file newId w).2 } else none
  | .activate root _ w =>
    match root.get "loginId" with
    | some (.str id) => if st.isNew id then some (st.activate root w) else none
    | _ => none

end Logins

/-- Operations and activations on the session file of one account. -/
def logins (N : Set String) (κ : Type) [DecidableEq κ] : Machine (Logins κ) (LoginStep N κ) where
  step st op := st.step op

/-- enil_session_set_reauth_needed marks the session it loads. -/
def markReauth : Edit where
  apply s := { s with needsReauth := true }
  keepsSnapshot _ := rfl
  keepsDistinct s h := by simpa [Session.Distinct, Session.fields, FieldValue.Distinct] using h

def setReauthNeeded (i : κ) (w : WriteResult) : List (LoginStep N κ) :=
  [.load i, .save i markReauth w]

namespace LoginStep

/-- The operation that writes. -/
def writer : LoginStep N κ → Option κ
  | save i _ _ | acceptNextAccess i _ _ _ | updatePartial i _ _ | completePartial i _
  | patch i _ _ _ _ => some i
  | start _ | load _ | bind _ | snapshot _ | loginId _ _ | activate _ _ _ => none

/-- An operation of an earlier login leaves the file as it is. -/
def Isolated [DecidableEq κ] (st : Logins κ) (op : LoginStep N κ) : Prop :=
  ∀ i ∈ op.writer, st.owner i ≠ st.generation → ∀ st', st.step op = some st' → st'.file = st.file

/-- What the operation compares with the file was read while its own login was current;
a patch compares nothing, so its login still is. -/
def InLogin (st : Logins κ) : LoginStep N κ → Prop
  | save i _ _ => st.loadedIn i = st.owner i
  | acceptNextAccess i _ _ _ => ∀ b ∈ st.bound i, b.1 = st.owner i
  | updatePartial i _ _ => ∃ b ∈ st.bound i, b.1 = st.owner i
  | completePartial i _ => ∀ s ∈ st.snapshots i, s.1 = st.owner i
  | patch i _ _ _ _ => st.owner i = st.generation
  | _ => True

end LoginStep

instance (st : Logins κ) : (op : LoginStep N κ) → Decidable (op.InLogin st)
  | .save i _ _ => inferInstanceAs (Decidable (st.loadedIn i = st.owner i))
  | .acceptNextAccess i _ _ _ => inferInstanceAs (Decidable (∀ b ∈ st.bound i, b.1 = st.owner i))
  | .updatePartial i _ _ => inferInstanceAs (Decidable (∃ b ∈ st.bound i, b.1 = st.owner i))
  | .completePartial i _ => inferInstanceAs (Decidable (∀ s ∈ st.snapshots i, s.1 = st.owner i))
  | .patch i _ _ _ _ => inferInstanceAs (Decidable (st.owner i = st.generation))
  | .start _ | .load _ | .bind _ | .snapshot _ | .loginId _ _ | .activate _ _ _ =>
    inferInstanceAs (Decidable True)

/-! ## The guards -/

/-- No guard takes a file for that of another loginId. -/
theorem guards_other {before now : Option Json} {id : String} (hnow : now = some (.str id))
    (hother : ∀ a, before = some (.str a) → a ≠ id) :
    sameLogin before now = false ∧ bothLogin before now = false := by
  rw [hnow]
  unfold sameLogin bothLogin
  rcases before with _ | (_ | _ | _ | a | _ | _)
  case some.str =>
    have hne : (a == id) = false := beq_false_of_ne (hother a rfl)
    simp [hne]
  all_goals exact ⟨rfl, rfl⟩

theorem binding_other {b : Binding} {root : Fields} {id : String}
    (hnow : root.get "loginId" = some (.str id)) (hother : ∀ a, b.loginId = some a → a ≠ id) :
    b.isMatch root = false := by
  unfold Binding.isMatch
  rw [hnow]
  cases hb : b.loginId with
  | none => rfl
  | some a =>
    have hne : (a == id) = false := beq_false_of_ne (hother a hb)
    simp [hne]

theorem loginIdOf_eq_some {file : Option Fields} {id : String} (h : loginIdOf file = some id) :
    ∃ root, file = some root ∧ root.get "loginId" = some (.str id) := by
  unfold loginIdOf at h
  split at h
  · rename_i a ha
    obtain rfl := Option.some.inj h
    obtain ⟨root, rfl, hroot⟩ := Option.bind_eq_some_iff.mp ha
    exact ⟨root, rfl, hroot⟩
  · cases h

theorem loginIdOf_of_get {root : Fields} {id : String} (h : root.get "loginId" = some (.str id)) :
    loginIdOf (some root) = some id := by
  unfold loginIdOf
  rw [Option.bind_some, h]

theorem loginIdOf_congr {file file' : Option Fields}
    (h : (file'.bind fun root => root.get "loginId") = file.bind fun root => root.get "loginId") :
    loginIdOf file' = loginIdOf file := by
  unfold loginIdOf
  rw [h]

/-! ## The partial maps -/

/-- A file over `N` stays one, and only the two maps change. -/
structure KeepsOthers (N : Set String) (file file' : Option Fields) : Prop where
  isOver : ∀ fs ∈ file', fs.Over N
  others : ∀ k, k ≠ pendingKey → k ≠ completedKey →
    (file'.bind fun root => root.get k) = file.bind fun root => root.get k

theorem KeepsOthers.refl {file : Option Fields} (h : ∀ fs ∈ file, fs.Over N) :
    KeepsOthers N file file := ⟨h, fun _ _ _ => rfl⟩

theorem KeepsOthers.write {root next : Fields} (h : root.Over N) (hn : next.Over N)
    (hk : ∀ k, k ≠ pendingKey → k ≠ completedKey → next.get k = root.get k) (w : WriteResult) :
    KeepsOthers N (some root) (sessionWrite (some root) next w).2 :=
  ⟨sessionWrite_over (fun _ hfs => Option.some.inj hfs ▸ h) hn,
    fun k hkp hkc => sessionWrite_get rfl (hk k hkp hkc)⟩

section Maps

variable (hp : pendingKey ∈ N) (hc : completedKey ∈ N)
include hp hc

theorem Fields.Over.putMaps {root pending completed : Fields} (h : root.Over N)
    (hpd : (Json.obj pending).distinct = true) (hcd : (Json.obj completed).distinct = true) :
    (Enil.putMap (Enil.putMap root pendingKey pending) completedKey completed).Over N :=
  (h.putMap hp hpd).putMap hc hcd

theorem updatePartialFullSyncs_keeps {file : Option Fields} (hf : ∀ fs ∈ file, fs.Over N)
    (b : Option Binding) (targets : Fields) (w : WriteResult) :
    KeepsOthers N file (updatePartialFullSyncs b file targets w).2 := by
  unfold updatePartialFullSyncs
  cases file with
  | none => exact .refl hf
  | some root =>
    have hroot := hf root rfl
    dsimp only
    split
    · exact .refl hf
    · split
      · rename_i pending completed hmp hmc
        split
        · exact .refl hf
        · rename_i pending' needed changed hfold
          have hpd : (Json.obj pending').distinct = true :=
            updateCategory_distinct (partialMap_distinct hroot hmp) hfold
          split
          · exact .write hroot
              (hroot.putMaps hp hc hpd (partialMap_distinct hroot hmc))
              (fun k hkp hkc => get_putMap_putMap root _ _ hkp hkc) w
          · exact .refl hf
      · exact .refl hf

theorem completePartialFullSyncs_keeps {file : Option Fields} (hf : ∀ fs ∈ file, fs.Over N)
    (snapshot : Fields) (w : WriteResult) :
    KeepsOthers N file (completePartialFullSyncs snapshot file w).2 := by
  unfold completePartialFullSyncs
  cases file with
  | none => exact .refl hf
  | some root =>
    have hroot := hf root rfl
    dsimp only
    split
    · split
      · exact .refl hf
      · exact .refl hf
      · split
        · rename_i pending completed hmp hmc
          split
          · exact .refl hf
          · rename_i pending' completed' hfold
            obtain ⟨hpd, hcd⟩ := completeCategory_distinct (partialMap_distinct hroot hmp)
              (partialMap_distinct hroot hmc) hfold
            have hover := hroot.putMaps hp hc hpd hcd
            have hget := fun k hkp hkc => get_putMap_putMap root pending' completed' (k := k) hkp hkc
            split
            · refine .write hroot hover.delete (fun k hkp hkc => ?_) w
              rw [Fields.get_delete hover.nodup, if_neg hkp]
              exact hget k hkp hkc
            · exact .write hroot hover hget w
        · exact .refl hf
      · exact .refl hf
    · exact .refl hf

end Maps

/-! ## What the steps keep -/

/-- A session loaded under another loginId is not saved. -/
theorem sessionSave_other (hN : CaseDistinct N) (hkeys : ∀ k ∈ sessionKeys, k ∈ N)
    {s s₀ : Session} {root : Fields} {id : String} (hsnap : s₀.snapshot.Over N) (hd : s₀.Distinct)
    (hp : sessionParse s.snapshot = some s₀) (hnow : root.get "loginId" = some (.str id))
    (hother : ∀ a, loginIdOf (some s₀.snapshot) = some a → a ≠ id) (w : WriteResult) :
    sessionSave (some root) s w = (false, some root) := by
  have hfind : s₀.fields.find? (fun f => f.1 == "loginId") = none := by
    rw [List.find?_eq_none]
    intro f hf he
    rw [beq_iff_eq] at he
    exact loginId_notMem (he ▸ s₀.fields_keys ▸ List.mem_map_of_mem hf)
  have hget := (sessionToJson_get hN hkeys hsnap hd).2 "loginId"
  rw [hfind] at hget
  have hguard : sameLogin ((sessionToJson s₀).get "loginId") (root.get "loginId") = false := by
    refine (guards_other hnow fun a ha => hother a ?_).1
    exact loginIdOf_of_get (hget.symm.trans ha)
  simp only [sessionSave, hp, hguard]
  rfl

namespace Logins

theorem isNew_iff {st : Logins κ} {id : String} :
    st.isNew id = true ↔ id ≠ "" ∧ id ∉ st.retired ∧ loginIdOf st.file ≠ some id := by
  simp only [isNew, Bool.and_eq_true, bne_iff_ne, Bool.not_eq_true', List.contains_eq_mem,
    decide_eq_false_iff_not, and_assoc]

/-- What was read under login `g` with the loginId `id`. -/
def Acquired (st : Logins κ) (g : Nat) (id : Option String) : Prop :=
  g ≤ st.generation ∧ ∀ a, id = some a →
    if g = st.generation then loginIdOf st.file = some a else a ∈ st.retired

structure Sound (N : Set String) (st : Logins κ) : Prop where
  writers : st.toWriters.Sound N
  current : 0 < st.generation → ∃ id, loginIdOf st.file = some id
  unused : ∀ id, loginIdOf st.file = some id → id ∉ st.retired
  owner : ∀ i, st.owner i ≤ st.generation
  loaded : ∀ i s, st.loaded i = some s → st.Acquired (st.loadedIn i) (loginIdOf (some s.snapshot))
  bound : ∀ i g b, st.bound i = some (g, b) → st.Acquired g b.loginId
  snapshots : ∀ i g root, st.snapshots i = some (g, root) → st.Acquired g (loginIdOf (some root))

variable {st st' : Logins κ}

/-- What was read under an earlier login has another loginId than the file. -/
theorem Sound.other (h : st.Sound N) {g : Nat} {id : Option String} (ha : st.Acquired g id)
    (hg : g ≠ st.generation) : ∃ root c, st.file = some root ∧
      root.get "loginId" = some (.str c) ∧ ∀ a, id = some a → a ≠ c := by
  have hpos : 0 < st.generation := by
    have := ha.1
    omega
  obtain ⟨c, hc⟩ := h.current hpos
  obtain ⟨root, hroot, hget⟩ := loginIdOf_eq_some hc
  refine ⟨root, c, hroot, hget, fun a hid hac => h.unused c hc ?_⟩
  have := ha.2 a hid
  rw [if_neg hg] at this
  exact hac ▸ this

theorem Acquired.withFile {g : Nat} {id : Option String} (h : st.Acquired g id)
    {file : Option Fields} (hid : ∀ a, loginIdOf st.file = some a → loginIdOf file = some a) :
    Acquired { st with file := file } g id := by
  refine ⟨h.1, fun a ha => ?_⟩
  have := h.2 a ha
  show if g = st.generation then loginIdOf file = some a else a ∈ st.retired
  split
  · rename_i hg
    rw [if_pos hg] at this
    exact hid a this
  · rename_i hg
    rw [if_neg hg] at this
    exact this

theorem Sound.withFile (h : st.Sound N) {file : Option Fields} (hover : ∀ fs ∈ file, fs.Over N)
    (hid : ∀ a, loginIdOf st.file = some a → loginIdOf file = some a)
    (hnew : ∀ a, loginIdOf file = some a → a ∉ st.retired) :
    Sound N { st with file := file } where
  writers := ⟨hover, h.writers.loaded⟩
  current := fun hpos => (h.current hpos).imp hid
  unused := hnew
  owner := h.owner
  loaded := fun i s hs => (h.loaded i s hs).withFile hid
  bound := fun i g b hb => (h.bound i g b hb).withFile hid
  snapshots := fun i g root hr => (h.snapshots i g root hr).withFile hid

section Steps

variable [DecidableEq κ] (hN : CaseDistinct N) (hkeys : ∀ k ∈ sessionKeys, k ∈ N)
  (hp : pendingKey ∈ N)
include hN hkeys hp

/-- A write keeps the loginId, and in its login an operation of an earlier one writes nothing. -/
theorem step_writer (hst : st.Sound N) {op : LoginStep N κ} {i : κ} (hop : op.writer = some i)
    (hstep : st.step op = some st') : ∃ file, st' = { st with file := file } ∧
      (∀ fs ∈ file, fs.Over N) ∧
      (file.bind fun root => root.get "loginId") = (st.file.bind fun root => root.get "loginId") ∧
      (op.InLogin st → st.owner i ≠ st.generation → file = st.file) := by
  have hc : completedKey ∈ N := hkeys _ (by decide)
  have hmaps : "loginId" ≠ pendingKey ∧ "loginId" ≠ completedKey := by decide
  cases op with
  | save j e w =>
    obtain rfl := Option.some.inj hop
    obtain ⟨s, hs, rfl⟩ := Option.map_eq_some_iff.mp hstep
    have hwr : (writers N κ).step st.toWriters (.save j e w) =
        some { st.toWriters with file := (sessionSave st.file (e.apply s) w).2 } := by
      show (st.loaded j).map _ = _
      rw [hs]
      rfl
    refine ⟨_, rfl, (writers_preserves hN hkeys hst.writers hwr).file,
      sessionSave_get hN hkeys hst.writers hs e w (.inl loginId_notMem), fun hin hown => ?_⟩
    obtain ⟨root, c, hroot, hget, hother⟩ := hst.other (hst.loaded j s hs) (hin ▸ hown)
    obtain ⟨hsnap, hd, hparse⟩ := hst.writers.loaded j s hs
    rw [hroot, sessionSave_other hN hkeys hsnap hd ((e.keepsSnapshot s).symm ▸ hparse) hget hother]
  | acceptNextAccess j previous next w =>
    obtain rfl := Option.some.inj hop
    obtain ⟨⟨g, b⟩, hb, rfl⟩ := Option.map_eq_some_iff.mp hstep
    refine ⟨_, rfl, acceptNextAccess_over hst.writers.file, acceptNextAccess_get (by decide),
      fun hin hown => ?_⟩
    have hg : g = st.owner j := hin _ hb
    obtain ⟨root, c, hroot, hget, hother⟩ := hst.other (hst.bound j g b hb) (hg ▸ hown)
    rw [hroot]
    simp only [acceptNextAccess, binding_other hget hother, Bool.and_false]
    rfl
  | updatePartial j targets w =>
    obtain rfl := Option.some.inj hop
    obtain rfl := Option.some.inj hstep
    have hk := updatePartialFullSyncs_keeps hp hc hst.writers.file ((st.bound j).map Prod.snd)
      targets w
    refine ⟨_, rfl, hk.isOver, hk.others _ hmaps.1 hmaps.2, ?_⟩
    rintro ⟨⟨g, b⟩, hb, hg⟩ hown
    obtain ⟨root, c, hroot, hget, hother⟩ := hst.other (hst.bound j g b hb)
      fun h => hown (hg.symm.trans h)
    rw [hroot, Option.mem_def.mp hb]
    simp only [updatePartialFullSyncs, Option.map_some, Option.any_some, binding_other hget hother]
    rfl
  | completePartial j w =>
    obtain rfl := Option.some.inj hop
    obtain ⟨⟨g, snapshot⟩, hs, rfl⟩ := Option.map_eq_some_iff.mp hstep
    have hk := completePartialFullSyncs_keeps hp hc hst.writers.file snapshot w
    refine ⟨_, rfl, hk.isOver, hk.others _ hmaps.1 hmaps.2, fun hin hown => ?_⟩
    have hg : g = st.owner j := hin _ hs
    obtain ⟨root, c, hroot, hget, hother⟩ := hst.other (hst.snapshots j g snapshot hs) (hg ▸ hown)
    have hguard := (guards_other hget fun a ha => hother a (loginIdOf_of_get ha)).2
    rw [hroot]
    simp only [completePartialFullSyncs, hguard]
    rfl
  | patch j globalRevision individualRevision hover w =>
    obtain rfl := Option.some.inj hop
    obtain rfl := Option.some.inj hstep
    have hwr : (writers N κ).step st.toWriters
        (.patch (pollPatch globalRevision individualRevision) hover w) = some _ := rfl
    have hnone : (pollPatch globalRevision individualRevision).get "loginId" = none := by
      cases globalRevision <;> cases individualRevision <;>
        simp [pollPatch, Fields.get_cons]
    have hkeep : (WriterOp.patch (pollPatch globalRevision individualRevision) hover w :
        WriterOp N κ).Keeps "loginId" := hnone
    exact ⟨_, rfl, (writers_preserves hN hkeys hst.writers hwr).file,
      writers_keeps hN hkeys hst.writers hkeep hwr, fun hin hown => absurd hin hown⟩
  | start j | load j | bind j | snapshot j => cases hop
  | loginId newId w => cases hop
  | activate root hover w => cases hop


omit hN hkeys hp [DecidableEq κ] in
theorem Acquired.now (st : Logins κ) : st.Acquired st.generation (loginIdOf st.file) :=
  ⟨le_rfl, fun a ha => by rw [if_pos rfl]; exact ha⟩

omit hN hkeys hp [DecidableEq κ] in
theorem Acquired.activate {g : Nat} {id : Option String} (h : st.Acquired g id) {root : Fields}
    {w : WriteResult} (hw : w.visible = true) : (st.activate root w).Acquired g id := by
  unfold Logins.activate
  rw [if_pos hw]
  refine ⟨Nat.le_succ_of_le h.1, fun a ha => ?_⟩
  have hne : g ≠ st.generation + 1 := by
    have := h.1
    omega
  show if g = st.generation + 1 then _ else a ∈ (loginIdOf st.file).toList ++ st.retired
  rw [if_neg hne]
  have := h.2 a ha
  split at this
  · rw [this]
    exact List.mem_cons_self
  · exact List.mem_append_right _ this

omit hN hkeys hp [DecidableEq κ] in
theorem Sound.activate (hst : st.Sound N) {root : Fields} (hover : root.Over N) {id : String}
    (hid : root.get "loginId" = some (.str id)) (hnew : st.isNew id = true) (w : WriteResult) :
    (st.activate root w).Sound N := by
  cases hw : w.visible with
  | false =>
    unfold Logins.activate
    rw [if_neg (by rw [hw]; decide), sessionWrite, hw]
    exact hst
  | true =>
    have hlogin : loginIdOf (st.activate root w).file = some id := by
      unfold Logins.activate
      rw [if_pos hw, sessionWrite, if_pos hw]
      exact loginIdOf_of_get hid
    have hactivate : st.activate root w = { st with
        file := some root
        generation := st.generation + 1
        retired := (loginIdOf st.file).toList ++ st.retired } := by
      unfold Logins.activate
      rw [if_pos hw, sessionWrite, if_pos hw]
    obtain ⟨-, hretired, hcurrent⟩ := isNew_iff.mp hnew
    exact {
      writers := ⟨fun fs hfs => by rw [hactivate] at hfs; exact Option.some.inj hfs ▸ hover,
        fun i => by rw [hactivate]; exact hst.writers.loaded i⟩
      current := fun _ => ⟨id, hlogin⟩
      unused := fun a ha => by
        rw [hlogin] at ha
        obtain rfl := Option.some.inj ha
        rw [hactivate]
        show id ∉ (loginIdOf st.file).toList ++ st.retired
        rw [List.mem_append, Option.mem_toList, not_or]
        exact ⟨hcurrent, hretired⟩
      owner := fun i => by
        rw [hactivate]
        exact Nat.le_succ_of_le (hst.owner i)
      loaded := fun i s hs => by
        rw [hactivate] at hs
        have h : (st.activate root w).Acquired (st.loadedIn i) (loginIdOf (some s.snapshot)) :=
          (hst.loaded i s hs).activate hw
        rw [hactivate] at h ⊢
        exact h
      bound := fun i g b hb => (hst.bound i g b (by rw [hactivate] at hb; exact hb)).activate hw
      snapshots := fun i g r hr =>
        (hst.snapshots i g r (by rw [hactivate] at hr; exact hr)).activate hw }

omit hN hkeys hp [DecidableEq κ] in
theorem bindIdentity_loginId {file : Option Fields} {b : Binding} (h : bindIdentity file = some b) :
    b.loginId = loginIdOf file := by
  obtain ⟨root, rfl, h⟩ := Option.bind_eq_some_iff.mp h
  obtain ⟨identity, -, h⟩ := Option.bind_eq_some_iff.mp h
  unfold loginIdOf
  rw [Option.bind_some]
  split at h
  · rename_i hg
    obtain rfl := Option.some.inj h
    rw [hg]
  · rename_i id hg
    split at h
    · cases h
    · obtain rfl := Option.some.inj h
      rw [hg]
  · cases h

omit hN hkeys hp [DecidableEq κ] in
/-- A loginId is only added to a file that has none. -/
theorem sessionLoginId_cases (file : Option Fields) (newId : String) (w : WriteResult) :
    (sessionLoginId file newId w).2 = file ∨ ∃ root, file = some root ∧
      root.get "loginId" = none ∧
      (sessionLoginId file newId w).2 = some (root ++ [("loginId", .str newId)]) := by
  cases file with
  | none => exact .inl rfl
  | some root =>
    unfold sessionLoginId addLoginId
    dsimp only
    cases hget : root.get "loginId" with
    | none =>
      dsimp only
      split
      · exact .inl rfl
      · rcases sessionWrite_cases (some root) (root ++ [("loginId", .str newId)]) w with h | ⟨h, -⟩
        · exact .inr ⟨root, rfl, hget, h⟩
        · exact .inl h
    | some v =>
      cases v with
      | str id =>
        dsimp only
        rcases Decidable.em (id ≠ "") with hid | hid
        · rw [if_pos hid]
          dsimp only
          split
          · exact .inl rfl
          · rcases sessionWrite_cases (some root) root w with h | ⟨h, -⟩
            · exact .inl h
            · exact .inl h
        · rw [if_neg hid]
          exact .inl rfl
      | null | bool | num | arr | obj => exact .inl rfl

omit hN hkeys hp [DecidableEq κ] in
theorem Sound.loginId (hlogin : "loginId" ∈ N) (hst : st.Sound N) {newId : String}
    (hnew : st.isNew newId = true) (w : WriteResult) :
    Sound N { st with file := (sessionLoginId st.file newId w).2 } := by
  rcases sessionLoginId_cases st.file newId w with h | ⟨root, hf, hnone, h⟩
  · rw [h]
    exact hst
  · rw [h]
    have hold : loginIdOf st.file = none := by
      unfold loginIdOf
      rw [hf, Option.bind_some, hnone]
    refine hst.withFile (fun fs hfs => ?_) (fun a ha => ?_) (fun a ha => ?_)
    · obtain rfl := Option.some.inj hfs
      exact (hst.writers.file root hf).concat hlogin rfl hnone
    · rw [hold] at ha
      cases ha
    · have hget : (root ++ [("loginId", Json.str newId)]).get "loginId" = some (.str newId) := by
        rw [Fields.get_append, hnone, Fields.get_cons, if_pos rfl]
        rfl
      rw [loginIdOf_of_get hget] at ha
      obtain rfl := Option.some.inj ha
      exact (isNew_iff.mp hnew).2.1

theorem logins_preserves (hlogin : "loginId" ∈ N) : (logins N κ).Preserves (Sound N) := by
  intro st st' op hst hstep
  replace hstep : st.step op = some st' := hstep
  cases hop : op.writer with
  | some i =>
    obtain ⟨file, rfl, hover, hget, -⟩ := step_writer hN hkeys hp hst hop hstep
    have hid := loginIdOf_congr hget
    exact hst.withFile hover (fun a ha => hid.trans ha) (fun a ha => hst.unused a (hid.symm.trans ha))
  | none =>
    cases op with
    | start i =>
      obtain rfl := Option.some.inj hstep
      refine { hst with owner := fun j => ?_ }
      show Function.update st.owner i st.generation j ≤ st.generation
      rcases Decidable.em (j = i) with rfl | hj
      · rw [Function.update_self]
      · rw [Function.update_of_ne hj]
        exact hst.owner j
    | load i =>
      obtain rfl := Option.some.inj hstep
      have hwr : (writers N κ).step st.toWriters (.load i) = some _ := rfl
      refine { hst with
        writers := writers_preserves hN hkeys hst.writers hwr, loaded := fun j s hs => ?_ }
      show st.Acquired (Function.update st.loadedIn i st.generation j) _
      replace hs : Function.update st.loaded i (sessionLoad st.file) j = some s := hs
      rcases Decidable.em (j = i) with rfl | hj
      · rw [Function.update_self] at hs ⊢
        obtain ⟨root, hroot, hparse⟩ := Option.bind_eq_some_iff.mp hs
        rw [sessionParse_snapshot hparse, ← hroot]
        exact .now st
      · rw [Function.update_of_ne hj] at hs ⊢
        exact hst.loaded j s hs
    | bind i =>
      obtain rfl := Option.some.inj hstep
      refine { hst with bound := fun j g b hb => ?_ }
      show st.Acquired g _
      replace hb : Function.update st.bound i
        ((bindIdentity st.file).map fun b => (st.generation, b)) j = some (g, b) := hb
      rcases Decidable.em (j = i) with rfl | hj
      · rw [Function.update_self] at hb
        obtain ⟨b', hbind, heq⟩ := Option.map_eq_some_iff.mp hb
        obtain ⟨rfl, rfl⟩ := Prod.mk.inj heq
        rw [bindIdentity_loginId hbind]
        exact .now st
      · rw [Function.update_of_ne hj] at hb
        exact hst.bound j g b hb
    | snapshot i =>
      obtain rfl := Option.some.inj hstep
      refine { hst with snapshots := fun j g root hr => ?_ }
      show st.Acquired g _
      replace hr : Function.update st.snapshots i (st.file.map fun root => (st.generation, root)) j =
        some (g, root) := hr
      rcases Decidable.em (j = i) with rfl | hj
      · rw [Function.update_self] at hr
        obtain ⟨root', hroot, heq⟩ := Option.map_eq_some_iff.mp hr
        obtain ⟨rfl, rfl⟩ := Prod.mk.inj heq
        rw [← hroot]
        exact .now st
      · rw [Function.update_of_ne hj] at hr
        exact hst.snapshots j g root hr
    | loginId newId w =>
      simp only [Logins.step] at hstep
      split at hstep
      · obtain rfl := Option.some.inj hstep
        exact hst.loginId hlogin ‹_› w
      · cases hstep
    | activate root hover w =>
      simp only [Logins.step] at hstep
      split at hstep
      · rename_i id hid
        split at hstep
        · obtain rfl := Option.some.inj hstep
          exact hst.activate hover hid ‹_› w
        · cases hstep
      · cases hstep
    | save | acceptNextAccess | updatePartial | completePartial | patch => cases hop

omit hN hkeys hp [DecidableEq κ] in
theorem sound_init {file : Option Fields} (hfile : ∀ fs ∈ file, fs.Over N) :
    Sound N ({ file := file } : Logins κ) where
  writers := ⟨hfile, fun _ _ h => by cases h⟩
  current := fun h => absurd h (Nat.lt_irrefl 0)
  unused := fun _ _ => List.not_mem_nil
  owner := fun _ => le_rfl
  loaded := fun _ _ h => by cases h
  bound := fun _ _ _ h => by cases h
  snapshots := fun _ _ _ h => by cases h

end Steps

end Logins


/-- Where each operation compares what it read in its own login, no operation of an earlier
login writes into the session file. -/
theorem logins_isolated [DecidableEq κ] (hN : CaseDistinct N)
    (hkeys : ∀ k ∈ sessionKeys, k ∈ N) (hp : pendingKey ∈ N) (hlogin : "loginId" ∈ N)
    {file : Option Fields} (hfile : ∀ fs ∈ file, fs.Over N) {steps : List (LoginStep N κ)}
    (hmeets : (logins N κ).Meets (fun st op => op.InLogin st) { file := file } steps) :
    (logins N κ).Meets (fun st op => op.Isolated st) { file := file } steps := by
  refine hmeets.of_invariant (I := fun st => st.Sound N)
    (Logins.logins_preserves hN hkeys hp hlogin) ?_ (Logins.sound_init hfile)
  intro st op hst hin i hi hown st' hstep
  obtain ⟨file, rfl, -, -, hsame⟩ := Logins.step_writer hN hkeys hp hst hi hstep
  exact hsame hin hown

/-! ## A login replaced -/

def loginNames : List String :=
  sessionKeys ++ ["loginId", pendingKey, "nativeGlobalRevision", "nativeIndividualRevision"]

def LoginNames : Set String := { k | k ∈ loginNames }

theorem loginNames_distinct : CaseDistinct LoginNames := by
  have hn : (loginNames.map Json.foldCase).Nodup := by decide
  exact List.inj_on_of_nodup_map hn

theorem over_loginNames {fs : Fields} (hn : (fs.map Prod.fst).Nodup)
    (hm : ∀ f ∈ fs, f.1 ∈ loginNames) (hd : ∀ f ∈ fs, f.2.distinct = true) :
    fs.Over LoginNames := ⟨hn, hm, hd⟩

def oldLogin : Fields := [("accessToken", .str "access-1"), ("loginId", .str "login-1")]

def newLogin : Fields := [("accessToken", .str "access-2"), ("loginId", .str "login-2")]

def activateNew : LoginStep LoginNames Bool := .activate newLogin
  (over_loginNames (by decide) (by decide) (by decide)) .written

/-- A patch after a reply that brought revision 17. -/
def patchRevision (i : Bool) : LoginStep LoginNames Bool := .patch i (some (.str "17")) none
  (over_loginNames (by decide) (by decide) (by decide)) .written

/-- A refresh of the old login ends after the new one was put in place and polled. -/
def refreshRace : List (LoginStep LoginNames Bool) := [.start false, .load false, activateNew,
  .start true, patchRevision true, .save false (renewTokens "access-9" "refresh-9") .written]

theorem logins_isolated_refreshRace :
    (logins LoginNames Bool).Meets (fun st op => op.Isolated st) { file := some oldLogin }
      refreshRace :=
  logins_isolated loginNames_distinct (fun _ hk => List.mem_append_left _ hk) (by
      show pendingKey ∈ loginNames
      decide) (by
      show "loginId" ∈ loginNames
      decide)
    (fun _ hfs => Option.some.inj hfs ▸ over_loginNames (by decide) (by decide)
      (by decide)) (by decide)

/-- A run that ends with a write of an earlier login: `p` tells the file before from the one
after. -/
theorem not_isolated [DecidableEq κ] {file : Option Fields} (steps : List (LoginStep N κ))
    {op : LoginStep N κ} {i : κ} (hi : op.writer = some i) (p : Fields → Bool)
    (h : (((logins N κ).run { file := file } steps).bind fun st => (st.step op).map fun st' =>
      (st.owner i == st.generation, st.file.any p, st'.file.any p)) = some (false, false, true)) :
    ¬ (logins N κ).Meets (fun st op => op.Isolated st) { file := file } (steps ++ [op]) := by
  intro hmeets
  obtain ⟨st, hrun, h⟩ := Option.bind_eq_some_iff.mp h
  obtain ⟨st', hstep, h⟩ := Option.map_eq_some_iff.mp h
  simp only [Prod.mk.injEq, beq_eq_false_iff_ne] at h
  have hsame := (hmeets.after hrun).1 i hi h.1 st' hstep
  rw [hsame, h.2.1] at h
  cases h.2.2

/-- The poll of the old login patches its revision into the new session, and a reply to the
old login marks the new one as logged out. -/
theorem old_login_written :
    ¬ (logins LoginNames Bool).Meets (fun st op => op.Isolated st) { file := some oldLogin }
        [.start false, activateNew, patchRevision false] ∧
      ¬ (logins LoginNames Bool).Meets (fun st op => op.Isolated st) { file := some oldLogin }
        ([.start false, activateNew] ++ setReauthNeeded false .written) :=
  ⟨not_isolated [.start false, activateNew] rfl
      (fun fs => (fs.get "nativeGlobalRevision").isSome) (by decide),
    not_isolated [.start false, activateNew, .load false] rfl
      (fun fs => (fs.get "needsReauth").isSome) (by decide +kernel)⟩

end Enil
