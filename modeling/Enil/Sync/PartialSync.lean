import Enil.Session.Partial
import Enil.Session.Writers
import Enil.Sync.FullSync

/-!
# Partial full syncs are acknowledged after a sync

Requests arrive while syncs run that started from older snapshots of the session, and
other writers save and patch the same file. A timestamp is completed only by a sync that
had it pending when it started, and a request stays pending until such a sync commits.
-/

namespace Enil

open Lib

variable {N C : Set String} {ι : Type}

/-! ## The maps in a file -/

/-- The map under `name`; a file or a map that is missing is empty. -/
def fileMap (file : Option Fields) (name : String) : Fields :=
  ((file.bind fun root => root.get name).map Json.items).getD []

theorem fileMap_of_get {file file' : Option Fields} {name : String}
    (h : (file.bind fun root => root.get name) = file'.bind fun root => root.get name) :
    fileMap file name = fileMap file' name := by
  rw [fileMap, h, fileMap]

theorem fileMap_some_of_get {root root' : Fields} {name : String}
    (h : root.get name = root'.get name) : fileMap (some root) name = fileMap (some root') name := by
  apply fileMap_of_get
  rw [Option.bind_some, Option.bind_some, h]

theorem fileMap_partialMap {root map : Fields} {name : String}
    (h : partialMap root name = some map) : fileMap (some root) name = map := by
  unfold partialMap at h
  unfold fileMap
  rw [Option.bind_some]
  split at h
  · rename_i hg
    rw [hg]
    exact Option.some.inj h
  · rename_i hg
    rw [hg]
    exact Option.some.inj h
  · cases h

theorem Timestamps.distinct (hC : CaseDistinct C) {map : Fields} (h : Timestamps C map) :
    (Json.obj map).distinct = true := by
  rw [Json.distinct_obj]
  refine ⟨?_, h.isOver.distinct⟩
  have hmap : (map.map fun f => Json.foldCase f.1) = (map.map Prod.fst).map Json.foldCase := by
    rw [List.map_map]
    rfl
  rw [hmap]
  refine h.isOver.nodup.map_on fun a ha b hb => ?_
  obtain ⟨f, hf, rfl⟩ := List.mem_map.mp ha
  obtain ⟨g, hg, rfl⟩ := List.mem_map.mp hb
  exact hC (h.isOver.mem f hf) (h.isOver.mem g hg)

/-- A file over `N` whose two maps hold timestamps of categories in `C`. -/
structure PartialFile (N C : Set String) (file : Option Fields) : Prop where
  isOver : ∀ fs ∈ file, fs.Over N
  pending : Timestamps C (fileMap file pendingKey)
  completed : Timestamps C (fileMap file completedKey)

theorem pendingKey_ne : pendingKey ≠ completedKey := by decide

/-- A file with both maps put back. -/
theorem PartialFile.putMaps (hC : CaseDistinct C) (hp : pendingKey ∈ N) (hc : completedKey ∈ N)
    {root pending completed : Fields} (h : root.Over N) (htp : Timestamps C pending)
    (htc : Timestamps C completed) :
    PartialFile N C (some (putMap (putMap root pendingKey pending) completedKey completed)) ∧
      fileMap (some (putMap (putMap root pendingKey pending) completedKey completed)) pendingKey =
        pending ∧
      fileMap (some (putMap (putMap root pendingKey pending) completedKey completed)) completedKey =
        completed := by
  have hfp : fileMap (some (putMap (putMap root pendingKey pending) completedKey completed))
      pendingKey = pending := by
    unfold fileMap
    rw [Option.bind_some, get_putMap, if_neg pendingKey_ne, get_putMap, if_pos rfl]
    rfl
  have hfc : fileMap (some (putMap (putMap root pendingKey pending) completedKey completed))
      completedKey = completed := by
    unfold fileMap
    rw [Option.bind_some, get_putMap, if_pos rfl]
    rfl
  refine ⟨⟨?_, by rw [hfp]; exact htp, by rw [hfc]; exact htc⟩, hfp, hfc⟩
  intro fs hfs
  obtain rfl := Option.some.inj hfs
  exact (h.putMap hp (htp.distinct hC)).putMap hc (htc.distinct hC)

/-- Without pending categories the map itself is dropped. -/
theorem PartialFile.deletePending {root pending completed : Fields}
    (h : PartialFile N C (some root)) (hp : fileMap (some root) pendingKey = pending)
    (hc : fileMap (some root) completedKey = completed) (hnil : pending = []) :
    PartialFile N C (some (root.delete pendingKey)) ∧
      fileMap (some (root.delete pendingKey)) pendingKey = pending ∧
      fileMap (some (root.delete pendingKey)) completedKey = completed := by
  have hover := h.isOver root rfl
  have hfp : fileMap (some (root.delete pendingKey)) pendingKey = pending := by
    unfold fileMap
    rw [Option.bind_some, Fields.get_delete hover.nodup, if_pos rfl, hnil]
    rfl
  have hfc : fileMap (some (root.delete pendingKey)) completedKey = completed := by
    rw [← hc]
    apply fileMap_of_get
    rw [Option.bind_some, Option.bind_some, Fields.get_delete hover.nodup,
      if_neg pendingKey_ne.symm]
  refine ⟨⟨?_, by rw [hfp, ← hp]; exact h.pending, by rw [hfc, ← hc]; exact h.completed⟩, hfp, hfc⟩
  intro fs hfs
  obtain rfl := Option.some.inj hfs
  exact hover.delete

/-! ## One call -/

/-- What an update of `targets` makes of a file: it leaves the completed timestamps,
lowers nothing pending, and on success all that asks for work is pending. -/
structure Queued (N C : Set String) (targets : Fields) (file : Option Fields)
    (r : Option Bool × Option Fields) : Prop where
  sound : PartialFile N C r.2
  completed : fileMap r.2 completedKey = fileMap file completedKey
  mono : ∀ k, timestamp (fileMap file pendingKey) k ≤ timestamp (fileMap r.2 pendingKey) k
  queued : r.1.isSome → ∀ f ∈ targets,
    timestamp (fileMap file completedKey) f.1 < Json.coerceInt64 (some f.2) →
      Json.coerceInt64 (some f.2) ≤ timestamp (fileMap r.2 pendingKey) f.1

/-- What a completion for `snapshot` makes of a file: no completed timestamp gets lower, each
that changes was pending in the snapshot, and what stops pending is covered by it. -/
structure Completed (N C : Set String) (snapshot : Fields) (file file' : Option Fields) :
    Prop where
  sound : PartialFile N C file'
  mono : ∀ k, timestamp (fileMap file completedKey) k ≤ timestamp (fileMap file' completedKey) k
  fromSnapshot : ∀ k, (fileMap file' completedKey).get k = (fileMap file completedKey).get k ∨
    ((fileMap file' completedKey).get k).map (fun j => Json.coerceInt64 (some j)) =
      some (timestamp (fileMap (some snapshot) pendingKey) k)
  covered : ∀ k, (fileMap file' pendingKey).get k = (fileMap file pendingKey).get k ∨
    timestamp (fileMap file pendingKey) k ≤ timestamp (fileMap (some snapshot) pendingKey) k

theorem Queued.refl {targets : Fields} {file : Option Fields} (hf : PartialFile N C file) :
    Queued N C targets file (none, file) :=
  ⟨hf, rfl, fun _ => le_rfl, fun h => by cases h⟩

theorem Completed.refl {snapshot : Fields} {file : Option Fields} (hf : PartialFile N C file) :
    Completed N C snapshot file file :=
  ⟨hf, fun _ => le_rfl, fun _ => .inl rfl, fun _ => .inl rfl⟩

section Calls

variable (hC : CaseDistinct C) (hp : pendingKey ∈ N) (hc : completedKey ∈ N)
include hC hp hc

theorem updatePartialFullSyncs_queued {file : Option Fields} (hf : PartialFile N C file)
    {targets : Fields} (ht : Timestamps C targets) (b : Option Binding) (w : WriteResult) :
    Queued N C targets file (updatePartialFullSyncs b file targets w) := by
  unfold updatePartialFullSyncs
  cases file with
  | none => exact .refl hf
  | some root =>
    dsimp only
    split
    · exact .refl hf
    · split
      · rename_i pending completed hmp hmc
        have hfp := fileMap_partialMap hmp
        have hfc := fileMap_partialMap hmc
        obtain ⟨p, n, c, hfold, htp, hmono, hin, hch⟩ := updateCategory_fold hC completed
          false false (fun f hf => ⟨ht.isOver.mem f hf, ht.fits f hf⟩) (hfp ▸ hf.pending)
        simp only [hfold]
        obtain ⟨hfile, hpend, hcomp⟩ := PartialFile.putMaps hC hp hc (hf.isOver root rfl) htp
          (hfc ▸ hf.completed)
        -- With the new file in place everything asked for is pending.
        have hnew : ∀ r : Option Bool, Queued N C targets (some root)
            (r, some (putMap (putMap root pendingKey p) completedKey completed)) := by
          intro r
          refine ⟨hfile, by rw [hcomp, hfc], fun k => ?_, fun _ f hf hlt => ?_⟩
          · rw [hpend, hfp]
            exact hmono k
          · rw [hpend]
            rw [hfc] at hlt
            exact hin f hf hlt
        cases c with
        | true =>
          cases w with
          | failed => exact .refl hf
          | unsynced | written => exact hnew _
        | false =>
          obtain ⟨-, rfl⟩ := hch rfl
          refine ⟨hf, rfl, fun _ => le_rfl, fun _ f hf hlt => ?_⟩
          show Json.coerceInt64 (some f.2) ≤ timestamp (fileMap (some root) pendingKey) f.1
          rw [hfc] at hlt
          rw [hfp]
          exact hin f hf hlt
      · exact .refl hf

theorem completePartialFullSyncs_completed {file : Option Fields} (hf : PartialFile N C file)
    {snapshot : Fields} (hs : Timestamps C (fileMap (some snapshot) pendingKey))
    (w : WriteResult) :
    Completed N C snapshot file (completePartialFullSyncs snapshot file w).2 := by
  unfold completePartialFullSyncs
  cases file with
  | none => exact .refl hf
  | some root =>
    dsimp only
    split
    · split
      · exact .refl hf
      · exact .refl hf
      · rename_i requests _ hreq
        split
        · rename_i pending completed hmp hmc
          have hfp := fileMap_partialMap hmp
          have hfc := fileMap_partialMap hmc
          have hfr : fileMap (some snapshot) pendingKey = requests := by
            unfold fileMap
            rw [Option.bind_some, hreq]
            rfl
          rw [hfr] at hs
          obtain ⟨p, c, hfold, htp, htc, hmono, hcomp, hcov⟩ := completeCategory_fold hC
            (fun f hf => ⟨hs.isOver.mem f hf, hs.fits f hf⟩) (hfp ▸ hf.pending)
            (hfc ▸ hf.completed)
          simp only [hfold]
          -- The item a request has for a category is the one its timestamp is read from.
          have hitem : ∀ f ∈ requests, Json.coerceInt64 (some f.2) = timestamp requests f.1 := by
            intro f hf
            rw [timestamp, Fields.get_of_mem hs.isOver.nodup hf]
          obtain ⟨hfile, hpend', hcomp'⟩ := PartialFile.putMaps hC hp hc (hf.isOver root rfl) htp htc
          generalize hnext : (if p = [] then
            (putMap (putMap root pendingKey p) completedKey c).delete pendingKey
            else putMap (putMap root pendingKey p) completedKey c) = next
          obtain ⟨hsound, hpn, hcn⟩ : PartialFile N C (some next) ∧
              fileMap (some next) pendingKey = p ∧ fileMap (some next) completedKey = c := by
            rw [← hnext]
            split
            · rename_i hnil
              exact hfile.deletePending hpend' hcomp' hnil
            · exact ⟨hfile, hpend', hcomp'⟩
          have hnew : Completed N C snapshot (some root) (some next) := by
            refine ⟨hsound, fun k => ?_, fun k => ?_, fun k => ?_⟩
            · rw [hcn, hfc]
              exact hmono k
            · rw [hcn, hfc, hfr]
              refine (hcomp k).imp_right ?_
              rintro ⟨f, hf, rfl, hget⟩
              rw [hget, hitem f hf]
            · rw [hpn, hfp, hfr]
              refine (hcov k).imp_right ?_
              rintro ⟨f, hf, rfl, hle⟩
              rw [← hitem f hf]
              exact hle
          cases w with
          | failed => exact .refl hf
          | unsynced | written => exact hnew
        · exact .refl hf
      · exact .refl hf
    · exact .refl hf

end Calls

/-! ## Other writers -/

/-- The step changes neither map. -/
def WriterOp.KeepsPartial : WriterOp N ι → Prop
  | .save _ e _ => ∀ s, (e.apply s).lastPartialFullSyncs = s.lastPartialFullSyncs
  | .patch p _ _ => p.get pendingKey = none ∧ p.get completedKey = none
  | _ => True

theorem mem_fields_completed (s : Session) :
    (completedKey, FieldValue.obj s.lastPartialFullSyncs) ∈ s.fields := by
  simp [Session.fields, completedKey]

theorem pendingKey_notMem : pendingKey ∉ sessionKeys := by decide

theorem WriterOp.KeepsPartial.keeps {op : WriterOp N ι} (h : op.KeepsPartial) :
    op.Keeps pendingKey ∧ op.Keeps completedKey := by
  cases op with
  | load i => exact ⟨trivial, trivial⟩
  | save i e w =>
    refine ⟨fun s => .inl pendingKey_notMem, fun s => .inr ⟨_, mem_fields_completed s, ?_⟩⟩
    exact h s ▸ mem_fields_completed (e.apply s)
  | patch p hover w => exact h
  | acceptNextAccess b previous next w =>
    have hne : pendingKey ≠ "accessToken" ∧ completedKey ≠ "accessToken" := by decide
    exact hne

section Runs

variable (hN : CaseDistinct N) (hkeys : ∀ k ∈ sessionKeys, k ∈ N)
include hN hkeys

variable [DecidableEq ι]

/-- The two maps after a step of another writer. -/
theorem writers_keepsPartial {st st' : Writers ι} (hst : st.Sound N) {op : WriterOp N ι}
    (hop : op.KeepsPartial) (hstep : (writers N ι).step st op = some st') :
    fileMap st'.file pendingKey = fileMap st.file pendingKey ∧
      fileMap st'.file completedKey = fileMap st.file completedKey :=
  ⟨fileMap_of_get (writers_keeps hN hkeys hst hop.keeps.1 hstep),
    fileMap_of_get (writers_keeps hN hkeys hst hop.keeps.2 hstep)⟩

end Runs

/-! ## Runs -/

/-- The edit of `enil_session_reset_partial_full_syncs`. -/
def resetEdit : Edit where
  apply s := { s with lastPartialFullSyncs := some (.obj []) }
  keepsSnapshot _ := rfl
  keepsDistinct s h := by
    simp only [Session.Distinct, Session.fields, List.forall_mem_cons, FieldValue.Distinct,
      true_and] at h ⊢
    obtain ⟨h₁, h₂, h₃, h₄, h₅, -, h₆⟩ := h
    exact ⟨h₁, h₂, h₃, h₄, h₅, fun j hj => Option.some.inj hj ▸ rfl, h₆⟩

/-- enil_session_reset_partial_full_syncs saves only if the map it loaded holds something. -/
def hasCompleted (s : Session) : Bool :=
  match s.lastPartialFullSyncs with
  | none | some (.obj []) => false
  | some _ => true

inductive PartialOp (N C : Set String) (ι : Type) where
  | writer (op : WriterOp N ι) (keeps : op.KeepsPartial)
  | reset (i : ι) (w : WriteResult)
  | update (b : Option Binding) (targets : Fields) (isTimestamps : Timestamps C targets)
    (w : WriteResult)
  | syncStart (i : ι)
  | syncFinish (i : ι) (cj : Cjson) (a : SyncAnswers) (c : Conn Db) (w : WriteResult)

def PartialOp.IsReset : PartialOp N C ι → Prop
  | reset _ _ => True
  | _ => False

structure PartialState (ι : Type) extends Writers ι where
  /-- The session each running sync started from. -/
  snapshots : ι → Option Fields := fun _ => none
  /-- Requests received that no sync which had them pending has finished since. -/
  outstanding : List (String × Int) := []
  /-- The snapshots of the syncs that finished all phases and committed localRev. -/
  finished : List Fields := []

/-- What an update receives: the timestamps above the completed ones. -/
def received (targets : Fields) (file : Option Fields) : List (String × Int) :=
  (targets.map fun f => (f.1, Json.coerceInt64 (some f.2))).filter fun r =>
    timestamp (fileMap file completedKey) r.1 < r.2

/-- Syncs, updates and the other writers of one session file. A sync ends with what
`syncAll` gives; only when that commits a revision it acknowledges its snapshot. -/
def partialSync (N C : Set String) (ι : Type) [DecidableEq ι] :
    Machine (PartialState ι) (PartialOp N C ι) where
  step st
    | .writer op _ => ((writers N ι).step st.toWriters op).map fun w => { st with toWriters := w }
    | .reset i w => (st.loaded i).map fun s =>
      if hasCompleted s then { st with file := (sessionSave st.file (resetEdit.apply s) w).2 } else st
    | .update b targets _ w =>
      let r := updatePartialFullSyncs b st.file targets w
      some { st with
        file := r.2
        outstanding :=
          if r.1.isSome then received targets st.file ++ st.outstanding else st.outstanding }
    | .syncStart i => st.file.map fun root =>
      { st with snapshots := Function.update st.snapshots i (some root) }
    | .syncFinish i cj a c w => (st.snapshots i).map fun snapshot =>
      match (syncAll cj a c).1 with
      | none => { st with snapshots := Function.update st.snapshots i none }
      | some _ => { st with
          file := (completePartialFullSyncs snapshot st.file w).2
          snapshots := Function.update st.snapshots i none
          finished := snapshot :: st.finished
          outstanding := st.outstanding.filter fun r =>
            timestamp (fileMap (some snapshot) pendingKey) r.1 < r.2 }

/-- The timestamp recorded as completed for a category. -/
def completedTime (file : Option Fields) (k : String) : Option Int :=
  ((fileMap file completedKey).get k).map fun j => Json.coerceInt64 (some j)

structure PartialState.Invariant (N C : Set String) (file : Option Fields) (st : PartialState ι) :
    Prop where
  sound : st.toWriters.Sound N
  partialFile : PartialFile N C st.file
  snapshots : ∀ i, ∀ snapshot ∈ st.snapshots i,
    Timestamps C (fileMap (some snapshot) pendingKey)
  /-- A completed timestamp was there, or pending when a sync started that finished. -/
  completed : ∀ k t, completedTime st.file k = some t → completedTime file k = some t ∨
    ∃ snapshot ∈ st.finished, t ≤ timestamp (fileMap (some snapshot) pendingKey) k
  outstanding : ∀ r ∈ st.outstanding, r.2 ≤ timestamp (fileMap st.file pendingKey) r.1

namespace PartialState.Invariant

variable {file : Option Fields} {st : PartialState ι} (hst : st.Invariant N C file)
include hst

/-- A write that leaves the pending map, and the completed one or nothing of it. -/
theorem withWriters {wr : Writers ι} (hsound : wr.Sound N)
    (hpend : fileMap wr.file pendingKey = fileMap st.file pendingKey)
    (hcomp : fileMap wr.file completedKey = fileMap st.file completedKey ∨
      fileMap wr.file completedKey = []) :
    PartialState.Invariant N C file { st with toWriters := wr } where
  sound := hsound
  partialFile := by
    refine ⟨hsound.file, ?_, ?_⟩
    · show Timestamps C (fileMap wr.file pendingKey)
      rw [hpend]
      exact hst.partialFile.pending
    · show Timestamps C (fileMap wr.file completedKey)
      rcases hcomp with h | h
      · rw [h]
        exact hst.partialFile.completed
      · rw [h]
        exact .nil
  snapshots := hst.snapshots
  completed := by
    intro k t ht
    rw [completedTime] at ht
    rcases hcomp with h | h
    · rw [h] at ht
      exact hst.completed k t ht
    · rw [h] at ht
      cases ht
  outstanding := by
    intro r hr
    show r.2 ≤ timestamp (fileMap wr.file pendingKey) r.1
    rw [hpend]
    exact hst.outstanding r hr

theorem snapshots_update [DecidableEq ι] (i : ι) (file' : Option Fields)
    (hfile : ∀ snapshot ∈ file', Timestamps C (fileMap (some snapshot) pendingKey)) :
    ∀ j, ∀ snapshot ∈ Function.update st.snapshots i file' j,
      Timestamps C (fileMap (some snapshot) pendingKey) := by
  intro j snapshot hj
  by_cases hji : j = i
  · subst hji
    rw [Function.update_self] at hj
    exact hfile snapshot hj
  · rw [Function.update_of_ne hji] at hj
    exact hst.snapshots j snapshot hj

end PartialState.Invariant

section Runs

variable {file : Option Fields} (hN : CaseDistinct N) (hkeys : ∀ k ∈ sessionKeys, k ∈ N)
include hN hkeys

/-- A reset leaves the pending map; the completed one it leaves or empties. -/
theorem reset_maps {st : Writers ι} (hst : st.Sound N) {i : ι} {s : Session}
    (hs : st.loaded i = some s) {w : WriteResult} {file : Option Fields}
    (hfile : (sessionSave st.file (resetEdit.apply s) w).2 = file) :
    fileMap file pendingKey = fileMap st.file pendingKey ∧
      (fileMap file completedKey = fileMap st.file completedKey ∨ fileMap file completedKey = []) := by
  obtain ⟨hsnap, hd, hparse⟩ := hst.loaded i s hs
  have hpend := sessionSave_get hN hkeys hst hs resetEdit w (.inl pendingKey_notMem)
  rw [hfile] at hpend
  refine ⟨fileMap_of_get hpend, ?_⟩
  rcases sessionSave_cases (s := resetEdit.apply s) hparse st.file w with ⟨current, hc, h⟩ | h
  · obtain ⟨-, hm⟩ := sessionMerge_merged hN hkeys (resetEdit.keepsSnapshot s) hsnap hd
      (resetEdit.keepsDistinct s hd) (hst.file current hc)
    rw [h] at hfile
    rcases sessionWrite_cases st.file
        (sessionMerge (sessionToJson s) (sessionToJson (resetEdit.apply s)) current) w with
      hw | ⟨hw, -⟩
    · have hmem := mem_fields_completed (resetEdit.apply s)
      rw [← hfile, hw, hc]
      by_cases hsame : (FieldValue.obj s.lastPartialFullSyncs).Same (.obj (some (.obj [])))
      · left
        apply fileMap_some_of_get
        exact hm.same _ _ _ (mem_fields_completed s) hmem hsame
      · right
        unfold fileMap
        rw [Option.bind_some, hm.changed _ _ _ (mem_fields_completed s) hmem hsame trivial trivial]
        rfl
    · rw [← hfile, hw]
      exact .inl rfl
  · rw [h] at hfile
    rw [← hfile]
    exact .inl rfl

variable [DecidableEq ι]

theorem partialReset_preserves {st : PartialState ι} (hst : st.Invariant N C file) {i : ι}
    {s : Session} (hs : st.loaded i = some s) (w : WriteResult) :
    PartialState.Invariant N C file
      { st with file := (sessionSave st.file (resetEdit.apply s) w).2 } := by
  have hsave : (writers N ι).step st.toWriters (.save i resetEdit w) = some
      { st.toWriters with file := (sessionSave st.file (resetEdit.apply s) w).2 } :=
    congrArg (Option.map _) hs
  obtain ⟨hpend, hcomp⟩ := reset_maps hN hkeys hst.sound hs (w := w) rfl
  exact hst.withWriters (writers_preserves hN hkeys hst.sound hsave) hpend hcomp

variable (hC : CaseDistinct C) (hp : pendingKey ∈ N)
include hC hp

omit hN in
theorem partialUpdate_preserves {st st' : PartialState ι} (hst : st.Invariant N C file)
    {b : Option Binding} {targets : Fields} (ht : Timestamps C targets) {w : WriteResult}
    (hstep : (partialSync N C ι).step st (.update b targets ht w) = some st') :
    st'.Invariant N C file := by
  obtain rfl := Option.some.inj hstep
  have hq := updatePartialFullSyncs_queued hC hp (hkeys _ (by decide)) hst.partialFile ht b w
  refine ⟨⟨hq.sound.isOver, hst.sound.loaded⟩, hq.sound, hst.snapshots, ?_, ?_⟩
  · intro k t hk
    rw [completedTime, hq.completed] at hk
    exact hst.completed k t hk
  · intro r hr
    have hold : r ∈ st.outstanding → r.2 ≤
        timestamp (fileMap (updatePartialFullSyncs b st.file targets w).2 pendingKey) r.1 :=
      fun h => (hst.outstanding r h).trans (hq.mono r.1)
    dsimp only at hr
    split at hr
    · rename_i hsome
      rcases List.mem_append.mp hr with hr | hr
      · obtain ⟨hmem, hlt⟩ := List.mem_filter.mp hr
        obtain ⟨f, hf, rfl⟩ := List.mem_map.mp hmem
        exact hq.queued hsome f hf (of_decide_eq_true hlt)
      · exact hold hr
    · exact hold hr

omit hN hkeys hC hp in
theorem partialStart_preserves {st st' : PartialState ι} (hst : st.Invariant N C file) {i : ι}
    (hstep : (partialSync N C ι).step st (.syncStart i) = some st') : st'.Invariant N C file := by
  obtain ⟨root, hroot, rfl⟩ := Option.map_eq_some_iff.mp hstep
  have hpend : Timestamps C (fileMap (some root) pendingKey) := hroot ▸ hst.partialFile.pending
  refine ⟨hst.sound, hst.partialFile, ?_, hst.completed, hst.outstanding⟩
  exact hst.snapshots_update i (some root) fun _ h => Option.some.inj h ▸ hpend

omit hN in
theorem partialFinish_preserves {st st' : PartialState ι} (hst : st.Invariant N C file) {i : ι}
    {cj : Cjson} {a : SyncAnswers} {c : Conn Db} {w : WriteResult}
    (hstep : (partialSync N C ι).step st (.syncFinish i cj a c w) = some st') :
    st'.Invariant N C file := by
  obtain ⟨snapshot, hs, hst'⟩ := Option.map_eq_some_iff.mp hstep
  have hsnaps := hst.snapshots_update i none (by rintro _ ⟨⟩)
  split at hst'
  · obtain rfl := hst'
    exact ⟨hst.sound, hst.partialFile, hsnaps, hst.completed, hst.outstanding⟩
  · obtain rfl := hst'
    have hcmp := completePartialFullSyncs_completed hC hp (hkeys _ (by decide)) hst.partialFile
      (hst.snapshots i snapshot hs) w
    refine ⟨⟨hcmp.sound.isOver, hst.sound.loaded⟩, hcmp.sound, hsnaps, ?_, ?_⟩
    · intro k t hk
      rw [completedTime] at hk
      rcases hcmp.fromSnapshot k with h | h
      · rw [h] at hk
        exact (hst.completed k t hk).imp_right fun ⟨x, hx, hle⟩ =>
          ⟨x, List.mem_cons_of_mem _ hx, hle⟩
      · rw [h] at hk
        obtain rfl := Option.some.inj hk
        exact .inr ⟨snapshot, List.mem_cons_self, le_rfl⟩
    · intro r hr
      obtain ⟨hmem, hlt⟩ := List.mem_filter.mp hr
      have hle := hst.outstanding r hmem
      have hlt := of_decide_eq_true hlt
      rcases hcmp.covered r.1 with h | h
      · show r.2 ≤ Json.coerceInt64 _
        rw [h]
        exact hle
      · omega

theorem partialSync_preserves (file : Option Fields) :
    (partialSync N C ι).Preserves (PartialState.Invariant N C file) := by
  intro st st' op hst hstep
  cases op with
  | writer op keeps =>
    obtain ⟨wr, hwr, rfl⟩ := Option.map_eq_some_iff.mp hstep
    obtain ⟨hpend, hcomp⟩ := writers_keepsPartial hN hkeys hst.sound keeps hwr
    exact hst.withWriters (writers_preserves hN hkeys hst.sound hwr) hpend (.inl hcomp)
  | reset i w =>
    obtain ⟨s, hs, hst'⟩ := Option.map_eq_some_iff.mp hstep
    split at hst'
    · exact hst' ▸ partialReset_preserves hN hkeys hst hs w
    · exact hst' ▸ hst
  | update b targets ht w => exact partialUpdate_preserves hkeys hC hp hst ht hstep
  | syncStart i => exact partialStart_preserves hst hstep
  | syncFinish i cj a c w => exact partialFinish_preserves hkeys hC hp hst hstep

/-- Without a reset no completed timestamp gets lower. -/
theorem partialSync_completed_mono {file : Option Fields} {st st' : PartialState ι}
    (hst : st.Invariant N C file) {op : PartialOp N C ι} (hop : ¬ op.IsReset)
    (hstep : (partialSync N C ι).step st op = some st') (k : String) :
    timestamp (fileMap st.file completedKey) k ≤ timestamp (fileMap st'.file completedKey) k := by
  have hc : completedKey ∈ N := hkeys _ (by decide)
  cases op with
  | writer op keeps =>
    obtain ⟨wr, hwr, rfl⟩ := Option.map_eq_some_iff.mp hstep
    exact (congrArg (timestamp · k) (writers_keepsPartial hN hkeys hst.sound keeps hwr).2).ge
  | reset i w => exact absurd trivial hop
  | update b targets ht w =>
    obtain rfl := Option.some.inj hstep
    exact (congrArg (timestamp · k)
      (updatePartialFullSyncs_queued hC hp hc hst.partialFile ht b w).completed).ge
  | syncStart i =>
    obtain ⟨root, hroot, rfl⟩ := Option.map_eq_some_iff.mp hstep
    exact le_rfl
  | syncFinish i cj a c w =>
    obtain ⟨snapshot, hs, hst'⟩ := Option.map_eq_some_iff.mp hstep
    split at hst'
    · obtain rfl := hst'
      exact le_rfl
    · obtain rfl := hst'
      exact (completePartialFullSyncs_completed hC hp hc hst.partialFile
        (hst.snapshots i snapshot hs) w).mono k

/-- In every run from a session in `file`: a timestamp is completed only by a sync that
finished and had it pending at its start; what was received above the completed timestamp
stays pending until a sync that had it pending has finished; and from any state reached,
completed timestamps do not get lower without a reset. -/
theorem partial_syncs_two_phase {file : Option Fields} (hfile : PartialFile N C file)
    {ops : List (PartialOp N C ι)} {st : PartialState ι}
    (hrun : (partialSync N C ι).run { file := file } ops = some st) :
    (∀ k t, completedTime st.file k = some t → completedTime file k = some t ∨
      ∃ snapshot ∈ st.finished, t ≤ timestamp (fileMap (some snapshot) pendingKey) k) ∧
    (∀ r ∈ st.outstanding, r.2 ≤ timestamp (fileMap st.file pendingKey) r.1) ∧
    ∀ (more : List (PartialOp N C ι)) (st' : PartialState ι), (∀ op ∈ more, ¬ op.IsReset) →
      (partialSync N C ι).run st more = some st' → ∀ k,
        timestamp (fileMap st.file completedKey) k ≤
          timestamp (fileMap st'.file completedKey) k := by
  have hpres : (partialSync N C ι).Preserves (PartialState.Invariant N C file) :=
    partialSync_preserves hN hkeys hC hp file
  have hst : st.Invariant N C file := Machine.run_invariant hpres
    ⟨⟨hfile.isOver, by rintro _ _ ⟨⟩⟩, hfile, by rintro _ _ ⟨⟩, fun _ _ h => .inl h,
      by rintro _ ⟨⟩⟩ hrun
  refine ⟨hst.completed, hst.outstanding, ?_⟩
  intro more
  clear hrun
  induction more generalizing st with
  | nil =>
    intro st' _ h k
    obtain rfl := Option.some.inj h
    exact le_rfl
  | cons op more ih =>
    intro st' hmore h k
    rw [List.forall_mem_cons] at hmore
    obtain ⟨m, hm, ht⟩ := Machine.run_cons_some.mp h
    exact (partialSync_completed_mono hN hkeys hC hp hst hmore.1 hm k).trans
      (ih (hpres hst hm) st' hmore.2 ht k)

end Runs

/-! ## A request during a sync -/

def syncedNames : List String := accountNames ++ [pendingKey]

def SyncedNames : Set String := { k | k ∈ syncedNames }

def Categories : Set String := { k | k ∈ ["contacts", "groups"] }

theorem syncedNames_distinct : CaseDistinct SyncedNames := by
  have hn : (syncedNames.map Json.foldCase).Nodup := by decide
  exact List.inj_on_of_nodup_map hn

theorem categories_distinct : CaseDistinct Categories := by
  have hn : (["contacts", "groups"].map Json.foldCase).Nodup := by decide
  exact List.inj_on_of_nodup_map hn

theorem accountFile_maps : PartialFile SyncedNames Categories (some accountFile) where
  isOver fs hfs := by
    obtain rfl := Option.some.inj hfs
    exact { accountFile_over with
      mem := fun f hf => List.mem_append_left _ (accountFile_over.mem f hf) }
  pending := .nil
  completed := .nil

theorem timestamps_contacts (t : String) : Timestamps Categories [("contacts", .str t)] where
  isOver := {
    nodup := List.nodup_singleton _
    mem := by simp [Categories]
    distinct := by
      intro f hf
      obtain rfl := List.mem_singleton.mp hf
      rfl }
  fits := by
    intro f hf
    obtain rfl := List.mem_singleton.mp hf
    trivial

/-- A second request for the contacts arrives while a sync runs for the first. -/
def requestedDuringSync : List (PartialOp SyncedNames Categories (Fin 1)) := [
  .update none [("contacts", .str "100")] (timestamps_contacts _) .written,
  .syncStart 0,
  .update none [("contacts", .str "200")] (timestamps_contacts _) .written,
  .syncFinish 0 plainJson { localRev := 7, boxes := [], recents := fun _ => [] }
    { db := Db.empty } .written]

def requestedState : PartialState (Fin 1) :=
  ((partialSync SyncedNames Categories (Fin 1)).run { file := some accountFile }
    requestedDuringSync).get (by decide)

theorem requestedState_run :
    (partialSync SyncedNames Categories (Fin 1)).run { file := some accountFile }
      requestedDuringSync = some requestedState :=
  (Option.some_get _).symm

theorem partial_syncs_two_phase_request :
    requestedState.outstanding = [("contacts", 200)] ∧
      completedTime requestedState.file "contacts" = some 100 ∧
      200 ≤ timestamp (fileMap requestedState.file pendingKey) "contacts" ∧
      ∃ snapshot ∈ requestedState.finished,
        100 ≤ timestamp (fileMap (some snapshot) pendingKey) "contacts" := by
  have hout : requestedState.outstanding = [("contacts", 200)] := by decide
  have hdone : completedTime requestedState.file "contacts" = some 100 := by decide
  have hbefore : completedTime (some accountFile) "contacts" = none := by decide
  obtain ⟨hcompleted, houtstanding, -⟩ := partial_syncs_two_phase syncedNames_distinct
    (fun k hk => List.mem_append_left _ (List.mem_append_left _ hk)) categories_distinct
    (List.mem_append_right _ (List.mem_singleton_self _)) accountFile_maps
    requestedState_run
  refine ⟨hout, hdone, houtstanding ("contacts", 200) (hout ▸ List.mem_singleton_self _), ?_⟩
  rcases hcompleted "contacts" 100 hdone with h | h
  · rw [hbefore] at h
    cases h
  · exact h

end Enil
