import Enil.Session.Names

/-!
# Partial full syncs in the session file

The server asks for a fresh copy of some categories by sending a timestamp for each.
`enil_session_update_partial_full_syncs` queues them under `pendingPartialFullSyncs`;
`enil_session_complete_partial_full_syncs` moves what the snapshot of a finished sync
had pending to `lastPartialFullSyncs`. Both maps are read as timestamps, an absent
category as 0, and what each function does to them is said category by category.
-/

namespace Enil

def pendingKey : String := "pendingPartialFullSyncs"
def completedKey : String := "lastPartialFullSyncs"

/-! ## The functions -/

/-- merge_partial_timestamp: the map and whether it changed, or a failure. -/
def mergePartialTimestamp (map : Fields) (key : String) (value : Int) : Option (Fields × Bool) :=
  if value ≤ Json.coerceInt64 (map.get key) then some (map, false)
  else if ((Json.obj map).getObjectItem key).isSome then
    if (map.get key).isSome then some (map.replace key (.str (toString value)), true) else none
  else some (map ++ [(key, .str (toString value))], true)

/-- partial_map; a map that is missing is added empty. -/
def partialMap (root : Fields) (name : String) : Option Fields :=
  match root.get name with
  | none => some []
  | some (.obj map) => some map
  | some _ => none

/-- The root with the map that was changed in place. -/
def putMap (root : Fields) (name : String) (map : Fields) : Fields :=
  if (root.get name).isSome then root.replace name (.obj map) else root ++ [(name, .obj map)]

/-- One category of an update: the pending map, whether work is needed and whether
the map changed. -/
def updateCategory (completed : Fields) (acc : Fields × Bool × Bool) (item : String × Json) :
    Option (Fields × Bool × Bool) :=
  let incoming := Json.coerceInt64 (some item.2)
  if incoming ≤ Json.coerceInt64 (completed.get item.1) then some acc
  else (mergePartialTimestamp acc.1 item.1 incoming).map fun m => (m.1, true, acc.2.2 || m.2)

/-- enil_session_update_partial_full_syncs: whether work is needed, or `none` on a failure. -/
def updatePartialFullSyncs (b : Option Binding) (file : Option Fields) (targets : Fields)
    (w : WriteResult) : Option Bool × Option Fields :=
  match file with
  | none => (none, none)
  | some root =>
    if b.any fun b => !b.isMatch root then (none, file)
    else
      match partialMap root pendingKey, partialMap root completedKey with
      | some pending, some completed =>
        match targets.foldlM (updateCategory completed) (pending, false, false) with
        | none => (none, file)
        | some (pending', needed, changed) =>
          if changed then
            let written := sessionWrite file
              (putMap (putMap root pendingKey pending') completedKey completed) w
            (if written.1 then some needed else none, written.2)
          else (some needed, file)
      | _, _ => (none, file)

/-- Both loginIds are absent, or both are one string. -/
def bothLogin (before now : Option Json) : Bool :=
  match before, now with
  | none, none => true
  | some (.str a), some (.str b) => a == b
  | _, _ => false

/-- One category of a completion: the pending and the completed map. -/
def completeCategory (acc : Fields × Fields) (item : String × Json) : Option (Fields × Fields) :=
  let value := Json.coerceInt64 (some item.2)
  (mergePartialTimestamp acc.2 item.1 value).map fun m =>
    (if (acc.1.get item.1).any fun queued => Json.coerceInt64 (some queued) ≤ value then
      acc.1.delete item.1 else acc.1, m.1)

def completePartialFullSyncs (snapshot : Fields) (file : Option Fields) (w : WriteResult) :
    Bool × Option Fields :=
  match file with
  | none => (false, none)
  | some root =>
    if bothLogin (snapshot.get "loginId") (root.get "loginId") then
      match snapshot.get pendingKey with
      | none => (true, file)
      | some (.obj []) => (true, file)
      | some (.obj requests) =>
        match partialMap root pendingKey, partialMap root completedKey with
        | some pending, some completed =>
          match requests.foldlM completeCategory (pending, completed) with
          | none => (false, file)
          | some (pending', completed') =>
            let root' := putMap (putMap root pendingKey pending') completedKey completed'
            sessionWrite file (if pending' = [] then root'.delete pendingKey else root') w
        | _, _ => (false, file)
      | some _ => (false, file)
    else (false, file)

/-! ## Timestamps -/

/-- A number that fits a long long; the conversion of any other is undefined. -/
def Json.FitsInt64 : Json → Prop
  | num q => int64Min ≤ truncate q ∧ truncate q ≤ int64Max
  | _ => True

theorem Json.coerce_mem {j : Json} (h : j.FitsInt64) :
    int64Min ≤ coerceInt64 (some j) ∧ coerceInt64 (some j) ≤ int64Max := by
  cases j with
  | num q => exact h
  | str s => exact strtoll_mem s
  | null | bool | arr | obj => exact ⟨by show int64Min ≤ 0; decide, by show 0 ≤ int64Max; decide⟩

/-- A map of timestamps, over category names `C`. -/
structure Timestamps (C : Set String) (map : Fields) : Prop where
  isOver : map.Over C
  fits : ∀ f ∈ map, f.2.FitsInt64

/-- The timestamp of a category as the code reads it. -/
def timestamp (map : Fields) (key : String) : Int := Json.coerceInt64 (map.get key)

variable {C : Set String}

theorem Timestamps.nil : Timestamps C [] :=
  ⟨⟨List.nodup_nil, fun _ h => (List.not_mem_nil h).elim, fun _ h => (List.not_mem_nil h).elim⟩,
    fun _ h => (List.not_mem_nil h).elim⟩

/-! ## What the functions do -/

theorem mergePartialTimestamp_spec (hC : CaseDistinct C) {map : Fields} {key : String} {value : Int}
    (h : Timestamps C map) (hk : key ∈ C) :
    ∃ m changed, mergePartialTimestamp map key value = some (m, changed) ∧ Timestamps C m ∧
      (changed = false → m = map) ∧
      (m = map ∧ value ≤ timestamp map key ∨
        timestamp map key < value ∧
          m.get = Function.update map.get key (some (.str (toString value)))) := by
  unfold mergePartialTimestamp
  by_cases hle : value ≤ Json.coerceInt64 (map.get key)
  · rw [if_pos hle]
    exact ⟨map, false, rfl, h, fun _ => rfl, .inl ⟨rfl, hle⟩⟩
  · rw [if_neg hle, h.isOver.getObjectItem_eq hC hk]
    have hlt : timestamp map key < value := not_le.mp hle
    cases hg : map.get key with
    | some old =>
      refine ⟨map.replace key (.str (toString value)), true, rfl,
        ⟨h.isOver.replace rfl, ?_⟩, fun he => (by cases he), .inr ⟨hlt, ?_⟩⟩
      · intro f hf
        rcases Fields.mem_replace hf with hf | hf
        · exact h.fits f hf
        · rw [hf]
          trivial
      · funext k
        rw [Fields.get_replace, hg, Function.update_apply]
        by_cases hkk : k = key <;> simp [hkk]
    | none =>
      refine ⟨map ++ [(key, .str (toString value))], true, rfl,
        ⟨h.isOver.concat hk rfl hg, ?_⟩, fun he => (by cases he), .inr ⟨hlt, ?_⟩⟩
      · intro f hf
        rcases List.mem_append.mp hf with hf | hf
        · exact h.fits f hf
        · rw [List.mem_singleton.mp hf]
          trivial
      · funext k
        rw [Fields.get_append, Fields.get_cons, Fields.get_nil, Function.update_apply]
        by_cases hkk : k = key
        · subst hkk
          simp [hg]
        · simp [hkk, Ne.symm hkk]

theorem timestamp_update {m map : Fields} {key : String} {value : Int}
    (hv : Json.int64Min ≤ value ∧ value ≤ Json.int64Max)
    (h : m.get = Function.update map.get key (some (.str (toString value)))) (k : String) :
    timestamp m k = if k = key then value else timestamp map k := by
  unfold timestamp
  rw [h, Function.update_apply]
  split
  · exact Json.strtoll_toString hv.1 hv.2
  · rfl

/-- The categories of an update, one after the other: nothing pending gets lower, and what
asks for work is pending afterwards. -/
theorem updateCategory_fold (hC : CaseDistinct C) (completed : Fields) {targets : Fields} :
    ∀ {pending : Fields} (needed changed : Bool),
      (∀ f ∈ targets, f.1 ∈ C ∧ f.2.FitsInt64) → Timestamps C pending →
      ∃ pending' needed' changed',
        targets.foldlM (updateCategory completed) (pending, needed, changed) =
            some (pending', needed', changed') ∧
          Timestamps C pending' ∧ (∀ k, timestamp pending k ≤ timestamp pending' k) ∧
          (∀ f ∈ targets, timestamp completed f.1 < Json.coerceInt64 (some f.2) →
            Json.coerceInt64 (some f.2) ≤ timestamp pending' f.1) ∧
          (changed' = false → changed = false ∧ pending' = pending) := by
  induction targets with
  | nil =>
    intro pending needed changed _ hp
    exact ⟨pending, needed, changed, rfl, hp, fun _ => le_rfl,
      fun _ h => (List.not_mem_nil h).elim, fun h => ⟨h, rfl⟩⟩
  | cons f targets ih =>
    intro pending needed changed ht hp
    rw [List.forall_mem_cons] at ht
    rw [List.foldlM_cons]
    by_cases hle : Json.coerceInt64 (some f.2) ≤ Json.coerceInt64 (completed.get f.1)
    · have hstep : updateCategory completed (pending, needed, changed) f =
          some (pending, needed, changed) := by rw [updateCategory, if_pos hle]
      rw [hstep]
      obtain ⟨p, n, c, heq, hp', hmono, hin, hch⟩ := ih needed changed ht.2 hp
      refine ⟨p, n, c, heq, hp', hmono, ?_, hch⟩
      rw [List.forall_mem_cons]
      exact ⟨fun hlt => absurd hle (not_le.mpr hlt), hin⟩
    · obtain ⟨m, ch, hm, htm, hsame, hval⟩ :=
        mergePartialTimestamp_spec hC hp ht.1.1
      have hstep : updateCategory completed (pending, needed, changed) f =
          some (m, true, changed || ch) := by rw [updateCategory, if_neg hle, hm]; rfl
      rw [hstep]
      obtain ⟨p, n, c, heq, hp', hmono, hin, hch⟩ := ih true (changed || ch) ht.2 htm
      have hkey : Json.coerceInt64 (some f.2) ≤ timestamp m f.1 ∧
          ∀ k, timestamp pending k ≤ timestamp m k := by
        rcases hval with ⟨rfl, hle'⟩ | ⟨hlt, hget⟩
        · exact ⟨hle', fun _ => le_rfl⟩
        · have hts := timestamp_update (Json.coerce_mem ht.1.2) hget
          refine ⟨by rw [hts, if_pos rfl], fun k => ?_⟩
          rw [hts]
          split
          · rename_i hk
            subst hk
            exact hlt.le
          · exact le_rfl
      refine ⟨p, n, c, heq, hp', fun k => (hkey.2 k).trans (hmono k), ?_, ?_⟩
      · rw [List.forall_mem_cons]
        exact ⟨fun _ => hkey.1.trans (hmono f.1), hin⟩
      · intro hc
        obtain ⟨hor, hpm⟩ := hch hc
        rw [Bool.or_eq_false_iff] at hor
        exact ⟨hor.1, hpm.trans (hsame hor.2)⟩

/-- The categories of a completion: no completed timestamp gets lower, each that changes
is one of the requests, and only what a request covers stops pending. -/
theorem completeCategory_fold (hC : CaseDistinct C) {requests : Fields} :
    ∀ {pending completed : Fields}, (∀ f ∈ requests, f.1 ∈ C ∧ f.2.FitsInt64) →
      Timestamps C pending → Timestamps C completed →
      ∃ pending' completed',
        requests.foldlM completeCategory (pending, completed) = some (pending', completed') ∧
          Timestamps C pending' ∧ Timestamps C completed' ∧
          (∀ k, timestamp completed k ≤ timestamp completed' k) ∧
          (∀ k, completed'.get k = completed.get k ∨ ∃ f ∈ requests, f.1 = k ∧
            (completed'.get k).map (fun j => Json.coerceInt64 (some j)) =
              some (Json.coerceInt64 (some f.2))) ∧
          (∀ k, pending'.get k = pending.get k ∨
            ∃ f ∈ requests, f.1 = k ∧ timestamp pending k ≤ Json.coerceInt64 (some f.2)) := by
  induction requests with
  | nil =>
    intro pending completed _ hp hc
    exact ⟨pending, completed, rfl, hp, hc, fun _ => le_rfl, fun _ => .inl rfl, fun _ => .inl rfl⟩
  | cons f requests ih =>
    intro pending completed hr hp hc
    rw [List.forall_mem_cons] at hr
    rw [List.foldlM_cons]
    have hfit := Json.coerce_mem hr.1.2
    obtain ⟨m, ch, hm, htm, -, hval⟩ := mergePartialTimestamp_spec hC hc hr.1.1
    -- What the step leaves pending.
    obtain ⟨q, hq, htq, hdel⟩ : ∃ q, completeCategory (pending, completed) f = some (q, m) ∧
        Timestamps C q ∧ (q = pending ∨ q = pending.delete f.1 ∧
          timestamp pending f.1 ≤ Json.coerceInt64 (some f.2)) := by
      rw [completeCategory, hm]
      dsimp only [Option.map_some]
      split
      · rename_i hany
        refine ⟨_, rfl, ⟨hp.isOver.delete, fun g hg => hp.fits g (List.mem_of_mem_eraseP hg)⟩,
          .inr ⟨rfl, ?_⟩⟩
        rw [timestamp]
        cases hg : pending.get f.1 with
        | none =>
          rw [hg] at hany
          cases hany
        | some j => simpa [hg] using hany
      · exact ⟨_, rfl, hp, .inl rfl⟩
    rw [hq]
    obtain ⟨p, c, heq, hp', hc', hmono, hcomp, hpend⟩ := ih hr.2 htq htm
    have hmap : ∀ k, timestamp completed k ≤ timestamp m k := by
      intro k
      rcases hval with ⟨rfl, -⟩ | ⟨hlt, hget⟩
      · exact le_rfl
      · rw [timestamp_update hfit hget]
        split
        · rename_i hk
          subst hk
          exact hlt.le
        · exact le_rfl
    refine ⟨p, c, heq, hp', hc', fun k => (hmap k).trans (hmono k), fun k => ?_, fun k => ?_⟩
    · rcases hcomp k with hk | ⟨g, hg, hgk, hget⟩
      · rcases hval with ⟨rfl, -⟩ | ⟨-, hget⟩
        · exact .inl hk
        · by_cases hkf : k = f.1
          · refine .inr ⟨f, List.mem_cons_self, hkf.symm, ?_⟩
            rw [hk, hget, hkf, Function.update_self, Option.map_some]
            exact congrArg some (Json.strtoll_toString hfit.1 hfit.2)
          · rw [hk, hget, Function.update_of_ne hkf]
            exact .inl rfl
      · exact .inr ⟨g, List.mem_cons_of_mem _ hg, hgk, hget⟩
    · by_cases hkf : k = f.1
      · subst hkf
        rcases hdel with rfl | ⟨-, hle⟩
        · exact (hpend f.1).imp_right fun ⟨g, hg, h⟩ => ⟨g, List.mem_cons_of_mem _ hg, h⟩
        · exact .inr ⟨f, List.mem_cons_self, rfl, hle⟩
      · have hqk : q.get k = pending.get k := by
          rcases hdel with rfl | ⟨rfl, -⟩
          · rfl
          · rw [Fields.get_delete hp.isOver.nodup, if_neg hkf]
        rcases hpend k with hk | ⟨g, hg, hgk, hle⟩
        · exact .inl (hk.trans hqk)
        · refine .inr ⟨g, List.mem_cons_of_mem _ hg, hgk, ?_⟩
          rw [timestamp, ← hqk]
          exact hle

/-! ## What the functions leave -/

theorem get_putMap (root : Fields) (name : String) (map : Fields) (k : String) :
    (putMap root name map).get k = if k = name then some (.obj map) else root.get k := by
  unfold putMap
  split
  · rename_i h
    rw [Fields.get_replace]
    simp only [h, and_true]
  · rename_i h
    rw [Bool.not_eq_true, Option.isSome_eq_false_iff, Option.isNone_iff_eq_none] at h
    rw [Fields.get_append, Fields.get_cons, Fields.get_nil]
    by_cases hk : k = name
    · subst hk
      simp [h]
    · simp [hk, Ne.symm hk]

theorem Fields.Over.putMap {root map : Fields} {name : String} (h : root.Over N) (hname : name ∈ N)
    (hmap : (Json.obj map).distinct = true) : (putMap root name map).Over N := by
  unfold Enil.putMap
  split
  · exact h.replace hmap
  · rename_i hg
    rw [Bool.not_eq_true, Option.isSome_eq_false_iff, Option.isNone_iff_eq_none] at hg
    exact h.concat hname hmap hg

/-- What every step of a fold that succeeds keeps. -/
theorem foldlM_invariant {α β : Type} {f : β → α → Option β} {P : β → Prop}
    (hf : ∀ b a b', P b → f b a = some b' → P b') {xs : List α} {b b' : β} (hb : P b)
    (h : xs.foldlM f b = some b') : P b' := by
  induction xs generalizing b with
  | nil => exact Option.some.inj h ▸ hb
  | cons a xs ih =>
    rw [List.foldlM_cons] at h
    obtain ⟨c, hc, h⟩ := Option.bind_eq_some_iff.mp h
    exact ih (hf b a c hb hc) h

/-- A category is only added where no name like it is. -/
theorem mergePartialTimestamp_distinct {map : Fields} {key : String} {value : Int}
    {r : Fields × Bool} (hmap : (Json.obj map).distinct = true)
    (h : mergePartialTimestamp map key value = some r) : (Json.obj r.1).distinct = true := by
  rw [Json.distinct_obj] at hmap ⊢
  unfold mergePartialTimestamp at h
  split at h
  · obtain rfl := Option.some.inj h
    exact hmap
  · split at h
    · split at h
      · obtain rfl := Option.some.inj h
        refine ⟨?_, fun f hf => ?_⟩
        · have hkeys : ∀ fs : Fields, (fs.map fun f => Json.foldCase f.1) =
              (fs.map Prod.fst).map Json.foldCase := fun fs => by rw [List.map_map]; rfl
          rw [hkeys, Fields.keys_replace, ← hkeys]
          exact hmap.1
        · rcases Fields.mem_replace hf with hf | hf
          · exact hmap.2 f hf
          · rw [hf]
            rfl
      · cases h
    · rename_i hnone
      obtain rfl := Option.some.inj h
      refine ⟨?_, fun f hf => ?_⟩
      · rw [List.map_append]
        refine hmap.1.append (List.nodup_singleton _) fun k hk hk' => hnone ?_
        rw [List.map_singleton, List.mem_singleton] at hk'
        obtain ⟨f, hf, hfk⟩ := List.mem_map.mp hk
        rw [Json.getObjectItem, Option.isSome_map, List.find?_isSome]
        exact ⟨f, hf, Json.keyEq_iff.mpr (hfk.trans hk')⟩
      · rcases List.mem_append.mp hf with hf | hf
        · exact hmap.2 f hf
        · rw [List.mem_singleton.mp hf]
          rfl

theorem updateCategory_distinct {completed targets pending : Fields} {b b' : Bool}
    {r : Fields × Bool × Bool} (hp : (Json.obj pending).distinct = true)
    (h : targets.foldlM (updateCategory completed) (pending, b, b') = some r) :
    (Json.obj r.1).distinct = true := by
  refine foldlM_invariant (P := fun r => (Json.obj r.1).distinct = true) (fun acc f acc' hacc hf => ?_)
    (by exact hp) h
  unfold updateCategory at hf
  dsimp only at hf
  split at hf
  · exact Option.some.inj hf ▸ hacc
  · obtain ⟨m, hm, rfl⟩ := Option.map_eq_some_iff.mp hf
    exact mergePartialTimestamp_distinct hacc hm

theorem completeCategory_distinct {requests pending completed : Fields} {r : Fields × Fields}
    (hp : (Json.obj pending).distinct = true) (hc : (Json.obj completed).distinct = true)
    (h : requests.foldlM completeCategory (pending, completed) = some r) :
    (Json.obj r.1).distinct = true ∧ (Json.obj r.2).distinct = true := by
  refine foldlM_invariant
    (P := fun r => (Json.obj r.1).distinct = true ∧ (Json.obj r.2).distinct = true)
    (fun acc f acc' hacc hf => ?_) (by exact ⟨hp, hc⟩) h
  obtain ⟨m, hm, rfl⟩ := Option.map_eq_some_iff.mp hf
  refine ⟨?_, mergePartialTimestamp_distinct hacc.2 hm⟩
  dsimp only
  split
  · have hd := Json.distinct_obj.mp hacc.1
    rw [Json.distinct_obj]
    exact ⟨hd.1.sublist (List.eraseP_sublist.map _), fun g hg =>
      hd.2 g (List.mem_of_mem_eraseP hg)⟩
  · exact hacc.1

section Over

variable {N : Set String} {root map : Fields} {name : String}

theorem partialMap_distinct (h : root.Over N) (hm : partialMap root name = some map) :
    (Json.obj map).distinct = true := by
  unfold partialMap at hm
  split at hm
  · obtain rfl := Option.some.inj hm
    rfl
  · rename_i hg
    obtain rfl := Option.some.inj hm
    exact h.get_distinct hg
  · cases hm

/-- The item under a name that neither map has. -/
theorem get_putMap_putMap (root pending completed : Fields) {k : String} (hp : k ≠ pendingKey)
    (hc : k ≠ completedKey) :
    (putMap (putMap root pendingKey pending) completedKey completed).get k = root.get k := by
  rw [get_putMap, if_neg hc, get_putMap, if_neg hp]

end Over

end Enil
