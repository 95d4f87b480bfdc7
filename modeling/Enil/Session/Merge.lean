import Enil.Lib.Machine
import Enil.Session.Names
import Std.Data.String.ToInt

/-!
# The three-way merge of a save

`enil_session_save` compares what it would write with the snapshot serialised
again and changes the file only where the two differ. Key by key this is
`mergeValue`; on the fields of `session_t` it writes the fields that were
changed since the snapshot and no others, for any file in between.
-/

namespace Enil

open Function (update)

variable {N : Set String}

/-! ## One key -/

/-- The value of a key after the merge, from those in the baseline, in the session
to write and in the file. -/
def mergeValue (old next current : Option Json) : Option Json :=
  match next with
  | some v => if old.any fun o => Json.compare o v then current else some v
  | none => if old.isSome then none else current

namespace Fields

/-- A fold whose steps each update the key of their item, over different keys. -/
theorem foldl_get {β : Type} {step : Fields → String × β → Fields}
    {e : String × β → Option Json → Option Json} :
    ∀ {l : List (String × β)} {current : Fields}, (l.map Prod.fst).Nodup → current.Over N →
      (∀ c : Fields, ∀ f ∈ l, c.Over N →
        (step c f).Over N ∧ (step c f).get = update c.get f.1 (e f (c.get f.1))) →
      (l.foldl step current).Over N ∧ ∀ k, (l.foldl step current).get k =
        match l.find? fun f => f.1 == k with
        | some f => e f (current.get k)
        | none => current.get k
  | [], current, _, hc, _ => ⟨hc, fun _ => rfl⟩
  | f :: l, current, hn, hc, hstep => by
    rw [List.map_cons, List.nodup_cons] at hn
    obtain ⟨hover, hget⟩ := hstep current f List.mem_cons_self hc
    obtain ⟨hover', hget'⟩ := foldl_get hn.2 hover fun c g hg => hstep c g (List.mem_cons_of_mem _ hg)
    refine ⟨hover', fun k => ?_⟩
    rw [List.foldl_cons, hget' k, hget, List.find?_cons]
    by_cases hk : f.1 = k
    · -- The later items have other keys.
      have hnone : l.find? (fun g => g.1 == k) = none := by
        rw [List.find?_eq_none]
        intro g hg he
        rw [beq_iff_eq] at he
        exact hn.1 (List.mem_map.mpr ⟨g, hg, he.trans hk.symm⟩)
      simp only [hnone, hk, beq_self_eq_true, Function.update_self]
    · have hb : (f.1 == k) = false := by simpa using hk
      simp only [hb, Function.update_of_ne (Ne.symm hk)]

end Fields

theorem mergeItem_get (baseline : Fields) {current : Fields} {f : String × Json} (hc : current.Over N)
    (hf : f.1 ∈ N) (hv : f.2.distinct = true) :
    (mergeItem baseline current f).Over N ∧ (mergeItem baseline current f).get =
      update current.get f.1
        (if (baseline.get f.1).any fun o => Json.compare o f.2 then current.get f.1
          else some f.2) := by
  unfold mergeItem
  split
  · exact ⟨hc, (Function.update_eq_self _ _).symm⟩
  · exact ⟨hc.put hf hv, Fields.get_put_eq hc⟩

theorem mergeDelete_get (hN : CaseDistinct N) {next current : Fields} {f : String × Json}
    (hn : next.Over N) (hc : current.Over N) (hf : f.1 ∈ N) :
    (mergeDelete next current f).Over N ∧ (mergeDelete next current f).get =
      update current.get f.1 (if (next.get f.1).isSome then current.get f.1 else none) := by
  unfold mergeDelete
  rw [hn.getObjectItem_eq hN hf]
  split
  · exact ⟨hc, (Function.update_eq_self _ _).symm⟩
  · exact ⟨hc.delete, Fields.get_delete_eq hc⟩

/-- The merge, key by key. -/
theorem sessionMerge_get (hN : CaseDistinct N) {baseline next current : Fields}
    (hb : baseline.Over N) (hn : next.Over N) (hc : current.Over N) :
    (sessionMerge baseline next current).Over N ∧ ∀ k, (sessionMerge baseline next current).get k =
      mergeValue (baseline.get k) (next.get k) (current.get k) := by
  obtain ⟨hover, hget⟩ := Fields.foldl_get (e := fun f cur =>
      if (baseline.get f.1).any fun o => Json.compare o f.2 then cur else some f.2)
    hn.nodup hc fun c f hf hco => mergeItem_get baseline hco (hn.mem f hf)
      (hn.distinct f hf)
  obtain ⟨hover', hget'⟩ := Fields.foldl_get (e := fun f cur =>
      if (next.get f.1).isSome then cur else none)
    hb.nodup hover fun c f hf hco => mergeDelete_get hN hn hco (hb.mem f hf)
  refine ⟨hover', fun k => ?_⟩
  have hkey : ∀ {fs : Fields} {f : String × Json}, fs.find? (fun g => g.1 == k) = some f →
      f.1 = k := fun h => by simpa using List.find?_some h
  have hfind : ∀ fs : Fields, fs.get k = (fs.find? fun g => g.1 == k).map Prod.snd := fun _ => rfl
  unfold sessionMerge mergeValue
  rw [hget' k, hget k, hfind next, hfind baseline]
  cases hb : baseline.find? fun g => g.1 == k with
  | none =>
    cases hn : next.find? fun g => g.1 == k with
    | none => rfl
    | some f =>
      have hget : baseline.get f.1 = none := by rw [hkey hn, hfind, hb]; rfl
      simp [hget]
  | some o =>
    cases hn : next.find? fun g => g.1 == k with
    | none =>
      have hget : next.get o.1 = none := by rw [hkey hb, hfind, hn]; rfl
      simp [hget]
    | some f =>
      have hget : next.get o.1 = some f.2 := by rw [hkey hb, hfind, hn]; rfl
      have hold : baseline.get f.1 = some o.2 := by rw [hkey hn, hfind, hb]; rfl
      simp [hget, hold]

/-! ## Fields of a session -/

namespace FieldValue

/-- Equal as the writer of the session sees it; JSON as cJSON_Compare does. -/
def Same : FieldValue → FieldValue → Prop
  | str a, str b => a = b
  | i64Str a, i64Str b => a = b
  | i64Num a, i64Num b => a = b
  | obj none, obj none => True
  | obj (some a), obj (some b) => Json.compare a b = true
  | flag a, flag b => a = b
  | identity a, identity b => a = b
  | _, _ => False

def SameKind : FieldValue → FieldValue → Prop
  | str _, str _ | i64Str _, i64Str _ | i64Num _, i64Num _ | obj _, obj _ | flag _, flag _
  | identity _, identity _ => True
  | _, _ => False

/-- A counter that a double tells apart from its neighbours. -/
def Exact : FieldValue → Prop
  | i64Num v => |v| < 2 ^ 52
  | _ => True

def Distinct : FieldValue → Prop
  | obj v => ∀ j ∈ v, j.distinct = true
  | _ => True

theorem identity_distinct (i : Identity) : i.toJson.distinct = true := by
  rw [Identity.toJson, Json.distinct_obj]
  refine ⟨?_, by simp [Json.distinct]⟩
  show (["schemaVersion", "transport", "profileId", "application", "userAgent", "systemName",
    "modelName", "gatewayVersion", "autoLoginIsRequired"].map Json.foldCase).Nodup
  decide

theorem item_distinct {v : FieldValue} (h : v.Distinct) : ∀ j ∈ v.item, j.distinct = true := by
  intro j hj
  cases v with
  | str s =>
    obtain ⟨s, -, rfl⟩ := Option.map_eq_some_iff.mp hj
    rfl
  | i64Str n | i64Num n =>
    obtain rfl := Option.some.inj hj
    rfl
  | obj v => exact h j hj
  | flag b =>
    cases b with
    | false => cases hj
    | true =>
      obtain rfl := Option.some.inj hj
      rfl
  | identity i =>
    obtain rfl := Option.some.inj hj
    exact identity_distinct i

theorem same_self {v : FieldValue} (h : v.Distinct) : v.Same v := by
  cases v with
  | obj v =>
    cases v with
    | none => trivial
    | some j => exact Json.compare_refl (h j rfl)
  | _ => rfl

/-- Identities that compare equal are. -/
theorem compare_identity {i j : Identity} (h : Json.compare i.toJson j.toJson = true) : i = j := by
  simp only [Json.compare, Identity.toJson, Json.depth, Json.depthItems, Nat.max_self, Nat.max_zero,
    Json.compareFuel, Bool.and_eq_true, List.all_cons] at h
  obtain ⟨⟨-, ht, hp, ha, hu, hs, hm, hg, hl, -⟩, -⟩ := h
  -- Each item of the one is looked up in the other, under the same key.
  simp [Json.getObjectItemCaseSensitive, Json.compareFuel] at ht hp ha hu hs hm hg hl
  cases i
  cases j
  simp only [Identity.mk.injEq]
  exact ⟨hp, ht, ha, hu, hs, hm, hg, hl⟩

/-- A field left as it was leaves the file as it is. -/
theorem mergeValue_of_same {a b : FieldValue} (h : a.Same b) (hb : b.Distinct)
    (current : Option Json) : mergeValue a.item b.item current = current := by
  have hself : ∀ {v : FieldValue}, v.Distinct → mergeValue v.item v.item current = current := by
    intro v hv
    unfold mergeValue
    cases hi : v.item with
    | none => rfl
    | some j => simp [Json.compare_refl (item_distinct hv j hi)]
  cases a <;> cases b <;> simp only [Same] at h
  case obj.obj a b =>
    cases a with
    | none =>
      cases b with
      | none => rfl
      | some b => exact h.elim
    | some a =>
      cases b with
      | none => exact h.elim
      | some b =>
        have hab : Json.compare a b = true := h
        simp [mergeValue, item, hab]
  all_goals
    subst h
    exact hself hb

/-- A field that was changed goes into the file. -/
theorem mergeValue_of_not_same {a b : FieldValue} (hk : a.SameKind b) (ha : a.Exact) (hb : b.Exact)
    (h : ¬ a.Same b) (current : Option Json) : mergeValue a.item b.item current = b.item := by
  have hdiffer : ∀ {x y : Json}, Json.compare x y ≠ true →
      mergeValue (some x) (some y) current = some y := by
    intro x y hxy
    simp [mergeValue, hxy]
  cases a <;> cases b <;> simp only [SameKind] at hk <;> simp only [Same] at h
  case str.str a b =>
    cases a with
    | none =>
      cases b with
      | none => exact absurd rfl h
      | some b => rfl
    | some a =>
      cases b with
      | none => rfl
      | some b =>
        refine hdiffer ?_
        simpa using h
  case i64Str.i64Str a b =>
    refine hdiffer ?_
    rw [Json.compare_str, ne_eq, beq_iff_eq]
    exact fun he => h (Int.repr_injective he)
  case i64Num.i64Num a b =>
    refine hdiffer ?_
    have hle : ∀ {n : Int}, |n| < 2 ^ 52 → n.natAbs ≤ 2 ^ 53 := by
      intro n hn
      rw [Int.abs_eq_natAbs] at hn
      omega
    rw [Json.compare_num, Json.toDouble_of_le (hle ha), Json.toDouble_of_le (hle hb), ne_eq,
      Json.compareDouble_intCast ha hb]
    exact h
  case obj.obj a b =>
    cases a with
    | none =>
      cases b with
      | none => exact absurd trivial h
      | some b => rfl
    | some a =>
      cases b with
      | none => rfl
      | some b => exact hdiffer h
  case flag.flag a b =>
    cases a <;> cases b <;> first | exact absurd rfl h | rfl
  case identity.identity a b => exact hdiffer fun he => h (compare_identity he)

end FieldValue

namespace Session

def Distinct (s : Session) : Prop := ∀ f ∈ s.fields, f.2.Distinct

/-- The fields of two sessions are stored alike. -/
theorem fields_sameKind (s₀ s : Session) :
    List.Forall₂ (fun f g => f.1 = g.1 ∧ f.2.SameKind g.2) s₀.fields s.fields := by
  unfold fields
  repeat first
    | exact List.Forall₂.nil
    | refine List.Forall₂.cons ⟨rfl, trivial⟩ ?_

end Session

theorem find?_forall₂ {α β : Type} {R : String × α → String × β → Prop}
    (hR : ∀ f g, R f g → f.1 = g.1) (k : String) {l : List (String × α)} {m : List (String × β)}
    (h : List.Forall₂ R l m) :
    Option.Rel R (l.find? fun f => f.1 == k) (m.find? fun g => g.1 == k) := by
  induction h with
  | nil => exact .none
  | @cons f g l m hfg _ ih =>
    rw [List.find?_cons, List.find?_cons, hR f g hfg]
    cases g.1 == k with
    | true => exact .some hfg
    | false => exact ih

theorem find?_of_mem {β : Type} {l : List (String × β)} {f : String × β}
    (hn : (l.map Prod.fst).Nodup) (h : f ∈ l) : l.find? (fun g => g.1 == f.1) = some f := by
  induction l with
  | nil => cases h
  | cons g l ih =>
    rw [List.map_cons, List.nodup_cons] at hn
    rw [List.find?_cons]
    rcases List.mem_cons.mp h with rfl | h
    · simp
    · have hne : (g.1 == f.1) = false := by
        rw [beq_eq_false_iff_ne]
        intro he
        exact hn.1 (List.mem_map.mpr ⟨f, h, he.symm⟩)
      rw [hne]
      exact ih hn.2 h

theorem sessionParse_snapshot {root : Fields} {s : Session} (h : sessionParse root = some s) :
    s.snapshot = root := by
  unfold sessionParse at h
  simp only [Option.bind_eq_bind, Option.bind_eq_some_iff, Option.some.injEq] at h
  obtain ⟨i, -, t, -, rfl⟩ := h
  rfl

theorem sessionParse_distinct {root : Fields} {s : Session}
    (hroot : ∀ f ∈ root, f.2.distinct = true) (h : sessionParse root = some s) : s.Distinct := by
  have hitem : ∀ k, ∀ j ∈ (Json.obj root).getObjectItem k, j.distinct = true := by
    intro k j hj
    obtain ⟨f, hf, rfl⟩ := Option.map_eq_some_iff.mp hj
    exact hroot f (List.mem_of_find?_eq_some hf)
  unfold sessionParse at h
  simp only [Option.bind_eq_bind, Option.bind_eq_some_iff, Option.some.injEq] at h
  obtain ⟨i, -, t, -, rfl⟩ := h
  simp only [Session.Distinct, Session.fields, List.forall_mem_cons, FieldValue.Distinct,
    true_and, and_true, List.not_mem_nil, false_implies, implies_true]
  exact ⟨hitem _, hitem _, hitem _, hitem _, hitem _, hitem _⟩

section Save

variable (hN : CaseDistinct N) (hkeys : ∀ k ∈ sessionKeys, k ∈ N)
include hN hkeys

/-- What a session is serialised to, key by key. -/
theorem sessionToJson_get {s : Session} (hsnap : s.snapshot.Over N) (hd : s.Distinct) :
    (sessionToJson s).Over N ∧ ∀ k, (sessionToJson s).get k =
      match s.fields.find? fun f => f.1 == k with
      | some f => f.2.item
      | none => s.snapshot.get k := by
  have hn : (s.fields.map Prod.fst).Nodup := s.fields_keys ▸ sessionKeys_nodup
  have hstep : ∀ c : Fields, ∀ f ∈ s.fields, c.Over N → (c.set f.1 f.2.item).Over N ∧
      (c.set f.1 f.2.item).get = update c.get f.1 f.2.item := by
    intro c f hf hc
    have hk : f.1 ∈ N := hkeys _ (s.fields_keys ▸ List.mem_map_of_mem hf)
    exact ⟨hc.set hN hk (FieldValue.item_distinct (hd f hf)), hc.get_set hN hk _⟩
  obtain ⟨hover, hget⟩ :=
    Fields.foldl_get (e := fun (f : String × FieldValue) _ => f.2.item) hn hsnap hstep
  refine ⟨hover, fun k => (hget k).trans ?_⟩
  cases s.fields.find? fun f => f.1 == k <;> rfl

end Save

/-- What a save of `s`, loaded as `s₀`, makes of the file. -/
structure Merged (s₀ s : Session) (before after : Fields) : Prop where
  /-- A field left as it was keeps the value in the file. -/
  unchanged : ∀ k a, (k, a) ∈ s₀.fields → (k, a) ∈ s.fields → after.get k = before.get k
  /-- A changed field takes the value of the session; a cleared one is removed. -/
  changed : ∀ k a b, (k, a) ∈ s₀.fields → (k, b) ∈ s.fields → ¬ a.Same b → a.Exact → b.Exact →
    after.get k = b.item
  /-- JSON that cJSON_Compare takes for the same is left as it is in the file. -/
  same : ∀ k a b, (k, a) ∈ s₀.fields → (k, b) ∈ s.fields → a.Same b → after.get k = before.get k
  unknown : ∀ k, k ∉ sessionKeys → after.get k = before.get k

section Save

variable (hN : CaseDistinct N) (hkeys : ∀ k ∈ sessionKeys, k ∈ N)
include hN hkeys

theorem sessionMerge_merged {s₀ s : Session} {current : Fields} (hsnap : s.snapshot = s₀.snapshot)
    (hs : s₀.snapshot.Over N) (hd₀ : s₀.Distinct) (hd : s.Distinct) (hc : current.Over N) :
    (sessionMerge (sessionToJson s₀) (sessionToJson s) current).Over N ∧
      Merged s₀ s current (sessionMerge (sessionToJson s₀) (sessionToJson s) current) := by
  obtain ⟨hob, hbase⟩ := sessionToJson_get hN hkeys hs hd₀
  obtain ⟨hon, hnext⟩ := sessionToJson_get hN hkeys (hsnap ▸ hs) hd
  obtain ⟨hover, hget⟩ := sessionMerge_get hN hob hon hc
  have hfind : ∀ {s : Session} {k : String} {a : FieldValue}, (k, a) ∈ s.fields →
      s.fields.find? (fun f => f.1 == k) = some (k, a) := by
    intro s k a ha
    exact find?_of_mem (f := (k, a)) (s.fields_keys ▸ sessionKeys_nodup) ha
  have hfield : ∀ {k : String} {a b : FieldValue}, (k, a) ∈ s₀.fields → (k, b) ∈ s.fields →
      (sessionMerge (sessionToJson s₀) (sessionToJson s) current).get k =
        mergeValue a.item b.item (current.get k) ∧ a.SameKind b ∧ b.Distinct := by
    intro k a b ha hb
    have hrel := find?_forall₂ (fun _ _ h => h.1) k (s₀.fields_sameKind s)
    rw [hfind ha, hfind hb] at hrel
    cases hrel with
    | some hkind =>
      refine ⟨?_, hkind.2, hd _ hb⟩
      rw [hget, hbase, hnext, hfind ha, hfind hb]
  have hsame : ∀ k a b, (k, a) ∈ s₀.fields → (k, b) ∈ s.fields → a.Same b →
      (sessionMerge (sessionToJson s₀) (sessionToJson s) current).get k = current.get k := by
    intro k a b ha hb hab
    obtain ⟨hval, -, hdb⟩ := hfield ha hb
    rw [hval, FieldValue.mergeValue_of_same hab hdb]
  refine ⟨hover, fun k a ha hb => hsame k a a ha hb (FieldValue.same_self (hd _ hb)),
    fun k a b ha hb hab hxa hxb => ?_, hsame, fun k hk => ?_⟩
  · obtain ⟨hval, hkind, -⟩ := hfield ha hb
    rw [hval, FieldValue.mergeValue_of_not_same hkind hxa hxb hab]
  · -- Other keys come from the snapshot on both sides.
    have hnone : ∀ s : Session, s.fields.find? (fun f => f.1 == k) = none := by
      intro s
      rw [List.find?_eq_none]
      intro f hf he
      rw [beq_iff_eq] at he
      exact hk (he ▸ s.fields_keys ▸ List.mem_map_of_mem hf)
    rw [hget, hbase, hnext, hnone, hnone, hsnap]
    unfold mergeValue
    cases hv : s₀.snapshot.get k with
    | none => rfl
    | some v => simp [Json.compare_refl (hs.get_distinct hv)]

end Save

end Enil
