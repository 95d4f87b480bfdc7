import Enil.Json.Basic
import Enil.Lib.Memo

/-!
# The key caches of a decrypt phase

`pubkey_cache_get` and `group_key_cache_get` keep what was fetched for a pair of a mid and
a key id in three arrays that grow together. A fetch is a function of the pair. The slots
in use are a memo of the fetches, whichever allocations fail while an entry is inserted.
-/

namespace Enil

open Lib

structure GroupSharedKey where
  keyVersion : Int := 0
  groupKeyId : Int := 0
  creator : Option String := none
  creatorKeyId : Int := 0
  receiver : Option String := none
  receiverKeyId : Int := 0
  encryptedSharedKey : Option String := none
  allowedTypes : Option Json := none
  specVersion : Int := 0
  raw : Option Json := none

/-- The three arrays of a cache, allocated one by one. A slot that was never written holds
nothing. -/
structure KeyCache (β : Type) where
  mids : List (Option String) := []
  keyIds : List (Option Int) := []
  keys : List (Option β) := []
  count : Nat := 0
  cap : Nat := 0

/-- Which allocations of an insertion succeed: the three of the growth, the copy of the
mid, and those that copying the key makes, in their order. -/
structure Allocs where
  mids : Bool := true
  keyIds : Bool := true
  keys : Bool := true
  mid : Bool := true
  copy : Fin 5 → Bool := fun _ => true

def Allocs.succeed (a : Allocs) : Prop :=
  a.mids = true ∧ a.keyIds = true ∧ a.keys = true ∧ a.mid = true ∧ ∀ i, a.copy i = true

instance (a : Allocs) : Decidable a.succeed := inferInstanceAs (Decidable (_ ∧ _))

/-- One call: the pair, and the allocations it will find. -/
structure KeyLookup where
  mid : Option String
  keyId : Int
  allocs : Allocs := {}

/-- What a call returns, whether it went to the server, and the cache it leaves. -/
structure KeyAnswer (β : Type) where
  value : Option β
  fetched : Bool
  cache : KeyCache β

/-- strdup, or another copy, of what may be NULL: `none` where the allocation fails. -/
def dupField {α : Type} (ok : Bool) : Option α → Option (Option α)
  | none => some none
  | some v => if ok then some (some v) else none

def groupKeyCopy (copy : Fin 5 → Bool) (src : GroupSharedKey) : Option GroupSharedKey := do
  let creator ← dupField (copy 0) src.creator
  let receiver ← dupField (copy 1) src.receiver
  let encryptedSharedKey ← dupField (copy 2) src.encryptedSharedKey
  let allowedTypes ← dupField (copy 3) src.allowedTypes
  let raw ← dupField (copy 4) src.raw
  return {
    keyVersion := src.keyVersion, groupKeyId := src.groupKeyId
    creatorKeyId := src.creatorKeyId, receiverKeyId := src.receiverKeyId
    specVersion := src.specVersion
    creator, receiver, encryptedSharedKey, allowedTypes, raw }

namespace KeyCache

variable {β : Type}

def slots (c : KeyCache β) : List (Option String × Option Int × Option β) :=
  (c.mids.take c.count).zip ((c.keyIds.take c.count).zip (c.keys.take c.count))

/-- The scan for a pair: the slot that holds it. -/
def findPair (c : KeyCache β) (mid : String) (keyId : Int) :
    Option (Option String × Option Int × Option β) :=
  c.slots.find? fun s => s.2.1 = some keyId ∧ s.1 = some mid

/-- realloc of a block to `cap` slots. -/
def realloc {α : Type} (ok : Bool) (cap : Nat) (block : List (Option α)) :
    Option (List (Option α)) :=
  if ok then some (block.take cap ++ List.replicate (cap - block.length) none) else none

/-- The growth of a full cache. Each block is committed as it succeeds; the flag says
whether all three did. -/
def grow (a : Allocs) (c : KeyCache β) : Bool × KeyCache β :=
  if c.count = c.cap then
    let newcap := if c.cap ≠ 0 then c.cap * 2 else 8
    match realloc a.mids newcap c.mids with
    | none => (false, c)
    | some mids =>
      let c := { c with mids }
      match realloc a.keyIds newcap c.keyIds with
      | none => (false, c)
      | some keyIds =>
        let c := { c with keyIds }
        match realloc a.keys newcap c.keys with
        | none => (false, c)
        | some keys => (true, { c with keys, cap := newcap })
  else (true, c)

end KeyCache

/-- pubkey_cache_get; `fetch` is TalkService_getE2EEPublicKey. -/
def pubkeyCacheGet (fetch : Option String × Int → Option String) (c : KeyCache String)
    (l : KeyLookup) : KeyAnswer String :=
  match l.mid.bind fun mid => c.findPair mid l.keyId with
  | some slot => ⟨slot.2.2, false, c⟩
  | none =>
    match l.mid, fetch (l.mid, l.keyId) with
    | some mid, some fetched =>
      match c.grow l.allocs with
      | (false, c) => ⟨some fetched, true, c⟩
      | (true, c) =>
        let midCopy := if l.allocs.mid then some mid else none
        let keyCopy := if l.allocs.copy 0 then some fetched else none
        let c := { c with mids := c.mids.set c.count midCopy, keys := c.keys.set c.count keyCopy }
        if midCopy.isSome && keyCopy.isSome then
          ⟨some fetched, true,
            { c with keyIds := c.keyIds.set c.count (some l.keyId), count := c.count + 1 }⟩
        else ⟨some fetched, true, c⟩
    | _, fetched => ⟨fetched, true, c⟩

/-- group_key_cache_get; `fetch` is talk_get_e2ee_group_shared_key. A value is the key in
`out`, none the return of -1. -/
def groupKeyCacheGet (fetch : Option String × Int → Option GroupSharedKey)
    (c : KeyCache GroupSharedKey) (l : KeyLookup) : KeyAnswer GroupSharedKey :=
  match l.mid.bind fun mid => c.findPair mid l.keyId with
  | some slot => ⟨slot.2.2.bind (groupKeyCopy fun _ => true), false, c⟩
  | none =>
    match l.mid, fetch (l.mid, l.keyId) with
    | some mid, some out =>
      match c.grow l.allocs with
      | (false, c) => ⟨some out, true, c⟩
      | (true, c) =>
        match groupKeyCopy l.allocs.copy out with
        | none => ⟨some out, true, { c with keys := c.keys.set c.count none }⟩
        | some copied =>
          let midCopy := if l.allocs.mid then some mid else none
          let c := { c with keys := c.keys.set c.count (some copied), mids := c.mids.set c.count midCopy }
          if midCopy.isSome then
            ⟨some out, true,
              { c with keyIds := c.keyIds.set c.count (some l.keyId), count := c.count + 1 }⟩
          else ⟨some out, true, { c with keys := c.keys.set c.count none }⟩
    | _, out => ⟨out, true, c⟩

/-- A run of calls: the values returned, for each call its pair and whether it was fetched,
and the cache left. -/
structure KeyRun (β : Type) where
  values : List (Option β) := []
  fetches : List ((Option String × Int) × Bool) := []
  cache : KeyCache β

def runLookups {β : Type} (get : KeyCache β → KeyLookup → KeyAnswer β) :
    KeyCache β → List KeyLookup → KeyRun β
  | c, [] => { cache := c }
  | c, l :: ls =>
    let a := get c l
    let r := runLookups get a.cache ls
    { values := a.value :: r.values
      fetches := ((l.mid, l.keyId), a.fetched) :: r.fetches
      cache := r.cache }

/-! ## The caches are memos -/

namespace KeyCache

variable {β : Type} {fetch : Option String × Int → Option β}

/-- Every slot in use is inside the capacity, and the capacity inside every block. -/
structure Fits (c : KeyCache β) : Prop where
  count_le : c.count ≤ c.cap
  mids_le : c.cap ≤ c.mids.length
  keyIds_le : c.cap ≤ c.keyIds.length
  keys_le : c.cap ≤ c.keys.length

/-- The slots in use are the entries of a memo of the fetches. -/
structure Represents (c : KeyCache β) (m : Memo fetch) : Prop where
  fits : c.Fits
  slots_eq : c.slots = m.entries.map fun e => (e.1.1, some e.1.2, some e.2)
  keyed : ∀ e ∈ m.entries, e.1.1.isSome = true

theorem empty_represents : Represents ({} : KeyCache β) (Memo.empty fetch) where
  fits := ⟨Nat.le_refl _, Nat.le_refl _, Nat.le_refl _, Nat.le_refl _⟩
  slots_eq := rfl
  keyed := List.forall_mem_nil _

theorem realloc_spec {α : Type} {ok : Bool} {cap n : Nat} {block b : List (Option α)}
    (h : realloc ok cap block = some b) (hcap : n ≤ cap) (hblock : n ≤ block.length) :
    b.length = cap ∧ b.take n = block.take n := by
  simp only [realloc, Option.ite_none_right_eq_some, Option.some.injEq] at h
  obtain ⟨_, rfl⟩ := h
  constructor
  · rw [List.length_append, List.length_take, List.length_replicate]; omega
  · rw [List.take_append_of_le_length (by rw [List.length_take]; omega), List.take_take,
      Nat.min_eq_left hcap]

/-- A growth keeps the slots; where every allocation succeeds there is room after it. -/
theorem grow_spec {a : Allocs} {c d : KeyCache β} {ok : Bool} (hc : c.Fits)
    (h : c.grow a = (ok, d)) :
    d.Fits ∧ d.slots = c.slots ∧ (ok = true → d.count < d.cap) ∧ (a.succeed → ok = true) := by
  obtain ⟨hcount, hmids, hids, hkeys⟩ := hc
  unfold grow at h
  split at h
  · rename_i hfull
    have hnew : c.count ≤ (if c.cap ≠ 0 then c.cap * 2 else 8) ∧
        c.count < (if c.cap ≠ 0 then c.cap * 2 else 8) := by split <;> omega
    generalize (if c.cap ≠ 0 then c.cap * 2 else 8) = newcap at h hnew
    dsimp only at h
    cases hm : realloc a.mids newcap c.mids with
    | none =>
      rw [hm] at h
      obtain ⟨rfl, rfl⟩ := Prod.mk.inj h
      refine ⟨⟨hcount, hmids, hids, hkeys⟩, rfl, Bool.noConfusion, fun hs => ?_⟩
      rw [hs.1] at hm; cases hm
    | some mids =>
      obtain ⟨hlm, htm⟩ := realloc_spec hm hnew.1 (by omega)
      rw [hm] at h
      dsimp only at h
      cases hi : realloc a.keyIds newcap c.keyIds with
      | none =>
        rw [hi] at h
        obtain ⟨rfl, rfl⟩ := Prod.mk.inj h
        refine ⟨⟨hcount, by dsimp only; omega, hids, hkeys⟩, ?_, Bool.noConfusion, fun hs => ?_⟩
        · simp only [slots, htm]
        · rw [hs.2.1] at hi; cases hi
      | some keyIds =>
        obtain ⟨hli, hti⟩ := realloc_spec hi hnew.1 (by omega)
        rw [hi] at h
        dsimp only at h
        cases hk : realloc a.keys newcap c.keys with
        | none =>
          rw [hk] at h
          obtain ⟨rfl, rfl⟩ := Prod.mk.inj h
          refine ⟨⟨hcount, by dsimp only; omega, by dsimp only; omega, hkeys⟩, ?_,
            Bool.noConfusion, fun hs => ?_⟩
          · simp only [slots, htm, hti]
          · rw [hs.2.2.1] at hk; cases hk
        | some keys =>
          obtain ⟨hlk, htk⟩ := realloc_spec hk hnew.1 (by omega)
          rw [hk] at h
          obtain ⟨rfl, rfl⟩ := Prod.mk.inj h
          refine ⟨⟨hnew.1, hlm.ge, hli.ge, hlk.ge⟩, ?_, fun _ => hnew.2, fun _ => rfl⟩
          simp only [slots, htm, hti, htk]
  · rename_i hroom
    obtain ⟨rfl, rfl⟩ := Prod.mk.inj h
    exact ⟨⟨hcount, hmids, hids, hkeys⟩, rfl, fun _ => by omega, fun _ => rfl⟩

theorem Represents.of_slots {c d : KeyCache β} {m : Memo fetch} (h : c.Represents m)
    (hfits : d.Fits) (hslots : d.slots = c.slots) : d.Represents m :=
  ⟨hfits, hslots.trans h.slots_eq, h.keyed⟩

/-- Writing the slot after those in use changes nothing of them. -/
theorem Represents.spoilKey {c : KeyCache β} {m : Memo fetch} (h : c.Represents m)
    (key : Option β) : Represents { c with keys := c.keys.set c.count key } m := by
  obtain ⟨⟨hcount, hmids, hids, hkeys⟩, hslots, hkeyed⟩ := h
  refine ⟨⟨hcount, hmids, hids, by rw [List.length_set]; exact hkeys⟩, ?_, hkeyed⟩
  rw [← hslots]
  simp only [slots, List.take_set_of_le (Nat.le_refl c.count)]

theorem Represents.spoilMid {c : KeyCache β} {m : Memo fetch} (h : c.Represents m)
    (mid : Option String) : Represents { c with mids := c.mids.set c.count mid } m := by
  obtain ⟨⟨hcount, hmids, hids, hkeys⟩, hslots, hkeyed⟩ := h
  refine ⟨⟨hcount, by rw [List.length_set]; exact hmids, hids, hkeys⟩, ?_, hkeyed⟩
  rw [← hslots]
  simp only [slots, List.take_set_of_le (Nat.le_refl c.count)]

theorem take_succ_set {α : Type} {l : List α} {n : Nat} (h : n < l.length) (a : α) :
    (l.set n a).take (n + 1) = l.take n ++ [a] := by
  rw [List.take_add_one, List.take_set_of_le (Nat.le_refl n), List.getElem?_set_self h]
  rfl

/-- A stored pair is a new entry of the memo. -/
theorem Represents.store {c : KeyCache β} {m : Memo fetch} (h : c.Represents m)
    (hroom : c.count < c.cap) {mid : String} {keyId : Int} {v : β}
    (hk : (some mid, keyId) ∉ m.keys) (hv : fetch (some mid, keyId) = some v) :
    Represents
      { mids := c.mids.set c.count (some mid), keyIds := c.keyIds.set c.count (some keyId)
        keys := c.keys.set c.count (some v), count := c.count + 1, cap := c.cap }
      (m.add hk hv) := by
  obtain ⟨⟨hcount, hmids, hids, hkeys⟩, hslots, hkeyed⟩ := h
  refine ⟨⟨hroom, ?_, ?_, ?_⟩, ?_, ?_⟩
  · rw [List.length_set]; exact hmids
  · rw [List.length_set]; exact hids
  · rw [List.length_set]; exact hkeys
  · have hm : c.count < c.mids.length := by omega
    have hi : c.count < c.keyIds.length := by omega
    have hks : c.count < c.keys.length := by omega
    rw [Memo.add_entries, List.map_append, ← hslots]
    simp only [slots, take_succ_set hm, take_succ_set hi, take_succ_set hks]
    rw [List.zip_append (by simp only [List.length_take]; omega),
      List.zip_append (by simp only [List.length_zip, List.length_take]; omega)]
    rfl
  · intro e he
    rcases List.mem_append.mp he with he | he
    · exact hkeyed e he
    · rw [List.mem_singleton.mp he]; rfl

/-- The scan finds the answer of the memo. -/
theorem Represents.findPair_eq {c : KeyCache β} {m : Memo fetch} (h : c.Represents m)
    (mid : String) (keyId : Int) :
    (c.findPair mid keyId).map (·.2.2) = (m.find? (some mid, keyId)).map some := by
  have hpred : ((fun s : Option String × Option Int × Option β =>
        decide (s.2.1 = some keyId ∧ s.1 = some mid)) ∘
        fun e : (Option String × Int) × β => (e.1.1, some e.1.2, some e.2)) =
      fun e => decide (e.1 = (some mid, keyId)) := by
    funext e
    simp only [Function.comp_apply, Option.some.injEq, Prod.ext_iff, decide_eq_decide]
    exact and_comm
  rw [findPair, h.slots_eq, List.find?_map, hpred, Option.map_map, Memo.find?, Option.map_map]
  rfl

theorem Represents.none_notMem {c : KeyCache β} {m : Memo fetch} (h : c.Represents m)
    (keyId : Int) : (none, keyId) ∉ m.keys := by
  intro hmem
  obtain ⟨e, he, hkey⟩ := List.mem_map.mp hmem
  have := h.keyed e he
  rw [hkey] at this
  cases this

variable (fetch) in
/-- A lookup function of which every call is a lookup of the memo that gives the fetch, and
keeps what it fetched where the allocations succeed. -/
def Serves (get : KeyCache β → KeyLookup → KeyAnswer β) : Prop :=
  ∀ (c : KeyCache β) (m : Memo fetch) (l : KeyLookup), c.Represents m →
    (get c l).value = fetch (l.mid, l.keyId) ∧
      ∃ n kept, (get c l).cache.Represents n ∧ m.Looks (l.mid, l.keyId) (get c l).fetched kept n ∧
        (l.mid.isSome → l.allocs.succeed → kept = true)

/-- A hit of the scan holds the fetch of its pair. -/
theorem Represents.hit {c : KeyCache β} {m : Memo fetch} (h : c.Represents m) {mid : Option String}
    {keyId : Int} {slot : Option String × Option Int × Option β}
    (hfind : (mid.bind fun mid => c.findPair mid keyId) = some slot) :
    (mid, keyId) ∈ m.keys ∧ slot.2.2 = fetch (mid, keyId) := by
  cases mid with
  | none => cases hfind
  | some mid =>
    have hval := h.findPair_eq mid keyId
    rw [show c.findPair mid keyId = some slot from hfind, Option.map_some] at hval
    have hmem : (some mid, keyId) ∈ m.keys := by
      by_contra hno
      rw [Memo.find?_eq_none.mpr hno] at hval
      cases hval
    rw [Memo.find?_eq_fetch hmem] at hval
    cases hf : fetch (some mid, keyId) with
    | none => rw [hf] at hval; cases hval
    | some v => rw [hf, Option.map_some, Option.some.injEq] at hval; exact ⟨hmem, hval⟩

/-- A pair the scan misses is not in the memo. -/
theorem Represents.miss {c : KeyCache β} {m : Memo fetch} (h : c.Represents m) {mid : Option String}
    {keyId : Int} (hfind : (mid.bind fun mid => c.findPair mid keyId) = none) :
    (mid, keyId) ∉ m.keys := by
  cases mid with
  | none => exact h.none_notMem keyId
  | some mid =>
    have hval := h.findPair_eq mid keyId
    rw [show c.findPair mid keyId = none from hfind, Option.map_none] at hval
    exact Memo.find?_eq_none.mp (Option.map_eq_none_iff.mp hval.symm)

/-- A miss without an insertion: nothing was fetched, or the pair has no mid. -/
theorem Represents.bypassed {c : KeyCache β} {m : Memo fetch} (h : c.Represents m) {l : KeyLookup}
    (hmiss : (l.mid, l.keyId) ∉ m.keys) (hno : ∀ mid v, l.mid = some mid →
      fetch (l.mid, l.keyId) ≠ some v) :
    ∃ n kept, c.Represents n ∧ m.Looks (l.mid, l.keyId) true kept n ∧
      (l.mid.isSome → l.allocs.succeed → kept = true) := by
  cases hmid : l.mid with
  | none => exact ⟨m, false, h, .dropped (hmid ▸ hmiss), fun hs => by cases hs⟩
  | some mid =>
    refine ⟨m, true, h, .absent (hmid ▸ hmiss) ?_, fun _ _ => rfl⟩
    rw [← hmid]
    exact Option.eq_none_iff_forall_ne_some.mpr fun v => hno mid v hmid

end KeyCache

open KeyCache

theorem pubkeyCacheGet_serves (fetch : Option String × Int → Option String) :
    Serves fetch (pubkeyCacheGet fetch) := by
  intro c m l hc
  unfold pubkeyCacheGet
  cases hfind : l.mid.bind fun mid => c.findPair mid l.keyId with
  | some slot =>
    obtain ⟨hmem, hval⟩ := hc.hit hfind
    exact ⟨hval, m, true, hc, .hit hmem, fun _ _ => rfl⟩
  | none =>
    have hmiss := hc.miss hfind
    dsimp only
    split
    · rename_i mid fetched hmid hfetch
      rw [hmid] at hmiss hfetch ⊢
      refine ⟨?_, ?_⟩
      · rw [hfetch]; split
        · rfl
        · cases l.allocs.mid <;> cases l.allocs.copy 0 <;> rfl
      · split
        · rename_i d hgrow
          obtain ⟨hfits, hslots, -, hok⟩ := grow_spec hc.fits hgrow
          exact ⟨m, false, hc.of_slots hfits hslots, .dropped hmiss, fun _ hs => hok hs⟩
        · rename_i d hgrow
          obtain ⟨hfits, hslots, hroom, -⟩ := grow_spec hc.fits hgrow
          have hd := hc.of_slots hfits hslots
          cases hcopy : l.allocs.mid && l.allocs.copy 0 with
          | true =>
            obtain ⟨h1, h2⟩ := (Bool.and_eq_true _ _).mp hcopy
            simp only [h1, h2, ↓reduceIte, Option.isSome_some, Bool.and_self]
            exact ⟨_, true, hd.store (hroom rfl) hmiss hfetch, .kept hmiss hfetch,
              fun _ _ => rfl⟩
          | false =>
            have hnot : ((if l.allocs.mid then some mid else none).isSome &&
                (if l.allocs.copy 0 then some fetched else none).isSome) = false := by
              rw [← hcopy]
              cases l.allocs.mid <;> cases l.allocs.copy 0 <;> rfl
            simp only [hnot, Bool.false_eq_true, ↓reduceIte]
            refine ⟨m, false, (hd.spoilMid _).spoilKey _, .dropped hmiss, fun _ hs => ?_⟩
            rw [hs.2.2.2.1, hs.2.2.2.2 0] at hcopy
            cases hcopy
    · rename_i hno
      exact ⟨rfl, hc.bypassed hmiss fun mid v hmid hv => hno mid v hmid hv⟩

theorem dupField_eq {α : Type} {ok : Bool} {src dst : Option α} (h : dupField ok src = some dst) :
    dst = src := by
  cases src with
  | none => exact (Option.some.inj h).symm
  | some v =>
    simp only [dupField, Option.ite_none_right_eq_some, Option.some.injEq] at h
    exact h.2.symm

/-- A copy that succeeds is the key it was made from. -/
theorem groupKeyCopy_eq {copy : Fin 5 → Bool} {src dst : GroupSharedKey}
    (h : groupKeyCopy copy src = some dst) : dst = src := by
  simp only [groupKeyCopy, Option.bind_eq_bind, Option.bind_eq_some_iff, Option.pure_def,
    Option.some.injEq] at h
  obtain ⟨creator, h1, receiver, h2, shared, h3, types, h4, raw, h5, rfl⟩ := h
  rw [dupField_eq h1, dupField_eq h2, dupField_eq h3, dupField_eq h4, dupField_eq h5]

theorem dupField_true {α : Type} (src : Option α) : dupField true src = some src := by
  cases src <;> rfl

theorem groupKeyCopy_true {copy : Fin 5 → Bool} (h : ∀ i, copy i = true) (src : GroupSharedKey) :
    groupKeyCopy copy src = some src := by
  simp only [groupKeyCopy, h, dupField_true]
  rfl

theorem groupKeyCacheGet_serves (fetch : Option String × Int → Option GroupSharedKey) :
    Serves fetch (groupKeyCacheGet fetch) := by
  intro c m l hc
  unfold groupKeyCacheGet
  cases hfind : l.mid.bind fun mid => c.findPair mid l.keyId with
  | some slot =>
    obtain ⟨hmem, hval⟩ := hc.hit hfind
    refine ⟨?_, m, true, hc, .hit hmem, fun _ _ => rfl⟩
    dsimp only
    rw [hval]
    cases fetch (l.mid, l.keyId) with
    | none => rfl
    | some v => exact groupKeyCopy_true (fun _ => rfl) v
  | none =>
    have hmiss := hc.miss hfind
    dsimp only
    split
    · rename_i mid out hmid hfetch
      rw [hmid] at hmiss hfetch ⊢
      refine ⟨?_, ?_⟩
      · rw [hfetch]; split
        · rfl
        · split
          · rfl
          · split <;> rfl
      · split
        · rename_i d hgrow
          obtain ⟨hfits, hslots, -, hok⟩ := grow_spec hc.fits hgrow
          exact ⟨m, false, hc.of_slots hfits hslots, .dropped hmiss, fun _ hs => hok hs⟩
        · rename_i d hgrow
          obtain ⟨hfits, hslots, hroom, -⟩ := grow_spec hc.fits hgrow
          have hd := hc.of_slots hfits hslots
          split
          · rename_i hcopy
            refine ⟨m, false, hd.spoilKey none, .dropped hmiss, fun _ hs => ?_⟩
            rw [groupKeyCopy_true hs.2.2.2.2] at hcopy
            cases hcopy
          · rename_i copied hcopy
            obtain rfl := groupKeyCopy_eq hcopy
            cases hmidCopy : l.allocs.mid with
            | true =>
              simp only [↓reduceIte, Option.isSome_some]
              exact ⟨_, true, hd.store (hroom rfl) hmiss hfetch, .kept hmiss hfetch,
                fun _ _ => rfl⟩
            | false =>
              simp only [Bool.false_eq_true, ↓reduceIte, Option.isSome_none, List.set_set]
              refine ⟨m, false, (hd.spoilMid none).spoilKey none, .dropped hmiss, fun _ hs => ?_⟩
              rw [hs.2.2.2.1] at hmidCopy
              cases hmidCopy
    · rename_i hno
      exact ⟨rfl, hc.bypassed hmiss fun mid v hmid hv => hno mid v hmid hv⟩

/-! ## Runs -/

namespace KeyCache

variable {β : Type} {fetch : Option String × Int → Option β}

/-- The pairs of a cache, a slot that was never written aside. -/
def pairs (c : KeyCache β) : List (Option String × Option Int) :=
  c.slots.map fun s => (s.1, s.2.1)

theorem Represents.mem_pairs {c : KeyCache β} {m : Memo fetch} (h : c.Represents m)
    {mid : String} {keyId : Int} :
    (some mid, some keyId) ∈ c.pairs ↔ (some mid, keyId) ∈ m.keys := by
  rw [pairs, h.slots_eq, List.map_map, Memo.keys, List.mem_map, List.mem_map]
  constructor
  · rintro ⟨e, he, heq⟩
    obtain ⟨h1, h2⟩ := Prod.mk.inj heq
    exact ⟨e, he, Prod.ext h1 (Option.some.inj h2)⟩
  · rintro ⟨e, he, heq⟩
    exact ⟨e, he, by rw [Function.comp_apply, heq]⟩

theorem Represents.pairs_nodup {c : KeyCache β} {m : Memo fetch} (h : c.Represents m) :
    c.pairs.Nodup := by
  have hpairs : c.pairs = m.keys.map fun k => (k.1, some k.2) := by
    rw [pairs, h.slots_eq, List.map_map, Memo.keys, List.map_map]
    rfl
  rw [hpairs]
  refine m.nodup.map fun j k hjk => ?_
  obtain ⟨h1, h2⟩ := Prod.mk.inj hjk
  exact Prod.ext h1 (Option.some.inj h2)

/-- A run of a lookup function that serves is a sequence of lookups of the memo. -/
theorem runLookups_represents {get : KeyCache β → KeyLookup → KeyAnswer β} (hget : Serves fetch get)
    (ls : List KeyLookup) {c : KeyCache β} {m : Memo fetch} (hc : c.Represents m) :
    (runLookups get c ls).values = ls.map (fun l => fetch (l.mid, l.keyId)) ∧
      ∃ n looks, (runLookups get c ls).cache.Represents n ∧ m.LooksAll looks n ∧
        looks.map (fun k => (k.1, k.2.1)) = (runLookups get c ls).fetches ∧
        List.Forall₂ (fun l k => k.1 = (l.mid, l.keyId) ∧
          (l.mid.isSome → l.allocs.succeed → k.2.2 = true)) ls looks := by
  induction ls generalizing c m with
  | nil => exact ⟨rfl, m, [], hc, .nil m, rfl, .nil⟩
  | cons l ls ih =>
    obtain ⟨hval, o, kept, ho, hlook, hkept⟩ := hget c m l hc
    obtain ⟨hvals, n, looks, hn, hall, hmap, hrel⟩ := ih ho
    refine ⟨?_, n, _, hn, .cons hlook hall, ?_, .cons ⟨rfl, hkept⟩ hrel⟩
    · simp only [runLookups, List.map_cons, hval, hvals]
    · simp only [runLookups, List.map_cons, hmap]

/-- The calls for a pair that went to the server. -/
def fetchesOf (pair : Option String × Int) (fetches : List ((Option String × Int) × Bool)) : Nat :=
  fetches.countP fun f => f.1 = pair ∧ f.2

/-- The lookups of a pair with an allocation that fails. -/
def failuresOf (pair : Option String × Int) (ls : List KeyLookup) : Nat :=
  ls.countP fun l => (l.mid, l.keyId) = pair ∧ ¬l.allocs.succeed

theorem fetchesOf_map (pair : Option String × Int)
    (looks : List ((Option String × Int) × Bool × Bool)) :
    fetchesOf pair (looks.map fun k => (k.1, k.2.1)) = Memo.fetchesOf pair looks := by
  rw [fetchesOf, List.countP_map, Memo.fetchesOf]
  rfl

theorem dropsOf_le {ls : List KeyLookup} {looks : List ((Option String × Int) × Bool × Bool)}
    (h : List.Forall₂ (fun l k => k.1 = (l.mid, l.keyId) ∧
      (l.mid.isSome → l.allocs.succeed → k.2.2 = true)) ls looks) (mid : String) (keyId : Int) :
    Memo.dropsOf (some mid, keyId) looks ≤ failuresOf (some mid, keyId) ls := by
  induction h with
  | nil => exact Nat.le_refl _
  | @cons l k ls looks hlk _ ih =>
    obtain ⟨hpair, hkept⟩ := hlk
    simp only [Memo.dropsOf, failuresOf, List.countP_cons] at ih ⊢
    by_cases hdrop : k.1 = (some mid, keyId) ∧ k.2.2 = false
    · have hfail : (l.mid, l.keyId) = (some mid, keyId) ∧ ¬l.allocs.succeed := by
        refine ⟨hpair ▸ hdrop.1, fun hs => ?_⟩
        have hmid : l.mid = some mid := congrArg Prod.fst (hpair ▸ hdrop.1)
        have := hkept (hmid ▸ rfl) hs
        rw [hdrop.2] at this
        cases this
      rw [if_pos (decide_eq_true hdrop), if_pos (decide_eq_true hfail)]
      omega
    · rw [if_neg (by rw [decide_eq_false hdrop]; exact Bool.false_ne_true)]
      omega

/-- What holds of every run of a lookup function over a new cache. -/
structure Transparent (fetch : Option String × Int → Option β)
    (get : KeyCache β → KeyLookup → KeyAnswer β) (ls : List KeyLookup) : Prop where
  /-- Every call returns the fetch of its pair. -/
  values_eq : (runLookups get {} ls).values = ls.map fun l => fetch (l.mid, l.keyId)
  distinct : (runLookups get {} ls).cache.pairs.Nodup
  fits : (runLookups get {} ls).cache.Fits
  /-- A cached pair is not fetched again. -/
  cached_once : ∀ mid keyId ms,
    (some mid, some keyId) ∈ (runLookups get {} ls).cache.pairs →
      fetchesOf (some mid, keyId) (runLookups get (runLookups get {} ls).cache ms).fetches = 0
  /-- A pair the server knows is fetched at most once more than an allocation failed in a
  lookup of it. -/
  fetched_le : ∀ mid keyId, (fetch (some mid, keyId)).isSome →
    fetchesOf (some mid, keyId) (runLookups get {} ls).fetches ≤
      failuresOf (some mid, keyId) ls + 1

theorem Serves.transparent {get : KeyCache β → KeyLookup → KeyAnswer β} (hget : Serves fetch get)
    (ls : List KeyLookup) : Transparent fetch get ls := by
  obtain ⟨hvals, n, looks, hn, hall, hmap, hrel⟩ := runLookups_represents hget ls empty_represents
  refine ⟨hvals, hn.pairs_nodup, hn.fits, ?_, ?_⟩
  · intro mid keyId ms hmem
    obtain ⟨-, o, looks', -, hall', hmap', -⟩ := runLookups_represents hget ms hn
    rw [← hmap', fetchesOf_map]
    exact hall'.fetchesOf_of_mem (hn.mem_pairs.mp hmem)
  · intro mid keyId hsome
    rw [← hmap, fetchesOf_map]
    exact (hall.fetchesOf_le hsome).trans (Nat.add_le_add_right (dropsOf_le hrel mid keyId) 1)

end KeyCache

/-- Both key caches are transparent, whichever allocations fail while they insert. -/
theorem keyCaches_transparent (pubkey : Option String × Int → Option String)
    (groupKey : Option String × Int → Option GroupSharedKey) (ls : List KeyLookup) :
    Transparent pubkey (pubkeyCacheGet pubkey) ls ∧
      Transparent groupKey (groupKeyCacheGet groupKey) ls :=
  ⟨(pubkeyCacheGet_serves pubkey).transparent ls,
    (groupKeyCacheGet_serves groupKey).transparent ls⟩

/-- The copy of the mid fails on the first lookup of a pair: it is fetched twice and then
cached. -/
theorem failedInsertion_fetches_twice :
    let r := runLookups (pubkeyCacheGet fun _ => some "key") {}
      [⟨some "u1", 7, { mid := false }⟩, ⟨some "u1", 7, {}⟩]
    (some "u1", some 7) ∈ r.cache.pairs ∧ fetchesOf (some "u1", 7) r.fetches = 2 := by
  decide

end Enil
