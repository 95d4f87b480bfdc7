import Enil.Line.Course
import Enil.Line.Plaintext
import Enil.Lib.Machine
import Enil.Session.Writers

/-!
# The counters over many sends

Sends of one account side by side. Each loads the session file, posts with the numbers
of the session it loaded and stores the next ones when its reply is understood; in
between other sends and other writers take steps. A send that has the account to
itself and stores what it used up leaves every number below the stored one.
-/

namespace Enil

open Lib

variable {N : Set String} {κ : Type} [DecidableEq κ] {cj : Cjson}

/-- Between its start and its end a send holds the session it loaded, then what it stores. -/
inductive Phase where
  | idle
  | started (loaded : Option Session)
  | posted (saves : List Session)

structure Sends (κ : Type) extends Writers κ where
  phase : κ → Phase := fun _ => .idle
  /-- The numbers of the requests the server accepted. -/
  accepted : List Int := []
  /-- The encrypt requests whose messages the server accepted. -/
  encrypted : List Encryption := []

def requests (v : List SendView) : List Int :=
  v.filterMap fun | .request n => some n | _ => none

def encryptions (v : List SendView) : List Encryption :=
  v.filterMap fun | .encrypt e => some e | _ => none

def saves (v : List SendView) : List Session :=
  v.filterMap fun | .save s => some s | _ => none

section Encryptions

variable (es : List Encryption) (v : List SendView)

@[simp] theorem requests_encryptions : requests (es.map .encrypt ++ v) = requests v := by
  induction es with
  | nil => rfl
  | cons e es ih => exact ih

@[simp] theorem saves_encryptions : saves (es.map .encrypt ++ v) = saves v := by
  induction es with
  | nil => rfl
  | cons e es ih => exact ih

@[simp] theorem encryptions_encryptions :
    encryptions (es.map .encrypt ++ v) = es ++ encryptions v := by
  induction es with
  | nil => rfl
  | cons e es ih => exact congrArg (e :: ·) ih

end Encryptions

/-- What other writers leave as it is. -/
def counterKeys : List String := ["reqSeq", "e2eeSequenceNumber", "loginId"]

inductive SendStep (N : Set String) (κ : Type) where
  | start (i : κ)
  | post (i : κ) (op : SendOp) (a : Answers) (accepts : Bool)
  | finish (i : κ) (w : WriteResult)
  /-- Another writer of the same session. -/
  | writer (op : WriterOp N κ) (keeps : ∀ k ∈ counterKeys, op.Keeps k)

/-- The sends of an account. All that a send asks the outside is one step: the numbers
it asks with are those it loaded. -/
def sends (N : Set String) (κ : Type) [DecidableEq κ] (cj : Cjson) :
    Machine (Sends κ) (SendStep N κ) where
  step st
    | .start i => match st.phase i with
      | .idle =>
        some { st with phase := Function.update st.phase i (.started (sessionLoad st.file)) }
      | _ => none
    | .post i op a accepts => match st.phase i with
      | .started loaded =>
        let v := viewOf (op.run cj a loaded)
        some { st with
          phase := Function.update st.phase i (.posted (saves v))
          accepted := if accepts then requests v ++ st.accepted else st.accepted
          encrypted :=
            if accepts && !(requests v).isEmpty then encryptions v ++ st.encrypted
            else st.encrypted }
      | _ => none
    | .finish i w => match st.phase i with
      | .posted saved => some { st with
          file := saved.foldl (fun file s => (sessionSave file s w).2) st.file
          phase := Function.update st.phase i .idle }
      | _ => none
    | .writer op _ => ((writers N κ).step st.toWriters op).map fun w => { st with toWriters := w }

/-! ## Counters -/

structure Counter where
  key : String
  value : Session → Int
  mem_fields : ∀ s, (key, FieldValue.i64Num (value s)) ∈ s.fields
  parse : ∀ {root s}, sessionParse root = some s →
    value s = Json.coerceInt64 ((Json.obj root).getObjectItem key)

def reqSeqCounter : Counter where
  key := "reqSeq"
  value := Session.reqSeq
  mem_fields s := by simp [Session.fields]
  parse h := by
    unfold sessionParse at h
    simp only [Option.bind_eq_bind, Option.bind_eq_some_iff, Option.some.injEq] at h
    obtain ⟨i, -, t, -, rfl⟩ := h
    rfl

def sequenceCounter : Counter where
  key := "e2eeSequenceNumber"
  value := Session.e2eeSequenceNumber
  mem_fields s := by simp [Session.fields]
  parse h := by
    unfold sessionParse at h
    simp only [Option.bind_eq_bind, Option.bind_eq_some_iff, Option.some.injEq] at h
    obtain ⟨i, -, t, -, rfl⟩ := h
    rfl

/-- The number in the file. -/
def Counter.stored (c : Counter) (file : Option Fields) : Int :=
  Json.coerceInt64 (file.bind fun root => root.get c.key)

def loginOf (file : Option Fields) : Option Json := file.bind fun root => root.get "loginId"

structure LoadedFrom (N : Set String) (file : Option Fields) (s : Session) : Prop where
  isOver : s.snapshot.Over N
  distinct : s.Distinct
  parse : sessionParse s.snapshot = some s
  isSome : file.isSome
  login : loginOf file = s.snapshot.get "loginId"

theorem Counter.mem_sessionKeys (c : Counter) {s : Session} : c.key ∈ sessionKeys :=
  s.fields_keys ▸ List.mem_map_of_mem (c.mem_fields s)

section Save

variable (hN : CaseDistinct N) (hkeys : ∀ k ∈ sessionKeys, k ∈ N)
include hN hkeys

theorem sessionLoad_loadedFrom {file : Option Fields} (hfile : ∀ fs ∈ file, fs.Over N) {s : Session}
    (hs : sessionLoad file = some s) (c : Counter) :
    LoadedFrom N file s ∧ c.value s = c.stored file := by
  obtain ⟨root, rfl, hparse⟩ := Option.bind_eq_some_iff.mp hs
  have hroot := hfile root rfl
  refine ⟨⟨?_, sessionParse_distinct hroot.distinct hparse, ?_, rfl, ?_⟩, ?_⟩
  · rw [sessionParse_snapshot hparse]
    exact hroot
  · rw [sessionParse_snapshot hparse]
    exact hparse
  · rw [sessionParse_snapshot hparse]
    rfl
  · rw [c.parse hparse, hroot.getObjectItem_eq hN (hkeys _ (c.mem_sessionKeys (s := s)))]
    rfl

/-- A save of the next numbers, in the file whose number they follow. -/
theorem Counter.save (c : Counter) {file : Option Fields} (hfile : ∀ fs ∈ file, fs.Over N)
    (hlogin : sameLogin (loginOf file) (loginOf file) = true) {s s' : Session}
    (hs : LoadedFrom N file s) (hsnap : s'.snapshot = s.snapshot) (hd : s'.Distinct)
    (hval : c.value s = c.stored file) (hexact : |c.value s| < 2 ^ 52)
    (hexact' : |c.value s'| < 2 ^ 52) {w : WriteResult} (hw : w.visible = true) :
    (∀ fs ∈ (sessionSave file s' w).2, fs.Over N) ∧
      c.stored (sessionSave file s' w).2 = c.value s' ∧
      loginOf (sessionSave file s' w).2 = loginOf file := by
  obtain ⟨root, rfl⟩ := Option.isSome_iff_exists.mp hs.isSome
  have hroot := hfile root rfl
  obtain ⟨hover, hm⟩ := sessionMerge_merged hN hkeys hsnap hs.isOver hs.distinct hd hroot
  have hsave : sessionSave (some root) s' w =
      (w.ok, some (sessionMerge (sessionToJson s) (sessionToJson s') root)) := by
    have hbase : (sessionToJson s).get "loginId" = root.get "loginId" := by
      rw [(sessionToJson_get hN hkeys hs.isOver hs.distinct).2, List.find?_eq_none.mpr]
      · exact hs.login.symm
      · intro f hf he
        have hkey : f.1 ∈ s.fields.map Prod.fst := List.mem_map_of_mem hf
        rw [s.fields_keys, eq_of_beq he] at hkey
        exact loginId_notMem hkey
    have hsame : sameLogin ((sessionToJson s).get "loginId") (root.get "loginId") = true := by
      rw [hbase]
      exact hlogin
    simp only [sessionSave, hsnap, hs.parse, hsame, if_true, sessionWrite, hw]
  rw [hsave]
  refine ⟨fun fs hfs => Option.some.inj hfs ▸ hover, ?_, ?_⟩
  · unfold Counter.stored
    rw [Option.bind_some]
    by_cases heq : c.value s = c.value s'
    · have hkeep := hm.unchanged _ _ (c.mem_fields s) (heq ▸ c.mem_fields s')
      rw [hkeep, ← heq, hval]
      rfl
    · rw [hm.changed _ _ _ (c.mem_fields s) (c.mem_fields s') heq hexact hexact']
      have hle : (c.value s').natAbs ≤ 2 ^ 53 := by
        rw [Int.abs_eq_natAbs] at hexact'
        omega
      show Json.truncate (Json.toDouble (c.value s')) = c.value s'
      rw [Json.toDouble_of_le hle, Json.truncate_intCast]
  · unfold loginOf
    rw [Option.bind_some, Option.bind_some, hm.unknown "loginId" loginId_notMem]

end Save

/-! ## One send at a time -/

/-- A send has the account to itself, understands the reply to what was accepted, and
stores the numbers it used up. -/
def SendStep.Orderly (cj : Cjson) (st : Sends κ) : SendStep N κ → Prop
  | .start _ => ∀ j, st.phase j = .idle
  | .post _ op a accepts => a.DistinctStates cj ∧ (accepts = true → op.confirmed a = true)
  | .finish _ w => w.visible = true
  | .writer _ _ => True

/-- Sends one at a time; `b` is the number of `c` that the next one finds. -/
structure Serial (N : Set String) (c : Counter) (b : Int) (st : Sends κ) : Prop where
  sound : st.toWriters.Sound N
  login : sameLogin (loginOf st.file) (loginOf st.file) = true
  alone : ∀ i j, st.phase i ≠ .idle → st.phase j ≠ .idle → i = j
  settled : (∀ i s, st.phase i ≠ .posted [s]) → c.stored st.file = b
  started : ∀ i s, st.phase i = .started (some s) → LoadedFrom N st.file s ∧ c.value s = b
  posted : ∀ i saved, st.phase i = .posted saved → saved = [] ∨
    ∃ s s', saved = [s'] ∧ LoadedFrom N st.file s ∧ s'.snapshot = s.snapshot ∧ s'.Distinct ∧
      c.value s = c.stored st.file ∧ |c.value s| < 2 ^ 52 ∧ |c.value s'| < 2 ^ 52 ∧ c.value s' = b

section Steps

variable {st st' : Sends κ}

/-- What a send does in one step: nothing that stays, or it stores the numbers it used. -/
theorem sends_post {i : κ} {op : SendOp} {a : Answers} {accepts : Bool}
    (hs : ∀ s, st.phase i = .started (some s) → s.Distinct)
    (horder : SendStep.Orderly cj st (.post i op a accepts : SendStep N κ))
    (hstep : (sends N κ cj).step st (.post i op a accepts) = some st') :
    (∃ l, st.phase i = .started l) ∧ st'.toWriters = st.toWriters ∧
      (st'.phase = Function.update st.phase i (.posted []) ∧ st'.accepted = st.accepted ∧
          st'.encrypted = st.encrypted ∨
        ∃ s s' es, st.phase i = .started (some s) ∧
          encryptions (viewOf (op.run cj a (some s))) = es ∧ IsEncryption (op.Encrypts a) s es ∧
          Updated s (nextReqSeq s a.seqTime) es s' ∧
          st'.phase = Function.update st.phase i (.posted [s']) ∧
          st'.accepted = (if accepts then [nextReqSeq s a.seqTime] else []) ++ st.accepted ∧
          st'.encrypted = (if accepts then es else []) ++ st.encrypted) := by
  simp only [sends] at hstep
  split at hstep
  · rename_i loaded hphase
    obtain rfl := Option.some.inj hstep
    refine ⟨⟨loaded, hphase⟩, rfl, ?_⟩
    cases loaded with
    | none =>
      left
      rw [SendOp.run_unloaded op]
      exact ⟨rfl, ite_self _, by rw [show requests [] = [] from rfl]; simp⟩
    | some s =>
      obtain ⟨es, hes, hcourse⟩ := op.run_course (hs s hphase) horder.1
      generalize hv : viewOf (op.run cj a (some s)) = v at hcourse
      cases hcourse with
      | stopped =>
        left
        rw [← List.append_nil (es.map _), requests_encryptions, saves_encryptions]
        exact ⟨rfl, ite_self _, by simp [requests]⟩
      | lost h =>
        -- What the server accepted is understood, so it did not accept this.
        have hacc : accepts = false := by
          cases accepts with
          | false => rfl
          | true => rw [horder.2 rfl] at h; cases h
        left
        rw [saves_encryptions, hacc]
        exact ⟨rfl, rfl, rfl⟩
      | stored h hs' =>
        rename_i s'
        right
        rw [requests_encryptions, saves_encryptions, encryptions_encryptions]
        refine ⟨s, s', es, hphase, ?_, hes, hs', rfl, ?_, ?_⟩
        · rw [hv, encryptions_encryptions]
          exact List.append_nil es
        · cases accepts <;> rfl
        · cases accepts with
          | false => rfl
          | true => simp [requests, encryptions]
  · cases hstep

variable {c : Counter} {b : Int}

omit [DecidableEq κ] in
theorem Serial.others {i : κ} (h : Serial N c b st) (hi : st.phase i ≠ .idle) :
    ∀ j, j ≠ i → st.phase j = .idle := by
  intro j hj
  by_contra hne
  exact hj (h.alone j i hne hi)

/-- Only one send is under way. -/
theorem Serial.of_update {i : κ} {p : Phase} (hrest : ∀ j, j ≠ i → st.phase j = .idle)
    (hphase : st'.phase = Function.update st.phase i p) (hsound : st'.toWriters.Sound N)
    (hlogin : sameLogin (loginOf st'.file) (loginOf st'.file) = true)
    (hsettled : (∀ s, p ≠ .posted [s]) → c.stored st'.file = b)
    (hstarted : ∀ s, p = .started (some s) → LoadedFrom N st'.file s ∧ c.value s = b)
    (hposted : ∀ saved, p = .posted saved → saved = [] ∨
      ∃ s s', saved = [s'] ∧ LoadedFrom N st'.file s ∧ s'.snapshot = s.snapshot ∧ s'.Distinct ∧
        c.value s = c.stored st'.file ∧ |c.value s| < 2 ^ 52 ∧ |c.value s'| < 2 ^ 52 ∧
        c.value s' = b) : Serial N c b st' := by
  have hat : st'.phase i = p := by rw [hphase, Function.update_self]
  have hidle : ∀ j, st'.phase j ≠ .idle → j = i := by
    intro j hj
    by_contra hne
    rw [hphase, Function.update_of_ne hne] at hj
    exact hj (hrest j hne)
  refine ⟨hsound, hlogin, fun j k hj hk => (hidle j hj).trans (hidle k hk).symm, ?_, ?_, ?_⟩
  · intro hall
    exact hsettled fun s hs => hall i s (hat.trans hs)
  · intro j s hj
    obtain rfl := hidle j (by rw [hj]; exact Phase.noConfusion)
    exact hstarted s (hat.symm.trans hj)
  · intro j saved hj
    obtain rfl := hidle j (by rw [hj]; exact Phase.noConfusion)
    exact hposted saved (hat.symm.trans hj)

theorem Serial.post {i : κ} {l : Option Session} (h : Serial N c b st)
    (hi : st.phase i = .started l) (hfile : st'.toWriters = st.toWriters)
    (hphase : st'.phase = Function.update st.phase i (.posted [])) : Serial N c b st' := by
  have hne : st.phase i ≠ .idle := by rw [hi]; exact Phase.noConfusion
  refine .of_update (h.others hne) hphase (hfile ▸ h.sound) (hfile ▸ h.login) ?_ ?_ ?_
  · intro _
    rw [hfile]
    refine h.settled fun j s hj => ?_
    obtain rfl := h.alone i j hne (by rw [hj]; exact Phase.noConfusion)
    rw [hi] at hj
    cases hj
  · intro s hs
    cases hs
  · intro saved hsaved
    exact .inl (Phase.posted.inj hsaved).symm

theorem Serial.post_saved {i : κ} (h : Serial N c b st) {s s' : Session}
    (hi : st.phase i = .started (some s)) (hfile : st'.toWriters = st.toWriters)
    (hphase : st'.phase = Function.update st.phase i (.posted [s']))
    (hsnap : s'.snapshot = s.snapshot) (hd : s'.Distinct) (hexact : |c.value s| < 2 ^ 52)
    (hexact' : |c.value s'| < 2 ^ 52) : Serial N c (c.value s') st' := by
  have hne : st.phase i ≠ .idle := by rw [hi]; exact Phase.noConfusion
  have hstored : c.stored st.file = b := by
    refine h.settled fun j s hj => ?_
    obtain rfl := h.alone i j hne (by rw [hj]; exact Phase.noConfusion)
    rw [hi] at hj
    cases hj
  obtain ⟨hs, hval⟩ := h.started i s hi
  refine .of_update (h.others hne) hphase (hfile ▸ h.sound) (hfile ▸ h.login) ?_ ?_ ?_
  · intro hall
    exact absurd rfl (hall s')
  · intro s hs
    cases hs
  · intro saved hsaved
    obtain rfl := Phase.posted.inj hsaved
    refine .inr ⟨s, s', rfl, hfile ▸ hs, hsnap, hd, ?_, hexact, hexact', rfl⟩
    rw [hval, hfile, hstored]

section Names

variable (hN : CaseDistinct N) (hkeys : ∀ k ∈ sessionKeys, k ∈ N)
include hN hkeys

theorem Serial.start {i : κ} (h : Serial N c b st) (hidle : ∀ j, st.phase j = .idle)
    (hstep : (sends N κ cj).step st (.start i) = some st') : Serial N c b st' := by
  have hstored : c.stored st.file = b := by
    refine h.settled fun j s hj => ?_
    rw [hidle j] at hj
    cases hj
  simp only [sends, hidle i] at hstep
  obtain rfl := Option.some.inj hstep
  refine .of_update (fun j _ => hidle j) rfl h.sound h.login (fun _ => hstored) ?_ ?_
  · intro s hs
    obtain ⟨hload, hval⟩ := sessionLoad_loadedFrom hN hkeys h.sound.file (Phase.started.inj hs) c
    exact ⟨hload, hval.trans hstored⟩
  · intro saved hsaved
    cases hsaved

theorem Serial.finish {i : κ} {w : WriteResult} (h : Serial N c b st) (hw : w.visible = true)
    (hstep : (sends N κ cj).step st (.finish i w) = some st') : Serial N c b st' := by
  simp only [sends] at hstep
  split at hstep
  · rename_i saved hphase
    have hne : st.phase i ≠ .idle := by rw [hphase]; exact Phase.noConfusion
    obtain rfl := Option.some.inj hstep
    rcases h.posted i saved hphase with rfl | ⟨s, s', rfl, hs, hsnap, hd, hval, he, he', hb⟩
    · refine .of_update (h.others hne) rfl h.sound h.login ?_ ?_ ?_
      · intro _
        refine h.settled fun j s hj => ?_
        obtain rfl := h.alone i j hne (by rw [hj]; exact Phase.noConfusion)
        rw [hphase] at hj
        cases hj
      · intro s hs
        cases hs
      · intro saved hsaved
        cases hsaved
    · obtain ⟨hover, hstored, hlogin⟩ :=
        c.save hN hkeys h.sound.file h.login hs hsnap hd hval he he' hw
      refine .of_update (h.others hne) rfl ⟨hover, h.sound.loaded⟩ ?_ ?_ ?_ ?_
      · show sameLogin (loginOf (sessionSave st.file s' w).2)
          (loginOf (sessionSave st.file s' w).2) = true
        rw [hlogin]
        exact h.login
      · intro _
        exact hstored.trans hb
      · intro s hs
        cases hs
      · intro saved hsaved
        cases hsaved
  · cases hstep

theorem Serial.writer {op : WriterOp N κ} {keeps : ∀ k ∈ counterKeys, op.Keeps k}
    (hc : c.key ∈ counterKeys) (h : Serial N c b st)
    (hstep : (sends N κ cj).step st (.writer op keeps) = some st') : Serial N c b st' := by
  obtain ⟨w, hwr, rfl⟩ := Option.map_eq_some_iff.mp hstep
  have hstored : c.stored w.file = c.stored st.file :=
    congrArg Json.coerceInt64 (writers_keeps hN hkeys h.sound (keeps _ hc) hwr)
  have hlogin : loginOf w.file = loginOf st.file :=
    writers_keeps hN hkeys h.sound (keeps "loginId" (by simp [counterKeys])) hwr
  have hload {s : Session} (hs : LoadedFrom N st.file s) : LoadedFrom N w.file s :=
    ⟨hs.isOver, hs.distinct, hs.parse, writers_isSome hs.isSome hwr, hlogin.trans hs.login⟩
  refine ⟨writers_preserves hN hkeys h.sound hwr, ?_, h.alone, ?_, ?_, ?_⟩
  · show sameLogin (loginOf w.file) (loginOf w.file) = true
    rw [hlogin]
    exact h.login
  · intro hall
    exact hstored.trans (h.settled hall)
  · intro i s hi
    obtain ⟨hs, hval⟩ := h.started i s hi
    exact ⟨hload hs, hval⟩
  · intro i saved hi
    refine (h.posted i saved hi).imp_right ?_
    rintro ⟨s, s', hsaved, hs, hsnap, hd, hval, hrest⟩
    exact ⟨s, s', hsaved, hload hs, hsnap, hd, hval.trans hstored.symm, hrest⟩

omit hN hkeys in
/-- Only a post is answered by the server. -/
theorem sends_quiet {e : SendStep N κ} (hpost : ∀ i op a accepts, e ≠ .post i op a accepts)
    (hstep : (sends N κ cj).step st e = some st') :
    st'.accepted = st.accepted ∧ st'.encrypted = st.encrypted := by
  cases e with
  | start i | finish i w =>
    simp only [sends] at hstep
    split at hstep
    · obtain rfl := Option.some.inj hstep
      exact ⟨rfl, rfl⟩
    · cases hstep
  | post i op a accepts => exact absurd rfl (hpost i op a accepts)
  | writer op keeps =>
    obtain ⟨w, -, rfl⟩ := Option.map_eq_some_iff.mp hstep
    exact ⟨rfl, rfl⟩

theorem Serial.quiet {e : SendStep N κ} (hc : c.key ∈ counterKeys) (h : Serial N c b st)
    (horder : e.Orderly cj st) (hpost : ∀ i op a accepts, e ≠ .post i op a accepts)
    (hstep : (sends N κ cj).step st e = some st') : Serial N c b st' := by
  cases e with
  | start i => exact h.start hN hkeys horder hstep
  | post i op a accepts => exact absurd rfl (hpost i op a accepts)
  | finish i w => exact h.finish hN hkeys horder hstep
  | writer op keeps => exact h.writer hN hkeys hc hstep

end Names

end Steps

/-! ## Request numbers -/

/-- The counter of the requests has a next value, and it is not 0. -/
def SendStep.NextRequest (st : Sends κ) : SendStep N κ → Prop
  | .post i _ a _ => ∀ s, st.phase i = .started (some s) →
    0 ≤ s.reqSeq ∧ s.reqSeq + 1 < 2 ^ 31 ∧ 0 < nextReqSeq s a.seqTime
  | _ => True

theorem nextReqSeq_bounds {s : Session} {time : Int} (h : 0 ≤ s.reqSeq) (hlt : s.reqSeq + 1 < 2 ^ 31)
    (hpos : 0 < nextReqSeq s time) : s.reqSeq < nextReqSeq s time ∧ nextReqSeq s time < 2 ^ 31 := by
  unfold nextReqSeq at hpos ⊢
  dsimp only at hpos ⊢
  refine ⟨?_, Int.tmod_lt_of_pos _ (by norm_num)⟩
  split
  · rw [Int.tmod_eq_of_lt (by omega) hlt]
    omega
  · rename_i hzero
    rw [if_neg hzero] at hpos
    omega

structure Numbered (N : Set String) (st : Sends κ) (b : Int) : Prop where
  serial : Serial N reqSeqCounter b st
  nodup : st.accepted.Nodup
  bounds : ∀ n ∈ st.accepted, 0 < n ∧ n ≤ b

section Requests

variable (hN : CaseDistinct N) (hkeys : ∀ k ∈ sessionKeys, k ∈ N)
include hN hkeys

theorem numbered_step {st st' : Sends κ} {e : SendStep N κ} (h : ∃ b, Numbered N st b)
    (hmeets : e.Orderly cj st ∧ e.NextRequest st)
    (hstep : (sends N κ cj).step st e = some st') : ∃ b, Numbered N st' b := by
  obtain ⟨b, h⟩ := h
  obtain ⟨horder, hnext⟩ := hmeets
  by_cases hpost : ∀ i op a accepts, e ≠ .post i op a accepts
  · obtain ⟨hacc, -⟩ := sends_quiet hpost hstep
    exact ⟨b, h.serial.quiet hN hkeys (by simp [counterKeys, reqSeqCounter]) horder hpost hstep,
      hacc ▸ h.nodup, hacc ▸ h.bounds⟩
  · push Not at hpost
    obtain ⟨i, op, a, accepts, rfl⟩ := hpost
    obtain ⟨⟨l, hl⟩, hfile, hcases⟩ :=
      sends_post (fun s hs => (h.serial.started i s hs).1.distinct) horder hstep
    rcases hcases with ⟨hphase, hacc, -⟩ | ⟨s, s', es, hi, -, -, hup, hphase, hacc, -⟩
    · exact ⟨b, h.serial.post hl hfile hphase, hacc ▸ h.nodup, hacc ▸ h.bounds⟩
    · obtain ⟨hpos, hlt, hn⟩ := hnext s hi
      obtain ⟨hgt, hlt'⟩ := nextReqSeq_bounds hpos hlt hn
      have hb : s.reqSeq = b := (h.serial.started i s hi).2
      have hserial : Serial N reqSeqCounter s'.reqSeq st' := by
        refine h.serial.post_saved hi hfile hphase hup.snapshot hup.distinct ?_ ?_
        · show |s.reqSeq| < 2 ^ 52
          rw [abs_of_nonneg hpos]
          omega
        · show |s'.reqSeq| < 2 ^ 52
          rw [hup.reqSeq, abs_of_nonneg hn.le]
          omega
      rw [hup.reqSeq] at hserial
      refine ⟨_, hserial, ?_, ?_⟩
      · rw [hacc]
        cases accepts with
        | false => exact h.nodup
        | true =>
          refine List.nodup_cons.mpr ⟨fun hmem => ?_, h.nodup⟩
          have hle := (h.bounds _ hmem).2
          omega
      · intro n hmem
        rw [hacc, List.mem_append] at hmem
        rcases hmem with hmem | hmem
        · cases accepts with
          | false => cases hmem
          | true =>
            obtain rfl := List.mem_singleton.mp hmem
            exact ⟨hn, le_rfl⟩
        · have hle := h.bounds n hmem
          omega

omit [DecidableEq κ] hkeys hN in
theorem serial_init (c : Counter) {file : Option Fields} (hfile : ∀ fs ∈ file, fs.Over N)
    (hlogin : sameLogin (loginOf file) (loginOf file) = true) :
    Serial N c (c.stored file) ({ file := file } : Sends κ) :=
  ⟨⟨hfile, fun _ _ h => by cases h⟩, hlogin, fun _ _ h => absurd rfl h, fun _ => rfl,
    fun _ _ h => (by cases h), fun _ _ h => by cases h⟩

/-- Sends one at a time, each of which stores the number the server accepted, never use a
number twice. -/
theorem request_numbers_unique {file : Option Fields} (hfile : ∀ fs ∈ file, fs.Over N)
    (hlogin : sameLogin (loginOf file) (loginOf file) = true) {steps : List (SendStep N κ)}
    {st : Sends κ}
    (hmeets : (sends N κ cj).Meets (fun st e => e.Orderly cj st ∧ e.NextRequest st)
      { file := file } steps)
    (hrun : (sends N κ cj).run { file := file } steps = some st) : st.accepted.Nodup := by
  have hinit : ∃ b, Numbered N ({ file := file } : Sends κ) b :=
    ⟨_, serial_init _ hfile hlogin, List.nodup_nil, fun n hn => by cases hn⟩
  obtain ⟨b, h⟩ := Machine.run_invariant_of_meets (I := fun st => ∃ b, Numbered N st b)
    (numbered_step hN hkeys) hinit hmeets hrun
  exact h.nodup

end Requests

/-- The removal of a chat, and its answer. -/
def removal : SendOp := .chatRemoved "c1" none 0

def removalAnswered (understood : Bool) : Answers where
  seqTime := 1700000000
  localTime := 1700000000
  chatRemoved := understood

def twoRemovals (understood : Bool) : List (SendStep AccountNames Unit) := [
  .start (), .post () removal (removalAnswered understood) true, .finish () .written,
  .start (), .post () removal (removalAnswered understood) true]

theorem twoRemovals_accepted :
    ((sends AccountNames Unit unparsedJson).run { file := some accountFile }
      (twoRemovals true)).map Sends.accepted = some [7, 6] := by
  decide +kernel

theorem twoRemovals_meets : (sends AccountNames Unit unparsedJson).Meets
    (fun st e => e.Orderly unparsedJson st ∧ e.NextRequest st) { file := some accountFile }
    (twoRemovals true) := by
  have hnext : ∀ file : Option Fields, (sessionLoad file).all (fun s =>
      0 ≤ s.reqSeq ∧ s.reqSeq + 1 < 2 ^ 31 ∧ 0 < nextReqSeq s 1700000000) = true →
      ∀ s, sessionLoad file = some s →
        0 ≤ s.reqSeq ∧ s.reqSeq + 1 < 2 ^ 31 ∧ 0 < nextReqSeq s 1700000000 := by
    intro file h s hs
    rw [hs] at h
    exact of_decide_eq_true h
  have hanswers : (removalAnswered true).DistinctStates unparsedJson :=
    ⟨fun _ h => (by cases h), fun _ h => (by cases h)⟩
  refine ⟨⟨fun _ => rfl, trivial⟩, fun st hst => ?_⟩
  obtain rfl := Option.some.inj hst
  refine ⟨⟨⟨hanswers, fun _ => rfl⟩, fun s hs =>
    hnext _ (by decide) s (Phase.started.inj hs)⟩, fun st hst => ?_⟩
  obtain rfl := Option.some.inj hst
  refine ⟨⟨rfl, trivial⟩, fun st hst => ?_⟩
  obtain rfl := Option.some.inj hst
  refine ⟨⟨fun _ => rfl, trivial⟩, fun st hst => ?_⟩
  obtain rfl := Option.some.inj hst
  exact ⟨⟨⟨hanswers, fun _ => rfl⟩, fun s hs =>
    hnext _ (by decide +kernel) s (Phase.started.inj hs)⟩, fun _ _ => trivial⟩

theorem request_numbers_unique_removals : ∃ st,
    (sends AccountNames Unit unparsedJson).run { file := some accountFile } (twoRemovals true) =
      some st ∧ st.accepted = [7, 6] ∧ st.accepted.Nodup := by
  obtain ⟨st, hrun, hacc⟩ := Option.map_eq_some_iff.mp twoRemovals_accepted
  exact ⟨st, hrun, hacc, request_numbers_unique accountNames_distinct
    (fun k hk => List.mem_append_left _ hk) (fun _ h => Option.some.inj h ▸ accountFile_over)
    (by decide) twoRemovals_meets hrun⟩

/-- Two sends that overlap take one number, and so do two sends of which the first had a
reply that is not understood. -/
theorem request_number_reused :
    (¬ ∀ (steps : List (SendStep AccountNames Bool)) (st : Sends Bool),
      (sends AccountNames Bool unparsedJson).run { file := some accountFile } steps = some st →
        st.accepted.Nodup) ∧
    ¬ ∀ (steps : List (SendStep AccountNames Unit)) (st : Sends Unit),
      (sends AccountNames Unit unparsedJson).run { file := some accountFile } steps = some st →
        st.accepted.Nodup := by
  constructor
  · intro hall
    have hrun : ((sends AccountNames Bool unparsedJson).run { file := some accountFile }
        [.start false, .start true, .post false removal (removalAnswered true) true,
          .post true removal (removalAnswered true) true]).map Sends.accepted = some [6, 6] := by
      decide
    obtain ⟨st, hst, hacc⟩ := Option.map_eq_some_iff.mp hrun
    have hnodup := hall _ st hst
    rw [hacc] at hnodup
    revert hnodup
    decide
  · intro hall
    have hrun : ((sends AccountNames Unit unparsedJson).run { file := some accountFile }
        (twoRemovals false)).map Sends.accepted = some [6, 6] := by
      decide
    obtain ⟨st, hst, hacc⟩ := Option.map_eq_some_iff.mp hrun
    have hnodup := hall _ st hst
    rw [hacc] at hnodup
    revert hnodup
    decide

/-! ## Encryption numbers -/

/-- The counter of the encryptions has a next value that a double tells apart, and where a
message that is accepted was sealed, no group message was accepted under its key. -/
def SendStep.NextEncryption (cj : Cjson) (st : Sends κ) : SendStep N κ → Prop
  | .post i op a accepts => ∀ s, st.phase i = .started (some s) →
    |s.e2eeSequenceNumber| + 1 < 2 ^ 52 ∧
      (accepts = true → ∀ new ∈ encryptions (viewOf (op.run cj a (some s))),
        ∀ e ∈ st.encrypted, e.isGroup = true → e.senderKeyId ≠ new.senderKeyId)
  | _ => True

def Encryption.pair (e : Encryption) : Int × Int := (e.senderKeyId, e.sequenceNumber)

/-- The pairs accepted so far differ; the numbers of messages to users are used up. -/
structure Sequenced (N : Set String) (st : Sends κ) (b : Int) : Prop where
  serial : Serial N sequenceCounter b st
  nodup : (st.encrypted.map Encryption.pair).Nodup
  bounds : ∀ e ∈ st.encrypted, e.isGroup = false → e.sequenceNumber < b

section Encryptions

variable (hN : CaseDistinct N) (hkeys : ∀ k ∈ sessionKeys, k ∈ N)
include hN hkeys

theorem sequenced_step {st st' : Sends κ} {e : SendStep N κ} (h : ∃ b, Sequenced N st b)
    (hmeets : e.Orderly cj st ∧ e.NextEncryption cj st)
    (hstep : (sends N κ cj).step st e = some st') : ∃ b, Sequenced N st' b := by
  obtain ⟨b, h⟩ := h
  obtain ⟨horder, hnext⟩ := hmeets
  by_cases hpost : ∀ i op a accepts, e ≠ .post i op a accepts
  · obtain ⟨-, henc⟩ := sends_quiet hpost hstep
    exact ⟨b, h.serial.quiet hN hkeys (by simp [counterKeys, sequenceCounter]) horder hpost hstep,
      henc ▸ h.nodup, henc ▸ h.bounds⟩
  · push Not at hpost
    obtain ⟨i, op, a, accepts, rfl⟩ := hpost
    obtain ⟨⟨l, hl⟩, hfile, hcases⟩ :=
      sends_post (fun s hs => (h.serial.started i s hs).1.distinct) horder hstep
    rcases hcases with ⟨hphase, -, henc⟩ | ⟨s, s', es, hi, hview, hes, hup, hphase, -, henc⟩
    · exact ⟨b, h.serial.post hl hfile hphase, henc ▸ h.nodup, henc ▸ h.bounds⟩
    · obtain ⟨hlt, hkey⟩ := hnext s hi
      obtain rfl : s.e2eeSequenceNumber = b := (h.serial.started i s hi).2
      have hle : s.e2eeSequenceNumber ≤ s'.e2eeSequenceNumber ∧
          s'.e2eeSequenceNumber ≤ s.e2eeSequenceNumber + 1 := by
        rw [hup.e2eeSequenceNumber]
        split <;> omega
      have hserial : Serial N sequenceCounter s'.e2eeSequenceNumber st' := by
        have habs := abs_lt.mp (show |s.e2eeSequenceNumber| < 2 ^ 52 - 1 by omega)
        refine h.serial.post_saved hi hfile hphase hup.snapshot hup.distinct ?_ ?_
        · show |s.e2eeSequenceNumber| < 2 ^ 52
          omega
        · show |s'.e2eeSequenceNumber| < 2 ^ 52
          rw [abs_lt]
          omega
      refine ⟨_, hserial, ?_, ?_⟩
      · rw [henc]
        cases accepts with
        | false => exact h.nodup
        | true =>
          rcases hes with rfl | ⟨-, isGroup, rfl⟩
          · exact h.nodup
          · refine List.nodup_cons.mpr ⟨fun hmem => ?_, h.nodup⟩
            obtain ⟨e, he, hpair⟩ := List.mem_map.mp hmem
            obtain ⟨hk, hn⟩ := Prod.mk.inj hpair
            replace hn : e.sequenceNumber = s.e2eeSequenceNumber := hn
            -- An earlier message under the key was to a user, so its number is used up.
            cases hgroup : e.isGroup with
            | true => exact hkey rfl _ (hview ▸ List.mem_singleton_self _) e he hgroup hk
            | false =>
              have hused := h.bounds e he hgroup
              omega
      · intro e he hgroup
        rw [henc, List.mem_append] at he
        rcases he with he | he
        · cases accepts with
          | false => cases he
          | true =>
            rcases hes with rfl | ⟨-, isGroup, rfl⟩
            · cases he
            · obtain rfl := List.mem_singleton.mp he
              obtain rfl : isGroup = false := hgroup
              rw [hup.e2eeSequenceNumber]
              show s.e2eeSequenceNumber < s.e2eeSequenceNumber + 1
              omega
        · have hused := h.bounds e he hgroup
          omega

/-- Sends one at a time, each of which stores its numbers, never use a number twice under
one key, if no message follows one to a group that was sealed under its key. -/
theorem encryption_numbers_unique {file : Option Fields} (hfile : ∀ fs ∈ file, fs.Over N)
    (hlogin : sameLogin (loginOf file) (loginOf file) = true) {steps : List (SendStep N κ)}
    {st : Sends κ}
    (hmeets : (sends N κ cj).Meets (fun st e => e.Orderly cj st ∧ e.NextEncryption cj st)
      { file := file } steps)
    (hrun : (sends N κ cj).run { file := file } steps = some st) :
    (st.encrypted.map fun e => (e.senderKeyId, e.sequenceNumber)).Nodup := by
  have hinit : ∃ b, Sequenced N ({ file := file } : Sends κ) b :=
    ⟨_, serial_init _ hfile hlogin, List.nodup_nil, fun n hn => by cases hn⟩
  obtain ⟨b, h⟩ := Machine.run_invariant_of_meets (I := fun st => ∃ b, Sequenced N st b)
    (sequenced_step hN hkeys) hinit hmeets hrun
  exact h.nodup

end Encryptions

def sealedFile : Fields := [
  ("accessToken", .str "access-1"),
  ("mid", .str "ume"),
  ("e2eeLatestKeyId", .num 7),
  ("e2eeSequenceNumber", .num 3),
  ("e2eeKeys", .arr [.obj [("keyId", .num 7), ("exportedKey", .str "secret")]])]

theorem sealedFile_over : sealedFile.Over AccountNames where
  nodup := by decide
  mem := by
    have h : ∀ f ∈ sealedFile, f.1 ∈ accountNames := by decide
    exact h
  distinct := by decide

/-- All that an encrypted text needs is answered. -/
def sealedAnswered : Answers where
  seqTime := 1700000000
  localTime := 1700000000
  groupKey := some ⟨1, some "ume", 7, 7, .null⟩
  creatorPublicKey := some "public"
  senderPublicKey := some "public"
  peerKey := some ⟨"peer", 9⟩
  encrypt := some ⟨List.replicate 29 0, none⟩
  sendMessage := some (.obj [("id", .str "m1")])

def twoTexts (chat : String) : List (SendStep AccountNames Unit) := [
  .start (), .post () (.text chat "hello") sealedAnswered true, .finish () .written,
  .start (), .post () (.text chat "hello") sealedAnswered true]

theorem twoTexts_encrypted :
    ((sends AccountNames Unit unparsedJson).run { file := some sealedFile }
      (twoTexts "upeer")).map Sends.encrypted = some [⟨7, 4, false⟩, ⟨7, 3, false⟩] := by
  decide +kernel

theorem twoTexts_meets : (sends AccountNames Unit unparsedJson).Meets
    (fun st e => e.Orderly unparsedJson st ∧ e.NextEncryption unparsedJson st) { file := some sealedFile }
    (twoTexts "upeer") := by
  have hnext : ∀ (file : Option Fields) (news es : List Encryption),
      (sessionLoad file).all (fun s => |s.e2eeSequenceNumber| + 1 < 2 ^ 52) = true →
      es.all (fun e => !e.isGroup) = true → ∀ s, sessionLoad file = some s →
        |s.e2eeSequenceNumber| + 1 < 2 ^ 52 ∧ (true = true → ∀ new ∈ news,
          ∀ e ∈ es, e.isGroup = true → e.senderKeyId ≠ new.senderKeyId) := by
    intro file news es h hes s hs
    rw [hs] at h
    refine ⟨of_decide_eq_true h, fun _ new _ e he hgroup => ?_⟩
    have hnot := List.all_eq_true.mp hes e he
    rw [hgroup] at hnot
    cases hnot
  have hanswers : sealedAnswered.DistinctStates unparsedJson :=
    ⟨fun _ henc _ hj => (by obtain rfl := Option.some.inj henc; cases hj),
      fun _ h => by cases h⟩
  refine ⟨⟨fun _ => rfl, trivial⟩, fun st hst => ?_⟩
  obtain rfl := Option.some.inj hst
  refine ⟨⟨⟨hanswers, fun _ => by decide⟩, fun s hs =>
    hnext _ _ _ (by decide) rfl s (Phase.started.inj hs)⟩, fun st hst => ?_⟩
  obtain rfl := Option.some.inj hst
  refine ⟨⟨rfl, trivial⟩, fun st hst => ?_⟩
  obtain rfl := Option.some.inj hst
  refine ⟨⟨fun _ => rfl, trivial⟩, fun st hst => ?_⟩
  obtain rfl := Option.some.inj hst
  exact ⟨⟨⟨hanswers, fun _ => by decide⟩, fun s hs =>
    hnext _ _ _ (by decide +kernel) (by decide +kernel) s (Phase.started.inj hs)⟩,
    fun _ _ => trivial⟩

theorem encryption_numbers_unique_texts : ∃ st,
    (sends AccountNames Unit unparsedJson).run { file := some sealedFile } (twoTexts "upeer") =
      some st ∧ st.encrypted = [⟨7, 4, false⟩, ⟨7, 3, false⟩] ∧
      (st.encrypted.map fun e => (e.senderKeyId, e.sequenceNumber)).Nodup := by
  obtain ⟨st, hrun, henc⟩ := Option.map_eq_some_iff.mp twoTexts_encrypted
  exact ⟨st, hrun, henc, encryption_numbers_unique accountNames_distinct
    (fun k hk => List.mem_append_left _ hk) (fun _ h => Option.some.inj h ▸ sealedFile_over)
    (by decide) twoTexts_meets hrun⟩

/-- Two texts to a group are encrypted under one key with one number. -/
theorem encryption_number_reused :
    ¬ ∀ (steps : List (SendStep AccountNames Unit)) (st : Sends Unit),
      (sends AccountNames Unit unparsedJson).run { file := some sealedFile } steps = some st →
        (st.encrypted.map fun e => (e.senderKeyId, e.sequenceNumber)).Nodup := by
  intro hall
  have hrun : ((sends AccountNames Unit unparsedJson).run { file := some sealedFile }
      (twoTexts "cgroup")).map Sends.encrypted = some [⟨7, 3, true⟩, ⟨7, 3, true⟩] := by
    decide +kernel
  obtain ⟨st, hst, henc⟩ := Option.map_eq_some_iff.mp hrun
  have hnodup := hall _ st hst
  rw [henc] at hnodup
  revert hnodup
  decide

end Enil
