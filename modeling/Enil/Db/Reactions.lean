import Enil.Db.Messages
import Enil.Lib.LastWriter

/-!
# The stored reactions of a message

`enil_db_message_reactions_update` on the text of `reactions_json`: it is parsed, the
entries of the reactor are deleted from the back, an added one goes to the end, and the
array is printed again. Read as an array the column changes as the table of
`Db.Messages` says (`reactionsUpdate_simulated`).
-/

namespace Enil.Db

open Lib Lib.Sql LastWriter

/-- The column reactions_json, by message id. -/
abbrev ReactionsColumn := Table String (Option String)

/-- What a call says beside the message. -/
structure ReactionCall where
  reactorMid : String
  isRemove : Bool
  predefinedType : Int := 0
  productId : Option String := none
  emojiId : Option String := none
  createdTime : Int := 0
  deriving DecidableEq

def ReactionCall.entry (x : ReactionCall) : Json :=
  reactionEntry x.reactorMid x.predefinedType x.productId x.emojiId x.createdTime

/-- The array in the column; a text that is no array counts as an empty one. -/
def parseReactions (cj : Cjson) (text : Option String) : List Json :=
  if nonempty text then ((text.bind cj.parse).filter (·.isArray)).elim [] (·.elements) else []

/-- The text for the column, NULL for an empty array. -/
def printReactions (cj : Cjson) (arr : List Json) : Option String :=
  if 0 < arr.length then some (cj.print (.arr arr)) else none

/-- The deletions at the indices below `i`, from the back, and whether there was one. -/
def removeReactor (reactorMid : String) : Nat → List Json → Bool → List Json × Bool
  | 0, arr, removed => (arr, removed)
  | i + 1, arr, removed =>
    if arr[i]?.any (isReactor reactorMid) then removeReactor reactorMid i (arr.eraseIdx i) true
    else removeReactor reactorMid i arr removed

def setReactionsText (id : String) (text : Option String) (t : ReactionsColumn) :
    Nat × ReactionsColumn := t.update id fun _ => text

/-- enil_db_message_reactions_update. -/
def reactionsUpdate (cj : Cjson) (messageId : String) (x : ReactionCall) :
    Sql ReactionsColumn Rc := do
  match ← query fun t => t messageId with
  | none => return .error
  | some none => return .ok
  | some (some text) =>
    let arr := parseReactions cj text
    let kept := removeReactor x.reactorMid arr.length arr false
    if x.isRemove then
      if kept.2 then exec (setReactionsText messageId (printReactions cj kept.1))
      else return .ok
    else exec (setReactionsText messageId (printReactions cj (kept.1 ++ [x.entry])))

/-- The calls one after the other, and those of them that returned SQLITE_OK. -/
def runReactions (cj : Cjson) (messageId : String) :
    List ReactionCall → Sql ReactionsColumn (List ReactionCall)
  | [] => pure []
  | x :: xs => do
    let rc ← reactionsUpdate cj messageId x
    let done ← runReactions cj messageId xs
    return if rc = .ok then x :: done else done

/-! ## One call -/

/-- Whom an entry is of. -/
def reactorOf (item : Json) : Option String := item.stringItem "reactorMid"

theorem isReactor_eq (reactorMid : String) :
    isReactor reactorMid = fun item => decide (reactorOf item = some reactorMid) := by
  funext item
  unfold isReactor reactorOf
  rw [Bool.eq_iff_iff, beq_iff_eq, decide_eq_true_iff]

theorem reactorOf_entry (x : ReactionCall) : reactorOf x.entry = some x.reactorMid := by
  have hkey : Json.keyEq "reactorMid" "reactorMid" = true := Json.keyEq_refl _
  unfold reactorOf ReactionCall.entry reactionEntry Json.stringItem Json.getObjectItem
  simp [hkey, Json.getStringValue]

theorem removeReactor_eq (reactorMid : String) (i : Nat) (arr : List Json) (removed : Bool)
    (hi : i ≤ arr.length) : removeReactor reactorMid i arr removed =
      ((arr.take i).filter (fun item => !isReactor reactorMid item) ++ arr.drop i,
        removed || (arr.take i).any (isReactor reactorMid)) := by
  induction i generalizing arr removed with
  | zero => simp [removeReactor]
  | succ i ih =>
    have hlt : i < arr.length := by omega
    have htake : arr.take (i + 1) = arr.take i ++ [arr[i]] := List.take_succ_eq_append_getElem hlt
    have hdrop : arr.drop i = arr[i] :: arr.drop (i + 1) := List.drop_eq_getElem_cons hlt
    unfold removeReactor
    rw [List.getElem?_eq_getElem hlt, Option.any_some, htake, List.filter_append, List.any_append]
    cases hr : isReactor reactorMid arr[i] with
    | true =>
      have herase : arr.eraseIdx i = arr.take i ++ arr.drop (i + 1) :=
        List.eraseIdx_eq_take_drop_succ ..
      have hlen : (arr.take i).length = i := by simp; omega
      rw [if_pos rfl, ih _ _ (by rw [herase, List.length_append, hlen]; omega), herase,
        List.take_left' hlen, List.drop_left' hlen]
      simp [hr]
    | false =>
      rw [if_neg Bool.false_ne_true, ih _ _ (by omega), hdrop]
      simp [hr]

/-- What the call does to the array. -/
def ReactionCall.edit (x : ReactionCall) : Edit String Json :=
  ⟨x.reactorMid, if x.isRemove then none else some x.entry⟩

theorem keyed_edit (x : ReactionCall) : Keyed reactorOf x.edit := by
  intro e he
  unfold ReactionCall.edit at he ⊢
  cases hx : x.isRemove with
  | true => simp [hx] at he
  | false =>
    rw [hx, if_neg Bool.false_ne_true] at he
    rw [← Option.some.inj he]
    exact reactorOf_entry x

theorem edit_eq (x : ReactionCall) (arr : List Json) : LastWriter.edit reactorOf arr x.edit =
    (arr.filter fun item => !isReactor x.reactorMid item) ++
      if x.isRemove then [] else [x.entry] := by
  unfold LastWriter.edit ReactionCall.edit
  rw [isReactor_eq]
  congr 1
  · apply List.filter_congr
    intro item _
    simp
  · cases x.isRemove <;> rfl

/-- A removal where the reactor has no entry. -/
def ReactionCall.Idle (x : ReactionCall) (arr : List Json) : Prop :=
  x.isRemove = true ∧ ∀ item ∈ arr, isReactor x.reactorMid item = false

/-- A call fails and changes nothing, or has nothing to remove and changes nothing, or
stores the edited array. -/
theorem reactionsUpdate_cases (cj : Cjson) {id : String} (x : ReactionCall)
    {c : Conn ReactionsColumn} {text : Option String} (hrow : c.db id = some text) :
    ((reactionsUpdate cj id x c).1 = .error ∧ (reactionsUpdate cj id x c).2.db = c.db) ∨
    ((reactionsUpdate cj id x c).1 = .ok ∧ x.Idle (parseReactions cj text) ∧
      (reactionsUpdate cj id x c).2.db = c.db) ∨
    ((reactionsUpdate cj id x c).1 = .ok ∧ ¬ x.Idle (parseReactions cj text) ∧
      (reactionsUpdate cj id x c).2.db = Function.update c.db id (some
        (printReactions cj (LastWriter.edit reactorOf (parseReactions cj text) x.edit)))) := by
  have hremove := removeReactor_eq x.reactorMid _ (parseReactions cj text) false (Nat.le_refl _)
  rw [List.take_length, List.drop_length, List.append_nil, Bool.false_or] at hremove
  have hwrite (out : Option String) {d : Conn ReactionsColumn} (hd : d.db = c.db) :
      ((exec (setReactionsText id out) d).1 = .error ∧
        (exec (setReactionsText id out) d).2.db = c.db) ∨
      ((exec (setReactionsText id out) d).1 = .ok ∧
        (exec (setReactionsText id out) d).2.db = Function.update c.db id (some out)) := by
    rw [exec_code, exec_db, hd]
    split
    · exact .inl ⟨rfl, rfl⟩
    · refine .inr ⟨rfl, ?_⟩
      rw [setReactionsText, Table.update_of_some hrow]
  unfold reactionsUpdate
  rw [bind_apply]
  unfold query
  split
  · exact .inl ⟨rfl, rfl⟩
  · simp only [hrow]
    rw [edit_eq, hremove]
    cases hx : x.isRemove with
    | true =>
      simp only [if_true]
      cases hany : (parseReactions cj text).any (isReactor x.reactorMid) with
      | true =>
        rw [if_pos rfl, List.append_nil]
        obtain ⟨hrc, hdb⟩ | ⟨hrc, hdb⟩ := hwrite (printReactions cj
          ((parseReactions cj text).filter fun item => !isReactor x.reactorMid item)) c.tick_db
        · exact .inl ⟨hrc, hdb⟩
        · refine .inr (.inr ⟨hrc, ?_, hdb⟩)
          rintro ⟨-, hnone⟩
          obtain ⟨item, hitem, hr⟩ := List.any_eq_true.mp hany
          rw [hnone item hitem] at hr
          cases hr
      | false =>
        refine .inr (.inl ⟨rfl, ⟨hx, fun item hitem => ?_⟩, rfl⟩)
        rw [List.any_eq_false] at hany
        exact Bool.eq_false_iff.mpr (hany item hitem)
    | false =>
      simp only [Bool.false_eq_true, if_false]
      obtain ⟨hrc, hdb⟩ | ⟨hrc, hdb⟩ := hwrite (printReactions cj
        (((parseReactions cj text).filter fun item => !isReactor x.reactorMid item) ++ [x.entry]))
        c.tick_db
      · exact .inl ⟨hrc, hdb⟩
      · refine .inr (.inr ⟨hrc, ?_, hdb⟩)
        rintro ⟨hremoved, -⟩
        rw [hx] at hremoved
        cases hremoved

/-- A call fails only where its read or its write does. -/
theorem reactionsUpdate_ok (cj : Cjson) {id : String} (x : ReactionCall)
    {c : Conn ReactionsColumn} (hread : c.failing = false) (hwrite : c.tick.failing = false) :
    (reactionsUpdate cj id x c).1 = .ok := by
  have hexec (stmt : ReactionsColumn → Nat × ReactionsColumn) : (exec stmt c.tick).1 = .ok := by
    rw [exec_code, hwrite]
    rfl
  have hrow : query (fun t : ReactionsColumn => t id) c = (some (c.db id), c.tick) := by
    rw [query_apply, hread]
    rfl
  unfold reactionsUpdate
  rw [bind_apply, hrow]
  cases c.db id with
  | none => rfl
  | some text =>
    simp only
    split
    · split
      · exact hexec _
      · rfl
    · exact hexec _

theorem built_reactionsUpdate (cj : Cjson) (id : String) (x : ReactionCall) :
    Built (fun _ => True) (reactionsUpdate cj id x) := by
  refine .bind (.query _) fun row => ?_
  split
  · exact .pure _
  · exact .pure _
  · exact .ite (.ite (.exec trivial) (.pure _)) (.exec trivial)

theorem edit_of_idle {x : ReactionCall} {arr : List Json} (h : x.Idle arr) :
    LastWriter.edit reactorOf arr x.edit = arr := by
  apply edit_of_absent
  · simp [ReactionCall.edit, h.1]
  · intro item hitem hr
    have := h.2 item hitem
    rw [isReactor_eq] at this
    simp [ReactionCall.edit] at hr
    simp [hr] at this

/-! ## Calls one after the other -/

/-- cJSON reads back the array it prints, and prints it as some text. -/
def Stores (cj : Cjson) (arr : List Json) : Prop :=
  cj.ReadsBack (.arr arr) ∧ cj.print (.arr arr) ≠ ""

theorem parseReactions_printReactions {cj : Cjson} {arr : List Json} (h : Stores cj arr) :
    parseReactions cj (printReactions cj arr) = arr := by
  unfold printReactions
  split
  · have htext : nonempty (some (cj.print (.arr arr))) = true := by simpa [nonempty] using h.2
    unfold parseReactions
    rw [if_pos htext, Option.bind_some, show cj.parse _ = _ from h.1]
    rfl
  · rename_i hlen
    have hnil : arr = [] := List.length_eq_zero_iff.mp (by omega)
    rw [hnil]
    rfl

def reacted (arr : List Json) (xs : List ReactionCall) : List Json :=
  edits reactorOf arr (xs.map ReactionCall.edit)

/-- The column after calls of which `done` succeeded. -/
structure Reacted (cj : Cjson) (done : List ReactionCall) (text text' : Option String) : Prop where
  array : parseReactions cj text' = reacted (parseReactions cj text) done
  printed : text' = text ∨ text' = printReactions cj (parseReactions cj text')

theorem runReactions_row (cj : Cjson) {id : String} (xs : List ReactionCall)
    {c : Conn ReactionsColumn} {text : Option String} (hrow : c.db id = some text)
    (hprint : ∀ pre, pre <+: (runReactions cj id xs c).1 →
      Stores cj (reacted (parseReactions cj text) pre)) :
    ∃ text', (runReactions cj id xs c).2.db id = some text' ∧
      Reacted cj (runReactions cj id xs c).1 text text' := by
  induction xs generalizing c text with
  | nil => exact ⟨text, hrow, rfl, .inl rfl⟩
  | cons x xs ih =>
    have hrun : runReactions cj id (x :: xs) c =
        (if (reactionsUpdate cj id x c).1 = .ok then
          x :: (runReactions cj id xs (reactionsUpdate cj id x c).2).1
        else (runReactions cj id xs (reactionsUpdate cj id x c).2).1,
        (runReactions cj id xs (reactionsUpdate cj id x c).2).2) := rfl
    rw [hrun] at hprint ⊢
    obtain ⟨hrc, hdb⟩ | ⟨hrc, hidle, hdb⟩ | ⟨hrc, -, hdb⟩ := reactionsUpdate_cases cj x hrow
    · simp only [hrc, reduceCtorEq, if_false] at hprint ⊢
      exact ih (by rw [hdb]; exact hrow) hprint
    · simp only [hrc, if_true] at hprint ⊢
      have hedit := edit_of_idle hidle
      have hstep : ∀ pre, reacted (parseReactions cj text) (x :: pre) =
          reacted (parseReactions cj text) pre := by
        intro pre
        unfold reacted edits
        rw [List.map_cons, List.foldl_cons, hedit]
      have hnext : (reactionsUpdate cj id x c).2.db id = some text := by rw [hdb]; exact hrow
      obtain ⟨text', hrow', harr, hprinted⟩ := ih hnext fun pre hpre => by
        rw [← hstep]
        exact hprint _ (List.prefix_cons_inj x |>.mpr hpre)
      exact ⟨text', hrow', harr.trans (hstep _).symm, hprinted⟩
    · simp only [hrc, if_true] at hprint ⊢
      have hone : Stores cj (LastWriter.edit reactorOf (parseReactions cj text) x.edit) :=
        hprint [x] (by simp)
      have hparse := parseReactions_printReactions hone
      have hnext : (reactionsUpdate cj id x c).2.db id = some
          (printReactions cj (LastWriter.edit reactorOf (parseReactions cj text) x.edit)) := by
        rw [hdb, Function.update_self]
      obtain ⟨text', hrow', harr, hprinted⟩ := ih hnext fun pre hpre => by
        rw [hparse]
        exact hprint _ (List.prefix_cons_inj x |>.mpr hpre)
      rw [hparse] at harr
      refine ⟨text', hrow', harr, .inr ?_⟩
      rcases hprinted with rfl | hprinted
      · rw [hparse]
      · exact hprinted

theorem runReactions_quiet (cj : Cjson) {id : String} (xs : List ReactionCall)
    {c : Conn ReactionsColumn} (h : c.faults = []) : (runReactions cj id xs c).1 = xs := by
  induction xs generalizing c with
  | nil => rfl
  | cons x xs ih =>
    have hrun : (runReactions cj id (x :: xs) c).1 =
        if (reactionsUpdate cj id x c).1 = .ok then
          x :: (runReactions cj id xs (reactionsUpdate cj id x c).2).1
        else (runReactions cj id xs (reactionsUpdate cj id x c).2).1 := rfl
    have hread : c.failing = false := failing_of_quiet h
    have hok : (reactionsUpdate cj id x c).1 = .ok :=
      reactionsUpdate_ok cj x hread (by rw [tick_of_quiet h]; exact hread)
    rw [hrun, if_pos hok, ih ((built_reactionsUpdate cj id x).quiet h)]

/-! ## The column and the table of messages -/

/-- The same messages, each with the array of its text. -/
def ReadsAs (cj : Cjson) (t : ReactionsColumn) (db : Db) : Prop :=
  ∀ id, (t id).map (parseReactions cj) = (db.messages id).map (·.reactionsJson)

theorem ReadsAs.write {cj : Cjson} {t : ReactionsColumn} {db : Db} (h : ReadsAs cj t db)
    {id : String} {text : Option String} (hrow : t id = some text) {arr : List Json}
    (hprint : Stores cj arr) :
    ReadsAs cj (setReactionsText id (printReactions cj arr) t).2 (setReactionsJson id arr db).2 := by
  intro id'
  have hid := h id
  rw [hrow, Option.map_some] at hid
  obtain ⟨r, hr, -⟩ := Option.map_eq_some_iff.mp hid.symm
  unfold setReactionsText setReactionsJson
  rw [Table.update_of_some hrow, onMessages_update hr]
  show (Function.update t id _ id').map _ = (Function.update db.messages id _ id').map _
  rcases Decidable.em (id' = id) with rfl | hne
  · rw [Function.update_self, Function.update_self]
    exact congrArg some (parseReactions_printReactions hprint)
  · rw [Function.update_of_ne hne, Function.update_of_ne hne]
    exact h id'

/-- A statement on the column and the one on the table, with the same failures to come. -/
theorem exec_simulated {cj : Cjson} {c : Conn ReactionsColumn} {d : Conn Db}
    (hf : c.faults = d.faults) (h : ReadsAs cj c.db d.db)
    {s : ReactionsColumn → Nat × ReactionsColumn} {s' : Db → Nat × Db}
    (hs : ReadsAs cj (s c.db).2 (s' d.db).2) :
    (exec s c).1 = (exec s' d).1 ∧ ReadsAs cj (exec s c).2.db (exec s' d).2.db := by
  rw [exec_code, exec_code, exec_db, exec_db]
  unfold Conn.failing
  rw [hf]
  split
  · exact ⟨rfl, h⟩
  · exact ⟨rfl, hs⟩

/-- The call on the text does what the call on the array does. -/
theorem reactionsUpdate_simulated (cj : Cjson) {c : Conn ReactionsColumn} {d : Conn Db}
    (hf : c.faults = d.faults) (h : ReadsAs cj c.db d.db) (id : String) (x : ReactionCall)
    (hprint : ∀ text, c.db id = some text →
      Stores cj (reacted (parseReactions cj text) [x])) :
    let r := messageReactionsUpdate id x.reactorMid x.isRemove x.predefinedType x.productId
      x.emojiId x.createdTime d
    (reactionsUpdate cj id x c).1 = r.1 ∧ ReadsAs cj (reactionsUpdate cj id x c).2.db r.2.db := by
  have htick : c.tick.faults = d.tick.faults := congrArg List.tail hf
  have hfail : c.failing = d.failing := congrArg (List.headD · false) hf
  unfold reactionsUpdate messageReactionsUpdate
  simp only [bind_apply]
  unfold query
  rw [hfail]
  split
  · exact ⟨rfl, h⟩
  · cases hrow : c.db id with
    | none =>
      have hnone : d.db.messages id = none := by
        have hid := h id
        rw [hrow, Option.map_none] at hid
        exact Option.map_eq_none_iff.mp hid.symm
      simp only [hrow, hnone, Option.map_none]
      exact ⟨rfl, h⟩
    | some text =>
      have hid := h id
      rw [hrow, Option.map_some] at hid
      simp only [hrow, ← hid]
      have harr := hprint text hrow
      have hremove := removeReactor_eq x.reactorMid _ (parseReactions cj text) false
        (Nat.le_refl _)
      rw [List.take_length, List.drop_length, List.append_nil, Bool.false_or] at hremove
      have hedit : reacted (parseReactions cj text) [x] =
          (parseReactions cj text).filter (fun item => !isReactor x.reactorMid item) ++
            if x.isRemove then [] else [x.entry] := edit_eq x _
      rw [hedit] at harr
      rw [hremove]
      cases hx : x.isRemove with
      | true =>
        rw [hx, if_pos rfl, List.append_nil] at harr
        simp only [if_true]
        -- something was deleted exactly where the array got shorter
        have hshorter : (parseReactions cj text).any (isReactor x.reactorMid) = false ↔
            ((parseReactions cj text).filter fun item => !isReactor x.reactorMid item).length =
              (parseReactions cj text).length := by
          rw [List.any_eq_false, List.length_filter_eq_length_iff]
          simp
        cases hany : (parseReactions cj text).any (isReactor x.reactorMid) with
        | true =>
          rw [if_pos rfl, if_neg fun hlen => by rw [hshorter.mpr hlen] at hany; cases hany]
          exact exec_simulated htick h (h.write hrow harr)
        | false =>
          rw [if_pos (hshorter.mp hany)]
          exact ⟨rfl, h⟩
      | false =>
        rw [hx, if_neg Bool.false_ne_true] at harr
        exact exec_simulated htick h (h.write hrow harr)

/-! ## Any sequence of calls -/

def lastCall (reactorMid : String) (xs : List ReactionCall) : Option ReactionCall :=
  xs.reverse.find? fun x => x.reactorMid = reactorMid

theorem last_edit (reactorMid : String) (xs : List ReactionCall) :
    last reactorMid (xs.map ReactionCall.edit) =
      (lastCall reactorMid xs).map ReactionCall.edit := by
  unfold last lastCall
  rw [← List.map_reverse, List.find?_map]
  rfl

/-- Each reactor has what its last call says, and the others what they had. -/
structure LastWriterMap (xs : List ReactionCall) (arr arr' : List Json) : Prop where
  called : ∀ reactorMid, arr'.filter (isReactor reactorMid) =
    match lastCall reactorMid xs with
    | some x => if x.isRemove then [] else [x.entry]
    | none => arr.filter (isReactor reactorMid)
  others : arr'.filter (fun item => ∀ x ∈ xs, isReactor x.reactorMid item = false) =
    arr.filter (fun item => ∀ x ∈ xs, isReactor x.reactorMid item = false)

theorem lastWriterMap_reacted (arr : List Json) (xs : List ReactionCall) :
    LastWriterMap xs arr (reacted arr xs) := by
  have hkeyed : ∀ x ∈ xs.map ReactionCall.edit, Keyed reactorOf x := by
    intro x hx
    obtain ⟨y, -, rfl⟩ := List.mem_map.mp hx
    exact keyed_edit y
  constructor
  · intro reactorMid
    rw [isReactor_eq, reacted, filter_edits reactorOf hkeyed, last_edit]
    cases lastCall reactorMid xs with
    | none => rfl
    | some x =>
      show (if x.isRemove then none else some x.entry).toList =
        if x.isRemove then [] else [x.entry]
      split <;> rfl
  · have h := untouched_edits reactorOf hkeyed arr
    simpa [isReactor_eq, ReactionCall.edit, reacted] using h

/-- What a sequence of calls on a stored message leaves, all of which count if no statement
fails. One call succeeds if its read and its write do, and stores nothing where it removes
from a reactor without an entry, else the edited array, an empty one as NULL. -/
theorem reactions_last_writer (cj : Cjson) {id : String} (xs : List ReactionCall)
    {c : Conn ReactionsColumn} {text : Option String} (hrow : c.db id = some text)
    (hprint : ∀ pre, pre <+: (runReactions cj id xs c).1 →
      Stores cj (reacted (parseReactions cj text) pre)) :
    (∃ text', (runReactions cj id xs c).2.db id = some text' ∧
      LastWriterMap (runReactions cj id xs c).1 (parseReactions cj text)
        (parseReactions cj text') ∧
      (text' = text ∨ text' = printReactions cj (parseReactions cj text')) ∧
      (c.faults = [] → (runReactions cj id xs c).1 = xs)) ∧
    ∀ (x : ReactionCall) (d : Conn ReactionsColumn) (t : Option String), d.db id = some t →
      (d.failing = false → d.tick.failing = false → (reactionsUpdate cj id x d).1 = .ok) ∧
      ((reactionsUpdate cj id x d).1 = .ok →
      (x.Idle (parseReactions cj t) ∧ (reactionsUpdate cj id x d).2.db = d.db) ∨
      (¬ x.Idle (parseReactions cj t) ∧ (reactionsUpdate cj id x d).2.db =
        Function.update d.db id
          (some (printReactions cj (reacted (parseReactions cj t) [x]))))) := by
  constructor
  · obtain ⟨text', hrow', harr, hprinted⟩ := runReactions_row cj xs hrow hprint
    refine ⟨text', hrow', ?_, hprinted, runReactions_quiet cj xs⟩
    rw [harr]
    exact lastWriterMap_reacted _ _
  · intro x d t ht
    refine ⟨fun hread hwrite => reactionsUpdate_ok cj x hread hwrite, fun hok => ?_⟩
    obtain ⟨hrc, -⟩ | ⟨-, hidle, hdb⟩ | ⟨-, hidle, hdb⟩ := reactionsUpdate_cases cj x ht
    · rw [hrc] at hok
      cases hok
    · exact .inl ⟨hidle, hdb⟩
    · exact .inr ⟨hidle, hdb⟩

/-- An entry of another client, and one without a reactor. -/
def foreignEntries : List Json :=
  [.obj [("reactorMid", .str "u2"), ("predefinedReactionType", .num 3)], .obj [("old", .bool true)]]

def twoCalls : List ReactionCall :=
  [⟨"u1", false, 2, none, none, 7⟩, ⟨"u2", true, 0, none, none, 8⟩]

def reactionTexts : Cjson := textsOf
  [.arr foreignEntries, .arr (reacted foreignEntries (twoCalls.take 1)),
    .arr (reacted foreignEntries twoCalls)]

def reactedColumn : Conn ReactionsColumn where
  db := fun id => if id = "m1" then some (printReactions reactionTexts foreignEntries) else none

theorem reactions_last_writer_two :
    ∃ text', (runReactions reactionTexts "m1" twoCalls reactedColumn).2.db "m1" = some text' ∧
      LastWriterMap twoCalls
        (parseReactions reactionTexts (printReactions reactionTexts foreignEntries))
        (parseReactions reactionTexts text') := by
  have hread : ∀ arr, .arr arr ∈ [Json.arr foreignEntries,
      .arr (reacted foreignEntries (twoCalls.take 1)), .arr (reacted foreignEntries twoCalls)] →
      reactionTexts.ReadsBack (.arr arr) := fun arr harr =>
    readsBack_textsOf (by decide) harr
  have hforeign : Stores reactionTexts foreignEntries :=
    ⟨hread _ (by simp), by decide⟩
  have hdone : (runReactions reactionTexts "m1" twoCalls reactedColumn).1 = twoCalls :=
    runReactions_quiet reactionTexts twoCalls rfl
  obtain ⟨text', hrow, hmap, -, hall⟩ := (reactions_last_writer reactionTexts twoCalls
    (c := reactedColumn) rfl fun pre hpre => by
      rw [parseReactions_printReactions hforeign]
      rw [hdone] at hpre
      have hlen : pre.length ≤ 2 := hpre.length_le
      have htake := List.prefix_iff_eq_take.mp hpre
      obtain h | h | h : pre.length = 0 ∨ pre.length = 1 ∨ pre.length = 2 := by omega
      · rw [List.length_eq_zero_iff.mp h]
        exact hforeign
      · rw [htake, h]
        exact ⟨hread _ (by simp), by decide⟩
      · rw [htake, h]
        exact ⟨hread _ (by simp [twoCalls]), by decide⟩).1
  exact ⟨text', hrow, hall rfl ▸ hmap⟩

end Enil.Db
