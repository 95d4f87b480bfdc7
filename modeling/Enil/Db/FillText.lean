import Enil.Db.Frame

/-!
# Text that comes after its row

A message is stored before its text is known, and comes again with it. The insert
then changes nothing, and what follows depends on the rows the statement before
changed: the text is filled in unless a reactions field was written first
(`fillsText_iff`).
-/

namespace Enil.Db

open Lib Lib.Sql

/-- Whether the statement after `n` others fails. -/
def fails (c : Conn Db) (n : Nat) : Bool := c.faults.getD n false

theorem fails_zero (c : Conn Db) : fails c 0 = c.failing := by
  unfold fails Conn.failing
  cases c.faults <;> rfl

/-! ## What a fill is to do -/

/-- The columns that held something still hold it, but for the text, the status and the
reactions. -/
structure KeepsColumns (r r' : MessageRow) : Prop where
  rest : r' = { r with
    text := r'.text
    decryptStatus := r'.decryptStatus
    reactionsJson := r'.reactionsJson
    contentMetadata := r'.contentMetadata
    chunks := r'.chunks
    rawJson := r'.rawJson
    replaceJson := r'.replaceJson }
  contentMetadata : ∀ v ∈ r.contentMetadata, r'.contentMetadata = some v
  chunks : ∀ v ∈ r.chunks, r'.chunks = some v
  rawJson : ∀ v ∈ r.rawJson, r'.rawJson = some v
  replaceJson : replaceMissing r = false → r'.replaceJson = r.replaceJson

theorem KeepsColumns.trans {a b c : MessageRow} (h : KeepsColumns a b) (h' : KeepsColumns b c) :
    KeepsColumns a c := by
  refine ⟨?_, fun v hv => h'.contentMetadata v (h.contentMetadata v hv),
    fun v hv => h'.chunks v (h.chunks v hv), fun v hv => h'.rawJson v (h.rawJson v hv),
    fun hm => ?_⟩
  · rw [h'.rest, h.rest]
  · have hb : replaceMissing b = false := by
      unfold replaceMissing at hm ⊢
      rwa [h.replaceJson hm]
    rw [h'.replaceJson hb, h.replaceJson hm]

/-- The row has the text that came and the reactions that came with it. -/
structure TextFilled (m : TalkMessage) (r r' : MessageRow) : Prop where
  text : r'.text = m.text
  status : r'.decryptStatus = .plaintext
  reactions : r'.reactionsJson = (reactionsExtractForStorage m).getD r.reactionsJson
  keeps : KeepsColumns r r'

/-- Where `enil_db_message_upsert` returns SQLITE_OK, the stored row is filled. -/
def FillsText (cj : Cjson) (m : TalkMessage) (r : MessageRow) (c : Conn Db) : Prop :=
  (messageUpsert cj m c).1 = .ok →
    ∃ r', (messageUpsert cj m c).2.db.messages m.id = some r' ∧ TextFilled m r r'

/-! ## The row after each statement -/

/-- The row under an id, the rows last changed and the failures to come. -/
structure At (id : String) (c : Conn Db) (r : MessageRow) (n : Nat) (fs : List Bool) : Prop where
  row : c.db.messages id = some r
  changes : c.changes = n
  faults : c.faults = fs

theorem At.update {id : String} {c : Conn Db} {r : MessageRow} {n : Nat} {fs : List Bool}
    (h : At id c r n fs) (p : MessageRow → Bool) (f : MessageRow → MessageRow) :
    At id (exec (onMessages (·.updateIf id p f)) c).2
      (if !fs.headD false && p r then f r else r) (if !fs.headD false && p r then 1 else 0)
      fs.tail := by
  have hfail : c.failing = fs.headD false := by rw [Conn.failing, h.faults]
  refine ⟨?_, ?_, by rw [exec_faults, h.faults]⟩
  · rw [exec_db, hfail, onMessages_updateIf h.row]
    cases fs.headD false with
    | true => exact h.row
    | false =>
      simp only [Bool.false_eq_true, if_false, Bool.not_false, Bool.true_and]
      exact setRow_messages_self _ _ _
  · rw [exec_changes, hfail, onMessages_updateIf h.row]
    cases fs.headD false <;> rfl

variable {m : TalkMessage} {c : Conn Db} {r : MessageRow} {fs : List Bool}

/-- The row after `overwriteReactions`, from the failures to come. -/
def reactedRow (m : TalkMessage) (fs : List Bool) (r : MessageRow) : MessageRow :=
  match reactionsExtractForStorage m with
  | some arr => if fs.headD false then r else { r with reactionsJson := arr }
  | none => r

/-- The failures that remain after it. -/
def reactedFaults (m : TalkMessage) (fs : List Bool) : List Bool :=
  if (reactionsExtractForStorage m).isSome then fs.tail else fs

/-- Whether it leaves the count of changed rows at none. -/
def reactedNone (m : TalkMessage) (fs : List Bool) : Bool :=
  (reactionsExtractForStorage m).isNone || fs.headD false

theorem overwriteReactions_at (h : At m.id c r 0 fs) :
    At m.id (overwriteReactions m c).2 (reactedRow m fs r) (if reactedNone m fs then 0 else 1)
      (reactedFaults m fs) := by
  unfold overwriteReactions reactedRow reactedFaults reactedNone
  cases reactionsExtractForStorage m with
  | none => exact h
  | some arr =>
    have hup := h.update (fun _ => true) fun r => { r with reactionsJson := arr }
    simp only [bind_apply, changes_apply, h.changes, if_true]
    cases hf : fs.headD false with
    | true => rw [hf] at hup; exact hup
    | false => rw [hf] at hup; exact hup

/-- The row after `fillStoredText`: filled where the statement before changed nothing. -/
def filledRow (m : TalkMessage) (due : Bool) (fs : List Bool) (r : MessageRow) : MessageRow :=
  if due && (!fs.headD false && !nonempty r.text) then fillTextColumns m r else r

theorem fillStoredText_at (due : Bool) (htext : nonempty m.text = true)
    (h : At m.id c r (if due then 0 else 1) fs) :
    ∃ n, At m.id (fillStoredText m c).2 (filledRow m due fs r) n
      (if due then fs.tail else fs) := by
  unfold fillStoredText filledRow
  cases due with
  | false =>
    have hskip : ¬ (c.changes = 0 ∧ nonempty m.text = true) := by
      rw [h.changes]; simp
    rw [bind_apply, changes_apply, if_neg hskip]
    exact ⟨1, h⟩
  | true =>
    have hrun : c.changes = 0 ∧ nonempty m.text = true := ⟨h.changes, htext⟩
    rw [bind_apply, changes_apply, if_pos hrun]
    exact ⟨_, h.update (fun r => !nonempty r.text) (fillTextColumns m)⟩

/-- The row after `fillReplaceJson`. -/
def replacedRow (m : TalkMessage) (r : MessageRow) : MessageRow :=
  match messageReplaceJson m with
  | some replace =>
    if !replace.isEmpty && replaceMissing r then { r with replaceJson := some replace } else r
  | none => r

def storesReplace (m : TalkMessage) : Bool := (messageReplaceJson m).any fun r => !r.isEmpty

theorem fillReplaceJson_code (m : TalkMessage) (c : Conn Db) :
    (fillReplaceJson m c).1 = .ok ↔ ¬ (storesReplace m = true ∧ c.failing = true) := by
  unfold fillReplaceJson storesReplace
  cases messageReplaceJson m with
  | none => simp
  | some replace =>
    cases hr : replace.isEmpty with
    | true => simp [hr]
    | false =>
      simp only [hr, Bool.false_eq_true, if_false, exec_code]
      cases c.failing <;> simp [hr]

theorem fillReplaceJson_row {n : Nat} (h : At m.id c r n fs)
    (hok : (fillReplaceJson m c).1 = .ok) :
    (fillReplaceJson m c).2.db.messages m.id = some (replacedRow m r) := by
  unfold fillReplaceJson replacedRow at *
  cases hrep : messageReplaceJson m with
  | none => exact h.row
  | some replace =>
    rw [hrep] at hok
    cases hr : replace.isEmpty with
    | true =>
      simp only [hr, if_true, Bool.not_true, Bool.false_and, Bool.false_eq_true, if_false]
      exact h.row
    | false =>
      simp only [hr, Bool.false_eq_true, if_false, Bool.not_false, Bool.true_and] at hok ⊢
      rw [exec_ok hok, fillMessageReplaceJson, onMessages_updateIf h.row]
      exact setRow_messages_self _ _ _

/-! ## The whole upsert -/

/-- The row a stored one becomes, from the failures that follow the insert. -/
def upsertedRow (m : TalkMessage) (fs : List Bool) (r : MessageRow) : MessageRow :=
  replacedRow m (filledRow m (reactedNone m fs) (reactedFaults m fs) (reactedRow m fs r))

/-- The failures left for the REPLACE. -/
def filledFaults (m : TalkMessage) (fs : List Bool) : List Bool :=
  if reactedNone m fs then (reactedFaults m fs).tail else reactedFaults m fs

theorem insert_at (cj : Cjson) (hr : c.db.messages m.id = some r) :
    At m.id (exec (onMessages (·.insertIgnore m.id (messageRow cj m (m.chatId.getD "")))) c).2
      r 0 c.faults.tail := by
  refine ⟨?_, ?_, exec_faults _ _⟩
  · rw [exec_db]
    simp only [onMessages, Table.insertIgnore_of_some hr, ite_self]
    exact hr
  · rw [exec_changes]
    simp only [onMessages, Table.insertIgnore_of_some hr, ite_self]

/-- An upsert of a stored message whose insert does not fail: when it succeeds, and the
row it leaves. -/
theorem messageUpsert_stored (cj : Cjson) (hid : ¬ (m.id = "" ∨ m.chatId.getD "" = ""))
    (hr : c.db.messages m.id = some r) (htext : nonempty m.text = true)
    (hins : c.failing = false) :
    ((messageUpsert cj m c).1 = .ok ↔
      ¬ (storesReplace m = true ∧ (filledFaults m c.faults.tail).headD false = true)) ∧
    ((messageUpsert cj m c).1 = .ok →
      (messageUpsert cj m c).2.db.messages m.id = some (upsertedRow m c.faults.tail r)) := by
  have hat := insert_at cj hr
  have hok : (exec (onMessages (·.insertIgnore m.id
      (messageRow cj m (m.chatId.getD "")))) c).1 = .ok := by
    rw [exec_code, hins]; rfl
  obtain ⟨n, hfilled⟩ := fillStoredText_at _ htext (overwriteReactions_at hat)
  unfold messageUpsert
  rw [if_neg hid, bind_apply, if_neg (not_not.mpr hok)]
  refine ⟨?_, fun h => fillReplaceJson_row hfilled h⟩
  rw [show filledFaults m c.faults.tail = _ from hfilled.faults.symm]
  exact fillReplaceJson_code m _

/-- Where the call returns no SQLITE_OK. -/
def UpsertFails (m : TalkMessage) (c : Conn Db) : Prop :=
  m.id = "" ∨ m.chatId.getD "" = "" ∨ fails c 0 = true ∨
    (storesReplace m = true ∧ (filledFaults m c.faults.tail).headD false = true)

/-- Where the fill runs and does not fail, and the reactions are as they came: the
message has no reactions field; or it has those stored already, and the statement that
writes them fails. -/
def FillRuns (m : TalkMessage) (r : MessageRow) (c : Conn Db) : Prop :=
  match reactionsExtractForStorage m with
  | none => fails c 1 = false
  | some arr => r.reactionsJson = arr ∧ fails c 1 = true ∧ fails c 2 = false

theorem keepsColumns_refl (r : MessageRow) : KeepsColumns r r :=
  ⟨rfl, fun _ h => h, fun _ h => h, fun _ h => h, fun _ => rfl⟩

theorem keepsColumns_fill (m : TalkMessage) (r : MessageRow) :
    KeepsColumns r (fillTextColumns m r) := by
  refine ⟨rfl, fun v hv => ?_, fun v hv => ?_, fun v hv => ?_, fun _ => rfl⟩
  all_goals
    rw [Option.mem_def] at hv
    simp only [fillTextColumns, hv, Option.some_or]

theorem keepsColumns_replace (m : TalkMessage) (r : MessageRow) :
    KeepsColumns r (replacedRow m r) := by
  unfold replacedRow
  split
  · split
    · rename_i hdue
      rw [Bool.and_eq_true] at hdue
      refine ⟨rfl, fun _ h => h, fun _ h => h, fun _ h => h, fun hm => ?_⟩
      rw [hm] at hdue
      cases hdue.2
    · exact keepsColumns_refl r
  · exact keepsColumns_refl r

theorem replacedRow_text (m : TalkMessage) (r : MessageRow) :
    (replacedRow m r).text = r.text ∧ (replacedRow m r).decryptStatus = r.decryptStatus ∧
      (replacedRow m r).reactionsJson = r.reactionsJson := by
  unfold replacedRow
  split
  · split <;> exact ⟨rfl, rfl, rfl⟩
  · exact ⟨rfl, rfl, rfl⟩

theorem textFilled_fill (htext : nonempty m.text = true) (r : MessageRow)
    (hreact : r.reactionsJson = (reactionsExtractForStorage m).getD r.reactionsJson) :
    TextFilled m r (replacedRow m (fillTextColumns m r)) := by
  obtain ⟨ht, hs, hre⟩ := replacedRow_text m (fillTextColumns m r)
  refine ⟨ht, hs.trans ?_, hre.trans hreact,
    (keepsColumns_fill m r).trans (keepsColumns_replace m _)⟩
  show messageDecryptStatus m = .plaintext
  unfold messageDecryptStatus
  rw [htext]
  rfl

/-- A row that still lacks its text was not filled. -/
theorem not_textFilled (htext : nonempty m.text = true) {r r' : MessageRow}
    (h : nonempty r'.text = false) : ¬ TextFilled m r (replacedRow m r') := by
  intro hf
  rw [← hf.text, (replacedRow_text m r').1, h] at htext
  cases htext

theorem textFilled_upserted (htext : nonempty m.text = true) (hold : nonempty r.text = false) :
    TextFilled m r (upsertedRow m c.faults.tail r) ↔ FillRuns m r c := by
  have h1 : c.faults.tail.headD false = fails c 1 := by
    unfold fails
    rcases c.faults with _ | ⟨_, _ | _⟩ <;> rfl
  have h2 : c.faults.tail.tail.headD false = fails c 2 := by
    unfold fails
    rcases c.faults with _ | ⟨_, _ | ⟨_, _ | _⟩⟩ <;> rfl
  unfold upsertedRow filledRow reactedNone reactedFaults reactedRow FillRuns
  cases hre : reactionsExtractForStorage m with
  | none =>
    simp only [h1, hold, Option.isNone_none, Option.isSome_none, Bool.true_or, Bool.true_and,
      Bool.false_eq_true, if_false, Bool.not_false, Bool.and_true]
    cases fails c 1 with
    | true =>
      simp only [Bool.not_true, Bool.false_eq_true, if_false, Bool.true_eq_false, iff_false]
      exact not_textFilled htext hold
    | false =>
      simp only [Bool.not_false, if_true, iff_true]
      exact textFilled_fill htext r (by rw [hre]; rfl)
  | some arr =>
    simp only [h1, h2, Option.isNone_some, Option.isSome_some, Bool.false_or, if_true]
    cases fails c 1 with
    | false =>
      simp only [Bool.false_and, Bool.false_eq_true, if_false, false_and, and_false, iff_false]
      exact not_textFilled htext hold
    | true =>
      simp only [hold, Bool.true_and, if_true, Bool.not_false, Bool.and_true, true_and]
      cases fails c 2 with
      | true =>
        simp only [Bool.not_true, Bool.false_eq_true, if_false, Bool.true_eq_false, and_false,
          iff_false]
        exact not_textFilled htext hold
      | false =>
        simp only [Bool.not_false, if_true, and_true]
        constructor
        · intro hf
          have hreact := hf.reactions
          rw [(replacedRow_text m _).2.2, hre] at hreact
          exact hreact
        · intro heq
          exact textFilled_fill htext r (by rw [hre]; exact heq)

/-- A stored row without text is filled by a message with text exactly where the call
fails or the fill runs. -/
theorem fillsText_iff (cj : Cjson) {m : TalkMessage} {r : MessageRow} {c : Conn Db}
    (hr : c.db.messages m.id = some r) (hold : nonempty r.text = false)
    (htext : nonempty m.text = true) :
    FillsText cj m r c ↔ UpsertFails m c ∨ FillRuns m r c := by
  unfold FillsText
  by_cases hid : m.id = "" ∨ m.chatId.getD "" = ""
  · have herr : (messageUpsert cj m c).1 ≠ .ok := by
      unfold messageUpsert
      rw [if_pos hid]
      simp
    refine ⟨fun _ => .inl ?_, fun _ hok => absurd hok herr⟩
    exact hid.elim .inl fun h => .inr (.inl h)
  by_cases hins : c.failing = true
  · have herr : (messageUpsert cj m c).1 ≠ .ok := by
      intro hok
      unfold messageUpsert at hok
      rw [if_neg hid] at hok
      have hfirst := (checked_ok hok).1
      rw [exec_code, hins] at hfirst
      cases hfirst
    refine ⟨fun _ => .inl (.inr (.inr (.inl ?_))), fun _ hok => absurd hok herr⟩
    rw [fails_zero, hins]
  · rw [Bool.not_eq_true] at hins
    obtain ⟨hcode, hrow⟩ := messageUpsert_stored cj hid hr htext hins
    have hfails : UpsertFails m c ↔ ¬ (messageUpsert cj m c).1 = .ok := by
      rw [hcode, not_not]
      unfold UpsertFails
      rw [fails_zero, hins]
      simp only [Bool.false_eq_true, false_or]
      rw [← or_assoc]
      exact ⟨fun h => h.resolve_left hid, .inr⟩
    rw [hfails, ← textFilled_upserted htext hold]
    constructor
    · intro h
      by_cases hok : (messageUpsert cj m c).1 = .ok
      · obtain ⟨r', hr', hf⟩ := h hok
        rw [hrow hok, Option.some.injEq] at hr'
        subst hr'
        exact .inr hf
      · exact .inl hok
    · rintro h hok
      exact ⟨_, hrow hok, h.resolve_left (not_not.mpr hok)⟩

/-- A message whose row is stored without text. -/
def pendingDb : Conn Db where
  db := {
    messageBoxes := fun _ => none
    messages := fun id => if id = "m1" then some { chatId := "u1" } else none
    messageBoxReaders := fun _ => none }

/-- The message with its text, and with the fields of `raw`. -/
def textMessage (raw : List (String × Json)) : TalkMessage where
  id := "m1"
  text := some "hi"
  chatId := some "u1"
  raw := .obj raw

def printsJson : Cjson := ⟨fun _ => none, Json.printUnformatted⟩

theorem fillsText_iff_plain :
    FillsText printsJson (textMessage []) { chatId := "u1" } pendingDb :=
  (fillsText_iff printsJson rfl rfl (by decide)).mpr (.inr rfl)

/-- A reactions field, here an empty one, keeps the text out. -/
theorem text_not_filled :
    ¬ FillsText printsJson (textMessage [("reactions", .arr [])]) { chatId := "u1" } pendingDb := by
  intro h
  obtain ⟨r', hr', hf⟩ := h (by decide)
  have htext : ((messageUpsert printsJson (textMessage [("reactions", .arr [])])
      pendingDb).2.db.messages "m1").map (·.text) = some none := by decide
  rw [show (messageUpsert _ _ _).2.db.messages "m1" = some r' from hr', Option.map_some,
    hf.text] at htext
  cases htext

end Enil.Db
