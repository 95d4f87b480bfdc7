import Enil.Lib.Machine
import Enil.Lib.Peak
import Enil.Db.Frame
import Enil.Sync.Process

/-!
# The delivered mark of a chat

Live upserts of one chat, with repeats, in any order and with any statement failing.
The box takes the time and the id of every message as they come, so that it holds
the latest one exactly where no message is older than the box it comes to.
-/

namespace Enil

open Lib Lib.Sql Db

/-- The delivered columns of a box; a box that is not there has none. -/
def Db.delivered (d : Db) (chat : String) : Mark Int (Option String) where
  time := ((d.messageBoxes chat).getD {}).lastDeliveredTime
  carrier := ((d.messageBoxes chat).getD {}).lastDeliveredMessageId

/-- The time and the id of a message as `upsert_chat_for_message` reads them. -/
def liveStamp (msg : Json) : Int × Option String :=
  (((msg.stringItem "createdTime").map Json.strtoll).getD 0, msg.stringItem "id")

/-- Whether neither statement of the upsert fails. -/
def Stores (c : Conn Db) : Prop := c.failing = false ∧ c.tick.failing = false

instance (c : Conn Db) : Decidable (Stores c) := inferInstanceAs (Decidable (_ ∧ _))

variable {chat : String} {myMid : Option String}

theorem insertMessageBoxV2Row_delivered (d : Db) :
    (insertMessageBoxV2Row chat d).2.delivered chat = d.delivered chat := by
  unfold Db.delivered insertMessageBoxV2Row onBoxes
  simp only [Table.insertIgnore_same, Option.getD_some]

theorem upsertChatForMessage_code (chat : String) (myMid : Option String) (msg : Json)
    (c : Conn Db) :
    (upsertChatForMessage msg chat myMid c).1 = .ok ↔ Stores c := by
  have hsecond (stmt : Db → Nat × Db) : (exec stmt c).2.failing = c.tick.failing :=
    congrArg (·.headD false) (exec_faults stmt c)
  unfold upsertChatForMessage messageBoxUpsertLiveMessage Stores
  rw [bind_apply, exec_code]
  cases c.failing with
  | true => simp
  | false =>
    simp only [Bool.false_eq_true, if_false]
    rw [if_neg (by simp), exec_code, hsecond]
    cases c.tick.failing <;> simp

/-- An upsert that stores sets the mark to its message, whatever the mark was. -/
theorem upsertChatForMessage_stores (msg : Json) {c : Conn Db} (h : Stores c) :
    (upsertChatForMessage msg chat myMid c).2.db.delivered chat = Mark.of (liveStamp msg) := by
  obtain ⟨-, -, -, hbox⟩ :=
    messageBoxUpsertLiveMessage_ok ((upsertChatForMessage_code chat myMid msg c).mpr h)
  unfold Db.delivered
  rw [show (upsertChatForMessage msg chat myMid c).2.db.messageBoxes chat = _ from hbox]
  rfl

/-- One that fails leaves the mark. -/
theorem upsertChatForMessage_fails (msg : Json) {c : Conn Db} (h : ¬ Stores c) :
    (upsertChatForMessage msg chat myMid c).2.db.delivered chat = c.db.delivered chat := by
  have herr := mt (upsertChatForMessage_code chat myMid msg c).mp h
  unfold upsertChatForMessage messageBoxUpsertLiveMessage at herr ⊢
  rw [bind_apply] at herr ⊢
  split
  · rename_i hfirst
    rw [pure_apply, exec_error hfirst]
  · rename_i hfirst
    rw [if_neg hfirst] at herr
    rw [exec_error herr, exec_ok (not_not.mp hfirst)]
    exact insertMessageBoxV2Row_delivered c.db

/-! ## Runs -/

structure LiveRun where
  conn : Conn Db
  /-- The stamps of the messages whose upsert succeeded. -/
  received : List (Int × Option String) := []

def LiveRun.mark (chat : String) (r : LiveRun) : Mark Int (Option String) :=
  r.conn.db.delivered chat

variable (chat myMid) in
/-- Live upserts of one chat. -/
def liveUpserts : Machine LiveRun Json where
  step r msg :=
    let (rc, c) := upsertChatForMessage msg chat myMid r.conn
    some { conn := c
           received := if rc = .ok then r.received ++ [liveStamp msg] else r.received }

/-- Along the run the mark never goes back, and everywhere it is the latest of where
it began and of the messages received, with the id of one that has this time. -/
def KeepsHighWater (chat : String) (myMid : Option String) (c : Conn Db) (msgs : List Json) :
    Prop :=
  ∀ as bs, as ++ bs <+: msgs → ∀ r r', (liveUpserts chat myMid).run { conn := c } as = some r →
    (liveUpserts chat myMid).run r bs = some r' →
    (r.mark chat).Le (r'.mark chat) ∧
      Mark.IsPeak (c.db.delivered chat) r'.received (r'.mark chat)

/-- A message that is stored is not older than the mark it comes to. -/
def NotOlder (chat : String) (r : LiveRun) (msg : Json) : Prop :=
  Stores r.conn → (r.mark chat).Le (Mark.of (liveStamp msg))

theorem liveUpserts_step {r r' : LiveRun} {msg : Json}
    (h : (liveUpserts chat myMid).step r msg = some r') :
    (Stores r.conn ∧ r'.received = r.received ++ [liveStamp msg] ∧
      r'.mark chat = Mark.of (liveStamp msg)) ∨
    (¬ Stores r.conn ∧ r'.received = r.received ∧ r'.mark chat = r.mark chat) := by
  obtain rfl := Option.some.inj h
  by_cases hs : Stores r.conn
  · have hok := (upsertChatForMessage_code chat myMid msg r.conn).mpr hs
    exact .inl ⟨hs, if_pos hok, upsertChatForMessage_stores msg hs⟩
  · have herr := mt (upsertChatForMessage_code chat myMid msg r.conn).mp hs
    exact .inr ⟨hs, if_neg herr, upsertChatForMessage_fails msg hs⟩

/-- A step that meets the condition raises the mark. -/
theorem liveUpserts_step_raises {m : Mark Int (Option String)} {r r' : LiveRun} {msg : Json}
    (hpeak : Mark.IsPeak m r.received (r.mark chat)) (hnew : NotOlder chat r msg)
    (h : (liveUpserts chat myMid).step r msg = some r') :
    (r.mark chat).Le (r'.mark chat) ∧ Mark.IsPeak m r'.received (r'.mark chat) := by
  rcases liveUpserts_step h with ⟨hs, hrec, hmark⟩ | ⟨-, hrec, hmark⟩
  · have hraise : r'.mark chat = (r.mark chat).raise (liveStamp msg) :=
      hmark.trans (Mark.raise_eq_of (hnew hs)).symm
    rw [hrec, hraise]
    exact ⟨Mark.le_raise _ _, hpeak.raise _⟩
  · rw [hrec, hmark]
    exact ⟨.refl _, hpeak⟩

theorem liveUpserts_run_raises {m : Mark Int (Option String)} {r r' : LiveRun} {msgs : List Json}
    (hpeak : Mark.IsPeak m r.received (r.mark chat))
    (hnew : (liveUpserts chat myMid).Meets (NotOlder chat) r msgs)
    (h : (liveUpserts chat myMid).run r msgs = some r') :
    (r.mark chat).Le (r'.mark chat) ∧ Mark.IsPeak m r'.received (r'.mark chat) := by
  induction msgs generalizing r with
  | nil =>
    obtain rfl := Option.some.inj h
    exact ⟨.refl _, hpeak⟩
  | cons msg msgs ih =>
    obtain ⟨r₁, hstep, hrun⟩ := Machine.run_cons_some.mp h
    obtain ⟨hle, hpeak₁⟩ := liveUpserts_step_raises hpeak hnew.1 hstep
    obtain ⟨hle', hpeak'⟩ := ih hpeak₁ (hnew.2 r₁ hstep) hrun
    exact ⟨hle.trans hle', hpeak'⟩

/-- A mark that never goes back comes to no older message. -/
theorem meets_of_le {r : LiveRun} {msgs : List Json}
    (h : ∀ as msg, as ++ [msg] <+: msgs → ∀ r₁ r₂, (liveUpserts chat myMid).run r as = some r₁ →
      (liveUpserts chat myMid).step r₁ msg = some r₂ → (r₁.mark chat).Le (r₂.mark chat)) :
    (liveUpserts chat myMid).Meets (NotOlder chat) r msgs := by
  induction msgs generalizing r with
  | nil => trivial
  | cons msg msgs ih =>
    refine ⟨fun hs => ?_, fun r₁ hstep => ih fun as msg' hpre r₂ r₃ hrun hstep' => ?_⟩
    · obtain ⟨r₁, hstep⟩ : ∃ r₁, (liveUpserts chat myMid).step r msg = some r₁ := ⟨_, rfl⟩
      have hle := h [] msg ⟨msgs, rfl⟩ r r₁ rfl hstep
      rcases liveUpserts_step hstep with ⟨-, -, hmark⟩ | ⟨hfail, -, -⟩
      · rwa [hmark] at hle
      · exact absurd hs hfail
    · obtain ⟨rest, rfl⟩ := hpre
      exact h (msg :: as) msg' ⟨rest, rfl⟩ r₂ r₃ (Machine.run_cons_some.mpr ⟨r₁, hstep, hrun⟩)
        hstep'

/-- The mark is a high-water mark exactly in the runs that meet no older message. -/
theorem delivered_high_water (chat : String) (myMid : Option String) (c : Conn Db)
    (msgs : List Json) :
    KeepsHighWater chat myMid c msgs ↔
      (liveUpserts chat myMid).Meets (NotOlder chat) { conn := c } msgs := by
  constructor
  · intro h
    refine meets_of_le fun as msg hpre r₁ r₂ hrun hstep => ?_
    exact (h as [msg] hpre r₁ r₂ hrun (Machine.run_cons_some.mpr ⟨r₂, hstep, rfl⟩)).1
  · rintro hnew as bs ⟨rest, rfl⟩ r r' hrun hrun'
    rw [List.append_assoc] at hnew
    have hpeak := (liveUpserts_run_raises (.nil _) (hnew.left) hrun).2
    exact liveUpserts_run_raises hpeak ((hnew.after hrun).left) hrun'

/-- A box whose newest message is `m2`, of time 2. -/
def newerBox : Conn Db where
  db := {
    messageBoxes := fun chat => if chat = "u1" then
      some { lastDeliveredMessageId := some "m2", lastDeliveredTime := some 2 } else none
    messages := fun _ => none
    messageBoxReaders := fun _ => none }

/-- The older `m1` delivered again takes the mark back. -/
theorem delivered_goes_back : ¬ KeepsHighWater "u1" (some "u0") newerBox
    [.obj [("id", .str "m1"), ("from", .str "u1"), ("createdTime", .str "1")]] := by
  intro h
  have hle := (h [] [_] ⟨[], rfl⟩ _ _ rfl rfl).1
  obtain ⟨t, ht, hlt⟩ := hle 2 (by decide)
  have ht' : t = 1 := Option.some.inj (ht.symm.trans (by decide))
  omega

end Enil
