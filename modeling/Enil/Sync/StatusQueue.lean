import Mathlib.Data.Rat.Defs
import Mathlib.Algebra.Order.Ring.Unbundled.Rat
import Enil.Lib.Machine

/-!
# The status queue

`ENILSyncStatusQueue` shows one status item at a time and queues the others. A note
with the key of an item updates it in place, `promote` takes the next item once the
dwell of the shown one is over, and an error stays until its own key clears it. Times
are seconds; a bundle holds what localization makes of a text.
-/

namespace Enil

open Lib

inductive ENILSyncState where
  | neverSynced
  | syncing
  | syncNeeded
  | live
  | error
  | reauthNeeded
  | offline
  | reconnecting
  deriving DecidableEq, Repr

/-- NSLocalizedString, and stringWithFormat with its one count. -/
structure Bundle where
  localized : String → String
  formatted : String → Int → String

structure StatusItem where
  key : Option String
  label : String
  determinate : Bool
  isError : Bool
  unitCount : Int
  unitTotal : Int
  deriving DecidableEq, Repr

/-- The `userInfo` of an ENILSyncStatusNotification. -/
structure StatusNote where
  key : Option String := none
  message : Option String := none
  indeterminate : Bool := false
  unitCount : Int := 0
  unitTotal : Int := 0
  error : Int := 0
  deriving DecidableEq, Repr

/-- The instance variables the promotion reads; an armed timer is its fire date. -/
structure StatusQueue where
  queue : List StatusItem := []
  currentItem : Option StatusItem := none
  currentShownAt : ℚ := 0
  promoteTimer : Option ℚ := none
  syncState : ENILSyncState := .neverSynced
  deriving DecidableEq

structure Clock where
  now : ℚ
  scheduling : ℚ

def miniMinDisplaySec : ℚ := 3

/-! ## Notes -/

namespace StatusNote

variable (b : Bundle) (note : StatusNote)

def determinate : Bool := !note.indeterminate

def isError : Bool := note.error != 0

def labelForKey (key fallback : Option String) : String :=
  let raw := match key with
    | some "sync.connecting" => some "Connecting"
    | some "sync.account" => some "Account"
    | some "sync.messages" => some "Messages"
    | some "sync.decrypting" => some "Decrypting"
    | some "sync.preparing" => some "Purchases"
    | some "sync.downloading" => some "Downloads"
    | some "sync.done" => fallback
    | _ => none
  match raw, fallback with
  | some text, _ => b.localized text
  | none, some text => if text ≠ "" then b.localized text else b.localized "Working…"
  | none, none => b.localized "Working…"

def label : String :=
  if note.key = some "sync.attachments" then
    b.formatted (b.localized
      (if note.message = some "Messages synced; attachments unavailable"
        then "Messages synced; %d attachments unavailable"
        else "%d attachments unavailable")) note.unitCount
  else if note.isError ∧ note.message.getD "" ≠ "" then b.localized (note.message.getD "")
  else labelForKey b note.key note.message

/-- The item with what the note says: updateItemFields leaves only the key. -/
def updateItemFields (key : Option String) : StatusItem where
  key
  label := note.label b
  determinate := note.determinate
  isError := note.isError
  unitCount := note.unitCount
  unitTotal := note.unitTotal

/-- The note coalesces with the item; anonymous items never do. -/
def Coalesces (it : StatusItem) : Prop := note.key.isSome ∧ it.key = note.key

instance (it : StatusItem) : Decidable (note.Coalesces it) :=
  inferInstanceAs (Decidable (_ ∧ _))

end StatusNote

/-- A determinate item that has reached 100%. -/
def StatusItem.completed (it : StatusItem) : Bool :=
  it.determinate && decide (0 < it.unitTotal) && decide (it.unitTotal ≤ it.unitCount)

/-! ## Promotion -/

namespace StatusQueue

def schedulePromoteTimer (q : StatusQueue) (now : ℚ) : StatusQueue :=
  if q.currentItem.isNone ∨ q.promoteTimer.isSome then q
  else { q with promoteTimer := some (now + max (1 / 20) (q.currentShownAt + miniMinDisplaySec - now)) }

/-- The end of promote: the head of the queue is shown. Without one the item stays up
during a sync and is cleared otherwise. -/
def showNext (q : StatusQueue) (c : Clock) : StatusQueue :=
  match q.queue with
  | [] => if q.syncState = .syncing then q else { q with currentItem := none }
  | it :: rest =>
    { q with queue := rest, currentItem := some it, currentShownAt := c.now }.schedulePromoteTimer
      c.scheduling

def promote (q : StatusQueue) (c : Clock) : StatusQueue :=
  match q.currentItem with
  | none => q.showNext c
  | some cur =>
    let dwellExpired := decide (miniMinDisplaySec ≤ c.now - q.currentShownAt)
    if cur.isError then q
    else if !dwellExpired && !cur.completed then q.schedulePromoteTimer c.scheduling
    else q.showNext c

/-- The queue with the note in its first item of that key, if it has one. -/
def coalesceQueued (b : Bundle) (note : StatusNote) : List StatusItem → Option (List StatusItem)
  | [] => none
  | it :: rest =>
    if note.Coalesces it then some (note.updateItemFields b it.key :: rest)
    else (coalesceQueued b note rest).map (it :: ·)

/-- handleStatusNote, with the clock of each of its two promotions of the shown item. -/
def handleStatusNote (b : Bundle) (q : StatusQueue) (note : StatusNote) (c again : Clock) :
    StatusQueue :=
  match q.currentItem.filter (note.Coalesces ·) with
  | some shown =>
    let cur := note.updateItemFields b shown.key
    let q := { q with currentItem := some cur }
    let q := if !note.isError && cur.completed then q.promote c else q
    -- the flag is the one just written, so this promotion never comes
    if !note.isError && cur.isError then q.promote again else q
  | none =>
    match coalesceQueued b note q.queue with
    | some queue => { q with queue }
    | none => { q with queue := q.queue ++ [note.updateItemFields b note.key] }.promote c

def promoteTimerFired (q : StatusQueue) (c : Clock) : StatusQueue :=
  { q with promoteTimer := none }.promote c

def updateForState (q : StatusQueue) (state : ENILSyncState) : StatusQueue :=
  if q.syncState = .syncing ∧ state ≠ .syncing then
    { q with syncState := state, queue := [], currentItem := none, promoteTimer := none }
  else { q with syncState := state }

end StatusQueue

/-- What reaches the queue: a status note, its timer, a new state of the sync. -/
inductive StatusEvent where
  | statusNote (note : StatusNote) (c again : Clock)
  | promoteTimerFired (c : Clock)
  | stateNote (state : ENILSyncState)

/-- The queue as a machine; the timer fires only where it is armed. -/
def statusQueue (b : Bundle) : Machine StatusQueue StatusEvent where
  step q
    | .statusNote note c again => some (q.handleStatusNote b note c again)
    | .promoteTimerFired c => if q.promoteTimer.isSome then some (q.promoteTimerFired c) else none
    | .stateNote state => some (q.updateForState state)

namespace StatusQueue

/-- Where a non-error item is shown and others wait, the timer is armed. -/
def Unstuck (q : StatusQueue) : Prop :=
  ∀ cur, q.currentItem = some cur → cur.isError = false → q.queue ≠ [] →
    q.promoteTimer.isSome = true

/-- A note that clears the shown error short of 100% while others wait and no timer is
armed. -/
def Strands (q : StatusQueue) : StatusEvent → Prop
  | .statusNote note _ _ => (q.currentItem.any fun cur => cur.isError && note.Coalesces cur) ∧
      note.isError = false ∧
      ¬(note.determinate ∧ 0 < note.unitTotal ∧ note.unitTotal ≤ note.unitCount) ∧
      q.queue ≠ [] ∧ q.promoteTimer = none
  | _ => False

instance (q : StatusQueue) : (e : StatusEvent) → Decidable (q.Strands e)
  | .statusNote .. => inferInstanceAs (Decidable (_ ∧ _))
  | .promoteTimerFired _ => inferInstanceAs (Decidable False)
  | .stateNote _ => inferInstanceAs (Decidable False)

/-- What may take a sticky error off the screen: a non-error note of its own key, or the
end of the sync. -/
def Releases (q : StatusQueue) (cur : StatusItem) : StatusEvent → Prop
  | .statusNote note _ _ => note.Coalesces cur ∧ note.isError = false
  | .promoteTimerFired _ => False
  | .stateNote state => q.syncState = .syncing ∧ state ≠ .syncing

/-! ## One step -/

theorem schedulePromoteTimer_unstuck (q : StatusQueue) (now : ℚ) :
    (q.schedulePromoteTimer now).Unstuck := by
  intro cur hcur _ _
  unfold schedulePromoteTimer at hcur ⊢
  split at hcur
  · rename_i h
    rcases h with h | h
    · rw [hcur] at h; cases h
    · rwa [if_pos (Or.inr h)]
  · rename_i h; rw [if_neg h]; rfl

theorem showNext_unstuck (q : StatusQueue) (c : Clock) : (q.showNext c).Unstuck := by
  unfold showNext
  split
  · rename_i hq
    split
    · intro cur _ _ hne; exact absurd hq hne
    · intro cur hcur; cases hcur
  · exact schedulePromoteTimer_unstuck _ _

/-- A promotion never leaves the queue stuck, whatever it started from. -/
theorem promote_unstuck (q : StatusQueue) (c : Clock) : (q.promote c).Unstuck := by
  unfold promote
  cases hcur : q.currentItem with
  | none => exact showNext_unstuck q c
  | some cur =>
    dsimp only
    split
    · rename_i herr
      intro it hit hok _
      rw [hcur, Option.some.injEq] at hit
      rw [hit, hok] at herr; cases herr
    · split
      · exact schedulePromoteTimer_unstuck _ _
      · exact showNext_unstuck q c

theorem coalesceQueued_ne_nil {b : Bundle} {note : StatusNote} {its out : List StatusItem}
    (h : coalesceQueued b note its = some out) : its ≠ [] := by
  rintro rfl; cases h

theorem updateForState_unstuck {q : StatusQueue} (h : q.Unstuck) (state : ENILSyncState) :
    (q.updateForState state).Unstuck := by
  unfold updateForState
  split
  · intro cur hcur; cases hcur
  · exact h

theorem completed_updateItemFields (b : Bundle) (note : StatusNote) (key : Option String) :
    (note.updateItemFields b key).completed = true ↔
      note.determinate ∧ 0 < note.unitTotal ∧ note.unitTotal ≤ note.unitCount := by
  rw [StatusItem.completed, Bool.and_eq_true, Bool.and_eq_true, decide_eq_true_iff,
    decide_eq_true_iff, and_assoc]
  rfl

/-- Where the shown item takes the note, only an error or 100% decides what follows. -/
theorem handleStatusNote_shown {b : Bundle} {q : StatusQueue} {note : StatusNote} {c again : Clock}
    {shown : StatusItem} (h : q.currentItem.filter (note.Coalesces ·) = some shown) :
    q.handleStatusNote b note c again =
      (let q' := { q with currentItem := some (note.updateItemFields b shown.key) }
       if note.isError = false ∧ (note.updateItemFields b shown.key).completed then q'.promote c
       else q') := by
  unfold handleStatusNote
  rw [h]
  have hflag : (note.updateItemFields b shown.key).isError = note.isError := rfl
  simp only [hflag, Bool.not_and_self, Bool.false_eq_true, ↓reduceIte, Bool.and_eq_true,
    Bool.not_eq_true']

/-- The shown item takes the note: the queue gets stuck exactly by stranding. -/
theorem shown_unstuck_iff {b : Bundle} {q : StatusQueue} {note : StatusNote} {c again : Clock}
    {shown : StatusItem} (hq : q.Unstuck)
    (h : q.currentItem.filter (note.Coalesces ·) = some shown) :
    (q.handleStatusNote b note c again).Unstuck ↔ ¬q.Strands (.statusNote note c again) := by
  obtain ⟨hcur, hco⟩ := Option.filter_eq_some_iff.mp h
  rw [handleStatusNote_shown h]
  have hany : (q.currentItem.any fun cur => cur.isError && note.Coalesces cur) = true ↔
      shown.isError = true := by
    rw [hcur, Option.any_some, hco, Bool.and_true]
  dsimp only
  split
  · rename_i hdone
    have hfull := (completed_updateItemFields b note shown.key).mp hdone.2
    exact ⟨fun _ hs => hs.2.2.1 hfull, fun _ => promote_unstuck _ _⟩
  · rename_i hdone
    rw [not_and] at hdone
    have hfull : note.isError = false →
        ¬(note.determinate ∧ 0 < note.unitTotal ∧ note.unitTotal ≤ note.unitCount) :=
      fun he hd => hdone he ((completed_updateItemFields b note shown.key).mpr hd)
    constructor
    · rintro hu ⟨_, he, _, hne, ht⟩
      have := hu _ rfl he hne
      rw [show q.promoteTimer = none from ht] at this; cases this
    · intro hs it hit he hne
      obtain rfl := Option.some.inj hit
      by_contra ht
      rw [Bool.not_eq_true, Option.isSome_eq_false_iff, Option.isNone_iff_eq_none] at ht
      cases hshown : shown.isError with
      | true => exact hs ⟨hany.mpr hshown, he, hfull he, hne, ht⟩
      | false =>
        have := hq shown hcur hshown hne
        rw [show q.promoteTimer = none from ht] at this; cases this

/-- From a state that is not stuck, a step leads to one exactly where it strands. -/
theorem step_unstuck_iff {b : Bundle} {q t : StatusQueue} {e : StatusEvent} (hq : q.Unstuck)
    (h : (statusQueue b).step q e = some t) : t.Unstuck ↔ ¬q.Strands e := by
  cases e with
  | stateNote state =>
    obtain rfl := Option.some.inj h
    exact iff_of_true (updateForState_unstuck hq state) id
  | promoteTimerFired c =>
    simp only [statusQueue, Option.ite_none_right_eq_some, Option.some.injEq] at h
    obtain ⟨_, rfl⟩ := h
    exact iff_of_true (promote_unstuck _ c) id
  | statusNote note c again =>
    obtain rfl := Option.some.inj h
    cases hf : q.currentItem.filter (note.Coalesces ·) with
    | some shown => exact shown_unstuck_iff hq hf
    | none =>
      have hno : ¬q.Strands (.statusNote note c again) := by
        rintro ⟨hany, _⟩
        cases hcur : q.currentItem with
        | none => rw [hcur] at hany; cases hany
        | some cur =>
          rw [hcur, Option.any_some, Bool.and_eq_true] at hany
          rw [hcur, Option.filter_some, if_pos hany.2] at hf
          cases hf
      refine iff_of_true ?_ hno
      unfold handleStatusNote
      rw [hf]
      dsimp only
      cases hco : coalesceQueued b note q.queue with
      | some queue => exact fun cur hcur he _ => hq cur hcur he (coalesceQueued_ne_nil hco)
      | none => exact promote_unstuck _ c

/-- A promotion leaves a shown error as it is. -/
theorem promote_of_error {q : StatusQueue} {cur : StatusItem} (hcur : q.currentItem = some cur)
    (he : cur.isError = true) (c : Clock) : q.promote c = q := by
  unfold promote
  rw [hcur]
  simp only [he, ↓reduceIte]

/-- An error on the screen outlasts every other event: it stays as it is, or takes what an
error note of its own key says. -/
theorem step_sticky {b : Bundle} {q t : StatusQueue} {e : StatusEvent}
    (h : (statusQueue b).step q e = some t) {cur : StatusItem} (hcur : q.currentItem = some cur)
    (he : cur.isError = true) (hrel : ¬q.Releases cur e) :
    ∃ it, t.currentItem = some it ∧ it.isError = true ∧ it.key = cur.key ∧
      ((∀ note c again, e = .statusNote note c again → ¬note.Coalesces cur) → it = cur) := by
  cases e with
  | stateNote state =>
    obtain rfl := Option.some.inj h
    refine ⟨cur, ?_, he, rfl, fun _ => rfl⟩
    rw [updateForState, if_neg (by exact hrel)]
    exact hcur
  | promoteTimerFired c =>
    simp only [statusQueue, Option.ite_none_right_eq_some, Option.some.injEq] at h
    obtain ⟨_, rfl⟩ := h
    refine ⟨cur, ?_, he, rfl, fun _ => rfl⟩
    rw [StatusQueue.promoteTimerFired, promote_of_error (by exact hcur) he]
    exact hcur
  | statusNote note c again =>
    obtain rfl := Option.some.inj h
    by_cases hco : note.Coalesces cur
    · have hnote : note.isError = true := by
        by_contra hn; exact hrel ⟨hco, Bool.eq_false_of_not_eq_true hn⟩
      have hf : q.currentItem.filter (note.Coalesces ·) = some cur := by
        rw [hcur, Option.filter_some, if_pos (decide_eq_true hco)]
      rw [handleStatusNote_shown hf]
      dsimp only
      rw [if_neg (by rw [hnote]; exact fun hc => Bool.noConfusion hc.1)]
      exact ⟨_, rfl, hnote, rfl, fun hall => absurd hco (hall note c again rfl)⟩
    · refine ⟨cur, ?_, he, rfl, fun _ => rfl⟩
      have hf : q.currentItem.filter (note.Coalesces ·) = none := by
        rw [hcur, Option.filter_some, if_neg (by simpa using hco)]
      unfold handleStatusNote
      rw [hf]
      dsimp only
      cases coalesceQueued b note q.queue with
      | some queue => exact hcur
      | none =>
        dsimp only
        rw [promote_of_error (by exact hcur) he]
        exact hcur

/-- Once the dwell is over, the timer shows the head of the queue. -/
theorem promoteTimerFired_shows {q : StatusQueue} {cur it : StatusItem} {rest : List StatusItem}
    (hcur : q.currentItem = some cur) (he : cur.isError = false) (hq : q.queue = it :: rest)
    {c : Clock} (hc : miniMinDisplaySec ≤ c.now - q.currentShownAt) :
    (q.promoteTimerFired c).currentItem = some it ∧ (q.promoteTimerFired c).queue = rest := by
  have hnext : q.promoteTimerFired c = { q with promoteTimer := none }.showNext c := by
    simp only [promoteTimerFired, promote, hcur, he, hc, decide_true, Bool.not_true,
      Bool.false_and, Bool.false_eq_true, ↓reduceIte]
  rw [hnext]
  simp only [showNext, hq, schedulePromoteTimer]
  exact ⟨rfl, rfl⟩

/-! ## Runs -/

/-- What a run of events leaves of the queue. It is stuck in no state of the run exactly
where no step strands it, and then the timer brings up the head of the queue; a sticky
error goes off the screen only by a non-error note of its own key or the end of the sync. -/
theorem statusQueue_unstuck_iff (b : Bundle) {es : List StatusEvent} {q : StatusQueue}
    (hrun : (statusQueue b).run {} es = some q) :
    ((∀ ds m, ds <+: es → (statusQueue b).run {} ds = some m → m.Unstuck) ↔
        (statusQueue b).Meets (fun m e => ¬m.Strands e) {} es) ∧
      (∀ cur it rest, q.Unstuck → q.currentItem = some cur → cur.isError = false →
        q.queue = it :: rest → ∀ c, miniMinDisplaySec ≤ c.now - q.currentShownAt →
          ∃ t, (statusQueue b).step q (.promoteTimerFired c) = some t ∧
            t.currentItem = some it ∧ t.queue = rest) ∧
      ∀ cur e t, q.currentItem = some cur → cur.isError = true →
        (statusQueue b).step q e = some t → ¬q.Releases cur e →
          ∃ it, t.currentItem = some it ∧ it.isError = true ∧ it.key = cur.key ∧
            ((∀ note c again, e = .statusNote note c again → ¬note.Coalesces cur) → it = cur) := by
  refine ⟨Machine.prefixes_iff_meets step_unstuck_iff (fun cur h => by cases h) hrun, ?_, ?_⟩
  · intro cur it rest hq hcur he hqueue c hc
    have harmed : q.promoteTimer.isSome = true :=
      hq cur hcur he (hqueue ▸ List.cons_ne_nil it rest)
    have hshow := promoteTimerFired_shows hcur he hqueue hc
    exact ⟨q.promoteTimerFired c, if_pos harmed, hshow⟩
  · intro cur e t hcur he hstep hrel
    exact step_sticky hstep hcur he hrel

/-- The worker fails, its row outlives the dwell, a message is announced, and the worker
comes back: the announcement waits with no timer. -/
def strandingRun : List StatusEvent :=
  [.statusNote { key := "error.worker", message := "Worker Error", indeterminate := true, error := 1 }
      ⟨0, 0⟩ ⟨0, 0⟩,
    .promoteTimerFired ⟨3, 3⟩,
    .statusNote { key := "sse.message", message := "Received message", indeterminate := true }
      ⟨10, 10⟩ ⟨10, 10⟩,
    .statusNote { key := "error.worker", message := "Reconnecting", indeterminate := true }
      ⟨20, 20⟩ ⟨20, 20⟩]

def plainBundle : Bundle where
  localized text := text
  formatted text _ := text

theorem strandingRun_stuck :
    ∃ q cur, (statusQueue plainBundle).run {} strandingRun = some q ∧ q.currentItem = some cur ∧
      cur.isError = false ∧ q.queue ≠ [] ∧ q.promoteTimer = none :=
  ⟨_, _, rfl, rfl, rfl, List.cons_ne_nil _ _, rfl⟩

/-- Two notes within the dwell: the second waits for the timer. -/
def waitingRun : List StatusEvent :=
  [.statusNote { key := "send.message", message := "Sending message", indeterminate := true }
      ⟨0, 0⟩ ⟨0, 0⟩,
    .statusNote { key := "sse.message", message := "Received message", indeterminate := true }
      ⟨1, 1⟩ ⟨1, 1⟩]

theorem waitingRun_unstuck :
    ∃ q, (statusQueue plainBundle).run {} waitingRun = some q ∧ q.queue ≠ [] ∧ q.Unstuck := by
  obtain ⟨hiff, -, -⟩ := @statusQueue_unstuck_iff plainBundle waitingRun _ rfl
  refine ⟨_, rfl, by decide +kernel, hiff.mpr ?_ _ _ (List.prefix_refl _) rfl⟩
  exact ⟨by decide, fun m hm => by
    obtain rfl := Option.some.inj hm
    exact ⟨by decide, fun _ _ => trivial⟩⟩

end StatusQueue
end Enil
