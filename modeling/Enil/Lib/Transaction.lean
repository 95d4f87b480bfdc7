import Enil.Lib.Savepoint

/-!
# Transactions of a database connection

BEGIN, statements one at a time, COMMIT or ROLLBACK. A statement that fails is undone;
on some errors the failure rolls the whole transaction back, and then the tables are as
they were at BEGIN. A COMMIT that fails otherwise leaves the transaction open.
-/

namespace Enil.Lib

inductive Outcome where
  | done
  | failed
  | rolledBack
  deriving DecidableEq, Repr

structure TxConn (δ : Type) where
  db : δ
  /-- The database at BEGIN, while a transaction is open. -/
  before : Option δ := none
  /-- How the coming statements end; all are done after the end of the list. -/
  outcomes : List Outcome := []

abbrev Tx (δ : Type) := StateM (TxConn δ)

namespace TxConn

variable {δ : Type}

def next (c : TxConn δ) : Outcome := c.outcomes.headD .done

def tick (c : TxConn δ) : TxConn δ := { c with outcomes := c.outcomes.tail }

@[simp] theorem tick_db (c : TxConn δ) : c.tick.db = c.db := rfl
@[simp] theorem tick_before (c : TxConn δ) : c.tick.before = c.before := rfl
@[simp] theorem tick_outcomes (c : TxConn δ) : c.tick.outcomes = c.outcomes.tail := rfl

/-- The transaction, if one is open, taken back. -/
def undo (c : TxConn δ) : TxConn δ := { c with db := c.before.getD c.db, before := none }

/-- A statement that ends as `o` and leaves `c'` where it is done. -/
def settle (o : Outcome) (c c' : TxConn δ) : Rc × TxConn δ :=
  match o with
  | .done => (.ok, c')
  | .failed => (.error, c)
  | .rolledBack => (.error, c.undo)

end TxConn

namespace Tx

variable {δ : Type}

open TxConn

/-- BEGIN; it fails inside a transaction. -/
def beginTransaction : Tx δ Rc := fun c =>
  if c.before.isSome then (.error, c.tick)
  else settle c.next c.tick { c.tick with before := some c.db }

def exec (stmt : δ → δ) : Tx δ Rc := fun c =>
  settle c.next c.tick { c.tick with db := stmt c.db }

/-- COMMIT; it fails outside a transaction. -/
def commit : Tx δ Rc := fun c =>
  if c.before.isNone then (.error, c.tick)
  else settle c.next c.tick { c.tick with before := none }

def rollback : Tx δ Unit := fun c => ((), c.undo)

/-- Statements up to the first that fails. -/
def execAll : List (δ → δ) → Tx δ Rc
  | [] => pure .ok
  | stmt :: stmts => do
    let rc ← exec stmt
    if rc ≠ .ok then return rc
    execAll stmts

/-- The next `n` statements are done. -/
def Done (n : Nat) (os : List Outcome) : Prop := ∀ o ∈ os.take n, o = .done

instance (n : Nat) (os : List Outcome) : Decidable (Done n os) :=
  inferInstanceAs (Decidable (∀ o ∈ os.take n, o = .done))

theorem done_succ {n : Nat} {os : List Outcome} :
    Done (n + 1) os ↔ os.headD .done = .done ∧ Done n os.tail := by
  cases os with
  | nil => simp [Done]
  | cons o os => simp [Done]

theorem done_one {os : List Outcome} : Done 1 os ↔ os.headD .done = .done := by
  rw [done_succ]
  exact and_iff_left fun o ho => by simp at ho

theorem done_add {m n : Nat} {os : List Outcome} :
    Done (m + n) os ↔ Done m os ∧ Done n (os.drop m) := by
  induction m generalizing os with
  | zero => simp [Done]
  | succ m ih =>
    rw [Nat.succ_add, done_succ, done_succ, ih, and_assoc]
    cases os <;> simp

theorem bind_apply {α β : Type} (m : Tx δ α) (f : α → Tx δ β) (c : TxConn δ) :
    (m >>= f) c = f (m c).1 (m c).2 := rfl

theorem exec_done {stmt : δ → δ} {c : TxConn δ} (h : c.next = .done) :
    exec stmt c = (.ok, { c.tick with db := stmt c.db }) := by
  unfold exec settle
  rw [h]

theorem exec_failed {stmt : δ → δ} {c : TxConn δ} (h : c.next ≠ .done) :
    (exec stmt c).1 = .error ∧ (exec stmt c).2.undo = c.tick.undo := by
  unfold exec settle
  cases ho : c.next with
  | done => exact absurd ho h
  | failed => exact ⟨rfl, rfl⟩
  | rolledBack => exact ⟨rfl, rfl⟩

theorem execAll_cons (stmt : δ → δ) (stmts : List (δ → δ)) (c : TxConn δ) :
    execAll (stmt :: stmts) c =
      if (exec stmt c).1 ≠ .ok then exec stmt c else execAll stmts (exec stmt c).2 := by
  show (exec stmt >>= _) c = _
  rw [bind_apply]
  split <;> rfl

/-- Nothing fails: the statements are applied in turn. -/
theorem execAll_done (stmts : List (δ → δ)) {c : TxConn δ} (h : Done stmts.length c.outcomes) :
    execAll stmts c = (.ok, { c with
      db := stmts.foldl (fun d stmt => stmt d) c.db
      outcomes := c.outcomes.drop stmts.length }) := by
  induction stmts generalizing c with
  | nil => rfl
  | cons stmt stmts ih =>
    rw [List.length_cons, done_succ] at h
    rw [execAll_cons, exec_done h.1]
    show execAll stmts { c.tick with db := stmt c.db } = _
    rw [ih h.2]
    simp [tick]

/-- Something fails: what ROLLBACK leaves is the database at BEGIN. -/
theorem execAll_failed (stmts : List (δ → δ)) {c : TxConn δ} {d : δ} (hc : c.before = some d)
    (h : ¬ Done stmts.length c.outcomes) :
    (execAll stmts c).1 = .error ∧ (execAll stmts c).2.undo.db = d ∧
      (execAll stmts c).2.undo.before = none := by
  induction stmts generalizing c with
  | nil => exact absurd (fun o ho => by simp at ho) h
  | cons stmt stmts ih =>
    rw [List.length_cons, done_succ] at h
    rw [execAll_cons]
    rcases Decidable.em (c.next = .done) with hnext | hnext
    · rw [exec_done hnext]
      exact ih hc fun hdone => h ⟨hnext, hdone⟩
    · obtain ⟨hrc, hundo⟩ := @exec_failed _ stmt _ hnext
      rw [hrc, if_pos (by rintro ⟨⟩), hundo]
      exact ⟨hrc, by simp [undo, hc], rfl⟩

end Tx
end Enil.Lib
