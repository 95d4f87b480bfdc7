import Mathlib.Tactic.Common

/-!
# Statements and savepoints of a database connection

A connection runs statements one at a time. Each may fail, as `faults` says in
turn: a failed statement is undone and leaves any open savepoint open. The rules
say what a program built of given statements keeps whatever of them fail
(`Built.moves`, `Built.keepsSavepoints`), and that a body run between SAVEPOINT and RELEASE, rolled back when it fails, changes either the
database as the body did or nothing (`atomically_error`, `atomically_ok`).
-/

namespace Enil.Lib

/-- A result code, with every failure code taken together. -/
inductive Rc where
  | ok
  | error
  deriving DecidableEq, Repr

/-- The code of two steps: a failure of the first stays. -/
def Rc.and : Rc → Rc → Rc
  | ok, r => r
  | error, _ => error

@[simp] theorem Rc.and_eq_ok {a b : Rc} : a.and b = ok ↔ a = ok ∧ b = ok := by
  cases a <;> simp [Rc.and]

structure Conn (δ : Type) where
  db : δ
  /-- The database at each open savepoint, innermost first. -/
  savepoints : List δ := []
  /-- Rows changed by the last statement. -/
  changes : Nat := 0
  /-- Whether each coming statement fails; none does after the end of the list. -/
  faults : List Bool := []

abbrev Sql (δ : Type) := StateM (Conn δ)

namespace Conn

variable {δ : Type}

def failing (c : Conn δ) : Bool := c.faults.headD false

def tick (c : Conn δ) : Conn δ := { c with faults := c.faults.tail }

@[simp] theorem tick_db (c : Conn δ) : c.tick.db = c.db := rfl
@[simp] theorem tick_savepoints (c : Conn δ) : c.tick.savepoints = c.savepoints := rfl
@[simp] theorem tick_changes (c : Conn δ) : c.tick.changes = c.changes := rfl
@[simp] theorem tick_faults (c : Conn δ) : c.tick.faults = c.faults.tail := rfl

end Conn

namespace Sql

variable {δ α β : Type}

/-- A statement that changes rows. -/
def exec (stmt : δ → Nat × δ) : Sql δ Rc := fun c =>
  if c.failing then (.error, { c.tick with changes := 0 })
  else (.ok, { c.tick with db := (stmt c.db).2, changes := (stmt c.db).1 })

/-- A statement that reads; `none` where it fails. -/
def query (f : δ → α) : Sql δ (Option α) := fun c =>
  if c.failing then (none, c.tick) else (some (f c.db), c.tick)

def changes : Sql δ Nat := fun c => (c.changes, c)

def savepoint : Sql δ Rc := fun c =>
  if c.failing then (.error, c.tick)
  else (.ok, { c.tick with savepoints := c.db :: c.savepoints })

def release : Sql δ Rc := fun c =>
  if c.failing then (.error, c.tick) else (.ok, { c.tick with savepoints := c.savepoints.tail })

def rollbackTo : Sql δ Unit := fun c => ((), { c with db := c.savepoints.headD c.db })

/-- `body` between SAVEPOINT and RELEASE, undone where it or RELEASE fails. -/
def atomically (body : Sql δ Rc) : Sql δ Rc := do
  let mut rc ← savepoint
  if rc = .ok then
    rc ← body
    if rc = .ok then rc ← release
    if rc ≠ .ok then
      rollbackTo
      let _ ← release
  return rc

@[simp] theorem bind_apply (m : Sql δ α) (f : α → Sql δ β) (c : Conn δ) :
    (m >>= f) c = f (m c).1 (m c).2 := rfl

@[simp] theorem map_apply (f : α → β) (m : Sql δ α) (c : Conn δ) :
    (f <$> m) c = (f (m c).1, (m c).2) := rfl

@[simp] theorem pure_apply (a : α) (c : Conn δ) : (pure a : Sql δ α) c = (a, c) := rfl

@[simp] theorem changes_apply (c : Conn δ) : (changes : Sql δ Nat) c = (c.changes, c) := rfl

theorem exec_ok {stmt : δ → Nat × δ} {c : Conn δ} (h : (exec stmt c).1 = .ok) :
    (exec stmt c).2.db = (stmt c.db).2 := by
  unfold exec at h ⊢
  split at h
  · cases h
  · rename_i hc; rw [if_neg hc]

theorem exec_error {stmt : δ → Nat × δ} {c : Conn δ} (h : (exec stmt c).1 ≠ .ok) :
    (exec stmt c).2.db = c.db := by
  unfold exec at h ⊢
  split at h
  · rename_i hc; rw [if_pos hc]; rfl
  · exact absurd rfl h

theorem exec_code (stmt : δ → Nat × δ) (c : Conn δ) :
    (exec stmt c).1 = if c.failing then .error else .ok := by
  unfold exec; split <;> rfl

theorem exec_db (stmt : δ → Nat × δ) (c : Conn δ) :
    (exec stmt c).2.db = if c.failing then c.db else (stmt c.db).2 := by
  unfold exec; split <;> rfl

theorem exec_changes (stmt : δ → Nat × δ) (c : Conn δ) :
    (exec stmt c).2.changes = if c.failing then 0 else (stmt c.db).1 := by
  unfold exec; split <;> rfl

theorem exec_faults (stmt : δ → Nat × δ) (c : Conn δ) :
    (exec stmt c).2.faults = c.faults.tail := by
  unfold exec; split <;> rfl

theorem query_apply (f : δ → α) (c : Conn δ) :
    query f c = (if c.failing then none else some (f c.db), c.tick) := by
  unfold query
  split <;> rfl

/-- `m`, and where it succeeds `n` after it. -/
theorem checked_ok {m n : Sql δ Rc} {c : Conn δ}
    (h : ((m >>= fun rc => if rc ≠ .ok then pure rc else n) c).1 = .ok) :
    (m c).1 = .ok ∧ (m >>= fun rc => if rc ≠ .ok then pure rc else n) c = n (m c).2 := by
  rw [bind_apply] at h ⊢
  split at h
  · rename_i hne; exact absurd h hne
  · rename_i hok
    rw [not_not] at hok
    exact ⟨hok, by rw [if_neg (by simp [hok])]⟩

/-! ## What a program keeps whatever fails -/

/-- `m` is made of statements with `P`, reads, and choices on their results. -/
inductive Built (P : (δ → Nat × δ) → Prop) : {α : Type} → Sql δ α → Prop where
  | pure {α : Type} (a : α) : Built P (pure a : Sql δ α)
  | exec {stmt : δ → Nat × δ} : P stmt → Built P (exec stmt)
  | query {α : Type} (f : δ → α) : Built P (query f)
  | changes : Built P changes
  | bind {α β : Type} {m : Sql δ α} {f : α → Sql δ β} :
      Built P m → (∀ a, Built P (f a)) → Built P (m >>= f)

namespace Built

variable {P Q : (δ → Nat × δ) → Prop}

theorem ite {p : Prop} [Decidable p] {m n : Sql δ α} (hm : Built P m) (hn : Built P n) :
    Built P (if p then m else n) := by
  split <;> assumption

theorem discard {m : Sql δ α} (hm : Built P m) : Built P (discard m) :=
  .bind hm fun _ => .pure ()

theorem mono (h : ∀ stmt, P stmt → Q stmt) {m : Sql δ α} (hm : Built P m) : Built Q m := by
  induction hm with
  | pure a => exact .pure a
  | exec hs => exact .exec (h _ hs)
  | query f => exact .query f
  | changes => exact .changes
  | bind _ _ ihm ihf => exact .bind ihm ihf

theorem keepsSavepoints {m : Sql δ α} (hm : Built P m) (c : Conn δ) :
    (m c).2.savepoints = c.savepoints := by
  induction hm generalizing c with
  | pure a => rfl
  | exec _ => unfold Sql.exec; split <;> rfl
  | query f => unfold Sql.query; split <;> rfl
  | changes => rfl
  | bind _ _ ihm ihf => exact (ihf _ _).trans (ihm c)

/-- A preorder that every statement extends is extended by the program. -/
theorem moves {R : δ → δ → Prop} (hrefl : ∀ d, R d d) (htrans : ∀ {a b c}, R a b → R b c → R a c)
    (h : ∀ stmt, P stmt → ∀ d, R d (stmt d).2) {m : Sql δ α} (hm : Built P m) (c : Conn δ) :
    R c.db (m c).2.db := by
  induction hm generalizing c with
  | pure a => exact hrefl _
  | exec hs =>
    unfold Sql.exec
    split
    · exact hrefl _
    · exact h _ hs _
  | query f => unfold Sql.query; split <;> exact hrefl _
  | changes => exact hrefl _
  | bind _ _ ihm ihf => exact htrans (ihm c) (ihf _ _)

end Built

/-! ## The savepoint pattern -/

theorem release_db (c : Conn δ) : (release c).2.db = c.db := by
  unfold release; split <;> rfl

/-- The connection inside the savepoint. -/
def opened (c : Conn δ) : Conn δ := { c.tick with savepoints := c.db :: c.savepoints }

/-- What `atomically` does once the savepoint is open: the database of a failed
body is replaced by the saved one, in front of whatever RELEASE does. -/
theorem atomically_opened (body : Sql δ Rc) {c : Conn δ} (hc : c.failing = false) :
    atomically body c =
      if (body (opened c)).1 = .ok ∧ (release (body (opened c)).2).1 = .ok then
        (.ok, (release (body (opened c)).2).2)
      else if (body (opened c)).1 = .ok then
        (.error, (release (rollbackTo (release (body (opened c)).2).2).2).2)
      else
        (.error, (release (rollbackTo (body (opened c)).2).2).2) := by
  have hs : savepoint c = (.ok, opened c) := by simp [savepoint, hc, opened]
  unfold atomically
  simp only [bind_apply, hs, if_true]
  rcases hb : (body (opened c)).1 with _ | _
  · rcases hr : (release (body (opened c)).2).1 with _ | _ <;> simp [hr]
  · simp

theorem atomically_failing (body : Sql δ Rc) {c : Conn δ} (hc : c.failing = true) :
    atomically body c = (.error, c.tick) := by
  have hs : savepoint c = (.error, c.tick) := by simp [savepoint, hc]
  unfold atomically
  simp [bind_apply, hs]

theorem rollbackTo_db {d : δ} {c : Conn δ} {ds : List δ} (h : c.savepoints = d :: ds) :
    (rollbackTo c).2.db = d := by
  simp [rollbackTo, h]

/-- A failed RELEASE leaves the savepoint open. -/
theorem release_error {c : Conn δ} (h : (release c).1 ≠ .ok) :
    (release c).2.savepoints = c.savepoints := by
  unfold release at h ⊢
  split
  · rfl
  · rename_i hc; simp [hc] at h

/-- After a failure the database is the one before the savepoint. -/
theorem atomically_error {P : (δ → Nat × δ) → Prop} {body : Sql δ Rc} (hbody : Built P body)
    {c : Conn δ} (h : (atomically body c).1 ≠ .ok) : (atomically body c).2.db = c.db := by
  cases hc : c.failing with
  | true => rw [atomically_failing body hc]; rfl
  | false =>
    have hsp : (body (opened c)).2.savepoints = c.db :: c.savepoints :=
      hbody.keepsSavepoints (opened c)
    rw [atomically_opened body hc] at h ⊢
    split at h
    · exact absurd rfl h
    · rename_i hn
      rw [if_neg hn]
      split
      · rename_i hb
        rw [release_db, rollbackTo_db ((release_error fun hr => hn ⟨hb, hr⟩).trans hsp)]
      · rw [release_db, rollbackTo_db hsp]

/-- After a success the database is the one the body left. -/
theorem atomically_ok {body : Sql δ Rc} {c : Conn δ} (h : (atomically body c).1 = .ok) :
    (body (opened c)).1 = .ok ∧ (atomically body c).2.db = (body (opened c)).2.db := by
  cases hc : c.failing with
  | true => rw [atomically_failing body hc] at h; cases h
  | false =>
    rw [atomically_opened body hc] at h ⊢
    split at h
    · rename_i hb
      rw [if_pos hb]
      exact ⟨hb.1, release_db _⟩
    · split at h <;> cases h

/-! ## Loops -/

/-- `f` on each element up to the first failure. -/
def forEach {ι : Type} (f : ι → Sql δ Rc) : List ι → Sql δ Rc
  | [] => pure .ok
  | x :: xs => do
    let rc ← f x
    if rc ≠ .ok then return rc
    forEach f xs

theorem Built.forEach {P : (δ → Nat × δ) → Prop} {ι : Type} {f : ι → Sql δ Rc}
    (hf : ∀ x, Built P (f x)) : ∀ xs, Built P (forEach f xs)
  | [] => .pure _
  | x :: xs => .bind (hf x) fun _ => .ite (.pure _) (Built.forEach hf xs)

/-- A relation between the database before the loop, the list and the one after it,
that holds of no element and is kept by one more in front. -/
theorem forEach_ok {ι : Type} {f : ι → Sql δ Rc} {R : δ → List ι → δ → Prop}
    (hnil : ∀ d, R d [] d)
    (hcons : ∀ {x : ι} {xs : List ι} {c : Conn δ} {d : δ}, (f x c).1 = .ok →
      R (f x c).2.db xs d → R c.db (x :: xs) d) {xs : List ι} {c : Conn δ}
    (h : (forEach f xs c).1 = .ok) : R c.db xs (forEach f xs c).2.db := by
  induction xs generalizing c with
  | nil => exact hnil _
  | cons x xs ih =>
    unfold forEach at h ⊢
    obtain ⟨hx, heq⟩ := checked_ok h
    rw [heq] at h ⊢
    exact hcons hx (ih h)

theorem forEach_exec_ok {ι : Type} {stmt : ι → δ → Nat × δ} {xs : List ι} {c : Conn δ}
    (h : (forEach (fun x => exec (stmt x)) xs c).1 = .ok) :
    (forEach (fun x => exec (stmt x)) xs c).2.db = xs.foldl (fun d x => (stmt x d).2) c.db :=
  forEach_ok (R := fun d xs d' => d' = xs.foldl (fun d x => (stmt x d).2) d) (fun _ => rfl)
    (fun hx hrest => by rw [hrest, exec_ok hx, List.foldl_cons]) h

/-- Whether the body stays or not, the database moves as its statements do. -/
theorem Built.atomically_moves {P : (δ → Nat × δ) → Prop} {R : δ → δ → Prop}
    (hrefl : ∀ d, R d d) (htrans : ∀ {a b c}, R a b → R b c → R a c)
    (h : ∀ stmt, P stmt → ∀ d, R d (stmt d).2) {body : Sql δ Rc} (hbody : Built P body)
    (c : Conn δ) : R c.db (atomically body c).2.db := by
  rcases Decidable.em ((atomically body c).1 = .ok) with hok | herr
  · rw [(atomically_ok hok).2]
    exact hbody.moves hrefl htrans h (opened c)
  · rw [atomically_error hbody herr]
    exact hrefl c.db

/-! ## Loops and transactions of statements that may fail -/

/-- None of the next `n` statements fails. -/
def Spares (c : Conn δ) (n : Nat) : Prop := true ∉ c.faults.take n

theorem spares_zero (c : Conn δ) : Spares c 0 := List.not_mem_nil

theorem spares_succ {c : Conn δ} {n : Nat} :
    Spares c (n + 1) ↔ c.failing = false ∧ Spares c.tick n := by
  unfold Spares Conn.failing
  rw [Conn.tick_faults]
  cases c.faults with
  | nil => simp
  | cons f fs => cases f <;> simp

/-- A loop of statements succeeds exactly if none of them fails, and the rest may fail as
before. -/
theorem forEach_exec_iff {ι : Type} (stmt : ι → δ → Nat × δ) (xs : List ι) (c : Conn δ) :
    ((forEach (fun x => exec (stmt x)) xs c).1 = .ok ↔ Spares c xs.length) ∧
      ((forEach (fun x => exec (stmt x)) xs c).1 = .ok →
        (forEach (fun x => exec (stmt x)) xs c).2.faults = c.faults.drop xs.length) := by
  induction xs generalizing c with
  | nil => exact ⟨iff_of_true rfl (spares_zero c), fun _ => rfl⟩
  | cons x xs ih =>
    have hcode := exec_code (stmt x) c
    rw [List.length_cons, spares_succ]
    unfold forEach
    rw [bind_apply, hcode]
    cases c.failing with
    | true => exact ⟨iff_of_false (fun h => by cases h) (fun h => by cases h.1), fun h => by cases h⟩
    | false =>
      obtain ⟨hok, hrest⟩ := ih (exec (stmt x) c).2
      have hfaults := exec_faults (stmt x) c
      rw [hfaults, List.drop_tail] at hrest
      unfold Spares at hok
      rw [hfaults] at hok
      exact ⟨hok.trans (and_iff_right rfl).symm, hrest⟩

theorem release_ok_iff (c : Conn δ) : (release c).1 = .ok ↔ c.failing = false := by
  unfold release
  cases c.failing <;> simp

theorem spares_last {c : Conn δ} {n : Nat} :
    Spares c (n + 1) ↔ Spares c n ∧ (c.faults.drop n).headD false = false := by
  unfold Spares
  rw [List.take_add_one, List.mem_append, not_or, List.headD_eq_head?_getD, List.head?_drop]
  refine and_congr_right fun _ => ?_
  cases c.faults[n]? with
  | none => simp
  | some f => cases f <;> simp

/-- A transaction of statements commits exactly if neither they nor its two ends fail. -/
theorem atomically_forEach_iff {ι : Type} (stmt : ι → δ → Nat × δ) (xs : List ι) (c : Conn δ) :
    (atomically (forEach (fun x => exec (stmt x)) xs) c).1 = .ok ↔
      Spares c (xs.length + 2) := by
  rw [spares_succ]
  cases hc : c.failing with
  | true =>
    rw [atomically_failing _ hc]
    exact iff_of_false (fun h => by cases h) fun h => by cases h.1
  | false =>
    obtain ⟨hok, hrest⟩ := forEach_exec_iff stmt xs (opened c)
    rw [atomically_opened _ hc, and_iff_right rfl, spares_last]
    have hcommit : (forEach (fun x => exec (stmt x)) xs (opened c)).1 = .ok →
        ((release (forEach (fun x => exec (stmt x)) xs (opened c)).2).1 = .ok ↔
          (c.tick.faults.drop xs.length).headD false = false) := by
      intro hbody
      rw [release_ok_iff, Conn.failing, hrest hbody]
      rfl
    split
    · rename_i h
      exact iff_of_true rfl ⟨hok.mp h.1, (hcommit h.1).mp h.2⟩
    · rename_i h
      refine iff_of_false (fun hr => ?_) fun ⟨hbody, hrel⟩ => ?_
      · split at hr <;> cases hr
      · exact h ⟨hok.mpr hbody, (hcommit (hok.mpr hbody)).mpr hrel⟩

/-! ## Programs that may end early, and parts of a database -/

/-- `m`, and where it gives a value `f` on it. -/
def andThen (m : Sql δ (Option α)) (f : α → Sql δ (Option β)) : Sql δ (Option β) := do
  match ← m with
  | none => return none
  | some a => f a

theorem andThen_some {m : Sql δ (Option α)} {f : α → Sql δ (Option β)} {c : Conn δ} {b : β}
    (h : (andThen m f c).1 = some b) : ∃ a, (m c).1 = some a ∧ andThen m f c = f a (m c).2 := by
  unfold andThen at h ⊢
  rw [bind_apply] at h ⊢
  cases hm : (m c).1 with
  | none =>
    rw [hm] at h
    cases h
  | some a => exact ⟨a, rfl, rfl⟩

/-- What both parts keep the whole keeps. -/
theorem andThen_keeps {m : Sql δ (Option α)} {f : α → Sql δ (Option β)} {R : δ → δ → Prop}
    (htrans : ∀ {a b c}, R a b → R b c → R a c) (hm : ∀ c, R c.db (m c).2.db)
    (hf : ∀ a c, R c.db (f a c).2.db) (c : Conn δ) : R c.db (andThen m f c).2.db := by
  unfold andThen
  rw [bind_apply]
  cases (m c).1 with
  | none => exact hm c
  | some a => exact htrans (hm c) (hf a _)

/-- `m` where it succeeds. -/
def require (m : Sql δ Rc) : Sql δ (Option Unit) := do
  let rc ← m
  if rc ≠ .ok then return none
  return some ()

theorem require_some {m : Sql δ Rc} {c : Conn δ} {u : Unit} (h : (require m c).1 = some u) :
    (m c).1 = .ok := by
  unfold require at h
  rw [bind_apply] at h
  split at h
  · cases h
  · rename_i hok
    exact not_not.mp hok

@[simp] theorem require_db (m : Sql δ Rc) (c : Conn δ) : (require m c).2.db = (m c).2.db := by
  unfold require
  rw [bind_apply]
  split <;> rfl

theorem require_isSome (m : Sql δ Rc) (c : Conn δ) :
    (require m c).1.isSome = decide ((m c).1 = .ok) := by
  unfold require
  rw [bind_apply]
  cases (m c).1 <;> rfl

variable {γ : Type}

/-- A program on a part of the database; its transactions end in it. -/
def zoom (get : δ → γ) (set : γ → δ → δ) (m : Sql γ α) : Sql δ α := fun c =>
  let r := m { db := get c.db, changes := c.changes, faults := c.faults }
  (r.1, { c with db := set r.2.db c.db, changes := r.2.changes, faults := r.2.faults })

/-! ## Connections on which nothing fails -/

theorem tick_of_quiet {c : Conn δ} (h : c.faults = []) : c.tick = c := by
  cases c; cases h; rfl

theorem failing_of_quiet {c : Conn δ} (h : c.faults = []) : c.failing = false := by
  rw [Conn.failing, h]; rfl

theorem exec_quiet {c : Conn δ} (h : c.faults = []) (stmt : δ → Nat × δ) :
    exec stmt c = (.ok, { c with db := (stmt c.db).2, changes := (stmt c.db).1 }) := by
  unfold exec
  rw [failing_of_quiet h, tick_of_quiet h]; rfl

theorem query_quiet {c : Conn δ} (h : c.faults = []) (f : δ → α) :
    query f c = (some (f c.db), c) := by
  unfold query
  rw [failing_of_quiet h, tick_of_quiet h]; rfl

theorem Built.quiet {P : (δ → Nat × δ) → Prop} {m : Sql δ α} (hm : Built P m) {c : Conn δ}
    (h : c.faults = []) : (m c).2.faults = [] := by
  induction hm generalizing c with
  | pure a => exact h
  | exec _ => rw [exec_quiet h]; exact h
  | query f => rw [query_quiet h]; exact h
  | changes => exact h
  | bind _ _ ihm ihf => exact ihf _ (ihm h)

theorem forEach_quiet {ι : Type} {f : ι → Sql δ Rc}
    (hf : ∀ x {c : Conn δ}, c.faults = [] → (f x c).1 = .ok ∧ (f x c).2.faults = [])
    (xs : List ι) {c : Conn δ} (h : c.faults = []) : (forEach f xs c).1 = .ok := by
  induction xs generalizing c with
  | nil => rfl
  | cons x xs ih =>
    obtain ⟨hok, hquiet⟩ := hf x h
    rw [forEach, bind_apply, if_neg (by simp [hok])]
    exact ih hquiet

/-- Where nothing fails, the savepoint pattern does what its body does. -/
theorem atomically_quiet {P : (δ → Nat × δ) → Prop} {body : Sql δ Rc} (hbody : Built P body)
    {c : Conn δ} (h : c.faults = []) (hok : (body (opened c)).1 = .ok) :
    (atomically body c).1 = .ok ∧ (atomically body c).2.db = (body (opened c)).2.db ∧
      (atomically body c).2.faults = [] := by
  have hopen : (opened c).faults = [] := by simp [opened, h]
  have hq := hbody.quiet hopen
  have hrel : (release (body (opened c)).2).1 = .ok := by
    unfold release; rw [failing_of_quiet hq]; rfl
  rw [atomically_opened body (failing_of_quiet h), if_pos ⟨hok, hrel⟩]
  refine ⟨rfl, release_db _, ?_⟩
  unfold release
  rw [failing_of_quiet hq, tick_of_quiet hq]
  exact hq

end Sql
end Enil.Lib
