import Enil.Lib.Leb128
import Mathlib.Logic.Function.Basic

/-!
# A fragment of WebAssembly

Instructions with structured control, their binary form, and their meaning: instructions run
on the locals, the operand stack and the memory of a frame and go on, branch out of blocks,
return or trap. `Runs` is the result of a run that ends; there is one at most.
-/

namespace Enil.Lib.Wasm

/-- Instructions without control. -/
inductive Op where
  | localGet (x : Nat)
  | localSet (x : Nat)
  | const (z : Int)
  | load (align offset : Nat)
  | load8U (align offset : Nat)
  | store (align offset : Nat)
  | eqz
  | eq
  | ne
  | ltU
  | leU
  | add
  | sub
  | and
  | or
  | drop
  | call (f : Nat)
  deriving DecidableEq, Repr

inductive Instr where
  | op (o : Op)
  | block (body : List Instr)
  | loop (body : List Instr)
  | brIf (depth : Nat)
  | ret

/-! ## The binary form -/

namespace Op

open Leb128

def encode : Op → List UInt8
  | localGet x => 0x20 :: Leb128.encode x
  | localSet x => 0x21 :: Leb128.encode x
  | const z => 0x41 :: encodeSigned z
  | load align offset => 0x28 :: (Leb128.encode align ++ Leb128.encode offset)
  | load8U align offset => 0x2d :: (Leb128.encode align ++ Leb128.encode offset)
  | store align offset => 0x36 :: (Leb128.encode align ++ Leb128.encode offset)
  | eqz => [0x45]
  | eq => [0x46]
  | ne => [0x47]
  | ltU => [0x49]
  | leU => [0x4d]
  | add => [0x6a]
  | sub => [0x6b]
  | and => [0x71]
  | or => [0x72]
  | drop => [0x1a]
  | call f => 0x10 :: Leb128.encode f

/-- An instruction with a number. -/
def decodeNat (f : Nat → Op) (s : List UInt8) : Option (Op × List UInt8) :=
  (Leb128.decode s).map fun d => (f d.1, d.2)

/-- An instruction with an alignment and an offset. -/
def decodeMem (f : Nat → Nat → Op) (s : List UInt8) : Option (Op × List UInt8) :=
  (Leb128.decode s).bind fun a => (Leb128.decode a.2).map fun d => (f a.1 d.1, d.2)

def decode : List UInt8 → Option (Op × List UInt8)
  | [] => none
  | b :: s =>
    if b = 0x20 then decodeNat localGet s
    else if b = 0x21 then decodeNat localSet s
    else if b = 0x41 then (decodeSigned s).map fun d => (const d.1, d.2)
    else if b = 0x28 then decodeMem load s
    else if b = 0x2d then decodeMem load8U s
    else if b = 0x36 then decodeMem store s
    else if b = 0x45 then some (eqz, s)
    else if b = 0x46 then some (eq, s)
    else if b = 0x47 then some (ne, s)
    else if b = 0x49 then some (ltU, s)
    else if b = 0x4d then some (leU, s)
    else if b = 0x6a then some (add, s)
    else if b = 0x6b then some (sub, s)
    else if b = 0x71 then some (and, s)
    else if b = 0x72 then some (or, s)
    else if b = 0x1a then some (drop, s)
    else if b = 0x10 then decodeNat call s
    else none

theorem decodeNat_append (f : Nat → Op) (n : Nat) (s : List UInt8) :
    decodeNat f (Leb128.encode n ++ s) = some (f n, s) := by
  rw [decodeNat, decode_append (encodes_encode n), Option.map_some]

theorem decodeMem_append (f : Nat → Nat → Op) (a n : Nat) (s : List UInt8) :
    decodeMem f (Leb128.encode a ++ Leb128.encode n ++ s) = some (f a n, s) := by
  rw [decodeMem, List.append_assoc, decode_append (encodes_encode a), Option.bind_some,
    decode_append (encodes_encode n), Option.map_some]

theorem decode_encode (o : Op) (s : List UInt8) : decode (o.encode ++ s) = some (o, s) := by
  cases o with
  | localGet x => exact decodeNat_append localGet x s
  | localSet x => exact decodeNat_append localSet x s
  | const z =>
    change (decodeSigned (encodeSigned z ++ s)).map _ = _
    rw [decodeSigned_append, Option.map_some]
  | load align offset => exact decodeMem_append load align offset s
  | load8U align offset => exact decodeMem_append load8U align offset s
  | store align offset => exact decodeMem_append store align offset s
  | call f => exact decodeNat_append call f s
  | _ => rfl

/-- The first byte of an instruction without control. -/
theorem exists_encode_cons (o : Op) : ∃ b s, o.encode = b :: s ∧ b ≠ 0x0b ∧ b ≠ 0x02 ∧ b ≠ 0x03 ∧
    b ≠ 0x0d ∧ b ≠ 0x0f := by
  cases o <;> exact ⟨_, _, rfl, by decide, by decide, by decide, by decide, by decide⟩

end Op

mutual

def Instr.encode : Instr → List UInt8
  | .op o => o.encode
  | .block body => 0x02 :: 0x40 :: (encodeSeq body ++ [0x0b])
  | .loop body => 0x03 :: 0x40 :: (encodeSeq body ++ [0x0b])
  | .brIf depth => 0x0d :: Leb128.encode depth
  | .ret => [0x0f]

def encodeSeq : List Instr → List UInt8
  | [] => []
  | i :: is => i.encode ++ encodeSeq is

end

theorem encodeSeq_append (is js : List Instr) :
    encodeSeq (is ++ js) = encodeSeq is ++ encodeSeq js := by
  induction is with
  | nil => rfl
  | cons i is ih => rw [List.cons_append, encodeSeq, encodeSeq, ih, List.append_assoc]

/-- Instructions up to their end; `n` is more than their bytes. -/
def decodeSeq : Nat → List UInt8 → Option (List Instr × List UInt8)
  | 0, _ => none
  | _, [] => none
  | n + 1, b :: s =>
    if b = 0x0b then some ([], s)
    else if b = 0x02 then
      if s.head? ≠ some 0x40 then none
      else (decodeSeq n s.tail).bind fun body =>
        (decodeSeq n body.2).map fun d => (.block body.1 :: d.1, d.2)
    else if b = 0x03 then
      if s.head? ≠ some 0x40 then none
      else (decodeSeq n s.tail).bind fun body =>
        (decodeSeq n body.2).map fun d => (.loop body.1 :: d.1, d.2)
    else if b = 0x0d then
      (Leb128.decode s).bind fun k =>
        (decodeSeq n k.2).map fun d => (.brIf k.1 :: d.1, d.2)
    else if b = 0x0f then (decodeSeq n s).map fun d => (.ret :: d.1, d.2)
    else (Op.decode (b :: s)).bind fun o =>
      (decodeSeq n o.2).map fun d => (.op o.1 :: d.1, d.2)

/-- The binary form is read in one way: as what was written. -/
theorem decodeSeq_encodeSeq {n : Nat} {is : List Instr} (h : (encodeSeq is).length < n)
    (s : List UInt8) : decodeSeq n (encodeSeq is ++ 0x0b :: s) = some (is, s) := by
  induction n generalizing is s with
  | zero => omega
  | succ n ih =>
    cases is with
    | nil => rfl
    | cons i is =>
      rw [encodeSeq, List.length_append] at h
      cases i with
      | op o =>
        obtain ⟨b, t, hb, h1, h2, h3, h4, h5⟩ := o.exists_encode_cons
        have hdecode := o.decode_encode (encodeSeq is ++ 0x0b :: s)
        rw [Instr.encode, hb, List.length_cons] at h
        rw [hb, List.cons_append] at hdecode
        rw [encodeSeq, Instr.encode, hb, List.cons_append, List.cons_append, decodeSeq, if_neg h1,
          if_neg h2, if_neg h3, if_neg h4, if_neg h5, List.append_assoc, hdecode,
          Option.bind_some, ih (by omega), Option.map_some]
      | block body =>
        simp only [Instr.encode, List.length_cons, List.length_append] at h
        have hform : encodeSeq (.block body :: is) ++ 0x0b :: s = 0x02 :: 0x40 ::
            (encodeSeq body ++ 0x0b :: (encodeSeq is ++ 0x0b :: s)) := by
          simp only [encodeSeq, Instr.encode, List.cons_append, List.append_assoc, List.nil_append]
        rw [hform, decodeSeq, if_neg (by decide), if_pos rfl, List.head?_cons, if_neg (by decide),
          List.tail_cons, ih (by omega), Option.bind_some, ih (by omega), Option.map_some]
      | loop body =>
        simp only [Instr.encode, List.length_cons, List.length_append] at h
        have hform : encodeSeq (.loop body :: is) ++ 0x0b :: s = 0x03 :: 0x40 ::
            (encodeSeq body ++ 0x0b :: (encodeSeq is ++ 0x0b :: s)) := by
          simp only [encodeSeq, Instr.encode, List.cons_append, List.append_assoc, List.nil_append]
        rw [hform, decodeSeq, if_neg (by decide), if_neg (by decide), if_pos rfl, List.head?_cons,
          if_neg (by decide), List.tail_cons, ih (by omega), Option.bind_some, ih (by omega),
          Option.map_some]
      | brIf depth =>
        simp only [Instr.encode, List.length_cons] at h
        rw [encodeSeq, Instr.encode, List.cons_append, List.cons_append, decodeSeq,
          if_neg (by decide), if_neg (by decide), if_neg (by decide), if_pos rfl,
          List.append_assoc, Leb128.decode_append (Leb128.encodes_encode depth), Option.bind_some,
          ih (by omega), Option.map_some]
      | ret =>
        simp only [Instr.encode, List.length_cons, List.length_nil] at h
        rw [encodeSeq, Instr.encode, List.cons_append, List.cons_append, decodeSeq,
          if_neg (by decide), if_neg (by decide), if_neg (by decide), if_neg (by decide),
          if_pos rfl, List.nil_append, ih (by omega), Option.map_some]

/-! ## Memory -/

structure Memory where
  size : Nat
  byte : Nat → UInt8
  size_le : size ≤ 4294967296

namespace Memory

variable (m : Memory)

/-- The bytes from an address on as a number, the lowest first. -/
def littleEndian (a : Nat) : Nat → Nat
  | 0 => 0
  | k + 1 => (m.byte a).toNat + 256 * littleEndian (a + 1) k

def word (a : Nat) : UInt32 := UInt32.ofNat (m.littleEndian a 4)

/-- Byte `k` of a word. -/
def byteOf (v : UInt32) (k : Nat) : UInt8 := UInt8.ofNat (v.toNat / 256 ^ k)

def storeWord (a : Nat) (v : UInt32) : Memory where
  size := m.size
  byte b := if a ≤ b ∧ b < a + 4 then byteOf v (b - a) else m.byte b
  size_le := m.size_le

end Memory

/-! ## Runs -/

structure State where
  locals : Nat → UInt32
  count : Nat
  stack : List UInt32
  mem : Memory

namespace State

variable (s : State)

def setLocal (x : Nat) (v : UInt32) : State := { s with locals := Function.update s.locals x v }

def withStack (stack : List UInt32) : State := { s with stack := stack }

def withMem (mem : Memory) : State := { s with mem := mem }

end State

/-- A function that can be called: the number of its parameters, and its results. -/
structure Func where
  params : Nat
  run : List UInt32 → Memory → Option (List UInt32 × Memory)

abbrev Env := Nat → Option Func

def ofBool (b : Bool) : UInt32 := if b then 1 else 0

namespace Op

/-- The two operands on top; the upper one is the second. -/
def binary (f : UInt32 → UInt32 → UInt32) (s : State) : Option State :=
  match s.stack with
  | b :: a :: st => some (s.withStack (f a b :: st))
  | _ => none

/-- The effective address of an access of `k` bytes. -/
def address (m : Memory) (a : UInt32) (offset k : Nat) : Option Nat :=
  if a.toNat + offset + k ≤ m.size then some (a.toNat + offset) else none

/-- `none` is a trap. -/
def run (env : Env) (s : State) : Op → Option State
  | localGet x => if x < s.count then some (s.withStack (s.locals x :: s.stack)) else none
  | localSet x =>
    match s.stack with
    | v :: st => if x < s.count then some ((s.setLocal x v).withStack st) else none
    | _ => none
  | const z => some (s.withStack (UInt32.ofInt z :: s.stack))
  | load _ offset =>
    match s.stack with
    | a :: st => (address s.mem a offset 4).map fun p => s.withStack (s.mem.word p :: st)
    | _ => none
  | load8U _ offset =>
    match s.stack with
    | a :: st =>
      (address s.mem a offset 1).map fun p => s.withStack ((s.mem.byte p).toUInt32 :: st)
    | _ => none
  | store _ offset =>
    match s.stack with
    | v :: a :: st =>
      (address s.mem a offset 4).map fun p => (s.withMem (s.mem.storeWord p v)).withStack st
    | _ => none
  | eqz =>
    match s.stack with
    | a :: st => some (s.withStack (ofBool (a == 0) :: st))
    | _ => none
  | eq => binary (fun a b => ofBool (a == b)) s
  | ne => binary (fun a b => ofBool (a != b)) s
  | ltU => binary (fun a b => ofBool (decide (a < b))) s
  | leU => binary (fun a b => ofBool (decide (a ≤ b))) s
  | add => binary (· + ·) s
  | sub => binary (· - ·) s
  | and => binary (· &&& ·) s
  | or => binary (· ||| ·) s
  | drop =>
    match s.stack with
    | _ :: st => some (s.withStack st)
    | _ => none
  | call f => (env f).bind fun func =>
    if s.stack.length < func.params then none
    else (func.run (s.stack.take func.params).reverse s.mem).map fun r =>
      (s.withMem r.2).withStack (r.1.reverse ++ s.stack.drop func.params)

end Op

inductive Outcome where
  | next
  | branch (depth : Nat)
  | ret
  | trap
  deriving DecidableEq, Repr

/-- At most `n` steps deep; `none` is no end within them. -/
def exec (env : Env) : Nat → List Instr → State → Option (Outcome × State)
  | 0, _, _ => none
  | _ + 1, [], s => some (.next, s)
  | n + 1, .op o :: is, s =>
    match o.run env s with
    | none => some (.trap, s)
    | some t => exec env n is t
  | n + 1, .block body :: is, s =>
    match exec env n body (s.withStack []) with
    | some (.next, t) => exec env n is (t.withStack s.stack)
    | some (.branch 0, t) => exec env n is (t.withStack s.stack)
    | some (.branch (k + 1), t) => some (.branch k, t)
    | r => r
  | n + 1, .loop body :: is, s =>
    match exec env n body (s.withStack []) with
    | some (.next, t) => exec env n is (t.withStack s.stack)
    | some (.branch 0, t) => exec env n (.loop body :: is) (t.withStack s.stack)
    | some (.branch (k + 1), t) => some (.branch k, t)
    | r => r
  | n + 1, .brIf depth :: is, s =>
    match s.stack with
    | [] => some (.trap, s)
    | v :: st =>
      if v = 0 then exec env n is (s.withStack st) else some (.branch depth, s.withStack st)
  | _ + 1, .ret :: _, s => some (.ret, s)

section

variable {env : Env} {n : Nat} {is body : List Instr} {s t : State} {r r' : Outcome × State}

attribute [local simp] exec

theorem exec_succ (h : exec env n is s = some r) : exec env (n + 1) is s = some r := by
  induction n generalizing is s r with
  | zero => cases h
  | succ n ih =>
    cases is with
    | nil => exact h
    | cons i is =>
      cases i with
      | op o =>
        rw [exec] at h ⊢
        cases ho : o.run env s with
        | none =>
          rw [ho] at h
          exact h
        | some t =>
          rw [ho] at h
          exact ih h
      | block body =>
        rw [exec] at h ⊢
        cases hb : exec env n body (s.withStack []) with
        | none => rw [hb] at h; cases h
        | some x =>
          rw [hb] at h
          rw [ih hb]
          obtain ⟨o, t⟩ := x
          cases o with
          | next => exact ih h
          | branch k =>
            cases k with
            | zero => exact ih h
            | succ k => exact h
          | ret => exact h
          | trap => exact h
      | loop body =>
        rw [exec] at h ⊢
        cases hb : exec env n body (s.withStack []) with
        | none => rw [hb] at h; cases h
        | some x =>
          rw [hb] at h
          rw [ih hb]
          obtain ⟨o, t⟩ := x
          cases o with
          | next => exact ih h
          | branch k =>
            cases k with
            | zero => exact ih h
            | succ k => exact h
          | ret => exact h
          | trap => exact h
      | brIf depth =>
        rw [exec] at h ⊢
        cases hs : s.stack with
        | nil =>
          rw [hs] at h
          exact h
        | cons v st =>
          rw [hs] at h
          by_cases hv : v = 0
          · simp only [hv, if_true] at h ⊢
            exact ih h
          · simp only [hv, if_false] at h ⊢
            exact h
      | ret => exact h

theorem exec_mono {m : Nat} (h : exec env n is s = some r) (hm : n ≤ m) :
    exec env m is s = some r := by
  induction hm with
  | refl => exact h
  | step _ ih => exact exec_succ ih

/-- The instructions end so. -/
def Runs (env : Env) (is : List Instr) (s : State) (r : Outcome × State) : Prop :=
  ∃ n, exec env n is s = some r

theorem Runs.unique (h : Runs env is s r) (h' : Runs env is s r') : r = r' := by
  obtain ⟨n, hn⟩ := h
  obtain ⟨m, hm⟩ := h'
  have := exec_mono hn (Nat.le_max_left n m)
  rw [exec_mono hm (Nat.le_max_right n m)] at this
  exact (Option.some.inj this).symm

theorem Runs.nil : Runs env [] s (.next, s) := ⟨1, rfl⟩

theorem Runs.ret : Runs env (.ret :: is) s (.ret, s) := ⟨1, rfl⟩

theorem Runs.op {o : Op} (ho : o.run env s = some t) (h : Runs env is t r) :
    Runs env (.op o :: is) s r := by
  obtain ⟨n, hn⟩ := h
  refine ⟨n + 1, ?_⟩
  rw [exec, ho]
  exact hn

theorem Runs.brIf_zero {depth : Nat} {st : List UInt32} (hs : s.stack = 0 :: st)
    (h : Runs env is (s.withStack st) r) : Runs env (.brIf depth :: is) s r := by
  obtain ⟨n, hn⟩ := h
  refine ⟨n + 1, ?_⟩
  rw [exec, hs]
  exact hn

theorem Runs.brIf_taken {depth : Nat} {v : UInt32} {st : List UInt32} (hs : s.stack = v :: st)
    (hv : v ≠ 0) : Runs env (.brIf depth :: is) s (.branch depth, s.withStack st) := by
  refine ⟨1, ?_⟩
  rw [exec, hs]
  exact if_neg hv

/-- A block that is left at its end or by a branch. -/
theorem Runs.block_next {o : Outcome} (ho : o = .next ∨ o = .branch 0)
    (hb : Runs env body (s.withStack []) (o, t)) (h : Runs env is (t.withStack s.stack) r) :
    Runs env (.block body :: is) s r := by
  obtain ⟨n, hn⟩ := hb
  obtain ⟨m, hm⟩ := h
  refine ⟨max n m + 1, ?_⟩
  rw [exec, exec_mono hn (Nat.le_max_left n m)]
  rcases ho with rfl | rfl <;> exact exec_mono hm (Nat.le_max_right n m)

theorem Runs.block_ret (hb : Runs env body (s.withStack []) (.ret, t)) :
    Runs env (.block body :: is) s (.ret, t) := by
  obtain ⟨n, hn⟩ := hb
  refine ⟨n + 1, ?_⟩
  rw [exec, hn]

/-- The last turn of a loop. -/
theorem Runs.loop_next (hb : Runs env body (s.withStack []) (.next, t))
    (h : Runs env is (t.withStack s.stack) r) : Runs env (.loop body :: is) s r := by
  obtain ⟨n, hn⟩ := hb
  obtain ⟨m, hm⟩ := h
  refine ⟨max n m + 1, ?_⟩
  rw [exec, exec_mono hn (Nat.le_max_left n m)]
  exact exec_mono hm (Nat.le_max_right n m)

/-- A turn of a loop, and the loop again. -/
theorem Runs.loop_again (hb : Runs env body (s.withStack []) (.branch 0, t))
    (h : Runs env (.loop body :: is) (t.withStack s.stack) r) :
    Runs env (.loop body :: is) s r := by
  obtain ⟨n, hn⟩ := hb
  obtain ⟨m, hm⟩ := h
  refine ⟨max n m + 1, ?_⟩
  rw [exec, exec_mono hn (Nat.le_max_left n m)]
  exact exec_mono hm (Nat.le_max_right n m)

/-- A loop that is left by a branch over it. -/
theorem Runs.loop_branch {k : Nat} (hb : Runs env body (s.withStack []) (.branch (k + 1), t)) :
    Runs env (.loop body :: is) s (.branch k, t) := by
  obtain ⟨n, hn⟩ := hb
  refine ⟨n + 1, ?_⟩
  rw [exec, hn]

end

/-! ## Rules for instructions without control -/

section

variable {env : Env} {is : List Instr} {L : Nat → UInt32} {c : Nat} {st : List UInt32} {m : Memory}
  {a b : UInt32} {x offset align : Nat} {r : Outcome × State}

theorem run_localGet (hx : x < c) (h : Runs env is ⟨L, c, L x :: st, m⟩ r) :
    Runs env (.op (.localGet x) :: is) ⟨L, c, st, m⟩ r :=
  .op (if_pos hx) h

theorem run_localSet (hx : x < c) (h : Runs env is ⟨Function.update L x a, c, st, m⟩ r) :
    Runs env (.op (.localSet x) :: is) ⟨L, c, a :: st, m⟩ r :=
  .op (if_pos hx) h

theorem run_const {z : Int} (h : Runs env is ⟨L, c, UInt32.ofInt z :: st, m⟩ r) :
    Runs env (.op (.const z) :: is) ⟨L, c, st, m⟩ r :=
  .op rfl h

theorem run_load (hin : a.toNat + offset + 4 ≤ m.size)
    (h : Runs env is ⟨L, c, m.word (a.toNat + offset) :: st, m⟩ r) :
    Runs env (.op (.load align offset) :: is) ⟨L, c, a :: st, m⟩ r := by
  refine .op ?_ h
  simp only [Op.run, Op.address, if_pos hin]
  rfl

theorem run_load8U (hin : a.toNat + offset + 1 ≤ m.size)
    (h : Runs env is ⟨L, c, (m.byte (a.toNat + offset)).toUInt32 :: st, m⟩ r) :
    Runs env (.op (.load8U align offset) :: is) ⟨L, c, a :: st, m⟩ r := by
  refine .op ?_ h
  simp only [Op.run, Op.address, if_pos hin]
  rfl

theorem run_store (hin : a.toNat + offset + 4 ≤ m.size)
    (h : Runs env is ⟨L, c, st, m.storeWord (a.toNat + offset) b⟩ r) :
    Runs env (.op (.store align offset) :: is) ⟨L, c, b :: a :: st, m⟩ r := by
  refine .op ?_ h
  simp only [Op.run, Op.address, if_pos hin]
  rfl

theorem run_eqz (h : Runs env is ⟨L, c, ofBool (a == 0) :: st, m⟩ r) :
    Runs env (.op .eqz :: is) ⟨L, c, a :: st, m⟩ r :=
  .op rfl h

theorem run_eq (h : Runs env is ⟨L, c, ofBool (a == b) :: st, m⟩ r) :
    Runs env (.op .eq :: is) ⟨L, c, b :: a :: st, m⟩ r :=
  .op rfl h

theorem run_ne (h : Runs env is ⟨L, c, ofBool (a != b) :: st, m⟩ r) :
    Runs env (.op .ne :: is) ⟨L, c, b :: a :: st, m⟩ r :=
  .op rfl h

theorem run_ltU (h : Runs env is ⟨L, c, ofBool (decide (a < b)) :: st, m⟩ r) :
    Runs env (.op .ltU :: is) ⟨L, c, b :: a :: st, m⟩ r :=
  .op rfl h

theorem run_leU (h : Runs env is ⟨L, c, ofBool (decide (a ≤ b)) :: st, m⟩ r) :
    Runs env (.op .leU :: is) ⟨L, c, b :: a :: st, m⟩ r :=
  .op rfl h

theorem run_add (h : Runs env is ⟨L, c, (a + b) :: st, m⟩ r) :
    Runs env (.op .add :: is) ⟨L, c, b :: a :: st, m⟩ r :=
  .op rfl h

theorem run_sub (h : Runs env is ⟨L, c, (a - b) :: st, m⟩ r) :
    Runs env (.op .sub :: is) ⟨L, c, b :: a :: st, m⟩ r :=
  .op rfl h

theorem run_and (h : Runs env is ⟨L, c, (a &&& b) :: st, m⟩ r) :
    Runs env (.op .and :: is) ⟨L, c, b :: a :: st, m⟩ r :=
  .op rfl h

theorem run_or (h : Runs env is ⟨L, c, (a ||| b) :: st, m⟩ r) :
    Runs env (.op .or :: is) ⟨L, c, b :: a :: st, m⟩ r :=
  .op rfl h

theorem run_drop (h : Runs env is ⟨L, c, st, m⟩ r) :
    Runs env (.op .drop :: is) ⟨L, c, a :: st, m⟩ r :=
  .op rfl h

/-- A call with its arguments on top of the operands. -/
theorem run_call {f : Nat} {func : Func} {l q : List UInt32} {m' : Memory}
    (hf : env f = some func) (hargs : l.length = func.params)
    (hrun : func.run l.reverse m = some (q, m'))
    (h : Runs env is ⟨L, c, q.reverse ++ st, m'⟩ r) :
    Runs env (.op (.call f) :: is) ⟨L, c, l ++ st, m⟩ r := by
  have hlen : ¬ (l ++ st).length < func.params := by
    rw [List.length_append]
    omega
  refine .op ?_ h
  simp only [Op.run, hf, Option.bind_some, if_neg hlen]
  rw [← hargs, List.take_left, List.drop_left, hrun]
  rfl

theorem ofBool_eqz (b : Bool) : ofBool (ofBool b == 0) = ofBool !b := by
  cases b <;> rfl

/-- A branch on a condition. -/
theorem run_brIf_false {depth : Nat} {b : Bool} (hb : b = false)
    (h : Runs env is ⟨L, c, st, m⟩ r) :
    Runs env (.brIf depth :: is) ⟨L, c, ofBool b :: st, m⟩ r := by
  subst hb
  exact .brIf_zero rfl h

theorem run_brIf_true {depth : Nat} {b : Bool} (hb : b = true) :
    Runs env (.brIf depth :: is) ⟨L, c, ofBool b :: st, m⟩ (.branch depth, ⟨L, c, st, m⟩) := by
  subst hb
  exact .brIf_taken rfl (by decide)

end

/-! ## Words in memory -/

namespace Memory

variable {m : Memory}

@[simp] theorem size_storeWord (a : Nat) (v : UInt32) : (m.storeWord a v).size = m.size := rfl

theorem byte_storeWord_of_not {a b : Nat} {v : UInt32} (h : b < a ∨ a + 4 ≤ b) :
    (m.storeWord a v).byte b = m.byte b :=
  if_neg (by omega)

theorem word_congr {m m' : Memory} {a : Nat} (h : ∀ b, a ≤ b → b < a + 4 → m.byte b = m'.byte b) :
    m.word a = m'.word a := by
  simp only [word, littleEndian, h a (by omega) (by omega), h (a + 1) (by omega) (by omega),
    h (a + 1 + 1) (by omega) (by omega), h (a + 1 + 1 + 1) (by omega) (by omega)]

theorem word_storeWord_of_not {a b : Nat} {v : UInt32} (h : b + 4 ≤ a ∨ a + 4 ≤ b) :
    (m.storeWord a v).word b = m.word b :=
  word_congr fun _ _ _ => byte_storeWord_of_not (by omega)

theorem word_storeWord (a : Nat) (v : UInt32) : (m.storeWord a v).word a = v := by
  have hbyte : ∀ k < 4, ((m.storeWord a v).byte (a + k)).toNat = v.toNat / 256 ^ k % 256 := by
    intro k hk
    have hin : a ≤ a + k ∧ a + k < a + 4 := by omega
    change (if a ≤ a + k ∧ a + k < a + 4 then byteOf v (a + k - a) else _).toNat = _
    rw [if_pos hin, Nat.add_sub_cancel_left, byteOf, UInt8.toNat_ofNat']
  have h0 := hbyte 0 (by omega)
  have h1 := hbyte 1 (by omega)
  have h2 := hbyte 2 (by omega)
  have h3 := hbyte 3 (by omega)
  have hv := v.toNat_lt
  have hvalue : (m.storeWord a v).littleEndian a 4 = v.toNat := by
    simp only [littleEndian]
    rw [Nat.add_zero] at h0
    rw [h0, h1, show a + 1 + 1 = a + 2 from rfl, h2, show a + 2 + 1 = a + 3 from rfl, h3]
    omega
  rw [word, hvalue, UInt32.ofNat_toNat]

def copy (m : Memory) (dst src n : Nat) : Memory where
  size := m.size
  byte b := if dst ≤ b ∧ b < dst + n then m.byte (src + (b - dst)) else m.byte b
  size_le := m.size_le

theorem byte_copy {dst src n i : Nat} (h : i < n) :
    (m.copy dst src n).byte (dst + i) = m.byte (src + i) := by
  have hin : dst ≤ dst + i ∧ dst + i < dst + n := by omega
  change (if dst ≤ dst + i ∧ dst + i < dst + n then m.byte (src + (dst + i - dst)) else _) = _
  rw [if_pos hin, Nat.add_sub_cancel_left]

theorem byte_copy_of_not {dst src n b : Nat} (h : b < dst ∨ dst + n ≤ b) :
    (m.copy dst src n).byte b = m.byte b :=
  if_neg (by omega)

end Memory

end Enil.Lib.Wasm
