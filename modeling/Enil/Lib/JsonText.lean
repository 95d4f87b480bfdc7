import Mathlib.Data.List.Nodup

/-!
# JSON texts

The grammar of JSON as two machines: one reads characters into tokens, the other
tokens into a value. Strings are their UTF-16 code units. With `raw`, control
characters may stand unescaped in strings. What a number denotes is left to a
parameter. No code unit of a string is lost on the way: the value holds those of
the tokens (`parse_units`).
-/

namespace Enil.Lib.JsonText

/-! ## Tokens -/

/-- The UTF-16 code units of a character. -/
def units (c : Char) : List Nat :=
  if c.toNat < 0x10000 then [c.toNat]
  else [0xD800 + (c.toNat - 0x10000) / 0x400, 0xDC00 + (c.toNat - 0x10000) % 0x400]

theorem units_pos (c : Char) : 1 ≤ (units c).length := by
  unfold units
  split <;> simp

theorem units_of_lt {c : Char} (h : c.toNat < 0x10000) : units c = [c.toNat] := if_pos h

inductive Token where
  /-- One of `[`, `]`, `\x7b`, `\x7d`, `,` and `:`. -/
  | punct (c : Char)
  | str (s : List Nat)
  /-- A number, or one of `true`, `false` and `null`. -/
  | word (w : List Char)
  deriving DecidableEq

/-- Where in a token the next character stands. -/
inductive State where
  | between
  | string (s : List Nat)
  /-- After a backslash. -/
  | escape (s : List Nat)
  /-- After `\u`, with so many digits still to come. -/
  | hex (s : List Nat) (digits n : Nat)
  | word (w : List Char)
  deriving DecidableEq

def isBlank (c : Char) : Bool := c == ' ' || c == '\t' || c == '\n' || c == '\r'

def isPunct (c : Char) : Bool :=
  c == '[' || c == ']' || c == '\x7b' || c == '\x7d' || c == ',' || c == ':'

def isWord (c : Char) : Bool := c.isAlphanum || c == '-' || c == '+' || c == '.'

def hexDigit (c : Char) : Option Nat :=
  if c.isDigit then some (c.toNat - 48)
  else if 97 ≤ c.toNat ∧ c.toNat ≤ 102 then some (c.toNat - 87)
  else if 65 ≤ c.toNat ∧ c.toNat ≤ 70 then some (c.toNat - 55)
  else none

/-- What a backslash and this character stand for. -/
def escaped (c : Char) : Option Nat :=
  match c with
  | '\x22' => some 34
  | '\\' => some 92
  | '/' => some 47
  | 'b' => some 8
  | 'f' => some 12
  | 'n' => some 10
  | 'r' => some 13
  | 't' => some 9
  | _ => none

/-- A character outside of strings that continues no word. -/
def outside (c : Char) : Option (State × List Token) :=
  if c = '\x22' then some (.string [], [])
  else if isBlank c then some (.between, [])
  else if isPunct c then some (.between, [.punct c])
  else if isWord c then some (.word [c], [])
  else none

def step (raw : Bool) : State → Char → Option (State × List Token)
  | .between, c => outside c
  | .word w, c =>
    if isWord c then some (.word (w ++ [c]), [])
    else (outside c).map fun r => (r.1, .word w :: r.2)
  | .string s, c =>
    if c = '\x22' then some (.between, [.str s])
    else if c = '\\' then some (.escape s, [])
    else if c.toNat < 0x20 ∧ raw = false then none
    else some (.string (s ++ units c), [])
  | .escape s, c =>
    if c = 'u' then some (.hex s 4 0, []) else (escaped c).map fun n => (.string (s ++ [n]), [])
  | .hex s digits n, c => (hexDigit c).map fun d =>
    if digits ≤ 1 then (.string (s ++ [16 * n + d]), []) else (.hex s (digits - 1) (16 * n + d), [])

def run (raw : Bool) : State → List Char → Option (State × List Token)
  | q, [] => some (q, [])
  | q, c :: cs =>
    (step raw q c).bind fun r => (run raw r.1 cs).map fun r' => (r'.1, r.2 ++ r'.2)

/-- The token that the end of the text ends. -/
def finish : State → Option (List Token)
  | .between => some []
  | .word w => some [.word w]
  | _ => none

def tokens (raw : Bool) (cs : List Char) : Option (List Token) :=
  (run raw .between cs).bind fun r => (finish r.1).map (r.2 ++ ·)

section

variable {raw : Bool} {q q₁ q₂ : State} {c : Char} {cs ds : List Char} {ts us : List Token}

theorem run_cons_iff {r : State × List Token} :
    run raw q (c :: cs) = some r ↔ ∃ q₁ us vs,
      step raw q c = some (q₁, us) ∧ run raw q₁ cs = some (r.1, vs) ∧ r.2 = us ++ vs := by
  simp only [run, Option.bind_eq_some_iff, Option.map_eq_some_iff, Prod.exists]
  constructor
  · rintro ⟨q₁, us, h, q₂, vs, h', rfl⟩
    exact ⟨q₁, us, vs, h, h', rfl⟩
  · rintro ⟨q₁, us, vs, h, h', he⟩
    exact ⟨q₁, us, h, r.1, vs, h', by rw [← he]⟩

theorem run_append_iff {r : State × List Token} :
    run raw q (cs ++ ds) = some r ↔ ∃ q₁ us vs,
      run raw q cs = some (q₁, us) ∧ run raw q₁ ds = some (r.1, vs) ∧ r.2 = us ++ vs := by
  induction cs generalizing q r with
  | nil =>
    constructor
    · intro h
      exact ⟨q, [], r.2, rfl, h, rfl⟩
    · rintro ⟨q₁, us, vs, h, h', he⟩
      obtain ⟨rfl, rfl⟩ := Prod.mk.inj (Option.some.inj h)
      rw [List.nil_append] at he ⊢
      rw [h', ← he]
  | cons c cs ih =>
    rw [List.cons_append, run_cons_iff]
    constructor
    · rintro ⟨q₁, us, vs, hc, h, he⟩
      obtain ⟨q₂, us', vs', hcs, hds, rfl⟩ := ih.mp h
      exact ⟨q₂, us ++ us', vs', run_cons_iff.mpr ⟨q₁, us, us', hc, hcs, rfl⟩, hds,
        by rw [he, List.append_assoc]⟩
    · rintro ⟨q₂, ws, vs', h, hds, he⟩
      obtain ⟨q₁, us, us', hc, hcs, rfl⟩ := run_cons_iff.mp h
      exact ⟨q₁, us, us' ++ vs', hc, ih.mpr ⟨q₂, us', vs', hcs, hds, rfl⟩,
        by rw [he, List.append_assoc]⟩

theorem run_singleton : run raw q [c] = step raw q c := by
  simp only [run, Option.map_some, List.append_nil]
  cases step raw q c <;> rfl

end

/-! ## Values -/

inductive Value (ν : Type) where
  | null
  | bool (b : Bool)
  | num (n : ν)
  | str (s : List Nat)
  | arr (items : List (Value ν))
  | obj (members : List (List Nat × Value ν))

/-- An exponent, which may be missing. -/
def isExponent : List Char → Bool
  | [] => true
  | c :: cs =>
    let digits := match cs with
      | '+' :: ds => ds
      | '-' :: ds => ds
      | ds => ds
    (c == 'e' || c == 'E') && !digits.isEmpty && digits.all Char.isDigit

def isNumber (w : List Char) : Bool :=
  let w := match w with
    | '-' :: cs => cs
    | cs => cs
  let whole := w.takeWhile Char.isDigit
  !whole.isEmpty && (whole.length == 1 || whole.head? != some '0') &&
    match w.dropWhile Char.isDigit with
    | '.' :: cs => !(cs.takeWhile Char.isDigit).isEmpty && isExponent (cs.dropWhile Char.isDigit)
    | cs => isExponent cs

variable {ν : Type} (number : List Char → ν)

/-- The value of a word. -/
def scalar (w : List Char) : Option (Value ν) :=
  if w = ['n', 'u', 'l', 'l'] then some .null
  else if w = ['t', 'r', 'u', 'e'] then some (.bool true)
  else if w = ['f', 'a', 'l', 's', 'e'] then some (.bool false)
  else if isNumber w then some (.num (number w))
  else none

/-- What stands open around the next value: the items before it, or the members
before it and its name. -/
inductive Frame (ν : Type) where
  | element (before : List (Value ν))
  | member (before : List (List Nat × Value ν)) (name : List Nat)

inductive Expect (ν : Type) where
  | value (stack : List (Frame ν))
  /-- A value or `]`. -/
  | first (stack : List (Frame ν))
  | name (before : List (List Nat × Value ν)) (stack : List (Frame ν))
  /-- A name or `\x7d`. -/
  | firstName (stack : List (Frame ν))
  | colon (before : List (List Nat × Value ν)) (name : List Nat) (stack : List (Frame ν))
  /-- A value is complete. -/
  | after (v : Value ν) (stack : List (Frame ν))

/-- A token that begins a value. -/
def start (stack : List (Frame ν)) : Token → Option (Expect ν)
  | .punct '[' => some (.first stack)
  | .punct '\x7b' => some (.firstName stack)
  | .punct _ => none
  | .str s => some (.after (.str s) stack)
  | .word w => (scalar number w).map (.after · stack)

def shift : Expect ν → Token → Option (Expect ν)
  | .value stack, t => start number stack t
  | .first stack, .punct ']' => some (.after (.arr []) stack)
  | .first stack, t => start number (.element [] :: stack) t
  | .firstName stack, .punct '\x7d' => some (.after (.obj []) stack)
  | .firstName stack, .str s => some (.colon [] s stack)
  | .name before stack, .str s => some (.colon before s stack)
  | .colon before s stack, .punct ':' => some (.value (.member before s :: stack))
  | .after v (.element before :: stack), .punct ',' =>
    some (.value (.element (before ++ [v]) :: stack))
  | .after v (.element before :: stack), .punct ']' => some (.after (.arr (before ++ [v])) stack)
  | .after v (.member before s :: stack), .punct ',' => some (.name (before ++ [(s, v)]) stack)
  | .after v (.member before s :: stack), .punct '\x7d' =>
    some (.after (.obj (before ++ [(s, v)])) stack)
  | _, _ => none

def shifts : Expect ν → List Token → Option (Expect ν)
  | e, [] => some e
  | e, t :: ts => (shift number e t).bind fun e' => shifts e' ts

def complete : Expect ν → Option (Value ν)
  | .after v [] => some v
  | _ => none

def parse (ts : List Token) : Option (Value ν) := (shifts number (.value []) ts).bind complete

/-- The value a text denotes, with every member of its objects. -/
def read (raw : Bool) (cs : List Char) : Option (Value ν) := (tokens raw cs).bind (parse number)

/-! ## The code units of a value -/

def Token.units : Token → List Nat
  | .str s => s
  | _ => []

mutual

/-- The strings and the names of a value, in order. -/
def Value.units : Value ν → List Nat
  | .str s => s
  | .arr items => itemsUnits items
  | .obj members => membersUnits members
  | .null | .bool _ | .num _ => []

def itemsUnits : List (Value ν) → List Nat
  | [] => []
  | v :: vs => v.units ++ itemsUnits vs

def membersUnits : List (List Nat × Value ν) → List Nat
  | [] => []
  | (s, v) :: ms => s ++ v.units ++ membersUnits ms

end

theorem itemsUnits_concat (vs : List (Value ν)) (v : Value ν) :
    itemsUnits (vs ++ [v]) = itemsUnits vs ++ v.units := by
  induction vs with
  | nil => rw [List.nil_append, itemsUnits, itemsUnits, itemsUnits, List.append_nil, List.nil_append]
  | cons w vs ih => rw [List.cons_append, itemsUnits, itemsUnits, ih, List.append_assoc]

theorem membersUnits_concat (ms : List (List Nat × Value ν)) (s : List Nat) (v : Value ν) :
    membersUnits (ms ++ [(s, v)]) = membersUnits ms ++ s ++ v.units := by
  induction ms with
  | nil =>
    rw [List.nil_append, membersUnits, membersUnits, membersUnits, List.append_nil, List.nil_append]
  | cons m ms ih =>
    obtain ⟨s', v'⟩ := m
    rw [List.cons_append, membersUnits, membersUnits, ih]
    simp only [List.append_assoc]

def Frame.units : Frame ν → List Nat
  | .element before => itemsUnits before
  | .member before name => membersUnits before ++ name

def stackUnits : List (Frame ν) → List Nat
  | [] => []
  | f :: fs => stackUnits fs ++ f.units

def Expect.units : Expect ν → List Nat
  | .value stack | .first stack | .firstName stack => stackUnits stack
  | .name before stack => stackUnits stack ++ membersUnits before
  | .colon before s stack => stackUnits stack ++ membersUnits before ++ s
  | .after v stack => stackUnits stack ++ v.units

theorem scalar_units {w : List Char} {v : Value ν} (h : scalar number w = some v) :
    v.units = [] := by
  unfold scalar at h
  split_ifs at h <;> cases h <;> rw [Value.units]

theorem start_units {stack : List (Frame ν)} {t : Token} {e : Expect ν}
    (h : start number stack t = some e) : e.units = stackUnits stack ++ t.units := by
  unfold start at h
  split at h
  · cases h
    simp only [Expect.units, Token.units, List.append_nil]
  · cases h
    simp only [Expect.units, Token.units, List.append_nil]
  · cases h
  · cases h
    rw [Expect.units, Value.units, Token.units]
  · obtain ⟨v, hv, rfl⟩ := Option.map_eq_some_iff.mp h
    simp only [Expect.units, scalar_units number hv, Token.units]

theorem shift_units {e e' : Expect ν} {t : Token} (h : shift number e t = some e') :
    e'.units = e.units ++ t.units := by
  unfold shift at h
  split at h
  · exact start_units number h
  · cases h
    simp only [Expect.units, Value.units, itemsUnits, Token.units]
  · rw [start_units number h]
    simp only [Expect.units, stackUnits, Frame.units, itemsUnits, List.append_nil]
  · cases h
    simp only [Expect.units, Value.units, membersUnits, Token.units]
  · cases h
    simp only [Expect.units, membersUnits, Token.units, List.append_nil]
  · cases h
    simp only [Expect.units, Token.units]
  · cases h
    simp only [Expect.units, stackUnits, Frame.units, Token.units, List.append_nil,
      List.append_assoc]
  · cases h
    simp only [Expect.units, stackUnits, Frame.units, Token.units, itemsUnits_concat,
      List.append_nil, List.append_assoc]
  · cases h
    simp only [Expect.units, stackUnits, Frame.units, Value.units, Token.units,
      itemsUnits_concat, List.append_nil, List.append_assoc]
  · cases h
    simp only [Expect.units, stackUnits, Frame.units, Token.units, membersUnits_concat,
      List.append_nil, List.append_assoc]
  · cases h
    simp only [Expect.units, stackUnits, Frame.units, Value.units, Token.units,
      membersUnits_concat, List.append_nil, List.append_assoc]
  · cases h

theorem shifts_units {e e' : Expect ν} {ts : List Token} (h : shifts number e ts = some e') :
    e'.units = e.units ++ ts.flatMap Token.units := by
  induction ts generalizing e with
  | nil =>
    cases h
    rw [List.flatMap_nil, List.append_nil]
  | cons t ts ih =>
    obtain ⟨e₁, h₁, h₂⟩ := Option.bind_eq_some_iff.mp h
    rw [ih h₂, shift_units number h₁, List.flatMap_cons, List.append_assoc]

/-- A value has the code units of its tokens. -/
theorem parse_units {ts : List Token} {v : Value ν} (h : parse number ts = some v) :
    v.units = ts.flatMap Token.units := by
  obtain ⟨e, he, hc⟩ := Option.bind_eq_some_iff.mp h
  have hu := shifts_units number he
  unfold complete at hc
  split at hc
  · cases hc
    exact hu
  · cases hc

/-! ## Repeated names -/

mutual

/-- Of the members of one name the last one stays. -/
def Value.lastWins : Value ν → Value ν
  | .arr items => .arr (lastItems items)
  | .obj members => .obj (lastMembers members)
  | .null => .null
  | .bool b => .bool b
  | .num n => .num n
  | .str s => .str s

def lastItems : List (Value ν) → List (Value ν)
  | [] => []
  | v :: vs => v.lastWins :: lastItems vs

def lastMembers : List (List Nat × Value ν) → List (List Nat × Value ν)
  | [] => []
  | (s, v) :: ms =>
    if s ∈ ms.map Prod.fst then lastMembers ms else (s, v.lastWins) :: lastMembers ms

end

mutual

/-- No object of the value repeats a name. -/
def Value.NamesUnique : Value ν → Prop
  | .arr items => ItemsUnique items
  | .obj members => MembersUnique members
  | .null | .bool _ | .num _ | .str _ => True

def ItemsUnique : List (Value ν) → Prop
  | [] => True
  | v :: vs => v.NamesUnique ∧ ItemsUnique vs

def MembersUnique : List (List Nat × Value ν) → Prop
  | [] => True
  | (s, v) :: ms => s ∉ ms.map Prod.fst ∧ v.NamesUnique ∧ MembersUnique ms

end

mutual

theorem Value.lastWins_of_unique : ∀ {v : Value ν}, v.NamesUnique → v.lastWins = v
  | .arr items, h => by rw [Value.lastWins, lastItems_of_unique h]
  | .obj members, h => by rw [Value.lastWins, lastMembers_of_unique h]
  | .null, _ | .bool _, _ | .num _, _ | .str _, _ => by rw [Value.lastWins]

theorem lastItems_of_unique : ∀ {vs : List (Value ν)}, ItemsUnique vs → lastItems vs = vs
  | [], _ => by rw [lastItems]
  | v :: vs, h => by
    rw [ItemsUnique] at h
    rw [lastItems, Value.lastWins_of_unique h.1, lastItems_of_unique h.2]

theorem lastMembers_of_unique : ∀ {ms : List (List Nat × Value ν)}, MembersUnique ms →
    lastMembers ms = ms
  | [], _ => by rw [lastMembers]
  | (s, v) :: ms, h => by
    rw [MembersUnique] at h
    rw [lastMembers, if_neg h.1, Value.lastWins_of_unique h.2.1, lastMembers_of_unique h.2.2]

end

mutual

theorem Value.length_lastWins : ∀ v : Value ν, v.lastWins.units.length ≤ v.units.length
  | .arr items => by
    rw [Value.lastWins, Value.units, Value.units]
    exact length_lastItems items
  | .obj members => by
    rw [Value.lastWins, Value.units, Value.units]
    exact length_lastMembers members
  | .null | .bool _ | .num _ | .str _ => Nat.le_of_eq (by rw [Value.lastWins])

theorem length_lastItems : ∀ vs : List (Value ν),
    (itemsUnits (lastItems vs)).length ≤ (itemsUnits vs).length
  | [] => Nat.le_refl _
  | v :: vs => by
    have hv := v.length_lastWins
    have hvs := length_lastItems vs
    rw [lastItems, itemsUnits, itemsUnits, List.length_append, List.length_append]
    omega

theorem length_lastMembers : ∀ ms : List (List Nat × Value ν),
    (membersUnits (lastMembers ms)).length ≤ (membersUnits ms).length
  | [] => Nat.le_refl _
  | (s, v) :: ms => by
    have hv := v.length_lastWins
    have hms := length_lastMembers ms
    rw [lastMembers]
    split
    · simp only [membersUnits, List.length_append]
      omega
    · simp only [membersUnits, List.length_append]
      omega

end

end Enil.Lib.JsonText
