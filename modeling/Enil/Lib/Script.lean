import Enil.Lib.CType
import Enil.Lib.Transducer
import Mathlib.Algebra.Ring.Nat

/-!
# Calls of ECMAScript 3

A program that is one call, read as the third edition of the language has it: the source is
a sequence of 16-bit code units, format controls are taken out of it first, and a string
literal ends at no line terminator. Of the tokens only those are read that occur in such
calls, and of the arguments only string and number literals, `null` and arrays of strings.
-/

namespace Enil.Lib.Script

/-- The UTF-16 code units of a character. -/
def unitsOfChar (c : Char) : List Nat :=
  if c.toNat < 0x10000 then [c.toNat]
  else [0xd800 + (c.toNat - 0x10000) / 0x400, 0xdc00 + (c.toNat - 0x10000) % 0x400]

def codeUnits (s : String) : List Nat := s.toList.flatMap unitsOfChar

/-! ## Tokens -/

inductive Token where
  | name (units : List Nat)
  | null
  | num (n : Nat)
  | str (units : List Nat)
  | punct (c : Nat)
  deriving DecidableEq, Repr

def isLineTerminator (c : Nat) : Bool := c == 10 || c == 13 || c == 0x2028 || c == 0x2029

/-- WhiteSpace, and the line terminators between tokens. -/
def isWhiteSpace (c : Nat) : Bool :=
  c == 9 || c == 11 || c == 12 || c == 32 || c == 160 || isLineTerminator c

def isPunctuator (c : Nat) : Bool := c == 40 || c == 41 || c == 44 || c == 91 || c == 93

/-- IdentifierPart, of the ASCII characters. -/
def isWordPart (c : Nat) : Bool :=
  isDigit c || (65 ≤ c && c ≤ 90) || (97 ≤ c && c ≤ 122) || c == 36 || c == 95

def hexDigit (c : Nat) : Option Nat :=
  if isDigit c then some (c - 48)
  else if 65 ≤ c ∧ c ≤ 70 then some (c - 55)
  else if 97 ≤ c ∧ c ≤ 102 then some (c - 87)
  else none

/-- The words that are no identifiers, but for `null`. -/
def reservedWords : List String :=
  ["break", "case", "catch", "continue", "default", "delete", "do", "else", "finally", "for",
    "function", "if", "in", "instanceof", "new", "return", "switch", "this", "throw", "try",
    "typeof", "var", "void", "while", "with", "true", "false", "abstract", "boolean", "byte",
    "char", "class", "const", "debugger", "double", "enum", "export", "extends", "final", "float",
    "goto", "implements", "import", "int", "interface", "long", "native", "package", "private",
    "protected", "public", "short", "static", "super", "synchronized", "throws", "transient",
    "volatile"]

/-- A word as a token; a number has no leading zero. -/
def wordToken (word : List Nat) : Option Token :=
  match word with
  | [] => none
  | c :: cs =>
    if isDigit c then
      if cs.all isDigit && (c != 48 || cs.isEmpty) then
        some (.num (word.foldl (fun n d => 10 * n + (d - 48)) 0))
      else none
    else if word = codeUnits "null" then some .null
    else if reservedWords.any fun w => codeUnits w = word then none
    else some (.name word)

/-- Where a lexer is: between tokens, in a word, in a string literal, behind its backslash,
behind `\0`, or in a hexadecimal escape with so many digits to come. -/
inductive Lexing where
  | start
  | word (acc : List Nat)
  | str (acc : List Nat)
  | esc (acc : List Nat)
  | zero (acc : List Nat)
  | hex (acc : List Nat) (value left : Nat)
  deriving DecidableEq

def startStep (c : Nat) : Option (List Token × Lexing) :=
  if isWhiteSpace c then some ([], .start)
  else if c = 34 then some ([], .str [])
  else if isPunctuator c then some ([.punct c], .start)
  else if isWordPart c then some ([], .word [c])
  else none

def strStep (acc : List Nat) (c : Nat) : Option (List Token × Lexing) :=
  if c = 34 then some ([.str acc], .start)
  else if c = 92 then some ([], .esc acc)
  else if isLineTerminator c then none
  else some ([], .str (acc ++ [c]))

def singleEscape (c : Nat) : Option Nat :=
  if c = 98 then some 8
  else if c = 116 then some 9
  else if c = 110 then some 10
  else if c = 118 then some 11
  else if c = 102 then some 12
  else if c = 114 then some 13
  else if c = 34 ∨ c = 39 ∨ c = 92 then some c
  else none

def escStep (acc : List Nat) (c : Nat) : Option (List Token × Lexing) :=
  match singleEscape c with
  | some v => some ([], .str (acc ++ [v]))
  | none =>
    if c = 120 then some ([], .hex acc 0 2)
    else if c = 117 then some ([], .hex acc 0 4)
    else if c = 48 then some ([], .zero acc)
    else if isDigit c || isLineTerminator c then none
    else some ([], .str (acc ++ [c]))

def hexStep (acc : List Nat) (value left c : Nat) : Option (List Token × Lexing) :=
  (hexDigit c).map fun d =>
    if left ≤ 1 then ([], .str (acc ++ [16 * value + d])) else ([], .hex acc (16 * value + d) (left - 1))

def lexer : Transducer Lexing Nat Token where
  step
    | .start, c => startStep c
    | .word acc, c =>
      if isWordPart c then some ([], .word (acc ++ [c]))
      else (wordToken acc).bind fun t => (startStep c).map fun r => (t :: r.1, r.2)
    | .str acc, c => strStep acc c
    | .esc acc, c => escStep acc c
    | .zero acc, c => if isDigit c then none else strStep (acc ++ [0]) c
    | .hex acc value left, c => hexStep acc value left c
  finish
    | .start => some []
    | .word acc => (wordToken acc).map fun t => [t]
    | _ => none

/-! ## Arguments -/

inductive Arg where
  | str (units : List Nat)
  | null
  | num (n : Nat)
  | arr (elements : List (List Nat))
  deriving DecidableEq, Repr

structure Call where
  name : List Nat
  args : List Arg
  deriving DecidableEq, Repr

/-- Where the parser of arguments is: in front of an argument (of the first one or of another),
behind one, in front of an element of an array, behind one, or behind the call. -/
inductive Parsing where
  | arg (first : Bool)
  | sep
  | element (acc : List (List Nat))
  | elementSep (acc : List (List Nat))
  | done

def parser : Transducer Parsing Token Arg where
  step
    | .arg _, .str s => some ([.str s], .sep)
    | .arg _, .null => some ([.null], .sep)
    | .arg _, .num n => some ([.num n], .sep)
    | .arg first, .punct c =>
      if c = 91 then some ([], .element [])
      else if c = 41 ∧ first = true then some ([], .done)
      else none
    | .sep, .punct c =>
      if c = 44 then some ([], .arg false) else if c = 41 then some ([], .done) else none
    | .element acc, .str s => some ([], .elementSep (acc ++ [s]))
    | .element acc, .punct c => if c = 93 ∧ acc = [] then some ([.arr []], .sep) else none
    | .elementSep acc, .punct c =>
      if c = 44 then some ([], .element acc) else if c = 93 then some ([.arr acc], .sep) else none
    | _, _ => none
  finish
    | .done => some []
    | _ => none

def parseCall : List Token → Option Call
  | .name name :: .punct c :: ts =>
    if c = 40 then (parser.scan (.arg true) ts).map (Call.mk name) else none
  | _ => none

/-- The call that a source without format controls is. -/
def readCall (units : List Nat) : Option Call := (lexer.scan .start units).bind parseCall

/-- The format controls that an engine takes out of the source. -/
structure FormatControls where
  isFormat : Nat → Bool
  ascii : ∀ c < 128, isFormat c = false

def FormatControls.strip (F : FormatControls) (units : List Nat) : List Nat :=
  units.filter fun c => !F.isFormat c

/-- What an engine makes of a source. -/
def evalCall (F : FormatControls) (units : List Nat) : Option Call := readCall (F.strip units)

/-! ## Writing -/

def escapeUnit (c : Nat) : List Nat :=
  if c = 92 then [92, 92]
  else if c = 34 then [92, 34]
  else if c = 10 then [92, 110]
  else if c = 13 then [92, 114]
  else [c]

def quote (s : List Nat) : List Nat := 34 :: s.flatMap escapeUnit ++ [34]

/-- What may stand in a literal unescaped. -/
def Closed (s : List Nat) : Prop := ∀ c ∈ s, c ≠ 0x2028 ∧ c ≠ 0x2029

instance (s : List Nat) : Decidable (Closed s) :=
  inferInstanceAs (Decidable (∀ c ∈ s, _))

theorem strStep_plain {c : Nat} (h₁ : c ≠ 34) (h₂ : c ≠ 92) (acc : List Nat) :
    lexer.step (.str acc) c = if isLineTerminator c then none else some ([], .str (acc ++ [c])) := by
  show strStep acc c = _
  unfold strStep
  rw [if_neg h₁, if_neg h₂]

theorem advance_escapeUnit {c : Nat} (hc : c ≠ 0x2028 ∧ c ≠ 0x2029) (acc rest : List Nat) :
    lexer.advance (.str acc) (escapeUnit c ++ rest) =
      lexer.advance (.str (acc ++ [c])) rest := by
  unfold escapeUnit
  split
  · subst c
    exact (Transducer.advance_quiet rfl _).trans (Transducer.advance_quiet rfl _)
  split
  · subst c
    exact (Transducer.advance_quiet rfl _).trans (Transducer.advance_quiet rfl _)
  split
  · subst c
    exact (Transducer.advance_quiet rfl _).trans (Transducer.advance_quiet rfl _)
  split
  · subst c
    exact (Transducer.advance_quiet rfl _).trans (Transducer.advance_quiet rfl _)
  · rename_i h₁ h₂ h₃ h₄
    refine Transducer.advance_quiet ?_ _
    rw [strStep_plain h₂ h₁, if_neg]
    simp only [isLineTerminator, Bool.or_eq_true, beq_iff_eq]
    omega

theorem advance_escaped {s : List Nat} (hs : Closed s) (acc rest : List Nat) :
    lexer.advance (.str acc) (s.flatMap escapeUnit ++ rest) =
      lexer.advance (.str (acc ++ s)) rest := by
  induction s generalizing acc with
  | nil => rw [List.flatMap_nil, List.nil_append, List.append_nil]
  | cons c s ih =>
    unfold Closed at hs
    rw [List.forall_mem_cons] at hs
    rw [List.flatMap_cons, List.append_assoc, advance_escapeUnit hs.1, ih hs.2, List.append_assoc]
    rfl

/-- A line terminator ends the literal before its closing quote. -/
theorem advance_open {s : List Nat} (hs : ¬ Closed s) (acc rest : List Nat) :
    lexer.advance (.str acc) (s.flatMap escapeUnit ++ rest) = none := by
  induction s generalizing acc with
  | nil => exact absurd (fun c hc => (List.not_mem_nil hc).elim) hs
  | cons c s ih =>
    rw [List.flatMap_cons, List.append_assoc]
    by_cases hc : c ≠ 0x2028 ∧ c ≠ 0x2029
    · rw [advance_escapeUnit hc]
      refine ih (fun hrest => hs ?_) _
      unfold Closed
      rw [List.forall_mem_cons]
      exact ⟨hc, hrest⟩
    · have hcode : c = 0x2028 ∨ c = 0x2029 := by omega
      rcases hcode with rfl | rfl
      · exact Transducer.advance_refused rfl _
      · exact Transducer.advance_refused rfl _

theorem advance_quote {s : List Nat} (hs : Closed s) :
    lexer.advance .start (quote s) = some ([.str s], .start) := by
  unfold quote
  rw [List.cons_append, Transducer.advance_quiet (t := .str []) rfl, advance_escaped hs]
  rfl

theorem advance_quote_open {s : List Nat} (hs : ¬ Closed s) :
    lexer.advance .start (quote s) = none := by
  unfold quote
  rw [List.cons_append, Transducer.advance_quiet (t := .str []) rfl, advance_open hs]

/-- The elements of an array, with what stands between and behind them. -/
def elementsText : List (List Nat) → List Nat
  | [] => [93]
  | [s] => quote s ++ [93]
  | s :: t :: ss => quote s ++ 44 :: elementsText (t :: ss)

def elementTokens : List (List Nat) → List Token
  | [] => [.punct 93]
  | [s] => [.str s, .punct 93]
  | s :: t :: ss => .str s :: .punct 44 :: elementTokens (t :: ss)

/-- An argument; of the numbers, those of one digit. -/
def Arg.text : Arg → List Nat
  | .str s => quote s
  | .null => codeUnits "null"
  | .num n => [48 + n]
  | .arr ss => 91 :: elementsText ss

def Arg.tokens : Arg → List Token
  | .str s => [.str s]
  | .null => [.null]
  | .num n => [.num n]
  | .arr ss => .punct 91 :: elementTokens ss

/-- The strings in an argument. -/
def Arg.strings : Arg → List (List Nat)
  | .str s => [s]
  | .arr ss => ss
  | _ => []

/-- The numbers that `Arg.text` writes. -/
def Arg.Short : Arg → Prop
  | .num n => n < 10
  | _ => True

def argsText : List Arg → List Nat
  | [] => [41]
  | [a] => a.text ++ [41]
  | a :: b :: as => a.text ++ 44 :: argsText (b :: as)

def argsTokens : List Arg → List Token
  | [] => [.punct 41]
  | [a] => a.tokens ++ [.punct 41]
  | a :: b :: as => a.tokens ++ .punct 44 :: argsTokens (b :: as)

def Call.text (call : Call) : List Nat := call.name ++ 40 :: argsText call.args

def Call.strings (call : Call) : List (List Nat) := call.args.flatMap Arg.strings

/-! ## Reading what was written -/

theorem advance_elements {ss : List (List Nat)} (h : ∀ s ∈ ss, Closed s) :
    lexer.advance .start (elementsText ss) = some (elementTokens ss, .start) := by
  induction ss with
  | nil => rfl
  | cons s ss ih =>
    rw [List.forall_mem_cons] at h
    cases ss with
    | nil =>
      show lexer.advance .start (quote s ++ [93]) = _
      rw [Transducer.advance_append (advance_quote h.1)]
      rfl
    | cons t ss =>
      show lexer.advance .start (quote s ++ 44 :: elementsText (t :: ss)) = _
      rw [Transducer.advance_append (advance_quote h.1), Transducer.advance_cons,
        show lexer.step .start 44 = some ([.punct 44], .start) from rfl, Option.bind_some,
        ih h.2]
      rfl

theorem advance_elements_open {ss : List (List Nat)} (h : ¬ ∀ s ∈ ss, Closed s) :
    lexer.advance .start (elementsText ss) = none := by
  induction ss with
  | nil => exact absurd (fun s hs => (List.not_mem_nil hs).elim) h
  | cons s ss ih =>
    rw [List.forall_mem_cons] at h
    by_cases hs : Closed s
    · have hrest : ¬ ∀ t ∈ ss, Closed t := fun hall => h ⟨hs, hall⟩
      cases ss with
      | nil => exact absurd (fun t ht => (List.not_mem_nil ht).elim) hrest
      | cons t ss =>
        show lexer.advance .start (quote s ++ 44 :: elementsText (t :: ss)) = _
        rw [Transducer.advance_append (advance_quote hs), Transducer.advance_cons,
          show lexer.step .start 44 = some ([.punct 44], .start) from rfl, Option.bind_some,
          ih hrest]
        rfl
    · cases ss with
      | nil => exact Transducer.advance_append_none (advance_quote_open hs) _
      | cons t ss => exact Transducer.advance_append_none (advance_quote_open hs) _

/-- An argument is read with the separator behind it. -/
theorem advance_arg {a : Arg} (h : ∀ s ∈ a.strings, Closed s) (hshort : a.Short) {p : Nat}
    (hp : p = 44 ∨ p = 41) :
    lexer.advance .start (a.text ++ [p]) = some (a.tokens ++ [.punct p], .start) := by
  have hsep : ∀ out : List Token, (lexer.advance .start [p]).map (fun q => (out ++ q.1, q.2)) =
      some (out ++ [.punct p], .start) := by
    rcases hp with rfl | rfl <;> exact fun _ => rfl
  cases a with
  | str s =>
    have hs := h s List.mem_cons_self
    show lexer.advance .start (quote s ++ [p]) = _
    rw [Transducer.advance_append (advance_quote hs)]
    exact hsep _
  | null => rcases hp with rfl | rfl <;> rfl
  | num n =>
    have hdigit : ∀ n < 10, ∀ p ∈ [44, 41], lexer.advance .start [48 + n, p] =
        some ([.num n, .punct p], .start) := by
      decide
    exact hdigit n hshort p (by simpa using hp)
  | arr ss =>
    have hopen : lexer.advance .start (91 :: elementsText ss) =
        some (.punct 91 :: elementTokens ss, .start) := by
      rw [Transducer.advance_cons, show lexer.step .start 91 = some ([.punct 91], .start) from rfl,
        Option.bind_some, show lexer.advance .start (elementsText ss) = _ from advance_elements h]
      rfl
    show lexer.advance .start (91 :: elementsText ss ++ [p]) = _
    rw [Transducer.advance_append hopen]
    exact hsep _

theorem advance_arg_open {a : Arg} (h : ¬ ∀ s ∈ a.strings, Closed s) :
    lexer.advance .start a.text = none := by
  cases a with
  | str s =>
    refine advance_quote_open fun hs => h fun t ht => ?_
    obtain rfl := List.mem_singleton.mp ht
    exact hs
  | null => exact absurd (fun s hs => (List.not_mem_nil hs).elim) h
  | num n => exact absurd (fun s hs => (List.not_mem_nil hs).elim) h
  | arr ss =>
    show lexer.advance .start (91 :: elementsText ss) = none
    rw [Transducer.advance_cons, show lexer.step .start 91 = some ([.punct 91], .start) from rfl,
      Option.bind_some, show lexer.advance .start (elementsText ss) = none from advance_elements_open h]
    rfl

theorem scan_args {as : List Arg} (hne : as ≠ []) (hshort : ∀ a ∈ as, a.Short)
    (h : ∀ a ∈ as, ∀ s ∈ a.strings, Closed s) :
    lexer.scan .start (argsText as) = some (argsTokens as) := by
  induction as with
  | nil => exact absurd rfl hne
  | cons a as ih =>
    rw [List.forall_mem_cons] at h hshort
    cases as with
    | nil =>
      have hread := advance_arg h.1 hshort.1 (.inr rfl)
      show lexer.scan .start (a.text ++ [41]) = _
      unfold Transducer.scan
      rw [hread]
      show some ((a.tokens ++ [.punct 41]) ++ []) = _
      rw [List.append_nil]
      rfl
    | cons b as =>
      have hread := advance_arg h.1 hshort.1 (.inl rfl)
      show lexer.scan .start (a.text ++ 44 :: argsText (b :: as)) = _
      rw [List.append_cons, Transducer.scan_append hread,
        ih (List.cons_ne_nil _ _) hshort.2 h.2]
      show some ((a.tokens ++ [.punct 44]) ++ argsTokens (b :: as)) = _
      rw [List.append_assoc]
      rfl

theorem scan_args_open {as : List Arg} (hshort : ∀ a ∈ as, a.Short)
    (h : ¬ ∀ a ∈ as, ∀ s ∈ a.strings, Closed s) : lexer.scan .start (argsText as) = none := by
  induction as with
  | nil => exact absurd (fun a ha => (List.not_mem_nil ha).elim) h
  | cons a as ih =>
    rw [List.forall_mem_cons] at h hshort
    by_cases ha : ∀ s ∈ a.strings, Closed s
    · have hrest : ¬ ∀ a ∈ as, ∀ s ∈ a.strings, Closed s := fun hall => h ⟨ha, hall⟩
      cases as with
      | nil => exact absurd (fun a ha => (List.not_mem_nil ha).elim) hrest
      | cons b as =>
        show lexer.scan .start (a.text ++ 44 :: argsText (b :: as)) = _
        rw [List.append_cons, Transducer.scan_append (advance_arg ha hshort.1 (.inl rfl)),
          ih hshort.2 hrest]
        rfl
    · cases as with
      | nil => exact Transducer.scan_append_none (advance_arg_open ha) _
      | cons b as => exact Transducer.scan_append_none (advance_arg_open ha) _

/-! ## Parsing what was read -/

theorem parse_elements (ss : List (List Nat)) {acc : List (List Nat)} (h : ss ≠ [] ∨ acc = []) :
    parser.advance (.element acc) (elementTokens ss) = some ([.arr (acc ++ ss)], .sep) := by
  induction ss generalizing acc with
  | nil =>
    obtain rfl : acc = [] := h.resolve_left fun hne => hne rfl
    rfl
  | cons s ss ih =>
    cases ss with
    | nil => rfl
    | cons t ss =>
      show parser.advance (.element acc) (.str s :: .punct 44 :: elementTokens (t :: ss)) = _
      have hcomma : parser.step (.elementSep (acc ++ [s])) (.punct 44) =
          some ([], .element (acc ++ [s])) := rfl
      rw [Transducer.advance_quiet (t := .elementSep (acc ++ [s])) rfl,
        Transducer.advance_quiet hcomma, ih (.inl (List.cons_ne_nil _ _)), List.append_assoc]
      rfl

theorem parse_arg (a : Arg) (first : Bool) :
    parser.advance (.arg first) a.tokens = some ([a], .sep) := by
  cases a with
  | str s => rfl
  | null => rfl
  | num n => rfl
  | arr ss =>
    show parser.advance (.arg first) (.punct 91 :: elementTokens ss) = _
    rw [Transducer.advance_quiet (t := .element []) rfl, parse_elements ss (.inr rfl)]
    rfl

theorem parse_args {as : List Arg} (hne : as ≠ []) (first : Bool) :
    parser.scan (.arg first) (argsTokens as) = some as := by
  induction as generalizing first with
  | nil => exact absurd rfl hne
  | cons a as ih =>
    cases as with
    | nil =>
      show parser.scan (.arg first) (a.tokens ++ [.punct 41]) = _
      rw [Transducer.scan_append (parse_arg a first)]
      rfl
    | cons b as =>
      have hcomma : parser.advance .sep [.punct 44] = some ([], .arg false) := rfl
      show parser.scan (.arg first) (a.tokens ++ .punct 44 :: argsTokens (b :: as)) = _
      rw [Transducer.scan_append (parse_arg a first)]
      show (parser.scan .sep ([.punct 44] ++ argsTokens (b :: as))).map _ = _
      rw [Transducer.scan_append hcomma, ih (List.cons_ne_nil _ _)]
      rfl

/-! ## Calls -/

def IsName (name : List Nat) : Prop :=
  (∀ c ∈ name, isWordPart c = true) ∧ wordToken name = some (.name name)

instance (name : List Nat) : Decidable (IsName name) := inferInstanceAs (Decidable (_ ∧ _))

theorem startStep_word {c : Nat} (h : isWordPart c = true) :
    startStep c = some ([], .word [c]) := by
  have hspace : isWhiteSpace c = false := by
    simp only [isWordPart, isDigit, Bool.or_eq_true, Bool.and_eq_true, decide_eq_true_eq,
      beq_iff_eq] at h
    simp only [isWhiteSpace, isLineTerminator, Bool.or_eq_false_iff, beq_eq_false_iff_ne, ne_eq]
    omega
  have hpunct : isPunctuator c = false := by
    simp only [isWordPart, isDigit, Bool.or_eq_true, Bool.and_eq_true, decide_eq_true_eq,
      beq_iff_eq] at h
    simp only [isPunctuator, Bool.or_eq_false_iff, beq_eq_false_iff_ne, ne_eq]
    omega
  have hquote : c ≠ 34 := by
    rintro rfl
    revert h
    decide
  unfold startStep
  rw [hspace, hpunct, if_neg Bool.false_ne_true, if_neg hquote, if_neg Bool.false_ne_true, if_pos h]

theorem advance_word {acc cs : List Nat} (h : ∀ c ∈ cs, isWordPart c = true) :
    lexer.advance (.word acc) cs = some ([], .word (acc ++ cs)) := by
  induction cs generalizing acc with
  | nil => rw [List.append_nil, Transducer.advance_nil]
  | cons c cs ih =>
    rw [List.forall_mem_cons] at h
    have hstep : lexer.step (.word acc) c = some ([], .word (acc ++ [c])) := by
      show (if _ then _ else _) = _
      rw [if_pos h.1]
    rw [Transducer.advance_quiet hstep, ih h.2, List.append_assoc]
    rfl

theorem advance_name {name : List Nat} (h : IsName name) :
    lexer.advance .start (name ++ [40]) = some ([.name name, .punct 40], .start) := by
  obtain ⟨hparts, htoken⟩ := h
  cases name with
  | nil => cases htoken
  | cons c cs =>
    rw [List.forall_mem_cons] at hparts
    have hstep : lexer.step .start c = some ([], .word [c]) := startStep_word hparts.1
    rw [List.cons_append, Transducer.advance_quiet hstep,
      Transducer.advance_append (advance_word hparts.2), Transducer.advance_cons]
    show ((((wordToken (c :: cs)).bind _).bind _).map _) = _
    rw [htoken]
    rfl

/-- A call with an argument or more is read back, unless a string of it holds a line
terminator. -/
theorem readCall_text {call : Call} (hname : IsName call.name) (hargs : call.args ≠ [])
    (hshort : ∀ a ∈ call.args, a.Short) :
    readCall call.text = if ∀ s ∈ call.strings, Closed s then some call else none := by
  have hstrings : (∀ s ∈ call.strings, Closed s) ↔ ∀ a ∈ call.args, ∀ s ∈ a.strings, Closed s := by
    simp only [Call.strings, List.mem_flatMap, forall_exists_index, and_imp]
    exact ⟨fun h a ha s hs => h s a ha hs, fun h s a ha hs => h a ha s hs⟩
  have htext : call.text = (call.name ++ [40]) ++ argsText call.args := by
    rw [List.append_assoc]
    rfl
  unfold readCall
  rw [htext, Transducer.scan_append (advance_name hname)]
  split
  · rename_i h
    rw [scan_args hargs hshort (hstrings.mp h)]
    show (parser.scan (.arg true) (argsTokens call.args)).map (Call.mk call.name) = _
    rw [parse_args hargs]
    rfl
  · rename_i h
    rw [scan_args_open hshort (mt hstrings.mpr h)]
    rfl

/-! ## Format controls -/

namespace FormatControls

variable (F : FormatControls)

/-- Neither a line terminator nor a format control is in the string. -/
def Keeps (s : List Nat) : Prop := ∀ c ∈ s, c ≠ 0x2028 ∧ c ≠ 0x2029 ∧ F.isFormat c = false

def stripArg : Arg → Arg
  | .str s => .str (F.strip s)
  | .arr ss => .arr (ss.map F.strip)
  | a => a

variable {F}

theorem keeps_iff (s : List Nat) : F.Keeps s ↔ F.strip s = s ∧ Closed s := by
  unfold Keeps strip Closed
  rw [List.filter_eq_self, ← forall₂_and]
  refine forall₂_congr fun c _ => ?_
  rw [Bool.not_eq_true']
  tauto

theorem strip_ascii {s : List Nat} (h : ∀ c ∈ s, c < 128) : F.strip s = s := by
  unfold strip
  rw [List.filter_eq_self]
  intro c hc
  rw [F.ascii c (h c hc)]
  rfl

theorem strip_append (s t : List Nat) : F.strip (s ++ t) = F.strip s ++ F.strip t :=
  List.filter_append ..

theorem strip_cons {c : Nat} (h : c < 128) (s : List Nat) : F.strip (c :: s) = c :: F.strip s := by
  unfold strip
  rw [List.filter_cons_of_pos]
  rw [F.ascii c h]
  rfl

theorem strip_escapeUnit (c : Nat) : F.strip (escapeUnit c) = (F.strip [c]).flatMap escapeUnit := by
  have hcases : c = 92 ∨ c = 34 ∨ c = 10 ∨ c = 13 ∨ escapeUnit c = [c] := by
    unfold escapeUnit
    split_ifs <;> simp_all
  rcases hcases with rfl | rfl | rfl | rfl | hself
  · rw [strip_ascii (by decide), strip_ascii (by decide)]
    rfl
  · rw [strip_ascii (by decide), strip_ascii (by decide)]
    rfl
  · rw [strip_ascii (by decide), strip_ascii (by decide)]
    rfl
  · rw [strip_ascii (by decide), strip_ascii (by decide)]
    rfl
  · rw [hself]
    unfold strip
    rw [List.filter_cons]
    split
    · rw [List.filter_nil, List.flatMap_singleton, hself]
    · rfl

theorem strip_escaped (s : List Nat) :
    F.strip (s.flatMap escapeUnit) = (F.strip s).flatMap escapeUnit := by
  induction s with
  | nil => rfl
  | cons c s ih =>
    rw [List.flatMap_cons, strip_append, strip_escapeUnit, ih, ← List.flatMap_append, ← strip_append]
    rfl

theorem strip_quote (s : List Nat) : F.strip (quote s) = quote (F.strip s) := by
  unfold quote
  rw [strip_append, strip_cons (by decide), strip_escaped, strip_ascii (s := [34]) (by decide)]

theorem strip_elements (ss : List (List Nat)) :
    F.strip (elementsText ss) = elementsText (ss.map F.strip) := by
  induction ss with
  | nil => exact strip_ascii (by decide)
  | cons s ss ih =>
    cases ss with
    | nil =>
      show F.strip (quote s ++ [93]) = quote (F.strip s) ++ [93]
      rw [strip_append, strip_quote, strip_ascii (s := [93]) (by decide)]
    | cons t ss =>
      show F.strip (quote s ++ 44 :: elementsText (t :: ss)) = _
      rw [strip_append, strip_quote, strip_cons (by omega), ih]
      rfl

theorem strip_arg {a : Arg} (h : a.Short) : F.strip a.text = (F.stripArg a).text := by
  cases a with
  | str s => exact strip_quote s
  | null => exact @strip_ascii F [110, 117, 108, 108] (by decide)
  | num n =>
    refine strip_ascii fun c hc => ?_
    have hn : n < 10 := h
    obtain rfl := List.mem_singleton.mp hc
    omega
  | arr ss =>
    show F.strip (91 :: elementsText ss) = 91 :: elementsText (ss.map F.strip)
    rw [strip_cons (by omega), strip_elements]

theorem strip_args {as : List Arg} (h : ∀ a ∈ as, a.Short) :
    F.strip (argsText as) = argsText (as.map F.stripArg) := by
  induction as with
  | nil => exact strip_ascii (by decide)
  | cons a as ih =>
    rw [List.forall_mem_cons] at h
    cases as with
    | nil =>
      show F.strip (a.text ++ [41]) = (F.stripArg a).text ++ [41]
      rw [strip_append, strip_arg h.1, strip_ascii (s := [41]) (by decide)]
    | cons b as =>
      show F.strip (a.text ++ 44 :: argsText (b :: as)) = _
      rw [strip_append, strip_arg h.1, strip_cons (by omega), ih h.2]
      rfl

end FormatControls

theorem IsName.ascii {name : List Nat} (h : IsName name) : ∀ c ∈ name, c < 128 := by
  intro c hc
  have hpart := h.1 c hc
  simp only [isWordPart, isDigit, Bool.or_eq_true, Bool.and_eq_true, decide_eq_true_eq,
    beq_iff_eq] at hpart
  omega

theorem map_eq_self_iff {α : Type} (f : α → α) (l : List α) :
    l.map f = l ↔ ∀ a ∈ l, f a = a := by
  conv_lhs => rw [← List.map_id l, List.map_map]
  exact List.map_inj_left

theorem stripArg_eq_iff (F : FormatControls) (a : Arg) :
    F.stripArg a = a ↔ ∀ s ∈ a.strings, F.strip s = s := by
  cases a with
  | str s => simp [FormatControls.stripArg, Arg.strings]
  | null => simp [FormatControls.stripArg, Arg.strings]
  | num n => simp [FormatControls.stripArg, Arg.strings]
  | arr ss =>
    show Arg.arr (ss.map F.strip) = .arr ss ↔ _
    rw [Arg.arr.injEq]
    exact map_eq_self_iff _ _

/-- A written literal evaluates to its string exactly if the engine keeps every character of
it. -/
theorem literal_iff (F : FormatControls) (s : List Nat) :
    lexer.scan .start (F.strip (quote s)) = some [.str s] ↔ F.Keeps s := by
  rw [F.strip_quote, F.keeps_iff]
  unfold Transducer.scan
  by_cases h : Closed (F.strip s)
  · rw [advance_quote h]
    show some [Token.str (F.strip s)] = _ ↔ _
    simp only [Option.some.injEq, List.cons.injEq, Token.str.injEq, and_true]
    exact ⟨fun heq => ⟨heq, heq ▸ h⟩, fun hk => hk.1⟩
  · rw [advance_quote_open h]
    exact iff_of_false (fun hn => by cases hn) fun hk => h (hk.1.symm ▸ hk.2)

/-- A written call is read back exactly if the engine keeps every character of its strings. -/
theorem evalCall_iff (F : FormatControls) {call : Call} (hname : IsName call.name)
    (hargs : call.args ≠ []) (hshort : ∀ a ∈ call.args, a.Short) :
    evalCall F call.text = some call ↔ ∀ s ∈ call.strings, F.Keeps s := by
  have htext : F.strip call.text = (⟨call.name, call.args.map F.stripArg⟩ : Call).text := by
    show F.strip (call.name ++ 40 :: argsText call.args) = _
    rw [F.strip_append, F.strip_ascii hname.ascii, F.strip_cons (by omega), F.strip_args hshort]
    rfl
  have hshort' : ∀ a ∈ call.args.map F.stripArg, a.Short := by
    intro a ha
    obtain ⟨b, hb, rfl⟩ := List.mem_map.mp ha
    have := hshort b hb
    cases b <;> exact this
  have hsame : call.args.map F.stripArg = call.args ↔ ∀ s ∈ call.strings, F.strip s = s := by
    rw [map_eq_self_iff]
    simp only [stripArg_eq_iff, Call.strings, List.mem_flatMap, forall_exists_index, and_imp]
    exact ⟨fun h s a ha hs => h a ha s hs, fun h a ha s hs => h s a ha hs⟩
  unfold evalCall
  have hargs' : call.args.map F.stripArg ≠ [] := mt List.map_eq_nil_iff.mp hargs
  rw [htext, @readCall_text ⟨call.name, call.args.map F.stripArg⟩ hname hargs' hshort']
  have hkeeps : (∀ s ∈ call.strings, F.Keeps s) ↔
      (∀ s ∈ call.strings, F.strip s = s) ∧ ∀ s ∈ call.strings, Closed s := by
    rw [← forall₂_and]
    exact forall₂_congr fun s _ => F.keeps_iff s
  rw [hkeeps, ← hsame]
  constructor
  · intro h
    split at h
    · rename_i hclosed
      have hargs' := congrArg Call.args (Option.some.inj h)
      have hargs' : call.args.map F.stripArg = call.args := hargs'
      rw [hargs'] at hclosed
      exact ⟨hargs', hclosed⟩
    · cases h
  · rintro ⟨hargs', hclosed⟩
    rw [hargs']
    exact if_pos hclosed

end Enil.Lib.Script
