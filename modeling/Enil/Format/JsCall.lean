import Enil.Json.Utf8
import Enil.Lib.Script

/-!
# The scripts that change a chat page

Each is one call of a function of the page, its strings escaped by `esb_js`. A string that
holds a line or paragraph separator, or a format control that the engine takes out of the
source, does not come through; every other does, whatever is in it.
-/

namespace Enil

open Lib.Script

/-! ## Escaping -/

/-- What a byte is replaced with. -/
def jsEscape (c : UInt8) : Option (List UInt8) :=
  if c = 92 then some (utf8 "\\\\")
  else if c = 34 then some (utf8 "\\\"")
  else if c = 10 then some (utf8 "\\n")
  else if c = 13 then some (utf8 "\\r")
  else none

/-- The loop of `esb_js`, `run` being the bytes that are still to be copied. -/
def esbJsCore (run : List UInt8) : List UInt8 → List UInt8
  | [] => run
  | c :: rest =>
    match jsEscape c with
    | some e => run ++ e ++ esbJsCore [] rest
    | none => esbJsCore (run ++ [c]) rest

def esbJs (s : List UInt8) : List UInt8 := esbJsCore [] s

theorem esbJsCore_eq (run s : List UInt8) :
    esbJsCore run s = run ++ s.flatMap fun c => (jsEscape c).getD [c] := by
  induction s generalizing run with
  | nil => simp [esbJsCore]
  | cons c s ih =>
    unfold esbJsCore
    cases he : jsEscape c with
    | none => simp [ih, he]
    | some e => simp [ih, he]

theorem esbJs_eq (s : List UInt8) : esbJs s = s.flatMap fun c => (jsEscape c).getD [c] :=
  esbJsCore_eq [] s

/-! ## Calls -/

/-- The arguments of `js_call`, with the commas between them. -/
def jsArgs : List (Option String) → List UInt8
  | [] => []
  | a :: rest =>
    (match a with
      | some s => utf8 "\"" ++ esbJs (utf8 s) ++ utf8 "\""
      | none => utf8 "null") ++
    (if rest.isEmpty then [] else utf8 ",") ++ jsArgs rest

def jsCall (name : String) (args : List (Option String)) : List UInt8 :=
  utf8 name ++ utf8 "(" ++ jsArgs args ++ utf8 ")"

/-- The end of the calls that may scroll the page. -/
def forceFlag (isOutgoing : Bool) : List UInt8 :=
  if isOutgoing then utf8 "\",1)" else utf8 "\",0)"

/-- enil_html_js_append; `node` is the bubble. -/
def enilHtmlJsAppend (node : String) (isOutgoing : Bool) : List UInt8 :=
  utf8 "appendMessage(\"" ++ esbJs (utf8 node) ++ forceFlag isOutgoing

/-- The bubbles of `enil_html_js_prepend`. -/
def prependNodes : List String → List UInt8
  | [] => []
  | node :: rest =>
    utf8 "\"" ++ esbJs (utf8 node) ++ utf8 "\"" ++ (if rest.isEmpty then [] else utf8 ",") ++
      prependNodes rest

def enilHtmlJsPrepend (nodes : List String) (hasMore : Bool) : Option (List UInt8) :=
  if nodes.isEmpty then none
  else some (utf8 "prependMessages([" ++ prependNodes nodes ++
    if hasMore then utf8 "],1)" else utf8 "],0)")

/-- `s && s[0] ? s : NULL`. -/
def nonemptyText (s : Option String) : Option String := s.filter fun t => !t.isEmpty

def enilHtmlJsFail (msgId : Option String) : Option (List UInt8) :=
  msgId.map fun id => jsCall "failMessage" [some id]

/-- enil_html_js_reactions; `html` is the row of reactions. -/
def enilHtmlJsReactions (msgId : Option String) (html : String) : Option (List UInt8) :=
  (nonemptyText msgId).map fun id => jsCall "updateReactions" [some id, some html]

def enilHtmlJsSetReadMarker (msgId : Option String) : List UInt8 :=
  jsCall "setReadMarker" [nonemptyText msgId]

def enilHtmlJsSetSeenMarker (msgId : Option String) : List UInt8 :=
  jsCall "setSeenMarker" [nonemptyText msgId]

def enilHtmlJsSetReadMarkerForReader (readerMid displayName msgId : Option String) :
    Option (List UInt8) :=
  (nonemptyText readerMid).map fun mid =>
    jsCall "setReadMarkerForReader"
      [some mid, some ((nonemptyText displayName).getD mid), some ((nonemptyText msgId).getD "")]

def enilHtmlJsDeleted (msgId : Option String) : Option (List UInt8) :=
  (nonemptyText msgId).map fun id => jsCall "markDeleted" [some id]

/-- enil_html_js_update; `node` is the segment. -/
def enilHtmlJsUpdate (msgId : Option String) (node : String) (isOutgoing : Bool) : List UInt8 :=
  utf8 "updateMessage(\"" ++ esbJs (utf8 (msgId.getD "")) ++ utf8 "\",\"" ++
    esbJs (utf8 node) ++ forceFlag isOutgoing

inductive PageChange where
  | append (node : String) (isOutgoing : Bool)
  | prepend (nodes : List String) (hasMore : Bool)
  | fail (msgId : Option String)
  | reactions (msgId : Option String) (html : String)
  | setReadMarker (msgId : Option String)
  | setSeenMarker (msgId : Option String)
  | setReadMarkerForReader (readerMid displayName msgId : Option String)
  | deleted (msgId : Option String)
  | update (msgId : Option String) (node : String) (isOutgoing : Bool)

namespace PageChange

/-- The script, or none where the source returns NULL. -/
def script : PageChange → Option (List UInt8)
  | append node out => some (enilHtmlJsAppend node out)
  | prepend nodes more => enilHtmlJsPrepend nodes more
  | fail id => enilHtmlJsFail id
  | reactions id html => enilHtmlJsReactions id html
  | setReadMarker id => some (enilHtmlJsSetReadMarker id)
  | setSeenMarker id => some (enilHtmlJsSetSeenMarker id)
  | setReadMarkerForReader mid name id => enilHtmlJsSetReadMarkerForReader mid name id
  | deleted id => enilHtmlJsDeleted id
  | update id node out => some (enilHtmlJsUpdate id node out)

def strArg (s : String) : Arg := .str (codeUnits s)

def optArg : Option String → Arg
  | some s => strArg s
  | none => .null

def flagArg (b : Bool) : Arg := .num (if b then 1 else 0)

/-- The call that the change stands for. -/
def call : PageChange → Call
  | append node out => ⟨codeUnits "appendMessage", [strArg node, flagArg out]⟩
  | prepend nodes more =>
    ⟨codeUnits "prependMessages", [.arr (nodes.map codeUnits), flagArg more]⟩
  | fail id => ⟨codeUnits "failMessage", [optArg id]⟩
  | reactions id html => ⟨codeUnits "updateReactions", [optArg id, strArg html]⟩
  | setReadMarker id => ⟨codeUnits "setReadMarker", [optArg (nonemptyText id)]⟩
  | setSeenMarker id => ⟨codeUnits "setSeenMarker", [optArg (nonemptyText id)]⟩
  | setReadMarkerForReader mid name id =>
    ⟨codeUnits "setReadMarkerForReader",
      [optArg mid, optArg ((nonemptyText name).or mid), strArg (id.getD "")]⟩
  | deleted id => ⟨codeUnits "markDeleted", [optArg id]⟩
  | update id node out =>
    ⟨codeUnits "updateMessage", [strArg (id.getD ""), strArg node, flagArg out]⟩

end PageChange

/-! ## The source that an engine gets -/

/-- The UTF-8 bytes of a source of these code units. -/
def IsSource (bytes : List UInt8) (units : List Nat) : Prop :=
  ∃ t : String, utf8 t = bytes ∧ codeUnits t = units

theorem IsSource.unique {bytes : List UInt8} {us vs : List Nat} (h : IsSource bytes us)
    (h' : IsSource bytes vs) : us = vs := by
  obtain ⟨t, hbytes, rfl⟩ := h
  obtain ⟨t', hbytes', rfl⟩ := h'
  rw [utf8_injective (hbytes.trans hbytes'.symm)]

theorem IsSource.utf8 (s : String) : IsSource (utf8 s) (codeUnits s) := ⟨s, rfl, rfl⟩

theorem IsSource.append {a b : List UInt8} {us vs : List Nat} (ha : IsSource a us)
    (hb : IsSource b vs) : IsSource (a ++ b) (us ++ vs) := by
  obtain ⟨s, rfl, rfl⟩ := ha
  obtain ⟨t, rfl, rfl⟩ := hb
  refine ⟨s ++ t, utf8_append s t, ?_⟩
  rw [codeUnits, String.toList_append, List.flatMap_append]
  rfl

theorem IsSource.nil : IsSource [] [] := by
  refine ⟨"", ?_, rfl⟩
  rw [utf8_eq_flatMap]
  rfl

/-- `esb_js` on the characters. -/
def escapeChar (c : Char) : List Char :=
  if c = '\\' then ['\\', '\\']
  else if c.toNat = 34 then ['\\', Char.ofNat 34]
  else if c = '\n' then ['\\', 'n']
  else if c = '\r' then ['\\', 'r']
  else [c]

theorem utf8EncodeChar_high {c : Char} (h : 128 ≤ c.toNat) :
    ∀ b ∈ String.utf8EncodeChar c, 128 ≤ b.toNat := by
  have hvalid : c.val.toNat < 0xd800 ∨ 0xdfff < c.val.toNat ∧ c.val.toNat < 0x110000 := c.valid
  have hv : 128 ≤ c.val.toNat := h
  unfold String.utf8EncodeChar
  generalize c.val.toNat = v at hvalid hv
  intro b hb
  dsimp only at hb
  rw [if_neg (by omega)] at hb
  have hbyte : ∃ n, b = UInt8.ofNat n ∧ 128 ≤ n ∧ n < 256 := by
    split_ifs at hb
    all_goals
      simp only [List.mem_cons, List.not_mem_nil, or_false] at hb
    · rcases hb with rfl | rfl
      · exact ⟨_, rfl, by omega⟩
      · exact ⟨_, rfl, by omega⟩
    · rcases hb with rfl | rfl | rfl
      · exact ⟨_, rfl, by omega⟩
      · exact ⟨_, rfl, by omega⟩
      · exact ⟨_, rfl, by omega⟩
    · rcases hb with rfl | rfl | rfl | rfl
      · exact ⟨_, rfl, by omega⟩
      · exact ⟨_, rfl, by omega⟩
      · exact ⟨_, rfl, by omega⟩
      · exact ⟨_, rfl, by omega⟩
  obtain ⟨n, rfl, hn, hn'⟩ := hbyte
  rw [UInt8.toNat_ofNat', Nat.mod_eq_of_lt (by omega)]
  exact hn

theorem jsEscape_high {b : UInt8} (h : 128 ≤ b.toNat) : jsEscape b = none := by
  unfold jsEscape
  have hne : ∀ n : UInt8, n.toNat < 128 → b ≠ n := by
    rintro n hn rfl
    omega
  rw [if_neg (hne 92 (by decide)), if_neg (hne 34 (by decide)), if_neg (hne 10 (by decide)),
    if_neg (hne 13 (by decide))]

/-- A character beyond ASCII is copied by its bytes. -/
theorem esbJs_high {bs : List UInt8} (h : ∀ b ∈ bs, 128 ≤ b.toNat) :
    bs.flatMap (fun b => (jsEscape b).getD [b]) = bs := by
  induction bs with
  | nil => rfl
  | cons b bs ih =>
    rw [List.forall_mem_cons] at h
    rw [List.flatMap_cons, jsEscape_high h.1, ih h.2]
    rfl

theorem escapeChar_high {c : Char} (h : 128 ≤ c.toNat) : escapeChar c = [c] := by
  unfold escapeChar
  have hne : ∀ d : Char, d.toNat < 128 → c ≠ d := by
    rintro d hd rfl
    omega
  rw [if_neg (hne _ (by decide)), if_neg (by omega), if_neg (hne _ (by decide)),
    if_neg (hne _ (by decide))]

theorem esbJs_char (c : Char) :
    (String.utf8EncodeChar c).flatMap (fun b => (jsEscape b).getD [b]) =
      (escapeChar c).flatMap String.utf8EncodeChar := by
  rcases Nat.lt_or_ge c.toNat 128 with hlow | hhigh
  · have hall : ∀ n < 128, (String.utf8EncodeChar (Char.ofNat n)).flatMap
        (fun b => (jsEscape b).getD [b]) =
          (escapeChar (Char.ofNat n)).flatMap String.utf8EncodeChar := by
      decide +kernel
    have := hall c.toNat hlow
    rwa [Char.ofNat_toNat] at this
  · rw [esbJs_high (utf8EncodeChar_high hhigh), escapeChar_high hhigh, List.flatMap_singleton]

theorem escapeUnit_char (c : Char) :
    (escapeChar c).flatMap unitsOfChar = (unitsOfChar c).flatMap escapeUnit := by
  rcases Nat.lt_or_ge c.toNat 128 with hlow | hhigh
  · have hall : ∀ n < 128, (escapeChar (Char.ofNat n)).flatMap unitsOfChar =
        (unitsOfChar (Char.ofNat n)).flatMap escapeUnit := by
      decide
    have := hall c.toNat hlow
    rwa [Char.ofNat_toNat] at this
  · rw [escapeChar_high hhigh, List.flatMap_singleton]
    have hself : ∀ u ∈ unitsOfChar c, escapeUnit u = [u] := by
      intro u hu
      have hu : 128 ≤ u := by
        unfold unitsOfChar at hu
        split at hu
        · rw [List.mem_singleton] at hu
          omega
        · simp only [List.mem_cons, List.not_mem_nil, or_false] at hu
          omega
      unfold escapeUnit
      rw [if_neg (by omega), if_neg (by omega), if_neg (by omega), if_neg (by omega)]
    rw [List.flatMap_congr hself, List.flatMap_singleton']

/-- What `esb_js` writes is the escaped source. -/
theorem IsSource.esbJs (s : String) :
    IsSource (esbJs (Enil.utf8 s)) ((codeUnits s).flatMap escapeUnit) := by
  refine ⟨String.ofList (s.toList.flatMap escapeChar), ?_, ?_⟩
  · rw [utf8_eq_flatMap, String.toList_ofList, esbJs_eq, utf8_eq_flatMap, List.flatMap_assoc,
      List.flatMap_assoc]
    exact List.flatMap_congr fun c _ => (esbJs_char c).symm
  · rw [codeUnits, String.toList_ofList, codeUnits, List.flatMap_assoc, List.flatMap_assoc]
    exact List.flatMap_congr fun c _ => escapeUnit_char c

/-- A literal of the source, with its code units worked out. -/
theorem IsSource.lit {text : String} {units : List Nat} (h : codeUnits text = units) :
    IsSource (Enil.utf8 text) units := h ▸ IsSource.utf8 text

theorem IsSource.quoted (s : String) :
    IsSource (Enil.utf8 "\"" ++ Enil.esbJs (Enil.utf8 s) ++ Enil.utf8 "\"")
      (quote (codeUnits s)) := by
  have hquote : IsSource (Enil.utf8 "\"") [34] := .lit rfl
  exact (hquote.append (.esbJs s)).append hquote

namespace PageChange

theorem source_optArg (a : Option String) :
    IsSource (match a with
      | some s => utf8 "\"" ++ esbJs (utf8 s) ++ utf8 "\""
      | none => utf8 "null") (optArg a).text := by
  cases a with
  | none => exact .utf8 "null"
  | some s => exact .quoted s

theorem source_jsArgs {args : List (Option String)} (hne : args ≠ []) :
    IsSource (jsArgs args ++ utf8 ")") (argsText (args.map optArg)) := by
  induction args with
  | nil => exact absurd rfl hne
  | cons a rest ih =>
    cases rest with
    | nil =>
      show IsSource ((_ ++ [] ++ []) ++ utf8 ")") ((optArg a).text ++ [41])
      rw [List.append_nil, List.append_nil]
      exact (source_optArg a).append (.lit rfl)
    | cons b rest =>
      have hrest := ih (List.cons_ne_nil b rest)
      have hcomma : IsSource (utf8 ",") [44] := .lit rfl
      show IsSource ((_ ++ utf8 "," ++ jsArgs (b :: rest)) ++ utf8 ")")
        ((optArg a).text ++ ([44] ++ argsText ((b :: rest).map optArg)))
      rw [List.append_assoc, ← List.append_assoc (optArg a).text]
      exact ((source_optArg a).append hcomma).append hrest

theorem source_jsCall (name : String) {args : List (Option String)} (hne : args ≠ []) :
    IsSource (jsCall name args) (Call.text ⟨codeUnits name, args.map optArg⟩) := by
  show IsSource (utf8 name ++ utf8 "(" ++ jsArgs args ++ utf8 ")")
    (codeUnits name ++ ([40] ++ argsText (args.map optArg)))
  rw [List.append_assoc, List.append_assoc]
  exact (IsSource.utf8 name).append
    ((IsSource.lit rfl).append (source_jsArgs hne))

/-- The closing quote, the flag and the end of a call. -/
theorem source_forceFlag (out : Bool) :
    IsSource (forceFlag out) ([34] ++ (44 :: argsText [flagArg out])) := by
  cases out
  · exact .lit rfl
  · exact .lit rfl

theorem source_append (node : String) (out : Bool) :
    IsSource (enilHtmlJsAppend node out) (append node out).call.text := by
  have hopen : IsSource (utf8 "appendMessage(\"") (codeUnits "appendMessage" ++ [40, 34]) :=
    .lit rfl
  have htext : (append node out).call.text = codeUnits "appendMessage" ++ [40, 34] ++
      (codeUnits node).flatMap escapeUnit ++ ([34] ++ (44 :: argsText [flagArg out])) := by
    simp [call, Call.text, argsText, strArg, Arg.text, quote]
  rw [htext]
  exact (hopen.append (.esbJs node)).append (source_forceFlag out)

theorem source_update (id : Option String) (node : String) (out : Bool) :
    IsSource (enilHtmlJsUpdate id node out) (update id node out).call.text := by
  have hopen : IsSource (utf8 "updateMessage(\"") (codeUnits "updateMessage" ++ [40, 34]) :=
    .lit rfl
  have hnext : IsSource (utf8 "\",\"") [34, 44, 34] := .lit rfl
  have htext : (update id node out).call.text = codeUnits "updateMessage" ++ [40, 34] ++
      (codeUnits (id.getD "")).flatMap escapeUnit ++ [34, 44, 34] ++
      (codeUnits node).flatMap escapeUnit ++ ([34] ++ (44 :: argsText [flagArg out])) := by
    simp [call, Call.text, argsText, strArg, Arg.text, quote]
  rw [htext]
  exact (((hopen.append (.esbJs (id.getD ""))).append hnext).append (.esbJs node)).append
    (source_forceFlag out)

theorem source_prependNodes {nodes : List String} (hne : nodes ≠ []) :
    IsSource (prependNodes nodes ++ utf8 "]") (elementsText (nodes.map codeUnits)) := by
  induction nodes with
  | nil => exact absurd rfl hne
  | cons node rest ih =>
    cases rest with
    | nil =>
      show IsSource ((_ ++ [] ++ []) ++ utf8 "]") (quote (codeUnits node) ++ [93])
      rw [List.append_nil, List.append_nil]
      exact (IsSource.quoted node).append (.lit rfl)
    | cons next rest =>
      have hrest := ih (List.cons_ne_nil next rest)
      have hcomma : IsSource (utf8 ",") [44] := .lit rfl
      show IsSource ((_ ++ utf8 "," ++ prependNodes (next :: rest)) ++ utf8 "]")
        (quote (codeUnits node) ++ ([44] ++ elementsText ((next :: rest).map codeUnits)))
      rw [List.append_assoc, ← List.append_assoc (quote _)]
      exact ((IsSource.quoted node).append hcomma).append hrest

theorem source_prepend {nodes : List String} (hne : nodes ≠ []) (more : Bool) :
    IsSource (utf8 "prependMessages([" ++ prependNodes nodes ++
      if more then utf8 "],1)" else utf8 "],0)") (prepend nodes more).call.text := by
  have hend : ∀ b : Bool, (if b then utf8 "],1)" else utf8 "],0)") =
      utf8 "]" ++ utf8 (if b then ",1)" else ",0)") := by
    rintro (_ | _)
    · exact utf8_append "]" ",0)"
    · exact utf8_append "]" ",1)"
  have hflag : IsSource (utf8 (if more then ",1)" else ",0)")) (44 :: argsText [flagArg more]) := by
    cases more
    · exact .lit rfl
    · exact .lit rfl
  have hopen : IsSource (utf8 "prependMessages([") (codeUnits "prependMessages" ++ [40, 91]) :=
    .lit rfl
  have h := (hopen.append (source_prependNodes hne)).append hflag
  have htext : (prepend nodes more).call.text = codeUnits "prependMessages" ++ [40, 91] ++
      elementsText (nodes.map codeUnits) ++ 44 :: argsText [flagArg more] := by
    simp [call, Call.text, argsText, Arg.text]
  rw [htext, hend]
  simpa only [List.append_assoc] using h

/-- A script is the source of the call that it stands for. -/
theorem source_script (p : PageChange) {bytes : List UInt8} (h : p.script = some bytes) :
    IsSource bytes p.call.text := by
  cases p with
  | append node out => exact Option.some.inj h ▸ source_append node out
  | update id node out => exact Option.some.inj h ▸ source_update id node out
  | setReadMarker id =>
    exact Option.some.inj h ▸ source_jsCall "setReadMarker" (List.cons_ne_nil _ _)
  | setSeenMarker id =>
    exact Option.some.inj h ▸ source_jsCall "setSeenMarker" (List.cons_ne_nil _ _)
  | prepend nodes more =>
    have h : (if nodes.isEmpty then none else some _) = some bytes := h
    split at h
    · cases h
    · rename_i hempty
      exact Option.some.inj h ▸ source_prepend (mt List.isEmpty_iff.mpr hempty) more
  | fail id =>
    obtain ⟨mid, rfl, rfl⟩ := Option.map_eq_some_iff.mp h
    exact source_jsCall "failMessage" (List.cons_ne_nil _ _)
  | reactions id html =>
    obtain ⟨mid, hid, rfl⟩ := Option.map_eq_some_iff.mp h
    obtain ⟨rfl, -⟩ := Option.filter_eq_some_iff.mp hid
    exact source_jsCall "updateReactions" (List.cons_ne_nil (some mid) [some html])
  | deleted id =>
    obtain ⟨mid, hid, rfl⟩ := Option.map_eq_some_iff.mp h
    obtain ⟨rfl, -⟩ := Option.filter_eq_some_iff.mp hid
    exact source_jsCall "markDeleted" (List.cons_ne_nil (some mid) [])
  | setReadMarkerForReader mid name id =>
    obtain ⟨reader, hid, rfl⟩ := Option.map_eq_some_iff.mp h
    obtain ⟨rfl, -⟩ := Option.filter_eq_some_iff.mp hid
    have hname : (nonemptyText name).or (some reader) = some ((nonemptyText name).getD reader) := by
      cases nonemptyText name <;> rfl
    have hmark : (nonemptyText id).getD "" = id.getD "" := by
      cases id with
      | none => rfl
      | some s =>
        unfold nonemptyText Option.filter
        cases hs : s.isEmpty with
        | false => simp [hs]
        | true => simp [String.isEmpty_iff.mp hs]
    rw [hmark]
    show IsSource _ (Call.text ⟨_, [optArg (some reader),
      optArg ((nonemptyText name).or (some reader)), optArg (some (id.getD ""))]⟩)
    rw [hname]
    exact source_jsCall "setReadMarkerForReader" (List.cons_ne_nil (some reader) _)

theorem call_isName (p : PageChange) : IsName p.call.name := by
  cases p <;> (show IsName (codeUnits _); decide)

theorem call_args (p : PageChange) : p.call.args ≠ [] ∧ ∀ a ∈ p.call.args, a.Short := by
  have hstr : ∀ s, (strArg s).Short := fun _ => trivial
  have hopt : ∀ s, (optArg s).Short := fun s => by cases s <;> trivial
  have harr : ∀ l, (Arg.arr l).Short := fun _ => trivial
  have hflag : ∀ b, (flagArg b).Short := by
    intro b
    cases b
    · exact show 0 < 10 by omega
    · exact show 1 < 10 by omega
  cases p <;> simp [call, hstr, hopt, harr, hflag]

end PageChange

/-! ## What an engine makes of it -/

/-- The bytes are one string literal of this value. -/
def IsLiteral (F : FormatControls) (bytes : List UInt8) (value : List Nat) : Prop :=
  ∃ units, IsSource bytes units ∧ lexer.scan .start (F.strip units) = some [.str value]

/-- The bytes are one call. -/
def IsCall (F : FormatControls) (bytes : List UInt8) (call : Call) : Prop :=
  ∃ units, IsSource bytes units ∧ evalCall F units = some call

/-- `s` escaped and between quotes. -/
def jsLiteral (s : String) : List UInt8 := utf8 "\"" ++ esbJs (utf8 s) ++ utf8 "\""

theorem isLiteral_iff (F : FormatControls) (s : String) :
    IsLiteral F (jsLiteral s) (codeUnits s) ↔ F.Keeps (codeUnits s) := by
  rw [← literal_iff]
  constructor
  · rintro ⟨units, hunits, hread⟩
    rwa [hunits.unique (.quoted s)] at hread
  · exact fun hread => ⟨_, .quoted s, hread⟩

theorem isCall_iff (F : FormatControls) (p : PageChange) {bytes : List UInt8}
    (h : p.script = some bytes) :
    IsCall F bytes p.call ↔ ∀ s ∈ p.call.strings, F.Keeps s := by
  rw [← evalCall_iff F p.call_isName p.call_args.1 p.call_args.2]
  constructor
  · rintro ⟨units, hunits, hread⟩
    rwa [hunits.unique (p.source_script h)] at hread
  · exact fun hread => ⟨_, p.source_script h, hread⟩

/-- A literal evaluates to its string, and a script to its call, exactly if no string holds
U+2028, U+2029 or a format control that the engine takes out. -/
theorem scripts_evaluate_iff (F : FormatControls) :
    (∀ s : String, IsLiteral F (jsLiteral s) (codeUnits s) ↔ F.Keeps (codeUnits s)) ∧
      ∀ (p : PageChange) (bytes : List UInt8), p.script = some bytes →
        (IsCall F bytes p.call ↔ ∀ s ∈ p.call.strings, F.Keeps s) :=
  ⟨isLiteral_iff F, fun p _ h => isCall_iff F p h⟩

/-- An engine that takes the zero width joiner out. -/
def joinerOut : FormatControls where
  isFormat := (· == 0x200d)
  ascii := by decide

theorem fail_evaluates :
    IsCall joinerOut (jsCall "failMessage" [some "a\"b\\"])
      ⟨codeUnits "failMessage", [.str [97, 34, 98, 92]]⟩ := by
  refine ((scripts_evaluate_iff joinerOut).2 (.fail (some "a\"b\\")) _ rfl).mpr ?_
  show ∀ s ∈ [codeUnits "a\"b\\"], joinerOut.Keeps s
  have hkeeps : (codeUnits "a\"b\\").all (fun c => decide (c < 128)) = true := rfl
  intro s hs
  obtain rfl := List.mem_singleton.mp hs
  intro c hc
  have hc : c < 128 := of_decide_eq_true (List.all_eq_true.mp hkeeps c hc)
  exact ⟨by omega, by omega, joinerOut.ascii c hc⟩

/-- On no engine of that edition is a line separator between quotes a literal. -/
theorem separator_ends_literal : ¬ ∃ F : FormatControls, ∀ s : String,
    IsLiteral F (jsLiteral s) (codeUnits s) := by
  rintro ⟨F, hall⟩
  have hsep : 0x2028 ∈ codeUnits "\u2028" := List.mem_cons_self
  obtain ⟨hne, -⟩ := (isLiteral_iff F "\u2028").mp (hall "\u2028") 0x2028 hsep
  exact hne rfl

end Enil
