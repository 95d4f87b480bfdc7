import Enil.Lib.JsonText
import Enil.Line.Send
import Enil.Worker.Text

/-!
# Decrypted payloads

`parseDecryptedPayload` rewrites a text before it is parsed, so that control
characters may stand unescaped in its strings. A character below U+0010 becomes
an escape of three digits, which takes the next character into it or is no escape
at all: a string loses a code unit or the text is refused.
-/

namespace Enil

open Lib JsonText

/-! ## The function -/

/-- The characters the regular expression matches. -/
def IsRewritten (c : Char) : Prop := c.toNat ≤ 0x1F ∨ (0x80 ≤ c.toNat ∧ c.toNat ≤ 0xFF)

instance (c : Char) : Decidable (IsRewritten c) := inferInstanceAs (Decidable (_ ∨ _))

/-- The replacement of a character; the digits are not filled up. -/
def rewrite (c : Char) : List Char :=
  if IsRewritten c then '\\' :: 'u' :: '0' :: '0' :: Nat.toDigits 16 c.toNat else [c]

variable {ν : Type} (number : List Char → ν)

def jsonParse (text : List Char) : Option (Value ν) := (read number false text).map Value.lastWins

/-- A malformed text would be decoded with U+FFFD. -/
def parseDecryptedPayload (decrypted : List UInt8) : Option (Value ν) := do
  let text ← textDecode decrypted
  if '\uFFFD' ∈ text.toList then none
  else jsonParse number (text.toList.flatMap rewrite)

/-! ## Rewritten characters -/

theorem toDigits_pair : ∀ n < 256, 16 ≤ n →
    (Nat.toDigits 16 n).map hexDigit = [some (n / 16), some (n % 16)] := by decide +kernel

theorem toDigits_single : ∀ n < 16, (Nat.toDigits 16 n).map hexDigit = [some n] := by
  decide

theorem rewritten_ofNat : ∀ n < 256, n ≤ 0x1F ∨ 0x80 ≤ n →
    Char.ofNat n ≠ '\x22' ∧ Char.ofNat n ≠ '\\' ∧ Char.ofNat n ≠ 'u' ∧
    isPunct (Char.ofNat n) = false ∧ isWord (Char.ofNat n) = false ∧
    hexDigit (Char.ofNat n) = none ∧ escaped (Char.ofNat n) = none ∧
    (16 ≤ n → JsonText.isBlank (Char.ofNat n) = false) := by decide +kernel

section

variable {c : Char}

theorem IsRewritten.facts (h : IsRewritten c) :
    c ≠ '\x22' ∧ c ≠ '\\' ∧ c ≠ 'u' ∧ isPunct c = false ∧ isWord c = false ∧
    hexDigit c = none ∧ escaped c = none ∧ (16 ≤ c.toNat → JsonText.isBlank c = false) := by
  have hc := rewritten_ofNat c.toNat (by unfold IsRewritten at h; omega)
    (by unfold IsRewritten at h; omega)
  rw [Char.ofNat_toNat] at hc
  exact hc

/-- A character is replaced by an escape or stays, and what stays is no control character. -/
theorem rewrite_cases (c : Char) :
    IsRewritten c ∧ rewrite c = '\\' :: 'u' :: '0' :: '0' :: Nat.toDigits 16 c.toNat ∨
    0x20 ≤ c.toNat ∧ rewrite c = [c] := by
  unfold rewrite
  split
  · rename_i h
    exact .inl ⟨h, rfl⟩
  · rename_i h
    unfold IsRewritten at h
    exact .inr ⟨by omega, rfl⟩

theorem step_of_high (h : 0x20 ≤ c.toNat) (q : State) (raw : Bool) :
    step raw q c = step true q c := by
  cases q with
  | string s =>
    simp only [step, Bool.true_eq_false, and_false, if_false]
    rw [if_neg (show ¬ (c.toNat < 0x20 ∧ raw = false) by omega)]
  | between | word _ | escape _ | hex _ _ _ => rfl

theorem read_of_high {cs : List Char} (h : ∀ c ∈ cs, 0x20 ≤ c.toNat) (raw : Bool) :
    JsonText.read number raw cs = JsonText.read number true cs := by
  have hrun : ∀ q, run raw q cs = run true q cs := by
    induction cs with
    | nil => exact fun q => rfl
    | cons c cs ih =>
      rw [List.forall_mem_cons] at h
      intro q
      simp only [run, step_of_high h.1 q raw, ih h.2]
  rw [JsonText.read, JsonText.read, tokens, tokens, hrun]

/-- Only in a string may an escape stand. -/
theorem step_backslash {q : State} {r : State × List Token} {raw : Bool}
    (h : step raw q '\\' = some r) :
    (∃ s, q = .string s ∧ r = (.escape s, [])) ∨ ∃ s, q = .escape s := by
  cases q with
  | string s => exact .inl ⟨s, rfl, (Option.some.inj h).symm⟩
  | escape s => exact .inr ⟨s, rfl⟩
  | between => cases h
  | word w => cases h
  | hex s k n => cases h

/-- The escape of a character in a string: complete, or one digit short. -/
theorem run_escape (s : List Nat) (h : IsRewritten c) :
    run false (.string s) ('\\' :: 'u' :: '0' :: '0' :: Nat.toDigits 16 c.toNat) =
      some (if 16 ≤ c.toNat then .string (s ++ [c.toNat]) else .hex s 1 c.toNat, []) := by
  have h256 : c.toNat < 256 := by
    unfold IsRewritten at h
    omega
  have h0 : hexDigit '0' = some 0 := by decide
  by_cases h16 : 16 ≤ c.toNat
  · have hd := toDigits_pair _ h256 h16
    obtain ⟨a, ds, hds, ha, hrest⟩ := List.map_eq_cons_iff.mp hd
    obtain ⟨b, rfl, hb⟩ := List.map_eq_singleton_iff.mp hrest
    rw [hds, if_pos h16]
    simp [run, step, h0, ha, hb]
    omega
  · have hd := toDigits_single c.toNat (by omega)
    obtain ⟨a, hds, ha⟩ := List.map_eq_singleton_iff.mp hd
    rw [hds, if_neg h16]
    simp [run, step, h0, ha]

end

/-! ## Texts without short escapes -/

/-- A replaced character of two digits is read as itself. -/
theorem step_rewrite {c : Char} (h : 16 ≤ c.toNat) {q : State} {r : State × List Token}
    (hr : step true q c = some r) : run false q (rewrite c) = some r := by
  rcases rewrite_cases c with ⟨hc, he⟩ | ⟨hc, he⟩
  · obtain ⟨h34, h92, hu, hpunct, hword, hhex, hesc, hblank⟩ := hc.facts
    have hout : outside c = none := by
      simp [outside, h34, hpunct, hword, hblank h]
    rw [he]
    cases q with
    | string s =>
      have hlt : c.toNat < 0x10000 := by
        unfold IsRewritten at hc
        omega
      rw [run_escape s hc, if_pos h, ← hr]
      simp [step, h34, h92, units_of_lt hlt]
    | between =>
      rw [step, hout] at hr
      cases hr
    | word w =>
      rw [step, hword, hout] at hr
      cases hr
    | escape s =>
      rw [step, if_neg hu, hesc] at hr
      cases hr
    | hex s k n =>
      rw [step, hhex] at hr
      cases hr
  · rw [he, run_singleton, step_of_high hc]
    exact hr

theorem run_rewrite {cs : List Char} (h : ∀ c ∈ cs, 16 ≤ c.toNat) {q : State}
    {r : State × List Token} (hr : run true q cs = some r) :
    run false q (cs.flatMap rewrite) = some r := by
  induction cs generalizing q r with
  | nil => exact hr
  | cons c cs ih =>
    rw [List.forall_mem_cons] at h
    obtain ⟨q₁, us, vs, hc, hcs, he⟩ := run_cons_iff.mp hr
    exact run_append_iff.mpr ⟨q₁, us, vs, step_rewrite h.1 hc, ih h.2 hcs, he⟩

theorem read_rewrite {cs : List Char} (h : ∀ c ∈ cs, 16 ≤ c.toNat) {v : Value ν}
    (hv : read number true cs = some v) : read number false (cs.flatMap rewrite) = some v := by
  obtain ⟨ts, hts, hp⟩ := Option.bind_eq_some_iff.mp hv
  obtain ⟨r, hr, hf⟩ := Option.bind_eq_some_iff.mp hts
  exact Option.bind_eq_some_iff.mpr
    ⟨ts, Option.bind_eq_some_iff.mpr ⟨r, run_rewrite h hr, hf⟩, hp⟩

/-! ## Texts with short escapes -/

/-- The code units of the string that is being read. -/
def pending : State → Nat
  | .string s | .escape s | .hex s _ _ => s.length
  | .between | .word _ => 0

def weight (ts : List Token) : Nat := (ts.flatMap Token.units).length

@[simp] theorem weight_nil : weight [] = 0 := rfl

theorem weight_append (ts us : List Token) : weight (ts ++ us) = weight ts + weight us := by
  simp [weight]

def short (c : Char) : Nat := if c.toNat < 16 then 1 else 0

def shorts (cs : List Char) : Nat := (cs.map short).sum

/-- Where the rewritten text is read while the text itself is read: at the same place
of a token, or at the digit that a short escape still wants. -/
inductive Follows : State → State → Prop
  | between : Follows .between .between
  | word (w w' : List Char) : Follows (.word w) (.word w')
  | string (s s' : List Nat) : Follows (.string s) (.string s')
  | escape (s s' : List Nat) : Follows (.escape s) (.escape s')
  | hex (s s' : List Nat) (k n n' : Nat) : Follows (.hex s k n) (.hex s' k n')
  | late (s s' : List Nat) (n : Nat) : Follows (.hex s 1 n) (.string s')

/-- Each of the two states has read its part, and every short escape has cost a code unit. -/
structure Keeps (p q : State) (p' q' : State) (us ts : List Token) (lost : Nat) : Prop where
  follows : Follows p' q'
  weight : weight us + pending p' + pending q + lost ≤ weight ts + pending q' + pending p

theorem Follows.refl (q : State) : Follows q q := by
  cases q with
  | between => exact .between
  | string s => exact .string s s
  | escape s => exact .escape s s
  | hex s k n => exact .hex s s k n n
  | word w => exact .word w w

section

variable {c : Char} {p q p' q' : State} {ts us : List Token}

/-- A character that is read as it stands. -/
theorem step_keeps (h : Follows p q) (hl : step true q c = some (q', ts))
    (hs : step true p c = some (p', us)) : Keeps p q p' q' us ts 0 := by
  cases h with
  | between =>
    rw [hl] at hs
    cases hs
    exact ⟨Follows.refl _, by omega⟩
  | word w w' =>
    rw [step] at hl hs
    split at hl
    · rename_i hc
      rw [if_pos hc] at hs
      cases hl
      cases hs
      exact ⟨.word _ _, by simp [pending]⟩
    · rename_i hc
      rw [if_neg hc] at hs
      obtain ⟨r, hr, he⟩ := Option.map_eq_some_iff.mp hl
      rw [hr] at hs
      cases he
      cases hs
      exact ⟨Follows.refl _, by simp [pending, weight, Token.units]⟩
  | string s s' =>
    simp only [step, Bool.true_eq_false, and_false, if_false] at hl hs
    split_ifs at hl hs with h34 h92
    · cases hl
      cases hs
      exact ⟨.between, by simp [pending, weight, Token.units]; omega⟩
    · cases hl
      cases hs
      exact ⟨.escape _ _, by simp [pending]; omega⟩
    · cases hl
      cases hs
      exact ⟨.string _ _, by simp [pending]; omega⟩
  | escape s s' =>
    rw [step] at hl hs
    split_ifs at hl hs with hu
    · cases hl
      cases hs
      exact ⟨.hex _ _ _ _ _, by simp [pending]; omega⟩
    · obtain ⟨n, hn, he⟩ := Option.map_eq_some_iff.mp hl
      rw [hn] at hs
      cases he
      cases hs
      exact ⟨.string _ _, by simp [pending]; omega⟩
  | hex s s' k n n' =>
    rw [step] at hl hs
    obtain ⟨d, hd, he⟩ := Option.map_eq_some_iff.mp hl
    rw [hd, Option.map_some] at hs
    split_ifs at he hs with hk
    · cases he
      cases hs
      exact ⟨.string _ _, by simp [pending]; omega⟩
    · cases he
      cases hs
      exact ⟨.hex _ _ _ _ _, by simp [pending]; omega⟩
  | late s s' n =>
    -- The character is the digit that was missing, and in the text one of the string.
    rw [step] at hs
    obtain ⟨d, hd, he⟩ := Option.map_eq_some_iff.mp hs
    have h34 : c ≠ '\x22' := by
      rintro rfl
      cases hd
    have h92 : c ≠ '\\' := by
      rintro rfl
      cases hd
    simp only [step, if_neg h34, if_neg h92, Bool.true_eq_false, and_false, if_false] at hl
    cases hl
    cases he
    have hunits := units_pos c
    exact ⟨.string _ _, by simp [pending]; omega⟩

theorem rewrite_keeps (h : Follows p q) (hl : step true q c = some (q', ts))
    (hs : run false p (rewrite c) = some (p', us)) : Keeps p q p' q' us ts (short c) := by
  rcases rewrite_cases c with ⟨hc, he⟩ | ⟨hc, he⟩
  · obtain ⟨h34, h92, hu, -, -, -, hesc, -⟩ := hc.facts
    rw [he] at hs
    obtain ⟨p₁, us₁, vs, hfirst, -⟩ := run_cons_iff.mp hs
    obtain ⟨s, rfl, -⟩ | ⟨s, rfl⟩ := step_backslash hfirst
    · rw [run_escape s hc] at hs
      cases h
      rename_i s'
      simp only [step, if_neg h34, if_neg h92, Bool.true_eq_false, and_false, if_false] at hl
      have hlt : c.toNat < 0x10000 := by
        unfold IsRewritten at hc
        omega
      rw [units_of_lt hlt] at hl
      cases hl
      split_ifs at hs with h16
      · have h0 : short c = 0 := if_neg (by omega)
        cases hs
        exact ⟨.string _ _, by simp [pending, h0]; omega⟩
      · have h1 : short c = 1 := if_pos (by omega)
        cases hs
        exact ⟨.late _ _ _, by simp [pending, h1]; omega⟩
    · cases h
      rw [step, if_neg hu, hesc] at hl
      cases hl
  · have h0 : short c = 0 := if_neg (by omega)
    rw [he, run_singleton, step_of_high hc] at hs
    rw [h0]
    exact step_keeps h hl hs

theorem run_keeps {cs : List Char} (h : Follows p q) (hl : run true q cs = some (q', ts))
    (hs : run false p (cs.flatMap rewrite) = some (p', us)) :
    Keeps p q p' q' us ts (shorts cs) := by
  induction cs generalizing p q ts us with
  | nil =>
    cases hl
    cases hs
    exact ⟨h, by simp [shorts]; omega⟩
  | cons c cs ih =>
    obtain ⟨q₁, ts₁, ts₂, hc, hcs, rfl⟩ := run_cons_iff.mp hl
    obtain ⟨p₁, us₁, us₂, hc', hcs', rfl⟩ := run_append_iff.mp hs
    obtain ⟨hf₁, hw₁⟩ := rewrite_keeps h hc hc'
    obtain ⟨hf₂, hw₂⟩ := ih hf₁ hcs hcs'
    refine ⟨hf₂, ?_⟩
    rw [weight_append, weight_append]
    simp only [shorts, List.map_cons, List.sum_cons] at hw₂ ⊢
    omega

/-- Every short escape costs the tokens a code unit. -/
theorem tokens_keeps {cs : List Char} (hl : tokens true cs = some ts)
    (hs : tokens false (cs.flatMap rewrite) = some us) : weight us + shorts cs ≤ weight ts := by
  obtain ⟨⟨q, ts₁⟩, hq, hfq⟩ := Option.bind_eq_some_iff.mp hl
  obtain ⟨⟨p, us₁⟩, hp, hfp⟩ := Option.bind_eq_some_iff.mp hs
  obtain ⟨hf, hw⟩ := run_keeps .between hq hp
  cases hf with
  | between =>
    cases hfq
    cases hfp
    simp [pending] at hw ⊢
    omega
  | word w w' =>
    cases hfq
    cases hfp
    simp [pending, weight, Token.units] at hw ⊢
    omega
  | string => cases hfq
  | escape => cases hfq
  | hex => cases hfq
  | late => cases hfq

end

theorem shorts_pos {cs : List Char} {c : Char} (hc : c ∈ cs) (h : c.toNat < 16) :
    0 < shorts cs := by
  have h1 : short c = 1 := if_pos h
  exact List.sum_pos_iff_exists_pos_nat.mpr ⟨_, List.mem_map_of_mem hc, by omega⟩

/-- A text with a short escape is not read as what it says. -/
theorem jsonParse_ne {cs : List Char} {v : Value ν} (hv : read number true cs = some v)
    (hu : v.NamesUnique) {c : Char} (hc : c ∈ cs) (h : c.toNat < 16) :
    jsonParse number (cs.flatMap rewrite) ≠ some v.lastWins := by
  intro hp
  obtain ⟨w, hw, he⟩ := Option.map_eq_some_iff.mp hp
  obtain ⟨ts, hts, hpts⟩ := Option.bind_eq_some_iff.mp hv
  obtain ⟨us, hus, hpus⟩ := Option.bind_eq_some_iff.mp hw
  have hkeep := tokens_keeps hts hus
  have hpos := shorts_pos hc h
  unfold weight at hkeep
  rw [← parse_units number hpts, ← parse_units number hpus] at hkeep
  have hlast := w.length_lastWins
  rw [he, Value.lastWins_of_unique hu] at hlast
  omega

/-! ## From the bytes -/

/-- No JSON text begins with a byte order mark. -/
theorem head?_of_read {cs : List Char} {v : Value ν} {raw : Bool}
    (hv : read number raw cs = some v) : cs.head? ≠ some '\uFEFF' := by
  cases cs with
  | nil =>
    rintro ⟨⟩
  | cons c cs =>
    intro hc
    obtain rfl := Option.some.inj hc
    have hnone : step raw .between '\uFEFF' = none := by
      show outside '\uFEFF' = none
      decide
    rw [JsonText.read, tokens, run, hnone] at hv
    cases hv

/-- Every character is one that the rewriting and the check for corruption leave alone:
none is below U+0010 and none is U+FFFD. -/
def CleanText (t : String) : Prop := ∀ c ∈ t.toList, 16 ≤ c.toNat ∧ c ≠ '\uFFFD'

theorem parseDecryptedPayload_utf8 {t : String} {v : Value ν}
    (hv : read number true t.toList = some v) :
    parseDecryptedPayload number (utf8 t) =
      if '\uFFFD' ∈ t.toList then none else jsonParse number (t.toList.flatMap rewrite) := by
  rw [parseDecryptedPayload, textDecode_utf8, withoutBom_of_head (head?_of_read number hv)]
  rfl

theorem parseDecryptedPayload_of_clean {t : String} {v : Value ν}
    (hv : read number true t.toList = some v) (ht : CleanText t) :
    parseDecryptedPayload number (utf8 t) = some v.lastWins := by
  rw [parseDecryptedPayload_utf8 number hv, if_neg (fun h => (ht _ h).2 rfl), jsonParse,
    read_rewrite number (fun c hc => (ht c hc).1) hv, Option.map_some]

theorem clean_of_parse {t : String} {v : Value ν} (hv : read number true t.toList = some v)
    (hu : v.NamesUnique) (hp : parseDecryptedPayload number (utf8 t) = some v.lastWins) :
    CleanText t := by
  rw [parseDecryptedPayload_utf8 number hv] at hp
  split_ifs at hp with hbad
  intro c hc
  constructor
  · by_contra hlow
    exact jsonParse_ne number hv hu hc (by omega) hp
  · rintro rfl
    exact hbad hc

/-! ## What was encoded for a send -/

def stringUnits (s : String) : List Nat := s.toList.flatMap JsonText.units

theorem replacement_mem_units {c : Char} : 0xFFFD ∈ JsonText.units c ↔ c = '\uFFFD' := by
  have hvalid : c.toNat < 0x110000 := by
    rcases c.valid with h | h
    · exact lt_trans h (by omega)
    · exact h.2
  have heq : c = '\uFFFD' ↔ c.toNat = 0xFFFD := by rw [← Char.toNat_inj]; rfl
  unfold JsonText.units
  split
  · rw [List.mem_singleton, heq]
    omega
  · simp only [List.mem_cons, List.not_mem_nil, or_false, heq]
    omega

theorem replacement_mem_stringUnits {s : String} :
    0xFFFD ∈ stringUnits s ↔ '\uFFFD' ∈ s.toList := by
  simp only [stringUnits, List.mem_flatMap, replacement_mem_units, exists_eq_right]

section

variable (double : Rat → ν)

mutual

/-- The value of an item of cJSON. -/
def jsonValue : Json → Value ν
  | .null => .null
  | .bool b => .bool b
  | .num q => .num (double q)
  | .str s => .str (stringUnits s)
  | .arr items => .arr (jsonItems items)
  | .obj members => .obj (jsonMembers members)

def jsonItems : List Json → List (Value ν)
  | [] => []
  | j :: js => jsonValue j :: jsonItems js

def jsonMembers : List (String × Json) → List (List Nat × Value ν)
  | [] => []
  | (key, j) :: fs => (stringUnits key, jsonValue j) :: jsonMembers fs

end

/-- What cJSON prints for an item: a JSON text of its value without blanks and with the
control characters of its strings escaped, other characters as themselves. -/
structure Cjson.PrintsText (cj : Cjson) (j : Json) : Prop where
  reads : JsonText.read number false (cj.print j).toList = some (jsonValue double j)
  no_control : ∀ c ∈ (cj.print j).toList, 0x20 ≤ c.toNat
  replacement : '\uFFFD' ∈ (cj.print j).toList ↔ 0xFFFD ∈ (jsonValue double j).units

end

/-- The item a plaintext is printed from. -/
def Content.plaintextItem : Content → Json
  | .text t => .obj [("text", .str t)]
  | .sticon t resources _ =>
    .obj [("text", .str t), ("REPLACE", buildReplaceSticonObj resources)]
  | .image _ km => .obj [("keyMaterial", .str (b64Encode km.bytes))]

theorem Content.plaintext_eq (cj : Cjson) (c : Content) :
    c.plaintext cj = b64String (cj.print c.plaintextItem) := by
  cases c <;> rfl

/-- The strings of a plaintext that the caller chooses. -/
def Content.strings : Content → List String
  | .text t => [t]
  | .sticon t resources _ =>
    t :: resources.flatMap fun r => [r.packageId, r.sticonId, r.resourceType]
  | .image _ km => [b64Encode km.bytes]

/-- One of the resources that `build_replace_sticon_obj` prints. -/
def resourceItem (r : SticonResource) : Json := .obj [
  ("S", .num r.startOffset),
  ("E", .num r.endOffset),
  ("productId", .str r.packageId),
  ("sticonId", .str r.sticonId),
  ("version", if r.version = "" then .str "" else .num (Json.toDouble (Json.strtoll r.version))),
  ("resourceType", .str (if r.resourceType = "" then "STATIC" else r.resourceType))]

theorem buildReplaceSticonObj_eq (resources : List SticonResource) :
    buildReplaceSticonObj resources =
      .obj [("sticon", .obj [("resources", .arr (resources.map resourceItem))])] := rfl

def plaintextNames : List String :=
  ["text", "REPLACE", "keyMaterial", "sticon", "resources", "S", "E", "productId", "sticonId",
    "version", "resourceType", "STATIC", ""]

theorem replacement_notMem_names : ∀ s ∈ plaintextNames, 0xFFFD ∉ stringUnits s := by
  decide

section

variable (double : Rat → ν)

theorem resourceItem_unique (r : SticonResource) :
    (jsonValue double (resourceItem r)).NamesUnique := by
  have hnodup : (["S", "E", "productId", "sticonId", "version", "resourceType"].map
      stringUnits).Nodup := by decide
  have hversion : (jsonValue double (if r.version = "" then .str "" else
      .num (Json.toDouble (Json.strtoll r.version)))).NamesUnique := by
    split <;> simp only [jsonValue, Value.NamesUnique]
  simp only [List.map_cons, List.map_nil, List.nodup_cons] at hnodup
  simp only [resourceItem, jsonValue, jsonMembers, Value.NamesUnique, MembersUnique,
    List.map_cons, List.map_nil, hversion, true_and, and_true]
  tauto

theorem resourceItems_unique (resources : List SticonResource) :
    ItemsUnique (jsonItems double (resources.map resourceItem)) := by
  induction resources with
  | nil => simp only [List.map_nil, jsonItems, ItemsUnique]
  | cons r rs ih =>
    rw [List.map_cons, jsonItems, ItemsUnique]
    exact ⟨resourceItem_unique double r, ih⟩

theorem Content.plaintextItem_unique (c : Content) :
    (jsonValue double c.plaintextItem).NamesUnique := by
  have hne : stringUnits "text" ≠ stringUnits "REPLACE" := by decide
  cases c with
  | text t | image _ km =>
    simp [plaintextItem, jsonValue, jsonMembers, Value.NamesUnique, MembersUnique]
  | sticon t resources =>
    simp [plaintextItem, buildReplaceSticonObj_eq, jsonValue, jsonMembers, Value.NamesUnique,
      MembersUnique, hne, resourceItems_unique]

theorem replacement_mem_resource (r : SticonResource) :
    0xFFFD ∈ (jsonValue double (resourceItem r)).units ↔
      ∃ s ∈ [r.packageId, r.sticonId, r.resourceType], '\uFFFD' ∈ s.toList := by
  have hname := replacement_notMem_names
  simp only [plaintextNames, List.forall_mem_cons] at hname
  have hversion : 0xFFFD ∉ (jsonValue double (if r.version = "" then .str "" else
      .num (Json.toDouble (Json.strtoll r.version)))).units := by
    split <;> simp [jsonValue, Value.units, hname]
  have htype : 0xFFFD ∈ stringUnits (if r.resourceType = "" then "STATIC" else r.resourceType) ↔
      '\uFFFD' ∈ r.resourceType.toList := by
    split
    · rename_i h
      rw [h]
      simp [hname]
    · rw [replacement_mem_stringUnits]
  simp [resourceItem, jsonValue, jsonMembers, Value.units, membersUnits, hname, hversion, htype,
    replacement_mem_stringUnits]

theorem replacement_mem_resources (resources : List SticonResource) :
    0xFFFD ∈ itemsUnits (jsonItems double (resources.map resourceItem)) ↔
      ∃ s ∈ resources.flatMap fun r => [r.packageId, r.sticonId, r.resourceType],
        '\uFFFD' ∈ s.toList := by
  induction resources with
  | nil => simp [jsonItems, itemsUnits]
  | cons r rs ih =>
    simp only [List.map_cons, jsonItems, itemsUnits, List.mem_append, replacement_mem_resource, ih,
      List.flatMap_cons, or_and_right, exists_or]

theorem Content.replacement_mem (c : Content) :
    0xFFFD ∈ (jsonValue double c.plaintextItem).units ↔
      ∃ s ∈ c.strings, '\uFFFD' ∈ s.toList := by
  have hname := replacement_notMem_names
  simp only [plaintextNames, List.forall_mem_cons] at hname
  cases c with
  | text t | image _ km =>
    simp [plaintextItem, jsonValue, jsonMembers, Value.units, membersUnits, hname, strings,
      replacement_mem_stringUnits]
  | sticon t resources =>
    simp only [plaintextItem, buildReplaceSticonObj_eq, jsonValue, jsonMembers, Value.units,
      membersUnits, List.append_nil, List.mem_append, hname, replacement_mem_stringUnits,
      replacement_mem_resources, strings, List.mem_cons, false_or, or_and_right,
      exists_or, exists_eq_left]

end

/-- The bytes of a plaintext are its text. -/
theorem Content.bytes_of_plaintext {cj : Cjson} {c : Content} {bytes : List UInt8}
    (h : b64Encode bytes = c.plaintext cj) : bytes = utf8 (cj.print c.plaintextItem) := by
  rw [Content.plaintext_eq, b64String, b64Encode_inj] at h
  exact h

theorem Content.undone_iff {cj : Cjson} {double : Rat → ν} {c : Content}
    (hp : cj.PrintsText number double c.plaintextItem) :
    parseDecryptedPayload number (utf8 (cj.print c.plaintextItem)) =
        some (jsonValue double c.plaintextItem) ↔ ∀ s ∈ c.strings, '\uFFFD' ∉ s.toList := by
  have hv : JsonText.read number true (cj.print c.plaintextItem).toList =
      some (jsonValue double c.plaintextItem) := by
    rw [← read_of_high number hp.no_control false]
    exact hp.reads
  have hu := c.plaintextItem_unique double
  have hclean : CleanText (cj.print c.plaintextItem) ↔ ∀ s ∈ c.strings, '\uFFFD' ∉ s.toList := by
    have hmem := hp.replacement.trans (c.replacement_mem double)
    constructor
    · intro h s hs hbad
      exact (h _ (hmem.mpr ⟨s, hs, hbad⟩)).2 rfl
    · intro h ch hch
      have hlow := hp.no_control ch hch
      refine ⟨by omega, ?_⟩
      rintro rfl
      obtain ⟨s, hs, hbad⟩ := hmem.mp hch
      exact h s hs hbad
  rw [← hclean]
  conv_lhs => rw [← Value.lastWins_of_unique hu]
  exact ⟨clean_of_parse number hv hu, parseDecryptedPayload_of_clean number hv⟩

/-- A text is parsed to the value it denotes, control characters kept, where it holds no
character below U+0010 and no U+FFFD, and of the texts that repeat no name only there.
The plaintexts of a send hold none of the former, and are undone exactly where no string
of theirs holds the latter. -/
theorem parseDecryptedPayload_iff :
    (∀ (t : String) (v : Value ν), JsonText.read number true t.toList = some v →
      (CleanText t → parseDecryptedPayload number (utf8 t) = some v.lastWins) ∧
      (v.NamesUnique → parseDecryptedPayload number (utf8 t) = some v.lastWins → CleanText t)) ∧
    ∀ (cj : Cjson) (double : Rat → ν) (c : Content) (bytes : List UInt8),
      cj.PrintsText number double c.plaintextItem → b64Encode bytes = c.plaintext cj →
      (parseDecryptedPayload number bytes = some (jsonValue double c.plaintextItem) ↔
        ∀ s ∈ c.strings, '\uFFFD' ∉ s.toList) := by
  refine ⟨fun t v hv => ⟨parseDecryptedPayload_of_clean number hv, fun hu hp => ?_⟩, ?_⟩
  · exact clean_of_parse number hv hu hp
  · intro cj double c bytes hprint hb
    rw [Content.bytes_of_plaintext hb]
    exact Content.undone_iff number hprint

/-! ### Instances -/

/-- An array of one string, an accented letter and a control character. -/
def accentText : String := .ofList ['[', '\x22', '\u00e9', '\x10', '\x22', ']']

theorem accentText_read :
    JsonText.read id true accentText.toList = some (.arr [.str [0xE9, 0x10]]) := by
  rw [accentText, String.toList_ofList]
  rfl

theorem accentText_clean : CleanText accentText := by
  have hall : accentText.toList.all (fun c => 16 ≤ c.toNat && c ≠ '\uFFFD') = true := by
    rw [accentText, String.toList_ofList]
    decide
  intro c hc
  simpa using List.all_eq_true.mp hall c hc

def hiText : List Char :=
  ['\x7b', '\x22', 't', 'e', 'x', 't', '\x22', ':', '\x22', 'h', 'i', '\x22', '\x7d']

/-- cJSON on the plaintext of `hi`. -/
def hiJson : Cjson := ⟨fun _ => none, fun _ => .ofList hiText⟩

theorem hiJson_value : jsonValue (fun _ => ([] : List Char)) (Content.text "hi").plaintextItem =
    .obj [([116, 101, 120, 116], .str [104, 105])] := by
  have htext : stringUnits "text" = [116, 101, 120, 116] := by decide
  have hhi : stringUnits "hi" = [104, 105] := by decide
  simp only [Content.plaintextItem, jsonValue, jsonMembers, htext, hhi]

theorem hiJson_prints :
    hiJson.PrintsText id (fun _ => []) (Content.text "hi").plaintextItem where
  reads := by
    rw [hiJson_value, hiJson, String.toList_ofList]
    rfl
  no_control := by
    have hall : hiText.all (fun c => 0x20 ≤ c.toNat) = true := by decide
    rw [hiJson, String.toList_ofList]
    intro c hc
    simpa using List.all_eq_true.mp hall c hc
  replacement := by
    rw [hiJson_value, hiJson, String.toList_ofList]
    simp only [Value.units, membersUnits]
    decide

theorem parseDecryptedPayload_iff_plain :
    parseDecryptedPayload id (utf8 accentText) = some (.arr [.str [0xE9, 0x10]]) ∧
    parseDecryptedPayload id (utf8 (hiJson.print (Content.text "hi").plaintextItem)) =
      some (jsonValue (fun _ => []) (Content.text "hi").plaintextItem) := by
  constructor
  · have h := ((parseDecryptedPayload_iff id).1 accentText _ accentText_read).1 accentText_clean
    simpa only [Value.lastWins, lastItems] using h
  · exact ((parseDecryptedPayload_iff id).2 hiJson (fun _ => []) (.text "hi") _ hiJson_prints
      (Content.plaintext_eq _ _).symm).mpr (by decide)

/-- The message `a`, newline, `b`, as an object with the newline unescaped. -/
def newlineText : List Char :=
  ['\x7b', '\x22', 't', 'e', 'x', 't', '\x22', ':', '\x22', 'a', '\n', 'b', '\x22', '\x7d']

/-- The newline and the letter are read as one character, U+00AB. -/
theorem newline_misread : ¬ ∀ (t : String) (v : Value (List Char)),
    JsonText.read id true t.toList = some v →
    parseDecryptedPayload id (utf8 t) = some v.lastWins := by
  intro hall
  have hread : JsonText.read id true (String.ofList newlineText).toList =
      some (.obj [([116, 101, 120, 116], .str [97, 10, 98])]) := by
    rw [String.toList_ofList]
    rfl
  have hp := hall _ _ hread
  have hmis : jsonParse id (newlineText.flatMap rewrite) =
      some (.obj [([116, 101, 120, 116], .str [97, 0xAB])]) := by rfl
  rw [parseDecryptedPayload_utf8 id hread, String.toList_ofList, if_neg (by decide), hmis] at hp
  simp [Value.lastWins, lastMembers] at hp

end Enil
