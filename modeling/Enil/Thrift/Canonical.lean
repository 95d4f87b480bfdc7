import Enil.Thrift.RoundTrip

/-!
# What was read is written as it was

The value the decoder makes of what was written gives the same bytes when it is written again:
the form that is read is a canonical one.
-/

namespace Enil.Thrift

open Lib

/-! ## Decimal numbers -/

/-- The digits of a number. -/
def decimal (m : Nat) : List UInt8 := (Nat.repr m).toList.map fun c => UInt8.ofNat c.toNat

theorem utf8_repr (m : Nat) : utf8 (Nat.repr m) = decimal m := by
  rw [show Nat.repr m = String.ofList (Nat.repr m).toList from String.ofList_toList.symm,
    utf8_ofList_ascii]
  · rfl
  · intro c hc
    have := isDigit_iff.mp ((isDigit_toNat c).trans (isDigit_repr hc))
    omega

theorem utf8_toString (n : Int) :
    utf8 (toString n) = if 0 ≤ n then decimal n.toNat else 45 :: decimal (-n).toNat := by
  rw [show toString n = n.repr from rfl, Int.repr_eq_if]
  split
  · exact utf8_repr _
  · have hminus : utf8 "-" = [45] := by
      rw [utf8_eq_flatMap]
      decide
    rw [utf8_append, utf8_repr, hminus, List.singleton_append]

theorem digits_decimal (m : Nat) : digits ((decimal m).map UInt8.toNat) = m := by
  have hbytes : (decimal m).map UInt8.toNat = (Nat.repr m).toList.map Char.toNat := by
    rw [decimal, List.map_map]
    exact List.map_congr_left fun c hc => toNat_digit (isDigit_repr hc)
  rw [hbytes, digits_repr]

theorem isDigit_decimal {m : Nat} {c : UInt8} (h : c ∈ decimal m) : isDigit c.toNat = true := by
  obtain ⟨d, hd, rfl⟩ := List.mem_map.mp h
  exact isDigit_byte (isDigit_repr hd)

theorem mem_decimal {m : Nat} {c : UInt8} (h : c ∈ decimal m) : 48 ≤ c ∧ c ≤ 57 := by
  rw [UInt8.le_iff_toNat_le, UInt8.le_iff_toNat_le]
  exact isDigit_iff.mp (isDigit_decimal h)

theorem exists_cons_decimal (m : Nat) : ∃ c cs, decimal m = c :: cs := by
  cases h : decimal m with
  | nil =>
    have hlen : (Nat.repr m).toList = [] := List.map_eq_nil_iff.mp h
    rw [Nat.toList_repr] at hlen
    have := Nat.length_toDigits_pos (b := 10) (n := m)
    rw [hlen] at this
    cases this
  | cons c cs => exact ⟨c, cs, rfl⟩

theorem length_decimal {m : Nat} (h : m < 10 ^ 38) : (decimal m).length ≤ 38 := by
  rw [decimal, List.length_map, Nat.toList_repr]
  exact (Nat.length_toDigits_le_iff (by omega) (by omega)).mpr h

theorem all_isDigit_decimal (m : Nat) : ((decimal m).all fun c => isDigit c.toNat) = true :=
  List.all_eq_true.mpr fun _ hc => isDigit_decimal hc

theorem unblank_decimal (m : Nat) : unblank (decimal m) = (false, decimal m) := by
  obtain ⟨c, cs, h⟩ := exists_cons_decimal m
  have hc : 48 ≤ c.toNat ∧ c.toNat ≤ 57 := by
    have := mem_decimal (h ▸ List.mem_cons_self : c ∈ decimal m)
    exact ⟨UInt8.le_iff_toNat_le.mp this.1, UInt8.le_iff_toNat_le.mp this.2⟩
  have hspace : isSpace c.toNat = false :=
    isSpace_of_isDigit (isDigit_decimal (h ▸ List.mem_cons_self))
  rw [h, unblank, List.dropWhile_cons_of_neg (by rw [hspace]; exact Bool.false_ne_true), sign]
  rw [if_neg, if_neg]
  · rintro ⟨⟩
    exact absurd hc.1 (by decide)
  · rintro ⟨⟩
    exact absurd hc.1 (by decide)

theorem unblank_minus (m : Nat) : unblank (45 :: decimal m) = (true, decimal m) := by
  rw [unblank, List.dropWhile_cons_of_neg (by decide)]
  exact if_pos rfl

theorem cText_utf8_toString (n : Int) : cText (utf8 (toString n)) = utf8 (toString n) := by
  rw [cText, List.takeWhile_eq_self_iff]
  intro c hc
  apply decide_eq_true
  rintro rfl
  rw [utf8_toString] at hc
  split at hc
  · exact absurd (mem_decimal hc).1 (by decide)
  · rcases List.mem_cons.mp hc with h | h
    · exact absurd h (by decide)
    · exact absurd (mem_decimal h).1 (by decide)

/-- A number of 64 bits that was printed is the number. -/
theorem jsonInteger_toString {n : Int} (hmin : -2 ^ 63 ≤ n) (hmax : n ≤ 2 ^ 63 - 1) :
    jsonInteger (.str (utf8 (toString n))) = some n := by
  have hne : ∀ m, decimal m ≠ [] := fun m h => by
    obtain ⟨c, cs, hcs⟩ := exists_cons_decimal m
    rw [hcs] at h
    cases h
  show strtoll (cText (utf8 (toString n))) = some n
  rw [cText_utf8_toString, utf8_toString, strtoll]
  split
  · have hsigned : signed (false, decimal n.toNat) = n := by
      rw [signed, if_neg Bool.false_ne_true, digits_decimal]
      omega
    rw [unblank_decimal, hsigned]
    exact if_pos ⟨hne _, all_isDigit_decimal _, hmin, hmax⟩
  · have hsigned : signed (true, decimal (-n).toNat) = n := by
      rw [signed, if_pos rfl, digits_decimal]
      omega
    rw [unblank_minus, hsigned]
    exact if_pos ⟨hne _, all_isDigit_decimal _, hmin, hmax⟩

/-- The key of a map that a number makes is the number. -/
theorem keyText_num {n : Int} (hmin : -2 ^ 63 ≤ n) (hmax : n ≤ 2 ^ 63 - 1) :
    keyText (.num n) = some (utf8 (toString n)) := by
  have hround : roundHalfEven (n : Rat) = n := by
    unfold roundHalfEven
    simp
  have hneg : ¬ (n = 0 ∧ (n : Rat) < 0) := by
    rintro ⟨rfl, h⟩
    simp at h
  have hlen : (utf8 (toString n)).length ≤ 39 := by
    rw [utf8_toString]
    split
    · have := length_decimal (m := n.toNat) (by norm_num; omega)
      omega
    · have := length_decimal (m := (-n).toNat) (by norm_num; omega)
      rw [List.length_cons]
      omega
  rw [keyText, formatFixed, hround, if_neg hneg, List.take_of_length_le hlen]

/-! ## Single values -/

section

variable {w : Source} {double : Nat → Rat}

theorem decodeBinary_encode (bs : List UInt8) :
    decodeBinary w (cText (utf8 (b64Encode bs))) = some bs := by
  have hall : (Base64.alphabet.all fun c => decide (0 < c.toNat ∧ c.toNat < 128)) = true := by
    decide
  have hascii : ∀ c ∈ Base64.encode bs, 0 < c.toNat ∧ c.toNat < 128 := by
    intro c hc
    rcases Base64.mem_encode hc with h | rfl
    · exact of_decide_eq_true (List.all_eq_true.mp hall c h)
    · decide
  have htext : cText (utf8 (b64Encode bs)) = (Base64.encode bs).map fun c => UInt8.ofNat c.toNat :=
    cString_ofList_ascii hascii
  have hback : (Base64.encode bs).map (fun c => Char.ofNat (UInt8.ofNat c.toNat).toNat) =
      Base64.encode bs := by
    refine List.map_congr_left (g := id) (fun c hc => ?_) |>.trans (List.map_id _)
    rw [UInt8.toNat_ofNat', Nat.mod_eq_of_lt (by have := hascii c hc; omega), Char.ofNat_toNat, id]
  rw [decodeBinary, htext, List.map_map]
  show b64DecodeAlloc w.evp (String.ofList ((Base64.encode bs).map fun c =>
    Char.ofNat (UInt8.ofNat c.toNat).toNat)) = some bs
  rw [hback]
  exact b64DecodeAlloc_encode w.evp bs

theorem jsonInteger_num {n : Int} (hmin : -9007199254740991 ≤ n) (hmax : n ≤ 9007199254740991) :
    jsonInteger (.num n) = some n := by
  have hint : ((n : Rat)).isInt = true := by simp [Rat.isInt]
  refine (if_pos ⟨?_, ?_, hint⟩).trans (by rw [Rat.num_intCast])
  · exact_mod_cast hmin
  · exact_mod_cast hmax

/-- What comes of an integer is the same integer, also as the key of a map. -/
theorem jsonInteger_reread {code : Nat} {v y : Item} {b b' : List UInt8}
    (hcode : 3 ≤ code ∧ code ≤ 6) (hb : writeInteger code v b = some b')
    (hy : rereadInteger code v = some y) : jsonInteger y = jsonInteger v ∧ y.isNull = false ∧
      ∀ key, keyText y = some key → jsonInteger (.str key) = jsonInteger v := by
  obtain ⟨n, hn, rfl⟩ := Option.map_eq_some_iff.mp hy
  obtain ⟨hmin, hmax⟩ := jsonInteger_range hn
  rw [hn]
  by_cases h6 : code = 6
  · rw [if_pos h6]
    have htext := jsonInteger_toString hmin hmax
    exact ⟨htext, rfl, fun key hkey => Option.some.inj hkey ▸ htext⟩
  · rw [if_neg h6]
    have hsmall : -2147483648 ≤ n ∧ n ≤ 2147483647 := by
      unfold writeInteger at hb
      simp only [hn] at hb
      split at hb
      · cases hb
      · rename_i hrange
        simp only [inRange] at hrange
        grind
    refine ⟨jsonInteger_num (by omega) (by omega), rfl, fun key hkey => ?_⟩
    rw [keyText_num hmin hmax] at hkey
    exact Option.some.inj hkey ▸ jsonInteger_toString hmin hmax

theorem writeInteger_congr {code : Nat} {v y : Item} (h : jsonInteger y = jsonInteger v) :
    writeInteger code y = writeInteger code v := by
  unfold writeInteger
  rw [h]

theorem writeBytes_reread {t : Option FieldType} {v y : Item} (hy : rereadBytes w t v = some y) :
    writeBytes w t y = writeBytes w t v ∧ ∃ s, y = .str s := by
  cases v with
  | str s =>
    unfold rereadBytes at hy
    unfold writeBytes
    by_cases hk : schemaKind t = "binary"
    · simp only [hk, ne_eq, not_true_eq_false, if_false] at hy ⊢
      obtain ⟨bs, hd, rfl⟩ := Option.map_eq_some_iff.mp hy
      simp only [hd, decodeBinary_encode]
      exact ⟨trivial, _, rfl⟩
    · simp only [hk, ne_eq, not_false_eq_true, if_true] at hy ⊢
      cases hy
      simp only [cText_cText]
      exact ⟨trivial, _, rfl⟩
  | null | bool _ | num _ | arr _ | obj _ => cases hy

/-! ## Structs -/

theorem names_of_rereadFields {cvalue : Reread} {depth index : Nat} {v : Item} {fs : List Field}
    {items : List (List UInt8 × Item)} (h : rereadFields cvalue depth v fs index = some items) :
    ∀ e ∈ items, ∃ g ∈ fs, e.1 = utf8 g.name := by
  induction fs generalizing index items with
  | nil =>
    cases h
    exact fun e he => absurd he List.not_mem_nil
  | cons f fs ih =>
    unfold rereadFields at h
    split at h
    · intro e he
      obtain ⟨g, hg, hname⟩ := ih h e he
      exact ⟨g, List.mem_cons_of_mem f hg, hname⟩
    · obtain ⟨y, -, h⟩ := Option.bind_eq_some_iff.mp h
      obtain ⟨rest, hrest, rfl⟩ := Option.map_eq_some_iff.mp h
      intro e he
      rcases List.mem_cons.mp he with rfl | he
      · exact ⟨f, List.mem_cons_self, rfl⟩
      · obtain ⟨g, hg, hname⟩ := ih hrest e he
        exact ⟨g, List.mem_cons_of_mem f hg, hname⟩

/-- A field whose name no item has is not there. -/
theorem fieldValue_eq_none {items : List (List UInt8 × Item)} {f : Field} {index : Nat}
    (h : ∀ e ∈ items, e.1 ≠ utf8 f.name) : fieldValue (.obj items) f index = none := by
  have hfind : items.find? (fun e => e.1 == utf8 f.name) = none := by
    rw [List.find?_eq_none]
    intro e he
    simpa using h e he
  rw [fieldValue, hfind, Option.map_none]

theorem fieldValue_eq_some {items rest : List (List UInt8 × Item)} {f : Field} {index : Nat}
    {y : Item} (h : ∀ e ∈ items, e.1 ≠ utf8 f.name) :
    fieldValue (.obj (items ++ (utf8 f.name, y) :: rest)) f index = some y := by
  have hfind : (items ++ (utf8 f.name, y) :: rest).find? (fun e => e.1 == utf8 f.name) =
      some (utf8 f.name, y) := by
    have hpre : items.find? (fun e => e.1 == utf8 f.name) = none := by
      rw [List.find?_eq_none]
      intro e he
      simpa using h e he
    rw [List.find?_append, hpre, List.find?_cons_of_pos (by simp)]
    rfl
  rw [fieldValue, hfind, Option.map_some]

theorem name_ne {pre fs : List Field} {f g : Field} (h : FieldsOk (pre ++ f :: fs))
    (hg : g ∈ pre ∨ g ∈ fs) : utf8 g.name ≠ utf8 f.name := by
  have hnames := h.names
  rw [List.map_append, List.map_cons, List.nodup_append, List.nodup_cons] at hnames
  intro he
  rcases hg with hg | hg
  · refine hnames.2.2 _ (List.mem_map_of_mem hg) _ List.mem_cons_self ?_
    rw [he]
  · refine hnames.2.1.1 (List.mem_map.mpr ⟨g, hg, ?_⟩)
    rw [he]

section

variable {value : WriteValue} {cvalue : Reread} {depth : Nat}
  (hvalue : ∀ t v y b b', value t v (depth + 1) b = some b' → cvalue t v (depth + 1) = some y →
    value t y (depth + 1) b = some b' ∧ y.isNull = false)
  (hbool : ∀ t b y, compactType t = 1 → cvalue t (.bool b) (depth + 1) = some y → y = .bool b)
include hvalue hbool

/-- The fields `fs` of what was read behind those that `items` are of. -/
theorem writeFields_reread {v : Item} {pre fs : List Field} (hok : FieldsOk (pre ++ fs))
    {last : Int} {index index' : Nat} {items rest : List (List UInt8 × Item)}
    (hitems : ∀ e ∈ items, ∃ g ∈ pre, e.1 = utf8 g.name) {b b' : List UInt8}
    (hb : writeFields value depth v fs last index b = some b')
    (hrest : rereadFields cvalue depth v fs index = some rest) :
    writeFields value depth (.obj (items ++ rest)) fs last index' b = some b' := by
  induction fs generalizing pre last index index' items rest b with
  | nil => exact hb
  | cons f fs ih =>
    have hok' : FieldsOk ((pre ++ [f]) ++ fs) := by
      rwa [List.append_assoc, List.singleton_append]
    have hpre : ∀ e ∈ items, e.1 ≠ utf8 f.name := fun e he => by
      obtain ⟨g, hg, hname⟩ := hitems e he
      rw [hname]
      exact name_ne hok (.inl hg)
    have hitems' : ∀ e ∈ items, ∃ g ∈ pre ++ [f], e.1 = utf8 g.name := fun e he => by
      obtain ⟨g, hg, hname⟩ := hitems e he
      exact ⟨g, List.mem_append_left _ hg, hname⟩
    unfold writeFields at hb ⊢
    unfold rereadFields at hrest
    cases hx : (fieldValue v f index).filter (!·.isNull) with
    | none =>
      rw [hx] at hb hrest
      have habsent : fieldValue (.obj (items ++ rest)) f index' = none := by
        refine fieldValue_eq_none fun e he => ?_
        rcases List.mem_append.mp he with he | he
        · exact hpre e he
        · obtain ⟨g, hg, hname⟩ := names_of_rereadFields hrest e he
          rw [hname]
          exact name_ne hok (.inr hg)
      rw [habsent]
      exact ih hok' hitems' hb hrest
    | some x =>
      rw [hx] at hb hrest
      obtain ⟨y, hy, hrest⟩ := Option.bind_eq_some_iff.mp hrest
      obtain ⟨rest, hfields, rfl⟩ := Option.map_eq_some_iff.mp hrest
      rw [fieldValue_eq_some hpre]
      cases hcode : headerCode f.type x with
      | none =>
        simp only [hcode] at hb
        cases hb
      | some code =>
        simp only [hcode] at hb
        obtain ⟨b₁, hheader, hb⟩ := Writing.seq_eq_some.mp hb
        obtain ⟨b₂, hval, hb⟩ := Writing.seq_eq_some.mp hb
        -- the value is the same in the header and behind it
        have hsame : y.isNull = false ∧ headerCode f.type y = some code ∧
            (if 2 < code then value (some f.type) y (depth + 1) else some) b₁ = some b₂ := by
          unfold headerCode at hcode ⊢
          by_cases h1 : compactType (some f.type) = 1
          · rw [if_pos h1] at hcode ⊢
            cases x with
            | bool c =>
              rw [hbool _ c y h1 hy]
              exact ⟨rfl, hcode, by cases hcode; cases c <;> exact hval⟩
            | null | num _ | str _ | arr _ | obj _ => cases hcode
          · rw [if_neg h1] at hcode ⊢
            have hrange := compactType_range (some f.type)
            obtain rfl := Option.some.inj hcode
            rw [if_pos (by omega)] at hval ⊢
            obtain ⟨hwrite, hnull⟩ := hvalue _ x y b₁ b₂ hval hy
            exact ⟨hnull, rfl, hwrite⟩
        obtain ⟨hnull, hcode', hval'⟩ := hsame
        have hthere : (some y).filter (!·.isNull) = some y := by
          rw [Option.filter_some, hnull]
          rfl
        simp only [hthere, hcode']
        refine Writing.seq_eq_some.mpr ⟨b₁, hheader, Writing.seq_eq_some.mpr ⟨b₂, hval', ?_⟩⟩
        have hnext : writeFields value depth (.obj ((items ++ [(utf8 f.name, y)]) ++ rest)) fs f.id
            (index' + 1) b₂ = some b' := ih hok' (fun e he => by
            rcases List.mem_append.mp he with he | he
            · exact hitems' e he
            · rw [List.mem_singleton.mp he]
              exact ⟨f, List.mem_append_right _ List.mem_cons_self, rfl⟩) hb hfields
        rwa [List.append_assoc, List.singleton_append] at hnext

theorem writeStruct_reread {fs : Option (List Field)} (hok : ∀ all, fs = some all → FieldsOk all)
    {v y : Item} {b b' : List UInt8} (hb : writeStruct value fs v depth b = some b')
    (hy : rereadStruct cvalue fs v depth = some y) :
    writeStruct value fs y depth b = some b' ∧ y.isNull = false := by
  unfold writeStruct at hb ⊢
  unfold rereadStruct at hy
  by_cases hdepth : 40 < depth
  · rw [if_pos hdepth] at hy
    cases hy
  rw [if_neg hdepth] at hb hy ⊢
  cases fs with
  | none => cases hy
  | some fs =>
    obtain ⟨items, hitems, rfl⟩ := Option.map_eq_some_iff.mp hy
    refine ⟨?_, rfl⟩
    have hfields : writeFields value depth v fs 0 0 b = some b' := by
      cases v with
      | obj _ | arr _ => exact hb
      | null | bool _ | num _ | str _ => cases hb
    have hread : writeFields value depth (.obj ([] ++ items)) fs 0 0 b = some b' :=
      writeFields_reread hvalue hbool (show FieldsOk ([] ++ fs) from hok fs rfl)
        (fun e he => absurd he List.not_mem_nil) hfields hitems
    exact hread

end

end

/-! ## Lists, maps and values -/

section

variable {value : WriteValue} {cvalue : Reread} {depth : Nat}
  (hvalue : ∀ t v y b b', value t v (depth + 1) b = some b' → cvalue t v (depth + 1) = some y →
    value t y (depth + 1) b = some b' ∧ y.isNull = false)
include hvalue

theorem writeList_reread {t : Option FieldType} {v y : Item} {b b' : List UInt8}
    (hb : writeList value t v depth b = some b') (hy : rereadList cvalue t v depth = some y) :
    writeList value t y depth b = some b' ∧ y.isNull = false := by
  cases v with
  | arr xs =>
    unfold rereadList at hy
    simp only at hy
    split at hy
    · cases hy
    · obtain ⟨ys, hys, rfl⟩ := Option.map_eq_some_iff.mp hy
      obtain ⟨c, hhead, hall⟩ := Writing.seq_eq_some.mp hb
      obtain ⟨hall', hlen⟩ := Writing.all_of_mapM
        (fun x y b b' hx hy => (hvalue _ x y b b' hx hy).1) hall hys
      exact ⟨Writing.seq_eq_some.mpr ⟨c, hlen.symm ▸ hhead, hall'⟩, rfl⟩
  | null | bool _ | num _ | str _ | obj _ => cases hy

theorem writeMap_reread (hkey : ∀ t s y key b b', value t (.str s) (depth + 1) b = some b' →
      cvalue t (.str s) (depth + 1) = some y → keyText y = some key →
      value t (.str key) (depth + 1) b = some b')
    {t : Option FieldType} {v y : Item} {b b' : List UInt8}
    (hb : writeMap value t v depth b = some b') (hy : rereadMap cvalue t v depth = some y) :
    writeMap value t y depth b = some b' ∧ y.isNull = false := by
  cases v with
  | obj items =>
    unfold rereadMap at hy
    simp only at hy
    split at hy
    · cases hy
    · obtain ⟨ys, hys, rfl⟩ := Option.map_eq_some_iff.mp hy
      obtain ⟨c, hhead, hall⟩ := Writing.seq_eq_some.mp hb
      obtain ⟨hall', hlen⟩ := Writing.all_of_mapM (g := writeEntry value t depth)
        (fun e e' b b' he he' => by
          obtain ⟨b₁, hk, hx⟩ := Writing.seq_eq_some.mp he
          obtain ⟨key, hkey', he'⟩ := Option.bind_eq_some_iff.mp he'
          obtain ⟨z, hz, htext⟩ := Option.bind_eq_some_iff.mp hkey'
          obtain ⟨x, hx', rfl⟩ := Option.map_eq_some_iff.mp he'
          exact Writing.seq_eq_some.mpr ⟨b₁, hkey _ _ z key b b₁ hk hz htext,
            (hvalue _ _ x b₁ b' hx hx').1⟩) hall hys
      exact ⟨Writing.seq_eq_some.mpr ⟨c, hlen.symm ▸ hhead, hall'⟩, rfl⟩
  | null | bool _ | num _ | str _ | arr _ => cases hy

end

section

variable {w : Source} {double : Nat → Rat}

/-- The key of an entry is written again as it was. -/
theorem writeKey_reread {fuel depth : Nat} {t : Option FieldType} {s key b b' : List UInt8}
    {y : Item} (hb : writeValue w fuel t (.str s) depth b = some b')
    (hy : rereadValue w double fuel t (.str s) depth = some y) (hkey : keyText y = some key) :
    writeValue w fuel t (.str key) depth b = some b' := by
  cases fuel with
  | zero => cases hb
  | succ fuel =>
    unfold writeValue at hb ⊢
    unfold rereadValue at hy
    by_cases hdepth : 40 < depth
    · rw [if_pos hdepth] at hb
      cases hb
    rw [if_neg hdepth] at hb hy ⊢
    by_cases h1 : compactType t = 1
    · rw [if_pos h1] at hb
      cases hb
    rw [if_neg h1] at hb hy ⊢
    by_cases hint : 3 ≤ compactType t ∧ compactType t ≤ 6
    · rw [if_pos hint] at hb ⊢
      rw [if_neg (by omega), if_pos hint] at hy
      rw [writeInteger_congr ((jsonInteger_reread hint hb hy).2.2 key hkey)]
      exact hb
    rw [if_neg hint] at hb hy ⊢
    by_cases h7 : compactType t = 7
    · rw [if_pos h7] at hb
      cases hb
    rw [if_neg h7] at hb hy ⊢
    by_cases h8 : compactType t = 8
    · rw [if_pos h8] at hb hy ⊢
      obtain ⟨heq, z, rfl⟩ := writeBytes_reread hy
      obtain rfl := Option.some.inj hkey
      rw [heq]
      exact hb
    rw [if_neg h8] at hb
    split at hb
    · cases hb
    split at hb
    · cases hb
    · unfold writeStruct at hb
      split at hb
      · cases hb
      · cases hfs : schemaFields w.schema t with
        | none =>
          rw [hfs] at hb
          cases hb
        | some fs =>
          rw [hfs] at hb
          cases hb

theorem rereadValue_bool {fuel depth : Nat} {t : Option FieldType} {c : Bool} {y : Item}
    (ht : compactType t = 1) (hy : rereadValue w double fuel t (.bool c) depth = some y) :
    y = .bool c := by
  cases fuel with
  | zero => cases hy
  | succ fuel =>
    unfold rereadValue at hy
    rw [if_pos ht] at hy
    split at hy
    · cases hy
    · exact (Option.some.inj hy).symm

theorem writeValue_reread (hok : SchemaOk w.schema)
    (hdouble : ∀ q, w.bits (double (w.bits q).toNat) = w.bits q) (fuel : Nat)
    (t : Option FieldType) (v y : Item) {depth : Nat} (b b' : List UInt8)
    (hb : writeValue w fuel t v depth b = some b')
    (hy : rereadValue w double fuel t v depth = some y) :
    writeValue w fuel t y depth b = some b' ∧ y.isNull = false := by
  induction fuel generalizing t v y depth b b' with
  | zero => cases hb
  | succ fuel ih =>
    unfold writeValue at hb ⊢
    unfold rereadValue at hy
    by_cases hdepth : 40 < depth
    · rw [if_pos hdepth] at hb
      cases hb
    rw [if_neg hdepth] at hb hy ⊢
    by_cases h1 : compactType t = 1
    · rw [if_pos h1] at hb hy ⊢
      cases v with
      | bool c =>
        cases hy
        exact ⟨hb, rfl⟩
      | null | num _ | str _ | arr _ | obj _ => cases hb
    rw [if_neg h1] at hb hy ⊢
    by_cases hint : 3 ≤ compactType t ∧ compactType t ≤ 6
    · rw [if_pos hint] at hb ⊢
      rw [if_neg (by omega), if_pos hint] at hy
      obtain ⟨hsame, hnull, -⟩ := jsonInteger_reread hint hb hy
      rw [writeInteger_congr hsame]
      exact ⟨hb, hnull⟩
    rw [if_neg hint] at hb hy ⊢
    by_cases h7 : compactType t = 7
    · rw [if_pos h7] at hb hy ⊢
      cases v with
      | num q =>
        cases hy
        simp only [hdouble]
        exact ⟨hb, rfl⟩
      | null | bool _ | str _ | arr _ | obj _ => cases hb
    rw [if_neg h7] at hb hy ⊢
    by_cases h8 : compactType t = 8
    · rw [if_pos h8] at hb hy ⊢
      obtain ⟨heq, z, rfl⟩ := writeBytes_reread hy
      rw [heq]
      exact ⟨hb, rfl⟩
    rw [if_neg h8] at hb hy ⊢
    have hbelow : ∀ t v y b b', writeValue w fuel t v (depth + 1) b = some b' →
        rereadValue w double fuel t v (depth + 1) = some y →
        writeValue w fuel t y (depth + 1) b = some b' ∧ y.isNull = false :=
      fun t v y b b' => ih t v y b b'
    by_cases hlist : compactType t = 9 ∨ compactType t = 10
    · rw [if_pos hlist] at hb hy ⊢
      exact writeList_reread hbelow hb hy
    rw [if_neg hlist] at hb hy ⊢
    by_cases h11 : compactType t = 11
    · rw [if_pos h11] at hb hy ⊢
      exact writeMap_reread hbelow (fun _ _ _ _ _ _ => writeKey_reread) hb hy
    rw [if_neg h11] at hb hy ⊢
    exact writeStruct_reread (fun t v y b b' => ih t v y b b')
      (fun _ _ _ ht hy => rereadValue_bool ht hy) (fun _ => hok.schemaFields) hb hy

/-- What was read of the arguments of a call is the same call. -/
theorem enilThriftEncode_reread (double : Nat → Rat) (hok : SchemaOk w.schema)
    (hdouble : ∀ q, w.bits (double (w.bits q).toNat) = w.bits q) {method : String}
    {e : String × List Field}
    (he : (w.schema.find? fun e => utf8 e.1 == (utf8 method ++ utf8 "_args").take 159) = some e)
    {args y : Item} {p : List UInt8} (hp : enilThriftEncode w method args = some p)
    (hy : rereadStruct (rereadValue w double 42) (some e.2) args 0 = some y) :
    enilThriftEncode w method y = some p := by
  have hfields : FieldsOk e.2 := hok e (List.mem_of_find?_eq_some he)
  unfold enilThriftEncode writeMessage at hp ⊢
  rw [he] at hp ⊢
  obtain ⟨b₁, h₁, hp⟩ := Writing.seq_eq_some.mp hp
  obtain ⟨b₂, h₂, hp⟩ := Writing.seq_eq_some.mp hp
  obtain ⟨b₃, h₃, hp⟩ := Writing.seq_eq_some.mp hp
  obtain ⟨b₄, h₄, hp⟩ := Writing.seq_eq_some.mp hp
  obtain ⟨b₅, h₅, hp⟩ := Writing.seq_eq_some.mp hp
  refine Writing.seq_eq_some.mpr ⟨b₁, h₁, Writing.seq_eq_some.mpr ⟨b₂, h₂,
    Writing.seq_eq_some.mpr ⟨b₃, h₃, Writing.seq_eq_some.mpr ⟨b₄, h₄,
      Writing.seq_eq_some.mpr ⟨b₅, h₅, ?_⟩⟩⟩⟩⟩
  exact (writeStruct_reread (fun t v y b b' => writeValue_reread hok hdouble 42 t v y b b')
    (fun _ _ _ ht hy => rereadValue_bool ht hy)
    (fun all hall => Option.some.inj hall ▸ hfields) hp hy).1

end

/-- An excerpt of the schema. -/
def contactsSource : Source where
  schema := [("getContacts_args", [⟨2, "mids", .of "list" [.name "string"]⟩])]
  bits _ := 0
  evp := .groups

/-- The call with one id, as bytes. -/
def contactsCall : List UInt8 :=
  [130, 33, 0, 11, 103, 101, 116, 67, 111, 110, 116, 97, 99, 116, 115, 41, 24, 2, 117, 49, 0]

theorem schemaOk_contactsSource : SchemaOk contactsSource.schema := by
  intro e he
  rw [contactsSource, List.mem_singleton] at he
  subst he
  exact ⟨by decide, by decide, List.nodup_singleton _⟩

theorem find_contactsSource : (contactsSource.schema.find? fun e =>
    utf8 e.1 == (utf8 "getContacts" ++ utf8 "_args").take 159) =
      some ("getContacts_args", [⟨2, "mids", .of "list" [.name "string"]⟩]) := by
  have hname : "getContacts" ++ "_args" = "getContacts_args" := by decide
  unfold contactsSource
  rw [← utf8_append, hname, List.take_of_length_le (by rw [length_utf8]; decide),
    List.find?_cons_of_pos (by simp)]

theorem enilThriftEncode_contactsSource : enilThriftEncode contactsSource "getContacts"
    (.arr [.arr [.str [117, 49]]]) = some contactsCall := by
  have hname : utf8 "getContacts" = [103, 101, 116, 67, 111, 110, 116, 97, 99, 116, 115] := by
    rw [utf8_eq_flatMap]
    decide
  unfold enilThriftEncode
  rw [find_contactsSource]
  unfold writeMessage
  rw [hname]
  decide

/-- Arguments by their place, and the same by their name. -/
theorem enilThriftEncode_reread_contacts : enilThriftEncode contactsSource "getContacts"
    (.obj [(utf8 "mids", .arr [.str [117, 49]])]) = some contactsCall :=
  enilThriftEncode_reread (fun _ => 0) schemaOk_contactsSource (fun _ => rfl) find_contactsSource
    enilThriftEncode_contactsSource rfl

end Enil.Thrift
