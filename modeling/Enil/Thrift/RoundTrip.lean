import Enil.Thrift.Bounds
import Enil.Thrift.Write

/-!
# What is written is read again

`reread` says what the decoder makes of a value the encoder took, and where it refuses what
was written. Every writer is put together with its reader, from the bytes of a number up to a
whole reply.
-/

namespace Enil.Thrift

open Lib Lib.Reading

/-! ## What is read -/

section

variable (w : Source)

/-- The types 3 to 6. -/
def rereadInteger (code : Nat) (v : Item) : Option Item :=
  (jsonInteger v).map fun (n : Int) => if code = 6 then .str (utf8 (toString n)) else .num n

/-- The type 8. -/
def rereadBytes (t : Option FieldType) (v : Item) : Option Item :=
  match v with
  | .str s =>
    if schemaKind t ≠ "binary" then some (.str (cText s))
    else (decodeBinary w (cText s)).map fun bs => .str (utf8 (b64Encode bs))
  | _ => none

def rereadDouble (double : Nat → Rat) (v : Item) : Option Item :=
  match v with
  | .num q => some (.num (double (w.bits q).toNat))
  | _ => none

abbrev Reread := Option FieldType → Item → Nat → Option Item

/-- The types 9 and 10: of a list that is longer than the decoder reads nothing comes. -/
def rereadList (value : Reread) (t : Option FieldType) (v : Item) (depth : Nat) : Option Item :=
  match v with
  | .arr xs =>
    if 100000 < xs.length then none
    else (xs.mapM fun x => value (arrayItem t 1) x (depth + 1)).map .arr
  | _ => none

/-- The key and the value of a map. -/
def rereadEntry (value : Reread) (t : Option FieldType) (depth : Nat) (e : List UInt8 × Item) :
    Option (List UInt8 × Item) :=
  ((value (arrayItem t 1) (.str e.1) (depth + 1)).bind keyText).bind fun key =>
    (value (arrayItem t 2) e.2 (depth + 1)).map (key, ·)

/-- The type 11. -/
def rereadMap (value : Reread) (t : Option FieldType) (v : Item) (depth : Nat) : Option Item :=
  match v with
  | .obj items =>
    if 100000 < items.length then none else (items.mapM (rereadEntry value t depth)).map .obj
  | _ => none

/-- The fields that are there, under the names of the schema. -/
def rereadFields (value : Reread) (depth : Nat) (v : Item) :
    List Field → Nat → Option (List (List UInt8 × Item))
  | [], _ => some []
  | f :: fs, index =>
    match (fieldValue v f index).filter (!·.isNull) with
    | none => rereadFields value depth v fs (index + 1)
    | some x => (value (some f.type) x (depth + 1)).bind fun y =>
        (rereadFields value depth v fs (index + 1)).map ((utf8 f.name, y) :: ·)

def rereadStruct (value : Reread) (fs : Option (List Field)) (v : Item) (depth : Nat) :
    Option Item :=
  if 40 < depth then none
  else fs.bind fun fs => (rereadFields value depth v fs 0).map .obj

/-- What comes of a value; `double` is the reader's number of eight bytes. A bool in a struct
is written with no call of write_value, so the decoder may refuse its depth. -/
def rereadValue (double : Nat → Rat) : Nat → Reread
  | 0, _, _, _ => none
  | fuel + 1, t, v, depth =>
    if 40 < depth then none
    else if compactType t = 1 then some v
    else if compactType t = 7 then rereadDouble w double v
    else if 3 ≤ compactType t ∧ compactType t ≤ 6 then rereadInteger (compactType t) v
    else if compactType t = 8 then rereadBytes w t v
    else if compactType t = 9 ∨ compactType t = 10 then
      rereadList (rereadValue double fuel) t v depth
    else if compactType t = 11 then rereadMap (rereadValue double fuel) t v depth
    else rereadStruct (rereadValue double fuel) (schemaFields w.schema t) v (depth + 1)

end

/-! ## Numbers -/

theorem rereads_writeByte {c : Nat} (hc : c < 256) :
    Rereads maxWireSize 1 (writeByte c) (readByte : Read Nat) (· = some c) := by
  refine rereads_append fun _ => (takes_readByte _).mono ?_
  rintro o rfl
  rw [UInt8.toNat_ofNat', Nat.mod_eq_of_lt hc]

/-- The digits behind come on top of those that were read. -/
theorem rereads_varintTurns {k n : Nat} (acc : Nat) (hk : k ≤ 10) (hacc : acc < 2 ^ (7 * (10 - k)))
    (hn : acc + n * 2 ^ (7 * (10 - k)) < 2 ^ 64) :
    Rereads maxWireSize 1 (varintBytes k n) (varintTurns k acc)
      (· = some (acc + n * 2 ^ (7 * (10 - k)))) := by
  induction k generalizing n acc with
  | zero => exact rereads_refuse
  | succ k ih =>
    have hi : 10 - (k + 1) = 9 - k := by omega
    rw [hi] at hacc hn ⊢
    have hpow : 2 ^ (7 * (10 - k)) = 128 * 2 ^ (7 * (9 - k)) := by
      rw [show 7 * (10 - k) = 7 + 7 * (9 - k) by omega, Nat.pow_add]
    have hlow : n % 128 * 2 ^ (7 * (9 - k)) < 2 ^ 64 := by
      have := Nat.mul_le_mul_right (2 ^ (7 * (9 - k))) (Nat.mod_le n 128)
      omega
    -- a digit does not meet the bits below it
    have hor : acc ||| ((n % 128) <<< (7 * (9 - k))) % 2 ^ 64 =
        acc + n % 128 * 2 ^ (7 * (9 - k)) := by
      rw [Nat.shiftLeft_eq, Nat.mod_eq_of_lt hlow, ← Nat.shiftLeft_eq, Nat.or_comm,
        ← Nat.shiftLeft_add_eq_or_of_lt hacc, Nat.add_comm]
    have hten : k = 0 → n < 2 := by
      rintro rfl
      by_contra hge
      have : 2 * 2 ^ 63 ≤ n * 2 ^ 63 := Nat.mul_le_mul_right _ (by omega)
      norm_num at hn this
      omega
    by_cases hlast : n / 128 = 0
    · have hlt : n < 128 := by omega
      have hbyte : n % 128 + (if n / 128 ≠ 0 then 128 else 0) = n := by
        rw [if_neg (by omega)]
        omega
      rw [Nat.mod_eq_of_lt hlt] at hor
      unfold varintBytes varintTurns
      rw [hbyte, if_neg (by omega)]
      refine Rereads.next (m := 1) (n := 0) (rereads_writeByte (by omega)) ?_
      refine .of_takes ?_
      refine (takes_failIf ?_).skip ?_
      · rintro ⟨h0, h1⟩
        have := hten h0
        omega
      · simp only [Nat.mod_eq_of_lt hlt, hor]
        rw [if_pos hlt]
        exact takes_pure rfl
    · have hbyte : n % 128 + (if n / 128 ≠ 0 then 128 else 0) = n % 128 + 128 := by
        rw [if_pos hlast]
      have hmod : (n % 128 + 128) % 128 = n % 128 := by omega
      have hsum : acc + n % 128 * 2 ^ (7 * (9 - k)) + n / 128 * 2 ^ (7 * (10 - k)) =
          acc + n * 2 ^ (7 * (9 - k)) := by
        have hsplit := Nat.mod_add_div n 128
        have hmul := congrArg (· * 2 ^ (7 * (9 - k))) hsplit
        rw [hpow]
        simp only [Nat.add_mul] at hmul
        rw [Nat.mul_comm 128 (n / 128), Nat.mul_assoc] at hmul
        omega
      have hacc' : acc + n % 128 * 2 ^ (7 * (9 - k)) < 2 ^ (7 * (10 - k)) := by
        have := Nat.mul_le_mul_right (2 ^ (7 * (9 - k)))
          (show n % 128 ≤ 127 by have := Nat.mod_lt n (show 0 < 128 by omega); omega)
        omega
      unfold varintBytes varintTurns
      rw [hbyte, if_pos hlast]
      refine (Rereads.next (m := 1) (n := 0) (rereads_writeByte (by omega)) ?_).le (Nat.le_refl 1)
      refine .skip (takes_failIf ?_) ?_
      · rintro ⟨h0, -⟩
        have := hten h0
        omega
      · simp only [hmod, hor]
        rw [if_neg (by omega), ← hsum]
        exact (ih _ (by omega) hacc' (by omega)).le (Nat.zero_le _)

theorem rereads_writeVarint {n : Nat} (hn : n < 2 ^ 64) :
    Rereads maxWireSize 1 (writeVarint n) readVarint (· = some n) := by
  refine (rereads_varintTurns (k := 10) 0 (Nat.le_refl _) (by norm_num)
    (by simpa using hn)).mono ?_
  rintro o rfl
  simp

theorem zigzagDecode_encode (n : Int) : zigzagDecode (zigzagEncode n) = n := by
  unfold zigzagDecode zigzagEncode
  split <;> split <;> omega

theorem zigzagEncode_lt {n : Int} (hmin : -2 ^ 63 ≤ n) (hmax : n ≤ 2 ^ 63 - 1) :
    zigzagEncode n < 2 ^ 64 := by
  unfold zigzagEncode
  split <;> omega

theorem rereads_writeZigzag {n : Int} (hmin : -2 ^ 63 ≤ n) (hmax : n ≤ 2 ^ 63 - 1) :
    Rereads maxWireSize 1 (writeVarint (zigzagEncode n)) (zigzagDecode <$> readVarint)
      (· = some n) := by
  refine (rereads_writeVarint (zigzagEncode_lt hmin hmax)).map ?_
  rintro o rfl
  rw [Option.map_some, zigzagDecode_encode]

theorem strtoll_range {s : List UInt8} {n : Int} (h : strtoll s = some n) :
    -2 ^ 63 ≤ n ∧ n ≤ 2 ^ 63 - 1 := by
  unfold strtoll at h
  split at h
  · rename_i hif
    cases h
    exact hif.2.2
  · cases h

theorem jsonInteger_range {v : Item} {n : Int} (h : jsonInteger v = some n) :
    -2 ^ 63 ≤ n ∧ n ≤ 2 ^ 63 - 1 := by
  cases v with
  | str s => exact strtoll_range h
  | num q =>
    have hif : (if -9007199254740991 ≤ q ∧ q ≤ 9007199254740991 ∧ q.isInt then some q.num
        else none) = some n := h
    split at hif
    · rename_i hq
      obtain ⟨hmin, hmax, hint⟩ := hq
      cases hif
      have hnum : ((q.num : Int) : Rat) = q := Rat.coe_int_num_of_den_eq_one (eq_of_beq hint)
      rw [← hnum] at hmin hmax
      have hmin' : -9007199254740991 ≤ q.num := by exact_mod_cast hmin
      have hmax' : q.num ≤ 9007199254740991 := by exact_mod_cast hmax
      omega
    · cases hif
  | null | bool _ | arr _ | obj _ => cases h

theorem toInt8_emod {n : Int} (hmin : -128 ≤ n) (hmax : n ≤ 127) :
    toInt8 (n % 256).toNat = n := by
  unfold toInt8
  rw [Int.toNat_of_nonneg (Int.emod_nonneg n (by omega)), Int.bmod_def]
  split <;> omega

theorem rereads_writeInteger {code : Nat} (hcode : 3 ≤ code ∧ code ≤ 6) (v : Item) :
    Rereads maxWireSize 1 (writeInteger code v) (readInteger code) (· = rereadInteger code v) := by
  unfold writeInteger rereadInteger
  cases hn : jsonInteger v with
  | none => exact rereads_refuse
  | some n =>
    obtain ⟨hmin, hmax⟩ := jsonInteger_range hn
    show Rereads maxWireSize 1 (if (!inRange code n) = true then Writing.refuse
      else if code = 3 then writeByte (n % 256).toNat else writeVarint (zigzagEncode n)) _
      (· = some (if code = 6 then Item.str (utf8 (toString n)) else Item.num n))
    cases hrange : inRange code n with
    | false => exact rereads_refuse
    | true =>
      rw [if_neg (by decide)]
      have hitem : Takes [] (if code = 6 then pure (.str (utf8 (toString n)))
          else pure (.num (Json.toDouble n)) : Read Item)
          (· = some (if code = 6 then .str (utf8 (toString n)) else .num n)) := by
        by_cases h6 : code = 6
        · rw [if_pos h6, if_pos h6]
          exact takes_pure rfl
        · rw [if_neg h6, if_neg h6, Json.toDouble_of_le]
          · exact takes_pure rfl
          · unfold inRange at hrange
            split at hrange
            · simp only [Bool.and_eq_true, decide_eq_true_eq] at hrange
              omega
            · split at hrange
              · simp only [Bool.and_eq_true, decide_eq_true_eq] at hrange
                omega
              · rw [if_pos (by omega)] at hrange
                simp only [Bool.and_eq_true, decide_eq_true_eq] at hrange
                omega
      have hnum : Rereads maxWireSize 1 (if code = 3 then writeByte (n % 256).toNat
          else writeVarint (zigzagEncode n))
          (if code = 3 then toInt8 <$> readByte else zigzagDecode <$> readVarint : Read Int)
          (· = some n) := by
        by_cases h3 : code = 3
        · rw [if_pos h3, if_pos h3]
          have hbyte : -128 ≤ n ∧ n ≤ 127 := by
            simpa only [inRange, h3, if_true, Bool.and_eq_true, decide_eq_true_eq] using hrange
          refine (rereads_writeByte (by omega)).map ?_
          rintro o rfl
          rw [Option.map_some, toInt8_emod hbyte.1 hbyte.2]
        · rw [if_neg h3, if_neg h3]
          exact rereads_writeZigzag hmin hmax
      refine Rereads.andThen hnum (fun m hm => ?_) fun h => absurd h (by simp)
      cases hm
      exact hitem

/-- The bytes of a double come on top of those that were read. -/
theorem takes_readBits {k n : Nat} (acc : Nat) (hk : k ≤ 8) (hacc : acc < 2 ^ (8 * (8 - k)))
    (hn : n < 2 ^ (8 * k)) : Takes (littleBytes k n) (readBits k acc)
      (· = some (acc + n * 2 ^ (8 * (8 - k)))) := by
  induction k generalizing n acc with
  | zero =>
    obtain rfl : n = 0 := by simpa using hn
    exact takes_pure (by simp)
  | succ k ih =>
    have hi : 8 - (k + 1) = 7 - k := by omega
    rw [hi] at hacc ⊢
    have hpow : 2 ^ (8 * (8 - k)) = 256 * 2 ^ (8 * (7 - k)) := by
      rw [show 8 * (8 - k) = 8 + 8 * (7 - k) by omega, Nat.pow_add]
    have hbyte : (UInt8.ofNat (n % 256)).toNat = n % 256 := by
      rw [UInt8.toNat_ofNat']
      omega
    have hor : acc ||| (n % 256) <<< (8 * (7 - k)) = acc + n % 256 * 2 ^ (8 * (7 - k)) := by
      rw [Nat.or_comm, ← Nat.shiftLeft_add_eq_or_of_lt hacc, Nat.shiftLeft_eq, Nat.add_comm]
    have hsum : acc + n % 256 * 2 ^ (8 * (7 - k)) + n / 256 * 2 ^ (8 * (8 - k)) =
        acc + n * 2 ^ (8 * (7 - k)) := by
      have hmul := congrArg (· * 2 ^ (8 * (7 - k))) (Nat.mod_add_div n 256)
      rw [hpow]
      simp only [Nat.add_mul] at hmul
      rw [Nat.mul_comm 256 (n / 256), Nat.mul_assoc] at hmul
      omega
    have hacc' : acc + n % 256 * 2 ^ (8 * (7 - k)) < 2 ^ (8 * (8 - k)) := by
      have := Nat.mul_le_mul_right (2 ^ (8 * (7 - k)))
        (show n % 256 ≤ 255 by have := Nat.mod_lt n (show 0 < 256 by omega); omega)
      omega
    have hdiv : n / 256 < 2 ^ (8 * k) := by
      rw [show 8 * (k + 1) = 8 + 8 * k by omega, Nat.pow_add] at hn
      exact Nat.div_lt_of_lt_mul hn
    show Takes ([UInt8.ofNat (n % 256)] ++ littleBytes k (n / 256))
      (readByte >>= fun c => readBits k (acc ||| c <<< (8 * (7 - k)))) _
    refine (takes_readByte _).next ?_
    rw [hbyte, hor, ← hsum]
    exact ih _ (by omega) hacc' hdiv

section

variable {w : Source} {r : Wire}

theorem length_littleBytes (k n : Nat) : (littleBytes k n).length = k := by
  induction k generalizing n with
  | zero => rfl
  | succ k ih => rw [littleBytes, List.length_cons, ih]

theorem ne_zero_of_mem_cText {s : List UInt8} {c : UInt8} (h : c ∈ cText s) : c ≠ 0 := by
  exact of_decide_eq_true (List.mem_takeWhile_imp (p := fun c : UInt8 => decide (c ≠ 0)) h)

theorem contains_cText (s : List UInt8) : (cText s).contains 0 = false := by
  rw [List.contains_eq_mem, decide_eq_false_iff_not]
  exact fun h => ne_zero_of_mem_cText h rfl

theorem cText_cText (s : List UInt8) : cText (cText s) = cText s := by
  rw [cText, List.takeWhile_eq_self_iff]
  exact fun c hc => decide_eq_true (ne_zero_of_mem_cText hc)

/-- The bytes of a string behind their number. -/
theorem rereads_sized {s : List UInt8} {t : Option FieldType}
    (h : schemaKind t = "binary" ∨ s.contains 0 = false) :
    Rereads maxWireSize 1 (writeVarint s.length >=> appendBytes s) (readBytes r t)
      (· = some (some (if schemaKind t = "binary" then .str (utf8 (b64Encode s))
        else .str (cText s)))) := by
  intro b b' hcap hb
  obtain ⟨c, -, happ⟩ := Writing.seq_eq_some.mp hb
  have hle := (Writing.append_eq_some happ).1
  have hmax : maxWireSize < 2 ^ 64 := by decide
  refine Rereads.le (n := 1 + s.length) (Rereads.next (rereads_writeVarint (by omega)) ?_)
    (by omega) b b' hcap hb
  rw [if_neg (by omega)]
  refine rereads_append fun _ => ?_
  have hok : (decide (schemaKind t = "binary") ||
      !((t.isSome || r.strictStrings) && s.contains 0)) = true := by
    rcases h with h | h
    · rw [decide_eq_true h, Bool.true_or]
    · rw [h, Bool.and_false, Bool.not_false, Bool.or_true]
  have hrest : Takes [] (if schemaKind t = "binary" then
        pure (some (.str (utf8 (String.ofList (Base64.encode s)))))
      else pure (some (.str (s.takeWhile (· ≠ 0)))) : Read (Option Item))
      (· = some (some (if schemaKind t = "binary" then .str (utf8 (b64Encode s))
        else .str (cText s)))) := by
    by_cases hk : schemaKind t = "binary"
    · rw [if_pos hk, if_pos hk]
      exact takes_pure rfl
    · rw [if_neg hk, if_neg hk]
      exact takes_pure rfl
  exact (takes_take hok).last hrest

theorem rereads_writeBytes (t : Option FieldType) (v : Item) :
    Rereads maxWireSize 1 (writeBytes w t v) (readBytes r t)
      (· = (rereadBytes w t v).map some) := by
  cases v with
  | str s =>
    by_cases hk : schemaKind t = "binary"
    · unfold writeBytes rereadBytes
      simp only [hk, ne_eq, not_true_eq_false, if_false]
      cases hd : decodeBinary w (cText s) with
      | none => exact rereads_refuse
      | some bs =>
        refine (rereads_sized (.inl hk)).mono ?_
        rintro o rfl
        rw [if_pos hk]
        rfl
    · unfold writeBytes rereadBytes
      simp only [hk, ne_eq, not_false_eq_true, if_true]
      refine (rereads_sized (.inr (contains_cText s))).mono ?_
      rintro o rfl
      rw [if_neg hk, cText_cText]
      rfl
  | null | bool _ | num _ | arr _ | obj _ => exact rereads_refuse

/-! ## Lists, sets and maps -/

theorem fits_varintBytes (k n : Nat) : Writing.Fits maxWireSize (varintBytes k n) := by
  induction k generalizing n with
  | zero => exact Writing.fits_refuse
  | succ k ih =>
    refine Writing.fits_append.seq ?_
    split
    · exact ih _
    · exact Writing.fits_some

theorem fits_writeListHead (n ct : Nat) : Writing.Fits maxWireSize (writeListHead n ct) := by
  refine Writing.fits_append.seq ?_
  split
  · exact fits_varintBytes 10 n
  · exact Writing.fits_some

theorem fits_writeMapHead (n kt vt : Nat) : Writing.Fits maxWireSize (writeMapHead n kt vt) := by
  refine (fits_varintBytes 10 n).seq ?_
  split
  · exact Writing.fits_append
  · exact Writing.fits_some

/-- The number and the type of the elements of a list. -/
theorem rereads_listHead {n ct code : Nat} (hcode : code ≠ 11) (hct : ct < 13) (hn : n < 2 ^ 64) :
    Rereads maxWireSize 1 (writeListHead n ct) (containerHead code) (· = some (n, 0, ct)) := by
  unfold containerHead writeListHead
  rw [if_neg hcode]
  refine (Rereads.next (m := 1) (n := 0) (rereads_writeByte (by omega)) ?_)
  have hdiv : (16 * min n 15 + ct) / 16 = min n 15 := by omega
  have hmod : (16 * min n 15 + ct) % 16 = ct := by omega
  rw [hdiv, hmod]
  by_cases h15 : 15 ≤ n
  · rw [if_pos h15, if_pos (by omega)]
    refine ((rereads_writeVarint hn).le (Nat.zero_le 1)).andThen (fun a ha => ?_) fun h => nomatch h
    cases ha
    exact takes_pure rfl
  · rw [if_neg h15, if_neg (by omega)]
    refine .of_takes ((takes_pure (P := (· = some n)) ?_).skip (takes_pure rfl))
    rw [Nat.min_eq_left (by omega)]

/-- The number of entries of a map, and where there are any the types of keys and values. -/
theorem rereads_mapHead {n kt vt : Nat} (hkt : kt < 13) (hvt : vt < 13) (hn : n < 2 ^ 64) :
    Rereads maxWireSize 1 (writeMapHead n kt vt) (containerHead 11)
      (· = some (n, if n ≠ 0 then kt else 0, if n ≠ 0 then vt else 0)) := by
  unfold containerHead writeMapHead
  rw [if_pos rfl]
  refine (Rereads.next (m := 1) (n := 0) (rereads_writeVarint hn) ?_)
  by_cases h0 : n ≠ 0
  · rw [if_pos h0, if_pos h0, if_pos h0, if_pos h0]
    refine ((rereads_writeByte (by omega)).le (Nat.zero_le 1)).andThen (fun a ha => ?_)
      fun h => nomatch h
    cases ha
    refine takes_pure ?_
    rw [show (16 * kt + vt) / 16 = kt by omega, show (16 * kt + vt) % 16 = vt by omega]
  · rw [if_neg h0, if_neg h0, if_neg h0, if_neg h0]
    exact .of_takes ((takes_pure (P := (· = some 0)) rfl).skip (takes_pure rfl))

theorem foldlM_addToArray {f : Item → Option Item} (xs ys : List Item) :
    xs.foldlM (fun (o : Item) x => (f x).map o.addToArray) (.arr ys) =
      (xs.mapM f).map fun zs => .arr (ys ++ zs) := by
  induction xs generalizing ys with
  | nil => simp
  | cons x xs ih =>
    rw [List.foldlM_cons, List.mapM_cons]
    cases f x with
    | none => rfl
    | some y =>
      refine (ih (ys ++ [y])).trans ?_
      cases xs.mapM f with
      | none => rfl
      | some zs => simp

theorem foldlM_addToObject {f : List UInt8 × Item → Option (List UInt8 × Item)}
    (xs ys : List (List UInt8 × Item)) :
    xs.foldlM (fun (o : Item) x => (f x).map fun e => o.addToObject e.1 e.2) (.obj ys) =
      (xs.mapM f).map fun zs => .obj (ys ++ zs) := by
  induction xs generalizing ys with
  | nil => simp
  | cons x xs ih =>
    rw [List.foldlM_cons, List.mapM_cons]
    cases f x with
    | none => rfl
    | some y =>
      refine (ih (ys ++ [y])).trans ?_
      cases xs.mapM f with
      | none => rfl
      | some zs => simp

section

variable {value : WriteValue} {rvalue : ReadValue} {cvalue : Reread} {depth : Nat}
  (hvalue : ∀ t v, Rereads maxWireSize 1 (value t v (depth + 1))
    (rvalue t (compactType t) (depth + 1) false) (· = (cvalue t v (depth + 1)).map some))
include hvalue

/-- An element of a list. -/
theorem rereads_element (t : Option FieldType) {code : Nat} (hcode : code ≠ 11) (x o : Item) :
    Rereads maxWireSize 1 (value (arrayItem t 1) x (depth + 1))
      (containerTurn rvalue t code 0 (compactType (arrayItem t 1)) depth o)
      (· = ((cvalue (arrayItem t 1) x (depth + 1)).map o.addToArray).map .again) := by
  unfold containerTurn
  simp only [hcode, if_false]
  refine .skip (takes_pure (P := (· = some none)) rfl) ?_
  refine (hvalue (arrayItem t 1) x).andThen (fun a ha => ?_) fun hnone => ⟨?_, fun a => ?_⟩
  · obtain ⟨y, hy, rfl⟩ := Option.map_eq_some_iff.mp ha.symm
    rw [hy]
    exact takes_pure rfl
  · rw [Option.map_eq_none_iff.mp hnone.symm]
    rfl
  · cases a with
    | none => exact keeps_fail.bind fun _ => keeps_pure _
    | some y => exact keeps_pure _

theorem rereads_writeList (t : Option FieldType) {code : Nat} (hcode : code ≠ 11) (v : Item) :
    Rereads maxWireSize 1 (writeList value t v depth) (readContainer rvalue t code depth)
      (· = rereadList cvalue t v depth) := by
  cases v with
  | arr xs =>
    intro b b' hcap hb
    have hct := compactType_range (arrayItem t 1)
    have hlen : xs.length ≤ maxWireSize := by
      obtain ⟨c, hhead, hall⟩ := Writing.seq_eq_some.mp hb
      have := length_le_of_all (hvalue (arrayItem t 1)) (fits_writeListHead _ _ b c hcap hhead) hall
      omega
    have hmax : maxWireSize < 2 ^ 64 := by decide
    have hloop := rereads_times xs (fun o x _ => rereads_element hvalue t hcode x o) (.arr [])
    refine Rereads.le (n := 1 + xs.length)
      ((rereads_listHead hcode hct.2.1 (by omega)).next ?_) (by omega) b b' hcap hb
    unfold rereadList
    simp only [hcode, if_false]
    by_cases hbig : 100000 < xs.length
    · rw [if_pos hbig, if_pos hbig]
      exact hloop.fail (keeps_pure _) rfl
    · rw [if_neg hbig, if_neg hbig]
      refine .fits ?_
      rw [if_pos rfl]
      refine hloop.mono ?_
      rintro o rfl
      exact foldlM_addToArray xs []
  | null | bool _ | num _ | str _ | obj _ => exact rereads_refuse

variable (hkey : ∀ t s b b', value t (.str s) (depth + 1) b = some b' →
    ∃ y key, cvalue t (.str s) (depth + 1) = some y ∧ keyText y = some key)
include hkey

/-- An entry of a map. -/
theorem rereads_entry (t : Option FieldType) (e : List UInt8 × Item) (o : Item) :
    Rereads maxWireSize 1 (writeEntry value t depth e)
      (containerTurn rvalue t 11 (compactType (arrayItem t 1)) (compactType (arrayItem t 2))
        depth o)
      (· = ((rereadEntry cvalue t depth e).map fun e => o.addToObject e.1 e.2).map .again) := by
  intro b b' hcap hb
  obtain ⟨c, hk, -⟩ := Writing.seq_eq_some.mp hb
  obtain ⟨y, key, hy, htext⟩ := hkey _ _ _ _ hk
  have hfirst : Rereads maxWireSize 1 (value (arrayItem t 1) (.str e.1) (depth + 1))
      (rvalue (arrayItem t 1) (compactType (arrayItem t 1)) (depth + 1) false)
      (· = some (some y)) := by
    refine (hvalue _ _).mono ?_
    rintro o rfl
    rw [hy]
    rfl
  unfold containerTurn
  simp only [if_true]
  refine Rereads.le (n := 1 + 1) (hfirst.next ?_) (by omega) b b' hcap hb
  have hentry : rereadEntry cvalue t depth e =
      (cvalue (arrayItem t 2) e.2 (depth + 1)).map (key, ·) := by
    unfold rereadEntry
    rw [hy, Option.bind_some, htext, Option.bind_some]
  rw [hentry]
  refine (hvalue (arrayItem t 2) e.2).andThen (fun a ha => ?_) fun hnone => ⟨?_, fun a => ?_⟩
  · obtain ⟨z, hz, rfl⟩ := Option.map_eq_some_iff.mp ha.symm
    rw [hz]
    simp only [Option.bind_some, htext]
    exact takes_pure rfl
  · rw [Option.map_eq_none_iff.mp hnone.symm]
    rfl
  · cases a with
    | none => exact keeps_fail.bind fun _ => keeps_pure _
    | some z =>
      simp only [Option.bind_some, htext]
      exact keeps_pure _

theorem rereads_writeMap (t : Option FieldType) (v : Item) :
    Rereads maxWireSize 1 (writeMap value t v depth) (readContainer rvalue t 11 depth)
      (· = rereadMap cvalue t v depth) := by
  cases v with
  | obj items =>
    intro b b' hcap hb
    have hkt := compactType_range (arrayItem t 1)
    have hvt := compactType_range (arrayItem t 2)
    have hlen : items.length ≤ maxWireSize := by
      obtain ⟨c, hhead, hall⟩ := Writing.seq_eq_some.mp hb
      have := length_le_of_all (fun e => rereads_entry hvalue hkey t e (.obj []))
        (fits_writeMapHead _ _ _ b c hcap hhead) hall
      omega
    have hmax : maxWireSize < 2 ^ 64 := by decide
    have hloop := rereads_times items
      (fun o e _ => rereads_entry hvalue hkey t e o) (.obj [])
    refine Rereads.le (n := 1 + items.length)
      ((rereads_mapHead hkt.2.1 hvt.2.1 (by omega)).next ?_) (by omega) b b' hcap hb
    unfold rereadMap
    simp only [if_true]
    by_cases hbig : 100000 < items.length
    · rw [if_pos hbig, if_pos hbig]
      exact hloop.fail (keeps_pure _) rfl
    · rw [if_neg hbig, if_neg hbig]
      refine .fits ?_
      rw [if_pos rfl]
      -- the types are read where there is an entry
      by_cases h0 : items = []
      · subst h0
        exact .of_takes (takes_pure rfl)
      · have hne : items.length ≠ 0 := fun h => h0 (List.length_eq_zero_iff.mp h)
        rw [if_pos hne, if_pos hne]
        refine hloop.mono ?_
        rintro o rfl
        exact foldlM_addToObject items []
  | null | bool _ | num _ | str _ | arr _ => exact rereads_refuse

end

/-! ## Structs -/

/-- The ids have 16 bits, and no two fields have one id, or names that differ in case only. -/
structure FieldsOk (fs : List Field) : Prop where
  range : ∀ f ∈ fs, -32768 ≤ f.id ∧ f.id ≤ 32767
  ids : (fs.map Field.id).Nodup
  names : (fs.map fun f => (utf8 f.name).map lowerByte).Nodup

theorem findField_eq {fs : List Field} (h : (fs.map Field.id).Nodup) {f : Field} (hf : f ∈ fs) :
    findField (some fs) f.id = some f := by
  induction fs with
  | nil => cases hf
  | cons g fs ih =>
    rw [List.map_cons, List.nodup_cons] at h
    show (g :: fs).find? (·.id = f.id) = some f
    rcases List.mem_cons.mp hf with rfl | hf
    · rw [List.find?_cons_of_pos (by simp)]
    · have hne : g.id ≠ f.id := fun he => h.1 (he ▸ List.mem_map_of_mem hf)
      rw [List.find?_cons_of_neg (by simpa using hne)]
      exact ih h.2 hf

theorem hasObjectItem_eq_false {pre fs : List Field} {f : Field} (h : FieldsOk (pre ++ f :: fs))
    {items : List (List UInt8 × Item)} (hkeys : ∀ e ∈ items, ∃ g ∈ pre, e.1 = utf8 g.name) :
    hasObjectItem items (utf8 f.name) = false := by
  unfold hasObjectItem
  rw [List.any_eq_false]
  intro e he
  obtain ⟨g, hg, hname⟩ := hkeys e he
  have hnames := h.names
  rw [List.map_append, List.nodup_append] at hnames
  rw [hname, beq_iff_eq]
  exact hnames.2.2 _ (List.mem_map_of_mem hg) _ (List.mem_map_of_mem List.mem_cons_self)

/-- The header of a field gives its id behind the one before. -/
theorem takes_header {code : Nat} (hcode : 0 < code ∧ code < 16) {last id : Int}
    (hid : -32768 ≤ id ∧ id ≤ 32767) {b b' : List UInt8}
    (h : writeHeader code last id b = some b') :
    ∃ c enc n, b' = b ++ c :: enc ∧ b'.length ≤ maxWireSize ∧ c ≠ 0 ∧ c.toNat % 16 = code ∧
      (Header.mk c.toNat n).id last = id ∧
      Takes enc (if c.toNat / 16 ≠ 0 then pure 0 else readVarint : Read Nat) (· = some n) := by
  have hbyte : ∀ k < 256, (UInt8.ofNat k).toNat = k := fun k hk => by
    rw [UInt8.toNat_ofNat', Nat.mod_eq_of_lt hk]
  have hne : ∀ k < 256, 0 < k → UInt8.ofNat k ≠ 0 := fun k hk hpos h0 => by
    have := hbyte k hk
    rw [h0, UInt8.toNat_zero] at this
    omega
  unfold writeHeader at h
  split at h
  · rename_i hshort
    obtain ⟨-, hlen, rfl⟩ := Writing.append_eq_some h
    have hlt : 16 * (id - last).toNat + code < 256 := by omega
    have hdiv : (16 * (id - last).toNat + code) / 16 = (id - last).toNat := by omega
    refine ⟨_, [], 0, rfl, hlen, hne _ hlt (by omega), ?_, ?_, ?_⟩
    · rw [hbyte _ hlt]
      omega
    · unfold Header.id
      simp only [hbyte _ hlt, hdiv]
      rw [if_pos (by omega)]
      omega
    · rw [hbyte _ hlt, hdiv, if_pos (by omega)]
      exact takes_pure rfl
  · obtain ⟨b₁, hfirst, hrest⟩ := Writing.seq_eq_some.mp h
    obtain ⟨-, hlen, rfl⟩ := Writing.append_eq_some hfirst
    have hzig : zigzagEncode id < 2 ^ 64 := zigzagEncode_lt (by omega) (by omega)
    obtain ⟨enc, rfl, hlen', -, ht⟩ := rereads_writeVarint hzig _ b' hlen hrest
    refine ⟨UInt8.ofNat code, enc, zigzagEncode id, ?_, hlen', hne _ (by omega) hcode.1, ?_, ?_, ?_⟩
    · rw [List.append_assoc, List.singleton_append]
    · rw [hbyte _ (by omega)]
      omega
    · unfold Header.id
      simp only [hbyte code (by omega)]
      rw [if_neg (by omega), zigzagDecode_encode, Int.bmod_def]
      split <;> omega
    · rw [hbyte _ (by omega), if_neg (by omega)]
      exact ht

/-- A turn of the loop at the header of `f`. -/
theorem takes_structTurn {rvalue : ReadValue} {fs : List Field} {f : Field} {depth h n : Nat}
    {s : StructState} {enc enc' : List UInt8} {y : Option Item}
    (hfind : findField (some fs) f.id = some f) (hid : -32768 ≤ f.id ∧ f.id ≤ 32767)
    (hhead : Takes enc (if h / 16 ≠ 0 then pure 0 else readVarint : Read Nat) (· = some n))
    (hlast : (Header.mk h n).id s.last = f.id)
    (hvalue : Takes enc' (rvalue (some f.type) (h % 16) (depth + 1) true) (· = y.map some))
    (hnew : hasObjectItem s.items (utf8 f.name) = false) :
    Takes (enc ++ enc') (structTurn rvalue (some fs) depth h s)
      (· = (y.map fun y => (⟨f.id, s.items ++ [(utf8 f.name, y)],
        (⟨h, n⟩, f.id) :: s.headers⟩ : StructState)).map .again) := by
  unfold structTurn
  refine hhead.next ?_
  simp only [hlast]
  rw [if_neg (by omega), hfind]
  rw [← List.append_nil enc']
  refine hvalue.bind (fun a ha => ?_) fun hnone => ⟨?_, fun a => ?_⟩
  · obtain ⟨z, hz, rfl⟩ := Option.map_eq_some_iff.mp ha.symm
    subst hz
    simp only [fieldName, hnew, Bool.false_eq_true, if_false]
    exact takes_pure rfl
  · rw [Option.map_eq_none_iff.mp hnone.symm]
    rfl
  · cases a with
    | none => exact keeps_fail.bind fun _ => keeps_pure _
    | some z =>
      simp only [fieldName, hnew, Bool.false_eq_true, if_false]
      exact keeps_pure _

section

variable {value : WriteValue} {rvalue : ReadValue} {cvalue : Reread} {depth : Nat}
  (hvalue : ∀ t v, compactType t ≠ 1 → Rereads maxWireSize 1 (value t v (depth + 1))
    (rvalue t (compactType t) (depth + 1) true) (· = (cvalue t v (depth + 1)).map some))
  (hbool : ∀ t b, compactType t = 1 → Takes [] (rvalue t (if b then 1 else 2) (depth + 1) true)
    (· = (cvalue t (.bool b) (depth + 1)).map some))
include hvalue hbool

/-- The value of a field behind its header; that of a bool is in the header. -/
theorem rereads_fieldValue {t : FieldType} {x : Item} {code : Nat}
    (hcode : headerCode t x = some code) : (0 < code ∧ code < 16) ∧
      Rereads maxWireSize 0 (if 2 < code then value (some t) x (depth + 1) else some)
        (rvalue (some t) code (depth + 1) true) (· = (cvalue (some t) x (depth + 1)).map some) := by
  have hrange := compactType_range (some t)
  unfold headerCode at hcode
  by_cases h1 : compactType (some t) = 1
  · rw [if_pos h1] at hcode
    cases x with
    | bool b =>
      have hread := hbool (some t) b h1
      cases b with
      | true | false =>
        cases hcode
        exact ⟨by decide, .of_takes hread⟩
    | null | num _ | str _ | arr _ | obj _ => cases hcode
  · rw [if_neg h1] at hcode
    obtain rfl := Option.some.inj hcode
    rw [if_pos (by omega)]
    exact ⟨by omega, (hvalue (some t) x h1).le (Nat.zero_le 1)⟩

/-- The fields `fs` behind the fields `pre`, whose names the object may have. -/
theorem takes_fields {v : Item} (pre : List Field) {fs all : List Field} (hall : all = pre ++ fs)
    (hok : FieldsOk all) {last : Int} {index : Nat} {s : StructState} (hlast : s.last = last)
    (hkeys : ∀ e ∈ s.items, ∃ g ∈ pre, e.1 = utf8 g.name) {b b' : List UInt8}
    (hcap : b.length ≤ maxWireSize) (hb : writeFields value depth v fs last index b = some b') :
    ∃ enc, b' = b ++ enc ∧ b'.length ≤ maxWireSize ∧ 1 ≤ enc.length ∧ ∀ n, enc.length ≤ n →
      Takes enc (stopTurns (structTurn rvalue (some all) depth) n s) fun o =>
        o.map StructState.items = (rereadFields cvalue depth v fs index).map (s.items ++ ·) := by
  induction fs generalizing pre last index s b with
  | nil =>
    obtain ⟨-, hlen, rfl⟩ := Writing.append_eq_some hb
    refine ⟨_, rfl, hlen, Nat.le_refl 1, fun n hn => ?_⟩
    obtain ⟨n, rfl⟩ : ∃ m, n = m + 1 := ⟨n - 1, by simp at hn; omega⟩
    refine takes_stop ?_
    rw [rereadFields, Option.map_some, Option.map_some, List.append_nil]
  | cons f fs ih =>
    have hall' : all = (pre ++ [f]) ++ fs := by rw [hall, List.append_assoc, List.singleton_append]
    have hpre : ∀ e ∈ s.items, ∃ g ∈ pre ++ [f], e.1 = utf8 g.name := fun e he => by
      obtain ⟨g, hg, hname⟩ := hkeys e he
      exact ⟨g, List.mem_append_left _ hg, hname⟩
    unfold writeFields at hb
    unfold rereadFields
    cases hx : (fieldValue v f index).filter (!·.isNull) with
    | none =>
      rw [hx] at hb
      exact ih _ hall' hlast hpre hcap hb
    | some x =>
      rw [hx] at hb
      cases hcode : headerCode f.type x with
      | none =>
        simp only [hcode] at hb
        cases hb
      | some code =>
        simp only [hcode] at hb
        obtain ⟨b₁, hheader, hb⟩ := Writing.seq_eq_some.mp hb
        obtain ⟨b₂, hval, hrest⟩ := Writing.seq_eq_some.mp hb
        have hmem : f ∈ all := hall ▸ List.mem_append_right _ List.mem_cons_self
        obtain ⟨hpos, hvalue'⟩ := rereads_fieldValue hvalue hbool hcode
        obtain ⟨c, enc, n, rfl, hcap₁, hc, hmod, hid, hhead⟩ :=
          takes_header hpos (hok.range f hmem) hheader
        obtain ⟨encV, rfl, hcap₂, -, htake⟩ := hvalue' _ b₂ hcap₁ hval
        rw [← hmod] at htake
        have hturn := takes_structTurn (s := s) (findField_eq hok.ids hmem) (hok.range f hmem) hhead
          (hlast ▸ hid) htake (hasObjectItem_eq_false (hall ▸ hok) hkeys)
        -- the rest, from the state behind the value `y`
        have hnext : ∀ y, _ := fun y => ih (pre ++ [f]) (s := ⟨f.id, s.items ++ [(utf8 f.name, y)],
          (⟨c.toNat, n⟩, f.id) :: s.headers⟩) hall' rfl (fun e he => by
            rcases List.mem_append.mp he with he | he
            · exact hpre e he
            · rw [List.mem_singleton.mp he]
              exact ⟨f, List.mem_append_right _ List.mem_cons_self, rfl⟩) hcap₂ hrest
        obtain ⟨encR, rfl, hcapR, hlenR, -⟩ := hnext .null
        refine ⟨c :: (enc ++ encV ++ encR), ?_, hcapR, ?_, fun m hm => ?_⟩
        · simp only [List.append_assoc, List.cons_append]
        · rw [List.length_cons]
          omega
        · rw [List.length_cons, List.length_append] at hm
          obtain ⟨m, rfl⟩ : ∃ k, m = k + 2 := ⟨m - 2, by omega⟩
          refine takes_turn hc hturn (fun s' hs' => ?_) fun hnone => ?_
          · obtain ⟨y, hy, rfl⟩ := Option.map_eq_some_iff.mp hs'
            obtain ⟨encR', heq, -, -, hR⟩ := hnext y
            rw [← List.append_cancel_left heq] at hR
            refine (hR (m + 1) (by omega)).mono fun o ho => ?_
            simp only [ho, hy, Option.bind_some]
            cases rereadFields cvalue depth v fs (index + 1) with
            | none => rfl
            | some items => simp
          · simp only [Option.map_eq_none_iff.mp hnone]
            rfl

theorem rereads_writeStruct {fs : Option (List Field)} (hok : ∀ all, fs = some all → FieldsOk all)
    (v : Item) : Rereads maxWireSize 1 (writeStruct value fs v depth) (readStruct rvalue fs depth)
      (· = rereadStruct cvalue fs v depth) := by
  unfold writeStruct readStruct rereadStruct
  refine .skip takes_note ?_
  by_cases hdepth : 40 < depth
  · rw [if_pos hdepth]
    exact rereads_refuse
  · rw [if_neg hdepth, if_neg hdepth, if_neg hdepth]
    cases fs with
    | none => exact rereads_refuse
    | some fs =>
      have hloop : Rereads maxWireSize 1 (writeFields value depth v fs 0 0)
          (untilStop (structTurn rvalue (some fs) depth) {})
          fun o => o.map StructState.items = rereadFields cvalue depth v fs 0 := by
        intro b b' hcap hb
        obtain ⟨enc, rfl, hcap', hlen, ht⟩ := takes_fields hvalue hbool [] rfl
          (hok fs rfl) (s := {}) rfl (fun e he => absurd he List.not_mem_nil) hcap hb
        refine ⟨enc, rfl, hcap', hlen, (Takes.untilStop ht).mono fun o ho => ?_⟩
        rw [ho]
        exact Option.map_id'
      have hstruct : Rereads maxWireSize 1 (writeFields value depth v fs 0 0)
          (untilStop (structTurn rvalue (some fs) depth) {} >>= fun s => do
            note (.fields (some fs) s.headers (s.items.map Prod.fst))
            pure (.obj s.items) : Read Item)
          (· = (rereadFields cvalue depth v fs 0).map .obj) := by
        refine hloop.andThen (fun s hs => ?_) fun hnone => ⟨?_, fun s => ?_⟩
        · rw [← hs]
          exact takes_note.skip (takes_pure rfl)
        · rw [← hnone]
          rfl
        · intro r hbad hin
          exact ⟨_, _, rfl, hbad, rfl, hin⟩
      cases v with
      | obj _ | arr _ => exact hstruct
      | null | bool _ | num _ | str _ => exact rereads_refuse

end

/-! ## Values -/

def SchemaOk (schema : Schema) : Prop := ∀ e ∈ schema, FieldsOk e.2

theorem SchemaOk.schemaFields {schema : Schema} (h : SchemaOk schema) {t : Option FieldType}
    {fs : List Field} (hfs : schemaFields schema t = some fs) : FieldsOk fs := by
  obtain ⟨l₁, l₂, hsplit, -⟩ := List.lookup_eq_some_iff.mp hfs
  exact h _ (hsplit ▸ List.mem_append_right l₁ List.mem_cons_self)

theorem takes_readBool {code : Nat} (h : code = 1 ∨ code = 2) :
    Takes [] (readBool code true) (· = some (.bool (code = 1))) :=
  (takes_pure (P := (· = some code)) rfl).skip
    ((takes_failIf (by omega)).skip (takes_pure rfl))

theorem rereads_writeBool (b : Bool) (code : Nat) :
    Rereads maxWireSize 1 (writeByte (if b then 1 else 2)) (readBool code false)
      (· = some (.bool b)) := by
  cases b with
  | true | false =>
    refine (rereads_writeByte (by decide)).andThen (fun a ha => ?_) fun h => nomatch h
    cases ha
    exact (takes_failIf (by decide)).skip (takes_pure rfl)

/-- A bool in a struct has no bytes of its own. -/
theorem takes_bool {fuel depth : Nat} (hfuel : 0 < fuel) {t : Option FieldType}
    (ht : compactType t = 1) (b : Bool) :
    Takes [] (readValue r fuel t (if b then 1 else 2) depth true)
      (· = (rereadValue w r.double fuel t (.bool b) depth).map some) := by
  obtain ⟨fuel, rfl⟩ : ∃ n, fuel = n + 1 := ⟨fuel - 1, by omega⟩
  have hadmits : admits t (if b then 1 else 2) = true := by
    unfold admits
    cases b <;> simp [ht]
  unfold readValue rereadValue
  refine takes_note.skip ?_
  by_cases hdepth : 40 < depth
  · rw [if_pos hdepth, if_pos hdepth]
    exact takes_fail (keeps_pure _) rfl
  · have hcode : (if b then 1 else 2) = 1 ∨ (if b then 1 else 2) = 2 := by cases b <;> decide
    rw [if_neg hdepth, if_neg hdepth, hadmits, if_neg (show ¬ (!true) = true by decide),
      if_pos hcode, if_pos ht]
    refine (takes_readBool hcode).map ?_
    rintro o rfl
    cases b <;> rfl

theorem rereadInteger_key {code : Nat} {v y : Item} (h : rereadInteger code v = some y) :
    ∃ key, keyText y = some key := by
  obtain ⟨n, -, rfl⟩ := Option.map_eq_some_iff.mp h
  split <;> exact ⟨_, rfl⟩

/-- The key of an entry that was written is read. -/
theorem key_of_writeValue {fuel depth : Nat} {t : Option FieldType} {s b b' : List UInt8}
    (h : writeValue w fuel t (.str s) depth b = some b') :
    ∃ y key, rereadValue w r.double fuel t (.str s) depth = some y ∧ keyText y = some key := by
  cases fuel with
  | zero => cases h
  | succ fuel =>
    unfold writeValue at h
    unfold rereadValue
    by_cases hdepth : 40 < depth
    · rw [if_pos hdepth] at h
      cases h
    rw [if_neg hdepth] at h ⊢
    by_cases h1 : compactType t = 1
    · rw [if_pos h1] at h
      cases h
    rw [if_neg h1] at h
    by_cases hint : 3 ≤ compactType t ∧ compactType t ≤ 6
    · rw [if_pos hint] at h
      rw [if_neg h1, if_neg (by omega), if_pos hint]
      cases hy : rereadInteger (compactType t) (.str s) with
      | none =>
        unfold rereadInteger at hy
        have hn := Option.map_eq_none_iff.mp hy
        unfold writeInteger at h
        rw [hn] at h
        cases h
      | some y =>
        obtain ⟨key, hkey⟩ := rereadInteger_key hy
        exact ⟨y, key, rfl, hkey⟩
    rw [if_neg hint] at h
    by_cases h7 : compactType t = 7
    · rw [if_pos h7] at h
      cases h
    rw [if_neg h7] at h
    rw [if_neg h1, if_neg h7, if_neg hint]
    by_cases h8 : compactType t = 8
    · rw [if_pos h8] at h ⊢
      unfold writeBytes at h
      unfold rereadBytes
      by_cases hk : schemaKind t = "binary"
      · simp only [hk, ne_eq, not_true_eq_false, if_false] at h ⊢
        cases hd : decodeBinary w (cText s) with
        | none =>
          rw [hd] at h
          cases h
        | some bs => exact ⟨_, _, rfl, rfl⟩
      · simp only [hk, ne_eq, not_false_eq_true, if_true]
        exact ⟨_, _, rfl, rfl⟩
    rw [if_neg h8] at h
    split at h
    · cases h
    split at h
    · cases h
    · unfold writeStruct at h
      split at h
      · cases h
      · cases hfs : schemaFields w.schema t with
        | none =>
          rw [hfs] at h
          cases h
        | some fs =>
          rw [hfs] at h
          cases h

theorem admits_compactType (t : Option FieldType) : admits t (compactType t) = true := by
  unfold admits
  simp

/-- A bool outside a struct, a number or a text: no value below it is read. -/
theorem rereads_scalar (fuel : Nat) (t : Option FieldType) (v : Item) {depth : Nat} (field : Bool)
    (hdepth : ¬ 40 < depth) (ht : compactType t ≤ 8) (hfield : field = true → compactType t ≠ 1) :
    Rereads maxWireSize 1 (writeValue w (fuel + 1) t v depth)
      (readValue r (fuel + 1) t (compactType t) depth field)
      (· = (rereadValue w r.double (fuel + 1) t v depth).map some) := by
  have hrange := compactType_range t
  unfold writeValue readValue rereadValue
  refine .skip takes_note ?_
  rw [if_neg hdepth, if_neg hdepth, if_neg hdepth, admits_compactType,
    if_neg (show ¬ (!true) = true by decide)]
  by_cases h1 : compactType t = 1
  · rw [if_pos h1, if_pos (.inl h1 : compactType t = 1 ∨ compactType t = 2), if_pos h1]
    cases field with
    | true => exact absurd h1 (hfield rfl)
    | false =>
      cases v with
      | bool b =>
        refine (rereads_writeBool b (compactType t)).map ?_
        rintro o rfl
        rfl
      | null | num _ | str _ | arr _ | obj _ => exact rereads_refuse
  rw [if_neg h1, if_neg h1, if_neg (show ¬ (compactType t = 1 ∨ compactType t = 2) by omega)]
  by_cases hint : 3 ≤ compactType t ∧ compactType t ≤ 6
  · rw [if_pos hint, if_pos hint, if_neg (show ¬ compactType t = 7 by omega), if_pos hint]
    refine (rereads_writeInteger hint v).map ?_
    rintro o rfl
    rfl
  rw [if_neg hint, if_neg hint, if_neg hint]
  by_cases h7 : compactType t = 7
  · rw [if_pos h7, if_pos h7, if_pos h7]
    cases v with
    | num q =>
      have hbits := takes_readBits (k := 8) 0 (Nat.le_refl 8) (by norm_num) (w.bits q).toNat_lt
      have hlen := length_littleBytes 8 (w.bits q).toNat
      refine Rereads.le (n := (littleBytes 8 (w.bits q).toNat).length) (.map
        (rereads_append fun _ => hbits) ?_) (by omega)
      rintro o rfl
      simp [rereadDouble]
    | null | bool _ | str _ | arr _ | obj _ => exact rereads_refuse
  have h8 : compactType t = 8 := by omega
  rw [if_neg h7, if_neg h7, if_neg h7, if_pos h8, if_pos h8, if_pos h8]
  exact rereads_writeBytes t v

/-- A list, a set, a map or a struct, where what is below it comes back. -/
theorem rereads_compound (hschema : r.schema = w.schema) (hok : SchemaOk w.schema) {fuel : Nat}
    (t : Option FieldType) (v : Item) {depth : Nat} (field : Bool) (hdepth : ¬ 40 < depth)
    (hfuel : 41 ≤ fuel + depth) (ht : 9 ≤ compactType t)
    (hbelow : ∀ (t : Option FieldType) (v : Item) (below : Nat) (field : Bool), depth < below →
      (field = true → compactType t ≠ 1) →
      Rereads maxWireSize 1 (writeValue w fuel t v below)
        (readValue r fuel t (compactType t) below field)
        (· = (rereadValue w r.double fuel t v below).map some)) :
    Rereads maxWireSize 1 (writeValue w (fuel + 1) t v depth)
      (readValue r (fuel + 1) t (compactType t) depth field)
      (· = (rereadValue w r.double (fuel + 1) t v depth).map some) := by
  have hrange := compactType_range t
  have hint : ¬ (3 ≤ compactType t ∧ compactType t ≤ 6) := by omega
  have hitems : ∀ t v, Rereads maxWireSize 1 (writeValue w fuel t v (depth + 1))
      (readValue r fuel t (compactType t) (depth + 1) false)
      (· = (rereadValue w r.double fuel t v (depth + 1)).map some) :=
    fun t v => hbelow t v (depth + 1) false (by omega) fun h => absurd h Bool.false_ne_true
  unfold writeValue readValue rereadValue
  refine .skip takes_note ?_
  rw [if_neg hdepth, if_neg hdepth, if_neg hdepth, admits_compactType,
    if_neg (show ¬ (!true) = true by decide), if_neg (show ¬ compactType t = 1 by omega),
    if_neg (show ¬ (compactType t = 1 ∨ compactType t = 2) by omega), if_neg hint, if_neg hint,
    if_neg (show ¬ compactType t = 7 by omega), if_neg (show ¬ compactType t = 7 by omega),
    if_neg (show ¬ compactType t = 8 by omega), if_neg (show ¬ compactType t = 8 by omega),
    if_neg (show ¬ compactType t = 1 by omega), if_neg (show ¬ compactType t = 7 by omega),
    if_neg hint, if_neg (show ¬ compactType t = 8 by omega)]
  by_cases hlist : compactType t = 9 ∨ compactType t = 10
  · rw [if_pos hlist, if_pos hlist, if_neg (show ¬ compactType t = 12 by omega),
      if_pos (show 9 ≤ compactType t ∧ compactType t ≤ 11 by omega)]
    refine (rereads_writeList hitems t (by omega) v).map ?_
    rintro o rfl
    rfl
  rw [if_neg hlist, if_neg hlist]
  by_cases h11 : compactType t = 11
  · rw [if_pos h11, if_pos h11, h11, if_neg (by omega), if_pos (by omega)]
    refine (rereads_writeMap hitems (fun _ _ _ _ => key_of_writeValue) t v).map ?_
    rintro o rfl
    rfl
  rw [if_neg h11, if_neg h11, if_pos (show compactType t = 12 by omega), hschema]
  by_cases hstruct : 40 < depth + 1
  · unfold writeStruct
    rw [if_pos hstruct]
    exact rereads_refuse
  have hfields : ∀ t v, compactType t ≠ 1 → Rereads maxWireSize 1
      (writeValue w fuel t v (depth + 1 + 1))
      (readValue r fuel t (compactType t) (depth + 1 + 1) true)
      (· = (rereadValue w r.double fuel t v (depth + 1 + 1)).map some) :=
    fun t v ht => hbelow t v (depth + 1 + 1) true (by omega) fun _ => ht
  refine (rereads_writeStruct hfields (fun t b ht => takes_bool (by omega) ht b)
    (fun _ => hok.schemaFields) v).map ?_
  rintro o rfl
  rfl

theorem rereads_value (hschema : r.schema = w.schema) (hok : SchemaOk w.schema) (fuel : Nat)
    (t : Option FieldType) (v : Item) {depth : Nat} (field : Bool) (hfuel : 42 ≤ fuel + depth)
    (hfield : field = true → compactType t ≠ 1) :
    Rereads maxWireSize 1 (writeValue w fuel t v depth)
      (readValue r fuel t (compactType t) depth field)
      (· = (rereadValue w r.double fuel t v depth).map some) := by
  induction fuel generalizing t v depth field with
  | zero => exact rereads_refuse
  | succ fuel ih =>
    by_cases hdepth : 40 < depth
    · unfold writeValue
      rw [if_pos hdepth]
      exact rereads_refuse
    rcases Nat.lt_or_ge 8 (compactType t) with ht | ht
    · refine rereads_compound hschema hok t v field hdepth (by omega) ht ?_
      intro t v below field hbelow hfield
      exact ih t v field (by omega) hfield
    · exact rereads_scalar fuel t v field hdepth ht hfield

/-! ## Replies -/

/-- A reply has the type 2. -/
theorem rereads_reply (hschema : r.schema = w.schema) (hok : SchemaOk w.schema) {method : String}
    {fs : List Field} (hfs : resultFields w.schema method = some fs) (v : Item)
    (hname : (utf8 method).length < 2 ^ 64) :
    Rereads maxWireSize 0 (writeMessage w 2 method fs v) (readMessage r false method)
      (· = (rereadStruct (rereadValue w r.double 42) (some fs) v 0).map
        fun o => (some o, false)) := by
  have hfields : FieldsOk fs := by
    obtain ⟨e, he, rfl⟩ := Option.map_eq_some_iff.mp hfs
    exact hok e (List.mem_of_find?_eq_some he)
  unfold writeMessage readMessage
  refine Rereads.le ((rereads_writeByte (c := 0x82) (by omega)).next (n := 0) ?_) (Nat.zero_le _)
  rw [if_neg (by omega)]
  refine Rereads.le ((rereads_writeByte (c := 65) (by omega)).next (n := 0) ?_) (Nat.zero_le _)
  rw [if_neg (by omega)]
  refine Rereads.le ((rereads_writeVarint (n := 0) (by norm_num)).next (n := 0) ?_) (Nat.zero_le _)
  rw [if_neg (by omega)]
  refine Rereads.le ((rereads_writeVarint hname).next (n := 0) ?_) (Nat.zero_le _)
  rw [if_neg (by omega)]
  refine Rereads.le (Rereads.next (n := 0)
    (rereads_append fun _ => takes_take (beq_self_eq_true _)) ?_) (Nat.zero_le _)
  have hvalue : ∀ t v, compactType t ≠ 1 → Rereads maxWireSize 1 (writeValue w 42 t v (0 + 1))
      (readValue r 42 t (compactType t) (0 + 1) true)
      (· = (rereadValue w r.double 42 t v (0 + 1)).map some) :=
    fun t v ht => rereads_value hschema hok 42 t v true (by omega) fun _ => ht
  have hstruct := rereads_writeStruct hvalue (fun t b ht => takes_bool (by omega) ht b)
    (fun all (hall : some fs = some all) => Option.some.inj hall ▸ hfields) v
  have hresult : (if false = true then none else resultFields r.schema method) = some fs := by
    rw [if_neg (by decide), hschema, hfs]
  show Rereads _ _ _ (readStruct (readValue r 42)
    (if false = true then none else resultFields r.schema method) 0 >>= fun o =>
      pure (some o, false)) _
  rw [hresult]
  refine (hstruct.le (Nat.zero_le 1)).andThen (fun o ho => ?_) fun hnone => ⟨?_, fun o => ?_⟩
  · rw [← ho]
    exact takes_pure rfl
  · rw [← hnone]
    rfl
  · exact keeps_pure _

end

theorem length_name_of_writeMessage {w : Source} {type : Nat} {method : String} {fs : List Field}
    {v : Item} {b p : List UInt8} (hp : writeMessage w type method fs v b = some p) :
    (utf8 method).length ≤ maxWireSize := by
  obtain ⟨_, -, hp⟩ := Writing.seq_eq_some.mp hp
  obtain ⟨_, -, hp⟩ := Writing.seq_eq_some.mp hp
  obtain ⟨_, -, hp⟩ := Writing.seq_eq_some.mp hp
  obtain ⟨_, -, hp⟩ := Writing.seq_eq_some.mp hp
  obtain ⟨_, hname, -⟩ := Writing.seq_eq_some.mp hp
  exact (Writing.append_eq_some hname).1

/-- What is made of a reply that a server wrote by the same schema, with `rest` behind it. -/
theorem item_of_writeMessage {w : Source} (double : Nat → Rat) (hok : SchemaOk w.schema)
    {method : String} {fs : List Field} (hfs : resultFields w.schema method = some fs) {v : Item}
    {p : List UInt8} (hp : writeMessage w 2 method fs v [] = some p) (rest : List UInt8)
    (hsize : (p ++ rest).length ≤ maxWireSize) :
    ∃ reply, enilThriftDecode w.schema double method (some (p ++ rest)) = some reply ∧
      reply.item = if rest = [] ∨ rest = [0] then
        rereadStruct (rereadValue w double 42) (some fs) v 0 else none := by
  have hmax : maxWireSize < 2 ^ 64 := by decide
  have hname := length_name_of_writeMessage hp
  obtain ⟨enc, heq, -, -, ht⟩ :=
    rereads_reply (r := ⟨w.schema, double, false⟩) rfl hok hfs v (by omega) [] p (Nat.zero_le _) hp
  obtain rfl : p = enc := heq
  obtain ⟨a, r, hrun, hbuf, hin, hpos, ho⟩ :=
    ht { p := p ++ rest } rest rfl ⟨Nat.zero_le _, rfl⟩
  obtain ⟨r', hredundant, hbuf', hbad, -, hend⟩ := redundantStop_eq r
  unfold enilThriftDecode decodeMessage
  simp only [if_neg (show ¬ maxWireSize < (p ++ rest).length by omega), StateT.run, hrun,
    hredundant]
  refine ⟨_, rfl, ?_⟩
  simp only [hbad]
  cases hr : r.bad with
  | true =>
    rw [if_pos (.inl rfl)]
    rw [upshot, if_pos hr] at ho
    rw [Option.map_eq_none_iff.mp ho.symm, ite_self]
  | false =>
    have hlen : r.p.length = p.length + rest.length := by rw [hbuf, List.length_append]
    have hp' := hpos hr
    have hat : AtEnd r ↔ rest = [] ∨ rest = [0] := by
      unfold AtEnd
      rw [hlen, hp', hbuf]
      constructor
      · rintro (hnil | ⟨hone, hzero⟩)
        · exact .inl (List.eq_nil_of_length_eq_zero (by simpa using hnil.symm))
        · obtain ⟨c, rfl⟩ := List.length_eq_one_iff.mp (show rest.length = 1 by simpa using hone.symm)
          right
          simpa using hzero
      · rintro (rfl | rfl)
        · exact .inl (by simp)
        · exact .inr (by simp)
    by_cases hrest : rest = [] ∨ rest = [0]
    · rw [if_pos hrest, if_neg (by rw [hbuf', hend.mpr (hat.mpr hrest)]; simp)]
      rw [upshot, hr, if_neg Bool.false_ne_true] at ho
      obtain ⟨o, ho', rfl⟩ := Option.map_eq_some_iff.mp ho.symm
      exact ho'.symm
    · rw [if_neg hrest, if_pos]
      exact .inr fun hpos' => hrest (hat.mp (hend.mp (by rw [hpos', hbuf'])))

/-- What is made of a reply that a server wrote by the same schema, with or without a STOP
behind it: the value `reread` says, and nothing where that is none. -/
theorem decode_writeMessage {w : Source} (double : Nat → Rat)
    (hok : SchemaOk w.schema) {method : String}
    {fs : List Field} (hfs : resultFields w.schema method = some fs) {v : Item}
    {p stop : List UInt8} (hp : writeMessage w 2 method fs v [] = some p)
    (hstop : stop = [] ∨ stop = [0]) (hsize : (p ++ stop).length ≤ maxWireSize) :
    ∃ reply, enilThriftDecode w.schema double method (some (p ++ stop)) = some reply ∧
      reply.item = rereadStruct (rereadValue w double 42) (some fs) v 0 := by
  obtain ⟨reply, hreply, hitem⟩ := item_of_writeMessage double hok hfs hp stop hsize
  exact ⟨reply, hreply, by rw [hitem, if_pos hstop]⟩

/-- An excerpt of the schema. -/
def idsSource : Source where
  schema := [("getAllContactIds_result", [⟨0, "success", .of "list" [.name "string"]⟩])]
  bits _ := 0
  evp := .groups

/-- The reply of one id, as bytes. -/
def idsReply : List UInt8 :=
  [130, 65, 0, 16, 103, 101, 116, 65, 108, 108, 67, 111, 110, 116, 97, 99, 116, 73, 100, 115, 9, 0,
    24, 2, 117, 49, 0]

theorem schemaOk_idsSource : SchemaOk idsSource.schema := by
  intro e he
  rw [idsSource, List.mem_singleton] at he
  subst he
  exact ⟨by decide, by decide, List.nodup_singleton _⟩

theorem resultFields_idsSource : resultFields idsSource.schema "getAllContactIds" =
    some [⟨0, "success", .of "list" [.name "string"]⟩] := by
  have hname : "getAllContactIds" ++ "_result" = "getAllContactIds_result" := by decide
  unfold resultFields idsSource
  rw [← utf8_append, hname, List.take_of_length_le (by rw [length_utf8]; decide),
    List.find?_cons_of_pos (by simp)]
  rfl

theorem writeMessage_idsSource : writeMessage idsSource 2 "getAllContactIds"
    [⟨0, "success", .of "list" [.name "string"]⟩] (.arr [.arr [.str [117, 49]]]) [] =
      some idsReply := by
  have hname : utf8 "getAllContactIds" =
      [103, 101, 116, 65, 108, 108, 67, 111, 110, 116, 97, 99, 116, 73, 100, 115] := by
    rw [utf8_eq_flatMap]
    decide
  unfold writeMessage
  rw [hname]
  decide

theorem decode_writeMessage_ids : ∃ reply, enilThriftDecode idsSource.schema (fun _ => 0)
    "getAllContactIds" (some (idsReply ++ [0])) = some reply ∧
      reply.item = some (.obj [(utf8 "success", .arr [.str [117, 49]])]) :=
  decode_writeMessage (fun _ => 0) schemaOk_idsSource resultFields_idsSource
    writeMessage_idsSource (.inr rfl) (by decide)

end Enil.Thrift
