import Mathlib.Data.List.Nodup
import Mathlib.Order.Fin.Basic

/-!
# Base64

The standard encoding: three bytes give four characters of six bits, a shorter
last group is filled up with `=`. Different byte strings have different codes.
-/

namespace Enil.Lib.Base64

def alphabet : List Char :=
  "ABCDEFGHIJKLMNOPQRSTUVWXYZabcdefghijklmnopqrstuvwxyz0123456789+/".toList

/-- The character of a six-bit value. -/
def sextet (n : Nat) : Char := alphabet.getD n '='

theorem alphabet_length : alphabet.length = 64 := by decide

theorem alphabet_nodup : alphabet.Nodup := by decide

theorem pad_notMem_alphabet : '=' ∉ alphabet := by decide

theorem sextet_eq_getElem {n : Nat} (h : n < 64) :
    sextet n = alphabet.get ⟨n, by rw [alphabet_length]; exact h⟩ := by
  unfold sextet
  rw [List.getD_eq_getElem?_getD, List.getElem?_eq_getElem (by rw [alphabet_length]; exact h)]
  rfl

theorem sextet_ne_pad {n : Nat} (h : n < 64) : sextet n ≠ '=' := by
  intro he
  apply pad_notMem_alphabet
  rw [← he, sextet_eq_getElem h]
  exact List.get_mem _ _

theorem sextet_inj {m n : Nat} (hm : m < 64) (hn : n < 64) : sextet m = sextet n ↔ m = n := by
  constructor
  · intro h
    rw [sextet_eq_getElem hm, sextet_eq_getElem hn] at h
    exact Fin.mk.inj (alphabet_nodup.get_inj_iff.mp h)
  · intro h
    rw [h]

def encode : List UInt8 → List Char
  | [] => []
  | [a] => [sextet (a.toNat / 4), sextet (a.toNat % 4 * 16), '=', '=']
  | [a, b] =>
    [sextet (a.toNat / 4), sextet (a.toNat % 4 * 16 + b.toNat / 16), sextet (b.toNat % 16 * 4), '=']
  | a :: b :: c :: rest =>
    sextet (a.toNat / 4) :: sextet (a.toNat % 4 * 16 + b.toNat / 16) ::
      sextet (b.toNat % 16 * 4 + c.toNat / 64) :: sextet (c.toNat % 64) :: encode rest

theorem byte_ext {a b : UInt8} (h : a.toNat = b.toNat) : a = b := UInt8.toNat_inj.mp h

/-- The first two sextets of a group give its first byte and the top of the second. -/
theorem first_of_sextets {a a' b b' : Nat} (ha : a < 256) (ha' : a' < 256) (hb : b < 256)
    (hb' : b' < 256) (h₁ : sextet (a / 4) = sextet (a' / 4))
    (h₂ : sextet (a % 4 * 16 + b / 16) = sextet (a' % 4 * 16 + b' / 16)) :
    a = a' ∧ b / 16 = b' / 16 := by
  rw [sextet_inj (by omega) (by omega)] at h₁ h₂
  omega

theorem encode_inj : ∀ {xs ys : List UInt8}, encode xs = encode ys → xs = ys
  | [], [], _ => rfl
  | [], [_], h | [], [_, _], h | [], _ :: _ :: _ :: _, h => by simp [encode] at h
  | [_], [], h | [_, _], [], h | _ :: _ :: _ :: _, [], h => by simp [encode] at h
  | [a], [a'], h => by
    simp only [encode, List.cons.injEq, and_true] at h
    have h0 : 0 < 256 := by omega
    have hab := first_of_sextets a.toNat_lt a'.toNat_lt h0 h0 h.1 h.2
    rw [byte_ext hab.1]
  | [a, b], [a', b'], h => by
    simp only [encode, List.cons.injEq, and_true] at h
    obtain ⟨h₁, h₂, h₃⟩ := h
    have hab := first_of_sextets a.toNat_lt a'.toNat_lt b.toNat_lt b'.toNat_lt h₁ h₂
    rw [sextet_inj (by omega) (by omega)] at h₃
    have hb : b.toNat = b'.toNat := by omega
    rw [byte_ext hab.1, byte_ext hb]
  | a :: b :: c :: xs, a' :: b' :: c' :: ys, h => by
    have hc := c.toNat_lt
    have hc' := c'.toNat_lt
    simp only [encode, List.cons.injEq] at h
    obtain ⟨h₁, h₂, h₃, h₄, h₅⟩ := h
    have hab := first_of_sextets a.toNat_lt a'.toNat_lt b.toNat_lt b'.toNat_lt h₁ h₂
    rw [sextet_inj (by omega) (by omega)] at h₃ h₄
    have hb : b.toNat = b'.toNat := by omega
    have hc : c.toNat = c'.toNat := by omega
    rw [byte_ext hab.1, byte_ext hb, byte_ext hc, encode_inj h₅]
  -- Groups of different lengths differ where one of them is filled up.
  | [_], [_, b], h => by
    simp only [encode, List.cons.injEq] at h
    exact absurd h.2.2.1.symm (sextet_ne_pad (by omega))
  | [_, b], [_], h => by
    simp only [encode, List.cons.injEq] at h
    exact absurd h.2.2.1 (sextet_ne_pad (by omega))
  | [_], _ :: b :: c :: _, h => by
    have hc := c.toNat_lt
    simp only [encode, List.cons.injEq] at h
    exact absurd h.2.2.1.symm (sextet_ne_pad (by omega))
  | _ :: b :: c :: _, [_], h => by
    have hc := c.toNat_lt
    simp only [encode, List.cons.injEq] at h
    exact absurd h.2.2.1 (sextet_ne_pad (by omega))
  | [_, _], _ :: _ :: c :: _, h => by
    simp only [encode, List.cons.injEq] at h
    exact absurd h.2.2.2.1.symm (sextet_ne_pad (by omega))
  | _ :: _ :: c :: _, [_, _], h => by
    simp only [encode, List.cons.injEq] at h
    exact absurd h.2.2.2.1 (sextet_ne_pad (by omega))

/-! ## Decoding -/

/-- The value of a character; a padding counts as zero. -/
def value (c : Char) : Option Nat :=
  if c = '=' then some 0 else if c ∈ alphabet then some (alphabet.idxOf c) else none

theorem value_sextet {n : Nat} (h : n < 64) : value (sextet n) = some n := by
  have hmem : sextet n ∈ alphabet := by
    rw [sextet_eq_getElem h]
    exact List.get_mem _ _
  rw [value, if_neg (sextet_ne_pad h), if_pos hmem, sextet_eq_getElem h, List.get_eq_getElem,
    alphabet_nodup.idxOf_getElem]

theorem value_pad : value '=' = some 0 := rfl

/-- The bytes of each group of four characters, those of the padding included. -/
def decodeBlock : List Char → Option (List UInt8)
  | [] => some []
  | c₁ :: c₂ :: c₃ :: c₄ :: rest => do
    let n := (← value c₁) * 262144 + (← value c₂) * 4096 + (← value c₃) * 64 + (← value c₄)
    return UInt8.ofNat (n / 65536) :: UInt8.ofNat (n / 256) :: UInt8.ofNat n ::
      (← decodeBlock rest)
  | _ => none

/-- The number of characters that fill up the last group. -/
def padding (n : Nat) : Nat := (3 - n % 3) % 3

theorem length_encode : ∀ bs : List UInt8, (encode bs).length = (bs.length + 2) / 3 * 4
  | [] | [_] | [_, _] => by simp [encode]
  | a :: b :: c :: rest => by
    simp only [encode, List.length_cons, length_encode rest]
    omega

/-- The padding stands in the last two characters. -/
theorem count_pad_encode : ∀ bs : List UInt8,
    ((encode bs).drop ((encode bs).length - 2)).count '=' = padding bs.length
  | [] => rfl
  | [a] => rfl
  | [a, b] => by
    have hne : sextet (b.toNat % 16 * 4) ≠ '=' := sextet_ne_pad (by omega)
    show [sextet (b.toNat % 16 * 4), '='].count '=' = 1
    rw [List.count_cons_of_ne hne]
    rfl
  | [a, b, c] => by
    have hc := c.toNat_lt
    have h₃ : sextet (b.toNat % 16 * 4 + c.toNat / 64) ≠ '=' := sextet_ne_pad (by omega)
    have h₄ : sextet (c.toNat % 64) ≠ '=' := sextet_ne_pad (by omega)
    simp only [encode, List.length_cons, List.length_nil, List.drop_succ_cons, List.drop_zero]
    rw [List.count_cons_of_ne h₃, List.count_cons_of_ne h₄]
    rfl
  | a :: b :: c :: d :: rest => by
    have ih := count_pad_encode (d :: rest)
    have hlen := length_encode (d :: rest)
    rw [List.length_cons] at hlen
    generalize hcode : encode (d :: rest) = code at ih hlen
    have hdrop : (encode (a :: b :: c :: d :: rest)).drop
        ((encode (a :: b :: c :: d :: rest)).length - 2) = code.drop (code.length - 2) := by
      simp only [encode, hcode, List.length_cons]
      rw [show code.length + 1 + 1 + 1 + 1 - 2 = code.length - 2 + 4 by omega]
      rfl
    rw [hdrop, ih]
    unfold padding
    simp only [List.length_cons]
    omega

theorem byte_ofNat {n : Nat} {b : UInt8} (h : n % 256 = b.toNat) : UInt8.ofNat n = b := by
  apply byte_ext
  rw [UInt8.toNat_ofNat']
  exact h

theorem decodeBlock_encode : ∀ bs : List UInt8,
    decodeBlock (encode bs) = some (bs ++ List.replicate (padding bs.length) 0)
  | [] => rfl
  | [a] => by
    have ha := a.toNat_lt
    simp only [encode, decodeBlock, value_sextet (show a.toNat / 4 < 64 by omega),
      value_sextet (show a.toNat % 4 * 16 < 64 by omega), value_pad, bind, Option.bind, pure]
    rw [byte_ofNat (b := a) (by omega), byte_ofNat (b := 0) (by show _ = 0; omega),
      byte_ofNat (b := 0) (by show _ = 0; omega)]
    rfl
  | [a, b] => by
    have ha := a.toNat_lt
    have hb := b.toNat_lt
    simp only [encode, decodeBlock, value_sextet (show a.toNat / 4 < 64 by omega),
      value_sextet (show a.toNat % 4 * 16 + b.toNat / 16 < 64 by omega),
      value_sextet (show b.toNat % 16 * 4 < 64 by omega), value_pad, bind, Option.bind, pure]
    rw [byte_ofNat (b := a) (by omega), byte_ofNat (b := b) (by omega),
      byte_ofNat (b := 0) (by show _ = 0; omega)]
    rfl
  | a :: b :: c :: rest => by
    have ha := a.toNat_lt
    have hb := b.toNat_lt
    have hc := c.toNat_lt
    simp only [encode, decodeBlock, value_sextet (show a.toNat / 4 < 64 by omega),
      value_sextet (show a.toNat % 4 * 16 + b.toNat / 16 < 64 by omega),
      value_sextet (show b.toNat % 16 * 4 + c.toNat / 64 < 64 by omega),
      value_sextet (show c.toNat % 64 < 64 by omega), decodeBlock_encode rest, bind, Option.bind,
      pure]
    rw [byte_ofNat (b := a) (by omega), byte_ofNat (b := b) (by omega),
      byte_ofNat (b := c) (by omega)]
    have hpad : padding (rest.length + 1 + 1 + 1) = padding rest.length := by
      unfold padding
      omega
    simp only [List.length_cons, List.cons_append, hpad]

theorem sextet_mem {n : Nat} (h : n < 64) : sextet n ∈ alphabet := by
  rw [sextet_eq_getElem h]
  exact List.get_mem _ _

theorem mem_encode : ∀ {bs : List UInt8} {c : Char}, c ∈ encode bs → c ∈ alphabet ∨ c = '='
  | [], _, h => by cases h
  | [a], c, h => by
    have ha := a.toNat_lt
    simp only [encode, List.mem_cons, List.not_mem_nil, or_false, or_self] at h
    rcases h with rfl | rfl | rfl
    · exact .inl (sextet_mem (by omega))
    · exact .inl (sextet_mem (by omega))
    · exact .inr rfl
  | [a, b], c, h => by
    have ha := a.toNat_lt
    have hb := b.toNat_lt
    simp only [encode, List.mem_cons, List.not_mem_nil, or_false] at h
    rcases h with rfl | rfl | rfl | rfl
    · exact .inl (sextet_mem (by omega))
    · exact .inl (sextet_mem (by omega))
    · exact .inl (sextet_mem (by omega))
    · exact .inr rfl
  | a :: b :: d :: rest, c, h => by
    have ha := a.toNat_lt
    have hb := b.toNat_lt
    have hd := d.toNat_lt
    simp only [encode, List.mem_cons] at h
    rcases h with rfl | rfl | rfl | rfl | h
    · exact .inl (sextet_mem (by omega))
    · exact .inl (sextet_mem (by omega))
    · exact .inl (sextet_mem (by omega))
    · exact .inl (sextet_mem (by omega))
    · exact mem_encode h

/-! ## Strict texts -/

/-- Groups of characters of the alphabet, of which the last one may be filled up. -/
def wellFormed : List Char → Bool
  | [] => true
  | [c₁, c₂, c₃, c₄] =>
    c₁ ∈ alphabet && c₂ ∈ alphabet &&
      (c₃ ∈ alphabet && (c₄ ∈ alphabet || c₄ == '=') || c₃ == '=' && c₄ == '=')
  | c₁ :: c₂ :: c₃ :: c₄ :: rest =>
    c₁ ∈ alphabet && c₂ ∈ alphabet && c₃ ∈ alphabet && c₄ ∈ alphabet && wellFormed rest
  | _ => false

/-- The bytes of a well-formed text, without those of the padding. -/
def decode (cs : List Char) : Option (List UInt8) :=
  if wellFormed cs then
    (decodeBlock cs).map fun bs => bs.take (bs.length - (cs.drop (cs.length - 2)).count '=')
  else none

theorem wellFormed_encode : ∀ bs : List UInt8, wellFormed (encode bs) = true
  | [] => rfl
  | [a] => by
    have ha := a.toNat_lt
    simp [encode, wellFormed, sextet_mem (show a.toNat / 4 < 64 by omega),
      sextet_mem (show a.toNat % 4 * 16 < 64 by omega)]
  | [a, b] => by
    have ha := a.toNat_lt
    have hb := b.toNat_lt
    simp [encode, wellFormed, sextet_mem (show a.toNat / 4 < 64 by omega),
      sextet_mem (show a.toNat % 4 * 16 + b.toNat / 16 < 64 by omega),
      sextet_mem (show b.toNat % 16 * 4 < 64 by omega)]
  | a :: b :: c :: rest => by
    have ha := a.toNat_lt
    have hb := b.toNat_lt
    have hc := c.toNat_lt
    have hmem := And.intro (sextet_mem (show a.toNat / 4 < 64 by omega))
      (And.intro (sextet_mem (show a.toNat % 4 * 16 + b.toNat / 16 < 64 by omega))
        (And.intro (sextet_mem (show b.toNat % 16 * 4 + c.toNat / 64 < 64 by omega))
          (sextet_mem (show c.toNat % 64 < 64 by omega))))
    have ih := wellFormed_encode rest
    rw [encode]
    generalize encode rest = code at ih
    cases code with
    | nil => simp [wellFormed, hmem]
    | cons c₁ cs => simp [wellFormed, hmem, ih]

theorem decode_encode (bs : List UInt8) : decode (encode bs) = some bs := by
  rw [decode, if_pos (wellFormed_encode bs), decodeBlock_encode, Option.map_some,
    count_pad_encode, List.length_append, List.length_replicate, Nat.add_sub_cancel,
    List.take_left]

end Enil.Lib.Base64
