import Mathlib.Logic.Function.Basic
import Enil.Lib.Traced
import Enil.Worker.Text

/-!
# The header block of a LEGY message

A length, a count and that many names and values, each behind its length. The
decoder reads by position; its trace is the positions it reads. It accepts what a
block of UTF-8 entries begins (`decodeHeaders_result`), and what it accepts it has
read inside the block alone (`decodeHeaders_inside`).
-/

namespace Enil

open Lib

/-! ## Encoding -/

def u16 (n : Nat) : Option (List UInt8) :=
  if 65535 < n then none else some [UInt8.ofNat (n / 256), UInt8.ofNat (n % 256)]

def encodeEntry (entry : String × String) : Option (List UInt8) := do
  let k ← u16 (utf8 entry.1).length
  let v ← u16 (utf8 entry.2).length
  return k ++ utf8 entry.1 ++ v ++ utf8 entry.2

/-- encodeHeaders on the entries of the object. -/
def encodeHeaders (entries : List (String × String)) : Option (List UInt8) := do
  let count ← u16 entries.length
  let parts ← entries.mapM encodeEntry
  let data := count ++ parts.flatten
  return (← u16 data.length) ++ data

/-! ## Decoding -/

/-- The properties of an object without a prototype. -/
abbrev Headers := String → Option String

/-- A part of the decoder; it leaves the positions it reads. -/
abbrev Reading := Traced Nat

def word (a : List UInt8) (pos : Nat) : Reading (Nat × Nat) :=
  if a.length < pos + 2 then .fail
  else
    { result := some ((a.getD pos 0).toNat * 256 + (a.getD (pos + 1) 0).toNat, pos + 2)
      trace := [pos, pos + 1] }

/-- The text of `n` bytes. -/
def text (a : List UInt8) (pos n : Nat) : Reading String where
  result := textDecode ((a.drop pos).take n)
  trace := List.range' pos n

def string (a : List UInt8) (stop pos : Nat) : Reading (String × Nat) := do
  let (n, pos) ← word a pos
  if stop < pos + n then Traced.fail
  else
    let s ← text a pos n
    return (s, pos + n)

def pairs (a : List UInt8) (stop : Nat) : Nat → Nat → Headers → Reading (Headers × Nat)
  | 0, pos, headers => return (headers, pos)
  | count + 1, pos, headers => do
    let (k, pos) ← string a stop pos
    let (v, pos) ← string a stop pos
    pairs a stop count pos (Function.update headers k (some v))

def decodeHeaders (a : List UInt8) : Reading (Headers × List UInt8) := do
  let (n, pos) ← word a 0
  let stop := n + 2
  let (count, pos) ← word a pos
  if a.length < stop then Traced.fail
  else
    let (headers, pos) ← pairs a stop count pos fun _ => none
    if pos ≠ stop then Traced.fail
    else return (headers, a.drop stop)

/-! ## The format -/

/-- A length of two bytes, the higher one first. -/
def be16 (n : Nat) : List UInt8 := [UInt8.ofNat (n / 256), UInt8.ofNat (n % 256)]

def field (f : List UInt8) : List UInt8 := be16 f.length ++ f

/-- The names and values of a block. -/
def fields (entries : List (List UInt8 × List UInt8)) : List UInt8 :=
  entries.flatMap fun e => field e.1 ++ field e.2

def block (entries : List (List UInt8 × List UInt8)) : List UInt8 :=
  be16 entries.length ++ fields entries

/-- What the entries say, the last of a name for all of it. -/
def decodeEntries (headers : Headers) : List (List UInt8 × List UInt8) → Option Headers
  | [] => some headers
  | e :: entries => do
    let k ← textDecode e.1
    let v ← textDecode e.2
    decodeEntries (Function.update headers k (some v)) entries

section

variable {a xs : List UInt8} {n pos pos' : Nat}

@[simp] theorem length_be16 (n : Nat) : (be16 n).length = 2 := rfl

@[simp] theorem length_field (f : List UInt8) : (field f).length = f.length + 2 := by
  simp [field, Nat.add_comm]

theorem fields_cons (e : List UInt8 × List UInt8) (entries : List (List UInt8 × List UInt8)) :
    fields (e :: entries) = field e.1 ++ (field e.2 ++ fields entries) := by
  rw [fields, List.flatMap_cons, List.append_assoc]
  rfl

theorem u16_eq_some : u16 n = some xs ↔ n < 65536 ∧ xs = be16 n := by
  unfold u16 be16
  split
  · constructor
    · rintro ⟨⟩
    · omega
  · constructor
    · rintro ⟨⟩
      exact ⟨by omega, rfl⟩
    · rintro ⟨-, rfl⟩
      rfl

/-- The bytes of a list from a position on. -/
def StartsAt (a : List UInt8) (pos : Nat) (xs : List UInt8) : Prop := xs <+: a.drop pos

theorem StartsAt.le (h : StartsAt a pos xs) (hne : xs ≠ []) : pos + xs.length ≤ a.length := by
  have hle := h.length_le
  have hpos := List.length_pos_iff.mpr hne
  rw [List.length_drop] at hle
  omega

theorem startsAt_append {ys : List UInt8} :
    StartsAt a pos (xs ++ ys) ↔ StartsAt a pos xs ∧ StartsAt a (pos + xs.length) ys := by
  constructor
  · rintro ⟨zs, hzs⟩
    refine ⟨⟨ys ++ zs, by rw [← hzs, List.append_assoc]⟩, zs, ?_⟩
    rw [← List.drop_drop, ← hzs, List.append_assoc, List.drop_left]
  · rintro ⟨⟨zs, hzs⟩, ws, hws⟩
    refine ⟨ws, ?_⟩
    rw [← List.drop_drop, ← hzs, List.drop_left] at hws
    rw [List.append_assoc, hws, hzs]

/-- The bytes that follow are taken. -/
theorem take_drop_of_startsAt (h : StartsAt a pos xs) : (a.drop pos).take xs.length = xs := by
  obtain ⟨zs, hzs⟩ := h
  rw [← hzs, List.take_left]

theorem startsAt_take (h : pos + n ≤ a.length) :
    StartsAt a pos ((a.drop pos).take n) ∧ ((a.drop pos).take n).length = n := by
  refine ⟨List.take_prefix _ _, ?_⟩
  rw [List.length_take, List.length_drop]
  omega

/-! ## What is accepted -/

theorem byte_pair {b c : UInt8} : be16 (b.toNat * 256 + c.toNat) = [b, c] := by
  have hb := b.toNat_lt
  have hc := c.toNat_lt
  have h₁ : (b.toNat * 256 + c.toNat) / 256 = b.toNat := by omega
  have h₂ : (b.toNat * 256 + c.toNat) % 256 = c.toNat := by omega
  rw [be16, h₁, h₂, UInt8.ofNat_toNat, UInt8.ofNat_toNat]

theorem byte_value (h : n < 65536) :
    (UInt8.ofNat (n / 256)).toNat * 256 + (UInt8.ofNat (n % 256)).toNat = n := by
  rw [UInt8.toNat_ofNat', UInt8.toNat_ofNat']
  omega

theorem word_result {r : Nat × Nat} :
    (word a pos).result = some r ↔ StartsAt a pos (be16 r.1) ∧ r.1 < 65536 ∧ r.2 = pos + 2 := by
  unfold word
  split
  · rename_i h
    constructor
    · rintro ⟨⟩
    · rintro ⟨hs, -, -⟩
      have := hs.le (by simp [be16])
      rw [length_be16] at this
      omega
  · rename_i h
    have hget : a.drop pos = a.getD pos 0 :: a.getD (pos + 1) 0 :: a.drop (pos + 2) := by
      rw [List.drop_eq_getElem_cons (by omega), List.drop_eq_getElem_cons (by omega)]
      simp only [List.getD_eq_getElem?_getD]
      rw [List.getElem?_eq_getElem (by omega), List.getElem?_eq_getElem (by omega)]
      rfl
    have hlt := (a.getD pos 0).toNat_lt
    have hlt' := (a.getD (pos + 1) 0).toNat_lt
    constructor
    · intro hr
      obtain rfl := Option.some.inj hr
      refine ⟨?_, by show _ < _; omega, rfl⟩
      rw [StartsAt, byte_pair, hget]
      exact ⟨_, rfl⟩
    · rintro ⟨⟨zs, hzs⟩, hn, hp⟩
      rw [hget] at hzs
      obtain ⟨n, p⟩ := r
      obtain ⟨h₁, hrest⟩ := List.cons.inj hzs
      obtain ⟨h₂, -⟩ := List.cons.inj hrest
      have hv := byte_value hn
      show some (_, _) = some (_, _)
      rw [← h₁, ← h₂, hv]
      exact congrArg some (Prod.ext rfl hp.symm)

theorem string_result {stop : Nat} {r : String × Nat} (hstop : stop ≤ a.length) :
    (string a stop pos).result = some r ↔ ∃ f, f.length < 65536 ∧ StartsAt a pos (field f) ∧
      r.2 = pos + (field f).length ∧ r.2 ≤ stop ∧ textDecode f = some r.1 := by
  rw [string, Traced.result_bind]
  constructor
  · rintro ⟨⟨n, p⟩, hword, hr⟩
    obtain ⟨hlen, hn, rfl⟩ := word_result.mp hword
    dsimp only at hlen hn hr
    split_ifs at hr with hle
    · cases hr
    · obtain ⟨s, hs, hr⟩ := Traced.result_bind.mp hr
      cases hr
      have hfits : pos + 2 + n ≤ a.length := by omega
      obtain ⟨hat, htake⟩ := startsAt_take hfits
      refine ⟨(a.drop (pos + 2)).take n, by omega, ?_, ?_, by omega, hs⟩
      · rw [field, startsAt_append, htake]
        exact ⟨hlen, hat⟩
      · rw [length_field, htake]
        omega
  · rintro ⟨f, hf, hat, hp, hle, hs⟩
    rw [field, startsAt_append] at hat
    rw [length_field] at hp
    refine ⟨(f.length, pos + 2), word_result.mpr ⟨hat.1, hf, rfl⟩, ?_⟩
    have htext : (text a (pos + 2) f.length).result = some r.1 := by
      rw [text, take_drop_of_startsAt (by simpa only [length_be16] using hat.2)]
      exact hs
    dsimp only
    rw [if_neg (by omega)]
    refine Traced.result_bind.mpr ⟨r.1, htext, ?_⟩
    exact congrArg some (Prod.ext rfl (by show pos + 2 + f.length = r.2; omega))

theorem pairs_result {stop count : Nat} {headers headers' : Headers} (hstop : stop ≤ a.length)
    (hpos : pos' ≤ stop) :
    (pairs a stop count pos headers).result = some (headers', pos') ↔
      ∃ entries, entries.length = count ∧ StartsAt a pos (fields entries) ∧
        pos' = pos + (fields entries).length ∧
        (∀ e ∈ entries, e.1.length < 65536 ∧ e.2.length < 65536) ∧
        decodeEntries headers entries = some headers' := by
  induction count generalizing pos headers with
  | zero =>
    constructor
    · rintro ⟨⟩
      exact ⟨[], rfl, ⟨_, rfl⟩, rfl, by simp, rfl⟩
    · rintro ⟨entries, hlen, -, hp, -, hd⟩
      obtain rfl := List.length_eq_zero_iff.mp hlen
      cases hd
      rw [hp]
      rfl
  | succ count ih =>
    rw [pairs, Traced.result_bind]
    constructor
    · rintro ⟨⟨k, p₁⟩, hk, hr⟩
      obtain ⟨⟨v, p₂⟩, hv, hr⟩ := Traced.result_bind.mp hr
      obtain ⟨f, hf, hfat, hfp, -, hfk⟩ := (string_result hstop).mp hk
      obtain ⟨g, hg, hgat, hgp, -, hgv⟩ := (string_result hstop).mp hv
      dsimp only at hfp hgp hfk hgv hr hgat
      subst hfp
      subst hgp
      obtain ⟨entries, hlen, hat, hp, hsmall, hd⟩ := ih.mp hr
      refine ⟨(f, g) :: entries, by simp [hlen], ?_, ?_, ?_, ?_⟩
      · rw [fields_cons, startsAt_append, startsAt_append]
        exact ⟨hfat, hgat, hat⟩
      · rw [fields_cons, List.length_append, List.length_append]
        dsimp only
        omega
      · rw [List.forall_mem_cons]
        exact ⟨⟨hf, hg⟩, hsmall⟩
      · rw [decodeEntries]
        dsimp only
        rw [hfk, hgv]
        exact hd
    · rintro ⟨entries, hlen, hat, hp, hsmall, hd⟩
      cases entries with
      | nil => cases hlen
      | cons e entries =>
        rw [fields_cons, startsAt_append, startsAt_append] at hat
        rw [fields_cons, List.length_append, List.length_append] at hp
        rw [List.forall_mem_cons] at hsmall
        obtain ⟨k, hk, hd⟩ := Option.bind_eq_some_iff.mp hd
        obtain ⟨v, hv, hd⟩ := Option.bind_eq_some_iff.mp hd
        refine ⟨(k, pos + (field e.1).length),
          (string_result hstop).mpr ⟨e.1, hsmall.1.1, hat.1, rfl, by dsimp only; omega, hk⟩, ?_⟩
        refine Traced.result_bind.mpr ⟨(v, pos + (field e.1).length + (field e.2).length),
          (string_result hstop).mpr
            ⟨e.2, hsmall.1.2, hat.2.1, rfl, by dsimp only; omega, hv⟩, ?_⟩
        exact ih.mpr ⟨entries, Nat.succ.inj hlen, hat.2.2, by omega, hsmall.2, hd⟩

/-- A block behind its length. -/
def frame (entries : List (List UInt8 × List UInt8)) : List UInt8 :=
  be16 (block entries).length ++ block entries

theorem length_fields_ge (entries : List (List UInt8 × List UInt8)) :
    entries.length ≤ (fields entries).length ∧
      ∀ e ∈ entries, e.1.length ≤ (fields entries).length ∧
        e.2.length ≤ (fields entries).length := by
  induction entries with
  | nil => simp
  | cons e entries ih =>
    rw [fields_cons, List.length_append, List.length_append, length_field, length_field,
      List.length_cons, List.forall_mem_cons]
    refine ⟨by omega, by omega, fun e' he' => ?_⟩
    have := ih.2 e' he'
    omega

theorem length_block (entries : List (List UInt8 × List UInt8)) :
    (block entries).length = (fields entries).length + 2 := by
  rw [block, List.length_append, length_be16]
  omega

/-- Accepted is what a frame of UTF-8 entries begins. -/
theorem decodeHeaders_result {headers : Headers} {data : List UInt8} :
    (decodeHeaders a).result = some (headers, data) ↔
      ∃ entries, (block entries).length < 65536 ∧ a = frame entries ++ data ∧
        decodeEntries (fun _ => none) entries = some headers := by
  rw [decodeHeaders, Traced.result_bind]
  constructor
  · rintro ⟨⟨n, p⟩, hn, hr⟩
    obtain ⟨hnat, hn, rfl⟩ := word_result.mp hn
    obtain ⟨⟨count, p⟩, hcount, hr⟩ := Traced.result_bind.mp hr
    obtain ⟨hcat, hcount, rfl⟩ := word_result.mp hcount
    dsimp only at hnat hn hcat hcount hr
    split_ifs at hr with hstop
    · cases hr
    obtain ⟨⟨headers', p⟩, hpairs, hr⟩ := Traced.result_bind.mp hr
    dsimp only at hr
    split_ifs at hr with hp
    · cases hr
    push Not at hp
    subst hp
    cases hr
    obtain ⟨entries, hlen, hat, hp, -, hd⟩ := (pairs_result (by omega) (Nat.le_refl _)).mp hpairs
    have hblock := length_block entries
    have hframe : StartsAt a 0 (frame entries) := by
      rw [frame, block, startsAt_append, startsAt_append]
      have hn' : (be16 entries.length ++ fields entries).length = n := by
        rw [← block]
        omega
      rw [hn', hlen]
      exact ⟨hnat, hcat, hat⟩
    refine ⟨entries, by omega, ?_, hd⟩
    obtain ⟨zs, hzs⟩ := hframe
    rw [List.drop_zero] at hzs
    have hlenf : (frame entries).length = n + 2 := by
      rw [frame, List.length_append, length_be16]
      omega
    rw [← hzs, ← hlenf, List.drop_left]
  · rintro ⟨entries, hsmall, rfl, hd⟩
    have hblock := length_block entries
    obtain ⟨hle, hall⟩ := length_fields_ge entries
    have hat : StartsAt (frame entries ++ data) 0 (frame entries) := ⟨data, rfl⟩
    have hlenf : (frame entries).length = (block entries).length + 2 := by
      rw [frame, List.length_append, length_be16]
      omega
    have hlen : (frame entries ++ data).length = (block entries).length + 2 + data.length := by
      rw [List.length_append, hlenf]
    obtain ⟨hn, hat⟩ := startsAt_append.mp hat
    obtain ⟨hcount, hat⟩ := startsAt_append.mp hat
    refine ⟨((block entries).length, 0 + 2), word_result.mpr ⟨hn, hsmall, rfl⟩, ?_⟩
    refine Traced.result_bind.mpr ⟨(entries.length, 0 + 2 + 2),
      word_result.mpr ⟨hcount, by omega, rfl⟩, ?_⟩
    dsimp only
    rw [if_neg (by omega)]
    refine Traced.result_bind.mpr ⟨(headers, (block entries).length + 2),
      (pairs_result (by omega) (Nat.le_refl _)).mpr
        ⟨entries, rfl, hat, by omega, fun e he => ?_, hd⟩, ?_⟩
    · have := hall e he
      omega
    · dsimp only
      rw [if_neg (by simp), ← hlenf, List.drop_left]
      rfl

/-! ## Where it reads -/

/-- A part of the decoder that starts at `pos` reads below the limit, and where it comes
to a next position below that. -/
structure ReadsTo {α : Type} (limit pos : Nat) (m : Reading (α × Nat)) : Prop where
  limit : ∀ i ∈ m.trace, i < limit
  next : ∀ r, m.result = some r → pos ≤ r.2 ∧ ∀ i ∈ m.trace, i < r.2

section

variable {α β : Type} {limit : Nat} {m : Reading (α × Nat)}

theorem ReadsTo.fail : ReadsTo limit pos (Traced.fail : Reading (α × Nat)) :=
  ⟨by simp, by rintro r ⟨⟩⟩

theorem ReadsTo.pure (x : α) (h : pos ≤ pos') :
    ReadsTo limit pos (Pure.pure (x, pos') : Reading (α × Nat)) := by
  refine ⟨by simp, ?_⟩
  rintro r ⟨⟩
  exact ⟨h, by simp⟩

theorem ReadsTo.bind {f : α × Nat → Reading (β × Nat)} (hm : ReadsTo limit pos m)
    (hf : ∀ r, m.result = some r → ReadsTo limit r.2 (f r)) : ReadsTo limit pos (m >>= f) := by
  constructor
  · intro i hi
    rcases Traced.mem_trace_bind.mp hi with hi | ⟨r, hr, hi⟩
    · exact hm.limit i hi
    · exact (hf r hr).limit i hi
  · intro r hr
    obtain ⟨r₀, hr₀, hr⟩ := Traced.result_bind.mp hr
    obtain ⟨hpos, hread⟩ := hm.next r₀ hr₀
    obtain ⟨hpos', hread'⟩ := (hf r₀ hr₀).next r hr
    refine ⟨by omega, fun i hi => ?_⟩
    rcases Traced.mem_trace_bind.mp hi with hi | ⟨r₁, hr₁, hi⟩
    · have := hread i hi
      omega
    · obtain rfl := Option.some.inj (hr₀.symm.trans hr₁)
      exact hread' i hi

end

theorem word_reads (pos : Nat) : ReadsTo a.length pos (word a pos) := by
  unfold word
  split
  · exact .fail
  · rename_i h
    constructor
    · intro i hi
      simp only [List.mem_cons, List.not_mem_nil, or_false] at hi
      omega
    · rintro r ⟨⟩
      refine ⟨by dsimp only; omega, fun i hi => ?_⟩
      simp only [List.mem_cons, List.not_mem_nil, or_false] at hi
      dsimp only
      omega

theorem string_reads {stop : Nat} (hstop : stop ≤ a.length) (pos : Nat) :
    ReadsTo a.length pos (string a stop pos) := by
  refine (word_reads pos).bind ?_
  rintro ⟨n, p⟩ -
  dsimp only
  split_ifs with hle
  · exact .fail
  · constructor
    · intro i hi
      rcases Traced.mem_trace_bind.mp hi with hi | ⟨s, -, hi⟩
      · rw [text, List.mem_range'_1] at hi
        omega
      · cases hi
    · intro r hr
      obtain ⟨s, hs, hr⟩ := Traced.result_bind.mp hr
      cases hr
      refine ⟨by dsimp only; omega, fun i hi => ?_⟩
      rcases Traced.mem_trace_bind.mp hi with hi | ⟨s, -, hi⟩
      · rw [text, List.mem_range'_1] at hi
        dsimp only
        omega
      · cases hi

theorem pairs_reads {stop : Nat} (hstop : stop ≤ a.length) (count pos : Nat) (headers : Headers) :
    ReadsTo a.length pos (pairs a stop count pos headers) := by
  induction count generalizing pos headers with
  | zero => exact .pure headers (Nat.le_refl _)
  | succ count ih =>
    refine (string_reads hstop pos).bind ?_
    rintro ⟨k, p₁⟩ -
    refine (string_reads hstop p₁).bind ?_
    rintro ⟨v, p₂⟩ -
    exact ih p₂ _

/-- The end of the first block by the length before it. -/
def blockEnd (a : List UInt8) : Nat := (a.getD 0 0).toNat * 256 + (a.getD 1 0).toNat + 2

theorem word_first {r : Nat × Nat} (h : (word a 0).result = some r) : r.1 + 2 = blockEnd a := by
  unfold word at h
  split_ifs at h
  · cases h
  · cases h
    rfl

theorem decodeHeaders_reads (a : List UInt8) : ∀ i ∈ (decodeHeaders a).trace, i < a.length := by
  intro i hi
  rcases Traced.mem_trace_bind.mp hi with hi | ⟨⟨n, p⟩, -, hi⟩
  · exact (word_reads 0).limit i hi
  rcases Traced.mem_trace_bind.mp hi with hi | ⟨⟨count, p⟩, -, hi⟩
  · exact (word_reads _).limit i hi
  dsimp only at hi
  split_ifs at hi with hstop
  · cases hi
  rcases Traced.mem_trace_bind.mp hi with hi | ⟨⟨headers, p⟩, -, hi⟩
  · exact (pairs_reads (by omega) _ _ _).limit i hi
  · dsimp only at hi
    split_ifs at hi <;> cases hi

/-- What is accepted is read inside its block. -/
theorem decodeHeaders_inside {r : Headers × List UInt8} (h : (decodeHeaders a).result = some r) :
    ∀ i ∈ (decodeHeaders a).trace, i < blockEnd a := by
  obtain ⟨⟨n, p⟩, hn, h⟩ := Traced.result_bind.mp h
  obtain ⟨⟨count, p₂⟩, hcount, h⟩ := Traced.result_bind.mp h
  have hend := word_first hn
  dsimp only at h hend
  split_ifs at h with hstop
  · cases h
  obtain ⟨⟨headers, p₃⟩, hpairs, h⟩ := Traced.result_bind.mp h
  dsimp only at h
  split_ifs at h with hp
  · cases h
  push Not at hp
  have hread₁ := (word_reads 0).next _ hn
  have hread₂ := (word_reads p).next _ hcount
  have hread₃ := (pairs_reads (by omega) count p₂ _).next _ hpairs
  dsimp only at hread₁ hread₂ hread₃
  intro i hi
  rcases Traced.mem_trace_bind.mp hi with hi | ⟨r₁, hr₁, hi⟩
  · have := hread₁.2 i hi
    omega
  obtain rfl := Option.some.inj (hn.symm.trans hr₁)
  rcases Traced.mem_trace_bind.mp hi with hi | ⟨r₂, hr₂, hi⟩
  · have := hread₂.2 i hi
    omega
  obtain rfl := Option.some.inj (hcount.symm.trans hr₂)
  dsimp only at hi
  rw [if_neg hstop] at hi
  rcases Traced.mem_trace_bind.mp hi with hi | ⟨r₃, hr₃, hi⟩
  · have := hread₃.2 i hi
    omega
  obtain rfl := Option.some.inj (hpairs.symm.trans hr₃)
  dsimp only at hi
  rw [if_neg (by omega)] at hi
  cases hi

/-! ## What was encoded -/

theorem encodeEntry_eq {entry : String × String} (h : encodeEntry entry = some xs) :
    xs = field (utf8 entry.1) ++ field (utf8 entry.2) := by
  obtain ⟨k, hk, h⟩ := Option.bind_eq_some_iff.mp h
  obtain ⟨v, hv, h⟩ := Option.bind_eq_some_iff.mp h
  cases h
  rw [(u16_eq_some.mp hk).2, (u16_eq_some.mp hv).2, field, field]
  simp only [List.append_assoc]

theorem mapM_encodeEntry {entries : List (String × String)} {parts : List (List UInt8)}
    (h : entries.mapM encodeEntry = some parts) :
    parts.flatten = fields (entries.map fun e => (utf8 e.1, utf8 e.2)) := by
  induction entries generalizing parts with
  | nil =>
    cases h
    rfl
  | cons e entries ih =>
    rw [List.mapM_cons] at h
    obtain ⟨p, hp, h⟩ := Option.bind_eq_some_iff.mp h
    obtain ⟨ps, hps, h⟩ := Option.bind_eq_some_iff.mp h
    cases h
    rw [List.flatten_cons, ih hps, List.map_cons, fields_cons, encodeEntry_eq hp,
      List.append_assoc]

theorem exists_mapM_encodeEntry {entries : List (String × String)}
    (h : ∀ e ∈ entries, (utf8 e.1).length < 65536 ∧ (utf8 e.2).length < 65536) :
    ∃ parts, entries.mapM encodeEntry = some parts := by
  induction entries with
  | nil => exact ⟨[], rfl⟩
  | cons e entries ih =>
    rw [List.forall_mem_cons] at h
    obtain ⟨parts, hparts⟩ := ih h.2
    rw [List.mapM_cons, hparts, encodeEntry, u16_eq_some.mpr ⟨h.1.1, rfl⟩,
      u16_eq_some.mpr ⟨h.1.2, rfl⟩]
    exact ⟨_, rfl⟩

/-- Headers are encoded as a frame as long as their block has a length of 16 bits. -/
theorem encodeHeaders_iff {entries : List (String × String)} :
    encodeHeaders entries = some xs ↔
      (block (entries.map fun e => (utf8 e.1, utf8 e.2))).length < 65536 ∧
        xs = frame (entries.map fun e => (utf8 e.1, utf8 e.2)) := by
  have hblock : be16 entries.length ++ fields (entries.map fun e => (utf8 e.1, utf8 e.2)) =
      block (entries.map fun e => (utf8 e.1, utf8 e.2)) := by
    rw [block, List.length_map]
  constructor
  · intro h
    obtain ⟨count, hcount, h⟩ := Option.bind_eq_some_iff.mp h
    obtain ⟨parts, hparts, h⟩ := Option.bind_eq_some_iff.mp h
    obtain ⟨len, hlen, h⟩ := Option.bind_eq_some_iff.mp h
    cases h
    rw [mapM_encodeEntry hparts, (u16_eq_some.mp hcount).2, hblock] at hlen ⊢
    obtain ⟨hsmall, rfl⟩ := u16_eq_some.mp hlen
    exact ⟨hsmall, rfl⟩
  · rintro ⟨hsmall, rfl⟩
    have hlen := length_block (entries.map fun e => (utf8 e.1, utf8 e.2))
    obtain ⟨hcount, hall⟩ := length_fields_ge (entries.map fun e => (utf8 e.1, utf8 e.2))
    rw [List.length_map] at hcount
    have hshort : ∀ e ∈ entries, (utf8 e.1).length < 65536 ∧ (utf8 e.2).length < 65536 := by
      intro e he
      have := hall _ (List.mem_map_of_mem he)
      dsimp only at this
      omega
    obtain ⟨parts, hparts⟩ := exists_mapM_encodeEntry hshort
    rw [encodeHeaders, u16_eq_some.mpr ⟨by omega, rfl⟩, hparts]
    simp only [Option.bind_eq_bind, Option.bind_some, mapM_encodeEntry hparts, hblock]
    rw [u16_eq_some.mpr ⟨hsmall, rfl⟩]
    rfl

theorem isSome_decodeEntries {headers : Headers} {entries : List (List UInt8 × List UInt8)} :
    (∃ headers', decodeEntries headers entries = some headers') ↔
      ∀ e ∈ entries, IsUtf8 e.1 ∧ IsUtf8 e.2 := by
  induction entries generalizing headers with
  | nil => simp [decodeEntries]
  | cons e entries ih =>
    rw [List.forall_mem_cons, ← isSome_textDecode, ← isSome_textDecode]
    constructor
    · rintro ⟨headers', h⟩
      obtain ⟨k, hk, h⟩ := Option.bind_eq_some_iff.mp h
      obtain ⟨v, hv, h⟩ := Option.bind_eq_some_iff.mp h
      rw [hk, hv]
      exact ⟨⟨rfl, rfl⟩, ih.mp ⟨headers', h⟩⟩
    · rintro ⟨⟨hk, hv⟩, hrest⟩
      obtain ⟨k, hk⟩ := Option.isSome_iff_exists.mp hk
      obtain ⟨v, hv⟩ := Option.isSome_iff_exists.mp hv
      obtain ⟨headers', h⟩ : ∃ headers',
          decodeEntries (Function.update headers k (some v)) entries = some headers' := ih.mpr hrest
      refine ⟨headers', ?_⟩
      rw [decodeEntries, hk, hv]
      exact h

end

end Enil
