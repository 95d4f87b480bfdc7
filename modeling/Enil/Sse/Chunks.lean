import Enil.Lib.Framing
import Enil.Sse.Stream
import Mathlib.Data.List.TakeWhile

/-!
# The stream in chunks

A reading of the event stream by whole lines, and that `write_cb` dispatches what it
says however the bytes are cut into chunks: the lines up to a blank one are one event,
and the first event that is too long ends the transfer.
-/

namespace Enil

open Lib

/-! ## The stream by lines -/

def isLineEnd (byte : Char) : Bool := byte == '\n'

/-- A line without the CR of CRLF. -/
def chomp (line : Bytes) : Bytes := if line.getLast? = some '\r' then line.dropLast else line

def isBlank (line : Bytes) : Bool := (chomp line).isEmpty

/-- A value without one optional space. -/
def dropSpace (val : Bytes) : Bytes := if val.head? = some ' ' then val.tail else val

/-- What follows `name` in a line that starts with it. -/
def lineValue (name : String) (line : Bytes) : Option Bytes :=
  if name.toList <+: line then some (dropSpace (line.drop name.length)) else none

/-- The lines of one event. -/
abbrev Block := List Bytes

namespace Block

/-- The values of the `event:` lines. -/
def types (b : Block) : List Bytes := b.filterMap fun line => lineValue "event:" (chomp line)

/-- The values of the `data:` lines. -/
def datas (b : Block) : List Bytes := b.filterMap fun line => lineValue "data:" (chomp line)

def type (b : Block) : Bytes := b.types.getLast?.getD []

def data (b : Block) : Bytes := ['\n'].intercalate b.datas

/-- The event of a block; one with neither a type nor data has none. -/
def event (b : Block) : Option StreamEvent :=
  if b.type = [] ∧ b.datas = [] then none
  else some {
    type := if b.type = [] then "message" else String.ofList b.type
    data := String.ofList b.data }

/-- No line, no type and no joined data is over its limit. -/
structure Fits (b : Block) : Prop where
  lines : ∀ line ∈ b, line.length ≤ sseMaxLineSize
  types : ∀ t ∈ b.types, t.length < eventTypeSize
  data : b.data.length ≤ sseMaxEventSize

instance (b : Block) : Decidable b.Fits :=
  decidable_of_iff ((∀ line ∈ b, line.length ≤ sseMaxLineSize) ∧
      (∀ t ∈ b.types, t.length < eventTypeSize) ∧ b.data.length ≤ sseMaxEventSize)
    ⟨fun ⟨h, h', h''⟩ => ⟨h, h', h''⟩, fun ⟨h, h', h''⟩ => ⟨h, h', h''⟩⟩

end Block

/-- The blocks that a blank line ends. -/
def streamBlocks (bytes : Bytes) : List Block := frames isBlank (frames isLineEnd bytes)

/-- No event of the stream, and nothing that was read of the next one, is too long. -/
structure StreamFits (bytes : Bytes) : Prop where
  blocks : ∀ b ∈ streamBlocks bytes, b.Fits
  openBlock : Block.Fits (openFrame isBlank (frames isLineEnd bytes))
  openLine : (openFrame isLineEnd bytes).length ≤ sseMaxLineSize

/-- The events of the stream before the first that is too long. -/
def acceptedEvents (bytes : Bytes) : List StreamEvent :=
  ((streamBlocks bytes).takeWhile (·.Fits)).filterMap Block.event

/-! ## Delivery -/

structure Transfer where
  client : SseClient
  events : List Dispatched := []
  answers : List Handled := []

def SseClient.isGoing (c : SseClient) : Bool := !(c.stop || c.reconnect || c.deliveryFailed)

namespace Transfer

variable (cj : Cjson)

def deliver (d : Transfer) (e : StreamEvent) : Bool × Transfer :=
  let h := d.answers.headD {}
  let (ok, c) := Receiving.handle cj d.client e h
  (c.isGoing, { client := c, events := d.events ++ [⟨e, h, ok⟩], answers := d.answers.tail })

/-- One block: what is too long is refused. -/
def deliverBlock (d : Transfer) (b : Block) : Bool × Transfer :=
  if b.Fits then
    match b.event with
    | none => (true, d)
    | some e => d.deliver cj e
  else (false, { d with client := { d.client with deliveryFailed := true, healthFailed := true } })

/-- The blocks are their events, up to the first that is too long. -/
theorem feed_deliverBlock (d : Transfer) (bs : List Block) :
    (feed (deliverBlock cj) d bs).2.events =
      (feed (deliver cj) d ((bs.takeWhile (·.Fits)).filterMap Block.event)).2.events := by
  induction bs generalizing d with
  | nil => rfl
  | cons b bs ih =>
    by_cases hfits : b.Fits
    · rw [List.takeWhile_cons_of_pos (by simpa using hfits)]
      cases he : b.event with
      | none =>
        have hb : deliverBlock cj d b = (true, d) := by rw [deliverBlock, if_pos hfits, he]
        rw [feed_cons_go (by rw [hb]), hb, List.filterMap_cons_none he]
        exact ih d
      | some e =>
        have hb : deliverBlock cj d b = d.deliver cj e := by rw [deliverBlock, if_pos hfits, he]
        rw [List.filterMap_cons_some he]
        cases hgo : (d.deliver cj e).1 with
        | true =>
          rw [feed_cons_go (hb ▸ hgo), hb, feed_cons_go hgo]
          exact ih _
        | false => rw [feed_cons_stop (hb ▸ hgo), hb, feed_cons_stop hgo]
    · have hb : (deliverBlock cj d b).1 = false := by rw [deliverBlock, if_neg hfits]
      rw [List.takeWhile_cons_of_neg (by simpa using hfits), feed_cons_stop hb, deliverBlock,
        if_neg hfits]
      rfl

/-- A failed client has an event that was not delivered. -/
def Blamed (d : Transfer) : Prop :=
  d.client.deliveryFailed = true → ∃ e ∈ d.events, e.ok = false

theorem deliver_blamed {d : Transfer} (h : d.Blamed) (e : StreamEvent) :
    (d.deliver cj e).2.Blamed := by
  have hfailed := (Receiving.handle_dispatch cj d.client e (d.answers.headD {})).2
  intro hf
  have hf : (Receiving.handle cj d.client e (d.answers.headD {})).2.deliveryFailed = true := hf
  rw [hfailed, Bool.or_eq_true] at hf
  rcases hf with hf | hf
  · obtain ⟨e', he', hok⟩ := h hf
    exact ⟨e', List.mem_append_left _ he', hok⟩
  · rw [Bool.not_eq_true'] at hf
    exact ⟨_, List.mem_append_right _ (List.mem_singleton_self _), hf⟩

/-- A client fails at an event that is not delivered, or at a block that is too long. -/
theorem feed_deliverBlock_blamed {d : Transfer} (h : d.Blamed) (bs : List Block) :
    (feed (deliverBlock cj) d bs).2.Blamed ∨ ∃ b ∈ bs, ¬ b.Fits := by
  induction bs generalizing d with
  | nil => exact .inl h
  | cons b bs ih =>
    by_cases hfits : b.Fits
    · have hb : (deliverBlock cj d b).2.Blamed := by
        rw [deliverBlock, if_pos hfits]
        split
        · exact h
        · exact deliver_blamed cj h _
      cases hgo : (deliverBlock cj d b).1 with
      | true =>
        rw [feed_cons_go hgo]
        exact (ih hb).imp_right fun ⟨x, hx, hlong⟩ => ⟨x, List.mem_cons_of_mem _ hx, hlong⟩
      | false =>
        rw [feed_cons_stop hgo]
        exact .inl hb
    · exact .inr ⟨b, List.mem_cons_self, hfits⟩

end Transfer

/-! ## Lines out of bytes -/

namespace Receiving

variable (cj : Cjson)

/-- A transfer between lines. -/
def AtLine (r : Receiving) : Prop := r.state.line = [] ∧ r.client.isGoing = true

def withLine (r : Receiving) (line : Bytes) : Receiving :=
  { r with state := { r.state with line := line } }

/-- A whole line without its LF. -/
def writeLine (r : Receiving) (line : Bytes) : Bool × Receiving :=
  if line.length ≤ sseMaxLineSize then (r.withLine line).writeByte cj '\n'
  else (false, (r.withLine (line.take sseMaxLineSize)).reject)

/-- Bytes of a line that does not end yet. -/
theorem feed_writeByte_open {r : Receiving} (hlen : r.state.line.length ≤ sseMaxLineSize)
    {bytes : Bytes} (hopen : ∀ b ∈ bytes, isLineEnd b = false) :
    feed (writeByte cj) r bytes =
      if (r.state.line ++ bytes).length ≤ sseMaxLineSize then
        (true, r.withLine (r.state.line ++ bytes))
      else (false, (r.withLine ((r.state.line ++ bytes).take sseMaxLineSize)).reject) := by
  induction bytes generalizing r with
  | nil =>
    rw [List.append_nil, if_pos hlen]
    rfl
  | cons byte bytes ih =>
    rw [List.forall_mem_cons] at hopen
    have hne : byte ≠ '\n' := by simpa [isLineEnd] using hopen.1
    have hwrite : r.writeByte cj byte = if r.state.line.length < sseMaxLineSize then
        (true, r.withLine (r.state.line ++ [byte])) else (false, r.reject) := by
      unfold writeByte appendSse
      rw [if_neg hne, List.length_singleton]
      by_cases hlt : r.state.line.length < sseMaxLineSize
      · rw [if_neg (by omega), if_pos hlt]
        rfl
      · rw [if_pos (by omega), if_neg hlt]
    by_cases hlt : r.state.line.length < sseMaxLineSize
    · rw [if_pos hlt] at hwrite
      have hlen' : (r.withLine (r.state.line ++ [byte])).state.line.length ≤ sseMaxLineSize := by
        rw [withLine, List.length_append, List.length_singleton]
        omega
      rw [feed_cons_go (by rw [hwrite]), hwrite, ih hlen' hopen.2,
        List.append_cons r.state.line byte bytes]
      rfl
    · rw [if_neg hlt] at hwrite
      have hfull : r.state.line.length = sseMaxLineSize := by omega
      rw [feed_cons_stop (by rw [hwrite]), hwrite, if_neg (by simp; omega),
        List.take_append_of_le_length hfull.ge, List.take_of_length_le hlen]
      rfl

theorem feed_writeByte_line {r : Receiving} (h : r.AtLine) {line : Bytes}
    (hopen : ∀ b ∈ line, isLineEnd b = false) :
    feed (writeByte cj) r (line ++ ['\n']) = r.writeLine cj line ∧
      ((r.writeLine cj line).1 = true → (r.writeLine cj line).2.AtLine) := by
  obtain ⟨hline, -⟩ := h
  have hfeed := feed_writeByte_open cj (r := r) (by simp [hline]) hopen
  rw [hline, List.nil_append] at hfeed
  unfold writeLine
  split
  · rename_i hlen
    rw [if_pos hlen] at hfeed
    rw [feed_append_go (by rw [hfeed]), hfeed, feed_singleton]
    exact ⟨rfl, fun hgo => ⟨rfl, hgo⟩⟩
  · rename_i hlen
    rw [if_neg hlen] at hfeed
    rw [feed_append_stop (by rw [hfeed]), hfeed]
    exact ⟨rfl, fun hgo => by cases hgo⟩

end Receiving

/-! ## Blocks out of lines -/

theorem fieldValue_eq {line : Bytes} (hnul : '\x00' ∉ line) (name : String) :
    Receiving.fieldValue line name = lineValue name line := by
  have hcstr : cstr (line.drop name.length) = line.drop name.length := by
    refine List.takeWhile_eq_self_iff.mpr fun b hb => ?_
    have hne : b ≠ '\x00' := fun h => hnul (h ▸ List.mem_of_mem_drop hb)
    simpa using hne
  unfold Receiving.fieldValue lineValue dropSpace
  rw [hcstr]
  simp only [List.isPrefixOf_iff_prefix]

/-- A line is a field of one name at most. -/
theorem lineValue_data_of_event {line val : Bytes} (h : lineValue "event:" line = some val) :
    lineValue "data:" line = none := by
  unfold lineValue at h ⊢
  split at h
  · rename_i hevent
    rw [if_neg]
    rintro ⟨rest, rfl⟩
    obtain ⟨rest', hrest⟩ := hevent
    cases hrest
  · cases h

namespace Block

variable {b b' : Block} {line : Bytes}

theorem intercalate_concat {α : Type} (sep : List α) (x : List α) :
    ∀ {xs : List (List α)}, xs ≠ [] →
      sep.intercalate (xs ++ [x]) = sep.intercalate xs ++ (sep ++ x) := by
  intro xs hne
  induction xs with
  | nil => exact absurd rfl hne
  | cons y ys ih =>
    by_cases hys : ys = []
    · subst hys
      simp [List.intercalate_cons_cons]
    · rw [List.cons_append, List.intercalate_cons_of_ne_nil (by simp), ih hys,
        List.intercalate_cons_of_ne_nil hys]
      simp

/-- A block with one more line. -/
theorem datas_concat : datas (b ++ [line]) = b.datas ++ (lineValue "data:" (chomp line)).toList := by
  unfold datas
  rw [List.filterMap_append]
  cases h : lineValue "data:" (chomp line) <;> simp [h]

theorem types_concat :
    types (b ++ [line]) = b.types ++ (lineValue "event:" (chomp line)).toList := by
  unfold types
  rw [List.filterMap_append]
  cases h : lineValue "event:" (chomp line) <;> simp [h]

theorem data_concat_none (h : lineValue "data:" (chomp line) = none) :
    data (b ++ [line]) = b.data := by
  rw [data, datas_concat, h, Option.toList_none, List.append_nil, data]

theorem data_concat_some {val : Bytes} (h : lineValue "data:" (chomp line) = some val) :
    data (b ++ [line]) = if b.datas = [] then val else b.data ++ '\n' :: val := by
  rw [data, datas_concat, h, Option.toList_some]
  split
  · rename_i hnil
    rw [hnil, List.nil_append, List.intercalate_singleton]
  · rename_i hne
    rw [intercalate_concat _ _ hne]
    rfl

theorem length_data_concat : b.data.length ≤ (data (b ++ [line])).length := by
  cases h : lineValue "data:" (chomp line) with
  | none => rw [data_concat_none h]
  | some val =>
    rw [data_concat_some h]
    split
    · rename_i hnil
      rw [data, hnil]
      exact Nat.zero_le _
    · rw [List.length_append]
      omega

/-- What one more line may not exceed. -/
theorem fits_concat : Fits (b ++ [line]) ↔ b.Fits ∧ line.length ≤ sseMaxLineSize ∧
    (∀ t ∈ lineValue "event:" (chomp line), t.length < eventTypeSize) ∧
    (data (b ++ [line])).length ≤ sseMaxEventSize := by
  constructor
  · rintro ⟨hlines, htypes, hdata⟩
    rw [types_concat] at htypes
    simp only [List.forall_mem_append, List.forall_mem_singleton] at hlines
    simp only [List.forall_mem_append, Option.mem_toList] at htypes
    exact ⟨⟨hlines.1, htypes.1, length_data_concat.trans hdata⟩, hlines.2, htypes.2, hdata⟩
  · rintro ⟨⟨hlines, htypes, -⟩, hline, htype, hdata⟩
    refine ⟨?_, ?_, hdata⟩
    · simp only [List.forall_mem_append, List.forall_mem_singleton]
      exact ⟨hlines, hline⟩
    · rw [types_concat]
      simp only [List.forall_mem_append, Option.mem_toList]
      exact ⟨htypes, htype⟩

theorem Fits.of_append {rest : Block} (h : Fits (b ++ rest)) : b.Fits := by
  induction rest generalizing b with
  | nil => rwa [List.append_nil] at h
  | cons line rest ih =>
    rw [List.append_cons] at h
    exact (fits_concat.mp (ih h)).1

theorem fits_nil : Fits [] := ⟨by simp, by simp [types], by simp [data, datas]⟩

/-- What was parsed of a block. -/
def state (b : Block) : SseState where
  line := []
  eventType := b.type
  data := b.data
  hasData := !b.datas.isEmpty

/-- The two calls of `append_sse` for a value. -/
theorem append_data (hb : b.Fits) {val : Bytes} (h : lineValue "data:" (chomp line) = some val) :
    ((if b.state.hasData then Receiving.appendSse b.data ['\n'] sseMaxEventSize else some b.data).bind
        fun buf => Receiving.appendSse buf val sseMaxEventSize) =
      if (data (b ++ [line])).length ≤ sseMaxEventSize then some (data (b ++ [line])) else none := by
  have hlen := hb.data
  rw [data_concat_some h]
  unfold Receiving.appendSse state
  by_cases hnil : b.datas = []
  · have hempty : b.data = [] := by
      rw [data, hnil]
      rfl
    rw [if_pos hnil, hnil, hempty]
    simp only [List.isEmpty_nil, Bool.not_true, Bool.false_eq_true, if_false, Option.bind_some,
      List.length_nil, List.nil_append]
    by_cases hfits : val.length ≤ sseMaxEventSize
    · rw [if_neg (by omega), if_pos hfits]
    · rw [if_pos (by omega), if_neg hfits]
  · rw [if_neg hnil]
    have hsome : b.datas.isEmpty = false := by simpa using hnil
    simp only [hsome, Bool.not_false, if_true, List.length_append, List.length_cons,
      List.length_nil]
    by_cases hnl : b.data.length < sseMaxEventSize
    · rw [if_neg (by omega), Option.bind_some, List.append_assoc, List.length_append]
      by_cases hfits : b.data.length + (val.length + 1) ≤ sseMaxEventSize
      · rw [if_neg (by simp; omega), if_pos hfits]
        rfl
      · rw [if_pos (by simp; omega), if_neg hfits]
    · rw [if_pos (by omega), if_neg (by omega)]
      rfl

end Block

namespace Receiving

variable (cj : Cjson)

theorem processLine_field {r : Receiving} {b : Block} {line : Bytes} (hb : b.Fits)
    (hstate : r.state = { b.state with line := chomp line }) (hblank : isBlank line = false)
    (hnul : '\x00' ∉ chomp line) (hlen : line.length ≤ sseMaxLineSize) :
    r.processLine cj =
      if Block.Fits (b ++ [line]) then
        { r with state := { Block.state (b ++ [line]) with line := chomp line } }
      else r.reject := by
  have hne : chomp line ≠ [] := by simpa [isBlank] using hblank
  unfold processLine
  simp only [hstate]
  rw [if_neg hne, fieldValue_eq hnul, fieldValue_eq hnul]
  cases hevent : lineValue "event:" (chomp line) with
  | some val =>
    have hdata := lineValue_data_of_event hevent
    have hfits : Block.Fits (b ++ [line]) ↔ val.length < eventTypeSize := by
      rw [Block.fits_concat, hevent, Block.data_concat_none hdata]
      simp [hb, hlen, hb.data]
    dsimp only
    by_cases hval : val.length < eventTypeSize
    · rw [if_neg (by omega), if_pos (hfits.mpr hval)]
      simp only [Block.state, Block.type, Block.types_concat, Block.datas_concat, hevent, hdata,
        Block.data_concat_none hdata]
      simp
    · rw [if_pos (by omega), if_neg (fun h => hval (hfits.mp h))]
  | none =>
    dsimp only
    cases hdata : lineValue "data:" (chomp line) with
    | some val =>
      have hfits : Block.Fits (b ++ [line]) ↔
          (Block.data (b ++ [line])).length ≤ sseMaxEventSize := by
        rw [Block.fits_concat, hevent]
        simp [hb, hlen]
      have happend := Block.append_data hb hdata
      dsimp only
      by_cases hval : (Block.data (b ++ [line])).length ≤ sseMaxEventSize
      · rw [if_pos hval] at happend
        rw [if_pos (hfits.mpr hval)]
        split
        · rename_i buf hbuf
          obtain rfl := Option.some.inj (happend.symm.trans hbuf)
          simp only [Block.state, Block.type, Block.types_concat, Block.datas_concat, hevent, hdata]
          simp
        · rename_i hbuf
          cases happend.symm.trans hbuf
      · rw [if_neg hval] at happend
        rw [if_neg (fun h => hval (hfits.mp h))]
        split
        · rename_i hbuf
          cases happend.symm.trans hbuf
        · rfl
    | none =>
      have hfits : Block.Fits (b ++ [line]) := by
        rw [Block.fits_concat, hevent, Block.data_concat_none hdata]
        simp [hb, hlen, hb.data]
      have hsame : Block.state (b ++ [line]) = b.state := by
        simp [Block.state, Block.type, Block.types_concat, Block.datas_concat, hevent, hdata,
          Block.data_concat_none hdata]
      rw [if_pos hfits, hsame, ← hstate]

theorem endLine_withLine (r : Receiving) (line : Bytes) :
    (r.withLine line).endLine cj = ((r.withLine (chomp line)).processLine cj).withLine [] := rfl

/-- What a line or block that is too long leaves of the transfer. -/
def Refused (r r' : Receiving) : Prop :=
  r'.client = { r.client with deliveryFailed := true, healthFailed := true } ∧
    r'.events = r.events

/-- One line of a block. -/
theorem writeLine_field {r : Receiving} {b : Block} {line : Bytes} (hb : b.Fits)
    (hstate : r.state = b.state) (hgo : r.client.isGoing = true) (hblank : isBlank line = false)
    (hnul : '\x00' ∉ line) :
    if Block.Fits (b ++ [line]) then
      r.writeLine cj line = (true, { r with state := Block.state (b ++ [line]) })
    else (r.writeLine cj line).1 = false ∧ r.Refused (r.writeLine cj line).2 := by
  unfold writeLine
  by_cases hlen : line.length ≤ sseMaxLineSize
  · rw [if_pos hlen]
    have hnul' : '\x00' ∉ chomp line := by
      unfold chomp
      split
      · exact fun h => hnul (List.dropLast_subset _ h)
      · exact hnul
    have hline := processLine_field cj (r := r.withLine (chomp line)) hb
      (by rw [withLine, hstate]) hblank hnul' hlen
    unfold writeByte
    rw [if_pos rfl, endLine_withLine, hline]
    split
    · refine Prod.ext ?_ rfl
      exact hgo
    · exact ⟨by simp [reject, withLine], rfl, rfl⟩
  · rw [if_neg hlen, if_neg fun h => hlen (Block.fits_concat.mp h).2.1]
    exact ⟨rfl, rfl, rfl⟩

/-- The lines of a block so far. -/
theorem feed_writeLine_open {r : Receiving} {b : Block} (hb : b.Fits) (hstate : r.state = b.state)
    (hgo : r.client.isGoing = true) {lines : List Bytes} (hopen : ∀ l ∈ lines, isBlank l = false)
    (hnul : ∀ l ∈ lines, '\x00' ∉ l) :
    if Block.Fits (b ++ lines) then
      feed (writeLine cj) r lines = (true, { r with state := Block.state (b ++ lines) })
    else (feed (writeLine cj) r lines).1 = false ∧ r.Refused (feed (writeLine cj) r lines).2 := by
  induction lines generalizing r b with
  | nil =>
    rw [List.append_nil, if_pos hb, ← hstate]
    rfl
  | cons line lines ih =>
    rw [List.forall_mem_cons] at hopen hnul
    have hline := writeLine_field cj hb hstate hgo hopen.1 hnul.1
    rw [List.append_cons]
    by_cases hfits : Block.Fits (b ++ [line])
    · rw [if_pos hfits] at hline
      rw [feed_cons_go (by rw [hline]), hline]
      exact ih (r := { r with state := Block.state (b ++ [line]) }) hfits rfl hgo hopen.2 hnul.2
    · rw [if_neg hfits] at hline
      rw [if_neg fun h => hfits (Block.Fits.of_append h), feed_cons_stop hline.1]
      exact ⟨rfl, hline.2⟩

/-- The transfer with nothing read of the next event. -/
def ofTransfer (d : Transfer) : Receiving where
  state := {}
  client := d.client
  events := d.events
  answers := d.answers

theorem accepts_of_going {c : SseClient} {e : StreamEvent} {h : Handled}
    (hgo : (handle cj c e h).2.isGoing = true) : (c.raise h).accepts h = true := by
  unfold handle at hgo
  by_cases haccepts : (c.raise h).accepts h = true
  · exact haccepts
  · rw [if_neg haccepts] at hgo
    simp [SseClient.isGoing] at hgo

/-- A blank line dispatches the event of its block. -/
theorem writeLine_blank {d : Transfer} (hgo : d.client.isGoing = true) {b : Block} (hb : b.Fits)
    {line : Bytes} (hblank : isBlank line = true) :
    let r := writeLine cj { ofTransfer d with state := b.state } line
    let q := d.deliverBlock cj b
    r.1 = q.1 ∧ if q.1 then r.2 = ofTransfer q.2 ∧ q.2.client.isGoing = true
      else r.2.client = q.2.client ∧ r.2.events = q.2.events := by
  have hchomp : chomp line = [] := by simpa [isBlank] using hblank
  have hlen : line.length ≤ sseMaxLineSize := by
    unfold chomp at hchomp
    split at hchomp
    · have hle : line.length - 1 = 0 := by rw [← List.length_dropLast, hchomp]; rfl
      have hmax : 1 ≤ sseMaxLineSize := by decide
      omega
    · rw [hchomp]
      exact Nat.zero_le _
  have hend : (withLine { ofTransfer d with state := b.state } line).endLine cj =
      (dispatchEvent cj { ofTransfer d with state := b.state }).withLine [] := by
    rw [endLine_withLine, hchomp, processLine]
    rfl
  have hdata : b.state.hasData = false ↔ b.datas = [] := by simp [Block.state]
  unfold writeLine writeByte
  rw [if_pos hlen, if_pos rfl, hend, Transfer.deliverBlock, if_pos hb]
  unfold dispatchEvent Block.event
  by_cases hevent : b.type = [] ∧ b.datas = []
  · have hempty : b.data = [] := by
      rw [Block.data, hevent.2]
      rfl
    rw [if_pos hevent, if_pos ⟨hevent.1, by simp [Block.state, hevent.2]⟩]
    refine ⟨hgo, ?_, hgo⟩
    simp [withLine, ofTransfer, Block.state, hevent.1, hevent.2, hempty]
  · rw [if_neg hevent, if_neg fun h => hevent ⟨h.1, hdata.mp (by simpa using h.2)⟩]
    have hsame : event b.state = {
        type := if b.type = [] then "message" else String.ofList b.type
        data := String.ofList b.data } := rfl
    simp only [hsame, Transfer.deliver, ofTransfer]
    generalize StreamEvent.mk (if b.type = [] then "message" else String.ofList b.type)
      (String.ofList b.data) = e
    refine ⟨rfl, ?_⟩
    cases hgoing : (handle cj d.client e (d.answers.headD {})).2.isGoing with
    | true =>
      simp only [accepts_of_going cj hgoing, if_true]
      exact ⟨rfl, trivial⟩
    | false => exact ⟨rfl, rfl⟩

/-- The lines of a whole block. -/
theorem feed_writeLine_block {d : Transfer} (hgo : d.client.isGoing = true) {b : Block}
    {line : Bytes} (hnul : ∀ l ∈ b, '\x00' ∉ l) (hopen : ∀ l ∈ b, isBlank l = false)
    (hblank : isBlank line = true) :
    let r := feed (writeLine cj) (ofTransfer d) (b ++ [line])
    let q := d.deliverBlock cj b
    r.1 = q.1 ∧ if q.1 then r.2 = ofTransfer q.2 ∧ q.2.client.isGoing = true
      else r.2.client = q.2.client ∧ r.2.events = q.2.events := by
  have hb := feed_writeLine_open cj Block.fits_nil (r := ofTransfer d) rfl hgo hopen hnul
  rw [List.nil_append] at hb
  by_cases hfits : b.Fits
  · rw [if_pos hfits] at hb
    rw [feed_append_go (by rw [hb]), hb, feed_singleton]
    exact writeLine_blank cj hgo hfits hblank
  · rw [if_neg hfits] at hb
    obtain ⟨hstop, hclient, hevents⟩ := hb
    rw [feed_append_stop hstop, Transfer.deliverBlock, if_neg hfits]
    exact ⟨rfl, hclient, hevents⟩

end Receiving

/-! ## Bytes in chunks -/

namespace Receiving

variable (cj : Cjson)

theorem writeByte_going {r : Receiving} (hgo : r.client.isGoing = true) (byte : Char)
    (h : (r.writeByte cj byte).1 = true) : (r.writeByte cj byte).2.client.isGoing = true := by
  unfold writeByte at h ⊢
  split at h
  · rename_i hend
    rw [if_pos hend]
    exact h
  · rename_i hend
    rw [if_neg hend]
    split at h
    · exact hgo
    · cases h

theorem writeCb_eq_feed {r : Receiving} (hgo : r.client.isGoing = true) (bytes : Bytes) :
    r.writeCb cj bytes = feed (writeByte cj) r bytes := by
  induction bytes generalizing r with
  | nil =>
    have hgo' : r.client.stop = false ∧ r.client.reconnect = false := by
      simp only [SseClient.isGoing, Bool.not_eq_true', Bool.or_eq_false_iff] at hgo
      exact hgo.1
    rw [writeCb, hgo'.1, hgo'.2]
    rfl
  | cons byte bytes ih =>
    rw [writeCb, feed]
    rcases hb : r.writeByte cj byte with ⟨_ | _, r'⟩
    · rfl
    · have hgo' := writeByte_going cj hgo byte (by rw [hb])
      rw [hb] at hgo'
      exact ih hgo'

theorem feed_writeCb {r : Receiving} (hgo : r.client.isGoing = true) (chunks : List Bytes) :
    feed (writeCb cj) r chunks = r.writeCb cj chunks.flatten := by
  rw [writeCb_eq_feed cj hgo, ← feed_flatten]
  refine feed_congr (I := fun r => r.client.isGoing = true)
    (fun r bytes h => writeCb_eq_feed cj h bytes) (fun r bytes h hb => ?_) hgo chunks
  rw [writeCb_eq_feed cj h] at hb ⊢
  exact feed_invariant (I := fun r => r.client.isGoing = true)
    (fun r byte h => writeByte_going cj h byte) h bytes hb

/-- The bytes are their lines; a line that does not end changes nothing unless it is too long. -/
theorem feed_writeByte_lines {r : Receiving} (h : r.AtLine) (bytes : Bytes) :
    let r' := (feed (writeByte cj) r bytes).2
    let q := (feed (writeLine cj) r (frames isLineEnd bytes)).2
    r'.events = q.events ∧
      (r'.client = q.client ∨ ¬ (openFrame isLineEnd bytes).length ≤ sseMaxLineSize) := by
  have hframes := feed_frames (writeByte cj) (writeLine cj) isLineEnd
    (R := fun s t => s = t ∧ s.AtLine) (Q := Eq) (V := fun _ => True)
    (fun s t xs sep hst _ hopen hsep => by
      obtain ⟨rfl, hs⟩ := hst
      obtain rfl : sep = '\n' := by simpa [isLineEnd] using hsep
      obtain ⟨heq, hgo⟩ := feed_writeByte_line cj hs hopen
      rw [heq]
      refine ⟨rfl, ?_⟩
      split
      · exact ⟨rfl, hgo ‹_›⟩
      · rfl) ⟨rfl, h⟩ bytes (fun _ _ => trivial)
  dsimp only at hframes ⊢
  split at hframes
  · obtain ⟨s, ⟨hs, hline, -⟩, heq⟩ := hframes
    have hopen := feed_writeByte_open cj (r := s) (by simp [hline])
      (mem_openFrame isLineEnd bytes)
    rw [hline, List.nil_append] at hopen
    rw [heq, hopen, ← hs]
    split
    · exact ⟨rfl, .inl rfl⟩
    · rename_i hlong
      exact ⟨rfl, .inr hlong⟩
  · rw [hframes.2]
    exact ⟨rfl, .inl rfl⟩

/-- The lines are their blocks; the lines of a block that does not end change nothing unless
it is too long. -/
theorem feed_writeLine_blocks {d : Transfer} (hgo : d.client.isGoing = true) {lines : List Bytes}
    (hnul : ∀ l ∈ lines, '\x00' ∉ l) :
    let r := (feed (writeLine cj) (ofTransfer d) lines).2
    let q := (feed (Transfer.deliverBlock cj) d (frames isBlank lines)).2
    r.events = q.events ∧
      (r.client = q.client ∨ ¬ Block.Fits (openFrame isBlank lines)) := by
  have hframes := feed_frames (writeLine cj) (Transfer.deliverBlock cj) isBlank
    (R := fun r d => r = ofTransfer d ∧ d.client.isGoing = true)
    (Q := fun r d => r.client = d.client ∧ r.events = d.events) (V := fun l => '\x00' ∉ l)
    (fun r d b line hrd hnul hopen hblank => by
      obtain ⟨rfl, hgo⟩ := hrd
      exact feed_writeLine_block cj hgo hnul hopen hblank) ⟨rfl, hgo⟩ lines hnul
  dsimp only at hframes ⊢
  split at hframes
  · obtain ⟨s, ⟨rfl, hgoing⟩, heq⟩ := hframes
    have hopen := feed_writeLine_open cj Block.fits_nil (r := ofTransfer _) rfl hgoing
      (mem_openFrame isBlank lines)
      (fun l hl => hnul l (mem_of_mem_openFrame hl))
    rw [List.nil_append] at hopen
    rw [heq]
    split at hopen
    · rw [hopen]
      exact ⟨rfl, .inl rfl⟩
    · rename_i hlong
      exact ⟨hopen.2.2, .inr hlong⟩
  · exact ⟨hframes.2.2, .inl hframes.2.1⟩

end Receiving

/-- However the bytes are cut into chunks, the transfer is the same, and what it dispatches
are the events of the stream read by lines, up to the first that is not delivered or is
too long. It fails only there. -/
theorem stream_chunks (cj : Cjson) {c : SseClient} (hgo : c.isGoing = true)
    (answers : List Handled) {chunks : List Bytes} (hnul : '\x00' ∉ chunks.flatten) :
    let start : Receiving := { state := {}, client := c, answers := answers }
    let r := (feed (Receiving.writeCb cj) start chunks).2
    r = (start.writeCb cj chunks.flatten).2 ∧
    r.events = (feed (Transfer.deliver cj) { client := c, answers := answers }
      (acceptedEvents chunks.flatten)).2.events ∧
    (StreamFits chunks.flatten →
      acceptedEvents chunks.flatten = (streamBlocks chunks.flatten).filterMap Block.event) ∧
    (r.client.deliveryFailed = true →
      (∃ e ∈ r.events, e.ok = false) ∨ ¬ StreamFits chunks.flatten) := by
  intro start r
  have hchunks : r = (feed (Receiving.writeByte cj) start chunks.flatten).2 := by
    rw [← Receiving.writeCb_eq_feed cj hgo, ← Receiving.feed_writeCb cj hgo]
  have hlinenul : ∀ l ∈ frames isLineEnd chunks.flatten, '\x00' ∉ l :=
    fun l hl hmem => hnul (mem_of_mem_frames hl hmem)
  obtain ⟨hevents, hclient⟩ := Receiving.feed_writeByte_lines cj (r := start) ⟨rfl, hgo⟩
    chunks.flatten
  obtain ⟨hevents', hclient'⟩ := Receiving.feed_writeLine_blocks cj
    (d := { client := c, answers := answers }) hgo hlinenul
  rw [← hchunks] at hevents hclient
  refine ⟨by rw [hchunks, Receiving.writeCb_eq_feed cj hgo], ?_, ?_, ?_⟩
  · rw [hevents]
    exact hevents'.trans (Transfer.feed_deliverBlock cj _ _)
  · intro hfits
    rw [acceptedEvents, List.takeWhile_eq_self_iff.mpr]
    exact fun b hb => decide_eq_true (hfits.blocks b hb)
  · intro hfailed
    rcases hclient with hclient | hlong
    · rcases hclient' with hclient' | hlong
      · have hblamed := Transfer.feed_deliverBlock_blamed cj
          (d := { client := c, answers := answers }) (fun h => by
            simp only [SseClient.isGoing, Bool.not_eq_true', Bool.or_eq_false_iff] at hgo
            rw [hgo.2] at h
            cases h) (streamBlocks chunks.flatten)
        rcases hblamed with hblamed | ⟨b, hb, hlong⟩
        · left
          rw [hevents]
          refine hevents' ▸ hblamed ?_
          rw [hclient] at hfailed
          exact hclient' ▸ hfailed
        · exact .inr fun h => hlong (h.blocks b hb)
      · exact .inr fun h => hlong h.openBlock
    · exact .inr fun h => hlong h.openLine

/-- A reply in two `data:` lines, with the CRLF and a field name cut in two. -/
def cutStream : List Bytes :=
  ["event: ping\r", "\nda", "ta: a\ndata:\n", "\n: end"].map String.toList

def noJson : Cjson := ⟨fun _ => none, fun _ => ""⟩

theorem stream_chunks_cut :
    (feed (Receiving.writeCb noJson) { state := {}, client := { localRev := 0, storedRev := 0 } }
      cutStream).2.events = [⟨⟨"ping", "a\n"⟩, {}, true⟩] := by
  have hnul : '\x00' ∉ cutStream.flatten := by decide
  have haccepted : acceptedEvents cutStream.flatten = [⟨"ping", "a\n"⟩] := by decide
  rw [(stream_chunks noJson rfl _ hnul).2.1, haccepted]
  rfl

end Enil
