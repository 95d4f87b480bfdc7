import Enil.Format.Html

/-!
# The bubble of a message

`append_message` writes a message with its avatar, its sender, what it shows of its content,
its time and its reactions. What of a message can be read off its bubble decides where two
messages have the same one.
-/

namespace Enil.Html

/-- ENILHTMLMessage as far as a bubble shows it; a string that is missing is empty. -/
structure HtmlMessage where
  messageId : List UInt8
  senderName : List UInt8
  text : List UInt8
  textHtml : List UInt8
  mediaPath : List UInt8
  thumbPath : List UInt8
  stickerPath : List UInt8
  avatarPath : List UInt8
  /-- The array of `reactions_json`. -/
  reactions : List Json
  createdAt : Int
  contentType : Int
  isOutgoing : Bool
  isDeleted : Bool
  encryptedUnresolved : Bool
  stickerWidth : Int
  stickerHeight : Int
  thumbWidth : Int
  thumbHeight : Int

/-- What the machine makes of numbers. -/
structure Machinery where
  /-- The date and time of a message. -/
  timeText : Int → List UInt8
  /-- `(int)(n / ENIL_STICKER_SCALE_DIV + 0.5)` -/
  stickerScaled : Int → Int
  /-- A number that no `int` holds, as an `int`. -/
  other : Int
  /-- A number that no `long long` holds, as a `long long`. -/
  otherLong : Int

def esbHtml (s : List UInt8) : List UInt8 := esbHtmlCore false [] s

def divClass (name : String) : List UInt8 := ascii "<div class=\"" ++ ascii name ++ ascii "\">"

def endDiv : List UInt8 := ascii "</div>"

/-! ## Content -/

def contentPlaceholder (ct : Int) : Option String :=
  if ct = 1 then some "[Image]"
  else if ct = 2 then some "[Video]"
  else if ct = 3 then some "[Audio]"
  else if ct = 7 then some "[Sticker]"
  else if ct = 8 then some "[Location]"
  else if ct = 14 then some "[File]"
  else none

def isMediaMsg (m : HtmlMessage) : Bool :=
  m.contentType == 7 || m.thumbPath != [] || m.mediaPath != []

def isSystemMsg (m : HtmlMessage) : Bool :=
  m.contentType != 0 && !isMediaMsg m && (contentPlaceholder m.contentType).isNone &&
    !m.encryptedUnresolved && m.textHtml == [] && m.text == []

def placeholder (label : String) : List UInt8 :=
  divClass "enil-placeholder" ++ ascii label ++ endDiv

def stickerSize (o : Machinery) (width height : Int) : List UInt8 :=
  if 0 < width ∧ 0 < height then
    let w := toString (o.stickerScaled width)
    let h := toString (o.stickerScaled height)
    ascii (" width=\"" ++ w ++ "\" height=\"" ++ h ++ "\" style=\"width:" ++ w ++ "px;height:" ++
      h ++ "px\"")
  else ascii " style=\"zoom:0.769231\""

def sticker (o : Machinery) (m : HtmlMessage) : List UInt8 :=
  if m.stickerPath = [] then placeholder "[Sticker]"
  else divClass "enil-sticker" ++ ascii "<img src=\"" ++ esbHtml m.stickerPath ++
    ascii "\" class=\"enil-image enil-sticker-image\"" ++
      stickerSize o m.stickerWidth m.stickerHeight ++ ascii ">" ++ endDiv

/-- `(n + 1) / 2` -/
def halved (n : Int) : Int := (n + 1).tdiv 2

def thumb (m : HtmlMessage) : List UInt8 :=
  let w := halved m.thumbWidth
  let h := halved m.thumbHeight
  divClass "enil-media" ++
    (if m.mediaPath = [] then []
      else ascii "<a href=\"enil-media://" ++ esbHtml m.mediaPath ++ ascii "\">") ++
    ascii "<img src=\"" ++ esbHtml m.thumbPath ++ ascii "\"" ++
    (if 0 < w ∧ 0 < h then
      ascii (" width=\"" ++ toString w ++ "\" height=\"" ++ toString h ++ "\"") else []) ++
    ascii ">" ++ (if m.mediaPath = [] then [] else ascii "</a>") ++ endDiv

def content (o : Machinery) (m : HtmlMessage) : List UInt8 :=
  if m.contentType = 7 then sticker o m
  else if m.thumbPath ≠ [] then thumb m
  else if m.mediaPath ≠ [] then
    divClass "enil-placeholder" ++ ascii "<a href=\"enil-media://" ++ esbHtml m.mediaPath ++
      ascii "\">[Image]</a>" ++ endDiv
  else match contentPlaceholder m.contentType with
    | some label => placeholder label
    | none =>
      if m.encryptedUnresolved then placeholder "Encrypted Text"
      else if isSystemMsg m then placeholder "[System message]"
      else
        divClass "enil-text" ++ (if m.textHtml ≠ [] then m.textHtml else esbHtml m.text) ++ endDiv

/-! ## Reactions -/

def rxnClass (t : Int) : String :=
  if t = 2 then "rxn-nice"
  else if t = 3 then "rxn-love"
  else if t = 4 then "rxn-fun"
  else if t = 5 then "rxn-amazing"
  else if t = 6 then "rxn-sad"
  else if t = 7 then "rxn-omg"
  else ""

/-- enil_reaction_glyph as `&#x%X;` prints it. -/
def reactionGlyph (t : Int) : String :=
  if t = 2 then "&#xF087;"
  else if t = 3 then "&#xF004;"
  else if t = 4 then "&#xF59A;"
  else if t = 5 then "&#xF5C2;"
  else if t = 6 then "&#xF5B4;"
  else "&#xF579;"

/-- The predefined type of a reaction; a paid one has none. -/
def predefinedType (o : Machinery) (r : Json) : Option Int :=
  ((r.getObjectItem "predefinedReactionType").bind Json.getNumberValue).map fun q =>
    if -2 ^ 31 ≤ Json.truncate q ∧ Json.truncate q < 2 ^ 31 then Json.truncate q else o.other

/-- ENIL_REACTION_NICE to ENIL_REACTION_OMG. -/
def shownTypes : List Int := [2, 3, 4, 5, 6, 7]

def isShown (o : Machinery) (r : Json) : Bool := (predefinedType o r).any shownTypes.contains

def reactionCount (o : Machinery) (rs : List Json) (t : Int) : Nat :=
  rs.countP fun r => predefinedType o r == some t

def reactionPill (o : Machinery) (rs : List Json) (t : Int) : List UInt8 :=
  let n := reactionCount o rs t
  if n = 0 then []
  else ascii "<span class=\"rxn " ++ ascii (rxnClass t) ++
    ascii "\"><span class=\"rxn-badge\"><i class=\"fa\">" ++ ascii (reactionGlyph t) ++
    ascii "</i></span>" ++
    (if 1 < n then ascii ("<span class=\"rxn-count\">" ++ toString n ++ "</span>") else []) ++
    ascii "</span>"

def appendReactions (o : Machinery) (rs : List Json) : List UInt8 :=
  if rs.any (isShown o) then
    divClass "enil-reactions" ++ shownTypes.flatMap (reactionPill o rs) ++ endDiv
  else []

/-! ## The avatar -/

def nameHash (s : List UInt8) : UInt32 :=
  s.foldl (fun h c => (h ^^^ c.toUInt32) * 16777619) 2166136261

def avatarPalette : List String :=
  ["#e57373", "#f06292", "#ba68c8", "#7986cb", "#4fc3f7", "#4db6ac", "#81c784", "#ffb74d",
    "#a1887f", "#90a4ae"]

/-- The bytes of the character that starts with this byte. -/
def leadLength (f : UInt8) : Nat :=
  if 0xF0 ≤ f then 4 else if 0xE0 ≤ f then 3 else if 0xC0 ≤ f then 2 else 1

def appendAvatar (name avatar : List UInt8) : List UInt8 :=
  if avatar ≠ [] then
    ascii "<img class=\"enil-avatar\" src=\"" ++ esbHtml avatar ++
      ascii "\" width=\"28\" height=\"28\">"
  else
    let p := if name = [] then ascii "?" else name
    let color := avatarPalette.getD (nameHash name % 10).toNat ""
    ascii "<div class=\"enil-avatar\" style=\"background:" ++ ascii color ++ ascii "\">" ++
      esbHtml (p.take (leadLength (p.headD 0))) ++ endDiv

/-! ## The bubble -/

def isPending (m : HtmlMessage) : Bool := (ascii "local-").isPrefixOf m.messageId

/-- The icons of a message that is being sent. -/
def sendStates : List UInt8 :=
  ascii "<span class=\"enil-send-pending\"> <i class=\"fa\">&#xF017;</i></span>" ++
    ascii "<span class=\"enil-send-error\"> <i class=\"fa\">&#xF071;</i></span>"

def shownTime (o : Machinery) (createdAt : Int) : List UInt8 := esbHtml (o.timeText createdAt)

/-- The segment behind the time: the icons, the end of the time and the reactions. -/
def segmentEnd (o : Machinery) (m : HtmlMessage) : List UInt8 :=
  (if m.isOutgoing then sendStates else []) ++ endDiv ++ appendReactions o m.reactions ++ endDiv

def appendSegment (o : Machinery) (m : HtmlMessage) (showSender : Bool) : List UInt8 :=
  ascii "<div class=\"enil-seg seg-last" ++ (if isPending m then ascii " pending" else []) ++
    ((if m.isDeleted then ascii " deleted" else []) ++
    (ascii "\" id=\"msg-" ++ esbHtml m.messageId ++ ascii "\">" ++
    (if showSender ∧ m.senderName ≠ [] then
      divClass "enil-sender" ++ esbHtml m.senderName ++ endDiv else []) ++
    content o m ++ divClass "enil-time" ++ (shownTime o m.createdAt ++ segmentEnd o m)))

def isPhoto (m : HtmlMessage) : Bool :=
  m.contentType != 7 && (m.contentType == 1 || m.thumbPath != [] || m.mediaPath != [])

def appendMessage (o : Machinery) (m : HtmlMessage) : List UInt8 :=
  ascii "<div class=\"enil-message " ++
    ((if m.isOutgoing then ascii "outgoing" else ascii "incoming") ++
    (ascii " run-solo" ++ (if isPhoto m then ascii " enil-photo-message" else []) ++
      ascii "\">" ++ (if m.isOutgoing then [] else appendAvatar m.senderName m.avatarPath) ++
      ascii "<div class=\"enil-bubble" ++
      (if isPhoto m || isMediaMsg m then ascii " enil-media-bubble" else []) ++ ascii "\">" ++
      (appendSegment o m (!m.isOutgoing) ++ (endDiv ++ endDiv))))

/-! ## What a bubble tells -/

theorem htmlEntity_noTag {c : UInt8} {e : List UInt8} (h : htmlEntity false c = some e) :
    60 ∉ e := by
  simp only [htmlEntity, Bool.false_eq_true, and_false, if_false] at h
  split_ifs at h
  all_goals
    cases h
    decide

/-- No tag starts in an escaped text. -/
theorem esbHtmlCore_noTag {run : List UInt8} (hrun : 60 ∉ run) (s : List UInt8) :
    60 ∉ esbHtmlCore false run s := by
  induction s generalizing run with
  | nil => exact hrun
  | cons c s ih =>
    unfold esbHtmlCore
    cases he : htmlEntity false c with
    | some e =>
      simp only [List.mem_append, not_or]
      exact ⟨⟨hrun, htmlEntity_noTag he⟩, ih List.not_mem_nil⟩
    | none =>
      have hc : (60 : UInt8) ≠ c := by
        rintro rfl
        cases he
      apply ih
      simp only [List.mem_append, List.mem_singleton, not_or]
      exact ⟨hrun, hc⟩

theorem shownTime_noTag (o : Machinery) (createdAt : Int) : 60 ∉ shownTime o createdAt :=
  esbHtmlCore_noTag List.not_mem_nil _

/-- A text ends where a tag starts. -/
theorem append_tag_inj {a b r s : List UInt8} (ha : 60 ∉ a) (hb : 60 ∉ b)
    (h : a ++ 60 :: r = b ++ 60 :: s) : a = b ∧ r = s := by
  induction a generalizing b with
  | nil =>
    cases b with
    | nil => exact ⟨rfl, (List.cons.inj h).2⟩
    | cons c b =>
      obtain ⟨rfl, -⟩ := List.cons.inj h
      exact absurd List.mem_cons_self hb
  | cons c a ih =>
    cases b with
    | nil =>
      obtain ⟨rfl, -⟩ := List.cons.inj h
      exact absurd List.mem_cons_self ha
    | cons d b =>
      obtain ⟨rfl, htail⟩ := List.cons.inj h
      obtain ⟨rfl, hrest⟩ :=
        ih (fun hm => ha (List.mem_cons_of_mem _ hm)) (fun hm => hb (List.mem_cons_of_mem _ hm))
          htail
      exact ⟨rfl, hrest⟩

theorem appendReactions_eq_nil {o : Machinery} {rs : List Json} :
    appendReactions o rs = [] ↔ rs.any (isShown o) = false := by
  unfold appendReactions
  split
  · rename_i h
    simp [h, endDiv, ascii]
  · rename_i h
    simpa using h

/-- Without a path the size of a sticker is not shown. -/
theorem sticker_congr {o : Machinery} {m m' : HtmlMessage} (hpath : m.stickerPath = m'.stickerPath)
    (hsize : m.stickerPath ≠ [] →
      m.stickerWidth = m'.stickerWidth ∧ m.stickerHeight = m'.stickerHeight) :
    sticker o m = sticker o m' := by
  unfold sticker
  rw [← hpath]
  split
  · rfl
  · rename_i hne
    rw [(hsize hne).1, (hsize hne).2]

/-- What two messages need to have in common to have one bubble but for their deletion, time
and reactions. -/
structure SameContent (o : Machinery) (m m' : HtmlMessage) : Prop where
  messageId : m.messageId = m'.messageId
  senderName : m.senderName = m'.senderName
  avatarPath : m.isOutgoing = m'.isOutgoing → m.avatarPath = m'.avatarPath
  photo : isPhoto m = isPhoto m'
  media : isMediaMsg m = isMediaMsg m'
  content : content o m = content o m'

theorem segmentEnd_tag (o : Machinery) (m : HtmlMessage) :
    ∃ r, segmentEnd o m = 60 :: r := by
  unfold segmentEnd sendStates
  cases m.isOutgoing
  · exact ⟨_, rfl⟩
  · exact ⟨_, rfl⟩

/-- The end of a bubble, from its time on. -/
theorem bubbleEnd_inj {o : Machinery} {m m' : HtmlMessage} (hout : m.isOutgoing = m'.isOutgoing)
    (h : shownTime o m.createdAt ++ segmentEnd o m =
      shownTime o m'.createdAt ++ segmentEnd o m') :
    shownTime o m.createdAt = shownTime o m'.createdAt ∧
      appendReactions o m.reactions = appendReactions o m'.reactions := by
  obtain ⟨r, hr⟩ := segmentEnd_tag o m
  obtain ⟨s, hs⟩ := segmentEnd_tag o m'
  have hsplit := h
  rw [hr, hs] at hsplit
  obtain ⟨htime, -⟩ := append_tag_inj (shownTime_noTag o _) (shownTime_noTag o _) hsplit
  rw [htime] at h
  have hend := List.append_cancel_left h
  unfold segmentEnd at hend
  rw [hout] at hend
  exact ⟨htime, List.append_cancel_left (List.append_cancel_right hend)⟩

theorem deleted_inj {d d' : Bool} {r s : List UInt8}
    (h : (if d then ascii " deleted" else []) ++ (ascii "\" id=\"msg-" ++ r) =
      (if d' then ascii " deleted" else []) ++ (ascii "\" id=\"msg-" ++ s)) :
    d = d' ∧ r = s := by
  have hne : some (32 : UInt8) ≠ some 34 := by decide
  cases d <;> cases d'
  · exact ⟨rfl, List.append_cancel_left h⟩
  · exact absurd (congrArg List.head? h).symm hne
  · exact absurd (congrArg List.head? h) hne
  · exact ⟨rfl, List.append_cancel_left (List.append_cancel_left h)⟩

theorem appendSegment_eq_iff {o : Machinery} {m m' : HtmlMessage} (hsame : SameContent o m m')
    (hout : m.isOutgoing = m'.isOutgoing) {showSender : Bool} :
    appendSegment o m showSender = appendSegment o m' showSender ↔
      m.isDeleted = m'.isDeleted ∧ shownTime o m.createdAt = shownTime o m'.createdAt ∧
        appendReactions o m.reactions = appendReactions o m'.reactions := by
  have hpending : isPending m = isPending m' := by unfold isPending; rw [hsame.messageId]
  unfold appendSegment
  rw [hpending, hsame.messageId, hsame.senderName, hsame.content]
  constructor
  · intro h
    simp only [List.append_assoc] at h
    obtain ⟨hdel, h⟩ := deleted_inj (List.append_cancel_left (List.append_cancel_left h))
    refine ⟨hdel, bubbleEnd_inj hout ?_⟩
    iterate 5 replace h := List.append_cancel_left h
    exact h
  · rintro ⟨hdel, htime, hrs⟩
    unfold segmentEnd
    rw [hdel, htime, hout, hrs]

theorem direction_inj {d d' : Bool} {r s : List UInt8}
    (h : (if d then ascii "outgoing" else ascii "incoming") ++ r =
      (if d' then ascii "outgoing" else ascii "incoming") ++ s) : d = d' := by
  have hne : some (111 : UInt8) ≠ some 105 := by decide
  cases d <;> cases d'
  · rfl
  · exact absurd (congrArg List.head? h).symm hne
  · exact absurd (congrArg List.head? h) hne
  · rfl

/-- Messages that have their content in common have one bubble where their direction, deletion,
time and reactions are shown alike. -/
theorem appendMessage_eq_iff {o : Machinery} {m m' : HtmlMessage} (hsame : SameContent o m m') :
    appendMessage o m = appendMessage o m' ↔
      m.isOutgoing = m'.isOutgoing ∧ m.isDeleted = m'.isDeleted ∧
        shownTime o m.createdAt = shownTime o m'.createdAt ∧
          appendReactions o m.reactions = appendReactions o m'.reactions := by
  unfold appendMessage
  rw [hsame.photo, hsame.media, hsame.senderName]
  constructor
  · intro h
    have h := List.append_cancel_left h
    have hout := direction_inj h
    rw [hout, hsame.avatarPath hout] at h
    have hseg : appendSegment o m (!m'.isOutgoing) = appendSegment o m' (!m'.isOutgoing) :=
      List.append_cancel_right (List.append_cancel_left (List.append_cancel_left h))
    exact ⟨hout, (appendSegment_eq_iff hsame hout).mp hseg⟩
  · rintro ⟨hout, hrest⟩
    rw [hout, hsame.avatarPath hout, (appendSegment_eq_iff hsame hout).mpr hrest]

end Enil.Html
