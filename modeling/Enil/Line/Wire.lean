import Enil.Db.Schema
import Enil.Json.B64

/-!
# The sendMessage body

The outgoing messages that text, sticon and encrypted image sends build, and
`build_wire_body` on them. An encrypted send drops the text and the REPLACE item
of the metadata; every other item a builder adds reaches the server. The last
part says for which messages the body hides what the ciphertext carries.
-/

namespace Enil

inductive MidKind where
  | user
  | group
  | room
  | square
  | unknown
  deriving DecidableEq, Repr

def midKind (mid : String) : MidKind :=
  match mid.toList.head?.map Char.toLower with
  | some 'u' => .user
  | some 'c' => .group
  | some 'r' => .room
  | some 's' => .square
  | _ => .unknown

def midIsOneToOne (mid : String) : Bool := midKind mid == .user

def midToType (mid : String) : Int := if midIsOneToOne mid then 0 else 2

/-! ## The message -/

/-- build_local_outgoing at `time` seconds. -/
def buildLocalOutgoing (fromMid toMid : String) (reqSeq time : Int) : TalkMessage where
  id := "local-" ++ toString reqSeq
  fromMid := some fromMid
  toMid := some toMid
  toType := midToType toMid
  createdTime := time * 1000
  contentType := 0
  hasContent := false
  raw := .null

/-- talk_send_message_body_build, before it is printed. -/
def talkSendMessageItem (reqSeq : Int) (m : TalkMessage) : Json :=
  let string (key : String) (s : Option String) := (s.map fun s => (key, Json.str s)).toList
  let nonzero (key : String) (n : Int) := if n = 0 then [] else [(key, Json.num n)]
  .arr [.num (Json.toDouble reqSeq), .obj (
    string "from" m.fromMid ++
    string "to" m.toMid ++
    [("toType", .num m.toType), ("id", .str m.id), ("createdTime", .str (toString m.createdTime)),
      ("sessionId", .num m.sessionId), ("contentType", .num m.contentType)] ++
    string "text" m.text ++
    [("contentMetadata", m.contentMetadata.getD (.obj []))] ++
    (m.chunks.map fun c => ("chunks", c)).toList ++
    [("hasContent", .bool m.hasContent)] ++
    string "relatedMessageId" m.relatedMessageId ++
    nonzero "messageRelationType" m.messageRelationType ++
    nonzero "relatedMessageServiceCode" m.relatedMessageServiceCode)]

def talkSendMessageBodyBuild (cj : Cjson) (reqSeq : Int) (m : TalkMessage) : String :=
  cj.print (talkSendMessageItem reqSeq m)

/-- The metadata without its REPLACE item. -/
def stripReplace : Json → Json
  | .obj fs => .obj (Json.deleteItem "REPLACE" fs)
  | j => j

theorem stripReplace_obj (fs : List (String × Json)) :
    stripReplace (.obj fs) = .obj (Json.deleteItem "REPLACE" fs) := rfl

/-- The message `build_wire_body` serialises. -/
def wireMessage (m : TalkMessage) (e2ee : Bool) : TalkMessage :=
  if e2ee then
    { m with text := none, contentMetadata := m.contentMetadata.map stripReplace }
  else { m with chunks := none, contentMetadata := none }

def buildWireBody (cj : Cjson) (reqSeq : Int) (m : TalkMessage) (e2ee : Bool) : String :=
  talkSendMessageBodyBuild cj reqSeq (wireMessage m e2ee)

/-- The chunks of `split_v2_ciphertext`. -/
abbrev Chunks := Vector String 5

def attachChunksToLocal (m : TalkMessage) (chunks : Chunks) : TalkMessage :=
  { m with chunks := some (.arr (chunks.toList.map .str)) }

/-! ## What the sends put into it -/

/-- ENILLineSticonResource; an absent version or type is the empty string. -/
structure SticonResource where
  packageId : String
  sticonId : String
  startOffset : Int
  endOffset : Int
  version : String := ""
  resourceType : String := ""
  deriving DecidableEq, Repr

def buildReplaceSticonObj (resources : List SticonResource) : Json :=
  .obj [("sticon", .obj [("resources", .arr (resources.map fun r => .obj [
    ("S", .num r.startOffset),
    ("E", .num r.endOffset),
    ("productId", .str r.packageId),
    ("sticonId", .str r.sticonId),
    ("version", if r.version = "" then .str "" else .num (Json.toDouble (Json.strtoll r.version))),
    ("resourceType", .str (if r.resourceType = "" then "STATIC" else r.resourceType))]))])]

/-- The packages of the resources, each at its first use. -/
def sticonPackages (resources : List SticonResource) : List String :=
  (resources.map SticonResource.packageId).eraseDups

def buildSticonOwnership (cj : Cjson) (packages : List String) : String :=
  cj.print (.arr (packages.map .str))

/-- ENIL_CRYPTO_FILE_KM_LEN random bytes. -/
structure KeyMaterial where
  bytes : List UInt8
  length_eq : bytes.length = 32
  deriving DecidableEq

theorem b64Encode_inj {a b : List UInt8} : b64Encode a = b64Encode b ↔ a = b := by
  constructor
  · intro h
    exact Lib.Base64.encode_inj (String.ofList_injective h)
  · intro h
    rw [h]

structure ImageInfo where
  fileName : String
  oid : String
  encLen : Nat
  /-- The size of the thumbnail, when there is one. -/
  thumbSize : Option (Int × Int)
  deriving DecidableEq, Repr

def buildE2eeImageMetadata (info : ImageInfo) (encKm : String) : Json :=
  .obj ([("OID", .str info.oid), ("SID", .str "emi"), ("ENC_KM", .str encKm),
    ("FILE_NAME", .str info.fileName), ("contentType", .str "1"), ("e2eeVersion", .str "2"),
    ("FILE_SIZE", .str (toString info.encLen)),
    ("MEDIA_CONTENT_INFO", .str ("\x7b\"category\":\"original\",\"fileSize\":" ++
      toString info.encLen ++ ",\"extension\":\"jpg\"\x7d"))] ++
    (info.thumbSize.map fun s => ("MEDIA_THUMB_INFO", .str ("\x7b\"width\":" ++ toString s.1 ++
      ",\"height\":" ++ toString s.2 ++ "\x7d"))).toList)

/-- The content of an encrypted send: of `enil_line_send_text`,
`enil_line_send_inline_sticon` and `enil_line_send_image_e2ee`. -/
inductive Content where
  | text (text : String)
  | sticon (text : String) (resources : List SticonResource) (nonempty : resources ≠ [])
  | image (info : ImageInfo) (km : KeyMaterial)

/-- The local message of a send with the content filled in. -/
def Content.fill (cj : Cjson) (m : TalkMessage) : Content → TalkMessage
  | .text t =>
    { m with text := some t, contentMetadata := some (.obj [("e2eeVersion", .str "2")]) }
  | .sticon t resources _ =>
    { m with
      text := some t
      contentMetadata := some (.obj [
        ("e2eeVersion", .str "2"),
        ("STICON_OWNERSHIP", .str (buildSticonOwnership cj (sticonPackages resources))),
        ("REPLACE", .str (cj.print (buildReplaceSticonObj resources)))]) }
  | .image info km =>
    { m with
      contentType := 1
      hasContent := true
      contentMetadata := some (buildE2eeImageMetadata info (b64Encode km.bytes)) }

/-! ## What the body hides -/

/-- The routing fields of a send. -/
structure Header where
  fromMid : String
  toMid : String
  reqSeq : Int
  time : Int

/-- What a content shows beside its ciphertext. -/
inductive Visible where
  | text
  | sticon (packages : List String)
  | image (info : ImageInfo)

namespace Content

def visible : Content → Visible
  | .text _ => .text
  | .sticon _ resources _ => .sticon (sticonPackages resources)
  | .image info _ => .image info

def keyMaterial : Content → Option KeyMaterial
  | .image _ km => some km
  | _ => none

variable (cj : Cjson) (h : Header) (chunks : Chunks)

/-- The local message with the chunks of its ciphertext. -/
def message (c : Content) : TalkMessage :=
  attachChunksToLocal (c.fill cj (buildLocalOutgoing h.fromMid h.toMid h.reqSeq h.time)) chunks

/-- The item `finish_e2ee_send` posts, before it is printed. -/
def sealedItem (c : Content) : Json :=
  talkSendMessageItem h.reqSeq (wireMessage (c.message cj h chunks) true)

/-- The body `finish_e2ee_send` posts. -/
def sealedBody (c : Content) : String :=
  buildWireBody cj h.reqSeq (c.message cj h chunks) true

theorem sealedBody_eq (c : Content) : c.sealedBody cj h chunks = cj.print (c.sealedItem cj h chunks) :=
  rfl

end Content

/-- Of the message, only the metadata separates two items that differ there alone. -/
theorem talkSendMessageItem_metadata (reqSeq : Int) (m : TalkMessage) (a b : Option Json) :
    talkSendMessageItem reqSeq { m with contentMetadata := a } =
        talkSendMessageItem reqSeq { m with contentMetadata := b } ↔
      a.getD (.obj []) = b.getD (.obj []) := by
  simp [talkSendMessageItem]

/-- Nothing of an image's metadata is stripped. -/
theorem stripReplace_imageMetadata (info : ImageInfo) (encKm : String) :
    stripReplace (buildE2eeImageMetadata info encKm) = buildE2eeImageMetadata info encKm := by
  have hkeys : ∀ k ∈ ["OID", "SID", "ENC_KM", "FILE_NAME", "contentType", "e2eeVersion",
      "FILE_SIZE", "MEDIA_CONTENT_INFO"] ++ ["MEDIA_THUMB_INFO"],
      Json.keyEq k "REPLACE" = false := by decide
  unfold buildE2eeImageMetadata
  rw [stripReplace_obj, Json.deleteItem_of_keys]
  intro k hk
  apply hkeys
  cases ht : info.thumbSize with
  | none =>
    rw [ht] at hk
    exact List.mem_append_left _ hk
  | some size =>
    rw [ht] at hk
    exact hk

/-- The metadata of an image carries its key material. -/
theorem imageMetadata_inj {info : ImageInfo} {a b : String} :
    buildE2eeImageMetadata info a = buildE2eeImageMetadata info b ↔ a = b := by
  simp [buildE2eeImageMetadata]

theorem KeyMaterial.b64Encode_inj {a b : KeyMaterial} :
    b64Encode a.bytes = b64Encode b.bytes ↔ a = b := by
  rw [Enil.b64Encode_inj]
  cases a
  cases b
  simp

/-- Of a sticon's metadata only the packages stay. -/
theorem stripReplace_sticonMetadata (ownership replace : String) :
    stripReplace (.obj [("e2eeVersion", .str "2"), ("STICON_OWNERSHIP", .str ownership),
        ("REPLACE", .str replace)]) =
      .obj [("e2eeVersion", .str "2"), ("STICON_OWNERSHIP", .str ownership)] := by
  have h₁ : Json.keyEq "e2eeVersion" "REPLACE" = false := by decide
  have h₂ : Json.keyEq "STICON_OWNERSHIP" "REPLACE" = false := by decide
  simp only [stripReplace_obj, Json.deleteItem, List.eraseP_cons, h₁, h₂, cond_false,
    Json.keyEq_refl, cond_true]

namespace Content

variable (cj : Cjson) (h : Header) (chunks : Chunks)

/-- The image message on the wire, without its metadata. -/
def imageWire : TalkMessage :=
  { buildLocalOutgoing h.fromMid h.toMid h.reqSeq h.time with
    contentType := 1
    hasContent := true
    chunks := some (.arr (chunks.toList.map .str)) }

theorem sealedItem_image (info : ImageInfo) (km : KeyMaterial) :
    (image info km).sealedItem cj h chunks = talkSendMessageItem h.reqSeq
      { imageWire h chunks with
        contentMetadata := some (buildE2eeImageMetadata info (b64Encode km.bytes)) } := by
  rw [← stripReplace_imageMetadata]
  rfl

variable {c₁ c₂ : Content}

theorem sealedItem_eq_iff (hv : c₁.visible = c₂.visible) :
    c₁.sealedItem cj h chunks = c₂.sealedItem cj h chunks ↔ c₁.keyMaterial = c₂.keyMaterial := by
  cases c₁ with
  | text t₁ =>
    cases c₂ with
    | text t₂ => exact ⟨fun _ => rfl, fun _ => rfl⟩
    | sticon | image => cases hv
  | sticon t₁ r₁ =>
    cases c₂ with
    | sticon t₂ r₂ =>
      have hp : sticonPackages r₁ = sticonPackages r₂ := Visible.sticon.inj hv
      refine ⟨fun _ => rfl, fun _ => ?_⟩
      simp only [sealedItem, message, fill, attachChunksToLocal, wireMessage, if_true,
        Option.map_some, stripReplace_sticonMetadata, hp]
    | text | image => cases hv
  | image i₁ k₁ =>
    cases c₂ with
    | image i₂ k₂ =>
      obtain rfl : i₁ = i₂ := Visible.image.inj hv
      rw [sealedItem_image, sealedItem_image, talkSendMessageItem_metadata]
      simp only [Option.getD_some, keyMaterial, Option.some.injEq, imageMetadata_inj,
        KeyMaterial.b64Encode_inj]
    | text | sticon => cases hv

/-- Two encrypted sends that show the same give the same body exactly if they
carry the same key material: texts and REPLACE spans stay out of it, while the
ENC_KM item of an image's metadata is not stripped. -/
theorem sealedBody_eq_iff (hv : c₁.visible = c₂.visible)
    (h₁ : cj.ReadsBack (c₁.sealedItem cj h chunks))
    (h₂ : cj.ReadsBack (c₂.sealedItem cj h chunks)) :
    c₁.sealedBody cj h chunks = c₂.sealedBody cj h chunks ↔ c₁.keyMaterial = c₂.keyMaterial := by
  rw [sealedBody_eq, sealedBody_eq, Cjson.print_eq_iff h₁ h₂, sealedItem_eq_iff cj h chunks hv]

def sendToPeer : Header := ⟨"me", "upeer", 7, 1700000000⟩

def fiveChunks : Chunks := #v["AA==", "AQ==", "Ag==", "Aw==", "BA=="]

def textItem : Json :=
  (text "").sealedItem ⟨fun _ => none, Json.printUnformatted⟩ sendToPeer fiveChunks

/-- cJSON on `textItem`. -/
def textJson : Cjson where
  print := Json.printUnformatted
  parse s := if s = Json.printUnformatted textItem then some textItem else none

theorem textJson_readsBack (t : String) :
    textJson.ReadsBack ((text t).sealedItem textJson sendToPeer fiveChunks) := by
  have hitem : (text t).sealedItem textJson sendToPeer fiveChunks = textItem := rfl
  rw [hitem]
  unfold Cjson.ReadsBack textJson
  simp only [if_true]

theorem sealedBody_eq_iff_texts :
    (text "hello").sealedBody textJson sendToPeer fiveChunks =
      (text "goodbye").sealedBody textJson sendToPeer fiveChunks :=
  (sealedBody_eq_iff textJson sendToPeer fiveChunks rfl (textJson_readsBack _)
    (textJson_readsBack _)).mpr rfl

def photo : ImageInfo := ⟨"image.jpg", "oid1", 1056, some (160, 120)⟩

/-- The key material of one repeated byte. -/
def repeated (b : UInt8) : KeyMaterial := ⟨List.replicate 32 b, List.length_replicate⟩

theorem image_key_material_leaks :
    ¬ ∀ (h : Header) (chunks : Chunks) (c₁ c₂ : Content), c₁.visible = c₂.visible →
      c₁.sealedBody ⟨fun _ => none, Json.printUnformatted⟩ h chunks =
        c₂.sealedBody ⟨fun _ => none, Json.printUnformatted⟩ h chunks := by
  intro hall
  have heq := hall sendToPeer fiveChunks (image photo (repeated 0)) (image photo (repeated 1))
    rfl
  revert heq
  decide +kernel

end Content

end Enil
