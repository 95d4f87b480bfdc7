import Enil.Lib.Chars
import Enil.Thrift.Basic
import Mathlib.Data.List.Find

/-!
# The identity in memory

`enil_identity_t` with its arrays, compared by `memcmp`. An identity that is parsed holds a
text in each array and zeros behind it, so it is decided by the texts, and these are what
is written to JSON: parsed again it is the same, byte for byte.
-/

namespace Enil

open Lib Thrift

/-! ## Items -/

/-- cJSON_GetObjectItemCaseSensitive; keys are compared as C strings. -/
def Thrift.Item.getCaseSensitive (j : Item) (key : String) : Option Item :=
  match j with
  | .obj fs => (fs.find? fun f => cText f.1 == utf8 key).map Prod.snd
  | _ => none

/-- An object with the items added one after the other. -/
def Thrift.Item.ofFields (fs : List (String × Item)) : Item :=
  .obj (fs.map fun f => (utf8 f.1, f.2))

def Thrift.Item.stringAt (j : Item) (key : String) : Option (List UInt8) :=
  match j.getCaseSensitive key with
  | some (.str s) => some (cText s)
  | _ => none

/-- enil_identity_t; between the arrays and the number there is no padding. -/
structure IdentityBytes where
  profileId : Chars 16
  transport : Chars 24
  application : Chars 160
  userAgent : Chars 256
  systemName : Chars 64
  modelName : Chars 64
  gatewayVersion : Chars 32
  autoLoginRequired : Nat
  deriving DecidableEq

namespace IdentityBytes

/-- `memset(p, 0, sizeof(*p))`, whatever is there. -/
def cleared (_ : IdentityBytes) : IdentityBytes where
  profileId := .zeros 16
  transport := .zeros 24
  application := .zeros 160
  userAgent := .zeros 256
  systemName := .zeros 64
  modelName := .zeros 64
  gatewayVersion := .zeros 32
  autoLoginRequired := 0

def chromeGateway : List UInt8 := utf8 "chrome-gateway"

def nativeThrift : List UInt8 := utf8 "native-thrift"

def legacyChrome : IdentityBytes where
  profileId := .text 16 (utf8 "chrome")
  transport := .text 24 chromeGateway
  application := .text 160 (utf8 "CHROMEOS\t3.7.2\tChrome_OS")
  userAgent := .text 256 (utf8 ("Mozilla/5.0 (Macintosh; Intel Mac OS X 10_15_7) " ++
    "AppleWebKit/537.36 (KHTML, like Gecko) Chrome/145.0.0.0 Safari/537.36"))
  systemName := .text 64 (utf8 "CHROMEOS")
  modelName := .text 64 (utf8 "CHROME")
  gatewayVersion := .text 32 (utf8 "3.7.2")
  autoLoginRequired := 0

def windows : IdentityBytes where
  profileId := .text 16 (utf8 "desktopwin")
  transport := .text 24 nativeThrift
  application := .text 160 (utf8 "DESKTOPWIN\t9.7.0.3556\tWINDOWS\t10.0.0-NT-x64")
  userAgent := .text 256 (utf8 "Line/9.7.0.3556")
  systemName := .text 64 (utf8 "DESKTOPWIN")
  modelName := .text 64 (utf8 "DESKTOPWIN")
  gatewayVersion := .text 32 (utf8 "3.7.2")
  autoLoginRequired := 1

def android : IdentityBytes where
  profileId := .text 16 (utf8 "android")
  transport := .text 24 nativeThrift
  application := .text 160 (utf8 "ANDROIDSECONDARY\t26.6.2\tAndroid OS\t16")
  userAgent := .text 256 (utf8 "Line/26.6.2")
  systemName := .text 64 (utf8 "Pixel Tablet")
  modelName := .text 64 (utf8 "Pixel Tablet")
  gatewayVersion := .text 32 (utf8 "3.7.2")
  autoLoginRequired := 1

/-- enil_identity_default on an array. -/
def default (profileId : Chars 16) : Option IdentityBytes :=
  if profileId.equals (utf8 "chrome") then some legacyChrome
  else if profileId.equals (utf8 "desktopwin") then some windows
  else if profileId.equals (utf8 "android") then some android
  else none

/-- A control character that is not allowed. -/
def isControl (allowTabs : Bool) (p : UInt8) : Bool :=
  (p < 32 && !(allowTabs && p == 9)) || p == 127

/-- What `read_string` accepts. -/
structure IsText (allowTabs : Bool) (size : Nat) (s : List UInt8) : Prop where
  nonempty : s.length ≠ 0
  fits : s.length < size
  noControl : s.any (isControl allowTabs) = false

instance (allowTabs : Bool) (size : Nat) (s : List UInt8) : Decidable (IsText allowTabs size s) :=
  decidable_of_iff (s.length ≠ 0 ∧ s.length < size ∧ s.any (isControl allowTabs) = false)
    ⟨fun ⟨h, h', h''⟩ => ⟨h, h', h''⟩, fun ⟨h, h', h''⟩ => ⟨h, h', h''⟩⟩

theorem IsText.store_fits {allowTabs : Bool} {size : Nat} {s : List UInt8}
    (h : IsText allowTabs size s) : (s ++ [0]).length ≤ size := by
  have := h.fits
  rw [List.length_append, List.length_singleton]
  omega

def readString (json : Item) (key : String) {size : Nat} (out : Chars size) (allowTabs : Bool) :
    Option (Chars size) :=
  match json.stringAt key with
  | none => none
  | some s => if h : IsText allowTabs size s then some (out.store (s ++ [0]) h.store_fits) else none

/-- strchr for a tab. -/
def separator (application : Chars 160) : Option Nat :=
  let s := cText application.bytes
  if s.contains 9 then some (s.idxOf 9) else none

/-- `strncmp(application, known, n) == 0`; in the first `n` bytes of the known one is no
terminator. -/
def samePrefix (application known : Chars 160) : Bool :=
  match separator known with
  | none => false
  | some n => application.bytes.take (n + 1) == known.bytes.take (n + 1)

/-- The transport is one that the profile may have. -/
def MayUse (profileId : Chars 16) (known : IdentityBytes) (transport : List UInt8) : Prop :=
  known.transport.equals transport = true ∨
    profileId.equals (utf8 "desktopwin") = true ∧ transport = chromeGateway

instance (profileId : Chars 16) (known : IdentityBytes) (transport : List UInt8) :
    Decidable (MayUse profileId known transport) := inferInstanceAs (Decidable (_ ∨ _ ∧ _))

def IsTransport (s : List UInt8) : Prop := s = chromeGateway ∨ s = nativeThrift

instance (s : List UInt8) : Decidable (IsTransport s) := inferInstanceAs (Decidable (_ ∨ _))

theorem IsTransport.store_fits {s : List UInt8} (h : IsTransport s) : (s ++ [0]).length ≤ 24 := by
  rcases h with rfl | rfl <;> decide +kernel

/-- cJSON_IsTrue, of no item too. -/
def isTrue : Option Item → Nat
  | some (.bool true) => 1
  | _ => 0

def isNoBool : Option Item → Bool
  | none => false
  | some (.bool _) => false
  | some _ => true

def isVersion : Option Item → Bool
  | some (.num q) => q == 1
  | _ => false

/-- The strings read into the cleared value. -/
def readFields (json : Item) (value : IdentityBytes) : Option (IdentityBytes × IdentityBytes) := do
  let profileId ← readString json "profileId" value.profileId false
  let known ← default profileId
  let application ← readString json "application" value.application true
  let userAgent ← readString json "userAgent" value.userAgent false
  let systemName ← readString json "systemName" value.systemName false
  let modelName ← readString json "modelName" value.modelName false
  let gatewayVersion ← readString json "gatewayVersion" value.gatewayVersion false
  some ({ value with
    profileId := profileId
    application := application
    userAgent := userAgent
    systemName := systemName
    modelName := modelName
    gatewayVersion := gatewayVersion }, known)

/-- The transport copied into the value that was read, and the application checked. -/
def readTransport (transport : List UInt8) (h : IsTransport transport) :
    IdentityBytes × IdentityBytes → Option IdentityBytes
  | (value, known) =>
    if MayUse value.profileId known transport ∧
        samePrefix value.application known.application = true then
      some { value with transport := value.transport.store (transport ++ [0]) h.store_fits }
    else none

def parseObject (value : IdentityBytes) (json : Item) : Option IdentityBytes :=
  if isVersion (json.getCaseSensitive "schemaVersion") = false then none
  else
    match json.stringAt "transport" with
    | none => none
    | some transport =>
      if h : IsTransport transport then
        if isNoBool (json.getCaseSensitive "autoLoginIsRequired") then none
        else
          (readFields json { cleared value with
            autoLoginRequired := isTrue (json.getCaseSensitive "autoLoginIsRequired") }).bind
            (readTransport transport h)
      else none

/-- enil_identity_parse: what it returns and what it leaves in `*out`. Before, `value` is
what lies on the stack. -/
def parse (value out : IdentityBytes) : Option Item → Bool × IdentityBytes
  | none => (true, legacyChrome)
  | some json =>
    match parseObject value json with
    | some value => (true, value)
    | none => (false, cleared out)

/-- What is added to the object of an identity with these texts. -/
def jsonFields (transport profileId application userAgent systemName modelName
    gatewayVersion : List UInt8) (autoLogin : Bool) : List (String × Item) := [
  ("schemaVersion", .num 1),
  ("transport", .str transport),
  ("profileId", .str profileId),
  ("application", .str application),
  ("userAgent", .str userAgent),
  ("systemName", .str systemName),
  ("modelName", .str modelName),
  ("gatewayVersion", .str gatewayVersion),
  ("autoLoginIsRequired", .bool autoLogin)]

/-- enil_identity_to_json; `none` where a string is read on behind its array. -/
def toJson (identity : IdentityBytes) : Option Item := do
  let transport ← identity.transport.string
  let profileId ← identity.profileId.string
  let application ← identity.application.string
  let userAgent ← identity.userAgent.string
  let systemName ← identity.systemName.string
  let modelName ← identity.modelName.string
  let gatewayVersion ← identity.gatewayVersion.string
  some (.ofFields (jsonFields transport profileId application userAgent systemName modelName
    gatewayVersion (identity.autoLoginRequired != 0)))

/-! ## What is read -/

variable {json : Item} {key : String} {allowTabs : Bool} {n : Nat} {b : Chars n} {s : List UInt8}

theorem notMem_stringAt (h : json.stringAt key = some s) : 0 ∉ s := by
  unfold Item.stringAt at h
  split at h
  · cases h
    exact notMem_cText _
  · cases h

/-- The array holds the text under the key. -/
def HasText (json : Item) (key : String) (allowTabs : Bool) (b : Chars n) : Prop :=
  ∃ s, json.stringAt key = some s ∧ IsText allowTabs n s ∧ b.Holds s

/-- Into a cleared array `read_string` reads the text. -/
theorem readString_eq_some :
    readString json key (.zeros n) allowTabs = some b ↔ HasText json key allowTabs b := by
  unfold readString
  constructor
  · intro h
    split at h
    · cases h
    · rename_i s hs
      split at h
      · rename_i htext
        cases h
        exact ⟨s, hs, htext, Chars.holds_store (notMem_stringAt hs) htext.store_fits⟩
      · cases h
  · rintro ⟨s, hs, htext, hb⟩
    rw [hs]
    simp only [dif_pos htext]
    exact congrArg some ((Chars.holds_store hb.noZero htext.store_fits).unique hb)

structure Parsed (json : Item) (v : IdentityBytes) : Prop where
  version : isVersion (json.getCaseSensitive "schemaVersion") = true
  autoLogin : isNoBool (json.getCaseSensitive "autoLoginIsRequired") = false
  autoLoginRequired : v.autoLoginRequired = isTrue (json.getCaseSensitive "autoLoginIsRequired")
  profileId : HasText json "profileId" false v.profileId
  application : HasText json "application" true v.application
  userAgent : HasText json "userAgent" false v.userAgent
  systemName : HasText json "systemName" false v.systemName
  modelName : HasText json "modelName" false v.modelName
  gatewayVersion : HasText json "gatewayVersion" false v.gatewayVersion
  transport : ∃ t known, json.stringAt "transport" = some t ∧ IsTransport t ∧
    v.transport.Holds t ∧ default v.profileId = some known ∧ MayUse v.profileId known t ∧
    samePrefix v.application known.application = true

theorem readFields_eq_some {value v known : IdentityBytes} {flag : Nat} :
    readFields json { cleared value with autoLoginRequired := flag } = some (v, known) ↔
      HasText json "profileId" false v.profileId ∧
      HasText json "application" true v.application ∧
      HasText json "userAgent" false v.userAgent ∧
      HasText json "systemName" false v.systemName ∧
      HasText json "modelName" false v.modelName ∧
      HasText json "gatewayVersion" false v.gatewayVersion ∧
      default v.profileId = some known ∧ v.transport = .zeros 24 ∧ v.autoLoginRequired = flag := by
  simp only [readFields, cleared, Option.bind_eq_bind, Option.bind_eq_some_iff, readString_eq_some,
    Option.some.injEq, Prod.mk.injEq]
  constructor
  · rintro ⟨_, hprofile, _, hknown, _, happlication, _, hagent, _, hsystem, _, hmodel, _, hgateway,
      rfl, rfl⟩
    exact ⟨hprofile, happlication, hagent, hsystem, hmodel, hgateway, hknown, rfl, rfl⟩
  · rintro ⟨hprofile, happlication, hagent, hsystem, hmodel, hgateway, hknown, htransport, hflag⟩
    refine ⟨_, hprofile, _, hknown, _, happlication, _, hagent, _, hsystem, _, hmodel, _, hgateway,
      ?_, rfl⟩
    rw [← htransport, ← hflag]

theorem readTransport_eq_some {t : List UInt8} (h : IsTransport t)
    {value known v : IdentityBytes} (hvalue : value.transport = .zeros 24) (ht : 0 ∉ t) :
    readTransport t h (value, known) = some v ↔
      v = { value with transport := v.transport } ∧ v.transport.Holds t ∧
      MayUse v.profileId known t ∧ samePrefix v.application known.application = true := by
  have hstore := Chars.holds_store ht h.store_fits
  rw [← hvalue] at hstore
  simp only [readTransport, Option.ite_none_right_eq_some, Option.some.injEq]
  constructor
  · rintro ⟨⟨huse, hprefix⟩, rfl⟩
    exact ⟨rfl, hstore, huse, hprefix⟩
  · rintro ⟨hv, hholds, huse, hprefix⟩
    rw [hv] at huse hprefix
    refine ⟨⟨huse, hprefix⟩, ?_⟩
    rw [hv, hstore.unique hholds]

theorem parseObject_eq_some {value v : IdentityBytes} :
    parseObject value json = some v ↔ Parsed json v := by
  constructor
  · intro h
    unfold parseObject at h
    split at h
    · cases h
    · rename_i hversion
      split at h
      · cases h
      · rename_i t ht
        split at h
        · rename_i htransport
          split at h
          · cases h
          · rename_i hbool
            obtain ⟨⟨w, known⟩, hread, h⟩ := Option.bind_eq_some_iff.mp h
            obtain ⟨hprofile, happlication, hagent, hsystem, hmodel, hgateway, hknown, hzeros,
              hflag⟩ := readFields_eq_some.mp hread
            obtain ⟨hv, hholds, huse, hprefix⟩ :=
              (readTransport_eq_some htransport hzeros (notMem_stringAt ht)).mp h
            rw [hv] at hholds huse hprefix ⊢
            exact {
              version := Bool.not_eq_false _ ▸ hversion
              autoLogin := Bool.eq_false_iff.mpr hbool
              autoLoginRequired := hflag
              profileId := hprofile
              application := happlication
              userAgent := hagent
              systemName := hsystem
              modelName := hmodel
              gatewayVersion := hgateway
              transport := ⟨t, known, ht, htransport, hholds, hknown, huse, hprefix⟩ }
        · cases h
  · intro h
    obtain ⟨t, known, ht, htransport, hholds, hknown, huse, hprefix⟩ := h.transport
    have hread : readFields json { cleared value with
        autoLoginRequired := isTrue (json.getCaseSensitive "autoLoginIsRequired") } =
        some ({ v with transport := .zeros 24 }, known) :=
      readFields_eq_some.mpr ⟨h.profileId, h.application, h.userAgent, h.systemName, h.modelName,
        h.gatewayVersion, hknown, rfl, h.autoLoginRequired⟩
    have hzeros : ({ v with transport := .zeros 24 } : IdentityBytes).transport = .zeros 24 := rfl
    have hend := (readTransport_eq_some (v := v) htransport hzeros (notMem_stringAt ht)).mpr
      ⟨rfl, hholds, huse, hprefix⟩
    unfold parseObject
    rw [if_neg (by rw [h.version]; exact Bool.noConfusion), ht]
    simp only [dif_pos htransport, h.autoLogin, Bool.false_eq_true, if_false]
    rw [hread, Option.bind_some, hend]

/-! ## What is written -/

/-- An array that holds a text `read_string` accepts. -/
def HoldsText (allowTabs : Bool) (b : Chars n) : Prop := ∃ s, IsText allowTabs n s ∧ b.Holds s

/-- Each array holds its text, and profile, transport and application go together. -/
structure Valid (v : IdentityBytes) : Prop where
  profileId : HoldsText false v.profileId
  application : HoldsText true v.application
  userAgent : HoldsText false v.userAgent
  systemName : HoldsText false v.systemName
  modelName : HoldsText false v.modelName
  gatewayVersion : HoldsText false v.gatewayVersion
  transport : ∃ t known, IsTransport t ∧ v.transport.Holds t ∧
    default v.profileId = some known ∧ MayUse v.profileId known t ∧
    samePrefix v.application known.application = true
  flag : v.autoLoginRequired = 0 ∨ v.autoLoginRequired = 1

theorem HasText.holds (h : HasText json key allowTabs b) : HoldsText allowTabs b := by
  obtain ⟨s, -, htext, hb⟩ := h
  exact ⟨s, htext, hb⟩

theorem Parsed.valid {v : IdentityBytes} (h : Parsed json v) : Valid v := by
  obtain ⟨t, known, -, h'⟩ := h.transport
  refine ⟨h.profileId.holds, h.application.holds, h.userAgent.holds, h.systemName.holds,
    h.modelName.holds, h.gatewayVersion.holds, ⟨t, known, h'⟩, ?_⟩
  rw [h.autoLoginRequired]
  unfold isTrue
  split
  · exact .inr rfl
  · exact .inl rfl

theorem holdsText_text (hzero : 0 ∉ s) (htext : IsText allowTabs n s) :
    HoldsText allowTabs (.text n s) :=
  ⟨s, htext, Chars.holds_text hzero htext.fits⟩

theorem valid_legacyChrome : Valid legacyChrome where
  profileId := holdsText_text (by decide +kernel) (by decide +kernel)
  application := holdsText_text (by decide +kernel) (by decide +kernel)
  userAgent := holdsText_text (by decide +kernel) (by decide +kernel)
  systemName := holdsText_text (by decide +kernel) (by decide +kernel)
  modelName := holdsText_text (by decide +kernel) (by decide +kernel)
  gatewayVersion := holdsText_text (by decide +kernel) (by decide +kernel)
  transport := ⟨chromeGateway, legacyChrome, .inl rfl,
    Chars.holds_text (by decide +kernel) (by decide +kernel), by decide +kernel,
    by decide +kernel, by decide +kernel⟩
  flag := .inl rfl

/-- A key of the object is found as it was added. -/
theorem getCaseSensitive_ofFields {fs : List (String × Item)}
    (hfs : ∀ k ∈ fs.map Prod.fst, 0 ∉ utf8 k) (key : String) :
    (Item.ofFields fs).getCaseSensitive key =
      (fs.find? fun f => f.1 == key).map Prod.snd := by
  unfold Item.ofFields Item.getCaseSensitive
  dsimp only
  rw [List.find?_map, Option.map_map]
  congr 1
  apply List.find?_congr
  intro f hf
  have hclean := cText_of_notMem (hfs f.1 (List.mem_map_of_mem hf))
  rw [Function.comp_apply, hclean, Bool.eq_iff_iff, beq_iff_eq, beq_iff_eq]
  exact ⟨utf8_injective, congrArg utf8⟩

def jsonKeys : List String := ["schemaVersion", "transport", "profileId", "application",
  "userAgent", "systemName", "modelName", "gatewayVersion", "autoLoginIsRequired"]

theorem jsonKeys_clean : ∀ k ∈ jsonKeys, 0 ∉ utf8 k := by decide +kernel

theorem stringAt_ofFields {fs : List (String × Item)} (hfs : fs.map Prod.fst = jsonKeys)
    (hs : 0 ∉ s) (hfind : fs.find? (fun f => f.1 == key) = some (key, .str s)) :
    (Item.ofFields fs).stringAt key = some s := by
  have hget := getCaseSensitive_ofFields (hfs ▸ jsonKeys_clean) key
  rw [hfind] at hget
  rw [Item.stringAt, hget]
  exact congrArg some (cText_of_notMem hs)

/-- Of a valid identity all strings end within their arrays, and what is written is parsed
to the identity. -/
theorem Valid.toJson_parsed {v : IdentityBytes} (h : Valid v) :
    ∃ j, v.toJson = some j ∧ Parsed j v := by
  obtain ⟨⟨p, hp, hprofile⟩, ⟨a, ha, happlication⟩, ⟨u, hu, hagent⟩, ⟨y, hy, hsystem⟩,
    ⟨m, hm, hmodel⟩, ⟨g, hg, hgateway⟩, ⟨t, known, ht, htransport, hrest⟩, hflag⟩ := h
  have hjson : v.toJson =
      some (.ofFields (jsonFields t p a u y m g (v.autoLoginRequired != 0))) := by
    simp only [toJson, hprofile.string_eq, happlication.string_eq, hagent.string_eq,
      hsystem.string_eq, hmodel.string_eq, hgateway.string_eq, htransport.string_eq,
      Option.bind_eq_bind, Option.bind_some]
  have hget : ∀ key,
      (Item.ofFields (jsonFields t p a u y m g (v.autoLoginRequired != 0))).getCaseSensitive key =
        ((jsonFields t p a u y m g (v.autoLoginRequired != 0)).find? fun f => f.1 == key).map
          Prod.snd := getCaseSensitive_ofFields jsonKeys_clean
  refine ⟨_, hjson, ?_, ?_, ?_, ⟨p, ?_, hp, hprofile⟩, ⟨a, ?_, ha, happlication⟩,
    ⟨u, ?_, hu, hagent⟩, ⟨y, ?_, hy, hsystem⟩, ⟨m, ?_, hm, hmodel⟩, ⟨g, ?_, hg, hgateway⟩,
    ⟨t, known, ?_, ht, htransport, hrest⟩⟩
  · rw [hget]
    rfl
  · rw [hget]
    rfl
  · rw [hget]
    rcases hflag with hflag | hflag <;> rw [hflag] <;> rfl
  · exact stringAt_ofFields rfl hprofile.noZero rfl
  · exact stringAt_ofFields rfl happlication.noZero rfl
  · exact stringAt_ofFields rfl hagent.noZero rfl
  · exact stringAt_ofFields rfl hsystem.noZero rfl
  · exact stringAt_ofFields rfl hmodel.noZero rfl
  · exact stringAt_ofFields rfl hgateway.noZero rfl
  · exact stringAt_ofFields rfl htransport.noZero rfl

/-! ## The round trip -/

theorem parse_eq_true {value out v : IdentityBytes} {json : Option Item} :
    parse value out json = (true, v) ↔
      (json = none ∧ v = legacyChrome) ∨ ∃ j, json = some j ∧ Parsed j v := by
  rcases json with _ | j
  · simp [parse, eq_comm]
  · simp only [parse, reduceCtorEq, false_and, false_or, Option.some.injEq, exists_eq_left',
      ← @parseObject_eq_some _ value]
    split <;> simp_all

theorem valid_of_parse {value out v : IdentityBytes} {json : Option Item}
    (h : parse value out json = (true, v)) : Valid v := by
  obtain ⟨-, rfl⟩ | ⟨j, -, hj⟩ := parse_eq_true.mp h
  · exact valid_legacyChrome
  · exact hj.valid

/-! ## Comparison -/

def intBytes (n : Nat) : List UInt8 := [UInt8.ofNat n, 0, 0, 0]

/-- The bytes that `memcmp` compares. -/
def bytes (v : IdentityBytes) : List UInt8 :=
  v.profileId.bytes ++ (v.transport.bytes ++ (v.application.bytes ++ (v.userAgent.bytes ++
    (v.systemName.bytes ++ (v.modelName.bytes ++ (v.gatewayVersion.bytes ++
      intBytes v.autoLoginRequired))))))

theorem length_bytes (v : IdentityBytes) : v.bytes.length = 620 := by
  simp only [bytes, List.length_append, Chars.length_eq]
  rfl

theorem append_inj {a b : Chars n} {x y : List UInt8} (h : a.bytes ++ x = b.bytes ++ y) :
    a = b ∧ x = y := by
  obtain ⟨hbytes, hrest⟩ := List.append_inj h (a.length_eq.trans b.length_eq.symm)
  exact ⟨Chars.ext hbytes, hrest⟩

/-- Identities that were parsed are the same if their bytes are. -/
theorem Valid.bytes_inj {v w : IdentityBytes} (hv : Valid v) (hw : Valid w)
    (h : v.bytes = w.bytes) : v = w := by
  obtain ⟨hprofile, h⟩ := append_inj h
  obtain ⟨htransport, h⟩ := append_inj h
  obtain ⟨happlication, h⟩ := append_inj h
  obtain ⟨hagent, h⟩ := append_inj h
  obtain ⟨hsystem, h⟩ := append_inj h
  obtain ⟨hmodel, h⟩ := append_inj h
  obtain ⟨hgateway, h⟩ := append_inj h
  have hflag : v.autoLoginRequired = w.autoLoginRequired := by
    rcases hv.flag with hv | hv <;> rcases hw.flag with hw | hw <;> rw [hv, hw] at h ⊢ <;>
      revert h <;> decide
  cases v
  cases w
  simp only at hprofile htransport happlication hagent hsystem hmodel hgateway hflag
  simp only [hprofile, htransport, happlication, hagent, hsystem, hmodel, hgateway, hflag]

/-! ## The transports -/

/-- The profiles and the transports they go with: only the Windows profile, whose older
snapshots went through the gateway, has both. -/
def Paired (v : IdentityBytes) : Prop :=
  (v.profileId.string = some (utf8 "chrome") ∧ v.transport.string = some chromeGateway) ∨
  (v.profileId.string = some (utf8 "android") ∧ v.transport.string = some nativeThrift) ∨
  (v.profileId.string = some (utf8 "desktopwin") ∧
    (v.transport.string = some nativeThrift ∨ v.transport.string = some chromeGateway))

theorem text_equals {t t' : List UInt8} (ht : 0 ∉ t) (hfits : t.length < n) (ht' : 0 ∉ t')
    (h : (Chars.text n t).equals t' = true) : t = t' :=
  ((Chars.holds_text ht hfits).equals_iff ht').mp h

theorem Valid.paired {v : IdentityBytes} (h : Valid v) : Paired v := by
  obtain ⟨p, -, hp⟩ := h.profileId
  obtain ⟨t, known, -, ht, hknown, huse, -⟩ := h.transport
  have hname : ∀ name : String, 0 ∉ utf8 name → v.profileId.equals (utf8 name) = true →
      p = utf8 name := fun _ hclean => (hp.equals_iff hclean).mp
  have hnative : ∀ {known : IdentityBytes}, known.transport = .text 24 nativeThrift →
      known.transport.equals t = true → nativeThrift = t := by
    intro known hknown hequals
    rw [hknown] at hequals
    exact text_equals (by decide +kernel) (by decide +kernel) ht.noZero hequals
  rw [Paired, hp.string_eq, ht.string_eq]
  simp only [Option.some.injEq]
  unfold default at hknown
  split_ifs at hknown with hchrome hwindows handroid
  · cases hknown
    have hchrome := hname "chrome" (by decide +kernel) hchrome
    obtain hequals | ⟨-, rfl⟩ := huse
    · exact .inl ⟨hchrome, (text_equals (t := chromeGateway) (by decide +kernel)
        (by decide +kernel) ht.noZero hequals).symm⟩
    · exact .inl ⟨hchrome, rfl⟩
  · cases hknown
    have hwindows := hname "desktopwin" (by decide +kernel) hwindows
    obtain hequals | ⟨-, rfl⟩ := huse
    · exact .inr (.inr ⟨hwindows, .inl (hnative rfl hequals).symm⟩)
    · exact .inr (.inr ⟨hwindows, .inr rfl⟩)
  · cases hknown
    obtain hequals | ⟨hboth, -⟩ := huse
    · exact .inr (.inl ⟨hname "android" (by decide +kernel) handroid, (hnative rfl hequals).symm⟩)
    · exact absurd hboth hwindows

/-- An identity that is parsed is written, and from what is written the same bytes are
parsed; its transport is one of its profile. -/
theorem parse_toJson {value out v : IdentityBytes} {json : Option Item}
    (h : parse value out json = (true, v)) :
    (∃ j, v.toJson = some j ∧ ∀ value out : IdentityBytes, parse value out (some j) = (true, v)) ∧
      Paired v := by
  have hvalid := valid_of_parse h
  obtain ⟨j, hjson, hparsed⟩ := hvalid.toJson_parsed
  exact ⟨⟨j, hjson, fun _ _ => parse_eq_true.mpr (.inr ⟨j, rfl, hparsed⟩)⟩, hvalid.paired⟩

/-- A snapshot of the Windows profile from the time of the gateway, without the field of
the automatic login. -/
def gatewaySnapshot : Item := .ofFields [
  ("schemaVersion", .num 1),
  ("transport", .str chromeGateway),
  ("profileId", .str (utf8 "desktopwin")),
  ("application", .str (utf8 "DESKTOPWIN\t9.7.0.3556\tWINDOWS\t10.0.0-NT-x64")),
  ("userAgent", .str (utf8 "Line/9.7.0.3556")),
  ("systemName", .str (utf8 "DESKTOPWIN")),
  ("modelName", .str (utf8 "DESKTOPWIN")),
  ("gatewayVersion", .str (utf8 "3.7.2"))]

def gatewayIdentity : IdentityBytes :=
  { windows with transport := .text 24 chromeGateway, autoLoginRequired := 0 }

theorem parse_toJson_snapshot :
    parse windows windows (some gatewaySnapshot) = (true, gatewayIdentity) ∧
    (∃ j, gatewayIdentity.toJson = some j ∧ ∀ value out : IdentityBytes,
      parse value out (some j) = (true, gatewayIdentity)) ∧ Paired gatewayIdentity := by
  have h : parse windows windows (some gatewaySnapshot) = (true, gatewayIdentity) := by
    decide +kernel
  exact ⟨h, parse_toJson h⟩

end IdentityBytes

end Enil
