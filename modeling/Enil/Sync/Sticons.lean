import Enil.Sync.Decrypting
import Mathlib.Data.List.Sort
import Mathlib.Data.Finset.Basic
import Mathlib.Data.Finset.Prod

/-!
# The sticons of a message

`message_sticons` and `message_sticon_packages`, the functions that rebuild the rows
of a message and the query the renderer reads them with. The catalog of sticons that
are to be downloaded is left out.
-/

namespace Enil

open Lib Lib.Sql Db

/-- A row of `message_sticons`; its key is the message and the ordinal. -/
structure MessageSticon where
  messageId : String
  ordinal : Nat
  packageId : String
  sticonId : String
  deriving DecidableEq, Repr

structure SticonDb extends Db where
  sticons : List MessageSticon := []
  /-- message_sticon_packages: pairs of a message and a package, all of them its key. -/
  packages : Finset (String × String) := ∅

namespace SticonDb

def clearMessageSticons (id : String) (d : SticonDb) : Nat × SticonDb :=
  ((d.sticons.filter (·.messageId = id)).length,
    { d with sticons := d.sticons.filter (·.messageId ≠ id) })

def insertMessageSticon (s : MessageSticon) (d : SticonDb) : Nat × SticonDb :=
  (1, { d with sticons := d.sticons.filter (fun t =>
    ¬ (t.messageId = s.messageId ∧ t.ordinal = s.ordinal)) ++ [s] })

def clearMessageSticonPackages (id : String) (d : SticonDb) : Nat × SticonDb :=
  ((d.packages.filter (·.1 = id)).card, { d with packages := d.packages.filter (·.1 ≠ id) })

def insertMessageSticonPackage (id packageId : String) (d : SticonDb) : Nat × SticonDb :=
  (if (id, packageId) ∈ d.packages then 0 else 1,
    { d with packages := insert (id, packageId) d.packages })

/-- A program on the message tables. -/
def onDb {α : Type} (m : Sql Db α) : Sql SticonDb α :=
  zoom SticonDb.toDb (fun db d => { d with toDb := db }) m

end SticonDb

open SticonDb

/-- The stored text of a REPLACE, parsed. -/
def JsonText.parse (cj : Cjson) : JsonText → Option Json
  | text s => cj.parse s
  | printed j => cj.parse (cj.print j)

section

variable (cj : Cjson)

def sticonResources (root : Option Json) : Option Json :=
  (root.bind (·.getObjectItem "sticon")).bind (·.getObjectItem "resources")

/-- The resources that `store_message_sticons` walks. -/
def storedResources (replace : JsonText) : List Json :=
  if replace.isEmpty then []
  else ((sticonResources (replace.parse cj)).filter (·.isArray)).elim [] (·.elements)

/-- The packages of a STICON_OWNERSHIP list. -/
def ownedPackages (ownership : Option String) : List String :=
  if nonempty ownership then
    (((ownership.bind cj.parse).filter (·.isArray)).elim [] (·.elements)).filterMap
      fun item => item.getStringValue.filter (· ≠ "")
  else []

/-- What a resource names; a name that is missing or empty is none. -/
def resourceName (key : String) (res : Json) : Option String :=
  (res.stringItem key).filter (· ≠ "")

/-- insert_message_sticon and insert_message_sticon_package for one resource. -/
def storeResource (id : String) (ordinal : Nat) (res : Json) : Sql SticonDb Unit := do
  match resourceName "productId" res, resourceName "sticonId" res with
  | some pkg, some sid => discard (exec (insertMessageSticon ⟨id, ordinal, pkg, sid⟩))
  | _, _ => pure ()
  match resourceName "productId" res with
  | some pkg => discard (exec (insertMessageSticonPackage id pkg))
  | none => pure ()

/-- The loop of `store_message_sticons`, `ordinal` being the place of the first. -/
def storeResources (id : String) (ordinal : Nat) : List Json → Sql SticonDb Unit
  | [] => pure ()
  | res :: rest => do
    storeResource id ordinal res
    storeResources id (ordinal + 1) rest

/-- store_message_sticon_packages. -/
def storePackages (id : String) : List String → Sql SticonDb Unit
  | [] => pure ()
  | pkg :: rest => do
    discard (exec (insertMessageSticonPackage id pkg))
    storePackages id rest

/-- replace_message_sticon_rows; no result is checked. -/
def replaceMessageSticonRows (id : String) (replace : JsonText) (ownership : Option String) :
    Sql SticonDb Unit := do
  discard (exec (clearMessageSticons id))
  discard (exec (clearMessageSticonPackages id))
  storePackages id (ownedPackages cj ownership)
  storeResources id 0 (storedResources cj replace)

/-! ## The writers -/

def messageOwnership (m : TalkMessage) : Option String :=
  (m.contentMetadata.getD (.obj [])).stringItem "STICON_OWNERSHIP"

/-- A write to the message tables, and where it succeeds the rows of the message rebuilt. -/
def rebuildAfter (write : Sql Db Rc) (id : String) (replace : JsonText)
    (ownership : Option String) : Sql SticonDb Rc := do
  let rc ← onDb write
  if rc ≠ .ok then return rc
  replaceMessageSticonRows cj id replace ownership
  return .ok

/-- enil_db_message_upsert with the rows it rebuilds. -/
def messageUpsertRows (m : TalkMessage) : Sql SticonDb Rc :=
  match messageReplaceJson m with
  | some replace => rebuildAfter cj (messageUpsert cj m) m.id replace (messageOwnership m)
  | none => onDb (messageUpsert cj m)

/-- enil_db_set_message_plaintext with the rows it rebuilds. -/
def setMessagePlaintextRows (id text : String) (rawJson : Json) (replace : JsonText)
    (status : DecryptStatus) : Sql SticonDb Rc :=
  rebuildAfter cj (setMessagePlaintext id text rawJson replace status) id replace none

def rawOwnership (rawJson : Json) : Option String :=
  ((cj.parse (cj.print rawJson)).bind (·.getObjectItem "contentMetadata")).bind
    (·.stringItem "STICON_OWNERSHIP")

/-- enil_db_set_message_raw_json with the rows it rebuilds. -/
def setMessageRawJsonRows (id : String) (rawJson : Json) (replace : JsonText) :
    Sql SticonDb Rc :=
  rebuildAfter cj (setMessageRawJson id rawJson replace) id replace (rawOwnership cj rawJson)

/-! ## The query -/

structure SticonSpan where
  packageId : String
  sticonId : String
  span : Option (Rat × Rat)
  deriving DecidableEq, Repr

/-- The S and E of a resource, where both are numbers. -/
def resourceSpan (res : Option Json) : Option (Rat × Rat) :=
  match res.bind (·.getObjectItem "S"), res.bind (·.getObjectItem "E") with
  | some (.num s), some (.num e) => some (s, e)
  | _, _ => none

/-- The rows kSQL_GetMessageSticons selects for a stored message. -/
def selectMessageSticons (d : SticonDb) (id : String) : List MessageSticon :=
  if (d.messages id).isSome then
    (d.sticons.filter (·.messageId = id)).insertionSort fun s t => s.ordinal ≤ t.ordinal
  else []

/-- enil_db_get_message_sticons: the spans come from the stored REPLACE, by ordinal. -/
def getMessageSticons (id : String) (d : SticonDb) : List SticonSpan :=
  let stored := (d.messages id).bind (·.replaceJson)
  let resources := sticonResources (stored.bind (·.parse cj))
  (selectMessageSticons d id).map fun s =>
    ⟨s.packageId, s.sticonId, resourceSpan (resources.bind (·.children[s.ordinal]?))⟩

end

end Enil
