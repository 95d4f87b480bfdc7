import Enil.Session.Session

/-!
# Writers of the session file

Each function reads the file, checks that it still belongs to the caller and
replaces it, under one mutex; here each is a function of the file it finds.
`enil_session_save` merges what a session changed since it was loaded,
`enil_session_accept_next_access` rotates the access token of the bound login.
-/

namespace Enil

def sessionLoad (file : Option Fields) : Option Session := file.bind sessionParse

/-! ## Save -/

/-- Whether the item `next` holds differs from what the baseline holds there. -/
def mergeItem (baseline current : Fields) (item : String × Json) : Fields :=
  if (baseline.get item.1).any fun old => Json.compare old item.2 then current
  else current.put item

/-- Deletes an item of the baseline that `next` no longer has. -/
def mergeDelete (next current : Fields) (item : String × Json) : Fields :=
  if ((Json.obj next).getObjectItem item.1).isSome then current else current.delete item.1

/-- The three-way merge of `enil_session_save`. -/
def sessionMerge (baseline next current : Fields) : Fields :=
  baseline.foldl (mergeDelete next) (next.foldl (mergeItem baseline) current)

/-- Whether an update of a session with `before` as its loginId may go into a file
with `now`: both are absent, or they are one nonempty string. -/
def sameLogin (before now : Option Json) : Bool :=
  match before, now with
  | none, none => true
  | some (.str a), some (.str b) => a != "" && a == b
  | _, _ => false

def sessionSave (file : Option Fields) (s : Session) (w : WriteResult) : Bool × Option Fields :=
  match sessionParse s.snapshot, file with
  | some original, some current =>
    let baseline := sessionToJson original
    if sameLogin (baseline.get "loginId") (current.get "loginId") then
      sessionWrite file (sessionMerge baseline (sessionToJson s) current) w
    else (false, file)
  | _, _ => (false, file)

/-! ## The login id -/

/-- add_login_id: the id of the login and the root that has it. -/
def addLoginId (root : Fields) (newId : String) : Option (String × Fields) :=
  match root.get "loginId" with
  | some (.str id) => if id ≠ "" then some (id, root) else none
  | some _ => none
  | none => some (newId, root ++ [("loginId", .str newId)])

/-- enil_session_login_id; `newId` is what `enil_session_new_id` gives. -/
def sessionLoginId (file : Option Fields) (newId : String) (w : WriteResult) :
    Option String × Option Fields :=
  match file with
  | none => (none, none)
  | some root =>
    match addLoginId root newId with
    | none => (none, file)
    | some (id, root') =>
      if ((Json.obj root).getObjectItem "loginId").isSome then (some id, file)
      else
        let written := sessionWrite file root' w
        (if written.1 then some id else none, written.2)

/-! ## Bindings -/

/-- SessionBinding with the identity bound beside it. -/
structure Binding where
  loginId : Option String
  identity : Identity
  deriving DecidableEq, Repr

def bindIdentity (file : Option Fields) : Option Binding := do
  let root ← file
  let identity ← Identity.parse (root.get "clientIdentity")
  match root.get "loginId" with
  | none => some ⟨none, identity⟩
  | some (.str id) => if id = "" then none else some ⟨some id, identity⟩
  | some _ => none

def Binding.isMatch (b : Binding) (root : Fields) : Bool :=
  (match b.loginId, root.get "loginId" with
    | none, none => true
    | some a, some (.str id) => a == id
    | _, _ => false) &&
  Identity.parse (root.get "clientIdentity") == some b.identity

/-- cJSON_ReplaceItemInObjectCaseSensitive. -/
def Fields.replace (key : String) (v : Json) : Fields → Fields
  | [] => []
  | f :: fs => if f.1 == key then (key, v) :: fs else f :: replace key v fs

/-- Whether a token can stand in a header. -/
def isHeaderSafe (next : String) : Bool :=
  next != "" && next.toList.all fun c => c != '\r' && c != '\n'

def acceptNextAccess (b : Binding) (file : Option Fields) (previous next : String)
    (w : WriteResult) : Bool × Option Fields :=
  match file with
  | none => (false, none)
  | some root =>
    if isHeaderSafe next && b.isMatch root then
      match root.get "accessToken" with
      | some (.str token) =>
        if token = previous then sessionWrite file (root.replace "accessToken" (.str next)) w
        else (true, file)
      | _ => (false, file)
    else (false, file)

end Enil
