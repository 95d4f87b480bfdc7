import Enil.Lib.Base64
import Enil.Lib.Disk
import Enil.Lib.Program
import Enil.Session.Names

/-!
# The directory of a login

`session.json`, `retired.json` and the lock of a login in progress, with the operations
on them. A call holds `session.lock` from its first look at the files to its end.
-/

namespace Enil

open Lib

def safeName (name : String) : Bool :=
  name ≠ "" && !name.toList.contains '/' && name ≠ "." && name ≠ ".."

/-! ## Objects with distinct keys -/

/-- The items of an object that has no key twice. -/
structure Keyed where
  root : Fields
  nodup : (root.map Prod.fst).Nodup

namespace Keyed

variable (s : Keyed)

def empty : Keyed := ⟨[], List.nodup_nil⟩

def get (key : String) : Option Json := s.root.get key

def str (key : String) : Option String := (s.get key).bind Json.getStringValue

def isTrue (key : String) : Bool := (s.get key).bind Json.getBoolValue == some true

theorem nodup_delete (key : String) : ((s.root.delete key).map Prod.fst).Nodup :=
  s.nodup.sublist Fields.keys_delete_sublist

theorem nodup_concat {root : Fields} (h : (root.map Prod.fst).Nodup) {key : String}
    (hnew : root.get key = none) (v : Json) : ((root ++ [(key, v)]).map Prod.fst).Nodup := by
  rw [List.map_append, List.map_singleton, List.nodup_append]
  refine ⟨h, List.nodup_singleton _, ?_⟩
  rintro a ha b hb rfl
  obtain rfl := List.mem_singleton.mp hb
  exact Fields.get_eq_none_iff.mp hnew ha

def delete (key : String) : Keyed := ⟨s.root.delete key, s.nodup_delete key⟩

theorem get_delete (key key' : String) :
    (s.delete key).get key' = if key' = key then none else s.get key' :=
  Fields.get_delete s.nodup key key'

/-- An item added under a key the object does not have. -/
def concat (key : String) (v : Json) (h : s.get key = none) : Keyed :=
  ⟨s.root ++ [(key, v)], nodup_concat s.nodup h v⟩

/-- set: the item deleted and added again at the end. -/
def set (key : String) (v : Json) : Keyed :=
  (s.delete key).concat key v (by rw [get_delete, if_pos rfl])

theorem get_set (key key' : String) (v : Json) :
    (s.set key v).get key' = if key' = key then some v else s.get key' := by
  show ((s.root.delete key) ++ [(key, v)]).get key' = _
  rw [Fields.get_append, Fields.get_delete s.nodup, Fields.get_cons, Fields.get_nil]
  rcases Decidable.em (key' = key) with rfl | hne
  · simp
  · simp [hne, Ne.symm hne, get]

@[simp] theorem get_set_same (key : String) (v : Json) : (s.set key v).get key = some v := by
  rw [get_set, if_pos rfl]

theorem get_set_of_ne {key key' : String} (h : key' ≠ key) (v : Json) :
    (s.set key v).get key' = s.get key' := by
  rw [get_set, if_neg h]

theorem str_set_of_ne {key key' : String} (h : key' ≠ key) (v : Json) :
    (s.set key v).str key' = s.str key' := by
  rw [str, str, s.get_set_of_ne h]

/-- set with a value that may be missing. -/
def setOpt (key : String) : Option Json → Keyed
  | none => s.delete key
  | some v => s.set key v

theorem get_setOpt_of_ne {key key' : String} (h : key' ≠ key) (v : Option Json) :
    (s.setOpt key v).get key' = s.get key' := by
  cases v with
  | none => exact (s.get_delete key key').trans (if_neg h)
  | some v => exact s.get_set_of_ne h v

def copyField (name : String) (source : Option Json) (key : String) : Keyed :=
  match source.bind (·.getObjectItemCaseSensitive key) with
  | none => s
  | some v => s.set name v

theorem get_copyField_of_ne {name key' : String} (h : key' ≠ name) (source : Option Json)
    (key : String) : (s.copyField name source key).get key' = s.get key' := by
  unfold copyField
  split
  · rfl
  · exact s.get_set_of_ne h _

theorem str_copyField_of_ne {name key' : String} (h : key' ≠ name) (source : Option Json)
    (key : String) : (s.copyField name source key).str key' = s.str key' := by
  rw [str, str, s.get_copyField_of_ne h]

end Keyed

/-! ## The files -/

/-- What a replacement does to the disk. -/
def Lib.Disk.write {α : Type} (d : Disk α) (a : α) : WriteResult → Disk α
  | .failed => d
  | .unsynced => d.put a
  | .written => (d.put a).sync

theorem Lib.Disk.Holds.write {α : Type} {d : Disk α} {P : α → Prop} (h : d.Holds P) {a : α}
    (ha : P a) (w : WriteResult) : (d.write a w).Holds P := by
  cases w with
  | failed => exact h
  | unsynced => exact h.put ha
  | written => exact (h.put ha).sync

theorem Lib.Disk.write_ok {α : Type} (d : Disk α) (a : α) {w : WriteResult} (h : w.ok = true) :
    d.write a w = { visible := a } := by
  cases w with
  | failed | unsynced => cases h
  | written => rfl

/-- session.json of a login: no file, a text that does not parse, a value that is no object,
or an object. -/
inductive LoginFile where
  | missing
  | garbled
  | value
  | object (root : Keyed)

namespace LoginFile

def isFound : LoginFile → Bool
  | missing => false
  | _ => true

/-- enil_session_read: what it parses, `some none` where that is no object. -/
def parsed : LoginFile → Option (Option Keyed)
  | object root => some (some root)
  | value => some none
  | _ => none

end LoginFile

/-! ## Operations -/

inductive CurlCode where
  | ok
  | timedOut
  | other
  deriving DecidableEq

structure LoginReply where
  curl : CurlCode := .ok
  status : Int := 200
  body : List UInt8 := []

/-- A request that was sent, with its reply and what `retired.json` said then. -/
structure LoginCall where
  method : String
  reply : LoginReply
  retired : Bool

structure LoginDir where
  session : Disk LoginFile
  retired : Disk Bool := { visible := false }
  calls : List LoginCall := []

structure KeygenResult where
  publicKey : String
  keyId : Int
  workerRestoreState : Option Json

structure UnwrapResult where
  keys : Json
  workerRestoreState : Option Json

/-- What decides an operation from outside: each looks at the fields it needs. -/
structure LoginOutcome where
  write : WriteResult := .written
  /-- A file cannot be opened or read. -/
  readFails : Bool := false
  /-- `access` fails on a file that is there. -/
  accessFails : Bool := false
  cancelled : Bool := false
  /-- Whether an encoding or another step without files succeeds. -/
  ok : Bool := true
  reply : LoginReply := {}
  newId : String := "login-1"
  keys : Option KeygenResult := none
  unwrapped : Option UnwrapResult := none
  /-- `none` where the certificate cannot be read. -/
  certificate : Option (Option String) := some none
  time : Rat := 0

abbrev Login := Prog LoginDir LoginOutcome

namespace Login

def cancelled : Login Bool := .op fun o d => (o.cancelled, d)

def attempt : Login Bool := .op fun o d => (o.ok, d)

def keygen : Login (Option KeygenResult) := .op fun o d => (o.keys, d)

def unwrapKeychain : Login (Option UnwrapResult) := .op fun o d => (o.unwrapped, d)

/-- enil_session_load_login_certificate. -/
def loadCertificate : Login (Option (Option String)) := .op fun o d => (o.certificate, d)

def time : Login Rat := .op fun o d => (o.time, d)

/-- retired.json is found. -/
def isRetired : Login Bool := .op fun o d => (!o.accessFails && d.retired.visible, d)

/-- enil_session_read. -/
def read : Login (Option (Option Keyed)) := .op fun o d =>
  (if o.readFails then none else d.session.visible.parsed, d)

def isFound : Login Bool := .op fun o d => (!o.accessFails && d.session.visible.isFound, d)

def write (s : Keyed) : Login Bool := .op fun o d =>
  (o.write.ok, { d with session := d.session.write (.object s) o.write })

/-- add_login_id on the object that was read. -/
def addLoginId (s : Keyed) (newId : String) : Option (String × Keyed) :=
  match h : s.get "loginId" with
  | some (.str id) => if id ≠ "" then some (id, s) else none
  | some _ => none
  | none => some (newId, s.concat "loginId" (.str newId) h)

def loginId : Login (Option String) := .op fun o d =>
  match if o.readFails then none else d.session.visible.parsed.join with
  | none => (none, d)
  | some s =>
    match addLoginId s o.newId with
    | none => (none, d)
    | some (id, s') =>
      if ((Json.obj s.root).getObjectItem "loginId").isSome then (some id, d)
      else
        (if o.write.ok then some id else none,
          { d with session := d.session.write (.object s') o.write })

/-- One request of the handshake. -/
def perform (method : String) : Login LoginReply := .op fun o d =>
  (o.reply, { d with calls := d.calls ++ [⟨method, o.reply, d.retired.visible⟩] })

end Login

end Enil
