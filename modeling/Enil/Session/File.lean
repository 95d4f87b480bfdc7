import Enil.Json.Basic

/-!
# The session file

`session.json` by the fields of the object it holds; a file that is missing,
unreadable or holds no object is `none`. A write replaces the file by renaming a
finished copy over it.
-/

namespace Enil

abbrev Fields := List (String × Json)

namespace Fields

variable (fs : Fields)

def get (key : String) : Option Json := (Json.obj fs).getObjectItemCaseSensitive key

def delete (key : String) : Fields := fs.eraseP fun f => f.1 == key

/-- The item deleted and added again at the end. -/
def put (item : String × Json) : Fields := delete fs item.1 ++ [item]

end Fields

/-- session_write_locked: a failure before the rename leaves the file, one of the
directory sync after it reports a failure with the new file in place. -/
inductive WriteResult where
  | failed
  | unsynced
  | written
  deriving DecidableEq, Repr

namespace WriteResult

def ok : WriteResult → Bool
  | written => true
  | _ => false

/-- Whether the new file is in place. -/
def visible : WriteResult → Bool
  | failed => false
  | _ => true

end WriteResult

/-- The result of a write and the file after it. -/
def sessionWrite (file : Option Fields) (next : Fields) (w : WriteResult) :
    Bool × Option Fields :=
  (w.ok, if w.visible then some next else file)

def sessionPatch (file : Option Fields) (patch : Fields) (w : WriteResult) :
    Bool × Option Fields :=
  match file with
  | none => (false, none)
  | some fs => sessionWrite file (patch.foldl Fields.put fs) w

end Enil
