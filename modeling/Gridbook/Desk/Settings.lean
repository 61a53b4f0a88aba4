import Gridbook.Json.Record

/-!
Settings: texts under keys, kept in the order of the keys, and the file form in which they are saved.
-/
namespace Gridbook

structure Settings where
  entries : List (String × String) := []
  deriving DecidableEq

namespace Settings

def get? (settings : Settings) (key : String) : Option String := settings.entries.lookup key

def insertEntry (key value : String) : List (String × String) → List (String × String)
  | [] => [(key, value)]
  | (other, old) :: entries =>
    if key = other then (key, value) :: entries
    else if key < other then (key, value) :: (other, old) :: entries
    else (other, old) :: insertEntry key value entries

/-- Puts a value under a key, in place of what was there. -/
def insert (settings : Settings) (key value : String) : Settings :=
  ⟨insertEntry key value settings.entries⟩

def ofList (entries : List (String × String)) : Settings :=
  entries.foldl (fun settings (key, value) => settings.insert key value) {}

def fileShape : Json.RecordShape := ⟨["version", "values"], true⟩

def fileVersion : Nat := 1

/-- Both fields may be missing; a version has to be a 32-bit number, whichever it is. -/
def ofJson? (json : Json) : Option Settings :=
  match fileShape.values? json with
  | some [version, values] => do
    if let some version := version then
      let _ ← version.natBelow? (Nat.pow 2 32)
    match values with
    | none => return {}
    | some values => return ofList (← values.mapOf? some Json.text?)
  | _ => none

def toJson (settings : Settings) : Json :=
  .record [
    ("version", .ofNat fileVersion),
    ("values", .record (settings.entries.map fun (key, value) => (key, .ofText value)))]

end Settings
end Gridbook
