import Gridbook.File.Location
import Gridbook.File.Path

/-!
A disk: folders and files by their place, and what the operations on paths do to it or why they fail. A file is opened
before it is filled, and a write that fails after that has changed the file.
-/
namespace Gridbook

/-- Why a file operation fails. -/
inductive FileError where
  | notFound
  | denied
  | alreadyExists
  | notAFolder
  | isAFolder
  | noSpace
  | nameTooLong
  | nullInName
  | notText
  | other (message : String)
  deriving DecidableEq

def FileError.message : FileError → String
  | notFound => "No such file or directory (os error 2)"
  | denied => "Permission denied (os error 13)"
  | alreadyExists => "File exists (os error 17)"
  | notAFolder => "Not a directory (os error 20)"
  | isAFolder => "Is a directory (os error 21)"
  | noSpace => "No space left on device (os error 28)"
  | nameTooLong => "File name too long (os error 36)"
  | nullInName => "file name contained an unexpected NUL byte"
  | notText => "stream did not contain valid UTF-8"
  | other message => message

/-- A file holds a text, or bytes that are not UTF-8. -/
inductive Content where
  | text (text : String)
  | bytes (bytes : List UInt8)
  deriving DecidableEq

namespace Content

def ofBytes (bytes : List UInt8) : Content :=
  match String.fromUTF8? ⟨bytes.toArray⟩ with
  | some decoded => text decoded
  | none => .bytes bytes

def toBytes : Content → List UInt8
  | text decoded => decoded.toUTF8.data.toList
  | bytes raw => raw

def size (content : Content) : Nat := content.toBytes.length

/-- A text behind bytes that are no text does not make them one. -/
def append (content : Content) (more : String) : Content :=
  match content with
  | text old => text (old ++ more)
  | .bytes old => .bytes (old ++ (text more).toBytes)

/-- Of a text that does not fit behind the content, the bytes that do are written before that shows. -/
def grow (content : Content) (limit : Option Nat) (more : String) : Content × Except FileError Unit :=
  match limit with
  | none => (content.append more, .ok ())
  | some limit =>
    let room := limit - content.size
    if more.utf8ByteSize ≤ room then (content.append more, .ok ())
    else (ofBytes (content.toBytes ++ (text more).toBytes.take room), .error .noSpace)

end Content

inductive Entry where
  | folder
  | file (content : Content)
  deriving DecidableEq

structure Disk where
  entries : List (Location × Entry) := []
  /-- Files that refuse to be written. -/
  locked : List Location := []
  /-- The most bytes that some files can hold. They can be opened all the same. -/
  limits : List (Location × Nat) := []
  /-- Where relative paths start. -/
  cwd : Location := .root
  deriving DecidableEq

/-- Whether a file that is opened loses what it holds, or is written behind it. -/
inductive WriteMode where
  | replace
  | append
  deriving DecidableEq

def WriteMode.kept : WriteMode → Option Content → Content
  | append, some content => content
  | _, _ => .text ""

namespace Disk

def entry? (disk : Disk) (location : Location) : Option Entry :=
  if location = .root then some .folder else disk.entries.lookup location

def put (disk : Disk) (location : Location) (entry : Entry) : Disk :=
  { disk with entries := (location, entry) :: disk.entries.filter fun (other, _) => other ≠ location }

/-- A name has at most 255 bytes. -/
def step (location : Location) : PathStep → Except FileError Location
  | .here => .ok location
  | .up => .ok location.above
  | .into name => if name.utf8ByteSize ≤ 255 then .ok (location.child name) else .error .nameTooLong

/-- Every place that is left has to be a folder. -/
def walk (disk : Disk) (location : Location) : List PathStep → Except FileError Location
  | [] => .ok location
  | move :: moves =>
    match disk.entry? location with
    | none => .error .notFound
    | some (.file _) => .error .notAFolder
    | some .folder =>
      match step location move with
      | .ok next => walk disk next moves
      | .error error => .error error

def start (disk : Disk) (path : Path) : Location := if path.isAbsolute then .root else disk.cwd

/-- What is wrong with a path before anything is looked up. A path has at most 4095 bytes. -/
def refusal? (path : Path) : Option FileError :=
  if path.hasNull then some .nullInName
  else if path.text.isEmpty then some .notFound
  else if path.text.utf8ByteSize ≤ 4095 then none
  else some .nameTooLong

/-- The place that a path leads to, which need not be taken. -/
def locate (disk : Disk) (path : Path) : Except FileError Location :=
  match refusal? path with
  | some error => .error error
  | none => disk.walk (disk.start path) path.steps

/-- The folder that the last move of a path starts from. -/
def locateFolder (disk : Disk) (path : Path) : Except FileError Location :=
  match refusal? path with
  | some error => .error error
  | none => disk.walk (disk.start path) (path.steps.dropLast ++ [.here])

def readText (disk : Disk) (path : Path) : Except FileError String := do
  match disk.entry? (← disk.locate path) with
  | none => .error .notFound
  | some .folder => .error .isAFolder
  | some (.file content) =>
    if path.endsInSlash then .error .notAFolder
    else
      match content with
      | .text text => .ok text
      | .bytes _ => .error .notText

/-- The place of a file to write, and what it holds. A slash at the end is refused before the last name is looked at. -/
def openToWrite (disk : Disk) (path : Path) : Except FileError (Location × Option Content) := do
  if path.endsInSlash then
    let _ ← disk.locateFolder path
    .error .isAFolder
  else
    let location ← disk.locate path
    match disk.entry? location with
    | some .folder => .error .isAFolder
    | some (.file content) => if location ∈ disk.locked then .error .denied else .ok (location, some content)
    | none => if location ∈ disk.locked then .error .denied else .ok (location, none)

/-- Makes a file that is not there, and empties one that is to be replaced. -/
def openFile (disk : Disk) (mode : WriteMode) (path : Path) : Except FileError (Disk × Location) := do
  let (location, old) ← disk.openToWrite path
  return (disk.put location (.file (mode.kept old)), location)

/-- Writes behind what an open file holds. -/
def fill (disk : Disk) (location : Location) (text : String) : Disk × Except FileError Unit :=
  match disk.entry? location with
  | some (.file held) =>
    let (grown, result) := held.grow (disk.limits.lookup location) text
    (disk.put location (.file grown), result)
  | _ => (disk, .error .notFound)

/-- What opening the file and the first bytes have changed stays when the rest fails. -/
def write (disk : Disk) (mode : WriteMode) (path : Path) (text : String) : Disk × Except FileError Unit :=
  match disk.openFile mode path with
  | .ok (opened, location) => opened.fill location text
  | .error error => (disk, .error error)

def writeText (disk : Disk) (path : Path) (text : String) : Disk × Except FileError Unit := disk.write .replace path text

def appendText (disk : Disk) (path : Path) (text : String) : Disk × Except FileError Unit := disk.write .append path text

/-- The names in a folder, with whether they are folders. -/
def list (disk : Disk) (path : Path) : Except FileError (List (String × Bool)) := do
  let location ← disk.locate path
  match disk.entry? location with
  | none => .error .notFound
  | some (.file _) => .error .notAFolder
  | some .folder =>
    .ok <| disk.entries.filterMap fun (other, entry) =>
      if other.above = location then other.name?.map fun name => (name, entry == .folder) else none

/-- Makes a folder at one move from another one, unless it is there. -/
def makeFolder (disk : Disk) (above : Location) (last : PathStep) : Except FileError (Disk × Location) := do
  match disk.entry? above with
  | none => .error .notFound
  | some (.file _) => .error .notAFolder
  | some .folder =>
    let location ← step above last
    match disk.entry? location with
    | none => .ok (disk.put location .folder, location)
    | some .folder => .ok (disk, location)
    | some (.file _) => .error .alreadyExists

/-- Makes a folder and those above it that are missing. The moves are given from the last to the first. The longest
way that fails by anything but a missing folder decides; what was made before a failure stays. -/
def makeFoldersFrom (disk : Disk) (start : Location) :
    (reversed : List PathStep) → Disk × Except FileError Location
  | [] => (disk, .ok start)
  | last :: above =>
    match disk.walk start above.reverse >>= fun location => disk.makeFolder location last with
    | .ok (made, location) => (made, .ok location)
    | .error .notFound =>
      match makeFoldersFrom disk start above with
      | (grown, .error error) => (grown, .error error)
      | (grown, .ok location) =>
        match grown.makeFolder location last with
        | .ok (made, location) => (made, .ok location)
        | .error error => (grown, .error error)
    | .error error => (disk, .error error)

def makeFolders (disk : Disk) (path : Path) : Disk × Except FileError Unit :=
  if path.parent?.isNone then (disk, .ok ())
  else
    match refusal? path with
    | some error => (disk, .error error)
    | none =>
      let (made, result) := disk.makeFoldersFrom (disk.start path) (path.steps.filter (· ≠ .here)).reverse
      (made, result.map fun _ => ())

end Disk
end Gridbook
