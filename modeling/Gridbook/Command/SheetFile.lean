import Gridbook.Batch.Editor
import Gridbook.Command.Files
import Gridbook.Text.Blank
import Gridbook.Wire

/-!
Sheets as files: one sheet to a file, all in one folder with one extension, and beside a sheet file the log of its
history, one record to a line.
-/
namespace Gridbook

namespace SheetFile

/-- The sheet that a file holds is named by its stem. -/
def sheetName? (path : Path) : Option String :=
  path.stem?.filter fun name => !name.isEmpty

end SheetFile

/-- Writes sheets into a folder. -/
structure SheetWriter where
  folder : Path
  extension : String
  deriving DecidableEq

namespace SheetWriter

def beside (sheet : Path) : SheetWriter :=
  ⟨sheet.parent?.getD ⟨"."⟩, sheet.extension?.getD "qg"⟩

def pathFor (writer : SheetWriter) (sheet : String) : Path :=
  writer.folder.join (sheet ++ "." ++ writer.extension)

variable {m : Type → Type} [Monad m] [MonadLog m] [MonadFiles m]

/-- Writes changes in their order, up to the first that fails. -/
def update (writer : SheetWriter) : List SheetChange → m Bool
  | [] => return true
  | change :: changes => do
    let path := writer.pathFor change.sheet
    match ← MonadFiles.writeText path change.content with
    | .ok () =>
      debug ("Wrote " ++ path.text)
      update writer changes
    | .error error =>
      warn ("Failed to write " ++ path.text ++ ": " ++ error.message)
      return false

end SheetWriter

structure HistoryLog where
  path : Path
  deriving DecidableEq

/-- Why a history cannot be read. -/
inductive HistoryError where
  | file (error : FileError)
  | malformed
  deriving DecidableEq

def HistoryError.message : HistoryError → String
  | file error => error.message
  | malformed => "<json error>"

namespace HistoryLog

def forSheet (sheet : Path) : HistoryLog := ⟨⟨sheet.text ++ ".history.jsonl"⟩⟩

def line (entry : HistoryRecord) : String := Wire.write entry ++ "\n"

/-- The records of a log; blank lines do not count. -/
def parse? (text : String) : Option (List HistoryRecord) :=
  let lines := (text.toList.splitOn '\n').filter fun line => !(Text.trim line).isEmpty
  lines.mapM fun line => Wire.read? (String.ofList line)

variable {m : Type → Type} [Monad m] [MonadLog m] [MonadFiles m]

def append (log : HistoryLog) (entry : HistoryRecord) : m Unit := do
  match ← MonadFiles.appendText log.path (line entry) with
  | .ok () => return ()
  | .error error => warn ("Failed to append history to " ++ log.path.text ++ ": " ++ error.message)

/-- A log that is not there is empty. -/
def records (log : HistoryLog) : m (Except HistoryError (List HistoryRecord)) := do
  match ← MonadFiles.readText log.path with
  | .error .notFound => return .ok []
  | .error error => return .error (.file error)
  | .ok text =>
    match parse? text with
    | some found => return .ok found
    | none => return .error .malformed

end HistoryLog
end Gridbook
