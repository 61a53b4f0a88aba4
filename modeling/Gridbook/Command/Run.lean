import Gridbook.Command.Arguments
import Gridbook.Command.SheetFile
import Gridbook.Sheet.Edit
import Gridbook.Sheet.Wire

/-! What each command does, what it prints and how it fails. -/
namespace Gridbook

inductive ExitCode where
  | success
  | usage
  | notFound
  | rejected
  deriving DecidableEq

def ExitCode.number : ExitCode → Nat
  | success => 0
  | usage => 2
  | notFound => 3
  | rejected => 4

inductive CommandError where
  | unreadable (path : Path) (error : FileError)
  | unreadableHistory (path : Path) (error : HistoryError)
  | noSheetName (path : Path)
  | noTable (name : String)
  | noField (table field : String)
  | noFields (table : String)
  | rejected (rejected : Rejected)
  deriving DecidableEq

namespace CommandError

def message : CommandError → String
  | unreadable path error => "failed to read " ++ path.text ++ ": " ++ error.message
  | unreadableHistory path error => "failed to read " ++ path.text ++ ": " ++ error.message
  | noSheetName path => "cannot derive a sheet name from " ++ path.text
  | noTable name => "table " ++ name ++ " not found"
  | noField table field => "field [" ++ field ++ "] not found in table " ++ table
  | noFields table => "table " ++ table ++ " has no fields"
  | rejected rejection => rejection.message

def code : CommandError → ExitCode
  | unreadable _ _ | unreadableHistory _ _ | noSheetName _ => .usage
  | noTable _ | noField _ _ | noFields _ => .notFound
  | rejected _ => .rejected

end CommandError

/-- What a command leaves behind, its files apart. -/
structure Outcome where
  code : ExitCode
  stdout : String
  stderr : String
  deriving DecidableEq

namespace Outcome

def ofResult : Except CommandError String → Outcome
  | .ok stdout => ⟨.success, stdout, ""⟩
  | .error error => ⟨error.code, "", "error: " ++ error.message ++ "\n"⟩

def version : Outcome := ⟨.success, "qgrid 0.10.0\n", ""⟩

end Outcome

namespace Command

variable {m : Type → Type} [Monad m] [MonadLog m] [MonadFiles m]

def print (json : Json) : String := json.layout ++ "\n"

/-- Reads a sheet file and looks something up in it. -/
def lookUp (file : Path) (find : String → Except CommandError Json) : m (Except CommandError String) := do
  match ← MonadFiles.readText file with
  | .error error => return .error (.unreadable file error)
  | .ok text => return (find text).map print

def tableNames (file : Path) : m (Except CommandError String) := do
  match ← MonadFiles.readText file with
  | .error error => return .error (.unreadable file error)
  | .ok text =>
    let sheet := Sheet.read text
    sheet.diagnostics.forM fun d =>
      warn (file.text ++ ": offset " ++ Nat.repr d.offset ++ ": " ++ d.problem.message)
    return .ok (print (.ofList .ofText sheet.tableNames))

def orFail (error : CommandError) : Option Json → Except CommandError Json
  | some json => .ok json
  | none => .error error

def defaultTitle (t f : String) : String := "Add field [" ++ f ++ "] to " ++ t

/-- Writes a sheet with one more field back beside its file, and records the change. -/
def appendTo (file : Path) (t f expression : String) (title : Option String) :
    m (Except CommandError String) := do
  match ← MonadFiles.readText file with
  | .error error => return .error (.unreadable file error)
  | .ok text =>
    match SheetFile.sheetName? file with
    | none => return .error (.noSheetName file)
    | some sheet =>
      match Sheet.appendField text t f expression with
      | none => return .error (.noTable t)
      | some content =>
        let receiver : Receiver m := ⟨(SheetWriter.beside file).update, (HistoryLog.forSheet file).append⟩
        match ← (Editor.mk sheet).submit receiver [⟨content, title.getD (defaultTitle t f), none⟩] with
        | .ok () => return .ok ""
        | .error rejection => return .error (.rejected rejection)

def showHistory (file : Path) : m (Except CommandError String) := do
  let log := HistoryLog.forSheet file
  match ← log.records with
  | .error error => return .error (.unreadableHistory log.path error)
  | .ok records => return .ok (print (.ofList Wire.toJson records))

def listFolder (folder : Path) (filterName : String) (hidden : Bool) : m (Except CommandError String) := do
  match ← MonadFiles.list folder with
  | .error error => return .error (.unreadable folder error)
  | .ok entries =>
    let items := entries.map fun (name, isFolder) => DashboardItem.mk name (if isFolder then .folder else .file)
    let sorted := items.mergeSort fun a b => a.name ≤ b.name
    let filter := DashboardFilter.read filterName
    filter.log.forM MonadLog.log
    return .ok (print (.ofList Wire.toJson (filter.value.apply hidden sorted)))

def run : Command → m (Except CommandError String)
  | .tables file => tableNames file
  | .table file name => lookUp file fun text =>
    orFail (.noTable name) (((Sheet.read text).table? name).map Table.toJson)
  | .field file t f => lookUp file fun text =>
    orFail (.noField t f) (((Sheet.read text).field? t f).map Field.toJson)
  | .lastField file t => lookUp file fun text =>
    orFail (.noFields t) (((Sheet.read text).lastField? t).map Field.toJson)
  | .addField file t f expression title => appendTo file t f expression title
  | .history file => showHistory file
  | .list folder filter hidden => listFolder folder filter hidden

end Command
end Gridbook
