import Gridbook.Batch.History
import Gridbook.Log

/-!
Batches of edits. A batch goes to the receiver in one call; only if the receiver accepts it is history recorded, one
record for each title.
-/
namespace Gridbook

/-- New content for a sheet. Without a sheet it is meant for the editor's own; without a title it is not recorded. -/
structure Edit where
  content : String
  title : String
  sheet : Option String := none
  deriving DecidableEq

structure Rejected where
  sheets : List String
  deriving DecidableEq

def joinNames (names : List String) : String := ", ".intercalate names

def Rejected.message (rejected : Rejected) : String :=
  "sheet update rejected for: " ++ joinNames rejected.sheets

/-- Every sheet that is written ends in a line break. -/
def terminate (content : String) : String :=
  if ['\r', '\n'].isSuffixOf content.toList then content else content ++ "\r\n"

/-- Where a batch goes. -/
structure Receiver (m : Type → Type) where
  /-- Whether the contents were accepted. -/
  update : List SheetChange → m Bool
  record : HistoryRecord → m Unit

structure Editor where
  /-- The sheet of edits that name none. -/
  sheet : String
  deriving DecidableEq

namespace Editor

def address (editor : Editor) (edit : Edit) : TitledChange :=
  ⟨edit.title, edit.sheet.getD editor.sheet, terminate edit.content⟩

def submit [Monad m] [MonadLog m] (editor : Editor) (receiver : Receiver m) (batch : List Edit) :
    m (Except Rejected Unit) := do
  if batch.isEmpty then
    debug "DSL edit batch is empty, nothing to apply"
    return .ok ()
  let titled := batch.map editor.address
  debug ("Updating " ++ Nat.repr titled.length ++ " sheet(s)")
  if ← receiver.update (titled.map (·.change)) then
    (HistoryRecord.group titled).forM receiver.record
    return .ok ()
  else
    let sheets := titled.map (·.change.sheet)
    warn ("Sheet update rejected, history not recorded (" ++ joinNames sheets ++ ")")
    return .error ⟨sheets⟩

end Editor
end Gridbook
