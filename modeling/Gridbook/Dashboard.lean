import Gridbook.Log
import Gridbook.Text.Quoted

/-! The dashboard: files and folders under a filter. -/
namespace Gridbook

inductive DashboardKind where
  | folder
  | file
  deriving DecidableEq

namespace DashboardKind

def name : DashboardKind → String
  | folder => "folder"
  | file => "file"

def ofName? (text : String) : Option DashboardKind := [folder, file].find? fun k => k.name = text

end DashboardKind

structure DashboardItem where
  name : String
  kind : DashboardKind
  deriving DecidableEq

namespace DashboardItem

/-- What stands behind the last dot of a name, if something stands before it. -/
def ending? (name : List Char) : Option (List Char) :=
  match name.reverse.dropWhile (· != '.') with
  | [] | [_] => none
  | _ => some (name.reverse.takeWhile (· != '.')).reverse

/-- Letters of an ending count in either case. -/
def hasEnding (item : DashboardItem) (ending : List Char) : Bool :=
  item.kind = .file && (ending? item.name.toList).any fun e => e.map Char.toLower = ending

def isProject (item : DashboardItem) : Bool := item.hasEnding ['q', 'g']

def isHidden (item : DashboardItem) : Bool := item.name.toList.head? = some '.'

end DashboardItem

inductive DashboardFilter where
  | all
  | folders
  | projects
  | files
  | csvFiles
  deriving DecidableEq

namespace DashboardFilter

def list : List DashboardFilter := [all, folders, projects, files, csvFiles]

def name : DashboardFilter → String
  | all => "all"
  | folders => "folders"
  | projects => "projects"
  | files => "files"
  | csvFiles => "csvFiles"

def label : DashboardFilter → String
  | all => "All types"
  | folders => "Folders"
  | projects => "Projects"
  | files => "Files"
  | csvFiles => "CSV files"

def ofName? (text : String) : Option DashboardFilter := list.find? fun f => f.name = text

/-- An unknown name selects everything. -/
def read (text : String) : Logged DashboardFilter :=
  match ofName? text with
  | some filter => pure filter
  | none => do
    debug ("Unknown dashboard filter " ++ Text.quoted text ++ ", showing all")
    return all

def accepts (item : DashboardItem) : DashboardFilter → Bool
  | all => true
  | folders => item.kind = .folder
  | projects => item.isProject
  | files => item.kind = .file && !item.isProject
  | csvFiles => item.hasEnding ['c', 's', 'v']

/-- The items to show. Hidden ones are left out unless they are asked for. -/
def apply (filter : DashboardFilter) (showHidden : Bool) (items : List DashboardItem) : List DashboardItem :=
  items.filter fun item => (showHidden || !item.isHidden) && filter.accepts item

end DashboardFilter
end Gridbook
