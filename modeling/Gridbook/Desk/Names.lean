/-! The modes of the desk and their names. -/
namespace Gridbook

inductive ChatPlacement where
  | panel
  | floating
  deriving DecidableEq

namespace ChatPlacement

def name : ChatPlacement → String
  | panel => "panel"
  | floating => "floating"

def ofName? (text : String) : Option ChatPlacement := [panel, floating].find? fun p => p.name = text

def toggled : ChatPlacement → ChatPlacement
  | panel => floating
  | floating => panel

end ChatPlacement

inductive FormulaBarMode where
  | formula
  | value
  deriving DecidableEq

/-- What the cell editor is editing. -/
inductive EditMode where
  | emptyCell
  | renameTable
  | renameField
  | addField
  | editDimExpression
  | editFieldExpression
  | editCellExpression
  | addTotal
  | editTotal
  | editOverride
  | addOverride
  deriving DecidableEq

namespace EditMode

def all : List EditMode :=
  [emptyCell, renameTable, renameField, addField, editDimExpression, editFieldExpression, editCellExpression,
    addTotal, editTotal, editOverride, addOverride]

def label : EditMode → String
  | emptyCell => "EmptyCell"
  | renameTable => "RenameTable"
  | renameField => "RenameField"
  | addField => "AddField"
  | editDimExpression => "EditDimExpression"
  | editFieldExpression => "EditFieldExpression"
  | editCellExpression => "EditCellExpression"
  | addTotal => "AddTotal"
  | editTotal => "EditTotal"
  | editOverride => "EditOverride"
  | addOverride => "AddOverride"

/-- Names and new fields cannot be pointed at. -/
def allowsPointClick : EditMode → Bool
  | renameTable | renameField | addField => false
  | _ => true

end EditMode

/-- An editor that can start point-click mode or open the formulas menu. -/
inductive EditorKind where
  | cellEditor
  | formulaBar
  | codeEditor
  deriving DecidableEq

inductive ViewportMode where
  | select
  | pan
  deriving DecidableEq

inductive PivotMode where
  | create
  | edit
  deriving DecidableEq

end Gridbook
