/-!
The layout of panels: on which side each is docked and which are active. Unless panels are split, activating one
deactivates the others on its side.
-/
namespace Gridbook

inductive Panel where
  | projectTree
  | inputs
  | codeEditor
  | errors
  | undoRedo
  | chat
  | details
  deriving DecidableEq

namespace Panel

def all : List Panel := [projectTree, inputs, codeEditor, errors, undoRedo, chat, details]

def name : Panel → String
  | projectTree => "projectTree"
  | inputs => "inputs"
  | codeEditor => "codeEditor"
  | errors => "errors"
  | undoRedo => "undoRedo"
  | chat => "chat"
  | details => "details"

def ofName? (text : String) : Option Panel := all.find? fun p => p.name = text

def label : Panel → String
  | projectTree => "ProjectTree"
  | inputs => "Inputs"
  | codeEditor => "CodeEditor"
  | errors => "Errors"
  | undoRedo => "UndoRedo"
  | chat => "Chat"
  | details => "Details"

def title : Panel → String
  | projectTree => "Project"
  | inputs => "Inputs"
  | codeEditor => "Editor"
  | errors => "Errors"
  | undoRedo => "History"
  | chat => "Chat"
  | details => "Details"

end Panel

inductive Side where
  | left
  | right
  | bottom
  deriving DecidableEq

namespace Side

def all : List Side := [left, right, bottom]

def name : Side → String
  | left => "left"
  | right => "right"
  | bottom => "bottom"

def ofName? (text : String) : Option Side := all.find? fun s => s.name = text

def label : Side → String
  | left => "Left"
  | right => "Right"
  | bottom => "Bottom"

end Side

structure Docking where
  side : Side
  active : Bool
  deriving DecidableEq

structure Layout where
  /-- Panels that are not listed have no docking. -/
  docking? : Panel → Option Docking
  labelsHidden : Bool
  split : Bool
  expandedSide : Option Side

namespace Layout

def initial : Layout where
  docking?
    | .projectTree => some ⟨.left, true⟩
    | .inputs => some ⟨.left, false⟩
    | .codeEditor => some ⟨.right, true⟩
    | .undoRedo => some ⟨.right, false⟩
    | .chat => some ⟨.right, false⟩
    | .errors => some ⟨.bottom, false⟩
    | .details => some ⟨.bottom, false⟩
  labelsHidden := false
  split := false
  expandedSide := none

/-- A panel that is not listed counts as docked on the right and not active. -/
def panel (layout : Layout) (p : Panel) : Docking :=
  (layout.docking? p).getD ⟨.right, false⟩

def panelsAt (layout : Layout) (side : Side) : List Panel :=
  Panel.all.filter fun p => (layout.docking? p).any (·.side = side)

def put (layout : Layout) (p : Panel) (docking : Docking) : Layout :=
  { layout with docking? := fun q => if q = p then some docking else layout.docking? q }

/-- The others on a side are no longer active. -/
def quiet (layout : Layout) (side : Side) : Layout :=
  { layout with docking? := fun q =>
      (layout.docking? q).map fun d => if d.side = side then { d with active := false } else d }

def activate (layout : Layout) (p : Panel) : Layout :=
  let side := (layout.panel p).side
  (if layout.split then layout else layout.quiet side).put p ⟨side, true⟩

def togglePanel (layout : Layout) (p : Panel) : Layout :=
  let docking := layout.panel p
  if docking.active then layout.put p { docking with active := false } else layout.activate p

/-- Docks a panel on a side; one that was active is activated there. -/
def changeSide (layout : Layout) (p : Panel) (side : Side) : Layout :=
  let docked := layout.put p ⟨side, false⟩
  if (layout.panel p).active then docked.activate p else docked

/-- Expands the side of a panel, or restores it. -/
def toggleExpand (layout : Layout) (p : Panel) : Layout :=
  let side := (layout.panel p).side
  { layout with expandedSide := if layout.expandedSide = some side then none else some side }

end Layout
end Gridbook
