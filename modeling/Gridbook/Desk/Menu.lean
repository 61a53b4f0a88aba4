import Gridbook.Desk.Layout

/-! Menus. An item carries the action that choosing it performs. -/
namespace Gridbook

inductive MenuIcon where
  | chatLogo
  | arrowNarrowUp
  | arrowAlt
  | leftPosition
  | rightPosition
  | bottomPosition
  | typography
  | typographyOff
  | columns
  | minimizePanel
  deriving DecidableEq

inductive MenuAction where
  | moveChatToWindow
  | toggleExpand (panel : Panel)
  | changeSide (panel : Panel) (side : Side)
  | setLabelsHidden (on : Bool)
  | setSplit (on : Bool)
  | togglePanel (panel : Panel)
  | setAiEditPending (on : Bool)
  deriving DecidableEq

def MenuAction.label : MenuAction → String
  | moveChatToWindow => "MoveChatToWindow"
  | toggleExpand panel => "ToggleExpandPanel(" ++ panel.label ++ ")"
  | changeSide panel side => "ChangePanelPosition(" ++ panel.label ++ ", " ++ side.label ++ ")"
  | setLabelsHidden on => "SetCollapsedPanelsTextHidden(" ++ truth on ++ ")"
  | setSplit on => "SetPanelsSplitEnabled(" ++ truth on ++ ")"
  | togglePanel panel => "TogglePanel(" ++ panel.label ++ ")"
  | setAiEditPending on => "SetAIEditPendingChanges(" ++ truth on ++ ")"
where
  truth (on : Bool) : String := if on then "true" else "false"

structure MenuItem where
  key : String
  label : String
  icon : Option MenuIcon
  action : MenuAction
  deriving DecidableEq

inductive MenuEntry where
  | item (item : MenuItem)
  | divider
  deriving DecidableEq

namespace MenuEntry

def actionFor? (entries : List MenuEntry) (key : String) : Option MenuAction :=
  entries.findSome? fun
    | item i => if i.key = key then some i.action else none
    | divider => none

end MenuEntry

namespace Menu

def chatItems (panel : Panel) : List MenuEntry :=
  if panel = .chat then [.item ⟨"move-chat", "Move Chat to Window", some .chatLogo, .moveChatToWindow⟩] else []

def collapsedItems (layout : Layout) (panel : Panel) (collapsed : Bool) : List MenuEntry :=
  if collapsed then
    let label := if (layout.panel panel).active then "Collapse" else "Expand"
    [.item ⟨"expand", label, some .minimizePanel, .togglePanel panel⟩, .divider]
  else []

def expandItem (layout : Layout) (panel : Panel) (title : String) (side : Side) : MenuEntry :=
  if layout.expandedSide = some side then
    .item ⟨"expand-collapse", "Restore " ++ title, some .arrowNarrowUp, .toggleExpand panel⟩
  else .item ⟨"expand-collapse", "Expand " ++ title, some .arrowAlt, .toggleExpand panel⟩

def sideIcon : Side → MenuIcon
  | .left => .leftPosition
  | .right => .rightPosition
  | .bottom => .bottomPosition

def sideItems (panel : Panel) : List MenuEntry :=
  Side.all.map fun side => .item ⟨side.name, side.label, some (sideIcon side), .changeSide panel side⟩

def labelsItem (hidden : Bool) : MenuEntry :=
  if hidden then .item ⟨"hideText", "Show labels", some .typography, .setLabelsHidden false⟩
  else .item ⟨"hideText", "Hide labels", some .typographyOff, .setLabelsHidden true⟩

def splitItem (split : Bool) : MenuEntry :=
  .item ⟨"split", if split then "Merge panels" else "Split panels", some .columns, .setSplit !split⟩

/-- The settings of a panel, as its header shows them. -/
def panelSettings (layout : Layout) (panel : Panel) (title : String) (side : Side) (collapsed : Bool) :
    List MenuEntry :=
  chatItems panel ++ collapsedItems layout panel collapsed ++
    [expandItem layout panel title side, .divider] ++ sideItems panel ++
    [.divider, labelsItem layout.labelsHidden, splitItem layout.split]

/-- The menu of the banner for pending changes. -/
def pendingChanges (pending : Bool) : List MenuEntry :=
  [.item ⟨"editAll", if pending then "Cancel Edit All" else "Allow Edit All", none, .setAiEditPending !pending⟩]

end Menu
end Gridbook
