import Gridbook.Desk.Menu
import Gridbook.Desk.State

/-! The controller: the desk, its layout and the menus that act on them. -/
namespace Gridbook

structure Controller (σ : Type) where
  desk : DeskState σ
  layout : Layout
  aiEditPending : Bool

/-- What a user can do. -/
inductive UserAction where
  | desk (action : DeskAction)
  | select (panel : Panel) (collapsed : Bool) (key : String)
  | selectPending (key : String)
  | dispatch (action : MenuAction)
  deriving DecidableEq

namespace Controller

variable {σ : Type} [SettingsStore σ]

def start (store : σ) : Logged (Controller σ) := do
  return ⟨← DeskState.load store, .initial, false⟩

def panelMenu (ui : Controller σ) (panel : Panel) (collapsed : Bool) : List MenuEntry :=
  Menu.panelSettings ui.layout panel panel.title (ui.layout.panel panel).side collapsed

def pendingMenu (ui : Controller σ) : List MenuEntry :=
  Menu.pendingChanges ui.aiEditPending

def dispatch (ui : Controller σ) (action : MenuAction) : Logged (Controller σ) := do
  debug ("Menu action: " ++ action.label)
  match action with
  | .moveChatToWindow => return { ui with desk := ← ui.desk.toggleChatPlacement }
  | .toggleExpand panel => return { ui with layout := ui.layout.toggleExpand panel }
  | .changeSide panel side => return { ui with layout := ui.layout.changeSide panel side }
  | .setLabelsHidden labelsHidden => return { ui with layout := { ui.layout with labelsHidden } }
  | .setSplit split => return { ui with layout := { ui.layout with split } }
  | .togglePanel panel => return { ui with layout := ui.layout.togglePanel panel }
  | .setAiEditPending aiEditPending => return { ui with aiEditPending }

/-- Performs the action of the item with that key; other keys do nothing. -/
def select (ui : Controller σ) (entries : List MenuEntry) (key : String) : Logged (Controller σ) :=
  match MenuEntry.actionFor? entries key with
  | some action => ui.dispatch action
  | none => do
    debug ("No menu item for key " ++ Text.quoted key)
    return ui

def perform (ui : Controller σ) : UserAction → Logged (Controller σ × Except InvalidZoom Unit)
  | .desk action => do
    let (desk, result) ← ui.desk.perform action
    return ({ ui with desk }, result)
  | .select panel collapsed key => do return (← ui.select (ui.panelMenu panel collapsed) key, .ok ())
  | .selectPending key => do return (← ui.select ui.pendingMenu key, .ok ())
  | .dispatch action => do return (← ui.dispatch action, .ok ())

end Controller
end Gridbook
