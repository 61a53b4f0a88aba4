import Gridbook.Colour.Theme
import Gridbook.Desk.Names
import Gridbook.Desk.Store
import Gridbook.Number.Shortest
import Gridbook.Text.Quoted

/-!
The state of the desk. Zoom, theme, chat placement and hidden files are persisted in a store at every change and
read back from it at the start; what is not recognised there falls back to its default.
-/
namespace Gridbook

open Number (Double)

namespace Zoom

/-- The steps of the zoom, in order. -/
def steps : List Double :=
  [.ofRatio false 1 2, .ofRatio false 3 4, .ofRatio false 1 1, .ofRatio false 5 4, .ofRatio false 3 2,
    .ofRatio false 2 1]

def normal : Double := .ofRatio false 1 1

end Zoom

structure InvalidZoom where
  zoom : Double
  deriving DecidableEq

def InvalidZoom.message (invalid : InvalidZoom) : String := "invalid zoom value: " ++ invalid.zoom.text

namespace SettingKey

def zoom : String := "zoom"
def theme : String := "app-theme"
def chatPlacement : String := "chat-window-placement"
def showHiddenFiles : String := "show-hidden-files"

end SettingKey

structure DeskState (σ : Type) where
  store : σ
  zoom : Double
  theme : AppTheme
  loading : Bool
  chatOpen : Bool
  chatPlacement : ChatPlacement
  formulaBarMode : FormulaBarMode
  formulaBarExpanded : Bool
  editMode : Option EditMode
  pointClick : Bool
  pointClickSource : Option EditorKind
  formulasMenuPlacement : Option (Double × Double)
  formulasMenuTrigger : Option EditorKind
  showHiddenFiles : Bool
  viewport : ViewportMode
  pivotMode : Option PivotMode
  pivotTable : Option String

namespace DeskState

def readZoom : Option String → Logged Double
  | none => pure Zoom.normal
  | some raw =>
    match Double.read? raw with
    | some zoom => if zoom ∈ Zoom.steps then pure zoom else ignored raw
    | none => ignored raw
where
  ignored (raw : String) : Logged Double := do
    warn ("Ignoring stored zoom " ++ Text.quoted raw)
    return Zoom.normal

/-- An unknown name selects the default theme. -/
def readTheme (name : String) : Logged AppTheme :=
  match AppTheme.read name with
  | .ok theme => pure theme
  | .error unknown => do
    warn (unknown.message ++ ", using default theme")
    return .light

def readStoredTheme : Option String → Logged AppTheme
  | none => pure .light
  | some raw => readTheme raw

def readChatPlacement : Option String → Logged ChatPlacement
  | none => pure .panel
  | some raw =>
    match ChatPlacement.ofName? raw with
    | some placement => pure placement
    | none => do
      warn ("Ignoring stored chat placement " ++ Text.quoted raw)
      return .panel

variable {σ : Type} [SettingsStore σ]

def load (store : σ) : Logged (DeskState σ) := do
  let zoom ← readZoom (SettingsStore.get? store SettingKey.zoom)
  let theme ← readStoredTheme (SettingsStore.get? store SettingKey.theme)
  let chatPlacement ← readChatPlacement (SettingsStore.get? store SettingKey.chatPlacement)
  return {
    store, zoom, theme, chatPlacement
    loading := true
    chatOpen := false
    formulaBarMode := .formula
    formulaBarExpanded := false
    editMode := none
    pointClick := false
    pointClickSource := none
    formulasMenuPlacement := none
    formulasMenuTrigger := none
    showHiddenFiles := SettingsStore.get? store SettingKey.showHiddenFiles = some "true"
    viewport := .select
    pivotMode := none
    pivotTable := none }

def persist (state : DeskState σ) (key value : String) : Logged (DeskState σ) := do
  let store ← SettingsStore.set state.store key value
  return { state with store }

/-- Sets the zoom to one of its steps; any other value is refused. -/
def updateZoom (state : DeskState σ) (zoom : Double) : Logged (Except InvalidZoom (DeskState σ)) :=
  if zoom ∈ Zoom.steps then do return .ok (← persist { state with zoom } SettingKey.zoom zoom.text)
  else pure (.error ⟨zoom⟩)

/-- Moves the zoom by a number of steps, unless that leads past either end. -/
def wheel (state : DeskState σ) (direction : Int) : Logged (DeskState σ) :=
  match Zoom.steps.idxOf? state.zoom with
  | none => pure state
  | some current =>
    match Int.ofNat current + direction with
    | .negSucc _ => pure state
    | .ofNat next =>
      match Zoom.steps[next]? with
      | none => pure state
      | some zoom => persist { state with zoom } SettingKey.zoom zoom.text

def updateTheme (state : DeskState σ) (name : String) : Logged (DeskState σ) := do
  let theme ← readTheme name
  persist { state with theme } SettingKey.theme theme.name

/-- A chat that starts to float is opened; one that is docked is closed. -/
def toggleChatPlacement (state : DeskState σ) : Logged (DeskState σ) :=
  let placement := state.chatPlacement.toggled
  persist { state with chatPlacement := placement, chatOpen := placement = .floating }
    SettingKey.chatPlacement placement.name

def switchShowHiddenFiles (state : DeskState σ) (shown : Bool) : Logged (DeskState σ) :=
  persist { state with showHiddenFiles := shown } SettingKey.showHiddenFiles (if shown then "true" else "false")

/-- Leaves point-click mode if the edit mode does not accept it. -/
def enforcePointClick (state : DeskState σ) : Logged (DeskState σ) :=
  match state.editMode with
  | none => pure state
  | some mode =>
    if state.pointClick && !mode.allowsPointClick then do
      debug (mode.label ++ " does not accept point-click, leaving point-click mode")
      return { state with pointClick := false, pointClickSource := none }
    else pure state

def setEditMode (state : DeskState σ) (editMode : Option EditMode) : Logged (DeskState σ) :=
  enforcePointClick { state with editMode }

def switchPointClick (state : DeskState σ) (on : Bool) (source : Option EditorKind) : Logged (DeskState σ) :=
  enforcePointClick { state with pointClick := on, pointClickSource := if on then source else none }

/-- A table without a name is none. -/
def changePivot (state : DeskState σ) (pivotMode : Option PivotMode) (table : Option String) : DeskState σ :=
  { state with pivotMode, pivotTable := table.filter fun name => !name.isEmpty }

end DeskState

/-- Everything that can be done to the desk. -/
inductive DeskAction where
  | updateZoom (zoom : Double)
  | wheel (direction : Int)
  | updateTheme (name : String)
  | setLoading (on : Bool)
  | toggleChat
  | toggleChatPlacement
  | setFormulaBarMode (mode : FormulaBarMode)
  | setFormulaBarExpanded (on : Bool)
  | setEditMode (mode : Option EditMode)
  | switchPointClick (on : Bool) (source : Option EditorKind)
  | setFormulasMenu (placement : Option (Double × Double)) (trigger : EditorKind)
  | switchShowHiddenFiles (on : Bool)
  | setViewport (mode : ViewportMode)
  | changePivot (mode : Option PivotMode) (table : Option String)
  deriving DecidableEq

namespace DeskState

variable {σ : Type} [SettingsStore σ]

/-- The state after an action; a refused action leaves it as it was. -/
def perform (state : DeskState σ) : DeskAction → Logged (DeskState σ × Except InvalidZoom Unit)
  | .updateZoom zoom => do
    match ← state.updateZoom zoom with
    | .ok state => return (state, .ok ())
    | .error invalid => return (state, .error invalid)
  | .wheel direction => done (state.wheel direction)
  | .updateTheme name => done (state.updateTheme name)
  | .setLoading loading => done (pure { state with loading })
  | .toggleChat => done (pure { state with chatOpen := !state.chatOpen })
  | .toggleChatPlacement => done state.toggleChatPlacement
  | .setFormulaBarMode formulaBarMode => done (pure { state with formulaBarMode })
  | .setFormulaBarExpanded formulaBarExpanded => done (pure { state with formulaBarExpanded })
  | .setEditMode mode => done (state.setEditMode mode)
  | .switchPointClick on source => done (state.switchPointClick on source)
  | .setFormulasMenu placement trigger =>
    done (pure { state with formulasMenuPlacement := placement, formulasMenuTrigger := some trigger })
  | .switchShowHiddenFiles on => done (state.switchShowHiddenFiles on)
  | .setViewport viewport => done (pure { state with viewport })
  | .changePivot mode table => done (pure (state.changePivot mode table))
where
  done (next : Logged (DeskState σ)) : Logged (DeskState σ × Except InvalidZoom Unit) := do
    return (← next, .ok ())

end DeskState
end Gridbook
