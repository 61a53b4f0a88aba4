import Gridbook.Colour.Basic
import Gridbook.Log

/-!
Themes, their palettes, and the colours of the grid that are made from a palette.
-/
namespace Gridbook

open Number (Single)

inductive AppTheme where
  | light
  | dark
  | highContrast
  deriving DecidableEq

structure UnknownTheme where
  name : String
  deriving DecidableEq

def UnknownTheme.message (unknown : UnknownTheme) : String := "unknown theme: " ++ unknown.name

namespace AppTheme

def all : List AppTheme := [light, dark, highContrast]

def name : AppTheme → String
  | light => "theme-light"
  | dark => "theme-dark"
  | highContrast => "theme-high-contrast"

def ofName? (text : String) : Option AppTheme := all.find? fun theme => theme.name = text

def read (text : String) : Except UnknownTheme AppTheme :=
  match ofName? text with
  | some theme => .ok theme
  | none => .error ⟨text⟩

def isDark : AppTheme → Bool
  | dark => true
  | light | highContrast => false

end AppTheme

/-- One value for each place of the grid that takes a colour. -/
structure Palette (α : Type) where
  layer1 : α
  layer2 : α
  layer4 : α
  accentPrimaryAlpha : α
  accentPrimaryAlpha2 : α
  accentTertiary : α
  accentTertiaryAlpha : α
  gridColouredCell : α
  gridHeader : α
  strokeGrid : α
  strokeGridMain : α
  strokeSecondary : α
  strokeAccentPrimary : α
  strokeAccentSecondary : α
  strokeError : α
  textSecondary : α
  textWarning : α
  deriving DecidableEq

namespace Palette

/-- Applies a function to every value, in the order of the fields. -/
def mapM [Monad m] (f : α → m β) (p : Palette α) : m (Palette β) := do
  return {
    layer1 := ← f p.layer1
    layer2 := ← f p.layer2
    layer4 := ← f p.layer4
    accentPrimaryAlpha := ← f p.accentPrimaryAlpha
    accentPrimaryAlpha2 := ← f p.accentPrimaryAlpha2
    accentTertiary := ← f p.accentTertiary
    accentTertiaryAlpha := ← f p.accentTertiaryAlpha
    gridColouredCell := ← f p.gridColouredCell
    gridHeader := ← f p.gridHeader
    strokeGrid := ← f p.strokeGrid
    strokeGridMain := ← f p.strokeGridMain
    strokeSecondary := ← f p.strokeSecondary
    strokeAccentPrimary := ← f p.strokeAccentPrimary
    strokeAccentSecondary := ← f p.strokeAccentSecondary
    strokeError := ← f p.strokeError
    textSecondary := ← f p.textSecondary
    textWarning := ← f p.textWarning }

def light : Palette String where
  layer1 := "#fcfcfc"
  layer2 := "#f3f4f6"
  layer4 := "#dde1e6"
  accentPrimaryAlpha := "#5c8dea33"
  accentPrimaryAlpha2 := "#5c8dea1a"
  accentTertiary := "#e9dcf5"
  accentTertiaryAlpha := "#a972ff1a"
  gridColouredCell := "#f5f8fd"
  gridHeader := "#e3ebfa"
  strokeGrid := "#eaeef2"
  strokeGridMain := "#dde1e6"
  strokeSecondary := "#c3c9d0"
  strokeAccentPrimary := "#2764d9"
  strokeAccentSecondary := "#009d9f"
  strokeError := "#ae2f2f"
  textSecondary := "#7f8792"
  textWarning := "#986a08"

def dark : Palette String where
  layer1 := "#090d13"
  layer2 := "#141a23"
  layer4 := "#222932"
  accentPrimaryAlpha := "#5c8dea33"
  accentPrimaryAlpha2 := "#5c8dea1a"
  accentTertiary := "#2d1e3d"
  accentTertiaryAlpha := "#a972ff1a"
  gridColouredCell := "#0f151d"
  gridHeader := "#1b2a44"
  strokeGrid := "#222932"
  strokeGridMain := "#333942"
  strokeSecondary := "#494f57"
  strokeAccentPrimary := "#5c8dea"
  strokeAccentSecondary := "#37babc"
  strokeError := "#f76464"
  textSecondary := "#7f8792"
  textWarning := "#f4ce46"

def highContrast : Palette String where
  layer1 := "#ffffff"
  layer2 := "#f0f0f0"
  layer4 := "#c8c8c8"
  accentPrimaryAlpha := "#0037da40"
  accentPrimaryAlpha2 := "#0037da26"
  accentTertiary := "#e0c8ff"
  accentTertiaryAlpha := "#7a00ff26"
  gridColouredCell := "#f4f7ff"
  gridHeader := "#d6e2ff"
  strokeGrid := "#8c8c8c"
  strokeGridMain := "#000000"
  strokeSecondary := "#595959"
  strokeAccentPrimary := "#0037da"
  strokeAccentSecondary := "#007a7c"
  strokeError := "#c50f1f"
  textSecondary := "#3c3c3c"
  textWarning := "#8a5300"

end Palette

def AppTheme.palette : AppTheme → Palette String
  | light => .light
  | dark => .dark
  | highContrast => .highContrast

/-- The colour of a palette token; one that is no colour becomes magenta. -/
def Colour.ofToken (token : String) : Logged Colour :=
  match Colour.read? token with
  | some colour => pure colour
  | none => do
    warn ("Invalid palette color: " ++ token)
    return .magenta

def Palette.colours (palette : Palette String) : Logged (Palette Colour) :=
  palette.mapM Colour.ofToken

inductive TextRole where
  | primary
  | secondary
  | error
  | accent
  | accentSecondary
  deriving DecidableEq

/-- A font as it is drawn on a light or dark grid. -/
structure FontColour where
  dark : Bool
  role : TextRole
  deriving DecidableEq

inductive FontFamily where
  | regular
  | bold
  deriving DecidableEq

def AppTheme.font (theme : AppTheme) (role : TextRole) : FontColour := ⟨theme.isDark, role⟩

structure GridStyle where
  line : Colour
  background : Colour
  deriving DecidableEq

/-- The strips that head columns and rows. -/
structure HeaderStyle where
  border : Colour
  background : Colour
  selected : Colour
  fullySelected : Colour
  hovered : Colour
  font : FontColour
  family : FontFamily
  resizerHovered : Colour
  resizerActive : Colour
  deriving DecidableEq

structure ScrollBarStyle where
  track : Colour
  trackStroke : Colour
  thumb : Colour
  thumbHovered : Colour
  deriving DecidableEq

structure CellStyle where
  border : Colour
  background : Colour
  evenBackground : Colour
  tableHeader : Colour
  fieldHeader : Colour
  total : Colour
  font : FontColour
  family : FontFamily
  boldFont : FontColour
  boldFamily : FontFamily
  keyFont : FontColour
  keyFamily : FontFamily
  linkFont : FontColour
  linkFamily : FontFamily
  indexFont : FontColour
  resizerHovered : Colour
  resizerActive : Colour
  deriving DecidableEq

/-- Outlines that are drawn without a filling. -/
structure OutlineStyle where
  colour : Colour
  errorColour : Option Colour
  alpha : Single
  alignment : Single
  deriving DecidableEq

structure SelectionStyle where
  alpha : Single
  background : Colour
  border : Colour
  deriving DecidableEq

structure ShadowStyle where
  colour : Colour
  alpha : Single
  rectangleAlpha : Single
  deriving DecidableEq

structure GridTheme where
  base : AppTheme
  grid : GridStyle
  columnHeader : HeaderStyle
  rowHeader : HeaderStyle
  scrollBar : ScrollBarStyle
  cell : CellStyle
  selection : SelectionStyle
  overrideBorder : Colour
  errorBorder : Colour
  pointClick : OutlineStyle
  dotted : OutlineStyle
  noteLabel : Colour
  diff : Colour
  dragBorder : Colour
  hiddenFont : FontColour
  hiddenFamily : FontFamily
  shadow : ShadowStyle
  deriving DecidableEq

namespace GridTheme

def ofColours (theme : AppTheme) (c : Palette Colour) : GridTheme :=
  let header : HeaderStyle := {
    border := c.strokeGridMain
    background := c.layer2
    selected := c.layer4
    fullySelected := c.accentPrimaryAlpha
    hovered := c.accentPrimaryAlpha2
    font := theme.font .secondary
    family := .regular
    resizerHovered := c.strokeSecondary
    resizerActive := c.strokeAccentPrimary }
  { base := theme
    grid := {
      line := if theme.isDark then c.strokeGrid else c.strokeGridMain
      background := c.layer1 }
    columnHeader := header
    rowHeader := header
    scrollBar := {
      track := c.layer1
      trackStroke := c.strokeGridMain
      thumb := c.layer4
      thumbHovered := c.textSecondary }
    cell := {
      border := c.strokeSecondary
      background := c.layer1
      evenBackground := c.gridColouredCell
      tableHeader := c.gridHeader
      fieldHeader := c.layer4
      total := c.accentTertiaryAlpha
      font := theme.font .primary
      family := .regular
      boldFont := theme.font .primary
      boldFamily := .bold
      keyFont := theme.font .error
      keyFamily := .bold
      linkFont := theme.font .accent
      linkFamily := .regular
      indexFont := theme.font .accentSecondary
      resizerHovered := c.strokeSecondary
      resizerActive := c.strokeAccentPrimary }
    selection := {
      alpha := .ofRatio 1 10
      background := c.strokeAccentPrimary
      border := c.strokeAccentPrimary }
    overrideBorder := c.strokeAccentSecondary
    errorBorder := c.strokeError
    pointClick := {
      colour := c.strokeAccentSecondary
      errorColour := some c.strokeError
      alpha := .one
      alignment := .zero }
    dotted := {
      colour := c.strokeAccentPrimary
      errorColour := none
      alpha := .one
      alignment := .zero }
    noteLabel := c.strokeAccentSecondary
    diff := c.accentTertiary
    dragBorder := c.textWarning
    hiddenFont := theme.font .secondary
    hiddenFamily := .regular
    shadow := {
      colour := Colour.ofNumber (if theme.isDark then 0xffffff else 0)
      alpha := .ofRatio 6 10
      rectangleAlpha := .ofRatio 2 10 } }

/-- The grid has a light and a dark look only; any theme that is not dark takes the light one. -/
def forTheme (theme : AppTheme) : Logged GridTheme := do
  let base : AppTheme := if theme.isDark then .dark else .light
  return ofColours base (← base.palette.colours)

end GridTheme
end Gridbook
