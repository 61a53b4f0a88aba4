import Gridbook.Batch.History
import Gridbook.Calculation
import Gridbook.Colour.Theme
import Gridbook.Dashboard
import Gridbook.Desk.Layout
import Gridbook.Json.Record

/-!
The JSON form of the values that are exchanged. Writing puts fields in their order; reading takes every spelling that
`Json.RecordShape` and `Json.variant?` allow.
-/
namespace Gridbook

class Wire (α : Type) where
  toJson : α → Json
  ofJson? : Json → Option α

namespace Wire

def write [Wire α] (value : α) : String := (toJson value).compact

def read? [Wire α] (text : String) : Option α := (Json.read text).bind ofJson?

/-- The wire form of a type whose values are names. -/
@[reducible] def ofNames (name : α → String) (ofName? : String → Option α) : Wire α where
  toJson value := .ofText (name value)
  ofJson? := Json.variant? ofName?

instance : Wire AppTheme := ofNames AppTheme.name AppTheme.ofName?
instance : Wire DashboardFilter := ofNames DashboardFilter.name DashboardFilter.ofName?
instance : Wire DashboardKind := ofNames DashboardKind.name DashboardKind.ofName?
instance : Wire Panel := ofNames Panel.name Panel.ofName?
instance : Wire Side := ofNames Side.name Side.ofName?
instance : Wire CalculationStatus := ofNames CalculationStatus.name CalculationStatus.ofName?

instance : Wire DashboardItem where
  toJson item := .record [("name", .ofText item.name), ("kind", toJson item.kind)]
  ofJson? json :=
    match Json.RecordShape.values? ⟨["name", "kind"], false⟩ json with
    | some [some name, some kind] => do return ⟨← name.text?, ← ofJson? kind⟩
    | _ => none

instance : Wire SheetChange where
  toJson change := .record [("sheet_name", .ofText change.sheet), ("content", .ofText change.content)]
  ofJson? json :=
    match Json.RecordShape.values? ⟨["sheet_name", "content"], false⟩ json with
    | some [some sheet, some content] => do return ⟨← sheet.text?, ← content.text?⟩
    | _ => none

instance : Wire HistoryRecord where
  toJson entry := .record [("title", .ofText entry.title), ("changes", .ofList toJson entry.changes)]
  ofJson? json :=
    match Json.RecordShape.values? ⟨["title", "changes"], false⟩ json with
    | some [some title, some changes] => do return ⟨← title.text?, ← changes.listOf? ofJson?⟩
    | _ => none

instance : Wire Docking where
  toJson docking := .record [("position", toJson docking.side), ("is_active", .bool docking.active)]
  ofJson? json :=
    match Json.RecordShape.values? ⟨["position", "is_active"], false⟩ json with
    | some [some side, some active] => do return ⟨← ofJson? side, ← active.bool?⟩
    | _ => none

/-- The panels of a layout by name, in their order. -/
def panelsToJson (docking? : Panel → Option Docking) : Json :=
  .record (Panel.all.filterMap fun p => (docking? p).map fun d => (p.name, toJson d))

/-- Of a panel that is listed twice the last counts. -/
def panelsOfJson? (json : Json) : Option (Panel → Option Docking) := do
  let listed ← json.mapOf? Panel.ofName? ofJson?
  return fun p => (listed.reverse.find? fun (q, _) => q = p).map (·.2)

def layoutShape : Json.RecordShape :=
  ⟨["panels", "collapsed_panels_text_hidden", "panels_split_enabled", "expanded_panel_side"], false⟩

instance : Wire Layout where
  toJson layout := .record [
    ("panels", panelsToJson layout.docking?),
    ("collapsed_panels_text_hidden", .bool layout.labelsHidden),
    ("panels_split_enabled", .bool layout.split),
    ("expanded_panel_side", .ofOption toJson layout.expandedSide)]
  ofJson? json :=
    match layoutShape.values? json with
    | some [some panels, some labelsHidden, some split, side] => do
      return ⟨← panelsOfJson? panels, ← labelsHidden.bool?, ← split.bool?,
        ← (side.getD .null).optional? ofJson?⟩
    | _ => none

end Wire
end Gridbook
