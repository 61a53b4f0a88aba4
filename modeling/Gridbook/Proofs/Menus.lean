import Gridbook.Proofs.Dockings

/-!
The menu of a panel tells the truth. Its keys are distinct, so choosing a key performs the action of that item. Each
action does what the label of its item announces, whatever the layout, and an item that switches something shows the
opposite label when the menu is built again.
-/
namespace Gridbook

namespace MenuEntry

def key? : MenuEntry → Option String
  | item found => some found.key
  | divider => none

def keys (entries : List MenuEntry) : List String := entries.filterMap key?

variable {entries : List MenuEntry} {found : MenuItem} {key : String}

theorem key_mem_keys (inside : item found ∈ entries) : found.key ∈ keys entries :=
  List.mem_filterMap.2 ⟨item found, inside, rfl⟩

/-- Where keys are distinct, each finds its own item. -/
theorem actionFor?_of_mem (distinct : (keys entries).Nodup) (inside : item found ∈ entries) :
    actionFor? entries found.key = some found.action := by
  induction entries with
  | nil => simp at inside
  | cons entry entries ih =>
    cases entry with
    | divider => exact ih distinct (by simpa using inside)
    | item first =>
      have distinct : first.key ∉ keys entries ∧ (keys entries).Nodup := List.nodup_cons.1 distinct
      rcases List.mem_cons.1 inside with here | later
      · cases here
        simp [actionFor?]
      · have other : first.key ≠ found.key := fun same => distinct.1 (same ▸ key_mem_keys later)
        have rest := ih distinct.2 later
        simpa [actionFor?, other] using rest

theorem actionFor?_eq_none (absent : key ∉ keys entries) : actionFor? entries key = none := by
  apply List.findSome?_eq_none_iff.2
  intro entry inside
  cases entry with
  | divider => rfl
  | item found =>
    have other : found.key ≠ key := fun same => absent (same ▸ key_mem_keys inside)
    exact if_neg other

end MenuEntry

namespace Menu

/-- What the labels in the menu of a panel on a side say of the layout once their items have been chosen. -/
inductive Announces (panel : Panel) (side : Side) (after : Layout) : String → Prop where
  | expandSide (expanded : after.expandedSide = some side) : Announces panel side after ("Expand " ++ panel.title)
  | restoreSide (restored : after.expandedSide = none) : Announces panel side after ("Restore " ++ panel.title)
  | collapse (closed : (after.panel panel).active = false) : Announces panel side after "Collapse"
  | expand (opened : (after.panel panel).active = true) : Announces panel side after "Expand"
  | dock {target : Side} (docked : panel ∈ after.panelsAt target) : Announces panel side after target.label
  | hideLabels (hidden : after.labelsHidden = true) : Announces panel side after "Hide labels"
  | showLabels (shown : after.labelsHidden = false) : Announces panel side after "Show labels"
  | splitPanels (split : after.split = true) : Announces panel side after "Split panels"
  | mergePanels (merged : after.split = false) : Announces panel side after "Merge panels"

/-- The labels that a switch in the menu of a panel shows in turns. -/
def switches (panel : Panel) : List (String × String) :=
  [("Expand " ++ panel.title, "Restore " ++ panel.title), ("Collapse", "Expand"), ("Hide labels", "Show labels"),
    ("Split panels", "Merge panels")]

def Alternates (panel : Panel) (label other : String) : Prop :=
  (label, other) ∈ switches panel ∨ (other, label) ∈ switches panel

def switchKeys : List String := ["expand", "expand-collapse", "hideText", "split"]

variable (layout : Layout) (panel : Panel) (title : String) (side : Side) (collapsed : Bool)

theorem keys_panelSettings :
    MenuEntry.keys (panelSettings layout panel title side collapsed) =
      (if panel = .chat then ["move-chat"] else []) ++ (if collapsed then ["expand"] else []) ++
        ["expand-collapse", "left", "right", "bottom", "hideText", "split"] := by
  have chat : MenuEntry.keys (chatItems panel) = if panel = .chat then ["move-chat"] else [] := by
    unfold chatItems
    split <;> rfl
  have toggle : MenuEntry.keys (collapsedItems layout panel collapsed) = if collapsed then ["expand"] else [] := by
    cases collapsed <;> rfl
  have expand : (expandItem layout panel title side).key? = some "expand-collapse" := by
    unfold expandItem
    split <;> rfl
  have labels : (labelsItem layout.labelsHidden).key? = some "hideText" := by
    cases layout.labelsHidden <;> rfl
  have sides : MenuEntry.keys (sideItems panel) = ["left", "right", "bottom"] := rfl
  have divider : MenuEntry.divider.key? = none := rfl
  have split : (splitItem layout.split).key? = some "split" := rfl
  unfold MenuEntry.keys at *
  simp only [panelSettings, List.filterMap_append, List.filterMap_cons, List.filterMap_nil, chat, toggle, expand,
    labels, sides, divider, split, List.cons_append, List.nil_append, List.append_assoc]

theorem nodup_keys : (MenuEntry.keys (panelSettings layout panel title side collapsed)).Nodup := by
  rw [keys_panelSettings]
  split <;> split <;> decide

theorem mem_panelSettings {entry : MenuEntry} :
    entry ∈ panelSettings layout panel title side collapsed ↔
      entry ∈ chatItems panel ∨ entry ∈ collapsedItems layout panel collapsed ∨
      entry = expandItem layout panel title side ∨ entry ∈ sideItems panel ∨
      entry = labelsItem layout.labelsHidden ∨ entry = splitItem layout.split ∨ entry = .divider := by
  simp only [panelSettings, List.mem_append, List.mem_cons, List.not_mem_nil, or_false]
  tauto

/-- An item of the menu of a panel that shows one of two labels, by a flag of the layout that its action turns. -/
structure Switch (panel : Panel) (collapsed : Bool) (flag : Layout → Bool) (shown : Bool → MenuItem) : Prop where
  listed : ∀ layout : Layout,
    .item (shown (flag layout)) ∈ panelSettings layout panel panel.title (layout.panel panel).side collapsed
  turned : ∀ layout, flag ((shown (flag layout)).action.applyTo layout) = !flag layout
  key : ∀ on, (shown (!on)).key = (shown on).key
  label : ∀ on, Alternates panel (shown on).label (shown (!on)).label

def openItem (panel : Panel) (active : Bool) : MenuItem :=
  ⟨"expand", if active then "Collapse" else "Expand", some .minimizePanel, .togglePanel panel⟩

def spreadItem (panel : Panel) (expanded : Bool) : MenuItem :=
  ⟨"expand-collapse", (if expanded then "Restore " else "Expand ") ++ panel.title,
    some (if expanded then .arrowNarrowUp else .arrowAlt), .toggleExpand panel⟩

def hideItem (hidden : Bool) : MenuItem :=
  ⟨"hideText", if hidden then "Show labels" else "Hide labels",
    some (if hidden then .typography else .typographyOff), .setLabelsHidden !hidden⟩

def modeItem (split : Bool) : MenuItem :=
  ⟨"split", if split then "Merge panels" else "Split panels", some .columns, .setSplit !split⟩

theorem expandItem_eq :
    expandItem layout panel panel.title side = .item (spreadItem panel (layout.expandedSide = some side)) := by
  by_cases expanded : layout.expandedSide = some side <;> simp [expandItem, spreadItem, expanded]

theorem labelsItem_eq (hidden : Bool) : labelsItem hidden = .item (hideItem hidden) := by
  cases hidden <;> rfl

theorem splitItem_eq (split : Bool) : splitItem split = .item (modeItem split) := rfl

theorem switch_open : Switch panel true (fun layout => (layout.panel panel).active) (openItem panel) where
  listed layout := (mem_panelSettings ..).2 (.inr (.inl (List.mem_cons_self ..)))
  turned layout := by simp [openItem, MenuAction.applyTo, Layout.panel_togglePanel_self]
  key _ := rfl
  label on := by cases on <;> simp [openItem, Alternates, switches]

theorem switch_spread :
    Switch panel collapsed (fun layout => layout.expandedSide = some (layout.panel panel).side) (spreadItem panel) where
  listed layout := (mem_panelSettings ..).2 (.inr (.inr (.inl (expandItem_eq ..).symm)))
  turned layout := by
    -- spreading a side leaves every panel where it is docked
    change decide ((layout.toggleExpand panel).expandedSide = some (layout.panel panel).side) = _
    by_cases expanded : layout.expandedSide = some (layout.panel panel).side <;> simp [Layout.toggleExpand, expanded]
  key _ := rfl
  label on := by cases on <;> simp [spreadItem, Alternates, switches]

theorem switch_hide : Switch panel collapsed Layout.labelsHidden hideItem where
  listed layout := (mem_panelSettings ..).2 (.inr (.inr (.inr (.inr (.inl (labelsItem_eq _).symm)))))
  turned _ := rfl
  key _ := rfl
  label on := by cases on <;> simp [hideItem, Alternates, switches]

theorem switch_mode : Switch panel collapsed Layout.split modeItem where
  listed layout := (mem_panelSettings ..).2 (.inr (.inr (.inr (.inr (.inr (.inl (splitItem_eq _).symm))))))
  turned _ := rfl
  key _ := rfl
  label on := by cases on <;> simp [modeItem, Alternates, switches]

end Menu

namespace Controller

open Menu

variable {σ : Type} [SettingsStore σ]

/-- Choosing the item does to the layout what its label announces and touches nothing else; and if it is a switch, the
menu shows the other label afterwards. -/
structure Honours (ui : Controller σ) (panel : Panel) (collapsed : Bool) (item : MenuItem) : Prop where
  kept : (ui.dispatch item.action).value = { ui with layout := item.action.applyTo ui.layout }
  announced : Announces panel (ui.layout.panel panel).side (item.action.applyTo ui.layout) item.label
  switched : item.key ∈ switchKeys → ∃ again, .item again ∈ (ui.dispatch item.action).value.panelMenu panel collapsed ∧
    again.key = item.key ∧ Alternates panel item.label again.label

variable (ui : Controller σ) {panel : Panel} {collapsed : Bool} {item : MenuItem}

theorem honours_switch {flag : Layout → Bool} {shown : Bool → MenuItem} (switch : Switch panel collapsed flag shown)
    (kept : (ui.dispatch (shown (flag ui.layout)).action).value =
      { ui with layout := (shown (flag ui.layout)).action.applyTo ui.layout })
    (announced : Announces panel (ui.layout.panel panel).side ((shown (flag ui.layout)).action.applyTo ui.layout)
      (shown (flag ui.layout)).label) : ui.Honours panel collapsed (shown (flag ui.layout)) := by
  refine ⟨kept, announced, fun _ => ⟨shown (!flag ui.layout), ?_, switch.key _, switch.label _⟩⟩
  rw [kept, ← switch.turned]
  exact switch.listed _

theorem honours_open : ui.Honours panel true (openItem panel (ui.layout.panel panel).active) := by
  refine ui.honours_switch (switch_open panel) rfl ?_
  have toggled := ui.layout.panel_togglePanel_self panel
  cases active : (ui.layout.panel panel).active with
  | true => exact .collapse (by simp [openItem, MenuAction.applyTo, toggled, active])
  | false => exact .expand (by simp [openItem, MenuAction.applyTo, toggled, active])

theorem honours_spread :
    ui.Honours panel collapsed (spreadItem panel (ui.layout.expandedSide = some (ui.layout.panel panel).side)) := by
  refine ui.honours_switch (switch_spread panel collapsed) rfl ?_
  by_cases expanded : ui.layout.expandedSide = some (ui.layout.panel panel).side
  · rw [decide_eq_true expanded]
    exact .restoreSide (if_pos expanded)
  · rw [decide_eq_false expanded]
    exact .expandSide (if_neg expanded)

theorem honours_hide : ui.Honours panel collapsed (hideItem ui.layout.labelsHidden) := by
  refine ui.honours_switch (switch_hide panel collapsed) rfl ?_
  cases ui.layout.labelsHidden with
  | true => exact .showLabels rfl
  | false => exact .hideLabels rfl

theorem honours_mode : ui.Honours panel collapsed (modeItem ui.layout.split) := by
  refine ui.honours_switch (switch_mode panel collapsed) rfl ?_
  cases ui.layout.split with
  | true => exact .mergePanels rfl
  | false => exact .splitPanels rfl

theorem honours_sideItems (inside : .item item ∈ sideItems panel) : ui.Honours panel collapsed item := by
  obtain ⟨target, -, shown⟩ := List.mem_map.1 inside
  cases shown
  have docked : panel ∈ (ui.layout.changeSide panel target).panelsAt target := by
    refine Layout.mem_panelsAt.2 ⟨ui.layout.isSome_changeSide panel target, ?_⟩
    rw [Layout.panel_changeSide_self]
  refine ⟨rfl, .dock docked, fun switch => ?_⟩
  cases target <;> simp [switchKeys, Side.name] at switch

theorem honours_of_mem (inside : .item item ∈ ui.panelMenu panel collapsed) (other : item.key ≠ "move-chat") :
    ui.Honours panel collapsed item := by
  rcases (mem_panelSettings ..).1 inside with chat | folded | spread | sides | labels | split | divider
  · unfold chatItems at chat
    split at chat
    · cases List.mem_singleton.1 chat
      exact absurd rfl other
    · simp at chat
  · cases collapsed with
    | false => simp [collapsedItems] at folded
    | true =>
      obtain rfl : item = openItem panel (ui.layout.panel panel).active := by
        simpa [collapsedItems, openItem] using folded
      exact ui.honours_open
  · rw [expandItem_eq] at spread
    cases spread
    exact ui.honours_spread
  · exact ui.honours_sideItems sides
  · rw [labelsItem_eq] at labels
    cases labels
    exact ui.honours_hide
  · rw [splitItem_eq] at split
    cases split
    exact ui.honours_mode
  · cases divider

/-- The menu of a panel tells the truth, whatever the layout and whether or not the panel is listed. The keys of its
items are distinct. Choosing an item, unless it moves the chat, makes of the layout what its label announces and leaves
the desk and the pending edits alone; and the menu that is built afterwards shows the opposite label for a switch. Any
other key changes nothing. -/
theorem select_announced (ui : Controller σ) (panel : Panel) (collapsed : Bool) :
    let menu := ui.panelMenu panel collapsed
    (MenuEntry.keys menu).Nodup ∧
    (∀ item, .item item ∈ menu → item.key ≠ "move-chat" →
      let after := (ui.select menu item.key).value
      Announces panel (ui.layout.panel panel).side after.layout item.label ∧
      after.desk = ui.desk ∧ after.aiEditPending = ui.aiEditPending ∧
      (item.key ∈ switchKeys → ∃ again, .item again ∈ after.panelMenu panel collapsed ∧ again.key = item.key ∧
        Alternates panel item.label again.label)) ∧
    ∀ key, key ∉ MenuEntry.keys menu → (ui.select menu key).value = ui := by
  intro menu
  have distinct : (MenuEntry.keys menu).Nodup := nodup_keys ..
  refine ⟨distinct, ?_, ?_⟩
  · intro item inside other after
    obtain ⟨kept, announced, switched⟩ := ui.honours_of_mem inside other
    have chosen : after = (ui.dispatch item.action).value := by
      simp only [after, select, MenuEntry.actionFor?_of_mem distinct inside]
    rw [chosen, layout_dispatch]
    refine ⟨announced, ?_, ?_, switched⟩
    · rw [kept]
    · rw [kept]
  · intro key absent
    simp [select, MenuEntry.actionFor?_eq_none absent]

/-- On a layout that lists no panel, the side where panels count as docked is restored from the menu of the chat. -/
theorem select_announced_unlisted :
    let ui : Controller MemoryStore :=
      ⟨(DeskState.load (MemoryStore.mk {})).value, ⟨fun _ => none, false, false, some .right⟩, true⟩
    let menu := ui.panelMenu .chat true
    let item : MenuItem := ⟨"expand-collapse", "Restore Chat", some .arrowNarrowUp, .toggleExpand .chat⟩
    let after := (ui.select menu item.key).value
    (.item item ∈ menu ∧ item.key ≠ "move-chat" ∧ item.key ∈ switchKeys ∧ "restore" ∉ MenuEntry.keys menu) ∧
      Announces .chat .right after.layout "Restore Chat" ∧ after.aiEditPending = true ∧
      (∃ again, .item again ∈ after.panelMenu .chat true ∧ again.key = item.key ∧
        Alternates .chat item.label again.label) ∧
      (ui.select menu "restore").value = ui := by
  intro ui menu item after
  have inside : .item item ∈ menu := by decide
  have other : item.key ≠ "move-chat" := by decide
  have switch : item.key ∈ switchKeys := by decide
  have absent : "restore" ∉ MenuEntry.keys menu := by decide
  obtain ⟨-, honest, idle⟩ := select_announced ui .chat true
  obtain ⟨announced, -, pending, switched⟩ := honest item inside other
  exact ⟨⟨inside, other, switch, absent⟩, announced, pending, switched switch, idle "restore" absent⟩

end Controller
end Gridbook
