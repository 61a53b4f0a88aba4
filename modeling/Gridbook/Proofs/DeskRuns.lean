import Gridbook.Desk.Controller
import Mathlib.Data.List.Nodup

/-!
Runs of the desk. An action of the user does nothing to the desk or one thing that can be done to it
(`Controller.perform_desk`), and that leaves what is persisted alone or persists one preference
(`DeskState.perform_cases`). What each action keeps is kept by every run: the zoom is one of its steps, point-click mode
is on only where the edit mode accepts it, its source is known only while it is on, and no pivot table is nameless.
-/
namespace Gridbook

open Number (Double)

structure Preferences where
  zoom : Double
  theme : AppTheme
  chatPlacement : ChatPlacement
  showHiddenFiles : Bool
  deriving DecidableEq

inductive Preference where
  | zoom (step : { zoom : Double // zoom ∈ Zoom.steps })
  | theme (theme : AppTheme)
  | chatPlacement (placement : ChatPlacement)
  | showHiddenFiles (shown : Bool)

namespace Preference

@[simp] def key : Preference → String
  | zoom _ => SettingKey.zoom
  | theme _ => SettingKey.theme
  | chatPlacement _ => SettingKey.chatPlacement
  | showHiddenFiles _ => SettingKey.showHiddenFiles

@[simp] def text : Preference → String
  | zoom step => step.1.text
  | theme chosen => chosen.name
  | chatPlacement placement => placement.name
  | showHiddenFiles shown => if shown then "true" else "false"

@[simp] def applyTo (preferences : Preferences) : Preference → Preferences
  | zoom step => { preferences with zoom := step }
  | theme chosen => { preferences with theme := chosen }
  | chatPlacement placement => { preferences with chatPlacement := placement }
  | showHiddenFiles shown => { preferences with showHiddenFiles := shown }

end Preference

variable {σ : Type}

namespace DeskState

def preferences (state : DeskState σ) : Preferences :=
  ⟨state.zoom, state.theme, state.chatPlacement, state.showHiddenFiles⟩

/-- Leaving point-click mode touches nothing else. -/
theorem enforcePointClick_cases (state : DeskState σ) :
    (state.enforcePointClick.value = state ∧
        (state.pointClick = true → ∀ mode ∈ state.editMode, mode.allowsPointClick = true)) ∨
      state.enforcePointClick.value = { state with pointClick := false, pointClickSource := none } := by
  unfold enforcePointClick
  split
  · next unset => exact .inl ⟨rfl, by simp [unset]⟩
  · next mode set =>
    split
    · exact .inr rfl
    · next accepted => exact .inl ⟨rfl, by simpa [set] using accepted⟩

structure Valid (state : DeskState σ) : Prop where
  zoom : state.zoom ∈ Zoom.steps
  pointClick : state.pointClick = true → ∀ mode ∈ state.editMode, mode.allowsPointClick = true
  source : state.pointClickSource.isSome = true → state.pointClick = true
  pivotTable : state.pivotTable ≠ some ""

/-- Whatever is done to edit mode and point-click mode, what they demand of each other is restored. -/
theorem Valid.enforcePointClick {state changed : DeskState σ} (valid : state.Valid) (zoom : changed.zoom = state.zoom)
    (source : changed.pointClickSource.isSome = true → changed.pointClick = true)
    (pivotTable : changed.pivotTable = state.pivotTable) : changed.enforcePointClick.value.Valid := by
  rcases changed.enforcePointClick_cases with ⟨same, accepted⟩ | left
  · rw [same]
    exact ⟨zoom ▸ valid.zoom, accepted, source, pivotTable ▸ valid.pivotTable⟩
  · rw [left]
    exact ⟨zoom ▸ valid.zoom, nofun, nofun, pivotTable ▸ valid.pivotTable⟩

@[simp] theorem value_done (next : Logged (DeskState σ)) : (perform.done next).value = (next.value, .ok ()) := rfl

@[simp] theorem log_done (next : Logged (DeskState σ)) : (perform.done next).log = next.log := by
  simp [perform.done]

variable [SettingsStore σ]

@[simp] theorem value_persist (state : DeskState σ) (key value : String) :
    (state.persist key value).value = { state with store := (SettingsStore.set state.store key value).value } := rfl

@[simp] theorem log_persist (state : DeskState σ) (key value : String) :
    (state.persist key value).log = (SettingsStore.set state.store key value).log := by
  simp [persist]

/-- The wheel leaves the desk alone or sets the zoom to one of its steps. -/
theorem wheel_cases (state : DeskState σ) (direction : Int) :
    state.wheel direction = pure state ∨
      ∃ zoom ∈ Zoom.steps, state.wheel direction = persist { state with zoom } SettingKey.zoom zoom.text := by
  unfold wheel
  split
  · exact .inl rfl
  · split
    · exact .inl rfl
    · split
      · exact .inl rfl
      · next zoom found => exact .inr ⟨zoom, List.mem_of_getElem? found, rfl⟩

/-- The preferences and the store stay as they are, or one preference is changed and persisted. -/
theorem perform_cases (state : DeskState σ) (action : DeskAction) :
    ((state.perform action).value.1.store = state.store ∧
        (state.perform action).value.1.preferences = state.preferences) ∨
      ∃ change : Preference,
        (state.perform action).value.1.store = (SettingsStore.set state.store change.key change.text).value ∧
        (state.perform action).value.1.preferences = change.applyTo state.preferences ∧
        ∀ line ∈ (SettingsStore.set state.store change.key change.text).log, line ∈ (state.perform action).log := by
  cases action with
  | updateZoom zoom =>
    by_cases inside : zoom ∈ Zoom.steps
    · refine .inr ⟨.zoom ⟨zoom, inside⟩, ?_⟩
      simp [perform, updateZoom, inside, preferences]
    · left
      simp [perform, updateZoom, inside]
  | wheel direction =>
    rcases state.wheel_cases direction with still | ⟨zoom, inside, moved⟩
    · left
      simp [perform, still]
    · refine .inr ⟨.zoom ⟨zoom, inside⟩, ?_⟩
      simp [perform, moved, preferences]
  | updateTheme name =>
    refine .inr ⟨.theme (readTheme name).value, ?_⟩
    simp +contextual [perform, updateTheme, preferences]
  | toggleChatPlacement =>
    refine .inr ⟨.chatPlacement state.chatPlacement.toggled, ?_⟩
    simp [perform, toggleChatPlacement, preferences]
  | switchShowHiddenFiles shown =>
    refine .inr ⟨.showHiddenFiles shown, ?_⟩
    simp [perform, switchShowHiddenFiles, preferences]
  | setEditMode mode =>
    left
    rcases enforcePointClick_cases { state with editMode := mode } with ⟨same, -⟩ | left <;>
      simp [perform, setEditMode, preferences, *]
  | switchPointClick on source =>
    left
    rcases enforcePointClick_cases
      { state with pointClick := on, pointClickSource := if on then source else none } with ⟨same, -⟩ | left <;>
      simp [perform, switchPointClick, preferences, *]
  | setLoading | toggleChat | setFormulaBarMode | setFormulaBarExpanded | setFormulasMenu | setViewport | changePivot =>
    exact .inl ⟨rfl, rfl⟩

theorem readZoom_mem (stored : Option String) : (readZoom stored).value ∈ Zoom.steps := by
  have normal : Zoom.normal ∈ Zoom.steps := by decide +kernel
  unfold readZoom
  split
  · exact normal
  · split
    · split
      · assumption
      · exact normal
    · exact normal

theorem valid_load (store : σ) : (load store).value.Valid where
  zoom := readZoom_mem _
  pointClick := nofun
  source := nofun
  pivotTable := nofun

theorem Valid.perform {state : DeskState σ} (valid : state.Valid) (action : DeskAction) :
    (state.perform action).value.1.Valid := by
  cases action with
  | updateZoom zoom =>
    by_cases inside : zoom ∈ Zoom.steps
    · simpa [DeskState.perform, updateZoom, inside] using { valid with zoom := inside }
    · simpa [DeskState.perform, updateZoom, inside] using valid
  | wheel direction =>
    rcases state.wheel_cases direction with still | ⟨zoom, inside, moved⟩
    · simpa [DeskState.perform, still] using valid
    · simpa [DeskState.perform, moved] using { valid with zoom := inside }
  | setEditMode => exact valid.enforcePointClick rfl valid.source rfl
  | switchPointClick on source => exact valid.enforcePointClick rfl (by cases on <;> simp) rfl
  | changePivot mode table =>
    have named : (table.filter fun name => !name.isEmpty) ≠ some "" := by simp [Option.filter_eq_some_iff]
    exact { valid with pivotTable := named }
  | updateTheme | setLoading | toggleChat | toggleChatPlacement | setFormulaBarMode | setFormulaBarExpanded
  | setFormulasMenu | switchShowHiddenFiles | setViewport => exact { valid with }

theorem nodup_steps : Zoom.steps.Nodup := by decide +kernel

/-- The wheel moves the zoom by its number of steps, and does nothing where that leads past either end. -/
theorem wheel_eq (state : DeskState σ) {current : Nat} (found : Zoom.steps[current]? = some state.zoom)
    (direction : Int) :
    (∃ next zoom, Int.ofNat next = current + direction ∧ Zoom.steps[next]? = some zoom ∧
        state.wheel direction = persist { state with zoom } SettingKey.zoom zoom.text) ∨
      ((∀ next, Int.ofNat next = current + direction → Zoom.steps.length ≤ next) ∧
        state.wheel direction = pure state) := by
  -- No step comes twice, so the place that is looked up is the given one.
  have first : Zoom.steps.idxOf? state.zoom = some current := by
    obtain ⟨bound, here⟩ := List.getElem?_eq_some_iff.1 found
    refine List.idxOf?_eq_some_iff.2 ⟨bound, here, ?_⟩
    intro earlier before same
    have := (List.Nodup.getElem_inj_iff nodup_steps).1 (same.trans here.symm)
    omega
  unfold wheel
  rw [first]
  simp only
  split
  · next n past =>
    right
    refine ⟨?_, rfl⟩
    intro next reached
    simp only [Int.ofNat_eq_natCast] at past reached
    omega
  · next next reached =>
    split
    · next outside =>
      right
      refine ⟨?_, rfl⟩
      intro other same
      rw [Int.ofNat_inj.1 (same.trans reached)]
      exact List.getElem?_eq_none_iff.1 outside
    · next zoom inside => exact .inl ⟨next, zoom, reached.symm, inside, rfl⟩

end DeskState

namespace Controller

variable [SettingsStore σ]

def run (ui : Controller σ) : List UserAction → Logged (Controller σ)
  | [] => pure ui
  | action :: actions => do (← ui.perform action).1.run actions

def session (store : σ) (actions : List UserAction) : Logged (Controller σ) := do
  (← start store).run actions

theorem dispatch_desk (ui : Controller σ) (action : MenuAction) :
    (ui.dispatch action).value.desk = ui.desk ∨
      (ui.dispatch action).value.desk = (ui.desk.perform .toggleChatPlacement).value.1 ∧
        ∀ line ∈ (ui.desk.perform .toggleChatPlacement).log, line ∈ (ui.dispatch action).log := by
  cases action with
  | moveChatToWindow =>
    right
    simp +contextual [dispatch, DeskState.perform]
  | _ => exact .inl rfl

/-- An action does nothing to the desk, or one thing that can be done to it. -/
theorem perform_desk (ui : Controller σ) (action : UserAction) :
    (ui.perform action).value.1.desk = ui.desk ∨
      ∃ inner, (ui.perform action).value.1.desk = (ui.desk.perform inner).value.1 ∧
        ∀ line ∈ (ui.desk.perform inner).log, line ∈ (ui.perform action).log := by
  have chosen (entries : List MenuEntry) (key : String) :
      (ui.select entries key).value.desk = ui.desk ∨
        (ui.select entries key).value.desk = (ui.desk.perform .toggleChatPlacement).value.1 ∧
          ∀ line ∈ (ui.desk.perform .toggleChatPlacement).log, line ∈ (ui.select entries key).log := by
    unfold select
    split
    · exact ui.dispatch_desk _
    · exact .inl rfl
  cases action with
  | desk action => exact .inr ⟨action, rfl, by simp [perform]⟩
  | select panel collapsed key =>
    exact (chosen (ui.panelMenu panel collapsed) key).imp id fun moved => ⟨_, by simpa [perform] using moved⟩
  | selectPending key => exact (chosen ui.pendingMenu key).imp id fun moved => ⟨_, by simpa [perform] using moved⟩
  | dispatch action => exact (ui.dispatch_desk action).imp id fun moved => ⟨_, by simpa [perform] using moved⟩

/-- What every action on the desk keeps, as long as it logs only what is allowed, every run keeps. -/
theorem run_keeps (allowed : LogLine → Prop) (kept : DeskState σ → Prop)
    (step : ∀ desk action, kept desk → (∀ line ∈ (desk.perform action).log, allowed line) →
      kept (desk.perform action).value.1)
    {ui : Controller σ} {actions : List UserAction} (first : kept ui.desk)
    (quiet : ∀ line ∈ (ui.run actions).log, allowed line) : kept (ui.run actions).value.desk := by
  induction actions generalizing ui with
  | nil => exact first
  | cons action actions ih =>
    simp only [run, Logged.log_bind, List.mem_append] at quiet
    refine ih ?_ fun line inside => quiet line (.inr inside)
    rcases ui.perform_desk action with same | ⟨inner, same, logged⟩
    · exact same ▸ first
    · rw [same]
      exact step _ inner first fun line inside => quiet line (.inl (logged line inside))

/-- On every run the desk is valid. Then a zoom that is none of the steps is refused and leaves all as it was, and the
wheel moves the zoom from its place among the steps by as many places as it is turned and persists it, or does nothing
where there is no such place. The number of that place needs no more than 64 bits. -/
theorem session_valid (store : σ) (actions : List UserAction) :
    let desk := (session store actions).value.desk
    desk.Valid ∧
    (∀ zoom, zoom ∉ Zoom.steps → desk.perform (.updateZoom zoom) = pure (desk, .error ⟨zoom⟩)) ∧
    ∀ direction : Int32, ∃ current : Nat, Zoom.steps[current]? = some desk.zoom ∧
      (Int64.ofNat current + direction.toInt64).toInt = current + direction.toInt ∧
      ((∃ next zoom, Int.ofNat next = current + direction.toInt ∧ Zoom.steps[next]? = some zoom ∧
          desk.perform (.wheel direction.toInt) = do
            let store ← SettingsStore.set desk.store SettingKey.zoom zoom.text
            return ({ desk with zoom, store }, .ok ())) ∨
        ((∀ next, Int.ofNat next = current + direction.toInt → Zoom.steps.length ≤ next) ∧
          desk.perform (.wheel direction.toInt) = pure (desk, .ok ()))) := by
  intro desk
  have valid : desk.Valid :=
    run_keeps (fun _ => True) DeskState.Valid (fun _ action valid _ => valid.perform action)
      (DeskState.valid_load store) fun _ _ => trivial
  refine ⟨valid, ?_, ?_⟩
  · intro zoom outside
    have refused : desk.updateZoom zoom = pure (.error ⟨zoom⟩) := if_neg outside
    rw [DeskState.perform, refused]
    rfl
  · intro direction
    obtain ⟨current, found⟩ := List.mem_iff_getElem?.1 valid.zoom
    refine ⟨current, found, ?_, ?_⟩
    · have bound : current < 6 := (List.getElem?_eq_some_iff.1 found).1
      have low := direction.le_toInt
      have high := direction.toInt_lt
      rw [Int64.toInt_add, Int32.toInt_toInt64, Int64.toInt_ofNat_of_lt (by omega)]
      exact Int.bmod_eq_of_le (by omega) (by omega)
    · rcases desk.wheel_eq found direction.toInt with ⟨next, zoom, reached, inside, moved⟩ | ⟨past, still⟩
      · refine .inl ⟨next, zoom, reached, inside, ?_⟩
        rw [DeskState.perform, moved]
        simp [DeskState.perform.done, DeskState.persist, bind, pure]
      · refine .inr ⟨past, ?_⟩
        rw [DeskState.perform, still]
        rfl

/-- A stored zoom that the wheel moved down, point-click mode in an edit mode that accepts it, and a zoom between two
steps. -/
theorem session_valid_refused :
    let desk := (session (MemoryStore.mk ⟨[("zoom", "2")]⟩) [.desk (.wheel (-4)), .desk (.wheel 5),
      .desk (.setEditMode (some .editTotal)), .desk (.switchPointClick true (some .formulaBar)),
      .desk (.changePivot (some .edit) (some ""))]).value.desk
    let zoom := Double.ofRatio false 7 8
    (desk.zoom = .ofRatio false 3 4 ∧ desk.pointClick = true ∧ desk.pointClickSource = some .formulaBar) ∧
      zoom ∉ Zoom.steps ∧ desk.Valid ∧ desk.perform (.updateZoom zoom) = pure (desk, .error ⟨zoom⟩) := by
  intro desk zoom
  have outside : zoom ∉ Zoom.steps := by decide +kernel
  have valid := session_valid (MemoryStore.mk ⟨[("zoom", "2")]⟩) [.desk (.wheel (-4)), .desk (.wheel 5),
    .desk (.setEditMode (some .editTotal)), .desk (.switchPointClick true (some .formulaBar)),
    .desk (.changePivot (some .edit) (some ""))]
  exact ⟨by decide +kernel, outside, valid.1, valid.2.1 zoom outside⟩

end Controller
end Gridbook
