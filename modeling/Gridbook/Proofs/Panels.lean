import Gridbook.Proofs.DeskRuns
import Mathlib.Data.List.Induction

/-!
Panels that share a side. While panels are not split, no action makes two active panels share a side: a panel that
becomes active, or is moved while it is, leaves no other active beside it. But merging split panels only ends the mode,
so panels that shared a side before it share it still.
-/
namespace Gridbook

namespace Layout

def Shares (layout : Layout) (p q : Panel) : Prop :=
  p ≠ q ∧ (layout.panel p).active = true ∧ (layout.panel q).active = true ∧
    (layout.panel p).side = (layout.panel q).side

instance (layout : Layout) (p q : Panel) : Decidable (layout.Shares p q) :=
  inferInstanceAs (Decidable (_ ∧ _))

def Single (layout : Layout) : Prop := ∀ p q, ¬layout.Shares p q

variable (layout : Layout) (p q : Panel)

theorem panel_put (docking : Docking) :
    (layout.put p docking).panel q = if q = p then docking else layout.panel q := by
  unfold panel put
  by_cases same : q = p <;> simp [same]

theorem panel_quiet (side : Side) :
    (layout.quiet side).panel q =
      if (layout.panel q).side = side then { layout.panel q with active := false } else layout.panel q := by
  unfold panel quiet
  cases found : layout.docking? q with
  | none => simp [found]
  | some docking => simp [found]

/-- Unless panels are split, the others on the side of a panel that is activated are closed. -/
theorem panel_activate (merged : layout.split = false) :
    (layout.activate p).panel q =
      if q = p then { layout.panel p with active := true }
      else if (layout.panel q).side = (layout.panel p).side then { layout.panel q with active := false }
      else layout.panel q := by
  simp only [activate, merged, Bool.false_eq_true, if_false, panel_put, panel_quiet]

@[simp] theorem split_put (docking : Docking) : (layout.put p docking).split = layout.split := rfl

@[simp] theorem split_activate : (layout.activate p).split = layout.split := by
  by_cases mode : layout.split <;> simp [activate, mode, quiet]

variable {layout p q} {r : Panel} {side : Side}

theorem Shares.of_panel {other : Layout} (shares : other.Shares p q) (first : other.panel p = layout.panel p)
    (second : other.panel q = layout.panel q) : layout.Shares p q := by
  unfold Shares at shares ⊢
  rwa [first, second] at shares

theorem Shares.of_put (shares : (layout.put r ⟨side, false⟩).Shares p q) : layout.Shares p q := by
  obtain ⟨different, first, second, same⟩ := shares
  -- A panel that is not active shares nothing, so both are other panels.
  have others : p ≠ r ∧ q ≠ r := by
    refine ⟨?_, ?_⟩
    · rintro rfl
      simp [panel_put] at first
    · rintro rfl
      simp [panel_put] at second
  exact Shares.of_panel ⟨different, first, second, same⟩ (by simp [panel_put, others]) (by simp [panel_put, others])

/-- The panel that is activated shares its side with no other, and the others share only what they shared. -/
theorem Shares.of_activate (merged : layout.split = false) (shares : (layout.activate r).Shares p q) :
    layout.Shares p q := by
  obtain ⟨different, first, second, same⟩ := shares
  simp only [panel_activate _ _ _ merged] at first second same
  refine ⟨different, ?_⟩
  grind

theorem Shares.of_togglePanel (merged : layout.split = false) (shares : (layout.togglePanel r).Shares p q) :
    layout.Shares p q := by
  simp only [togglePanel] at shares
  split at shares
  · exact shares.of_put
  · exact shares.of_activate merged

theorem Shares.of_changeSide (merged : layout.split = false) (shares : (layout.changeSide r side).Shares p q) :
    layout.Shares p q := by
  simp only [changeSide] at shares
  split at shares
  · have docked : (layout.put r ⟨side, false⟩).split = false := merged
    exact (Shares.of_activate docked shares).of_put
  · exact shares.of_put

end Layout

namespace MenuAction

def applyTo (layout : Layout) : MenuAction → Layout
  | moveChatToWindow | setAiEditPending _ => layout
  | toggleExpand panel => layout.toggleExpand panel
  | changeSide panel side => layout.changeSide panel side
  | setLabelsHidden labelsHidden => { layout with labelsHidden }
  | setSplit split => { layout with split }
  | togglePanel panel => layout.togglePanel panel

theorem split_applyTo (layout : Layout) (action : MenuAction) :
    (action.applyTo layout).split = layout.split ∨ action = setSplit (action.applyTo layout).split := by
  cases action with
  | setSplit split => exact .inr rfl
  | togglePanel panel =>
    left
    simp only [applyTo, Layout.togglePanel]
    split <;> simp
  | changeSide panel side =>
    left
    simp only [applyTo, Layout.changeSide]
    split <;> simp
  | moveChatToWindow | toggleExpand | setLabelsHidden | setAiEditPending => exact .inl rfl

/-- While panels are not split, two that share a side after an action did so before it. -/
theorem shares_of_applyTo {layout : Layout} {p q : Panel} (merged : layout.split = false) {action : MenuAction}
    (shares : (action.applyTo layout).Shares p q) : layout.Shares p q := by
  cases action with
  | togglePanel panel => exact Layout.Shares.of_togglePanel merged shares
  | changeSide panel side => exact Layout.Shares.of_changeSide merged shares
  | moveChatToWindow | toggleExpand | setLabelsHidden | setSplit | setAiEditPending => exact shares

end MenuAction

namespace Controller

variable {σ : Type} [SettingsStore σ]

theorem layout_dispatch (ui : Controller σ) (action : MenuAction) :
    (ui.dispatch action).value.layout = action.applyTo ui.layout := by
  cases action <;> rfl

theorem layout_run_dispatch (ui : Controller σ) (actions : List MenuAction) :
    (ui.run (actions.map .dispatch)).value.layout = actions.foldl MenuAction.applyTo ui.layout := by
  induction actions generalizing ui with
  | nil => rfl
  | cons action actions ih =>
    rw [List.foldl_cons, ← ui.layout_dispatch]
    exact ih _

def layoutAfter (store : σ) (actions : List MenuAction) : Layout :=
  (session store (actions.map .dispatch)).value.layout

variable {store : σ}

theorem layoutAfter_concat (actions : List MenuAction) (action : MenuAction) :
    layoutAfter store (actions ++ [action]) = action.applyTo (layoutAfter store actions) := by
  have foldl (actions : List MenuAction) : layoutAfter store actions = actions.foldl MenuAction.applyTo .initial :=
    layout_run_dispatch (start store).value actions
  rw [foldl, foldl, List.foldl_concat]

theorem single_initial : Layout.initial.Single := by
  rintro p q ⟨different, first, second, same⟩
  cases p <;> cases q <;> simp_all [Layout.panel, Layout.initial]

/-- Panels that share a side although they are not split have shared it since split panels were merged. -/
theorem shares_since_merge {actions : List MenuAction} {p q : Panel}
    (merged : (layoutAfter store actions).split = false) (shares : (layoutAfter store actions).Shares p q) :
    ∃ before after, actions = before ++ .setSplit false :: after ∧ .setSplit true ∉ after ∧
      (layoutAfter store before).split = true ∧ (layoutAfter store before).Shares p q := by
  induction actions using List.reverseRecOn with
  | nil => exact absurd shares (single_initial p q)
  | append_singleton actions action ih =>
    rw [layoutAfter_concat] at merged shares
    cases mode : (layoutAfter store actions).split with
    | true =>
      -- The last action ended the mode, which is all it did.
      have merging : action = .setSplit false := by
        rcases action.split_applyTo (layoutAfter store actions) with kept | set
        · simp [kept, mode] at merged
        · rw [set, merged]
      subst merging
      exact ⟨actions, [], rfl, by simp, mode, shares⟩
    | false =>
      have earlier := MenuAction.shares_of_applyTo mode shares
      obtain ⟨before, after, rfl, unsplit, wasSplit, shared⟩ := ih mode earlier
      have further : action ≠ .setSplit true := by
        rintro rfl
        simp [MenuAction.applyTo] at merged
      exact ⟨before, after ++ [action], by simp, by simp [unsplit, Ne.symm further], wasSplit, shared⟩

/-- Unless panels are split each side has at most one active panel, on every run on which panels are merged only while
that holds, and on no other. Panels that share a side all the same were already active on one side when split panels
were merged last. -/
theorem session_shares (store : σ) (actions : List MenuAction) :
    (∀ p q, (layoutAfter store actions).split = false → (layoutAfter store actions).Shares p q →
      ∃ before after, actions = before ++ .setSplit false :: after ∧ .setSplit true ∉ after ∧
        (layoutAfter store before).split = true ∧ (layoutAfter store before).Shares p q) ∧
    ((∀ before, before <+: actions → (layoutAfter store before).split = false → (layoutAfter store before).Single) ↔
      ∀ before after, actions = before ++ .setSplit false :: after → (layoutAfter store before).Single) := by
  refine ⟨fun p q => shares_since_merge, ?_, ?_⟩
  · rintro single before after rfl p q shares
    have merged : layoutAfter store (before ++ [.setSplit false]) =
        MenuAction.applyTo (layoutAfter store before) (.setSplit false) := layoutAfter_concat before _
    refine single (before ++ [.setSplit false]) ⟨after, by simp⟩ (by rw [merged]; rfl) p q ?_
    rw [merged]
    exact shares
  · rintro single before ⟨rest, rfl⟩ merged p q shares
    obtain ⟨first, after, rfl, -, -, shared⟩ := shares_since_merge merged shares
    exact single first (after ++ rest) (by simp) p q shared

/-- Panels that are split, opened beside one another and merged share their side, and still do after an action on
another side. -/
theorem session_shares_merged :
    let actions : List MenuAction := [.setSplit true, .togglePanel .inputs, .setSplit false, .togglePanel .errors]
    let layout := layoutAfter (MemoryStore.mk {}) actions
    layout.split = false ∧ layout.Shares .projectTree .inputs ∧
      ∃ before after, actions = before ++ .setSplit false :: after ∧ .setSplit true ∉ after ∧
        (layoutAfter (MemoryStore.mk {}) before).split = true ∧
        (layoutAfter (MemoryStore.mk {}) before).Shares .projectTree .inputs := by
  intro actions layout
  have merged : layout.split = false := by decide
  have shares : layout.Shares .projectTree .inputs := by decide
  exact ⟨merged, shares, (session_shares (MemoryStore.mk {}) actions).1 _ _ merged shares⟩

/-- It does not hold on every run that each side has at most one active panel unless panels are split. -/
theorem session_not_single :
    ¬∀ actions : List MenuAction, (layoutAfter (MemoryStore.mk {}) actions).split = false →
      (layoutAfter (MemoryStore.mk {}) actions).Single := by
  intro single
  refine single [.setSplit true, .togglePanel .inputs, .setSplit false] (by decide) .projectTree .inputs ?_
  decide

end Controller
end Gridbook
