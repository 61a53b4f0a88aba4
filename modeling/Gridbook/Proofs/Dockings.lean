import Gridbook.Proofs.Panels

/-!
What an action on one panel leaves alone. Opening, closing or moving a panel touches no other panel, except that a panel
that is active afterwards closes the others on its side unless panels are split (`Layout.Spares`). No action takes a panel
off the layout, so on every run each panel is listed on the side where it is docked and nowhere else.
-/
namespace Gridbook

namespace Layout

/-- What acting on a panel may do to the rest of a layout. Another panel stays on its side, or unlisted. It is never
opened, and it is closed only where panels are not split, beside the panel that is active afterwards. -/
structure Spares (before : Layout) (p : Panel) (after : Layout) : Prop where
  labelsHidden : after.labelsHidden = before.labelsHidden
  split : after.split = before.split
  expandedSide : after.expandedSide = before.expandedSide
  listed : ∀ q ≠ p, (after.docking? q).isSome = (before.docking? q).isSome
  side : ∀ q ≠ p, (after.panel q).side = (before.panel q).side
  closed : ∀ q ≠ p, (after.panel q).active ≠ (before.panel q).active →
    (before.panel q).active = true ∧ (after.panel q).active = false ∧ before.split = false ∧
      (after.panel p).active = true ∧ (after.panel q).side = (after.panel p).side

variable {layout after : Layout} {p q : Panel}

theorem Spares.refl (layout : Layout) (p : Panel) : layout.Spares p layout :=
  ⟨rfl, rfl, rfl, fun _ _ => rfl, fun _ _ => rfl, fun _ _ changed => absurd rfl changed⟩

/-- Putting the panel itself elsewhere does not matter. -/
theorem Spares.of_put {docking : Docking} (spares : (layout.put p docking).Spares p after) : layout.Spares p after := by
  have docked (q : Panel) (other : q ≠ p) : (layout.put p docking).docking? q = layout.docking? q := if_neg other
  have same (q : Panel) (other : q ≠ p) : (layout.put p docking).panel q = layout.panel q := by
    rw [panel_put, if_neg other]
  refine ⟨spares.labelsHidden, spares.split, spares.expandedSide, ?_, ?_, ?_⟩
  · intro q other
    rw [spares.listed q other, docked q other]
  · intro q other
    rw [spares.side q other, same q other]
  · intro q other changed
    have closed := spares.closed q other
    rw [same q other] at closed
    exact closed changed

theorem Spares.put (layout : Layout) (p : Panel) (docking : Docking) : layout.Spares p (layout.put p docking) :=
  (Spares.refl _ p).of_put

theorem Spares.activate (layout : Layout) (p : Panel) : layout.Spares p (layout.activate p) := by
  cases mode : layout.split with
  | true =>
    have alone : layout.activate p = layout.put p ⟨(layout.panel p).side, true⟩ := by simp [Layout.activate, mode]
    rw [alone]
    exact .put layout p _
  | false =>
    have panels (q : Panel) := layout.panel_activate p q mode
    have own : (layout.activate p).panel p = { layout.panel p with active := true } := by rw [panels, if_pos rfl]
    refine ⟨?_, layout.split_activate p, ?_, ?_, ?_, ?_⟩
    · simp [Layout.activate, mode, Layout.put, quiet]
    · simp [Layout.activate, mode, Layout.put, quiet]
    · intro q other
      simp [Layout.activate, mode, Layout.put, quiet, other]
    · intro q other
      rw [panels, if_neg other]
      split <;> rfl
    · intro q other changed
      rw [panels, if_neg other] at changed ⊢
      split at changed
      · next beside =>
        rw [if_pos beside, own]
        exact ⟨by simpa using changed, rfl, mode, rfl, beside⟩
      · exact absurd rfl changed

theorem Spares.togglePanel (layout : Layout) (p : Panel) : layout.Spares p (layout.togglePanel p) := by
  simp only [Layout.togglePanel]
  split
  · exact .put layout p _
  · exact .activate layout p

theorem Spares.changeSide (layout : Layout) (p : Panel) (side : Side) : layout.Spares p (layout.changeSide p side) := by
  simp only [Layout.changeSide]
  split
  · exact (Spares.activate _ p).of_put
  · exact .put layout p _

/-- The panel that is activated stays on its side. -/
theorem panel_activate_self (layout : Layout) (p : Panel) :
    (layout.activate p).panel p = ⟨(layout.panel p).side, true⟩ := by
  simp [activate, panel_put]

theorem panel_togglePanel_self (layout : Layout) (p : Panel) :
    (layout.togglePanel p).panel p = ⟨(layout.panel p).side, !(layout.panel p).active⟩ := by
  cases active : (layout.panel p).active with
  | true => simp [togglePanel, active, panel_put]
  | false => simp [togglePanel, active, panel_activate_self]

theorem panel_changeSide_self (layout : Layout) (p : Panel) (side : Side) :
    (layout.changeSide p side).panel p = ⟨side, (layout.panel p).active⟩ := by
  cases active : (layout.panel p).active with
  | true => simp [changeSide, active, panel_activate_self, panel_put]
  | false => simp [changeSide, active, panel_put]

def Complete (layout : Layout) : Prop := ∀ p, (layout.docking? p).isSome = true

theorem Complete.of_spares (complete : layout.Complete) (spares : layout.Spares p after)
    (own : (after.docking? p).isSome = true) : after.Complete := by
  intro q
  by_cases same : q = p
  · rw [same]
    exact own
  · rw [spares.listed q same]
    exact complete q

theorem isSome_put (layout : Layout) (p : Panel) (docking : Docking) :
    ((layout.put p docking).docking? p).isSome = true := by
  simp [put]

theorem isSome_togglePanel (layout : Layout) (p : Panel) : ((layout.togglePanel p).docking? p).isSome = true := by
  simp only [togglePanel]
  split <;> exact isSome_put _ p _

theorem isSome_changeSide (layout : Layout) (p : Panel) (side : Side) :
    ((layout.changeSide p side).docking? p).isSome = true := by
  simp only [changeSide]
  split <;> exact isSome_put _ p _

theorem Complete.applyTo (complete : layout.Complete) (action : MenuAction) : (action.applyTo layout).Complete := by
  cases action with
  | togglePanel p => exact complete.of_spares (.togglePanel layout p) (layout.isSome_togglePanel p)
  | changeSide p side => exact complete.of_spares (.changeSide layout p side) (layout.isSome_changeSide p side)
  | moveChatToWindow | toggleExpand | setLabelsHidden | setSplit | setAiEditPending => exact complete

/-- The panels of a side stand in the order in which panels are declared. -/
theorem pairwise_panelsAt (layout : Layout) (side : Side) :
    (layout.panelsAt side).Pairwise fun p q => p.ctorIdx < q.ctorIdx := by
  have all : Panel.all.Pairwise fun p q => p.ctorIdx < q.ctorIdx := by decide
  exact all.sublist List.filter_sublist

theorem mem_panelsAt {side : Side} :
    p ∈ layout.panelsAt side ↔ (layout.docking? p).isSome = true ∧ side = (layout.panel p).side := by
  have every : p ∈ Panel.all := by cases p <;> decide
  unfold panelsAt panel
  cases found : layout.docking? p with
  | none => simp [found]
  | some docking => simp [found, every, eq_comm]

theorem Complete.count_panelsAt (complete : layout.Complete) (p : Panel) (side : Side) :
    (layout.panelsAt side).count p = if side = (layout.panel p).side then 1 else 0 := by
  have distinct : (layout.panelsAt side).Nodup :=
    (layout.pairwise_panelsAt side).imp fun before same => by simp [same] at before
  split
  · next docked => exact List.count_eq_one_of_mem distinct (mem_panelsAt.2 ⟨complete p, docked⟩)
  · next elsewhere => exact List.count_eq_zero.2 fun inside => elsewhere (mem_panelsAt.1 inside).2

end Layout

namespace Controller

variable {σ : Type} [SettingsStore σ]

theorem complete_layoutAfter (store : σ) (actions : List MenuAction) : (layoutAfter store actions).Complete := by
  induction actions using List.reverseRecOn with
  | nil =>
    intro p
    cases p <;> rfl
  | append_singleton actions action ih =>
    rw [layoutAfter_concat]
    exact ih.applyTo action

/-- On every run each panel is listed once, on the side where it is docked, and the lists are in the order of panels. And
whatever the layout, opening, closing or moving a panel does to the others only what unsplit panels demand. A panel that
is toggled stays on its side, and one that is moved stays open or closed. -/
theorem session_docked (store : σ) (actions : List MenuAction) :
    (∀ p side, ((layoutAfter store actions).panelsAt side).count p =
      if side = ((layoutAfter store actions).panel p).side then 1 else 0) ∧
    (∀ side, ((layoutAfter store actions).panelsAt side).Pairwise fun p q => p.ctorIdx < q.ctorIdx) ∧
    ∀ (layout : Layout) (p : Panel),
      (layout.Spares p (layout.togglePanel p) ∧
        (layout.togglePanel p).panel p = ⟨(layout.panel p).side, !(layout.panel p).active⟩) ∧
      ∀ side, layout.Spares p (layout.changeSide p side) ∧
        (layout.changeSide p side).panel p = ⟨side, (layout.panel p).active⟩ := by
  refine ⟨(complete_layoutAfter store actions).count_panelsAt, Layout.pairwise_panelsAt _, ?_⟩
  intro layout p
  exact ⟨⟨.togglePanel layout p, layout.panel_togglePanel_self p⟩,
    fun side => ⟨.changeSide layout p side, layout.panel_changeSide_self p side⟩⟩

end Controller
end Gridbook
