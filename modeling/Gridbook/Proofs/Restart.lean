import Gridbook.Proofs.DeskRuns
import Gridbook.Proofs.Saving

/-!
A restart keeps the preferences. In a store that keeps what is set, loading the desk after one preference has been set
gives the desk as it was loaded before with that preference changed. So a desk and what is loaded from its store agree
after every action and hence after every run, also when the store is opened again from its file.
-/
namespace Gridbook

open Number (Double)

/-- A store in which every key has the value that was set last. -/
class LawfulStore (σ : Type) [SettingsStore σ] : Prop where
  get?_set (store : σ) (key value other : String) :
    SettingsStore.get? (SettingsStore.set store key value).value other =
      if other = key then some value else SettingsStore.get? store other

instance : LawfulStore MemoryStore where
  get?_set store key value other := store.settings.get?_insert key value other

instance : LawfulStore FileStore where
  get?_set store key value other := by
    obtain ⟨disk, result, -⟩ := store.set_cases key value
    change (store.set key value).value.settings.get? other = _
    rw [result]
    exact store.settings.get?_insert key value other

namespace DeskState

theorem readZoom_text {zoom : Double} (inside : zoom ∈ Zoom.steps) : (readZoom (some zoom.text)).value = zoom := by
  have back : ∀ zoom ∈ Zoom.steps, Double.read? zoom.text = some zoom := by decide +kernel
  simp [readZoom, back zoom inside, inside]

theorem readStoredTheme_name (theme : AppTheme) : (readStoredTheme (some theme.name)).value = theme := by
  cases theme <;> rfl

theorem readChatPlacement_name (placement : ChatPlacement) :
    (readChatPlacement (some placement.name)).value = placement := by
  cases placement <;> rfl

def readShowHiddenFiles (stored : Option String) : Bool := stored = some "true"

theorem readShowHiddenFiles_text (shown : Bool) :
    readShowHiddenFiles (some (if shown then "true" else "false")) = shown := by
  cases shown <;> rfl

variable {σ : Type} [SettingsStore σ]

theorem preferences_load (store : σ) :
    (load store).value.preferences =
      { zoom := (readZoom (SettingsStore.get? store SettingKey.zoom)).value
        theme := (readStoredTheme (SettingsStore.get? store SettingKey.theme)).value
        chatPlacement := (readChatPlacement (SettingsStore.get? store SettingKey.chatPlacement)).value
        showHiddenFiles := readShowHiddenFiles (SettingsStore.get? store SettingKey.showHiddenFiles) } := rfl

/-- A preference that is set is loaded, and the others as before. -/
theorem preferences_load_set [LawfulStore σ] (store : σ) (change : Preference) :
    (load (SettingsStore.set store change.key change.text).value).value.preferences =
      change.applyTo (load store).value.preferences := by
  simp only [preferences_load, LawfulStore.get?_set]
  rcases change with ⟨zoom, inside⟩ | theme | placement | shown
  all_goals
    simp [SettingKey.zoom, SettingKey.theme, SettingKey.chatPlacement, SettingKey.showHiddenFiles, readZoom_text,
      readStoredTheme_name, readChatPlacement_name, readShowHiddenFiles_text, *]

/-- Loading from the store gives the preferences of the desk. -/
def Persisted (desk : DeskState σ) : Prop := (load desk.store).value.preferences = desk.preferences

theorem Persisted.perform [LawfulStore σ] {desk : DeskState σ} (persisted : desk.Persisted) (action : DeskAction) :
    (desk.perform action).value.1.Persisted := by
  unfold Persisted at persisted ⊢
  rcases desk.perform_cases action with ⟨store, same⟩ | ⟨change, store, changed, -⟩
  · rw [store, same, persisted]
  · rw [store, changed, preferences_load_set, persisted]

end DeskState

namespace Controller

/-- The desk runs on the file, which holds all that is in its store. -/
structure OnFile (path : Path) (desk : DeskState FileStore) : Prop where
  path : desk.store.path = path
  saved : desk.store.Saved
  persisted : desk.Persisted

theorem OnFile.perform {path : Path} {desk : DeskState FileStore} (onFile : OnFile path desk) {action : DeskAction}
    (written : ∀ line ∈ (desk.perform action).log, ∀ error, line ≠ FileStore.failure path error) :
    OnFile path (desk.perform action).value.1 := by
  obtain ⟨rfl, saved, persisted⟩ := onFile
  rcases desk.perform_cases action with ⟨store, -⟩ | ⟨change, store, -, logged⟩
  · exact ⟨by rw [store], by rwa [store], persisted.perform action⟩
  · have silent : ∀ error, FileStore.failure desk.store.path error ∉ (desk.store.set change.key change.text).log :=
      fun error failed => written _ (logged _ failed) error rfl
    refine ⟨?_, ?_, persisted.perform action⟩
    · rw [store]
      exact desk.store.path_set change.key change.text
    · rw [store]
      exact saved.set silent

/-- A restart changes no preference. After every run on a store in memory, and after every run on a file in which no
write fails, a desk that is loaded from the store that is left, or from the file that is left, has the preferences of
the desk that was running. -/
theorem session_restart :
    (∀ (settings : Settings) (actions : List UserAction),
      let desk := (session (MemoryStore.mk settings) actions).value.desk
      (DeskState.load desk.store).value.preferences = desk.preferences) ∧
    (∀ (disk : Disk) (path : Path) (actions : List UserAction),
      let run := FileStore.openAt disk path >>= fun store => session store actions
      let desk := run.value.desk
      (∀ error, FileStore.failure path error ∉ run.log) →
        (FileStore.openAt desk.store.disk path >>= DeskState.load).value.preferences = desk.preferences) := by
  refine ⟨?_, ?_⟩
  · intro settings actions
    exact run_keeps (fun _ => True) DeskState.Persisted (fun _ action persisted _ => persisted.perform action) rfl
      fun _ _ => trivial
  · intro disk path actions run desk written
    have opened : OnFile path (start (FileStore.openAt disk path).value).value.desk :=
      ⟨FileStore.path_openAt disk path, FileStore.saved_openAt disk path, rfl⟩
    have onFile : OnFile path desk := by
      refine run_keeps (∀ error, · ≠ FileStore.failure path error) (OnFile path)
        (fun _ _ onFile quiet => onFile.perform quiet) opened ?_
      rintro line inside error rfl
      exact written error (by simp [run, session, inside])
    have reopened : (FileStore.openAt desk.store.disk path).value = desk.store := onFile.path ▸ onFile.saved
    rw [Logged.value_bind, reopened]
    exact onFile.persisted

/-- A file with a zoom that is not spelled as it is written, and a run that changes three preferences, one of them from
a menu. -/
theorem session_restart_file :
    let path : Path := ⟨"/cfg/ui.json"⟩
    let disk : Disk := { entries := [(.ofNames ["cfg"], .folder),
      (.ofNames ["cfg", "ui.json"], .file (.text "\x7b\"values\":\x7b\"zoom\":\"0.50\",\"\\n\":\"é\"\x7d\x7d"))] }
    let actions : List UserAction := [.desk (.wheel 2), .dispatch .moveChatToWindow, .desk (.wheel 9),
      .desk (.switchShowHiddenFiles true)]
    let run := FileStore.openAt disk path >>= fun store => session store actions
    let desk := run.value.desk
    desk.preferences = ⟨Zoom.normal, .light, .floating, true⟩ ∧ (∀ error, FileStore.failure path error ∉ run.log) ∧
      (FileStore.openAt desk.store.disk path >>= DeskState.load).value.preferences = desk.preferences := by
  intro path disk actions run desk
  have logged : run.log.map (·.level) = [.debug] := by decide +kernel
  have written : ∀ error, FileStore.failure path error ∉ run.log := by
    intro error failed
    have := List.mem_map_of_mem (f := (·.level)) failed
    simp [logged, FileStore.failure] at this
  exact ⟨by decide +kernel, written, session_restart.2 disk path actions written⟩

end Controller
end Gridbook
