import Gridbook.Desk.Settings
import Gridbook.File.Disk
import Gridbook.Log

/-!
Stores of settings. One keeps them in memory only; the other writes them to a file at every change and goes on with the
new value if that fails.
-/
namespace Gridbook

class SettingsStore (σ : Type) where
  get? : σ → String → Option String
  set : σ → String → String → Logged σ

structure MemoryStore where
  settings : Settings := {}
  deriving DecidableEq

instance : SettingsStore MemoryStore where
  get? store key := store.settings.get? key
  set store key value := pure ⟨store.settings.insert key value⟩

/-- Settings, the file they are saved in and the disk it lies on. -/
structure FileStore where
  path : Path
  settings : Settings
  disk : Disk
  deriving DecidableEq

namespace FileStore

/-- A file that cannot be read counts as empty; one that is no settings file does too, with a warning. -/
def openAt (disk : Disk) (path : Path) : Logged FileStore :=
  match disk.readText path with
  | .error _ => pure ⟨path, {}, disk⟩
  | .ok text =>
    match (Json.read text).bind Settings.ofJson? with
    | some settings => pure ⟨path, settings, disk⟩
    | none => do
      warn ("Ignoring malformed " ++ path.text)
      return ⟨path, {}, disk⟩

/-- Where settings lie below the folder for configurations. -/
def defaultPath (folder : Path) : Path := (folder.join "quantgrid").join "ui-state.json"

/-- Makes the folders that a file lies in. -/
def makeFoldersFor (disk : Disk) (path : Path) : Disk × Except FileError Unit :=
  match path.parent? with
  | none => (disk, .ok ())
  | some folder => disk.makeFolders folder

/-- What was done before a failure stays. -/
def save (store : FileStore) : FileStore × Except FileError Unit :=
  let (disk, made) := makeFoldersFor store.disk store.path
  match made with
  | .error error => ({ store with disk }, .error error)
  | .ok () =>
    let (disk, result) := disk.writeText store.path store.settings.toJson.layout
    ({ store with disk }, result)

def set (store : FileStore) (key value : String) : Logged FileStore :=
  let (saved, result) := save { store with settings := store.settings.insert key value }
  match result with
  | .ok () => pure saved
  | .error error => do
    warn ("Failed to write " ++ store.path.text ++ ": " ++ error.message)
    return saved

instance : SettingsStore FileStore where
  get? store key := store.settings.get? key
  set := FileStore.set

end FileStore
end Gridbook
