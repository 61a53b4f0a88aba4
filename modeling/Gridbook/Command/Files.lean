import Gridbook.File.Disk
import Gridbook.Log

/-!
What commands ask of the machine they run on: to read, write, extend and list files. `Session` answers from a disk
held as a value.
-/
namespace Gridbook

class MonadFiles (m : Type → Type) where
  readText : Path → m (Except FileError String)
  writeText : Path → String → m (Except FileError Unit)
  appendText : Path → String → m (Except FileError Unit)
  list : Path → m (Except FileError (List (String × Bool)))

structure Session where
  disk : Disk
  log : List LogLine := []
  deriving DecidableEq

abbrev SessionM := StateM Session

namespace SessionM

instance : MonadLog SessionM where
  log line := modify fun session => { session with log := session.log ++ [line] }

/-- Changes the disk. The disk that is left counts, also if the change fails. -/
def change (f : Disk → Disk × Except FileError Unit) : SessionM (Except FileError Unit) := fun session =>
  let (disk, result) := f session.disk
  (result, { session with disk })

instance : MonadFiles SessionM where
  readText path := do return (← get).disk.readText path
  writeText path text := change fun disk => disk.writeText path text
  appendText path text := change fun disk => disk.appendText path text
  list path := do return (← get).disk.list path

end SessionM
end Gridbook
