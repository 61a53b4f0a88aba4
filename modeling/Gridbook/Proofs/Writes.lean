import Gridbook.Command.SheetFile
import Gridbook.Proofs.Files

/-!
Files written one after the other. Writing a file makes and removes no folder (`Disk.SameFolders`), so it changes neither
where paths lead nor which files can be opened and what they can hold: whether a write fails is decided by the disk before
the first one. What stands at a place after some writes is what was written there last, or else what was there before
(`SheetWriter.Wrote`).
-/
namespace Gridbook

namespace Disk

def at? (disk : Disk) (path : Path) : Option Entry :=
  match disk.locate path with
  | .ok location => disk.entry? location
  | .error _ => none

/-- The two disks differ at most in their files. -/
structure SameFolders (disk other : Disk) : Prop where
  folders : ∀ location, other.entry? location = some .folder ↔ disk.entry? location = some .folder
  locked : other.locked = disk.locked
  limits : other.limits = disk.limits
  cwd : other.cwd = disk.cwd

variable {disk other : Disk} {path : Path} {location : Location}

theorem walk_cons_ok {start place : Location} {move : PathStep} {moves : List PathStep} :
    disk.walk start (move :: moves) = .ok place ↔
      disk.entry? start = some .folder ∧ ∃ next, step start move = .ok next ∧ disk.walk next moves = .ok place := by
  rw [walk]
  cases disk.entry? start with
  | none => simp
  | some entry =>
    cases entry with
    | file => simp
    | folder => cases step start move <;> simp

/-- A walk only looks for folders. -/
theorem SameFolders.walk (same : disk.SameFolders other) {start place : Location} {moves : List PathStep} :
    other.walk start moves = .ok place ↔ disk.walk start moves = .ok place := by
  induction moves generalizing start with
  | nil => exact Iff.rfl
  | cons move moves ih => simp only [walk_cons_ok, same.folders, ih]

theorem SameFolders.locate (same : disk.SameFolders other) :
    other.locate path = .ok location ↔ disk.locate path = .ok location := by
  unfold Disk.locate start
  rw [same.cwd]
  split
  · exact Iff.rfl
  · exact same.walk

theorem exists_opened_iff :
    (∃ old, disk.openToWrite path = .ok (location, old)) ↔ path.endsInSlash = false ∧
      disk.locate path = .ok location ∧ location ∉ disk.locked ∧ disk.entry? location ≠ some .folder := by
  constructor
  · rintro ⟨old, opened⟩
    obtain ⟨noSlash, located, unlocked, -⟩ := openToWrite_iff.1 opened
    exact ⟨noSlash, located, unlocked, (openToWrite_ok opened).2.2⟩
  · rintro ⟨noSlash, located, unlocked, free⟩
    cases found : disk.entry? location with
    | none => exact ⟨none, openToWrite_iff.2 ⟨noSlash, located, unlocked, found⟩⟩
    | some entry =>
      cases entry with
      | folder => exact absurd found free
      | file content => exact ⟨some content, openToWrite_iff.2 ⟨noSlash, located, unlocked, found⟩⟩

theorem SameFolders.exists_opened (same : disk.SameFolders other) :
    (∃ old, other.openToWrite path = .ok (location, old)) ↔ ∃ old, disk.openToWrite path = .ok (location, old) := by
  simp only [exists_opened_iff, same.locate, same.locked, ne_eq, same.folders]

theorem writeText_ok_iff {text : String} :
    (disk.writeText path text).2 = .ok () ↔
      ∃ location, (∃ old, disk.openToWrite path = .ok (location, old)) ∧
        ∀ most ∈ disk.limits.lookup location, text.utf8ByteSize ≤ most := by
  constructor
  · intro done
    obtain ⟨location, old, opened, fits, -⟩ := writeText_iff.1 (Prod.ext rfl done)
    exact ⟨location, ⟨old, opened⟩, fits⟩
  · rintro ⟨location, ⟨old, opened⟩, fits⟩
    rw [writeText_iff.2 ⟨location, old, opened, fits, rfl⟩]

theorem SameFolders.writeText_ok (same : disk.SameFolders other) {text : String} :
    (other.writeText path text).2 = .ok () ↔ (disk.writeText path text).2 = .ok () := by
  simp only [writeText_ok_iff, same.exists_opened, same.limits]

theorem sameFolders_put (free : disk.entry? location ≠ some .folder) (content : Content) :
    disk.SameFolders (disk.put location (.file content)) := by
  refine ⟨fun place => ?_, rfl, rfl, rfl⟩
  by_cases here : place = location
  · subst here
    simp [entry?_put disk _ (ne_root_of_free free), free]
  · rw [entry?_put_ne _ here]

theorem SameFolders.at?_eq (same : disk.SameFolders other)
    (kept : ∀ location, disk.locate path = .ok location → other.entry? location = disk.entry? location) :
    other.at? path = disk.at? path := by
  unfold at?
  cases located : disk.locate path with
  | ok location =>
    rw [same.locate.2 located]
    exact kept location located
  | error error =>
    split
    · next location there =>
      rw [same.locate, located] at there
      cases there
    · rfl

/-- A write that fails leaves what other paths lead to as it was. -/
theorem Interrupted.at?_eq {left : Disk} {text : String} {path' : Path} (interrupted : disk.Interrupted path text left)
    (apart : ∀ location, disk.locate path = .ok location → disk.locate path' ≠ .ok location) :
    left.at? path' = disk.at? path' := by
  cases interrupted with
  | unopened => rfl
  | unfilled opened =>
    obtain ⟨-, located, free⟩ := openToWrite_ok opened
    refine (sameFolders_put free _).at?_eq fun place there => entry?_put_ne _ ?_
    rintro rfl
    exact apart _ located there

end Disk

namespace SheetWriter

/-- The file of the sheet can be opened and can hold the content. -/
def Accepts (writer : SheetWriter) (disk : Disk) (change : SheetChange) : Prop :=
  (disk.writeText (writer.pathFor change.sheet) change.content).2 = .ok ()

def lastAt? (writer : SheetWriter) (disk : Disk) (changes : List SheetChange) (location : Location) :
    Option SheetChange :=
  changes.reverse.find? fun change => disk.locate (writer.pathFor change.sheet) = .ok location

/-- The tree of files after the changes: at each place the last change that is written there, or else what was there. -/
structure Wrote (writer : SheetWriter) (changes : List SheetChange) (before after : Disk) : Prop where
  entries : ∀ location, after.entry? location =
    match writer.lastAt? before changes location with
    | some change => some (.file (.text change.content))
    | none => before.entry? location
  locked : after.locked = before.locked
  limits : after.limits = before.limits
  cwd : after.cwd = before.cwd

/-- A change is written where a path leads. -/
def Hits (writer : SheetWriter) (disk : Disk) (path : Path) (change : SheetChange) : Prop :=
  ∃ location, disk.locate (writer.pathFor change.sheet) = .ok location ∧ disk.locate path = .ok location

variable {writer : SheetWriter} {disk middle after : Disk} {changes a b : List SheetChange} {change : SheetChange}

theorem wrote_nil (writer : SheetWriter) (disk : Disk) : writer.Wrote [] disk disk := ⟨fun _ => rfl, rfl, rfl, rfl⟩

theorem wrote_singleton {location : Location} {old : Option Content}
    (opened : disk.openToWrite (writer.pathFor change.sheet) = .ok (location, old)) :
    writer.Wrote [change] disk (disk.put location (.file (.text change.content))) := by
  obtain ⟨-, located, free⟩ := Disk.openToWrite_ok opened
  refine ⟨?_, rfl, rfl, rfl⟩
  intro place
  by_cases here : place = location
  · subst here
    simp [lastAt?, located, Disk.entry?_put disk _ (Disk.ne_root_of_free free)]
  · have elsewhere : location ≠ place := Ne.symm here
    simp [lastAt?, located, elsewhere, Disk.entry?_put_ne _ here]

theorem mem_of_lastAt? {location : Location} (found : writer.lastAt? disk changes location = some change) :
    change ∈ changes ∧ disk.locate (writer.pathFor change.sheet) = .ok location := by
  have leads := List.find?_some found
  exact ⟨List.mem_reverse.1 (List.mem_of_find?_eq_some found), of_decide_eq_true leads⟩

/-- No file is written in place of a folder. -/
theorem Wrote.sameFolders (wrote : writer.Wrote changes disk after)
    (accepted : ∀ change ∈ changes, writer.Accepts disk change) : disk.SameFolders after := by
  refine ⟨?_, wrote.locked, wrote.limits, wrote.cwd⟩
  intro location
  rw [wrote.entries]
  split
  · next change found =>
    obtain ⟨inside, located⟩ := mem_of_lastAt? found
    obtain ⟨place, opened, -⟩ := Disk.writeText_ok_iff.1 (accepted change inside)
    obtain ⟨-, there, -, free⟩ := Disk.exists_opened_iff.1 opened
    obtain rfl := Except.ok.inj (located.symm.trans there)
    simp [free]
  · exact Iff.rfl

theorem lastAt?_append (location : Location) :
    writer.lastAt? disk (a ++ b) location = (writer.lastAt? disk b location).or (writer.lastAt? disk a location) := by
  simp [lastAt?, List.find?_append]

theorem lastAt?_congr (same : disk.SameFolders middle) (location : Location) :
    writer.lastAt? middle changes location = writer.lastAt? disk changes location := by
  simp only [lastAt?, same.locate]

/-- Changes that are written behind others are changes to the disk that those leave. -/
theorem Wrote.append (first : writer.Wrote a disk middle) (same : disk.SameFolders middle)
    (second : writer.Wrote b middle after) : writer.Wrote (a ++ b) disk after := by
  refine ⟨?_, second.locked.trans first.locked, second.limits.trans first.limits, second.cwd.trans first.cwd⟩
  intro location
  rw [second.entries, first.entries, lastAt?_congr same, lastAt?_append]
  cases writer.lastAt? disk b location <;> rfl

section

variable {path : Path} {location : Location} (wrote : writer.Wrote changes disk after) (same : disk.SameFolders after)
  (apart : ∀ change ∈ changes, ¬writer.Hits disk path change)
include wrote apart

/-- What no change is written to stays. -/
theorem Wrote.entry?_eq (located : disk.locate path = .ok location) : after.entry? location = disk.entry? location := by
  have missed : writer.lastAt? disk changes location = none := by
    cases found : writer.lastAt? disk changes location with
    | none => rfl
    | some change =>
      obtain ⟨inside, there⟩ := mem_of_lastAt? found
      exact absurd ⟨location, there, located⟩ (apart change inside)
  simp only [wrote.entries, missed]

include same

theorem Wrote.at?_eq : after.at? path = disk.at? path := same.at?_eq fun _ => wrote.entry?_eq apart

theorem Wrote.openToWrite_eq {old : Option Content} (opened : disk.openToWrite path = .ok (location, old)) :
    after.openToWrite path = .ok (location, old) := by
  obtain ⟨noSlash, located, unlocked, held⟩ := Disk.openToWrite_iff.1 opened
  exact Disk.openToWrite_iff.2 ⟨noSlash, same.locate.2 located, wrote.locked ▸ unlocked,
    (wrote.entry?_eq apart located).trans held⟩

theorem Wrote.readText_eq (located : disk.locate path = .ok location) : after.readText path = disk.readText path := by
  simp only [Disk.readText, located, same.locate.2 located, bind, Except.bind, wrote.entry?_eq apart located]

end

end SheetWriter
end Gridbook
