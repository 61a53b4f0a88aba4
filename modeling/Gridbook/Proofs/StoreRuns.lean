import Gridbook.Proofs.Saving
import Gridbook.Proofs.Restart
import Mathlib.Data.List.Sort

/-!
Runs of a store on a file. Every value that is set is found under its key, whether it reaches the file or not. Settings
in the order of their keys are told apart by their values alone, so the text that is saved is decided by what the store
holds and not by the way it came to hold it. A save that fails has at most made folders and, when the file was opened
but not filled, left the beginning of the text in it (`Disk.CutShort`).
-/
namespace Gridbook

namespace Settings

/-- In entries whose keys increase, a key leads to each entry. -/
theorem lookup_eq_some_iff {entries : List (String × String)} (sorted : entries.Pairwise fun a b => a.1 < b.1)
    {key value : String} : entries.lookup key = some value ↔ (key, value) ∈ entries := by
  induction entries with
  | nil => simp
  | cons entry entries ih =>
    obtain ⟨first, rest⟩ := List.pairwise_cons.1 sorted
    by_cases here : key = entry.1
    · -- The key comes first, so it does not come again.
      have once : (key, value) ∉ entries := fun again => String.lt_irrefl key (by simpa [← here] using first _ again)
      simp only [List.mem_cons, once, or_false]
      grind
    · have skipped : (key == entry.1) = false := by simpa using here
      rw [List.lookup_cons, skipped, ih rest]
      grind

/-- Settings with the same values are the same. -/
theorem Sorted.ext {a b : Settings} (first : a.Sorted) (second : b.Sorted) (same : ∀ key, a.get? key = b.get? key) :
    a = b := by
  have members (entry : String × String) : entry ∈ a.entries ↔ entry ∈ b.entries := by
    rw [← lookup_eq_some_iff first, ← lookup_eq_some_iff second]
    exact iff_of_eq (congrArg (· = some entry.2) (same entry.1))
  have : Std.Antisymm fun x y : String × String => x.1 < y.1 :=
    ⟨fun x y before behind => absurd before (String.lt_asymm behind)⟩
  have : Std.Irrefl fun x y : String × String => x.1 < y.1 := ⟨fun x => String.lt_irrefl x.1⟩
  exact congrArg Settings.mk (List.Pairwise.eq_of_mem_iff first second members)

end Settings

namespace Disk

/-- The file that the path leads to holds the beginning of the text, as far as it fits. Every other file is as it was. -/
def CutShort (disk : Disk) (path : Path) (text : String) (left : Disk) : Prop :=
  ∃ location most, left.locate path = .ok location ∧ disk.limits.lookup location = some most ∧
    most < text.utf8ByteSize ∧ left.entry? location = some (.file (.ofBytes ((Content.text text).toBytes.take most))) ∧
    ∀ other content, other ≠ location →
      (left.entry? other = some (.file content) ↔ disk.entry? other = some (.file content))

end Disk

namespace FileStore

/-- What a file has under a key. A file that is missing or is no settings file has nothing. -/
def stored? (disk : Disk) (path : Path) (key : String) : Option String := do
  let text ← (disk.readText path).toOption
  let json ← Json.read text
  let settings ← Settings.ofJson? json
  settings.get? key

theorem get?_openAt (disk : Disk) (path : Path) (key : String) :
    SettingsStore.get? (openAt disk path).value key = stored? disk path key := by
  change (openAt disk path).value.settings.get? key = _
  unfold openAt stored?
  cases disk.readText path with
  | error => rfl
  | ok text =>
    cases read : (Json.read text).bind Settings.ofJson? with
    | none =>
      simp only [Except.toOption, Option.bind_eq_bind, Option.bind_some, ← Option.bind_assoc, read]
      rfl
    | some settings =>
      simp only [Except.toOption, Option.bind_eq_bind, Option.bind_some, ← Option.bind_assoc, read]
      rfl

/-- The folders of the file can be made, and then the file can be opened. -/
def CanOpen (store : FileStore) : Prop :=
  (makeFoldersFor store.disk store.path).2 = .ok () ∧ (makeFoldersFor store.disk store.path).1.Writable store.path

theorem set_left {store : FileStore} {key value : String} {error : FileError}
    (failed : failure store.path error ∈ (store.set key value).log) :
    (¬store.CanOpen → store.disk.SameFiles (store.set key value).value.disk) ∧
      (store.CanOpen → store.disk.CutShort store.path (store.settings.insert key value).toJson.layout
        (store.set key value).value.disk) := by
  have same := makeFoldersFor_sameFiles store.disk store.path
  obtain ⟨disk, result, ⟨quiet, -⟩ | ⟨-, -, ⟨stuck, rfl⟩ | ⟨made, interrupted⟩⟩⟩ := store.set_cases key value
  · simp [quiet] at failed
  · rw [result]
    exact ⟨fun _ => same, fun can => absurd can.1 stuck⟩
  · -- The folders are there. What is left depends on how far the write itself came.
    rw [result]
    cases interrupted with
    | unopened refused =>
      refine ⟨fun _ => same, ?_⟩
      rintro ⟨-, location, old, opened⟩
      cases refused.symm.trans opened
    | @unfilled location old most opened limited less =>
      obtain ⟨-, located, free⟩ := Disk.openToWrite_ok opened
      refine ⟨fun cannot => absurd ⟨made, location, old, opened⟩ cannot, fun _ => ?_⟩
      refine ⟨location, most, Disk.locate_put _ free located, same.limits ▸ limited, less,
        Disk.entry?_put _ _ (Disk.ne_root_of_free free), fun other content apart => ?_⟩
      rw [Disk.entry?_put_ne _ apart]
      exact same.files other content

def setAll (store : FileStore) : List (String × String) → Logged FileStore
  | [] => pure store
  | (key, value) :: sets => do (← store.set key value).setAll sets

variable {store : FileStore}

/-- A key has the value that was set last, or else the one that it had. -/
theorem get?_setAll (store : FileStore) (sets : List (String × String)) (key : String) :
    SettingsStore.get? (store.setAll sets).value key = (sets.reverse.lookup key).or (SettingsStore.get? store key) := by
  induction sets generalizing store with
  | nil => rfl
  | cons entry sets ih =>
    rw [setAll, Logged.value_bind, ih, List.reverse_cons, List.lookup_append, Option.or_assoc]
    congr 1
    obtain ⟨set, value⟩ := entry
    refine (LawfulStore.get?_set store set value key).trans ?_
    by_cases here : key = set
    · simp [here]
    · have skipped : (key == set) = false := by simpa using here
      simp [List.lookup_cons, skipped, here]

theorem saved_setAll (saved : store.Saved) (sets : List (String × String))
    (written : ∀ error, failure store.path error ∉ (store.setAll sets).log) :
    (store.setAll sets).value.Saved ∧ (store.setAll sets).value.path = store.path := by
  induction sets generalizing store with
  | nil => exact ⟨saved, rfl⟩
  | cons entry sets ih =>
    simp only [setAll, Logged.log_bind, List.mem_append, not_or, forall_and] at written
    have next := saved.set written.1
    have path := store.path_set entry.1 entry.2
    have further := ih next (by rw [path]; exact written.2)
    exact ⟨further.1, further.2.trans path⟩

/-- After a set that is written, the file holds the text of the settings. -/
theorem readText_setAll (store : FileStore) {sets : List (String × String)} (nonempty : sets ≠ [])
    (written : ∀ error, failure store.path error ∉ (store.setAll sets).log) :
    (store.setAll sets).value.disk.readText store.path = .ok (store.setAll sets).value.settings.toJson.layout := by
  induction sets generalizing store with
  | nil => exact absurd rfl nonempty
  | cons entry sets ih =>
    simp only [setAll, Logged.log_bind, List.mem_append, not_or, forall_and] at written
    cases sets with
    | nil =>
      obtain ⟨disk, result, ⟨-, text⟩ | ⟨error, failed, -⟩⟩ := store.set_cases entry.1 entry.2
      · simp only [setAll, Logged.value_bind, Logged.value_pure, result]
        exact text
      · exact absurd (by simp [failed]) (written.1 error)
    | cons next sets =>
      have path := store.path_set entry.1 entry.2
      have further := ih (store.set entry.1 entry.2).value (List.cons_ne_nil next sets) (by rw [path]; exact written.2)
      rw [path] at further
      exact further

/-- A store on a file keeps exactly what it holds, in one form. After sets that are all written, the store that is
opened on the file has the value that was set last under each key, or else the one that the file had at first, as the
store itself does; and two stores that hold the same leave the same text. A set that is not written counts all the same.
If its file cannot be opened, or the folders on the way cannot be made, it has changed no file. Otherwise it has opened the
file and not filled it: then that one file holds the beginning of the text. -/
theorem setAll_persists :
    (∀ (disk : Disk) (path : Path) (sets : List (String × String)),
      let run := (openAt disk path).value.setAll sets
      (∀ error, failure path error ∉ run.log) →
        ∀ key, SettingsStore.get? (openAt run.value.disk path).value key = SettingsStore.get? run.value key ∧
          SettingsStore.get? run.value key = (sets.reverse.lookup key).or (stored? disk path key)) ∧
    (∀ (disk other : Disk) (path path' : Path) (sets sets' : List (String × String)),
      let run := (openAt disk path).value.setAll sets
      let run' := (openAt other path').value.setAll sets'
      sets ≠ [] → sets' ≠ [] → (∀ error, failure path error ∉ run.log) → (∀ error, failure path' error ∉ run'.log) →
        (∀ key, SettingsStore.get? run.value key = SettingsStore.get? run'.value key) →
          ∃ text, run.value.disk.readText path = .ok text ∧ run'.value.disk.readText path' = .ok text) ∧
    (∀ (store : FileStore) (key value : String) (error : FileError),
      failure store.path error ∈ (store.set key value).log →
        (∀ other, SettingsStore.get? (store.set key value).value other =
          if other = key then some value else SettingsStore.get? store other) ∧
        (¬store.CanOpen → store.disk.SameFiles (store.set key value).value.disk) ∧
        (store.CanOpen → store.disk.CutShort store.path (store.settings.insert key value).toJson.layout
          (store.set key value).value.disk)) := by
  have opened (disk : Disk) (path : Path) (sets : List (String × String))
      (written : ∀ error, failure path error ∉ ((openAt disk path).value.setAll sets).log) :
      ((openAt disk path).value.setAll sets).value.Saved ∧
        ((openAt disk path).value.setAll sets).value.path = path := by
    have path_eq := path_openAt disk path
    have saved := saved_setAll (saved_openAt disk path) sets (by rw [path_eq]; exact written)
    rwa [path_eq] at saved
  refine ⟨?_, ?_, ?_⟩
  · intro disk path sets run written key
    obtain ⟨saved, same⟩ := opened disk path sets written
    have reopened : (openAt run.value.disk path).value = run.value := by
      rw [← same]
      exact saved
    refine ⟨by rw [reopened], ?_⟩
    rw [get?_setAll, get?_openAt]
  · intro disk other path path' sets sets' run run' nonempty nonempty' written written' agree
    have same : run.value.settings = run'.value.settings :=
      (opened disk path sets written).1.sorted.ext (opened other path' sets' written').1.sorted agree
    have text := readText_setAll (openAt disk path).value nonempty (by rw [path_openAt]; exact written)
    have text' := readText_setAll (openAt other path').value nonempty' (by rw [path_openAt]; exact written')
    rw [path_openAt] at text text'
    exact ⟨_, text, by rw [text', ← same]⟩
  · intro store key value error failed
    exact ⟨LawfulStore.get?_set store key value, set_left failed⟩

/-- A file that is not written as the store writes it and one that is missing, sets in two orders that end in the same
values, a file that can be opened but not filled, and one that cannot be opened. -/
theorem setAll_persists_reordered :
    let path : Path := ⟨"/cfg/ui.json"⟩
    let place := Location.ofNames ["cfg", "ui.json"]
    let old := "\x7b\"x\":1,\"values\":\x7b\"b\":\"1\",\"a\":\"\\u00e9\"\x7d\x7d"
    let disk : Disk := { entries := [(.ofNames ["cfg"], .folder), (place, .file (.text old))] }
    let run := (openAt disk path).value.setAll [("b", "\n"), ("", "\"\\"), ("b", "2")]
    let run' := (openAt {} path).value.setAll [("a", "é"), ("b", "2"), ("", "\"\\")]
    let full := (openAt { disk with limits := [(place, 20)] } path).value
    let closed := (openAt { disk with locked := [place] } path).value
    ((∀ error, failure path error ∉ run.log) ∧ SettingsStore.get? (openAt run.value.disk path).value "a" = some "é") ∧
    ((∀ error, failure path error ∉ run'.log) ∧
      ∃ text, run.value.disk.readText path = .ok text ∧ run'.value.disk.readText path = .ok text) ∧
    (failure full.path .noSpace ∈ (full.set "a" "").log ∧ SettingsStore.get? (full.set "a" "").value "a" = some "" ∧
      full.disk.CutShort full.path (full.settings.insert "a" "").toJson.layout (full.set "a" "").value.disk) ∧
    (failure closed.path .denied ∈ (closed.set "a" "").log ∧
      SettingsStore.get? (closed.set "a" "").value "a" = some "" ∧
      closed.disk.SameFiles (closed.set "a" "").value.disk) := by
  intro path place old disk run run' full closed
  have quiet : run.log = [] := by decide +kernel
  have quiet' : run'.log = [] := by decide +kernel
  have written : ∀ error, failure path error ∉ run.log := by simp [quiet]
  have written' : ∀ error, failure path error ∉ run'.log := by simp [quiet']
  have same : run.value.settings = run'.value.settings := by decide +kernel
  have short : failure full.path .noSpace ∈ (full.set "a" "").log := by decide +kernel
  have denied : failure closed.path .denied ∈ (closed.set "a" "").log := by decide +kernel
  have opens : full.CanOpen := ⟨by decide +kernel, place, some (.text old), by decide +kernel⟩
  have refused : (makeFoldersFor closed.disk closed.path).1.openToWrite closed.path = .error .denied := by decide +kernel
  obtain ⟨reopened, text, failed⟩ := setAll_persists
  refine ⟨⟨written, ?_⟩, ⟨written', ?_⟩, ⟨short, ?_, ?_⟩, denied, ?_, ?_⟩
  · obtain ⟨agrees, last⟩ := reopened disk path _ written "a"
    rw [agrees, last]
    decide +kernel
  · exact text disk {} path path _ _ (by simp) (by simp) written written' fun key => congrArg (·.get? key) same
  · simpa using (failed full "a" "" _ short).1 "a"
  · exact (failed full "a" "" _ short).2.2 opens
  · simpa using (failed closed "a" "" _ denied).1 "a"
  · refine (failed closed "a" "" _ denied).2.1 ?_
    rintro ⟨-, location, found, opened⟩
    cases refused.symm.trans opened

/-- Sets that fail and change what their path leads to. A file that can be opened but not filled loses the settings that
it had, and a folder is made in the place of a file that was missing. -/
theorem set_failed_changes :
    let path : Path := ⟨"/ui.json"⟩
    let place := Location.ofNames ["ui.json"]
    let old := "\x7b\"values\":\x7b\"a\":\"1\"\x7d\x7d"
    let store := (openAt { entries := [(place, .file (.text old))], limits := [(place, 0)] } path).value
    let away := (openAt {} ⟨"x/../x"⟩).value
    (failure path .noSpace ∈ (store.set "a" "2").log ∧ store.disk.readText path = .ok old ∧
      (store.set "a" "2").value.disk.readText path = .ok "") ∧
    (failure ⟨"x/../x"⟩ .isAFolder ∈ (away.set "k" "v").log ∧ away.disk.readText ⟨"x/../x"⟩ = .error .notFound ∧
      (away.set "k" "v").value.disk.readText ⟨"x/../x"⟩ = .error .isAFolder) := by
  decide +kernel

end FileStore
end Gridbook
