import Gridbook.Desk.Store
import Gridbook.Proofs.Documents
import Gridbook.Proofs.Files

/-!
Settings are read back from the file they are saved in. Entries are in strict order of their keys, so the map of a file
is the map that was written, and a store whose writes all succeeded is the one that opening its file gives
(`FileStore.Saved`).
-/
namespace Gridbook
namespace Settings

theorem lookup_insertEntry (key value other : String) (entries : List (String × String)) :
    (insertEntry key value entries).lookup other = if other = key then some value else entries.lookup other := by
  fun_induction insertEntry key value entries with
  | case1 => grind
  | case2 => grind
  | case3 => grind
  | case4 => grind

theorem get?_insert (settings : Settings) (key value other : String) :
    (settings.insert key value).get? other = if other = key then some value else settings.get? other :=
  lookup_insertEntry key value other settings.entries

/-- The keys increase, so no key comes twice. -/
def Sorted (settings : Settings) : Prop := settings.entries.Pairwise fun a b => a.1 < b.1

theorem mem_insertEntry {key value : String} {entries : List (String × String)} {entry : String × String}
    (inside : entry ∈ insertEntry key value entries) : entry = (key, value) ∨ entry ∈ entries := by
  fun_induction insertEntry key value entries with
  | case1 => simpa using inside
  | case2 => grind
  | case3 => grind
  | case4 => grind

theorem Sorted.insert {settings : Settings} (sorted : settings.Sorted) (key value : String) :
    (settings.insert key value).Sorted := by
  obtain ⟨entries⟩ := settings
  unfold Sorted Settings.insert at *
  simp only at sorted ⊢
  fun_induction insertEntry key value entries with
  | case1 => simp
  | case2 => simpa using sorted
  | case3 other old entries different before =>
    simp only [List.pairwise_cons] at sorted ⊢
    refine ⟨?_, sorted⟩
    intro entry inside
    rcases List.mem_cons.1 inside with rfl | inside
    · exact before
    · exact String.lt_trans before (sorted.1 entry inside)
  | case4 other old entries different behind ih =>
    simp only [List.pairwise_cons] at sorted ⊢
    refine ⟨?_, ih sorted.2⟩
    intro entry inside
    rcases mem_insertEntry inside with rfl | old
    · exact Std.lt_of_le_of_ne (String.not_lt.1 behind) (Ne.symm different)
    · exact sorted.1 entry old

theorem sorted_ofList (entries : List (String × String)) : (ofList entries).Sorted := by
  have kept (settings : Settings) (sorted : settings.Sorted) :
      (entries.foldl (fun settings entry => settings.insert entry.1 entry.2) settings).Sorted := by
    induction entries generalizing settings with
    | nil => exact sorted
    | cons entry entries ih => exact ih _ (sorted.insert entry.1 entry.2)
  exact kept {} List.Pairwise.nil

/-- A key behind all others is put at the end. -/
theorem insertEntry_last {key value : String} {entries : List (String × String)}
    (last : ∀ entry ∈ entries, entry.1 < key) : insertEntry key value entries = entries ++ [(key, value)] := by
  induction entries with
  | nil => rfl
  | cons entry entries ih =>
    have before : entry.1 < key := last entry (by simp)
    have different : key ≠ entry.1 := fun same => String.lt_irrefl key (same ▸ before)
    have further := ih fun other inside => last other (List.mem_cons_of_mem _ inside)
    simp [insertEntry, different, String.lt_asymm before, further]

theorem ofList_entries {settings : Settings} (sorted : settings.Sorted) : ofList settings.entries = settings := by
  have grown (front back : List (String × String)) (sorted : (front ++ back).Pairwise fun a b => a.1 < b.1) :
      back.foldl (fun settings entry => settings.insert entry.1 entry.2) (Settings.mk front) = ⟨front ++ back⟩ := by
    induction back generalizing front with
    | nil => simp
    | cons entry back ih =>
      have last : ∀ other ∈ front, other.1 < entry.1 := fun other inside =>
        (List.pairwise_append.1 sorted).2.2 other inside entry (by simp)
      have further := ih (front ++ [entry]) (by simpa using sorted)
      simpa [insert, insertEntry_last last] using further
  exact grown [] settings.entries sorted

theorem legal_toJson (settings : Settings) : settings.toJson.Legal := by
  refine Json.legal_record ?_
  intro member inside
  simp only [List.mem_cons, List.not_mem_nil, or_false] at inside
  rcases inside with rfl | rfl
  · exact .number ⟨by decide, by decide⟩
  · refine Json.legal_record ?_
    intro member inside
    obtain ⟨entry, _, rfl⟩ := List.mem_map.1 inside
    exact .string _

theorem ofJson?_toJson {settings : Settings} (sorted : settings.Sorted) : ofJson? settings.toJson = some settings := by
  have version : (Json.ofNat fileVersion).natBelow? (Nat.pow 2 32) = some fileVersion := by decide
  have entries := Json.mapOf?_record settings.entries
  have values : fileShape.values? settings.toJson = some [some (.ofNat fileVersion),
      some (.record (settings.entries.map fun entry => (entry.1, .ofText entry.2)))] := by
    rw [toJson, Json.values?_record]
    · simp [fileShape]
    · simp [fileShape]
  simp only [ofJson?, values, version, entries, Option.bind_eq_bind, Option.bind_some]
  rw [ofList_entries sorted]
  rfl

theorem sorted_of_ofJson? {json : Json} {settings : Settings} (read : ofJson? json = some settings) :
    settings.Sorted := by
  unfold ofJson? at read
  split at read
  · next version values _ =>
    cases version <;> cases values <;> simp [Option.bind_eq_some_iff] at read
    · exact read ▸ sorted_ofList []
    · obtain ⟨entries, -, rfl⟩ := read
      exact sorted_ofList entries
    · exact read.2 ▸ sorted_ofList []
    · obtain ⟨-, entries, -, rfl⟩ := read
      exact sorted_ofList entries
  · cases read

/-- What is written is read back. -/
theorem read_layout {settings : Settings} (sorted : settings.Sorted) :
    (Json.read settings.toJson.layout).bind ofJson? = some settings := by
  rw [Json.read_layout settings.legal_toJson]
  exact ofJson?_toJson sorted

end Settings

namespace FileStore

def failure (path : Path) (error : FileError) : LogLine :=
  ⟨.warn, "Failed to write " ++ path.text ++ ": " ++ error.message⟩

theorem openAt_value (disk : Disk) (path : Path) :
    ∃ settings, settings.Sorted ∧ (openAt disk path).value = ⟨path, settings, disk⟩ := by
  have empty : Settings.Sorted {} := List.Pairwise.nil
  unfold openAt
  split
  · exact ⟨{}, empty, rfl⟩
  · split
    · next settings found =>
      obtain ⟨json, -, read⟩ := Option.bind_eq_some_iff.1 found
      exact ⟨settings, Settings.sorted_of_ofJson? read, rfl⟩
    · exact ⟨{}, empty, rfl⟩

theorem path_openAt (disk : Disk) (path : Path) : (openAt disk path).value.path = path := by
  obtain ⟨settings, -, opened⟩ := openAt_value disk path
  rw [opened]

def Saved (store : FileStore) : Prop := (openAt store.disk store.path).value = store

theorem saved_openAt (disk : Disk) (path : Path) : (openAt disk path).value.Saved := by
  obtain ⟨settings, -, opened⟩ := openAt_value disk path
  rw [Saved, opened]
  exact opened

theorem Saved.sorted {store : FileStore} (saved : store.Saved) : store.settings.Sorted := by
  obtain ⟨settings, sorted, opened⟩ := openAt_value store.disk store.path
  rw [← saved, opened]
  exact sorted

theorem makeFoldersFor_sameFiles (disk : Disk) (path : Path) : disk.SameFiles (makeFoldersFor disk path).1 := by
  unfold makeFoldersFor
  split
  · exact .refl disk
  · exact disk.makeFolders_sameFiles _

/-- A save makes folders, and unless that fails, it writes the file. -/
theorem save_cases (store : FileStore) :
    let made := makeFoldersFor store.disk store.path
    let text := store.settings.toJson.layout
    (∃ error, made.2 = .error error ∧ save store = ({ store with disk := made.1 }, .error error)) ∨
      made.2 = .ok () ∧
        save store = ({ store with disk := (made.1.writeText store.path text).1 }, (made.1.writeText store.path text).2) := by
  unfold save
  cases makeFoldersFor store.disk store.path with
  | mk made result =>
    cases result with
    | error error => exact .inl ⟨error, rfl, rfl⟩
    | ok => exact .inr ⟨rfl, rfl⟩

/-- A set keeps the path and inserts the value. It is written, or reports why not. -/
theorem set_cases (store : FileStore) (key value : String) :
    let made := makeFoldersFor store.disk store.path
    let text := (store.settings.insert key value).toJson.layout
    ∃ disk, (store.set key value).value = { store with settings := store.settings.insert key value, disk } ∧
      ((store.set key value).log = [] ∧ disk.readText store.path = .ok text ∨
        ∃ error, (store.set key value).log = [failure store.path error] ∧
          (made.2 ≠ .ok () ∧ disk = made.1 ∨ made.2 = .ok () ∧ made.1.Interrupted store.path text disk)) := by
  intro made text
  unfold set
  obtain ⟨error, stuck, saved⟩ | ⟨done, saved⟩ := save_cases { store with settings := store.settings.insert key value }
  · have stopped : made.2 ≠ .ok () := by simp [made, stuck]
    rw [saved]
    exact ⟨made.1, rfl, .inr ⟨error, rfl, .inl ⟨stopped, rfl⟩⟩⟩
  · rw [saved]
    cases written : made.1.writeText store.path text with
    | mk disk result =>
      cases result with
      | ok => exact ⟨disk, rfl, .inl ⟨rfl, Disk.readText_writeText written⟩⟩
      | error error =>
        exact ⟨disk, rfl, .inr ⟨error, rfl, .inr ⟨done, Disk.interrupted_writeText written⟩⟩⟩

theorem path_set (store : FileStore) (key value : String) : (store.set key value).value.path = store.path := by
  obtain ⟨disk, result, -⟩ := store.set_cases key value
  rw [result]

theorem Saved.set {store : FileStore} (saved : store.Saved) {key value : String}
    (written : ∀ error, failure store.path error ∉ (store.set key value).log) : (store.set key value).value.Saved := by
  obtain ⟨disk, result, ⟨-, text⟩ | ⟨error, failed, -⟩⟩ := set_cases store key value
  · rw [Saved, result]
    simp only [openAt, text, Settings.read_layout (saved.sorted.insert key value), Logged.value_pure]
  · exact absurd (by simp [failed]) (written error)

end FileStore
end Gridbook
