import Gridbook.Command.SheetFile
import Gridbook.Proofs.Files
import Gridbook.Proofs.Paths

/-!
Where sheets and logs are found. A file that can be read has a path that ends in its name, so a sheet is written where
it was read from, and the log beside it lies in the same folder under a longer name: each of the two is left alone when
the other is written.
-/
namespace Gridbook

section

open Gridbook.Path

variable {file : Path} {start name : List Char} {inner : List (List Char)} (ends : EndsIn file start inner name)
include ends

theorem SheetFile.sheetName?_eq : sheetName? file = some (cutName (String.ofList name)).1 := by
  have filled : (cutName (String.ofList name)).1 ≠ "" := by
    cases cut : (cutName (String.ofList name)).2 with
    | none => simp [cutName_none cut, ends.name_ne_nil]
    | some extension => exact (cutName_some cut).2
  simp [sheetName?, ends.stem?_eq, filled]

/-- The name under which the sheet of a file is written. -/
theorem SheetWriter.pathFor_beside :
    (beside file).pathFor (cutName (String.ofList name)).1 =
      rejoin start inner (if file.extension?.isSome then name else name ++ ".qg".toList) := by
  rw [pathFor, beside, ends.parent?_eq, ends.extension?_eq, Option.getD_some, rejoin]
  cases cut : (cutName (String.ofList name)).2 with
  | none =>
    have whole : String.ofList name ++ "." ++ "qg" = String.ofList (name ++ ".qg".toList) := by
      rw [String.append_assoc, String.ofList_append]
      rfl
    rw [cutName_none cut, Option.getD_none, whole]
    rfl
  | some end' => rw [Option.getD_some, (cutName_some cut).1, Option.isSome_some, if_pos rfl]

end

namespace Disk

open Gridbook.Path

variable {disk : Disk} {path other base : Path} {location : Location} {start name : List Char} {inner : List (List Char)}

theorem refusal?_eq_none_iff (path : Path) :
    refusal? path = none ↔ '\x00' ∉ path.text.toList ∧ path.text.toList ≠ [] ∧ Text.width path.text.toList ≤ 4095 := by
  rw [Text.width_toList]
  unfold refusal? hasNull
  split
  · simp_all
  · split <;> simp_all

theorem locate_iff : disk.locate path = .ok location ↔
    refusal? path = none ∧ disk.walk (disk.start path) path.steps = .ok location := by
  unfold locate
  split <;> simp_all

/-- Moves that stay do not count before the name. -/
theorem walk_leadsTo (disk : Disk) (leads : LeadsTo path base start inner name) :
    disk.walk (disk.start path) path.steps =
      disk.walk (disk.start base) (lead start ++ moves (trimPieces inner)) >>= fun folder =>
        disk.walk folder [.into (String.ofList name)] := by
  obtain ⟨absolute, idle, all, steps⟩ := leads
  rw [Disk.start, absolute, ← Disk.start, steps, walk_append]
  simp only [walk_stay disk _ all]

/-- A place that is found under a name is the child of that name in the folder. -/
theorem exists_child (leads : LeadsTo path base start inner name) (located : disk.locate path = .ok location) :
    ∃ folder, disk.walk (disk.start base) (lead start ++ moves (trimPieces inner)) = .ok folder ∧
      location = folder.child (String.ofList name) := by
  obtain ⟨-, walked⟩ := locate_iff.1 located
  rw [walk_leadsTo disk leads] at walked
  cases above : disk.walk (disk.start base) (lead start ++ moves (trimPieces inner)) with
  | error => simp [above, bind, Except.bind] at walked
  | ok folder =>
    rw [above] at walked
    exact ⟨folder, rfl, walk_into walked⟩

/-- In one folder, a place has one name. -/
theorem name_eq_of_locate {name' : List Char} (first : LeadsTo path base start inner name)
    (second : LeadsTo other base start inner name') (located : disk.locate path = .ok location)
    (located' : disk.locate other = .ok location) : name = name' := by
  obtain ⟨folder, walked, place⟩ := exists_child first located
  obtain ⟨folder', walked', place'⟩ := exists_child second located'
  obtain rfl := Except.ok.inj (walked.symm.trans walked')
  have names := congrArg Location.name? (place.symm.trans place')
  simpa only [Location.name?_child, Option.some.injEq, String.ofList_inj] using names

/-- Dots before the name do not count, so the path and the rejoined one lead to the same place. -/
theorem locate_rejoin (ends : EndsIn path start inner name) (located : disk.locate path = .ok location) :
    disk.locate (rejoin start inner name) = .ok location := by
  obtain ⟨allowed, walked⟩ := locate_iff.1 located
  obtain ⟨noNull, filled, short⟩ := (refusal?_eq_none_iff path).1 allowed
  have part := ends.sublist_rejoin
  have first := ends.head?_rejoin
  refine locate_iff.2 ⟨(refusal?_eq_none_iff _).2 ⟨?_, ?_, ?_⟩, ?_⟩
  · exact fun null => noNull (part.subset null)
  · intro empty
    rw [empty] at first
    exact filled (List.head?_eq_none_iff.1 first.symm)
  · exact Nat.le_trans (Text.width_le_of_sublist part) short
  · rw [walk_leadsTo disk (ends.leadsTo_rejoin ends.isName), ← walk_leadsTo disk ends.leadsTo]
    exact walked

/-- The path of a file that can be read ends in the file's name, if that has an extension. -/
theorem exists_endsIn {text extension : String} (named : path.extension? = some extension)
    (readable : disk.readText path = .ok text) : ∃ start inner name, EndsIn path start inner name := by
  obtain ⟨noSlash, location, located, found⟩ := readText_iff.1 readable
  obtain ⟨-, walked⟩ := locate_iff.1 located
  obtain ⟨file, isFile, -⟩ := Option.bind_eq_some_iff.1 named
  obtain ⟨inner, name, kept, down⟩ := exists_last_of_fileName? isFile
  obtain ⟨idle, parts, all⟩ := trimPieces_append path.split.2
  rw [kept] at parts
  refine ⟨path.split.1, inner, name, ?_, not_isIdle_last kept, down⟩
  rcases idle.eq_nil_or_concat with rfl | ⟨front, last, rfl⟩
  · rw [List.append_nil] at parts
    rw [← parts]
  · -- A slash behind the name asks for a folder, and so does a dot.
    have rests := all last (by simp)
    rw [List.concat_eq_append, ← List.append_assoc] at parts
    simp only [isIdle, Bool.or_eq_true, List.isEmpty_iff, decide_eq_true_eq] at rests
    rcases rests with rfl | rfl
    · have whole := path.ofPieces_split
      rw [parts, ofPieces, Text.intercalate_append (by simp) (by simp), List.intercalate_singleton] at whole
      rw [← whole] at noSlash
      simp [endsInSlash] at noSlash
    · rw [path.steps_split, parts, moves_append, ← List.append_assoc] at walked
      have folder := entry?_of_walk_here walked
      rw [found] at folder
      cases folder

theorem openToWrite_congr {other : Path} (noSlash : path.endsInSlash = false) (noOther : other.endsInSlash = false)
    (same : disk.locate path = disk.locate other) : disk.openToWrite path = disk.openToWrite other := by
  simp [openToWrite, noSlash, noOther, same]

/-- A sheet is written to the file that it was read from. -/
theorem openToWrite_beside {text extension : String} (named : path.extension? = some extension)
    (readable : disk.readText path = .ok text) :
    ∃ stem, path.stem? = some stem ∧ SheetFile.sheetName? path = some stem ∧
      disk.openToWrite ((SheetWriter.beside path).pathFor stem) = disk.openToWrite path := by
  obtain ⟨noSlash, location, located, -⟩ := readText_iff.1 readable
  obtain ⟨start, inner, name, ends⟩ := exists_endsIn named readable
  refine ⟨_, ends.stem?_eq, SheetFile.sheetName?_eq ends, ?_⟩
  rw [SheetWriter.pathFor_beside ends, if_pos (by rw [named]; rfl)]
  exact openToWrite_congr ends.endsInSlash_rejoin noSlash ((locate_rejoin ends located).trans located.symm)

/-- A path with a longer last piece leads to another place. -/
theorem locate_append_ne (ends : EndsIn path start inner name) (located : disk.locate path = .ok location)
    {more : List Char} (free : '/' ∉ more) (long : 2 < more.length) :
    disk.locate ⟨path.text ++ String.ofList more⟩ ≠ .ok location := by
  intro same
  have names := name_eq_of_locate ends.leadsTo (ends.leadsTo_append free long) located same
  have length := congrArg List.length names
  rw [List.length_append] at length
  omega

/-- The log of a sheet is another file than the sheet. -/
theorem locate_forSheet_ne {text extension : String} (named : path.extension? = some extension)
    (readable : disk.readText path = .ok text) (located : disk.locate path = .ok location) :
    disk.locate (HistoryLog.forSheet path).path ≠ .ok location := by
  obtain ⟨start, inner, name, ends⟩ := exists_endsIn named readable
  have suffix : (HistoryLog.forSheet path).path = ⟨path.text ++ String.ofList ".history.jsonl".toList⟩ := by
    rw [String.ofList_toList]
    rfl
  rw [suffix]
  exact locate_append_ne ends located (by decide) (by decide)

/-- Writing a sheet leaves its log and every other file alone, whether it succeeds or fails. -/
theorem writeText_sheet {text extension : String} (named : path.extension? = some extension)
    (readable : disk.readText path = .ok text) (content : String) :
    let written := (disk.writeText path content).1
    written.readText (HistoryLog.forSheet path).path = disk.readText (HistoryLog.forSheet path).path ∧
      (∀ other, written.locate other = disk.locate other) ∧
      ∀ place, disk.locate path ≠ .ok place → written.entry? place = disk.entry? place := by
  intro written
  obtain ⟨-, location, located, held⟩ := readText_iff.1 readable
  have others (place : Location) (elsewhere : disk.locate path ≠ .ok place) : written.entry? place = disk.entry? place :=
    entry?_write_ne elsewhere .replace content
  rcases disk.write_frame .replace path content with same | ⟨place, old, left, opened, put⟩
  · have kept : written = disk := same
    exact ⟨by rw [kept], fun _ => by rw [kept], others⟩
  · obtain rfl : location = place := Except.ok.inj (located.symm.trans (openToWrite_ok opened).2.1)
    have kept : written = disk.put location (.file left) := put
    refine ⟨?_, ?_, others⟩
    · rw [kept]
      exact readText_put_file held _ (locate_forSheet_ne named readable located)
    · rw [kept]
      exact locate_put_file held _

/-- Appending to the log of a sheet leaves the sheet and every other file alone. -/
theorem appendText_forSheet {text extension : String} (named : path.extension? = some extension)
    (readable : disk.readText path = .ok text) (more : String) :
    let grown := (disk.appendText (HistoryLog.forSheet path).path more).1
    grown.readText path = .ok text ∧
      ∀ place, disk.locate (HistoryLog.forSheet path).path ≠ .ok place → grown.entry? place = disk.entry? place :=
  ⟨readText_write_ne .append more readable fun _ => locate_forSheet_ne named readable,
    fun _ elsewhere => entry?_write_ne elsewhere .append more⟩

end Disk
end Gridbook
