import Gridbook.Command.Run
import Gridbook.Proofs.Files
import Gridbook.Proofs.Runs
import Mathlib.Data.List.Basic
import Mathlib.Logic.ExistsUnique

/-!
What a folder shows. Every item is of one of three kinds (`DashboardFilter.kindOf`), so the filters for these kinds part
every listing. A listing is sorted by names, and names in a folder are distinct, so the order in which the folder gives
its entries does not show: two lists of the same items in strict order are one list.
-/
namespace Gridbook

open Gridbook.Text

namespace DashboardItem

/-- The name has the ending, in letters of either case, behind its last dot, with something before the dot. -/
def EndsAs (name ending : List Char) : Prop :=
  ∃ stem written, name = stem ++ '.' :: written ∧ stem ≠ [] ∧ '.' ∉ written ∧ written.map Char.toLower = ending

theorem ending?_eq_some_iff {name written : List Char} :
    ending? name = some written ↔ ∃ stem, name = stem ++ '.' :: written ∧ stem ≠ [] ∧ '.' ∉ written := by
  have cut {stem back : List Char} (undotted : '.' ∉ back) :
      ending? (stem ++ '.' :: back) = if stem = [] then none else some back := by
    obtain ⟨taken, rest⟩ := reverse_last (a := stem) undotted
    unfold ending?
    rw [rest, taken, List.reverse_reverse]
    cases stem using List.reverseRecOn <;> simp
  constructor
  · intro found
    rcases last_cases '.' name with absent | ⟨stem, back, rfl, undotted⟩
    · simp [ending?, absent] at found
    · rw [cut undotted] at found
      split at found
      · cases found
      · next nonempty =>
        cases found
        exact ⟨stem, rfl, nonempty, undotted⟩
  · rintro ⟨stem, rfl, nonempty, undotted⟩
    rw [cut undotted, if_neg nonempty]

theorem hasEnding_iff (item : DashboardItem) (ending : List Char) :
    item.hasEnding ending = true ↔ item.kind = .file ∧ EndsAs item.name.toList ending := by
  have found : (ending? item.name.toList).any (fun e => e.map Char.toLower = ending) = true ↔
      EndsAs item.name.toList ending := by
    rw [Option.any_eq_true]
    constructor
    · rintro ⟨written, found, same⟩
      obtain ⟨stem, parts, nonempty, undotted⟩ := ending?_eq_some_iff.1 found
      exact ⟨stem, written, parts, nonempty, undotted, by simpa using same⟩
    · rintro ⟨stem, written, parts, nonempty, undotted, same⟩
      exact ⟨written, ending?_eq_some_iff.2 ⟨stem, parts, nonempty, undotted⟩, by simpa using same⟩
  rw [hasEnding, Bool.and_eq_true, found, decide_eq_true_eq]

/-- A name has one ending. -/
theorem EndsAs.unique {name a b : List Char} (first : EndsAs name a) (second : EndsAs name b) : a = b := by
  obtain ⟨stem, written, parts, nonempty, undotted, rfl⟩ := first
  obtain ⟨stem', written', parts', nonempty', undotted', rfl⟩ := second
  have one := ending?_eq_some_iff.2 ⟨stem, parts, nonempty, undotted⟩
  have other := ending?_eq_some_iff.2 ⟨stem', parts', nonempty', undotted'⟩
  rw [one] at other
  rw [Option.some.inj other]

def ofEntry (entry : String × Bool) : DashboardItem := ⟨entry.1, if entry.2 then .folder else .file⟩

end DashboardItem

namespace DashboardFilter

def kinds : List DashboardFilter := [folders, projects, files]

def kindOf (item : DashboardItem) : DashboardFilter :=
  if item.kind = .folder then folders else if item.isProject then projects else files

theorem kindOf_mem (item : DashboardItem) : kindOf item ∈ kinds := by
  unfold kindOf kinds
  split
  · simp
  · split <;> simp

/-- Each item is taken by the filter of its kind and by no other of the three. -/
theorem accepts_iff {filter : DashboardFilter} (listed : filter ∈ kinds) (item : DashboardItem) :
    filter.accepts item = true ↔ filter = kindOf item := by
  have file (project : item.isProject = true) : item.kind = .file := ((item.hasEnding_iff _).1 project).1
  simp only [kinds, List.mem_cons, List.not_mem_nil, or_false] at listed
  cases kind : item.kind with
  | folder =>
    have project : item.isProject = false := by
      refine Bool.eq_false_iff.2 fun project => ?_
      simp [file project] at kind
    rcases listed with rfl | rfl | rfl <;> simp [accepts, kindOf, kind, project]
  | file =>
    cases project : item.isProject <;> rcases listed with rfl | rfl | rfl <;> simp [accepts, kindOf, kind, project]

theorem files_of_csvFiles {item : DashboardItem} (csv : csvFiles.accepts item = true) : files.accepts item = true := by
  obtain ⟨file, ending⟩ := (item.hasEnding_iff _).1 csv
  have project : item.isProject = false := by
    refine Bool.eq_false_iff.2 fun project => ?_
    exact absurd (ending.unique ((item.hasEnding_iff _).1 project).2) (by decide)
  simp [accepts, file, project]

theorem mem_apply {filter : DashboardFilter} {showHidden : Bool} {items : List DashboardItem} {item : DashboardItem} :
    item ∈ filter.apply showHidden items ↔
      item ∈ items ∧ (showHidden = true ∨ item.isHidden = false) ∧ filter.accepts item = true := by
  simp [apply]

/-- An item is shown as often as it is listed, if it is shown at all. -/
theorem count_apply (filter : DashboardFilter) (showHidden : Bool) (items : List DashboardItem)
    (item : DashboardItem) :
    (filter.apply showHidden items).count item =
      if (showHidden = true ∨ item.isHidden = false) ∧ filter.accepts item = true then items.count item else 0 := by
  split
  · next shown => exact List.count_filter (by simpa using shown)
  · next hidden => exact List.count_eq_zero.2 fun inside => hidden (mem_apply.1 inside).2

structure Divides (items : List DashboardItem) (showHidden : Bool) : Prop where
  /-- Items keep their order. -/
  order : ∀ filter : DashboardFilter, (filter.apply showHidden items).Sublist items
  count : ∀ (filter : DashboardFilter) (item : DashboardItem),
    (filter.apply showHidden items).count item =
      if (showHidden = true ∨ item.isHidden = false) ∧ filter.accepts item = true then items.count item else 0
  apart : kinds.Pairwise fun a b => (a.apply showHidden items).Disjoint (b.apply showHidden items)
  whole : (kinds.flatMap fun filter => filter.apply showHidden items).Perm (all.apply showHidden items)

theorem divides (items : List DashboardItem) (showHidden : Bool) : Divides items showHidden where
  order _ := List.filter_sublist
  count filter item := count_apply filter showHidden items item
  apart := by
    have distinct : kinds.Nodup := by decide
    refine List.Pairwise.imp_of_mem ?_ distinct
    intro a b listed listed' different item inside inside'
    have first : a = kindOf item := (accepts_iff listed item).1 (mem_apply.1 inside).2.2
    have second : b = kindOf item := (accepts_iff listed' item).1 (mem_apply.1 inside').2.2
    exact different (first.trans second.symm)
  whole := by
    rw [List.perm_iff_count]
    intro item
    -- Of the three filters one takes the item.
    have taken (filter : DashboardFilter) (listed : filter ∈ kinds) :
        (filter.apply showHidden items).count item =
          if filter = kindOf item then (all.apply showHidden items).count item else 0 := by
      have every : all.accepts item = true := rfl
      rw [count_apply, count_apply]
      simp only [accepts_iff listed item, every, and_true]
      by_cases shown : showHidden = true ∨ item.isHidden = false <;> simp [shown]
    have known := kindOf_mem item
    generalize kindOf item = kind at taken known
    simp only [kinds, List.mem_cons, List.not_mem_nil, or_false] at known
    simp only [List.count_flatMap, kinds, List.map_cons, List.map_nil, Function.comp_apply,
      taken folders (by decide), taken projects (by decide), taken files (by decide)]
    rcases known with rfl | rfl | rfl <;> simp

end DashboardFilter

namespace Session

theorem run_logAll (session : Session) (lines : List LogLine) :
    session.run (lines.forM MonadLog.log) = ((), { session with log := session.log ++ lines }) := by
  induction lines generalizing session with
  | nil =>
    rw [List.append_nil]
    rfl
  | cons line lines ih =>
    have first : session.run ((line :: lines).forM MonadLog.log) =
        Session.run { session with log := session.log ++ [line] } (lines.forM MonadLog.log) := rfl
    rw [first, ih, List.append_assoc, List.singleton_append]

end Session

namespace Command

open DashboardItem (ofEntry)

def listing (entries : List (String × Bool)) : List DashboardItem :=
  (entries.map ofEntry).mergeSort fun a b => a.name ≤ b.name

variable {entries entries' : List (String × Bool)}

theorem listing_perm (entries : List (String × Bool)) : (listing entries).Perm (entries.map ofEntry) :=
  List.mergeSort_perm _ _

theorem listing_increases (distinct : (entries.map (·.1)).Nodup) :
    (listing entries).Pairwise fun a b => a.name < b.name := by
  have sorted : (listing entries).Pairwise fun a b => decide (a.name ≤ b.name) = true := by
    refine List.pairwise_mergeSort ?_ ?_ (entries.map ofEntry)
    · intro a b c first second
      simpa using String.le_trans (by simpa using first) (by simpa using second)
    · intro a b
      simpa using String.le_total a.name b.name
  have names : ((listing entries).map (·.name)).Nodup := by
    rw [((listing_perm entries).map _).nodup_iff, List.map_map]
    exact distinct
  refine (sorted.and (List.pairwise_map.1 names)).imp ?_
  rintro a b ⟨below, different⟩
  refine String.not_le.1 fun above => different ?_
  exact String.le_antisymm (by simpa using below) above

/-- The order in which a folder gives its entries does not show. -/
theorem listing_eq_of_perm (reordered : entries'.Perm entries) (distinct : (entries.map (·.1)).Nodup) :
    listing entries' = listing entries := by
  have same : (listing entries').Perm (listing entries) :=
    (listing_perm entries').trans ((reordered.map ofEntry).trans (listing_perm entries).symm)
  have distinct' : (entries'.map (·.1)).Nodup := (reordered.map _).nodup_iff.2 distinct
  refine same.eq_of_pairwise ?_ (listing_increases distinct') (listing_increases distinct)
  intro a b _ _ below above
  exact absurd (String.lt_trans below above) (String.lt_irrefl a.name)

theorem run_listFolder {session : Session} {folder : Path} (filterName : String) (hidden : Bool)
    (listed : session.disk.list folder = .ok entries) :
    session.run (Command.run (.list folder filterName hidden)) =
      (.ok (print (.ofList Wire.toJson ((DashboardFilter.read filterName).value.apply hidden (listing entries)))),
        { session with log := session.log ++ (DashboardFilter.read filterName).log }) := by
  have opened : session.run (MonadFiles.list folder) = (.ok entries, session) := by
    rw [← listed]
    rfl
  rw [Command.run, listFolder, Session.run_bind, opened]
  simp only [Session.run_bind, Session.run_logAll]
  rfl

/-- Every item is taken by one of the filters for folders, projects and files, which part every listing. A folder is
listed in strict order of the names, the same whichever order it gives its entries in. -/
theorem listings_divided :
    (∀ item : DashboardItem,
      (∃! filter, filter ∈ DashboardFilter.kinds ∧ filter.accepts item = true) ∧
      (DashboardFilter.projects.accepts item = true ↔
        item.kind = .file ∧ DashboardItem.EndsAs item.name.toList "qg".toList) ∧
      (DashboardFilter.csvFiles.accepts item = true ↔
        item.kind = .file ∧ DashboardItem.EndsAs item.name.toList "csv".toList) ∧
      (DashboardFilter.csvFiles.accepts item = true → DashboardFilter.files.accepts item = true)) ∧
    (∀ (items : List DashboardItem) (showHidden : Bool), DashboardFilter.Divides items showHidden) ∧
    ∀ (folder : Path) (filterName : String) (showHidden : Bool) (session session' : Session)
      (entries entries' : List (String × Bool)),
      session.disk.list folder = .ok entries → session'.disk.list folder = .ok entries' → entries'.Perm entries →
      (entries.map (·.1)).Nodup →
      ∃ shown : List DashboardItem,
        (session.run (Command.run (.list folder filterName showHidden))).1 = .ok (print (.ofList Wire.toJson shown)) ∧
        (session'.run (Command.run (.list folder filterName showHidden))).1 = .ok (print (.ofList Wire.toJson shown)) ∧
        shown.Pairwise (fun a b => a.name < b.name) ∧
        shown.Perm ((DashboardFilter.read filterName).value.apply showHidden (entries.map ofEntry)) := by
  refine ⟨?_, DashboardFilter.divides, ?_⟩
  · intro item
    refine ⟨⟨DashboardFilter.kindOf item, ?_, ?_⟩, item.hasEnding_iff _, item.hasEnding_iff _,
      DashboardFilter.files_of_csvFiles⟩
    · have listed := DashboardFilter.kindOf_mem item
      exact ⟨listed, (DashboardFilter.accepts_iff listed item).2 rfl⟩
    · rintro filter ⟨listed, taken⟩
      exact (DashboardFilter.accepts_iff listed item).1 taken
  · intro folder filterName showHidden session session' entries entries' listed listed' reordered distinct
    refine ⟨(DashboardFilter.read filterName).value.apply showHidden (listing entries), ?_, ?_, ?_, ?_⟩
    · rw [run_listFolder filterName showHidden listed]
    · rw [run_listFolder filterName showHidden listed', listing_eq_of_perm reordered distinct]
    · exact (listing_increases distinct).sublist List.filter_sublist
    · exact (listing_perm entries).filter _

/-- A folder with a hidden file, endings of both cases and a folder that is named like a project, in two orders. -/
theorem listings_divided_reordered :
    let folder : Path := ⟨"/w"⟩
    let entry (name : String) (entry : Entry) := (Location.ofNames ["w", name], entry)
    let session : Session := ⟨{ entries := [(.ofNames ["w"], .folder), entry "x.CSV" (.file (.text "")),
      entry ".qg" (.file (.text "")), entry "a.qg" .folder, entry "b.Qg" (.file (.text ""))] }, []⟩
    let session' : Session := ⟨{ session.disk with entries := session.disk.entries.reverse }, []⟩
    ∃ shown : List DashboardItem,
      (session.run (Command.run (.list folder "files" true))).1 = .ok (print (.ofList Wire.toJson shown)) ∧
      (session'.run (Command.run (.list folder "files" true))).1 = .ok (print (.ofList Wire.toJson shown)) ∧
      shown.Pairwise (fun a b => a.name < b.name) ∧ shown.Perm [⟨"x.CSV", .file⟩, ⟨".qg", .file⟩] := by
  intro folder entry session session'
  exact listings_divided.2.2 folder "files" true session session'
    [("x.CSV", false), (".qg", false), ("a.qg", true), ("b.Qg", false)]
    [("b.Qg", false), ("a.qg", true), (".qg", false), ("x.CSV", false)] (by decide +kernel) (by decide +kernel)
    (by decide) (by decide)

end Command
end Gridbook
