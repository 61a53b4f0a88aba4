import Gridbook.Batch.History
import Mathlib.Data.List.Induction
import Mathlib.Data.List.Nodup
import Mathlib.Data.List.Perm.Basic

/-!
How changes are gathered under titles. Grouping is a stable partition: there is one record for each title, in the order
in which titles first come, and it holds the changes of its title in their order. So what is grouped later only extends
the records that are there, and adds its own behind them.
-/
namespace Gridbook

namespace TitledChange

def titles (changes : List TitledChange) : List String :=
  ((changes.map (·.title)).filter (· ≠ "")).eraseDups

def under (title : String) (changes : List TitledChange) : List SheetChange :=
  (changes.filter (·.title = title)).map (·.change)

variable {changes : List TitledChange} {titled : TitledChange} {title : String}

theorem mem_titles (filled : title ≠ "") : title ∈ titles changes ↔ title ∈ changes.map (·.title) := by
  simp [titles, filled]

theorem titles_filled (inside : title ∈ titles changes) : title ≠ "" := by
  rintro rfl
  simp [titles] at inside

/-- A change brings in its title, unless it has none or the title is there. -/
theorem titles_concat (changes : List TitledChange) (titled : TitledChange) :
    titles (changes ++ [titled]) =
      if titled.title = "" ∨ titled.title ∈ titles changes then titles changes
      else titles changes ++ [titled.title] := by
  by_cases empty : titled.title = ""
  · simp [titles, empty]
  · have kept : [titled.title].filter (· ≠ "") = [titled.title] := by simp [empty]
    unfold titles
    rw [List.map_append, List.map_singleton, List.filter_append, kept]
    generalize (changes.map (·.title)).filter (· ≠ "") = earlier
    rw [List.eraseDups_append, List.removeAll]
    by_cases known : titled.title ∈ earlier
    · simp [known]
    · simp [known, empty, List.eraseDups_cons]

theorem nodup_titles (changes : List TitledChange) : (titles changes).Nodup := by
  induction changes using List.reverseRecOn with
  | nil => exact List.nodup_nil
  | append_singleton changes titled ih =>
    rw [titles_concat]
    split
    · exact ih
    · next new =>
      rw [← List.concat_eq_append]
      exact ih.concat fun inside => new (.inr inside)

/-- Of the titles that come later, those count that did not come before. -/
theorem titles_append (a b : List TitledChange) :
    titles (a ++ b) = titles a ++ (titles b).filter (· ∉ a.map (·.title)) := by
  induction b using List.reverseRecOn with
  | nil => simp [titles]
  | append_singleton b titled ih =>
    rw [← List.append_assoc, titles_concat, titles_concat, ih]
    by_cases empty : titled.title = ""
    · simp [empty]
    · have before : titled.title ∈ titles a ↔ titled.title ∈ a.map (·.title) := mem_titles empty
      by_cases known : titled.title ∈ a.map (·.title)
      · grind
      · grind

theorem under_append (title : String) (a b : List TitledChange) :
    under title (a ++ b) = under title a ++ under title b := by
  simp [under]

theorem under_eq_nil (absent : title ∉ changes.map (·.title)) : under title changes = [] := by
  simp_all [under]

end TitledChange

namespace HistoryRecord

open TitledChange

variable {records : List HistoryRecord} {titled : TitledChange}

def extend (record : HistoryRecord) (more : List SheetChange) : HistoryRecord :=
  { record with changes := record.changes ++ more }

def ofTitle (changes : List TitledChange) (title : String) : HistoryRecord := ⟨title, under title changes⟩

theorem ofTitle_append (a b : List TitledChange) (title : String) :
    ofTitle (a ++ b) title = (ofTitle a title).extend (under title b) := by
  simp [ofTitle, extend, under_append]

theorem ofTitle_concat (changes : List TitledChange) (titled : TitledChange) (title : String) :
    ofTitle (changes ++ [titled]) title =
      if title = titled.title then (ofTitle changes title).extend [titled.change] else ofTitle changes title := by
  rw [ofTitle_append]
  by_cases same : title = titled.title
  · simp [under, same]
  · simp [under, extend, same, Ne.symm same]

theorem map_title_ofTitle (changes : List TitledChange) (titles : List String) :
    (titles.map (ofTitle changes)).map (·.title) = titles := by
  rw [List.map_map]
  exact List.map_id titles

/-- A change with a known title extends the one record of that title. -/
theorem file_known (distinct : (records.map (·.title)).Nodup) (known : titled.title ∈ records.map (·.title)) :
    file titled records =
      records.map fun record => if record.title = titled.title then record.extend [titled.change] else record := by
  induction records with
  | nil => simp at known
  | cons record records ih =>
    rw [List.map_cons, List.nodup_cons] at distinct
    rw [List.map_cons, file]
    by_cases same : record.title = titled.title
    · -- No later record has the title, so the others stay.
      have others : ∀ other ∈ records, other.title ≠ titled.title := by
        intro other inside equal
        exact distinct.1 (List.mem_map.2 ⟨other, inside, equal.trans same.symm⟩)
      have still : records.map (fun record =>
          if record.title = titled.title then record.extend [titled.change] else record) = records :=
        (List.map_congr_left fun other inside => if_neg (others other inside)).trans (List.map_id records)
      rw [if_pos same, if_pos same, still]
      rfl
    · have later : titled.title ∈ records.map (·.title) := by simpa [Ne.symm same] using known
      rw [if_neg same, if_neg same, ih distinct.2 later]

theorem file_new (new : titled.title ∉ records.map (·.title)) :
    file titled records = records ++ [⟨titled.title, [titled.change]⟩] := by
  induction records with
  | nil => rfl
  | cons record records ih =>
    rw [List.map_cons, List.mem_cons, not_or] at new
    rw [file, if_neg (Ne.symm new.1), ih new.2, List.cons_append]

/-- Filing a change under its title moves the records on by that change. -/
theorem file_ofTitle {changes : List TitledChange} (filled : titled.title ≠ "") :
    file titled ((titles changes).map (ofTitle changes)) =
      (titles (changes ++ [titled])).map (ofTitle (changes ++ [titled])) := by
  have listed := map_title_ofTitle changes (titles changes)
  rw [titles_concat]
  by_cases known : titled.title ∈ titles changes
  · rw [file_known (listed.symm ▸ nodup_titles changes) (listed.symm ▸ known), if_pos (.inr known), List.map_map]
    apply List.map_congr_left
    intro title inside
    exact (ofTitle_concat changes titled title).symm
  · have new : ¬(titled.title = "" ∨ titled.title ∈ titles changes) := by simp [filled, known]
    have others : (titles changes).map (ofTitle (changes ++ [titled])) = (titles changes).map (ofTitle changes) := by
      apply List.map_congr_left
      intro title inside
      have apart : title ≠ titled.title := fun same => known (same ▸ inside)
      rw [ofTitle_concat, if_neg apart]
    have first : under titled.title changes = [] := under_eq_nil fun before => known ((mem_titles filled).2 before)
    rw [file_new (listed.symm ▸ known), if_neg new, List.map_append, others, List.map_singleton, ofTitle_concat]
    simp [ofTitle, extend, first]

theorem group_concat (changes : List TitledChange) (titled : TitledChange) :
    group (changes ++ [titled]) = if titled.title = "" then group changes else file titled (group changes) := by
  simp [group, List.foldl_append]

/-- Grouping makes the record of each title. -/
theorem group_eq (changes : List TitledChange) : group changes = (titles changes).map (ofTitle changes) := by
  induction changes using List.reverseRecOn with
  | nil => rfl
  | append_singleton changes titled ih =>
    rw [group_concat, ih]
    split
    · next untitled =>
      rw [titles_concat, if_pos (.inl untitled)]
      apply List.map_congr_left
      intro title inside
      have apart : title ≠ titled.title := fun same => titles_filled inside (same.trans untitled)
      rw [ofTitle_concat, if_neg apart]
    · next filled => exact file_ofTitle filled

theorem map_title_group (changes : List TitledChange) : (group changes).map (·.title) = titles changes := by
  rw [group_eq, map_title_ofTitle]

/-- What is grouped behind other changes extends their records, and its own titles follow. -/
theorem group_append (a b : List TitledChange) :
    group (a ++ b) =
      (group a).map (fun record => record.extend (under record.title b)) ++
        (group b).filter fun record => record.title ∉ a.map (·.title) := by
  have earlier : (group a).map (fun record => record.extend (under record.title b)) =
      (titles a).map (ofTitle (a ++ b)) := by
    rw [group_eq, List.map_map]
    exact List.map_congr_left fun title _ => (ofTitle_append a b title).symm
  have later : (group b).filter (fun record => record.title ∉ a.map (·.title)) =
      ((titles b).filter (· ∉ a.map (·.title))).map (ofTitle (a ++ b)) := by
    rw [group_eq, List.filter_map]
    apply List.map_congr_left
    intro title inside
    have new : title ∉ a.map (·.title) := of_decide_eq_true (List.mem_filter.1 inside).2
    simp [ofTitle, under_append, under_eq_nil new]
  rw [group_eq, titles_append, List.map_append, earlier, later]

theorem flatMap_file (titled : TitledChange) (records : List HistoryRecord) :
    ((file titled records).flatMap (·.changes)).Perm (titled.change :: records.flatMap (·.changes)) := by
  induction records with
  | nil => exact .refl _
  | cons record records ih =>
    rw [file]
    split
    · simp
    · simpa using (ih.append_left record.changes).trans List.perm_middle

/-- No change with a title is lost and none is made up or doubled. -/
theorem flatMap_group (changes : List TitledChange) :
    ((group changes).flatMap (·.changes)).Perm ((changes.filter (·.title ≠ "")).map (·.change)) := by
  induction changes using List.reverseRecOn with
  | nil => exact .refl _
  | append_singleton changes titled ih =>
    rw [group_concat, List.filter_append, List.map_append]
    split
    · next untitled => simpa [untitled] using ih
    · next filled =>
      have filed := (flatMap_file titled (group changes)).trans (ih.cons titled.change)
      simpa [filled] using filed.trans (List.perm_append_singleton _ _).symm

/-- Grouping is a stable partition by title. There is one record for each title but the empty one, in the order in which
titles first come, and it holds the changes of its title in their order; so the records together hold each change with a
title, and hold it once. The records of changes that are put together are those of the first, each extended by the later
changes of its title, and behind them the later records whose titles are new. -/
theorem group_partition (a b : List TitledChange) :
    group a = ((a.map (·.title)).filter (· ≠ "")).eraseDups.map (fun title =>
      ⟨title, (a.filter (·.title = title)).map (·.change)⟩) ∧
    ((group a).flatMap (·.changes)).Perm ((a.filter (·.title ≠ "")).map (·.change)) ∧
    group (a ++ b) =
      (group a).map (fun record =>
        { record with changes := record.changes ++ (b.filter (·.title = record.title)).map (·.change) }) ++
      (group b).filter fun record => record.title ∉ a.map (·.title) :=
  ⟨group_eq a, flatMap_group a, group_append a b⟩

/-- Titles that come in turns, and a change without one between them. -/
example :
    group [⟨"A", ⟨"s", "1"⟩⟩, ⟨"", ⟨"s", "2"⟩⟩, ⟨"B", ⟨"t", "3"⟩⟩, ⟨"A", ⟨"s", "4"⟩⟩] =
      [⟨"A", [⟨"s", "1"⟩, ⟨"s", "4"⟩]⟩, ⟨"B", [⟨"t", "3"⟩]⟩] := by
  decide

end HistoryRecord
end Gridbook
