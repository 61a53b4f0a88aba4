import Gridbook.Command.SheetFile
import Gridbook.Proofs.Files
import Gridbook.Proofs.Runs
import Gridbook.Proofs.Wires

/-!
A history log holds its records, one to a line. The text of a record is a single line that is not blank, so behind lines
that have all been ended it is one more line, and the records that are read are those before it and itself.
-/
namespace Gridbook

/-- What comes behind the last separator belongs to the last piece. -/
theorem Text.splitOn_append_of_not_mem {sep : Char} {a b last : List Char} {pieces : List (List Char)}
    (split : a.splitOn sep = pieces ++ [last]) (free : sep ∉ b) :
    (a ++ b).splitOn sep = pieces ++ [last ++ b] := by
  by_cases inside : sep ∈ a
  · -- The first separator of the reversed text is the last one.
    obtain ⟨back, front, parts, apart⟩ := List.eq_append_cons_of_mem (List.mem_reverse.2 inside)
    obtain rfl : a = front.reverse ++ sep :: back.reverse := by
      rw [← List.reverse_reverse a, parts]
      simp
    have apart : sep ∉ back.reverse := by simpa using apart
    rw [List.splitOn_append_cons_self, List.splitOn_eq_singleton apart] at split
    obtain ⟨rfl, last⟩ := List.append_inj' split rfl
    obtain rfl := List.singleton_inj.1 last
    have free : sep ∉ back.reverse ++ b := by simp [apart, free]
    rw [List.append_assoc, List.cons_append, List.splitOn_append_cons_self, List.splitOn_eq_singleton free]
  · rw [List.splitOn_eq_singleton inside] at split
    obtain ⟨rfl, rfl⟩ : [] = pieces ∧ a = last := by simpa [List.singleton_eq_append_iff, eq_comm] using split
    exact List.splitOn_eq_singleton (by simp [inside, free])

namespace HistoryLog

/-- The text consists of the rows, each with a line feed behind it. -/
def Rows (text : String) (rows : List (List Char)) : Prop := text.toList.splitOn '\n' = rows ++ [[]]

theorem rows_empty : Rows "" [] := rfl

theorem Rows.append {text : String} {rows : List (List Char)} (listed : Rows text rows) (entry : HistoryRecord) :
    Rows (text ++ line entry) (rows ++ [(Wire.write entry).toList]) := by
  have free : '\n' ∉ (Wire.write entry).toList := fun inside =>
    absurd (Wire.visible_write entry '\n' inside) (by decide)
  have further := Text.splitOn_append_of_not_mem listed free
  unfold Rows line
  rw [String.toList_append, String.toList_append, ← List.append_assoc]
  change (text.toList ++ (Wire.write entry).toList ++ '\n' :: []).splitOn '\n' = _
  rw [List.splitOn_append_cons_self, further]
  simp

theorem trim_write (entry : HistoryRecord) : Text.trim (Wire.write entry).toList ≠ [] := by
  refine Text.trim_ne_nil (c := '\x7b') ?_ (by decide)
  simp [Wire.write, Wire.toJson, Json.compact, Json.record, Json.compactChars]

theorem parse?_of_rows {text : String} {rows : List (List Char)} (listed : Rows text rows) :
    parse? text =
      (rows.filter fun row => !(Text.trim row).isEmpty).mapM fun row => Wire.read? (String.ofList row) := by
  unfold parse?
  rw [listed, List.filter_append]
  simp [Text.trim, Text.trimStart, Text.trimEnd, Text.dropEndWhile]

/-- The lines of the log are all ended, and they are read as the records. -/
structure Lists (text : String) (rows : List (List Char)) (records : List HistoryRecord) : Prop where
  rows : Rows text rows
  parsed : parse? text = some records

theorem Lists.append {text : String} {rows : List (List Char)} {records : List HistoryRecord}
    (lists : Lists text rows records) (entry : HistoryRecord) :
    Lists (text ++ line entry) (rows ++ [(Wire.write entry).toList]) (records ++ [entry]) := by
  refine ⟨lists.rows.append entry, ?_⟩
  have before := lists.parsed
  rw [parse?_of_rows lists.rows] at before
  rw [parse?_of_rows (lists.rows.append entry), List.filter_append, List.mapM_append, before]
  simp [trim_write, Wire.read?_write]

/-- There is no log and there are no records, or the log lists them. -/
def Holds (log : HistoryLog) (disk : Disk) (rows : List (List Char)) (records : List HistoryRecord) : Prop :=
  disk.readText log.path = .error .notFound ∧ rows = [] ∧ records = [] ∨
    ∃ text, disk.readText log.path = .ok text ∧ Lists text rows records

variable {log : HistoryLog} {disk grown : Disk} {rows : List (List Char)} {records : List HistoryRecord}

theorem Holds.append {entry : HistoryRecord} (holds : log.Holds disk rows records)
    (done : disk.appendText log.path (line entry) = (grown, .ok ())) :
    log.Holds grown (rows ++ [(Wire.write entry).toList]) (records ++ [entry]) := by
  rcases holds with ⟨absent, rfl, rfl⟩ | ⟨text, found, lists⟩
  · have first : Lists ("" ++ line entry) _ _ := Lists.append ⟨rows_empty, rfl⟩ entry
    rw [String.empty_append] at first
    exact .inr ⟨_, Disk.readText_appendText_absent done absent, first⟩
  · exact .inr ⟨_, Disk.readText_appendText done found, lists.append entry⟩

theorem Holds.congr (holds : log.Holds disk rows records)
    (same : grown.readText log.path = disk.readText log.path) : log.Holds grown rows records := by
  unfold Holds at holds ⊢
  rwa [same]

theorem Holds.run_records (holds : log.Holds disk rows records) (lines : List LogLine) :
    (Session.mk disk lines).run log.records = (.ok records, ⟨disk, lines⟩) := by
  rcases holds with ⟨absent, -, rfl⟩ | ⟨text, found, lists⟩
  · simp [HistoryLog.records, absent]
  · simp [HistoryLog.records, found, lists.parsed]

def failure (log : HistoryLog) (error : FileError) : LogLine :=
  ⟨.warn, "Failed to append history to " ++ log.path.text ++ ": " ++ error.message⟩

theorem run_append (log : HistoryLog) (entry : HistoryRecord) (session : Session) :
    session.run (log.append entry) =
      ((), ⟨(session.disk.appendText log.path (line entry)).1, session.log ++
        match (session.disk.appendText log.path (line entry)).2 with
        | .ok _ => []
        | .error error => [log.failure error]⟩) := by
  cases done : session.disk.appendText log.path (line entry) with
  | mk disk result => cases result <;> simp [append, done, warn, failure]

/-- If no failure is logged, the record has been appended. -/
theorem run_append_quiet {entry : HistoryRecord} {lines : List LogLine} {session : Session}
    (ran : (Session.mk disk lines).run (log.append entry) = ((), session))
    (quiet : ∀ error, log.failure error ∉ session.log) :
    ∃ grown, disk.appendText log.path (line entry) = (grown, .ok ()) ∧ session = ⟨grown, lines⟩ := by
  rw [run_append] at ran
  cases done : disk.appendText log.path (line entry) with
  | mk grown result =>
    rw [done] at ran
    cases ran
    cases result with
    | ok => exact ⟨grown, rfl, by simp⟩
    | error error => exact absurd (by simp) (quiet error)

def appendAll (log : HistoryLog) (entries : List HistoryRecord) : SessionM Unit := entries.forM log.append

theorem run_appendAll_cons (session : Session) (entry : HistoryRecord) (entries : List HistoryRecord) :
    session.run (log.appendAll (entry :: entries)) =
      (session.run (log.append entry)).2.run (log.appendAll entries) := rfl

theorem run_appendAll_append (session : Session) (earlier later : List HistoryRecord) :
    session.run (log.appendAll (earlier ++ later)) =
      (session.run (log.appendAll earlier)).2.run (log.appendAll later) := by
  induction earlier generalizing session with
  | nil => rfl
  | cons entry earlier ih => rw [List.cons_append, run_appendAll_cons, run_appendAll_cons, ih]

/-- Where a log can be made or written, every record that fits can be appended to it. -/
theorem Holds.appendAll {location : Location} {old : Option Content} {entries : List HistoryRecord}
    (holds : log.Holds disk rows records) (opened : disk.openToWrite log.path = .ok (location, old))
    (fits : (WriteMode.append.kept old).Fits (disk.limits.lookup location) (String.join (entries.map line)))
    (lines : List LogLine) :
    ∃ grown, (Session.mk disk lines).run (log.appendAll entries) = ((), ⟨grown, lines⟩) ∧
      log.Holds grown (rows ++ entries.map fun entry => (Wire.write entry).toList) (records ++ entries) := by
  induction entries generalizing disk old rows records with
  | nil => exact ⟨disk, rfl, by simpa using holds⟩
  | cons entry entries ih =>
    rw [List.map_cons, String.join_cons, Content.fits_append] at fits
    have done : disk.appendText log.path (line entry) = (_, .ok ()) :=
      Disk.write_ok_iff.2 ⟨location, old, opened, fits.1, rfl⟩
    obtain ⟨grown, ran, kept⟩ := ih (holds.append done) (Disk.openToWrite_put _ opened) fits.2
    refine ⟨grown, ?_, by simpa using kept⟩
    rw [run_appendAll_cons, run_append, done, List.append_nil]
    exact ran

/-- What is appended to a log is read from it. Where a log is not there and can be made, with room for the lines, every
run of appends and every later run on the same log succeeds; a log to which something has been appended consists of one
line for each record, with no control character in it and a line feed behind it; and reading the log gives the records in
their order. -/
theorem appendAll_records {disk : Disk} {log : HistoryLog} {location : Location}
    (free : disk.openToWrite log.path = .ok (location, none)) (lines : List LogLine)
    (earlier later : List HistoryRecord)
    (fits : ∀ most ∈ disk.limits.lookup location, (String.join ((earlier ++ later).map line)).utf8ByteSize ≤ most) :
    let entries := earlier ++ later
    let first := ((Session.mk disk lines).run (log.appendAll earlier)).2
    let last := (first.run (log.appendAll later)).2
    last.log = lines ∧
    (entries = [] → last.disk = disk) ∧
    (entries ≠ [] → ∃ text rows, last.disk.readText log.path = .ok text ∧ Rows text rows ∧
      (∀ row ∈ rows, Json.Visible row) ∧
      rows.map (fun row => Wire.read? (String.ofList row)) = entries.map some) ∧
    last.run log.records = (.ok entries, last) := by
  intro entries first last
  have absent : log.Holds disk [] [] := .inl ⟨Disk.readText_absent free, rfl, rfl⟩
  obtain ⟨grown, ran, holds⟩ := absent.appendAll free (Content.fits_empty.2 fits) lines
  have final : last = ⟨grown, lines⟩ := by simp only [last, first, ← run_appendAll_append, ran]
  rw [List.nil_append, List.nil_append] at holds
  clear_value last
  subst final
  refine ⟨rfl, ?_, ?_, holds.run_records lines⟩
  · intro idle
    rw [show earlier ++ later = [] from idle] at ran
    cases ran
    rfl
  · intro busy
    rcases holds with ⟨-, -, idle⟩ | ⟨text, found, lists⟩
    · exact absurd idle busy
    · refine ⟨text, _, found, lists.rows, ?_, ?_⟩
      · intro row inside
        obtain ⟨entry, -, rfl⟩ := List.mem_map.1 inside
        exact Wire.visible_write entry
      · rw [List.map_map]
        exact List.map_congr_left fun entry _ => by simp [Wire.read?_write]

/-- Line breaks of every kind, quotes, backslashes and control characters, in titles, names and contents; a record
without a title and without changes; two runs of appends; and a log that has room for a thousand bytes. -/
theorem appendAll_records_breaks :
    let log : HistoryLog := ⟨⟨"/h/p.qg.history.jsonl"⟩⟩
    let disk : Disk := {
      entries := [(.ofNames ["h"], .folder)]
      limits := [(.ofNames ["h", "p.qg.history.jsonl"], 1000)] }
    let earlier : List HistoryRecord := [⟨"a\nb", [⟨"p", "x\r\n\\\"\x00\r\n"⟩]⟩, ⟨"", []⟩]
    let later : List HistoryRecord := [⟨"\u2028", [⟨"é\x1f", "\n"⟩, ⟨"\r", "\x7f\u0085"⟩]⟩]
    let first := ((Session.mk disk []).run (log.appendAll earlier)).2
    let last := (first.run (log.appendAll later)).2
    disk.openToWrite log.path = .ok (.ofNames ["h", "p.qg.history.jsonl"], none) ∧ last.log = [] ∧
      (∃ text rows, last.disk.readText log.path = .ok text ∧ Rows text rows ∧ (∀ row ∈ rows, Json.Visible row) ∧
        rows.map (fun row => Wire.read? (String.ofList row)) = (earlier ++ later).map some) ∧
      last.run log.records = (.ok (earlier ++ later), last) := by
  intro log disk earlier later first last
  have free : disk.openToWrite log.path = .ok (.ofNames ["h", "p.qg.history.jsonl"], none) := by decide +kernel
  obtain ⟨quiet, -, rows, records⟩ := appendAll_records free [] earlier later (by decide +kernel)
  exact ⟨free, quiet, rows (by simp [earlier]), records⟩

end HistoryLog
end Gridbook
