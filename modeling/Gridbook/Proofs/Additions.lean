import Gridbook.Command.Run
import Gridbook.Proofs.HistoryLogs
import Gridbook.Proofs.SheetPaths

/-!
Commands that add a field to a sheet file. A command replaces the sheet and then appends one record to the log beside
it, none if its title is empty; no other file is touched. One that fails leaves the log alone and, unless it fails in
writing the sheet, all files. So a log that lists records goes on to list, one by one, what the commands with a title have
written.
-/
namespace Gridbook

theorem Sheet.appendField_eq_none_iff {text table field expression : String} :
    appendField text table field expression = none ↔ (read text).table? table = none := by
  unfold appendField
  cases (read text).table? table <;> simp

theorem HistoryRecord.group_single (titled : TitledChange) :
    group [titled] = if titled.title = "" then [] else [⟨titled.title, [titled.change]⟩] := by
  simp [group, file]

structure Addition where
  table : String
  field : String
  expression : String
  title : Option String := none
  deriving DecidableEq

namespace Addition

def command (addition : Addition) (file : Path) : Command :=
  .addField file addition.table addition.field addition.expression addition.title

/-- The title under which the addition is recorded. -/
def heading (addition : Addition) : String :=
  addition.title.getD (Command.defaultTitle addition.table addition.field)

def applyTo? (addition : Addition) (text : String) : Option String :=
  Sheet.appendField text addition.table addition.field addition.expression

def recorded (addition : Addition) (stem content : String) : List HistoryRecord :=
  if addition.heading = "" then [] else [⟨addition.heading, [⟨stem, content⟩]⟩]

section

variable {addition : Addition} {file : Path} {disk left written : Disk} {text stem content : String}

theorem run_unreadable {error : FileError} (failed : disk.readText file = .error error) :
    (Session.mk disk []).run (addition.command file).run = (.error (.unreadable file error), ⟨disk, []⟩) := by
  simp [command, Command.run, Command.appendTo, failed]

theorem run_noTable (readable : disk.readText file = .ok text) (named : SheetFile.sheetName? file = some stem)
    (missing : addition.applyTo? text = none) :
    (Session.mk disk []).run (addition.command file).run = (.error (.noTable addition.table), ⟨disk, []⟩) := by
  rw [applyTo?] at missing
  simp [command, Command.run, Command.appendTo, readable, named, missing]

theorem run_rejected {error : FileError} (readable : disk.readText file = .ok text)
    (named : SheetFile.sheetName? file = some stem) (made : addition.applyTo? text = some content)
    (failed : disk.writeText ((SheetWriter.beside file).pathFor stem) (terminate content) = (left, .error error)) :
    ∃ lines, (Session.mk disk []).run (addition.command file).run = (.error (.rejected ⟨[stem]⟩), ⟨left, lines⟩) := by
  rw [applyTo?] at made
  simp [command, Command.run, Command.appendTo, readable, named, made, Editor.submit, Editor.address,
    SheetWriter.update, failed, warn, debug]

theorem run_done (readable : disk.readText file = .ok text) (named : SheetFile.sheetName? file = some stem)
    (made : addition.applyTo? text = some content)
    (done : disk.writeText ((SheetWriter.beside file).pathFor stem) (terminate content) = (written, .ok ())) :
    ∃ lines, (Session.mk disk []).run (addition.command file).run =
      (.ok "", ((Session.mk written lines).run
        ((HistoryLog.forSheet file).appendAll (addition.recorded stem (terminate content)))).2) := by
  rw [applyTo?] at made
  refine ⟨[⟨.debug, "Updating " ++ Nat.repr 1 ++ " sheet(s)"⟩,
    ⟨.debug, "Wrote " ++ ((SheetWriter.beside file).pathFor stem).text⟩], ?_⟩
  by_cases untitled : addition.title.getD (Command.defaultTitle addition.table addition.field) = ""
  all_goals
    simp [command, Command.run, Command.appendTo, readable, named, made, Editor.submit, Editor.address,
      SheetWriter.update, done, debug, HistoryRecord.group_single, HistoryLog.appendAll, recorded, heading, untitled]

end

end Addition

/-- One command of a run, with what it found and what it left. -/
structure AdditionTurn where
  addition : Addition
  before : Disk
  outcome : Outcome
  after : Disk
  log : List LogLine

namespace AdditionTurn

def take (file : Path) (disk : Disk) (addition : Addition) : AdditionTurn :=
  let (result, session) := (Session.mk disk []).run (addition.command file).run
  ⟨addition, disk, .ofResult result, session.disk, session.log⟩

/-- Commands on one sheet file, each on the disk that the one before it left. -/
def takeAll (file : Path) (disk : Disk) : List Addition → List AdditionTurn
  | [] => []
  | addition :: additions => take file disk addition :: takeAll file (take file disk addition).after additions

/-- The record of a command with a title that succeeded, with the content that it wrote. -/
def record? (file : Path) (turn : AdditionTurn) : Option HistoryRecord :=
  match turn.outcome.code, file.stem?, turn.after.readText file with
  | .success, some stem, .ok content =>
    if turn.addition.heading = "" then none else some ⟨turn.addition.heading, [⟨stem, content⟩]⟩
  | _, _, _ => none

/-- The sheet has the content, and the log has one more record, none without a title. Nothing else has changed. -/
structure Wrote (file : Path) (addition : Addition) (stem content : String) (rows : List (List Char))
    (records : List HistoryRecord) (before after : Disk) : Prop where
  sheet : after.readText file = .ok content
  others : ∀ location, before.locate file ≠ .ok location →
    (before.locate (HistoryLog.forSheet file).path = .ok location → addition.heading = "") →
    after.entry? location = before.entry? location
  listed : (HistoryLog.forSheet file).Holds before rows records
  lists : (HistoryLog.forSheet file).Holds after
    (rows ++ (addition.recorded stem content).map fun entry => (Wire.write entry).toList)
    (records ++ addition.recorded stem content)

/-- What a command does. It is decided by what it finds: the sheet, the table in it, and whether the sheet can be
written. A sheet that could be opened but not filled is the only file that a command which fails has changed. -/
inductive Follows (file : Path) (turn : AdditionTurn) : Prop
  | unreadable {error : FileError} (found : turn.before.readText file = .error error)
      (code : turn.outcome.code.number = 2) (kept : turn.after = turn.before)
  | noTable {text : String} (found : turn.before.readText file = .ok text)
      (missing : (Sheet.read text).table? turn.addition.table = none)
      (code : turn.outcome.code.number = 3) (kept : turn.after = turn.before)
  | rejected {text content : String} {error : FileError} (found : turn.before.readText file = .ok text)
      (made : turn.addition.applyTo? text = some content)
      (refused : turn.before.writeText file (terminate content) = (turn.after, .error error))
      (code : turn.outcome.code.number = 4)
      (unlogged : turn.after.readText (HistoryLog.forSheet file).path =
        turn.before.readText (HistoryLog.forSheet file).path)
      (others : ∀ location, turn.before.locate file ≠ .ok location →
        turn.after.entry? location = turn.before.entry? location)
  | done {text content stem : String} {written : Disk} {rows : List (List Char)} {records : List HistoryRecord}
      (found : turn.before.readText file = .ok text) (made : turn.addition.applyTo? text = some content)
      (accepted : turn.before.writeText file (terminate content) = (written, .ok ())) (named : file.stem? = some stem)
      (code : turn.outcome.code.number = 0)
      (wrote : Wrote file turn.addition stem (terminate content) rows records turn.before turn.after)

variable {file : Path} {disk written : Disk} {addition : Addition} {extension text stem content : String}
  {rows : List (List Char)} {records : List HistoryRecord} {lines : List LogLine}

theorem wrote_appendAll (named : file.extension? = some extension)
    (holds : (HistoryLog.forSheet file).Holds disk rows records) (found : disk.readText file = .ok text)
    (accepted : disk.writeText file content = (written, .ok ())) {session : Session}
    (ran : (Session.mk written lines).run ((HistoryLog.forSheet file).appendAll (addition.recorded stem content)) =
      ((), session))
    (quiet : ∀ error, (HistoryLog.forSheet file).failure error ∉ session.log) :
    Wrote file addition stem content rows records disk session.disk := by
  have sheet := Disk.readText_writeText accepted
  obtain ⟨same, located, others⟩ := Disk.writeText_sheet named found content
  simp only [accepted] at same located others
  have kept := holds.congr same
  by_cases untitled : addition.heading = ""
  · have nothing : addition.recorded stem content = [] := by simp [Addition.recorded, untitled]
    rw [nothing] at ran
    cases ran
    exact ⟨sheet, fun place elsewhere _ => others place elsewhere, holds, by simpa [nothing] using kept⟩
  · have one : addition.recorded stem content = [⟨addition.heading, [⟨stem, content⟩]⟩] := by
      simp [Addition.recorded, untitled]
    rw [one] at ran
    obtain ⟨grown, done, rfl⟩ := HistoryLog.run_append_quiet ran quiet
    obtain ⟨still, beyond⟩ := Disk.appendText_forSheet named sheet
      (HistoryLog.line ⟨addition.heading, [⟨stem, content⟩]⟩)
    simp only [done] at still beyond
    refine ⟨still, ?_, holds, by simpa [one] using kept.append done⟩
    intro place elsewhere beside
    have apart : written.locate (HistoryLog.forSheet file).path ≠ .ok place := by
      rw [located]
      exact fun there => untitled (beside there)
    exact (beyond place apart).trans (others place elsewhere)

/-- The turn follows the rule, and the log goes on to list what the turn has recorded. -/
def Extends (file : Path) (records : List HistoryRecord) (turn : AdditionTurn) : Prop :=
  turn.Follows file ∧
    ∃ rows, (HistoryLog.forSheet file).Holds turn.after rows (records ++ (turn.record? file).toList)

section

variable {turn : AdditionTurn}

theorem extends_of_failed (holds : (HistoryLog.forSheet file).Holds turn.before rows records)
    (failed : turn.outcome.code ≠ .success)
    (unlogged : turn.after.readText (HistoryLog.forSheet file).path =
      turn.before.readText (HistoryLog.forSheet file).path)
    (follows : turn.Follows file) : turn.Extends file records := by
  have nothing : turn.record? file = none := by simp [record?, failed]
  exact ⟨follows, rows, by simpa [nothing] using holds.congr unlogged⟩

theorem extends_of_wrote (success : turn.outcome.code = .success) (named : file.stem? = some stem)
    (wrote : Wrote file turn.addition stem content rows records turn.before turn.after)
    (follows : turn.Follows file) : turn.Extends file records := by
  have gained : (turn.record? file).toList = turn.addition.recorded stem content := by
    by_cases untitled : turn.addition.heading = ""
    all_goals simp [record?, success, named, wrote.sheet, Addition.recorded, untitled]
  rw [Extends, gained]
  exact ⟨follows, _, wrote.lists⟩

end

theorem take_eq {result : Except CommandError String} {session : Session}
    (ran : (Session.mk disk []).run (addition.command file).run = (result, session)) :
    take file disk addition = ⟨addition, disk, .ofResult result, session.disk, session.log⟩ := by
  rw [take, ran]

theorem extends_take (named : file.extension? = some extension)
    (holds : (HistoryLog.forSheet file).Holds disk rows records)
    (quiet : ∀ error, (HistoryLog.forSheet file).failure error ∉ (take file disk addition).log) :
    (take file disk addition).Extends file records := by
  cases found : disk.readText file with
  | error error =>
    rw [take_eq (Addition.run_unreadable found)]
    exact extends_of_failed holds (by simp [Outcome.ofResult, CommandError.code]) rfl (.unreadable found rfl rfl)
  | ok text =>
    obtain ⟨stem, stem?, sheetName?, opened⟩ := Disk.openToWrite_beside named found
    cases made : addition.applyTo? text with
    | none =>
      have missing := Sheet.appendField_eq_none_iff.1 made
      rw [take_eq (Addition.run_noTable found sheetName? made)]
      exact extends_of_failed holds (by simp [Outcome.ofResult, CommandError.code]) rfl (.noTable found missing rfl rfl)
    | some content =>
      have writes : disk.writeText ((SheetWriter.beside file).pathFor stem) (terminate content) =
          disk.writeText file (terminate content) := Disk.write_congr opened
      cases accepted : disk.writeText file (terminate content) with
      | mk written result =>
        cases result with
        | error error =>
          obtain ⟨lines, ran⟩ := Addition.run_rejected found sheetName? made (writes.trans accepted)
          obtain ⟨unlogged, -, others⟩ := Disk.writeText_sheet named found (terminate content)
          simp only [accepted] at unlogged others
          rw [take_eq ran]
          exact extends_of_failed holds (by simp [Outcome.ofResult, CommandError.code]) unlogged
            (.rejected found made accepted rfl unlogged others)
        | ok =>
          obtain ⟨lines, ran⟩ := Addition.run_done found sheetName? made (writes.trans accepted)
          rw [take_eq ran] at quiet ⊢
          have wrote := wrote_appendAll named holds found accepted rfl quiet
          exact extends_of_wrote rfl stem? wrote (.done found made accepted stem? rfl wrote)

def diskAfter (disk : Disk) (turns : List AdditionTurn) : Disk := turns.foldl (fun _ turn => turn.after) disk

theorem follows_takeAll (named : file.extension? = some extension)
    (holds : (HistoryLog.forSheet file).Holds disk rows records) {additions : List Addition}
    (quiet : ∀ turn ∈ takeAll file disk additions, ∀ error, (HistoryLog.forSheet file).failure error ∉ turn.log) :
    (∀ turn ∈ takeAll file disk additions, turn.Follows file) ∧
      ∃ rows, (HistoryLog.forSheet file).Holds (diskAfter disk (takeAll file disk additions)) rows
        (records ++ (takeAll file disk additions).filterMap (record? file)) := by
  induction additions generalizing disk rows records with
  | nil => exact ⟨by simp [takeAll], rows, by simpa [takeAll, diskAfter] using holds⟩
  | cons addition additions ih =>
    obtain ⟨follows, rows, lists⟩ := extends_take named holds (quiet _ (List.mem_cons_self ..))
    obtain ⟨further, rows, lists⟩ := ih lists fun turn inside => quiet turn (List.mem_cons_of_mem _ inside)
    refine ⟨?_, rows, ?_⟩
    · rintro turn (_ | ⟨_, inside⟩)
      · exact follows
      · exact further turn inside
    · rw [List.append_assoc] at lists
      have gained : (takeAll file disk (addition :: additions)).filterMap (record? file) =
          ((take file disk addition).record? file).toList ++
            (takeAll file (take file disk addition).after additions).filterMap (record? file) := by
        cases recorded : (take file disk addition).record? file <;> simp [takeAll, recorded]
      rw [gained]
      exact lists

/-- Commands that add fields keep the log in step with the sheet. On a file with an extension, beside which there is no
log or one that lists records, every command of every run follows the rule, provided that no record fails to be appended.
After the run the log lists the records from before and then, in their order, one for each command that succeeded under a
title, with the content that it wrote. -/
theorem takeAll_recorded (named : file.extension? = some extension)
    (holds : (HistoryLog.forSheet file).Holds disk rows records) (additions : List Addition)
    (quiet : ∀ turn ∈ takeAll file disk additions, ∀ error, (HistoryLog.forSheet file).failure error ∉ turn.log) :
    let turns := takeAll file disk additions
    let final := diskAfter disk turns
    (∀ turn ∈ turns, turn.Follows file) ∧
      ∀ lines, (Session.mk final lines).run (HistoryLog.forSheet file).records =
        (.ok (records ++ turns.filterMap (record? file)), ⟨final, lines⟩) := by
  obtain ⟨follows, rows, lists⟩ := follows_takeAll named holds quiet
  exact ⟨follows, lists.run_records⟩

/-- A path with a dot in it, a log with a record and a blank line, and four commands: one with the title that it gets by
default, one on a table that is not there, one without a title, and one with a title of two lines. -/
theorem takeAll_recorded_mixed :
    let file : Path := ⟨"/w/./p.qg"⟩
    let log : String := "\x7b\"changes\":[],\"title\":\"a\"\x7d\n \r\n"
    let disk : Disk := { entries := [(.ofNames ["w"], .folder),
      (.ofNames ["w", "p.qg"], .file (.text "table t\n  [a] = 1\n")),
      (.ofNames ["w", "p.qg.history.jsonl"], .file (.text log))] }
    let additions : List Addition := [⟨"t", "b", "2", none⟩, ⟨"u", "b", "2", none⟩, ⟨"t", "c", "", some ""⟩,
      ⟨"t", "d", "[a]", some "x\ny"⟩]
    let turns := takeAll file disk additions
    let final := diskAfter disk turns
    file.extension? = some "qg" ∧
    (HistoryLog.forSheet file).Holds disk ["\x7b\"changes\":[],\"title\":\"a\"\x7d".toList, [' ', '\r']] [⟨"a", []⟩] ∧
    (∀ turn ∈ turns, ∀ error, (HistoryLog.forSheet file).failure error ∉ turn.log) ∧
    turns.map (·.outcome.code.number) = [0, 3, 0, 0] ∧
    (∀ turn ∈ turns, turn.Follows file) ∧
    ∀ lines, (Session.mk final lines).run (HistoryLog.forSheet file).records =
      (.ok ([⟨"a", []⟩] ++ turns.filterMap (record? file)), ⟨final, lines⟩) := by
  intro file log disk additions turns final
  have named : file.extension? = some "qg" := by decide +kernel
  have listed : HistoryLog.Lists log ["\x7b\"changes\":[],\"title\":\"a\"\x7d".toList, [' ', '\r']] [⟨"a", []⟩] :=
    ⟨by unfold HistoryLog.Rows; decide +kernel, by decide +kernel⟩
  have holds : (HistoryLog.forSheet file).Holds disk ["\x7b\"changes\":[],\"title\":\"a\"\x7d".toList, [' ', '\r']]
      [⟨"a", []⟩] := .inr ⟨log, by decide +kernel, listed⟩
  have logged : ∀ turn ∈ turns, ∀ line ∈ turn.log, line.level = .debug := by decide +kernel
  have quiet : ∀ turn ∈ turns, ∀ error, (HistoryLog.forSheet file).failure error ∉ turn.log := by
    intro turn inside error failed
    cases logged turn inside _ failed
  exact ⟨named, holds, quiet, by decide +kernel, takeAll_recorded named holds additions quiet⟩

end AdditionTurn
end Gridbook
