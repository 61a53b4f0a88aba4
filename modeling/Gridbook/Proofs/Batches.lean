import Gridbook.Proofs.Grouping
import Gridbook.Proofs.HistoryLogs
import Gridbook.Proofs.Writes

/-!
Batches of edits that are written to files. Changes are written one after the other, and the first that cannot be written
ends the batch: what was written before it stays, its own file may be left with the beginning of its text, nothing behind
it is tried, and nothing is recorded. A batch whose changes have all been written is accepted, whether or not its records
can be appended to the log. To say what is tried, the session is watched (`Session.watch`): the attempts to write files
are kept beside it.
-/
namespace Gridbook

structure Attempt where
  path : Path
  text : String
  done : Bool
  deriving DecidableEq

/-- A session in which the attempts to write files are kept, in their order. -/
abbrev WatchedM := StateT (List Attempt) SessionM

namespace WatchedM

instance : MonadLog WatchedM where
  log line := StateT.lift (MonadLog.log line)

instance : MonadFiles WatchedM where
  readText path := StateT.lift (MonadFiles.readText path)
  writeText path text := do
    let result ← StateT.lift (MonadFiles.writeText path text)
    modify fun tried => tried ++ [⟨path, text, result.toBool⟩]
    return result
  appendText path text := StateT.lift (MonadFiles.appendText path text)
  list path := StateT.lift (MonadFiles.list path)

end WatchedM

namespace Session

/-- What an action answers and has tried, behind earlier attempts, and the session that it leaves. -/
def watch {α : Type} (session : Session) (tried : List Attempt) (action : WatchedM α) : (α × List Attempt) × Session :=
  session.run (StateT.run action tried)

variable {α β : Type} (session : Session) (tried : List Attempt)

@[simp] theorem watch_pure (a : α) : session.watch tried (pure a) = ((a, tried), session) := rfl

@[simp] theorem watch_bind (action : WatchedM α) (next : α → WatchedM β) :
    session.watch tried (action >>= next) =
      (session.watch tried action).2.watch (session.watch tried action).1.2
        (next (session.watch tried action).1.1) := rfl

@[simp] theorem watch_map (f : α → β) (action : WatchedM α) :
    session.watch tried (f <$> action) =
      ((f (session.watch tried action).1.1, (session.watch tried action).1.2), (session.watch tried action).2) := rfl

@[simp] theorem watch_log (line : LogLine) :
    session.watch tried (MonadLog.log line) = (((), tried), { session with log := session.log ++ [line] }) := rfl

@[simp] theorem watch_writeText (path : Path) (text : String) :
    session.watch tried (MonadFiles.writeText path text) =
      (((session.disk.writeText path text).2, tried ++ [⟨path, text, (session.disk.writeText path text).2.toBool⟩]),
        { session with disk := (session.disk.writeText path text).1 }) := rfl

@[simp] theorem watch_appendText (path : Path) (text : String) :
    session.watch tried (MonadFiles.appendText path text) =
      (((session.run (MonadFiles.appendText path text)).1, tried),
        (session.run (MonadFiles.appendText path text)).2) := rfl

end Session

namespace HistoryLog

/-- The log can be opened and can hold the lines of the records. -/
def Accepts (log : HistoryLog) (disk : Disk) (records : List HistoryRecord) : Prop :=
  (disk.appendText log.path (String.join (records.map line))).2 = .ok ()

/-- The log has one more line for each record, as far as they fit. If it cannot be opened, nothing happens. -/
structure Gains (log : HistoryLog) (records : List HistoryRecord) (before after : Disk) : Prop where
  idle : records = [] ∨ ¬before.Writable log.path → after = before
  gained : ∀ location old, before.openToWrite log.path = .ok (location, old) → records ≠ [] →
    after = before.put location (.file
      ((WriteMode.append.kept old).grow (before.limits.lookup location) (String.join (records.map line))).1)

variable {log : HistoryLog} (session : Session) (records : List HistoryRecord)

/-- Records appended one by one leave what their lines leave when they are appended as one text. -/
theorem disk_run_appendAll (busy : records ≠ []) :
    (session.run (log.appendAll records)).2.disk =
      (session.disk.appendText log.path (String.join (records.map line))).1 := by
  induction records generalizing session with
  | nil => exact absurd rfl busy
  | cons entry records ih =>
    rw [run_appendAll_cons, run_append, List.map_cons, String.join_cons]
    cases records with
    | nil => simp [appendAll]
    | cons next records => rw [ih _ (List.cons_ne_nil next records), Disk.appendText_appendText]

theorem gains_appendAll : log.Gains records session.disk (session.run (log.appendAll records)).2.disk where
  idle := by
    intro why
    by_cases busy : records = []
    · subst busy
      rfl
    · cases opened : session.disk.openToWrite log.path with
      | ok file => exact absurd ⟨file.1, file.2, opened⟩ (why.resolve_left busy)
      | error error => rw [disk_run_appendAll session records busy, Disk.appendText, Disk.write_refused opened]
  gained _ _ opened busy := by rw [disk_run_appendAll session records busy, Disk.appendText, Disk.write_opened opened]

theorem watch_append (tried : List Attempt) (entry : HistoryRecord) :
    session.watch tried (log.append entry) = (((), tried), (session.run (log.append entry)).2) := by
  cases done : session.disk.appendText log.path (line entry) with
  | mk disk result => cases result <;> simp [append, done, warn]

theorem watch_appendAll (tried : List Attempt) :
    session.watch tried (records.forM log.append) = (((), tried), (session.run (log.appendAll records)).2) := by
  induction records generalizing session with
  | nil => rfl
  | cons entry records ih =>
    have first : session.watch tried ((entry :: records).forM log.append) =
        (session.watch tried (log.append entry)).2.watch (session.watch tried (log.append entry)).1.2
          (records.forM log.append) := rfl
    rw [first, watch_append, ih, run_appendAll_cons]

end HistoryLog

namespace SheetWriter

def attempt (writer : SheetWriter) (done : Bool) (change : SheetChange) : Attempt :=
  ⟨writer.pathFor change.sheet, change.content, done⟩

def receiver {m : Type → Type} [Monad m] [MonadLog m] [MonadFiles m] (writer : SheetWriter) (log : HistoryLog) :
    Receiver m :=
  ⟨writer.update, log.append⟩

variable {writer : SheetWriter} {disk : Disk} {changes : List SheetChange} {change : SheetChange}

theorem watch_update_cons {written : Disk} (lines : List LogLine) (tried : List Attempt)
    (done : disk.writeText (writer.pathFor change.sheet) change.content = (written, .ok ())) :
    (Session.mk disk lines).watch tried (writer.update (change :: changes)) =
      (Session.mk written (lines ++ [⟨.debug, "Wrote " ++ (writer.pathFor change.sheet).text⟩])).watch
        (tried ++ [writer.attempt true change]) (writer.update changes) := by
  simp [update, done, debug, attempt, Except.toBool]

/-- Changes that can all be written are, and then it is the turn of those behind them. -/
theorem watch_update_append {a : List SheetChange} (accepted : ∀ change ∈ a, writer.Accepts disk change)
    (b : List SheetChange) (lines : List LogLine) (tried : List Attempt) :
    ∃ written logged, writer.Wrote a disk written ∧
      (Session.mk disk lines).watch tried (writer.update (a ++ b)) =
        (Session.mk written logged).watch (tried ++ a.map (writer.attempt true)) (writer.update b) := by
  induction a generalizing disk lines tried with
  | nil => exact ⟨disk, lines, wrote_nil writer disk, by simp⟩
  | cons change a ih =>
    have here := accepted change (List.mem_cons_self ..)
    obtain ⟨location, ⟨old, opened⟩, fits⟩ := Disk.writeText_ok_iff.1 here
    have done : disk.writeText (writer.pathFor change.sheet) change.content = (_, .ok ()) :=
      Disk.writeText_iff.2 ⟨location, old, opened, fits, rfl⟩
    have first := wrote_singleton opened
    have same := first.sameFolders (by simpa using here)
    obtain ⟨written, logged, wrote, ran⟩ := ih (fun other inside =>
      same.writeText_ok.2 (accepted other (List.mem_cons_of_mem _ inside))) _ _
    refine ⟨written, logged, first.append same wrote, ?_⟩
    rw [List.cons_append, watch_update_cons lines tried done, ran]
    simp

/-- A change that cannot be written is the last that is tried. -/
theorem watch_update_refused (refused : ¬writer.Accepts disk change) (later : List SheetChange)
    (lines : List LogLine) (tried : List Attempt) :
    ∃ left, disk.Interrupted (writer.pathFor change.sheet) change.content left ∧
      ∃ logged, (Session.mk disk lines).watch tried (writer.update (change :: later)) =
        ((false, tried ++ [writer.attempt false change]), ⟨left, logged⟩) := by
  unfold Accepts at refused
  cases failed : disk.writeText (writer.pathFor change.sheet) change.content with
  | mk left result =>
    cases result with
    | ok => simp [failed] at refused
    | error error =>
      refine ⟨left, Disk.interrupted_writeText failed, ?_⟩
      simp [update, failed, warn, attempt, Except.toBool]

/-- Watching changes nothing. -/
theorem run_update (session : Session) (tried : List Attempt) :
    session.run (writer.update changes) =
      ((session.watch tried (writer.update changes)).1.1, (session.watch tried (writer.update changes)).2) := by
  induction changes generalizing session tried with
  | nil => rfl
  | cons change changes ih =>
    cases done : session.disk.writeText (writer.pathFor change.sheet) change.content with
    | mk written result =>
      cases result with
      | ok =>
        have ran : session.run (writer.update (change :: changes)) =
            (Session.mk written (session.log ++ [⟨.debug, "Wrote " ++ (writer.pathFor change.sheet).text⟩])).run
              (writer.update changes) := by
          simp [update, done, debug]
        rw [ran, watch_update_cons _ _ done]
        exact ih _ _
      | error error => simp [update, done, warn]

/-- Unless all changes can be written, there is a first that cannot. -/
theorem exists_first_refused (blocked : ¬∀ change ∈ changes, writer.Accepts disk change) :
    ∃ before failed later, changes = before ++ failed :: later ∧
      (∀ change ∈ before, writer.Accepts disk change) ∧ ¬writer.Accepts disk failed := by
  induction changes with
  | nil => simp at blocked
  | cons change changes ih =>
    by_cases first : writer.Accepts disk change
    · have rest : ¬∀ change ∈ changes, writer.Accepts disk change := by simpa [first] using blocked
      obtain ⟨before, failed, later, rfl, accepted, refused⟩ := ih rest
      exact ⟨change :: before, failed, later, rfl, by simpa [first] using accepted, refused⟩
    · exact ⟨[], change, changes, rfl, by simp, first⟩

/-- What becomes of some changes, by what the files allow: the answer, the attempts to write, and the files. -/
inductive Settled (writer : SheetWriter) (log : HistoryLog) (disk : Disk) (titled : List TitledChange) :
    Except Rejected Unit → List Attempt → Disk → Prop where
  | accepted {written after : Disk}
      (accepts : ∀ change ∈ titled.map (·.change), writer.Accepts disk change)
      (wrote : writer.Wrote (titled.map (·.change)) disk written)
      (gains : log.Gains (HistoryRecord.group titled) written after)
      (listed : (∀ change ∈ titled.map (·.change), ¬writer.Hits disk log.path change) →
        log.Accepts disk (HistoryRecord.group titled) →
        ∀ rows old, log.Holds disk rows old → ∃ more, log.Holds after more (old ++ HistoryRecord.group titled)) :
      Settled writer log disk titled (.ok ()) ((titled.map (·.change)).map (writer.attempt true)) after
  | rejected {before later : List SheetChange} {failed : SheetChange} {written after : Disk}
      (parts : titled.map (·.change) = before ++ failed :: later)
      (accepts : ∀ change ∈ before, writer.Accepts disk change) (refused : ¬writer.Accepts disk failed)
      (wrote : writer.Wrote before disk written)
      (left : written.Interrupted (writer.pathFor failed.sheet) failed.content after)
      (unlogged : (∀ change ∈ before, ¬writer.Hits disk log.path change) →
        after = written ∨ ¬writer.Hits disk log.path failed → after.at? log.path = disk.at? log.path) :
      Settled writer log disk titled (.error ⟨(titled.map (·.change)).map (·.sheet)⟩)
        (before.map (writer.attempt true) ++ [writer.attempt false failed]) after

section

variable {log : HistoryLog} {titled : List TitledChange} {answer : Except Rejected Unit} {tried : List Attempt}
  {after : Disk}

/-- A batch is accepted if every change was tried and written. -/
theorem Settled.ok_iff_tried (settled : writer.Settled log disk titled answer tried after) :
    answer = .ok () ↔ tried = (titled.map (·.change)).map (writer.attempt true) := by
  cases settled with
  | accepted => exact ⟨fun _ => rfl, fun _ => rfl⟩
  | @rejected before later failed =>
    refine ⟨nofun, fun same => ?_⟩
    have last : writer.attempt false failed ∈ (titled.map (·.change)).map (writer.attempt true) := by simp [← same]
    obtain ⟨change, -, equal⟩ := List.mem_map.1 last
    exact absurd (congrArg Attempt.done equal) (by simp [attempt])

/-- A batch is accepted if every one of its changes can be written. -/
theorem Settled.ok_iff_accepts (settled : writer.Settled log disk titled answer tried after) :
    answer = .ok () ↔ ∀ change ∈ titled.map (·.change), writer.Accepts disk change := by
  cases settled with
  | accepted accepts => exact ⟨fun _ => accepts, fun _ => rfl⟩
  | @rejected before later failed _ _ parts _ refused =>
    exact ⟨nofun, fun accepts => absurd (accepts failed (by simp [parts])) refused⟩

end

end SheetWriter

namespace Editor

variable (editor : Editor) (writer : SheetWriter) (log : HistoryLog)

/-- Submitting a batch writes its changes; then come the records, or a refusal. -/
theorem watch_submit (disk : Disk) (lines : List LogLine) (batch : List Edit) :
    ∃ logged, ∀ written tried next,
      (Session.mk disk logged).watch [] (writer.update ((batch.map editor.address).map (·.change))) =
        ((written, tried), next) →
      ∃ rest, (Session.mk disk lines).watch [] (editor.submit (writer.receiver log) batch) =
        if written then
          ((.ok (), tried), (next.run (log.appendAll (HistoryRecord.group (batch.map editor.address)))).2)
        else ((.error ⟨((batch.map editor.address).map (·.change)).map (·.sheet)⟩, tried), ⟨next.disk, rest⟩) := by
  cases batch with
  | nil =>
    refine ⟨lines ++ [⟨.debug, "DSL edit batch is empty, nothing to apply"⟩], ?_⟩
    rintro written tried next ⟨⟩
    exact ⟨[], rfl⟩
  | cons edit batch =>
    refine ⟨lines ++ [⟨.debug, "Updating " ++ Nat.repr ((edit :: batch).map editor.address).length ++ " sheet(s)"⟩], ?_⟩
    intro written tried next ran
    simp only [submit, SheetWriter.receiver, List.isEmpty_cons, Bool.false_eq_true, if_false, debug,
      Session.watch_bind, Session.watch_log, ran]
    cases written with
    | true =>
      refine ⟨[], ?_⟩
      simp only [if_true, Session.watch_bind, HistoryLog.watch_appendAll, Session.watch_pure]
    | false =>
      simp [warn]

/-- Watching changes nothing. -/
theorem run_submit (session : Session) (batch : List Edit) :
    session.run (editor.submit (writer.receiver log) batch) =
      ((session.watch [] (editor.submit (writer.receiver log) batch)).1.1,
        (session.watch [] (editor.submit (writer.receiver log) batch)).2) := by
  cases batch with
  | nil => rfl
  | cons edit batch =>
    simp only [submit, SheetWriter.receiver, List.isEmpty_cons, Bool.false_eq_true, if_false, debug,
      Session.watch_bind, Session.watch_log, Session.run_bind, Session.run_log]
    rw [SheetWriter.run_update _ []]
    split
    · simp only [Session.run_bind, Session.run_pure, Session.watch_bind, HistoryLog.watch_appendAll, Session.watch_pure]
      rfl
    · simp [warn]

/-- A batch that is written to files is settled by what the files allow. -/
theorem settled_submit (disk : Disk) (lines : List LogLine) (batch : List Edit) :
    let watched := (Session.mk disk lines).watch [] (editor.submit (writer.receiver log) batch)
    writer.Settled log disk (batch.map editor.address) watched.1.1 watched.1.2 watched.2.disk := by
  intro watched
  obtain ⟨logged, submitted⟩ := editor.watch_submit writer log disk lines batch
  by_cases accepts : ∀ change ∈ (batch.map editor.address).map (·.change), writer.Accepts disk change
  · obtain ⟨written, rest, wrote, ran⟩ := SheetWriter.watch_update_append accepts [] logged []
    rw [List.append_nil, List.nil_append] at ran
    obtain ⟨lines', done⟩ := submitted true _ _ ran
    have same := wrote.sameFolders accepts
    simp only [watched, done, if_true]
    refine .accepted accepts wrote (HistoryLog.gains_appendAll ⟨written, rest⟩ _) ?_
    intro apart room rows old holds
    obtain ⟨location, found, opened, fits, -⟩ := Disk.write_ok_iff.1 (Prod.ext rfl room)
    have holds := holds.congr (wrote.readText_eq same apart (Disk.openToWrite_ok opened).2.1)
    rw [← same.limits] at fits
    obtain ⟨grown, appended, listed⟩ := holds.appendAll (wrote.openToWrite_eq same apart opened) fits rest
    rw [appended]
    exact ⟨_, listed⟩
  · obtain ⟨before, failed, later, parts, accepts, refused⟩ := SheetWriter.exists_first_refused accepts
    obtain ⟨written, rest, wrote, ran⟩ := SheetWriter.watch_update_append accepts (failed :: later) logged []
    have same := wrote.sameFolders accepts
    have refused' : ¬writer.Accepts written failed := fun again => refused (same.writeText_ok.1 again)
    obtain ⟨left, interrupted, last, stopped⟩ :=
      SheetWriter.watch_update_refused refused' later rest ([] ++ before.map (writer.attempt true))
    rw [← parts, stopped, List.nil_append] at ran
    obtain ⟨lines', done⟩ := submitted false _ _ ran
    simp only [watched, done, Bool.false_eq_true, if_false]
    refine .rejected parts accepts refused wrote interrupted ?_
    intro apart missed
    rw [← wrote.at?_eq same apart]
    rcases missed with rfl | missed
    · rfl
    · exact interrupted.at?_eq fun location there logs =>
        missed ⟨location, same.locate.1 there, same.locate.1 logs⟩

/-- What becomes of a batch, whatever files there are, whichever of them cannot be opened and however little fits in
them. A batch is accepted if and only if every one of its changes was written, and it is written if and only if each of
them can be. Then the files are those from before with the changes, of which the last to a file counts, and the log, if it
can be opened, has one more line for each title but the empty one, in the order in which titles first come, as far as
they fit. Otherwise the batch is rejected: the files are those from before with the changes before the first that cannot
be written, except that its file, if it could be opened, holds the beginning of its text; no later change was tried, and
the log is as it was unless one of the changes was written or cut short in its place. -/
theorem submit_settled (editor : Editor) (writer : SheetWriter) (log : HistoryLog) (disk : Disk)
    (lines : List LogLine) (batch : List Edit) :
    let titled := batch.map editor.address
    let changes := titled.map (·.change)
    let watched := (Session.mk disk lines).watch [] (editor.submit (writer.receiver log) batch)
    (Session.mk disk lines).run (editor.submit (writer.receiver log) batch) = (watched.1.1, watched.2) ∧
    (watched.1.1 = .ok () ↔ watched.1.2 = changes.map (writer.attempt true)) ∧
    (watched.1.1 = .ok () ↔ ∀ change ∈ changes, writer.Accepts disk change) ∧
    (HistoryRecord.group titled).map (·.title) = ((titled.map (·.title)).filter (· ≠ "")).eraseDups ∧
    writer.Settled log disk titled watched.1.1 watched.1.2 watched.2.disk := by
  intro titled changes watched
  have settled : writer.Settled log disk titled watched.1.1 watched.1.2 watched.2.disk :=
    editor.settled_submit writer log disk lines batch
  exact ⟨editor.run_submit writer log _ batch, settled.ok_iff_tried, settled.ok_iff_accepts,
    HistoryRecord.map_title_group titled, settled⟩

/-- A batch with two changes to one sheet, then one to a file that holds only one byte and one that could have been
written. -/
theorem submit_settled_midway :
    let sheet : Path := ⟨"/w/a.qg"⟩
    let writer := SheetWriter.beside sheet
    let log := HistoryLog.forSheet sheet
    let disk : Disk := {
      entries := [(.ofNames ["w"], .folder), (.ofNames ["w", "a.qg"], .file (.text "0")),
        (.ofNames ["w", "b.qg"], .file (.text "9"))]
      limits := [(.ofNames ["w", "b.qg"], 1)] }
    let batch : List Edit := [⟨"1", "t", none⟩, ⟨"2", "", some "a"⟩, ⟨"3", "t", some "b"⟩, ⟨"4", "u", some "c"⟩]
    let watched := (Session.mk disk []).watch [] ((Editor.mk "a").submit (writer.receiver log) batch)
    watched.1.1 = .error ⟨["a", "a", "b", "c"]⟩ ∧
      watched.1.2 = [⟨sheet, "1\r\n", true⟩, ⟨sheet, "2\r\n", true⟩, ⟨⟨"/w/b.qg"⟩, "3\r\n", false⟩] ∧
      watched.2.disk.readText sheet = .ok "2\r\n" ∧ watched.2.disk.readText ⟨"/w/b.qg"⟩ = .ok "3" ∧
      watched.2.disk.readText ⟨"/w/c.qg"⟩ = .error .notFound ∧
      watched.2.disk.readText log.path = .error .notFound ∧
      writer.Settled log disk (batch.map (Editor.mk "a").address) watched.1.1 watched.1.2 watched.2.disk := by
  intro sheet writer log disk batch watched
  have settled : writer.Settled log disk (batch.map (Editor.mk "a").address) watched.1.1 watched.1.2 watched.2.disk := by
    have whole : watched = (Session.mk disk []).watch [] ((Editor.mk "a").submit (writer.receiver log) batch) := rfl
    clear_value watched
    rw [whole]
    exact (submit_settled (Editor.mk "a") writer log disk [] batch).2.2.2.2
  exact ⟨by decide +kernel, by decide +kernel, by decide +kernel, by decide +kernel, by decide +kernel,
    by decide +kernel, settled⟩

/-- Not every batch that is accepted is recorded, and not every one that is rejected leaves the log or the sheet that
failed alone. Where the log is a folder, the batch is accepted without its record. A sheet can have the name of the log:
then the log is overwritten, also if a later change cannot be written. And a sheet whose file is full when it has been
emptied loses its text. -/
theorem submit_unrecorded :
    (let log := HistoryLog.forSheet ⟨"model.qg"⟩
      let disk : Disk := { entries := [(.ofNames ["model.qg"], .file (.text "table t\n")),
        (.ofNames ["model.qg.history.jsonl"], .folder)] }
      let batch : List Edit := [⟨"table t\n  [x] = 1\n", "Add field [x] to t", none⟩]
      let submission : SessionM (Except Rejected Unit) :=
        (Editor.mk "model").submit ((SheetWriter.beside ⟨"model.qg"⟩).receiver log) batch
      ((Session.mk disk []).run submission).1 = .ok () ∧
        ((Session.mk disk []).run submission).2.disk.readText ⟨"model.qg"⟩ = .ok "table t\n  [x] = 1\n\r\n" ∧
        ((Session.mk disk []).run submission).2.disk.readText log.path = .error .isAFolder) ∧
    (let log := HistoryLog.forSheet ⟨"m.jsonl"⟩
      let batch : List Edit := [⟨"x", "t", some "m.jsonl.history"⟩, ⟨"y", "t", some "missing/n"⟩]
      let submission : SessionM (Except Rejected Unit) :=
        (Editor.mk "m").submit ((SheetWriter.beside ⟨"m.jsonl"⟩).receiver log) batch
      ((Session.mk {} []).run submission).1 = .error ⟨["m.jsonl.history", "missing/n"]⟩ ∧
        ({} : Disk).readText log.path = .error .notFound ∧
        ((Session.mk {} []).run submission).2.disk.readText log.path = .ok "x\r\n") ∧
    (let sheet : Path := ⟨"m.qg"⟩
      let disk : Disk := { entries := [(.ofNames ["m.qg"], .file (.text "table t\n"))]
                           limits := [(.ofNames ["m.qg"], 0)] }
      let submission : SessionM (Except Rejected Unit) :=
        (Editor.mk "m").submit ((SheetWriter.beside sheet).receiver (HistoryLog.forSheet sheet)) [⟨"x", "t", none⟩]
      ((Session.mk disk []).run submission).1 = .error ⟨["m"]⟩ ∧ disk.readText sheet = .ok "table t\n" ∧
        ((Session.mk disk []).run submission).2.disk.readText sheet = .ok "") := by
  decide +kernel

end Editor
end Gridbook
