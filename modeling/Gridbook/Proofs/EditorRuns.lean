import Gridbook.Batch.Journal
import Mathlib.Data.List.Basic

/-!
Runs of an editor. Whatever the receiver answers, each call sends what it was given, addressed by the sheet that was
set last, and records history only for what was accepted.
-/
namespace Gridbook

/-- A call of a run, its answer, and what reached the receiver in it. -/
structure EditorTurn where
  call : EditorCall
  answer : Except Rejected Unit
  journal : Journal

def Editor.run (editor : Editor) : List EditorCall → List EditorTurn
  | [] => []
  | call :: calls =>
    let (next, answer, journal) := editor.call call
    ⟨call, answer, journal⟩ :: next.run calls

def EditorCall.sheetAfter (sheet : String) : List EditorCall → String
  | [] => sheet
  | .setSheet name :: calls => sheetAfter name calls
  | .submit _ _ :: calls => sheetAfter sheet calls

/-- What is to be sent for an edit while the editor's own sheet is `sheet`. -/
def Edit.change (sheet : String) (edit : Edit) : SheetChange :=
  ⟨edit.sheet.getD sheet, terminate edit.content⟩

/-- The calls to the receiver and the answer that belong to a call made while the editor's own sheet is `sheet`. -/
inductive EditorTurn.InStep (sheet : String) : EditorTurn → Prop where
  | setSheet {name : String} {journal : Journal} (unsent : journal.sent = []) (unrecorded : journal.recorded = []) :
      InStep sheet ⟨.setSheet name, .ok (), journal⟩
  | empty {accept : Bool} {journal : Journal} (unsent : journal.sent = []) (unrecorded : journal.recorded = []) :
      InStep sheet ⟨.submit [] accept, .ok (), journal⟩
  | accepted {batch : List Edit} {journal : Journal} (nonempty : batch ≠ [])
      (sent : journal.sent = [batch.map (Edit.change sheet)])
      (recorded : journal.recorded = HistoryRecord.group (batch.map fun edit => ⟨edit.title, edit.change sheet⟩)) :
      InStep sheet ⟨.submit batch true, .ok (), journal⟩
  | rejected {batch : List Edit} {journal : Journal} (nonempty : batch ≠ [])
      (sent : journal.sent = [batch.map (Edit.change sheet)]) (unrecorded : journal.recorded = []) :
      InStep sheet ⟨.submit batch false, .error ⟨batch.map fun edit => edit.sheet.getD sheet⟩, journal⟩

namespace HistoryRecord

variable {changes : List TitledChange} {records : List HistoryRecord} {record : HistoryRecord} {change : SheetChange}

theorem mem_file {titled : TitledChange} (member : record ∈ file titled records) (inside : change ∈ record.changes) :
    titled.change = change ∨ ∃ old ∈ records, change ∈ old.changes := by
  induction records with
  | nil =>
    obtain rfl := List.mem_singleton.1 member
    exact .inl (List.mem_singleton.1 inside).symm
  | cons first records ih =>
    unfold file at member
    split at member
    · rcases List.mem_cons.1 member with rfl | old
      · rcases List.mem_append.1 inside with old | new
        · exact .inr ⟨first, by simp, old⟩
        · exact .inl (List.mem_singleton.1 new).symm
      · exact .inr ⟨record, by simp [old], inside⟩
    · rcases List.mem_cons.1 member with rfl | later
      · exact .inr ⟨record, by simp, inside⟩
      · rcases ih later with new | ⟨old, found, within⟩
        · exact .inl new
        · exact .inr ⟨old, by simp [found], within⟩

/-- Grouping makes nothing up: what a record holds is among the changes that were grouped. -/
theorem mem_group (member : record ∈ group changes) (inside : change ∈ record.changes) :
    ∃ titled ∈ changes, titled.change = change := by
  have grouped : ∀ (changes : List TitledChange) (records : List HistoryRecord),
      record ∈ changes.foldl (fun records titled => if titled.title.isEmpty then records else file titled records)
        records → (∃ titled ∈ changes, titled.change = change) ∨ ∃ old ∈ records, change ∈ old.changes := by
    intro changes
    induction changes with
    | nil => exact fun records member => .inr ⟨record, member, inside⟩
    | cons titled changes ih =>
      intro records member
      rcases ih _ member with ⟨later, found, same⟩ | ⟨old, found, within⟩
      · exact .inl ⟨later, by simp [found], same⟩
      · dsimp only at found
        split at found
        · exact .inr ⟨old, found, within⟩
        · rcases mem_file found within with new | before
          · exact .inl ⟨titled, by simp, new⟩
          · exact .inr before
  simpa using grouped changes [] member

end HistoryRecord

namespace Editor

variable (editor : Editor) {batch : List Edit}

theorem map_address (batch : List Edit) :
    batch.map editor.address = batch.map fun edit => ⟨edit.title, edit.change editor.sheet⟩ := rfl

theorem change_address (batch : List Edit) :
    (batch.map editor.address).map (·.change) = batch.map (Edit.change editor.sheet) := by
  rw [List.map_map]
  rfl

theorem record_all (accept : Bool) (records : List HistoryRecord) (journal : Journal) :
    (records.forM (Receiver.answering accept).record).run journal =
      ((), { journal with recorded := journal.recorded ++ records }) := by
  induction records generalizing journal with
  | nil =>
    rw [List.append_nil]
    rfl
  | cons record records ih =>
    have first : ((record :: records).forM (Receiver.answering accept).record).run journal =
        (records.forM (Receiver.answering accept).record).run
          { journal with recorded := journal.recorded ++ [record] } := rfl
    rw [first, ih, List.append_assoc, List.singleton_append]

theorem submit_answer (nonempty : batch ≠ []) (accept : Bool) :
    ((editor.submit (Receiver.answering accept) batch).run {}).1 =
      if accept then .ok () else .error ⟨batch.map fun edit => edit.sheet.getD editor.sheet⟩ := by
  obtain ⟨edit, more, rfl⟩ := List.exists_cons_of_ne_nil nonempty
  have sheets : ((edit :: more).map editor.address).map (·.change.sheet) =
      (edit :: more).map fun edit => edit.sheet.getD editor.sheet := by
    rw [List.map_map]
    rfl
  rw [← sheets]
  cases accept <;> rfl

theorem submit_sent (nonempty : batch ≠ []) (accept : Bool) :
    ((editor.submit (Receiver.answering accept) batch).run {}).2.sent = [batch.map (Edit.change editor.sheet)] := by
  obtain ⟨edit, more, rfl⟩ := List.exists_cons_of_ne_nil nonempty
  rw [← change_address]
  cases accept with
  | false => rfl
  | true => exact congrArg (·.2.sent) (record_all true _ _)

theorem submit_recorded (nonempty : batch ≠ []) (accept : Bool) :
    ((editor.submit (Receiver.answering accept) batch).run {}).2.recorded =
      if accept then HistoryRecord.group (batch.map fun edit => ⟨edit.title, edit.change editor.sheet⟩) else [] := by
  obtain ⟨edit, more, rfl⟩ := List.exists_cons_of_ne_nil nonempty
  rw [← map_address]
  cases accept with
  | false => rfl
  | true => exact congrArg (·.2.recorded) (record_all true _ _)

/-- One call does to the receiver what belongs to it. -/
theorem call_inStep (call : EditorCall) :
    EditorTurn.InStep editor.sheet ⟨call, (editor.call call).2.1, (editor.call call).2.2⟩ := by
  cases call with
  | setSheet name => exact .setSheet rfl rfl
  | submit batch accept =>
    by_cases empty : batch = []
    · subst empty
      exact .empty rfl rfl
    · have answer := submit_answer editor empty accept
      have sent := submit_sent editor empty accept
      have recorded := submit_recorded editor empty accept
      simp only [Editor.call]
      rw [answer]
      cases accept with
      | true => exact .accepted empty sent recorded
      | false => exact .rejected empty sent recorded

theorem sheet_call (call : EditorCall) (calls : List EditorCall) :
    EditorCall.sheetAfter (editor.call call).1.sheet calls = EditorCall.sheetAfter editor.sheet (call :: calls) := by
  cases call <;> rfl

theorem run_calls (calls : List EditorCall) : (editor.run calls).map (·.call) = calls := by
  induction calls generalizing editor with
  | nil => rfl
  | cons call calls ih => rw [run, List.map_cons, ih]

theorem run_inStep {calls : List EditorCall} {before after : List EditorTurn} {turn : EditorTurn}
    (parts : editor.run calls = before ++ turn :: after) :
    turn.InStep (EditorCall.sheetAfter editor.sheet (before.map (·.call))) := by
  induction calls generalizing editor before with
  | nil => simp [run] at parts
  | cons call calls ih =>
    rw [run] at parts
    cases before with
    | nil =>
      rw [← (List.cons.inj parts).1]
      exact call_inStep editor call
    | cons first before =>
      obtain ⟨rfl, later⟩ := List.cons.inj parts
      rw [List.map_cons, ← sheet_call]
      exact ih _ later

end Editor

/-- What is recorded in a turn was sent in it, and accepted. -/
theorem EditorTurn.InStep.recorded_sent {sheet : String} {turn : EditorTurn} (inStep : turn.InStep sheet)
    {record : HistoryRecord} (member : record ∈ turn.journal.recorded) {change : SheetChange}
    (inside : change ∈ record.changes) :
    ∃ batch, turn.call = .submit batch true ∧ ∃ sent ∈ turn.journal.sent, change ∈ sent := by
  cases inStep with
  | setSheet _ unrecorded => simp [unrecorded] at member
  | empty _ unrecorded => simp [unrecorded] at member
  | rejected _ _ unrecorded => simp [unrecorded] at member
  | @accepted batch journal nonempty sent recorded =>
    simp only [recorded] at member
    obtain ⟨titled, found, same⟩ := HistoryRecord.mem_group member inside
    obtain ⟨edit, given, rfl⟩ := List.mem_map.1 found
    refine ⟨batch, rfl, batch.map (Edit.change sheet), by simp [sent], ?_⟩
    rw [← same]
    exact List.mem_map_of_mem given

/-- Receiver and history stay in step through every run: each call does what belongs to it under the sheet set last
before it, and history holds nothing that was not sent and accepted. -/
theorem Editor.run_keeps_step (sheet : String) (calls : List EditorCall) :
    ((Editor.mk sheet).run calls).map (·.call) = calls ∧
      (∀ before turn after, (Editor.mk sheet).run calls = before ++ turn :: after →
        turn.InStep (EditorCall.sheetAfter sheet (before.map (·.call)))) ∧
      ∀ turn ∈ (Editor.mk sheet).run calls, ∀ record ∈ turn.journal.recorded, ∀ change ∈ record.changes,
        ∃ batch, turn.call = .submit batch true ∧ ∃ sent ∈ turn.journal.sent, change ∈ sent := by
  have each {before after : List EditorTurn} {turn : EditorTurn}
      (parts : (Editor.mk sheet).run calls = before ++ turn :: after) :
      turn.InStep (EditorCall.sheetAfter sheet (before.map (·.call))) := run_inStep ⟨sheet⟩ parts
  refine ⟨run_calls _ calls, fun before turn after parts => each parts, ?_⟩
  intro turn member record recorded change inside
  obtain ⟨before, after, parts⟩ := List.append_of_mem member
  exact (each parts).recorded_sent recorded inside

/-- Calls in which the sheet changes, a batch is empty, one has several sheets and titles, and one is rejected. -/
def EditorCall.mixed : List EditorCall :=
  [.submit [] false, .setSheet "b", .submit [⟨"x", "t", none⟩, ⟨"y\r\n", "", some "c"⟩, ⟨"z\n", "t", some "c"⟩] true,
    .submit [⟨"w", "u", none⟩] false]

theorem Editor.run_keeps_step_mixed :
    ∃ before turn after, (Editor.mk "a").run EditorCall.mixed = before ++ turn :: after ∧
      EditorCall.sheetAfter "a" (before.map (·.call)) = "b" ∧ turn.InStep "b" ∧
      ⟨"t", [⟨"b", "x\r\n"⟩, ⟨"c", "z\n\r\n"⟩]⟩ ∈ turn.journal.recorded ∧
      ∃ sent ∈ turn.journal.sent, ⟨"c", "z\n\r\n"⟩ ∈ sent := by
  obtain ⟨-, inStep, sent⟩ := Editor.run_keeps_step "a" EditorCall.mixed
  obtain ⟨before, turn, after, parts, calls, recorded⟩ : ∃ before turn after,
      (Editor.mk "a").run EditorCall.mixed = before ++ turn :: after ∧
        before.map (·.call) = EditorCall.mixed.take 2 ∧
        turn.journal.recorded = [⟨"t", [⟨"b", "x\r\n"⟩, ⟨"c", "z\n\r\n"⟩]⟩] :=
    ⟨[_, _], _, [_], rfl, rfl, by decide +kernel⟩
  have own : EditorCall.sheetAfter "a" (before.map (·.call)) = "b" := by rw [calls]; rfl
  have found : ⟨"t", [⟨"b", "x\r\n"⟩, ⟨"c", "z\n\r\n"⟩]⟩ ∈ turn.journal.recorded := by simp [recorded]
  obtain ⟨-, -, accepted⟩ := sent turn (by simp [parts]) _ found ⟨"c", "z\n\r\n"⟩ (by simp)
  exact ⟨before, turn, after, parts, own, own ▸ inStep before turn after parts, found, accepted⟩

end Gridbook
