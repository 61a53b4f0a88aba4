import Gridbook.Proofs.Additions

/-!
Sheets written back. A command reads a sheet from a file, and writes it under a name that is put together again from the
stem and the extension of that file. With an extension, this is the file it was read from. A name without one gets the
extension of sheets, so that the command writes another file, and leaves alone the one that it was asked to change.
-/
namespace Gridbook

namespace Path

theorem exists_splitOn_concat {cs name : List Char} (free : '/' ∉ name) (last : '/' :: name <:+ '/' :: cs) :
    ∃ inner, cs.splitOn '/' = inner ++ [name] := by
  have single : name.splitOn '/' = [name] := List.splitOn_eq_singleton free
  obtain ⟨front, same⟩ := last
  cases front with
  | nil =>
    obtain rfl : name = cs := by simpa using same
    exact ⟨[], single⟩
  | cons c front =>
    obtain rfl : front ++ '/' :: name = cs := (List.cons.inj same).2
    exact ⟨front.splitOn '/', by rw [List.splitOn_append_cons_self, single]⟩

/-- A name joined to a folder is what the path ends in. -/
theorem exists_endsIn_join (folder : Path) {name : String} (legal : IsName name.toList) :
    ∃ start inner, EndsIn (folder.join name) start inner name.toList := by
  -- Behind one more slash at the front, the name stands behind a slash in every case.
  have last : '/' :: name.toList <:+ '/' :: (folder.join name).text.toList := by
    obtain ⟨glue, text, ⟨rfl, empty | slash⟩ | ⟨rfl, -⟩⟩ := toList_join folder legal.free
    · exact ⟨[], by simp [text, empty]⟩
    · obtain ⟨front, ended⟩ := List.getLast?_eq_some_iff.1 (of_decide_eq_true slash)
      exact ⟨'/' :: front, by simp [text, ended]⟩
    · exact ⟨'/' :: folder.text.toList, by simp [text]⟩
  have start (c : Char) (cs : List Char) (text : (folder.join name).text.toList = c :: cs) (slash : '/' ∈ c :: cs) :
      '/' :: name.toList <:+ c :: cs := by
    rw [text, List.suffix_cons_iff] at last
    refine last.resolve_left fun same => legal.free ?_
    rw [(List.cons.inj same).2]
    exact slash
  rcases (folder.join name).split_cases with ⟨cs, text, parts⟩ | ⟨text, parts⟩ | ⟨cs, text, parts⟩ | ⟨parts, -⟩
  · obtain ⟨inner, pieces⟩ := exists_splitOn_concat legal.free (start '/' cs text (by simp))
    exact ⟨_, inner, by rw [parts, pieces], legal.busy, legal.down⟩
  · obtain ⟨front, same⟩ := last
    rw [text] at same
    have alone : name.toList = ['.'] := by
      rcases front with _ | ⟨c, _ | ⟨d, front⟩⟩ <;> simp_all
    exact absurd legal.busy (by simp [isIdle, alone])
  · have below := (List.suffix_cons_iff.1 (start '.' ('/' :: cs) text (by simp))).resolve_left (by simp)
    obtain ⟨inner, pieces⟩ := exists_splitOn_concat legal.free below
    exact ⟨_, [] :: inner, by rw [parts, pieces, List.cons_append], legal.busy, legal.down⟩
  · obtain ⟨inner, pieces⟩ := exists_splitOn_concat legal.free last
    exact ⟨_, inner, by rw [parts, pieces], legal.busy, legal.down⟩

end Path

section

open Gridbook.Path

variable {file : Path} {start name : List Char} {inner : List (List Char)} (ends : EndsIn file start inner name)
include ends

theorem SheetWriter.leadsTo_pathFor :
    LeadsTo ((beside file).pathFor (cutName (String.ofList name)).1) file start inner
      (if file.extension?.isSome then name else name ++ ".qg".toList) := by
  rw [pathFor_beside ends]
  refine ends.leadsTo_rejoin ?_
  split
  · exact ends.isName
  · exact ends.isName.append (by decide) (by decide)

/-- The log beside a file is no other file of its folder. -/
theorem Disk.locate_forSheet_apart {path : Path} {other : List Char} (leads : LeadsTo path file start inner other)
    (differ : other ≠ name ++ ".history.jsonl".toList) (disk : Disk) (location : Location)
    (located : disk.locate path = .ok location) : disk.locate (HistoryLog.forSheet file).path ≠ .ok location := by
  have log := ends.leadsTo_append (by decide : '/' ∉ ".history.jsonl".toList) (by decide)
  exact fun same => differ (name_eq_of_locate leads log located same)

/-- The sheet of a file is written where the file lies, if the file has an extension. -/
theorem Disk.locate_pathFor_iff {disk : Disk} {location : Location} (located : disk.locate file = .ok location) :
    disk.locate ((SheetWriter.beside file).pathFor (cutName (String.ofList name)).1) = .ok location ↔
      file.extension?.isSome = true := by
  constructor
  · intro same
    have names := name_eq_of_locate (SheetWriter.leadsTo_pathFor ends) ends.leadsTo same located
    by_contra bare
    rw [if_neg bare] at names
    simp at names
  · intro named
    rw [SheetWriter.pathFor_beside ends, if_pos named]
    exact locate_rejoin ends located

end

/-- Records that are appended to a log leave other files alone. -/
theorem HistoryLog.readText_appendAll {log : HistoryLog} {path : Path} {text : String}
    (apart : ∀ (disk : Disk) (location : Location), disk.locate path = .ok location → disk.locate log.path ≠ .ok location)
    (entries : List HistoryRecord) (session : Session) (before : session.disk.readText path = .ok text) :
    (session.run (log.appendAll entries)).2.disk.readText path = .ok text := by
  induction entries generalizing session with
  | nil => exact before
  | cons entry entries ih =>
    rw [run_appendAll_cons, run_append]
    exact ih _ (Disk.readText_write_ne .append _ before (apart _))

namespace AdditionTurn

open Gridbook.Path

variable {file : Path} {disk : Disk} {addition : Addition} {stem : String}

/-- What a command that succeeds has done. -/
theorem exists_written (named : SheetFile.sheetName? file = some stem)
    (success : (take file disk addition).outcome.code = .success) :
    ∃ text content written lines, disk.readText file = .ok text ∧ addition.applyTo? text = some content ∧
      disk.writeText ((SheetWriter.beside file).pathFor stem) (terminate content) = (written, .ok ()) ∧
      (take file disk addition).after = ((Session.mk written lines).run
        ((HistoryLog.forSheet file).appendAll (addition.recorded stem (terminate content)))).2.disk := by
  cases found : disk.readText file with
  | error error =>
    rw [take_eq (Addition.run_unreadable found)] at success
    simp [Outcome.ofResult, CommandError.code] at success
  | ok text =>
    cases made : addition.applyTo? text with
    | none =>
      rw [take_eq (Addition.run_noTable found named made)] at success
      simp [Outcome.ofResult, CommandError.code] at success
    | some content =>
      cases done : disk.writeText ((SheetWriter.beside file).pathFor stem) (terminate content) with
      | mk written result =>
        cases result with
        | error error =>
          obtain ⟨lines, ran⟩ := Addition.run_rejected found named made done
          rw [take_eq ran] at success
          simp [Outcome.ofResult, CommandError.code] at success
        | ok =>
          obtain ⟨lines, ran⟩ := Addition.run_done found named made done
          exact ⟨text, content, written, lines, rfl, made, done, by rw [take_eq ran]⟩

/-- The sheet of a file that is named with an extension is written back to that file. Without an extension it is written
to another one: a command that succeeds leaves the file as it was. -/
theorem take_written {file folder : Path} {name : String} (joined : file = folder.join name)
    (legal : IsName name.toList) :
    ∃ stem, SheetFile.sheetName? file = some stem ∧
      let target := (SheetWriter.beside file).pathFor stem
      (∀ (disk : Disk) (location : Location), disk.locate file = .ok location →
        (disk.locate target = .ok location ↔ file.extension?.isSome = true)) ∧
      ∀ (disk : Disk) (addition : Addition),
        let turn := take file disk addition
        turn.outcome.code = .success →
          ∃ text content, disk.readText file = .ok text ∧ addition.applyTo? text = some content ∧
            turn.after.readText target = .ok (terminate content) ∧
            turn.after.readText file = .ok (if file.extension?.isSome then terminate content else text) := by
  obtain ⟨start, inner, ends⟩ := exists_endsIn_join folder legal
  rw [← joined] at ends
  refine ⟨_, SheetFile.sheetName?_eq ends, fun disk location => Disk.locate_pathFor_iff ends, ?_⟩
  intro disk addition turn success
  obtain ⟨text, content, written, lines, found, made, done, after⟩ := exists_written (SheetFile.sheetName?_eq ends) success
  have target := Disk.locate_forSheet_apart ends (SheetWriter.leadsTo_pathFor ends) (by split <;> simp)
  have sheet := Disk.locate_forSheet_apart ends ends.leadsTo (by simp)
  refine ⟨text, content, found, made, ?_, ?_⟩
  · rw [after]
    exact HistoryLog.readText_appendAll target _ _ (Disk.readText_writeText done)
  · rw [after]
    refine HistoryLog.readText_appendAll sheet _ _ ?_
    obtain ⟨noSlash, location, located, -⟩ := Disk.readText_iff.1 found
    have same := Disk.locate_pathFor_iff ends located
    split
    · next named =>
      obtain ⟨place, old, opened, -⟩ := Disk.writeText_iff.1 done
      have opens := Disk.openToWrite_congr (Disk.openToWrite_ok opened).1 noSlash ((same.2 named).trans located.symm)
      exact Disk.readText_writeText ((Disk.write_congr opens).symm.trans done)
    · next bare =>
      have kept := Disk.readText_write_ne .replace (terminate content) found fun place here there =>
        bare ((Disk.locate_pathFor_iff ends here).1 there)
      change (disk.writeText _ _).1.readText file = .ok text at kept
      rwa [done] at kept

/-- The name starts with a dot and ends with one, behind which the extension is empty. -/
theorem take_written_dotted :
    let disk : Disk := { entries := [(.ofNames ["w"], .folder),
      (.ofNames ["w", ".m.é."], .file (.text "table t\r\n\t[a] = 1 # c"))] }
    let addition : Addition := ⟨"t", "b", "2", none⟩
    let file : Path := ⟨"/w//./.m.é."⟩
    file = Path.join ⟨"/w//."⟩ ".m.é." ∧ IsName ".m.é.".toList ∧ (take file disk addition).outcome.code = .success ∧
      SheetFile.sheetName? file = some ".m.é" ∧
      disk.locate ((SheetWriter.beside file).pathFor ".m.é") = disk.locate file ∧
      (take file disk addition).after.readText file = .ok (terminate "table t\r\n\t[a] = 1 # c\r\n\t[b] = 2") := by
  intro disk addition file
  have joined : file = Path.join ⟨"/w//."⟩ ".m.é." := by decide +kernel
  have legal : IsName ".m.é.".toList := ⟨by decide +kernel, by decide +kernel, by decide +kernel⟩
  have success : (take file disk addition).outcome.code = .success := by decide +kernel
  have stem : SheetFile.sheetName? file = some ".m.é" := by decide +kernel
  have named : file.extension?.isSome = true := by decide +kernel
  have located : disk.locate file = .ok (.ofNames ["w", ".m.é."]) := by decide +kernel
  have held : disk.readText file = .ok "table t\r\n\t[a] = 1 # c" := by decide +kernel
  have makes : addition.applyTo? "table t\r\n\t[a] = 1 # c" = some "table t\r\n\t[a] = 1 # c\r\n\t[b] = 2" := by
    decide +kernel
  obtain ⟨stem', stem'', same, writes⟩ := take_written joined legal
  obtain rfl := Option.some.inj (stem.symm.trans stem'')
  obtain ⟨text, content, found, made, -, kept⟩ := writes disk addition success
  obtain rfl := Except.ok.inj (held.symm.trans found)
  obtain rfl := Option.some.inj (makes.symm.trans made)
  rw [if_pos named] at kept
  exact ⟨joined, legal, success, stem, ((same disk _ located).2 named).trans located.symm, kept⟩

/-- A file without an extension is left as it was by a command that succeeds. -/
theorem take_leaves_bare :
    let file : Path := ⟨"model"⟩
    let disk : Disk := { entries := [(.ofNames ["model"], .file (.text "table t\n"))] }
    let turn := take file disk ⟨"t", "x", "1", none⟩
    file = Path.join ⟨""⟩ "model" ∧ SheetFile.sheetName? file = some "model" ∧
      (SheetWriter.beside file).pathFor "model" = ⟨"model.qg"⟩ ∧ disk.locate ⟨"model.qg"⟩ ≠ disk.locate file ∧
      turn.outcome.code = .success ∧ turn.after.readText file = .ok "table t\n" ∧
      turn.after.readText ⟨"model.qg"⟩ = .ok "table t\n  [x] = 1\n\r\n" := by
  decide +kernel

end AdditionTurn
end Gridbook
