import Gridbook.Proofs.Outline
import Mathlib.Data.List.Basic

/-!
One table of an outline changed. Two drafts that differ in their open table take in the same tokens: whatever comes later
goes to both tables alike, and to no other in a different way. So a change of the open table is still there, and is the
only one, when the outline is finished.
-/
namespace Gridbook

theorem modify_findIdx {α : Type} {p : α → Bool} {front back : List α} {a : α} (none : ∀ b ∈ front, p b = false)
    (found : p a = true) (change : α → α) :
    (front ++ a :: back).modify ((front ++ a :: back).findIdx p) change = front ++ change a :: back := by
  induction front with
  | nil => simp [List.findIdx_cons, found]
  | cons b front ih =>
    have other : p b = false := none b (by simp)
    simp [List.findIdx_cons, other, ih fun b member => none b (by simp [member])]

theorem find?_modify_findIdx {α : Type} {p : α → Bool} {change : α → α} (keeps : ∀ a, p (change a) = p a) (as : List α) :
    (as.modify (as.findIdx p) change).find? p = (as.find? p).map change := by
  induction as with
  | nil => rfl
  | cons a as ih => cases found : p a <;> simp [List.findIdx_cons, found, keeps, ih]

theorem modify_modify_findIdx {α : Type} {p : α → Bool} {change : α → α} (keeps : ∀ a, p (change a) = p a)
    (next : α → α) (as : List α) :
    (as.modify (as.findIdx p) change).modify ((as.modify (as.findIdx p) change).findIdx p) next =
      as.modify (as.findIdx p) fun a => next (change a) := by
  induction as with
  | nil => rfl
  | cons a as ih => cases found : p a <;> simp [List.findIdx_cons, found, keeps, ih]

def SheetOutline.changeTable (name : String) (change : TableOutline → TableOutline) (sheet : SheetOutline) :
    SheetOutline :=
  { sheet with tables := sheet.tables.modify (sheet.tables.findIdx fun table => table.name = name) change }

namespace TableOutline

def changeField (name : String) (change : FieldOutline → FieldOutline) (table : TableOutline) : TableOutline :=
  { table with fields := table.fields.modify (table.fields.findIdx fun field => field.name = name) change }

def appendFields (new : List FieldOutline) (table : TableOutline) : TableOutline :=
  { table with fields := table.fields ++ new }

def eraseField (name : String) (table : TableOutline) : TableOutline :=
  { table with fields := table.fields.eraseP fun field => field.name = name }

/-- What a token can do to the open table. -/
inductive Addition : (TableOutline → TableOutline) → Prop where
  | none : Addition id
  | field (inTotals : Bool) (field : FieldOutline) : Addition fun table => table.addField inTotals field
  | block (kind : BlockKind) (block : String) : Addition fun table => table.setBlock kind block

/-- The relation goes on to hold when the same is added to both tables. -/
def Lasting (related : TableOutline → TableOutline → Prop) : Prop :=
  ∀ old new add, Addition add → related old new → related (add old) (add new)

/-- The tables have the same header and differ in one place among their fields. -/
def Exchanged (name : String) (front gone come : List FieldOutline) (old new : TableOutline) : Prop :=
  old.name = name ∧
    ∃ back, old.fields = front ++ (gone ++ back) ∧ new = { old with fields := front ++ (come ++ back) }

theorem lasting_exchanged (name : String) (front gone come : List FieldOutline) :
    Lasting (Exchanged name front gone come) := by
  rintro old new add addition ⟨named, back, fields, rfl⟩
  cases addition with
  | none => exact ⟨named, back, fields, rfl⟩
  | field inTotals field =>
    cases inTotals with
    | true => exact ⟨named, back, fields, rfl⟩
    | false => exact ⟨named, back ++ [field], by simp [addField, fields], by simp [addField]⟩
  | block kind block => cases kind <;> exact ⟨named, back, fields, rfl⟩

theorem Exchanged.changeField {name field : String} {front : List FieldOutline} {gone : FieldOutline}
    {change : FieldOutline → FieldOutline} {old new : TableOutline} (first : ∀ other ∈ front, other.name ≠ field)
    (named : gone.name = field) (differ : Exchanged name front [gone] [change gone] old new) :
    new = old.changeField field change := by
  obtain ⟨-, back, fields, rfl⟩ := differ
  simp only [TableOutline.changeField, fields, List.singleton_append]
  rw [modify_findIdx (by simpa using first) (by simpa using named)]

theorem Exchanged.eraseField {name field : String} {front : List FieldOutline} {gone : FieldOutline}
    {old new : TableOutline} (first : ∀ other ∈ front, other.name ≠ field) (named : gone.name = field)
    (differ : Exchanged name front [gone] [] old new) : new = old.eraseField field := by
  obtain ⟨-, back, fields, rfl⟩ := differ
  simp only [TableOutline.eraseField, fields, List.singleton_append, List.nil_append]
  rw [List.eraseP_append_right _ (by simpa using first), List.eraseP_cons_of_pos (by simpa using named)]

def Renamed (name newName : String) (old new : TableOutline) : Prop :=
  old.name = name ∧ new = { old with name := newName }

theorem lasting_renamed (name newName : String) : Lasting (Renamed name newName) := by
  rintro old new add addition ⟨named, rfl⟩
  cases addition with
  | none => exact ⟨named, rfl⟩
  | field inTotals field => cases inTotals <;> exact ⟨named, rfl⟩
  | block kind block => cases kind <;> exact ⟨named, rfl⟩

end TableOutline

theorem SheetOutline.changeTable_eq {name : String} {closed more : List TableOutline} {old : TableOutline}
    {problems : List Problem} (earlier : ∀ table ∈ closed, table.name ≠ name) (named : old.name = name)
    (change : TableOutline → TableOutline) :
    changeTable name change ⟨closed ++ old :: more, problems⟩ = ⟨closed ++ change old :: more, problems⟩ := by
  simp only [changeTable]
  rw [modify_findIdx (by simpa using earlier) (by simpa using named)]

namespace SheetOutline

variable {name : String} {change : TableOutline → TableOutline}

theorem find?_changeTable (keeps : ∀ table, (change table).name = table.name) (sheet : SheetOutline) :
    (changeTable name change sheet).tables.find? (·.name = name) =
      (sheet.tables.find? (·.name = name)).map change :=
  find?_modify_findIdx (by simp [keeps]) sheet.tables

theorem changeTable_changeTable (keeps : ∀ table, (change table).name = table.name) (next : TableOutline → TableOutline)
    (sheet : SheetOutline) :
    changeTable name next (changeTable name change sheet) = changeTable name (fun table => next (change table)) sheet := by
  simp only [changeTable]
  rw [modify_modify_findIdx (by simp [keeps])]

theorem changeTable_appendFields (name : String) (first second : List FieldOutline) (sheet : SheetOutline) :
    changeTable name (·.appendFields second) (changeTable name (·.appendFields first) sheet) =
      changeTable name (·.appendFields (first ++ second)) sheet := by
  have keeps : ∀ table : TableOutline, (table.appendFields first).name = table.name := fun _ => rfl
  rw [changeTable_changeTable keeps]
  simp [TableOutline.appendFields]

theorem changeTable_same (same : ∀ table, change table = table) (sheet : SheetOutline) :
    changeTable name change sheet = sheet := by
  obtain rfl : change = id := funext same
  simp [changeTable]

end SheetOutline

namespace DraftOutline

open TableOutline

/-- The tables that are closed and the problems met are only added to. -/
theorem step_frame (draft : DraftOutline) (token : Token) :
    ∃ (next : DraftOutline) (closed : List TableOutline) (problems : List Problem), ∀ tables met,
      step { draft with closed := tables, problems := met } token =
        { next with closed := tables ++ closed, problems := met ++ problems } := by
  cases token with
  | comment body => exact ⟨draft, [], [], by simp [step]⟩
  | word text => exact ⟨draft, [], [], by simp [step]⟩
  | decorator name args =>
    exact ⟨draft.addDecorator ⟨String.ofList name, args.map String.ofList⟩, [], [], by simp [step, addDecorator]⟩
  | bang => exact ⟨draft, [], [.emptyDecoratorName], by simp [step, report]⟩
  | field name definition =>
    cases current : draft.current with
    | none =>
      exact ⟨{ draft with pending := {} }, [], [.strayField (String.ofList name)],
        by simp [step, addField, current, report]⟩
    | some table =>
      exact ⟨draft.addField name (definition.map (·.body)), [], [], by simp [step, addField, current]⟩
  | table gap name =>
    by_cases empty : name.isEmpty = true
    · exact ⟨{ draft with current := none, inTotals := false, pending := {} }, draft.current.toList,
        [.missingTableName], by simp [step, openTable, empty, report, tables]⟩
    · exact ⟨draft.openTable name, draft.current.toList, [], by simp [step, openTable, empty, tables]⟩
  | key => exact ⟨{ draft with pending := { draft.pending with isKey := true } }, [], [], by simp [step]⟩
  | dim => exact ⟨{ draft with pending := { draft.pending with isDim := true } }, [], [], by simp [step]⟩
  | block kind body =>
    cases current : draft.current with
    | none => exact ⟨draft, [], [.strayBlock kind], by simp [step, addBlock, current, report]⟩
    | some table => exact ⟨draft.addBlock kind body, [], [], by simp [step, addBlock, current]⟩
  | total => exact ⟨{ draft with inTotals := true }, [], [], by simp [step]⟩
  | unclosed problem text => exact ⟨draft, [], [problem], by simp [step, report]⟩

theorem foldl_frame (draft : DraftOutline) (tokens : List Token) :
    ∃ more new, ∀ tables met,
      (tokens.foldl step { draft with closed := tables, problems := met }).finish = ⟨tables ++ more, met ++ new⟩ := by
  induction tokens generalizing draft with
  | nil => exact ⟨draft.current.toList, [], by simp [finish, DraftOutline.tables]⟩
  | cons token tokens ih =>
    obtain ⟨next, closed, problems, taken⟩ := step_frame draft token
    obtain ⟨more, new, same⟩ := ih next
    refine ⟨closed ++ more, problems ++ new, fun tables met => ?_⟩
    rw [List.foldl_cons, taken, same, List.append_assoc, List.append_assoc]

/-- Other tokens than headers add to the open table, and the same whatever it is. -/
theorem step_open (draft : DraftOutline) {token : Token} (other : ∀ gap name, token ≠ .table gap name) :
    ∃ (next : DraftOutline) (add : TableOutline → TableOutline) (problems : List Problem), Addition add ∧
      next.closed = draft.closed ∧ ∀ table met,
        step { draft with current := some table, problems := met } token =
          { next with current := some (add table), problems := met ++ problems } := by
  cases token with
  | table gap name => exact absurd rfl (other gap name)
  | comment body => exact ⟨draft, id, [], .none, rfl, by simp [step]⟩
  | word text => exact ⟨draft, id, [], .none, rfl, by simp [step]⟩
  | decorator name args =>
    exact ⟨draft.addDecorator ⟨String.ofList name, args.map String.ofList⟩, id, [], .none, rfl,
      by simp [step, addDecorator]⟩
  | bang => exact ⟨draft, id, [.emptyDecoratorName], .none, rfl, by simp [step, report]⟩
  | field name definition =>
    let field : FieldOutline := ⟨String.ofList name, draft.pending.isKey, draft.pending.isDim,
      draft.pending.decorators, (definition.map (·.body)).map String.ofList⟩
    exact ⟨{ draft with pending := {} }, (·.addField draft.inTotals field), [], .field draft.inTotals field, rfl,
      by simp [step, addField, field]⟩
  | key => exact ⟨{ draft with pending := { draft.pending with isKey := true } }, id, [], .none, rfl, by simp [step]⟩
  | dim => exact ⟨{ draft with pending := { draft.pending with isDim := true } }, id, [], .none, rfl, by simp [step]⟩
  | block kind body =>
    let block : String := String.ofList (Token.block kind body).text
    exact ⟨draft, (·.setBlock kind block), [], .block kind block, rfl, by simp [step, addBlock, block]⟩
  | total => exact ⟨{ draft with inTotals := true }, id, [], .none, rfl, by simp [step]⟩
  | unclosed problem text => exact ⟨draft, id, [problem], .none, rfl, by simp [step, report]⟩

/-- A header closes the open table and leaves nothing else of it. -/
theorem step_header (draft : DraftOutline) (gap name : List Char) :
    ∃ (next : DraftOutline) (problems : List Problem), ∀ table met,
      step { draft with current := some table, problems := met } (.table gap name) =
        { next with closed := draft.closed ++ [table], problems := met ++ problems } := by
  by_cases empty : name.isEmpty = true
  · exact ⟨{ draft with current := none, inTotals := false, pending := {} }, [.missingTableName],
      by simp [step, openTable, empty, report, tables]⟩
  · exact ⟨draft.openTable name, [], by simp [step, openTable, empty, tables]⟩

/-- Tokens that are taken in behind a change of the open table. -/
theorem foldl_related {related : TableOutline → TableOutline → Prop} (lasting : Lasting related)
    (draft : DraftOutline) (tokens : List Token) {old new : TableOutline} (differ : related old new)
    (met met' : List Problem) :
    ∃ old' new' more problems, related old' new' ∧
      (tokens.foldl step { draft with current := some old, problems := met }).finish =
        ⟨draft.closed ++ old' :: more, met ++ problems⟩ ∧
      (tokens.foldl step { draft with current := some new, problems := met' }).finish =
        ⟨draft.closed ++ new' :: more, met' ++ problems⟩ := by
  induction tokens generalizing draft old new met met' with
  | nil => exact ⟨old, new, [], [], differ, by simp [finish, tables], by simp [finish, tables]⟩
  | cons token tokens ih =>
    by_cases header : ∃ gap name, token = .table gap name
    · obtain ⟨gap, name, rfl⟩ := header
      obtain ⟨next, problems, taken⟩ := step_header draft gap name
      obtain ⟨more, later, same⟩ := foldl_frame next tokens
      refine ⟨old, new, more, problems ++ later, differ, ?_, ?_⟩ <;>
        rw [List.foldl_cons, taken, same] <;> simp
    · obtain ⟨next, add, problems, addition, closed, taken⟩ :=
        step_open draft fun gap name same => header ⟨gap, name, same⟩
      obtain ⟨old', new', more, later, differ', first, second⟩ :=
        ih next (lasting old new add addition differ) (met ++ problems) (met' ++ problems)
      refine ⟨old', new', more, problems ++ later, differ', ?_, ?_⟩
      · rw [List.foldl_cons, taken, first, closed, List.append_assoc]
      · rw [List.foldl_cons, taken, second, closed, List.append_assoc]

variable {related : TableOutline → TableOutline → Prop} {name : String} {change : TableOutline → TableOutline}
  {old new : TableOutline}

/-- A change of the open table, and of what was met so far, when the outline is finished. -/
theorem finish_related (lasting : Lasting related) (acts : ∀ old new, related old new → old.name = name ∧ new = change old)
    (draft : DraftOutline) (first : ∀ table ∈ draft.closed, table.name ≠ name) (tokens : List Token)
    (differ : related old new) (met met' : List Problem) :
    ∃ problems,
      (tokens.foldl step { draft with current := some old, problems := met }).finish.problems = met ++ problems ∧
      (tokens.foldl step { draft with current := some new, problems := met' }).finish =
        { (tokens.foldl step { draft with current := some old, problems := met }).finish.changeTable name change with
          problems := met' ++ problems } := by
  obtain ⟨old', new', more, problems, differ', before, after⟩ := foldl_related lasting draft tokens differ met met'
  obtain ⟨named, rfl⟩ := acts old' new' differ'
  refine ⟨problems, by rw [before], ?_⟩
  rw [before, after, SheetOutline.changeTable_eq first named]

theorem finish_changed (lasting : Lasting related) (acts : ∀ old new, related old new → old.name = name ∧ new = change old)
    (draft : DraftOutline) (first : ∀ table ∈ draft.closed, table.name ≠ name) (tokens : List Token)
    (differ : related old new) :
    (tokens.foldl step { draft with current := some new }).finish =
      (tokens.foldl step { draft with current := some old }).finish.changeTable name change := by
  obtain ⟨problems, met, same⟩ := finish_related lasting acts draft first tokens differ draft.problems draft.problems
  rw [same, ← met]
  rfl

/-- A header with a name makes a table of that name of what waits. -/
theorem step_table {draft : DraftOutline} {blanks word : List Char} (nonempty : word ≠ []) :
    draft.step (.table blanks word) =
      { draft with
        closed := draft.tables
        inTotals := false
        pending := {}
        current := some ⟨String.ofList word, draft.pending.decorators, [], [], none, none⟩ } := by
  simp [step, openTable, nonempty]

/-- A field that is declared while a table is open and its totals are not. -/
theorem step_field {draft : DraftOutline} {table : TableOutline} (current : draft.current = some table)
    (plain : draft.inTotals = false) (name : List Char) (definition : Option Definition) :
    draft.step (.field name definition) =
      { draft with
        pending := {}
        current := some { table with fields := table.fields ++ [⟨String.ofList name, draft.pending.isKey,
          draft.pending.isDim, draft.pending.decorators, (definition.map (·.body)).map String.ofList⟩] } } := by
  simp [step, addField, current, plain, TableOutline.addField]

end DraftOutline
end Gridbook
