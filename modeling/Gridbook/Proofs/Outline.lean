import Gridbook.Proofs.Placement

/-!
What a sheet says, without the places where it says it. An outline is assembled from the tokens alone: reading a
sheet and leaving out its ranges gives what the tokens of its text give (`Sheet.outline_ofChars`). Statements about
two texts whose parts stand at different places are statements about their tokens.
-/
namespace Gridbook

open Text

structure DecoratorOutline where
  name : String
  args : Option String
  deriving DecidableEq

structure FieldOutline where
  name : String
  isKey : Bool
  isDim : Bool
  decorators : List DecoratorOutline
  expression : Option String
  deriving DecidableEq

/-- Blocks are given by their text, from the keyword on. -/
structure TableOutline where
  name : String
  decorators : List DecoratorOutline
  fields : List FieldOutline
  totals : List FieldOutline
  override : Option String
  apply : Option String
  deriving DecidableEq

structure SheetOutline where
  tables : List TableOutline
  problems : List Problem
  deriving DecidableEq

def Decorator.outline (decorator : Decorator) : DecoratorOutline :=
  ⟨decorator.name, decorator.args⟩

def Field.outline (field : Field) : FieldOutline :=
  ⟨field.key.field, field.isKey, field.isDim, field.decorators.map Decorator.outline,
    field.expression.map (·.text)⟩

def Table.outline (text : List Char) (table : Table) : TableOutline where
  name := table.name
  decorators := table.decorators.map Decorator.outline
  fields := table.fields.map Field.outline
  totals := table.totals.map Field.outline
  override := table.overrideSpan.map fun span => String.ofList (span.slice text)
  apply := table.applySpan.map fun span => String.ofList (span.slice text)

def Sheet.outline (text : List Char) (sheet : Sheet) : SheetOutline :=
  ⟨sheet.tables.map (Table.outline text), sheet.diagnostics.map (·.problem)⟩

structure PendingOutline where
  decorators : List DecoratorOutline := []
  isKey : Bool := false
  isDim : Bool := false
  deriving DecidableEq

structure DraftOutline where
  closed : List TableOutline := []
  current : Option TableOutline := none
  inTotals : Bool := false
  pending : PendingOutline := {}
  problems : List Problem := []
  deriving DecidableEq

def Pending.outline (pending : Pending) : PendingOutline :=
  ⟨pending.decorators.map Decorator.outline, pending.isKey, pending.isDim⟩

def Draft.outline (text : List Char) (draft : Draft) : DraftOutline :=
  ⟨draft.closed.map (Table.outline text), draft.current.map (Table.outline text), draft.inTotals,
    draft.pending.outline, draft.diagnostics.map (·.problem)⟩

namespace TableOutline

def addField (table : TableOutline) (inTotals : Bool) (field : FieldOutline) : TableOutline :=
  if inTotals then { table with totals := table.totals ++ [field] }
  else { table with fields := table.fields ++ [field] }

def setBlock (table : TableOutline) (kind : BlockKind) (block : String) : TableOutline :=
  match kind with
  | .override => { table with override := some block }
  | .apply => { table with apply := some block }

end TableOutline

namespace DraftOutline

def tables (draft : DraftOutline) : List TableOutline :=
  draft.closed ++ draft.current.toList

def report (draft : DraftOutline) (problem : Problem) : DraftOutline :=
  { draft with problems := draft.problems ++ [problem] }

def addDecorator (draft : DraftOutline) (decorator : DecoratorOutline) : DraftOutline :=
  { draft with pending := { draft.pending with decorators := draft.pending.decorators ++ [decorator] } }

def openTable (draft : DraftOutline) (name : List Char) : DraftOutline :=
  let closed := { draft with closed := draft.tables, current := none, inTotals := false, pending := {} }
  if name.isEmpty then closed.report .missingTableName
  else { closed with current := some ⟨String.ofList name, draft.pending.decorators, [], [], none, none⟩ }

def addField (draft : DraftOutline) (name : List Char) (expression : Option (List Char)) : DraftOutline :=
  match draft.current with
  | none => { draft with pending := {} }.report (.strayField (String.ofList name))
  | some table =>
    { draft with
      pending := {}
      current := some (table.addField draft.inTotals
        ⟨String.ofList name, draft.pending.isKey, draft.pending.isDim, draft.pending.decorators,
          expression.map String.ofList⟩) }

def addBlock (draft : DraftOutline) (kind : BlockKind) (body : List Char) : DraftOutline :=
  match draft.current with
  | none => draft.report (.strayBlock kind)
  | some table =>
    { draft with current := some (table.setBlock kind (String.ofList (Token.block kind body).text)) }

def step (draft : DraftOutline) : Token → DraftOutline
  | .comment _ | .word _ => draft
  | .decorator name args => draft.addDecorator ⟨String.ofList name, args.map String.ofList⟩
  | .bang => draft.report .emptyDecoratorName
  | .field name definition => draft.addField name (definition.map (·.body))
  | .table _ name => draft.openTable name
  | .key => { draft with pending := { draft.pending with isKey := true } }
  | .dim => { draft with pending := { draft.pending with isDim := true } }
  | .block kind body => draft.addBlock kind body
  | .total => { draft with inTotals := true }
  | .unclosed problem _ => draft.report problem

def finish (draft : DraftOutline) : SheetOutline :=
  ⟨draft.tables, draft.problems⟩

end DraftOutline

def Token.ofChars (text : List Char) : List Token := (Item.read text).map (·.token)

namespace Token

theorem ofChars_run_append {blanks : List Char} (blank : ∀ c ∈ blanks, isAsciiBlank c = true) (rest : List Char) :
    ofChars (blanks ++ rest) = ofChars rest := by
  rw [ofChars, Item.read_run_append blank]
  cases read : Item.read rest <;> simp [ofChars, read]

theorem ofChars_token {token : Token} {rest : List Char} (wellFormed : token.WellFormed)
    (ends : token.EndsBefore rest) : ofChars (token.text ++ rest) = token :: ofChars rest := by
  have read := Item.read_token (by simp : ∀ c ∈ [], isAsciiBlank c = true) wellFormed ends
  rw [List.nil_append] at read
  simp [ofChars, read]

/-- A token with a line to itself. A block must be followed by a line that ends it. -/
theorem ofChars_line {token : Token} {rest : List Char} (wellFormed : token.WellFormed)
    (next : token.isBlock = true → StartsSection rest) :
    ofChars (token.text ++ '\n' :: rest) = token :: ofChars rest := by
  have ends : token.EndsBefore ('\n' :: rest) := (endsBefore_nil wellFormed).append_newline wellFormed next
  have skipped := ofChars_run_append (by simp [isAsciiBlank_newline] : ∀ c ∈ ['\n'], isAsciiBlank c = true) rest
  rw [ofChars_token wellFormed ends, ← skipped, List.singleton_append]

end Token

namespace Draft

variable {text : List Char} {draft : Draft}

theorem outline_tables : (draft.outline text).tables = draft.tables.map (Table.outline text) := by
  cases current : draft.current <;> simp [outline, DraftOutline.tables, tables, current]

theorem outline_declare (pending : Pending) (table : String) (start : Nat) (name : List Char)
    (definition : Option Definition) :
    (declare pending table start name definition).outline =
      ⟨String.ofList name, pending.isKey, pending.isDim, pending.decorators.map Decorator.outline,
        (definition.map (·.body)).map String.ofList⟩ := by
  cases definition <;> rfl

theorem outline_openTable (start : Nat) (gap name : List Char) :
    (draft.openTable start gap name).outline text = (draft.outline text).openTable name := by
  unfold openTable DraftOutline.openTable
  rw [outline_tables]
  split <;> simp [outline, report, DraftOutline.report, Table.outline, Pending.outline]

theorem outline_addField (start : Nat) (name : List Char) (definition : Option Definition) :
    (draft.addField start name definition).outline text =
      (draft.outline text).addField name (definition.map (·.body)) := by
  unfold addField DraftOutline.addField
  cases current : draft.current with
  | none => simp [outline, current, report, DraftOutline.report, Pending.outline]
  | some table =>
    have declared := outline_declare draft.pending table.name start name definition
    by_cases totals : draft.inTotals = true <;>
      simp [outline, current, totals, Table.outline, TableOutline.addField, Pending.outline, declared]

theorem outline_addBlock {start : Nat} {kind : BlockKind} {body : List Char}
    (stands : At text start (Token.block kind body).text) :
    (draft.addBlock start kind body).outline text = (draft.outline text).addBlock kind body := by
  have slice := stands.slice
  unfold addBlock DraftOutline.addBlock
  cases current : draft.current with
  | none => simp [outline, current, report, DraftOutline.report]
  | some table => cases kind <;> simp [outline, current, Table.outline, TableOutline.setBlock, slice]

theorem outline_openTotals (start : Nat) :
    (draft.openTotals start).outline text = { draft.outline text with inTotals := true } := by
  cases current : draft.current <;> simp [openTotals, outline, current, Table.outline]

/-- A token that stands in the text does to the outline what it does to the draft. -/
theorem outline_step {placed : Placed} (stands : At text placed.start placed.token.text) :
    (draft.step placed).outline text = (draft.outline text).step placed.token := by
  obtain ⟨start, token⟩ := placed
  cases token with
  | comment body => rfl
  | decorator name args => simp [step, DraftOutline.step, addDecorator, DraftOutline.addDecorator, outline,
      Pending.outline, Pending.mark, Decorator.outline]
  | bang => simp [step, DraftOutline.step, report, DraftOutline.report, outline]
  | field name definition => exact outline_addField start name definition
  | table gap name => exact outline_openTable start gap name
  | key => rfl
  | dim => rfl
  | block kind body => exact outline_addBlock stands
  | total => exact outline_openTotals start
  | word text => rfl
  | unclosed problem text => simp [step, DraftOutline.step, report, DraftOutline.report, outline]

theorem outline_finish : draft.finish.outline text = (draft.outline text).finish := by
  simp only [finish, Sheet.outline, DraftOutline.finish, outline_tables]
  rfl

theorem outline_foldl (draft : Draft) {tokens : List Placed} (stands : ∀ p ∈ tokens, At text p.start p.token.text) :
    (tokens.foldl step draft).outline text = (tokens.map (·.token)).foldl DraftOutline.step (draft.outline text) := by
  induction tokens generalizing draft with
  | nil => rfl
  | cons placed tokens ih =>
    simp only [List.foldl_cons, List.map_cons]
    rw [ih _ fun p member => stands p (by simp [member]), outline_step (stands placed (by simp))]

end Draft

theorem Item.map_token_place (offset : Nat) (items : List Item) :
    (place offset items).map (·.token) = items.map (·.token) := by
  induction items generalizing offset with
  | nil => rfl
  | cons item items ih => simp [place, ih]

/-- The outline of a sheet depends on the tokens of its text only. -/
theorem Sheet.outline_ofChars (text : List Char) :
    (Sheet.ofChars text).outline text = ((Token.ofChars text).foldl DraftOutline.step {}).finish := by
  have same : (Placed.ofChars text).map (·.token) = Token.ofChars text := Item.map_token_place 0 _
  have stands : ∀ p ∈ Placed.ofChars text, At text p.start p.token.text := fun _ => Placed.at_of_mem
  rw [Sheet.ofChars_eq, Draft.outline_finish, Draft.ofChars, Draft.outline_foldl {} stands, same]
  rfl

/-- The keys of the fields name the table, so an outline loses nothing by leaving that name out. -/
def Table.Keyed (table : Table) : Prop := ∀ field ∈ table.fields ++ table.totals, field.key.table = table.name

def Sheet.Keyed (sheet : Sheet) : Prop := ∀ table ∈ sheet.tables, table.Keyed

namespace Draft

variable {draft next : Draft}

/-- Tables that are closed were there before, so only the open one is looked at. -/
theorem keyed_tables (keyed : ∀ table ∈ draft.tables, table.Keyed) (closed : next.closed ⊆ draft.tables)
    (opened : ∀ table ∈ next.current, table.Keyed) : ∀ table ∈ next.tables, table.Keyed := by
  intro table inside
  rcases List.mem_append.1 inside with old | new
  · exact keyed table (closed old)
  · exact opened table (Option.mem_toList.1 new)

theorem keyed_step (keyed : ∀ table ∈ draft.tables, table.Keyed) (placed : Placed) :
    ∀ table ∈ (draft.step placed).tables, table.Keyed := by
  obtain ⟨start, token⟩ := placed
  have closed : draft.closed ⊆ draft.tables := List.subset_append_left ..
  have opened : ∀ table ∈ draft.current, table.Keyed := fun table found =>
    keyed table (List.mem_append_right _ (Option.mem_toList.2 found))
  cases token with
  | field name definition =>
    cases current : draft.current with
    | none => simpa [step, addField, current, tables, report] using keyed
    | some table =>
      have old : table.Keyed := opened table current
      simp only [step, addField, current]
      refine keyed_tables keyed closed ?_
      rintro _ ⟨rfl⟩
      have same : (declare draft.pending table.name start name definition).key.table = table.name := rfl
      unfold Table.Keyed at old ⊢
      split <;> grind
  | table gap name =>
    simp only [step, openTable]
    split
    · exact keyed_tables keyed (List.Subset.refl _) nofun
    · refine keyed_tables keyed (List.Subset.refl _) ?_
      rintro _ ⟨rfl⟩
      exact nofun
  | block kind body =>
    cases current : draft.current with
    | none => simpa [step, addBlock, current, tables, report] using keyed
    | some table =>
      have old : table.Keyed := opened table current
      simp only [step, addBlock, current]
      refine keyed_tables keyed closed ?_
      rintro _ ⟨rfl⟩
      cases kind <;> exact old
  | total =>
    refine keyed_tables keyed closed ?_
    intro _ found
    obtain ⟨table, current, rfl⟩ := Option.map_eq_some_iff.1 found
    exact opened table current
  | _ => exact keyed

end Draft

theorem Sheet.keyed_read (text : String) : (Sheet.read text).Keyed := by
  obtain ⟨_, _, keyed⟩ := Draft.run_induction (motive := fun _ draft => ∀ table ∈ draft.tables, table.Keyed)
    (by simp [Draft.tables]) fun _ _ placed _ _ keyed => Draft.keyed_step keyed placed
  exact keyed

end Gridbook
