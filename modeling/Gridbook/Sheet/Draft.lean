import Gridbook.Sheet.Item

/-!
A sheet in the making. The tokens of a text are put at their offsets and taken in one by one; what stands before a
table or field and belongs to it waits until that table or field comes.
-/
namespace Gridbook

structure Placed where
  start : Nat
  token : Token
  deriving DecidableEq

/-- Items put one behind the other, the first gap starting at `offset`. -/
def Item.place : (offset : Nat) → List Item → List Placed
  | _, [] => []
  | offset, item :: items =>
    let start := offset + Text.width item.gap
    ⟨start, item.token⟩ :: place (start + Text.width item.token.text) items

/-- Decorators and modifiers that wait for their table or field. -/
structure Pending where
  start : Option Nat := none
  decorators : List Decorator := []
  isKey : Bool := false
  isDim : Bool := false
  deriving DecidableEq

/-- The first thing that waits fixes where the declaration starts. -/
def Pending.mark (pending : Pending) (start : Nat) : Pending :=
  { pending with start := some (pending.start.getD start) }

structure Draft where
  closed : List Table := []
  current : Option Table := none
  inTotals : Bool := false
  pending : Pending := {}
  diagnostics : List Diagnostic := []
  deriving DecidableEq

namespace Draft

/-- The tables so far, the open one last. -/
def tables (draft : Draft) : List Table :=
  draft.closed ++ draft.current.toList

def report (draft : Draft) (offset : Nat) (problem : Problem) : Draft :=
  { draft with diagnostics := draft.diagnostics ++ [⟨offset, problem⟩] }

def addDecorator (draft : Draft) (start : Nat) (name : List Char) (args : Option (List Char)) : Draft :=
  let stop := start + Text.width (Token.decorator name args).text
  let pending := draft.pending.mark start
  { draft with pending := { pending with
      decorators := pending.decorators ++ [⟨String.ofList name, args.map String.ofList, ⟨start, stop⟩⟩] } }

/-- A header closes the table before it, also if it has no name; then nothing is open. -/
def openTable (draft : Draft) (start : Nat) (gap name : List Char) : Draft :=
  let closed := { draft with closed := draft.tables, current := none, inTotals := false, pending := {} }
  if name.isEmpty then closed.report start .missingTableName
  else
    let nameStart := start + Text.width Keyword.table.word.toList + Text.width gap
    let nameStop := nameStart + Text.width name
    { closed with current := some {
        name := String.ofList name
        decorators := draft.pending.decorators
        span := ⟨draft.pending.start.getD start, nameStop⟩
        nameSpan := ⟨nameStart, nameStop⟩
        fields := []
        totals := []
        overrideSpan := none
        applySpan := none } }

/-- The field that a token at `start` declares in `table`, with what waited for it. -/
def declare (pending : Pending) (table : String) (start : Nat) (name : List Char)
    (definition : Option Definition) : Field :=
  let nameStop := start + Text.width (Token.field name none).text
  let expression := definition.map fun d =>
    let bodyStart := nameStop + Text.width d.gap + Text.width ['='] + Text.width d.lead
    { text := String.ofList d.body, span := ⟨bodyStart, bodyStart + Text.width d.body⟩ : Expression }
  { key := ⟨table, String.ofList name⟩
    isKey := pending.isKey
    isDim := pending.isDim
    decorators := pending.decorators
    expression
    span := ⟨pending.start.getD start, (expression.map (·.span.stop)).getD nameStop⟩
    nameSpan := ⟨start, nameStop⟩ }

def addField (draft : Draft) (start : Nat) (name : List Char) (definition : Option Definition) : Draft :=
  match draft.current with
  | none => { draft with pending := {} }.report start (.strayField (String.ofList name))
  | some table =>
    let field := declare draft.pending table.name start name definition
    let grown := { table with span := ⟨table.span.start, field.span.stop⟩ }
    { draft with
      pending := {}
      current := some <|
        if draft.inTotals then { grown with totals := table.totals ++ [field] }
        else { grown with fields := table.fields ++ [field] } }

def addBlock (draft : Draft) (start : Nat) (kind : BlockKind) (body : List Char) : Draft :=
  match draft.current with
  | none => draft.report start (.strayBlock kind)
  | some table =>
    let span : Span := ⟨start, start + Text.width (Token.block kind body).text⟩
    let grown := { table with span := ⟨table.span.start, span.stop⟩ }
    { draft with
      current := some <|
        match kind with
        | .override => { grown with overrideSpan := some span }
        | .apply => { grown with applySpan := some span } }

/-- What follows counts as totals, also if no table is open. -/
def openTotals (draft : Draft) (start : Nat) : Draft :=
  let stop := start + Text.width Token.total.text
  { draft with
    inTotals := true
    current := draft.current.map fun table => { table with span := ⟨table.span.start, stop⟩ } }

def step (draft : Draft) (placed : Placed) : Draft :=
  match placed.token with
  | .comment _ | .word _ => draft
  | .decorator name args => draft.addDecorator placed.start name args
  | .bang => draft.report placed.start .emptyDecoratorName
  | .field name definition => draft.addField placed.start name definition
  | .table gap name => draft.openTable placed.start gap name
  | .key => { draft with pending := { draft.pending.mark placed.start with isKey := true } }
  | .dim => { draft with pending := { draft.pending.mark placed.start with isDim := true } }
  | .block kind body => draft.addBlock placed.start kind body
  | .total => draft.openTotals placed.start
  | .unclosed problem _ => draft.report placed.start problem

def finish (draft : Draft) : Sheet :=
  ⟨draft.tables, draft.diagnostics⟩

end Draft

namespace Sheet

def ofChars (text : List Char) : Sheet :=
  ((Item.place 0 (Item.read text)).foldl Draft.step {}).finish

/-- Reads a sheet text. Every text can be read; what is wrong with it is among the diagnostics. -/
def read (text : String) : Sheet :=
  ofChars text.toList

end Sheet
end Gridbook
