import Gridbook.Sheet.Span

/-!
Tables and fields located in a sheet text. All ranges are byte ranges of the text the sheet was read from.
-/
namespace Gridbook

/-- An annotation `!name(args)`; `args` is the text between the parentheses. -/
structure Decorator where
  name : String
  args : Option String
  span : Span
  deriving DecidableEq

structure FieldKey where
  table : String
  field : String
  deriving DecidableEq

/-- The field's name as it is written in a sheet. -/
def FieldKey.bracketed (key : FieldKey) : String := "[" ++ key.field ++ "]"

/-- What a field is set to, without the blanks around it. -/
structure Expression where
  text : String
  span : Span
  deriving DecidableEq

structure Field where
  key : FieldKey
  isKey : Bool
  isDim : Bool
  decorators : List Decorator
  /-- Present iff the name is followed by an equals sign. -/
  expression : Option Expression
  /-- From the first decorator or modifier to the end of the expression. -/
  span : Span
  /-- The name with its brackets. -/
  nameSpan : Span
  deriving DecidableEq

structure Table where
  /-- As written: a quoted name keeps its quotes. -/
  name : String
  decorators : List Decorator
  /-- From the first decorator to the end of the last item that belongs to the table. -/
  span : Span
  nameSpan : Span
  fields : List Field
  /-- Entries of the totals section, which are not fields. -/
  totals : List Field
  overrideSpan : Option Span
  applySpan : Option Span
  deriving DecidableEq

namespace Table

def field? (table : Table) (name : String) : Option Field :=
  table.fields.find? fun f => f.key.field = name

def lastField? (table : Table) : Option Field :=
  table.fields.getLast?

def fieldNames (table : Table) : List String :=
  table.fields.map fun f => f.key.field

end Table

/-- The two kinds of block that can follow the fields of a table. -/
inductive BlockKind where
  | override
  | apply
  deriving DecidableEq

def BlockKind.word : BlockKind → String
  | .override => "override"
  | .apply => "apply"

inductive Problem where
  | unclosedName
  | unclosedTableName
  | unclosedFieldName
  | unclosedArguments (decorator : String)
  | emptyDecoratorName
  | missingTableName
  | strayField (name : String)
  | strayBlock (kind : BlockKind)
  deriving DecidableEq

def Problem.message : Problem → String
  | .unclosedName => "unterminated quoted name"
  | .unclosedTableName => "unterminated quoted table name"
  | .unclosedFieldName => "unterminated field name"
  | .unclosedArguments decorator => "unterminated arguments of !" ++ decorator
  | .emptyDecoratorName => "empty decorator name"
  | .missingTableName => "missing table name"
  | .strayField name => "field [" ++ name ++ "] declared outside of a table"
  | .strayBlock kind => kind.word ++ " outside of a table"

structure Diagnostic where
  offset : Nat
  problem : Problem
  deriving DecidableEq

/-- All tables of one text, in the order of the text, and the problems met. -/
structure Sheet where
  tables : List Table
  diagnostics : List Diagnostic
  deriving DecidableEq

namespace Sheet

/-- The first table of that name. -/
def table? (sheet : Sheet) (name : String) : Option Table :=
  sheet.tables.find? fun t => t.name = name

def field? (sheet : Sheet) (table field : String) : Option Field :=
  (sheet.table? table).bind (·.field? field)

def lastField? (sheet : Sheet) (table : String) : Option Field :=
  (sheet.table? table).bind (·.lastField?)

def tableNames (sheet : Sheet) : List String :=
  sheet.tables.map (·.name)

def hasErrors (sheet : Sheet) : Bool :=
  !sheet.diagnostics.isEmpty

end Sheet
end Gridbook
