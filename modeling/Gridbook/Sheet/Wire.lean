import Gridbook.Json.Record
import Gridbook.Sheet.Basic

/-! The JSON form of a sheet that was read. -/
namespace Gridbook

def Span.toJson (span : Span) : Json :=
  .record [("start", .ofNat span.start), ("end", .ofNat span.stop)]

def Decorator.toJson (decorator : Decorator) : Json :=
  .record [
    ("name", .ofText decorator.name),
    ("args", .ofOption .ofText decorator.args),
    ("span", decorator.span.toJson)]

def FieldKey.toJson (key : FieldKey) : Json :=
  .record [
    ("table_name", .ofText key.table),
    ("field_name", .ofText key.field),
    ("full_field_name", .ofText key.bracketed)]

def Field.toJson (field : Field) : Json :=
  .record [
    ("key", field.key.toJson),
    ("is_key", .bool field.isKey),
    ("is_dim", .bool field.isDim),
    ("decorators", .ofList Decorator.toJson field.decorators),
    ("expression", .ofOption (fun e => .ofText e.text) field.expression),
    ("span", field.span.toJson),
    ("name_span", field.nameSpan.toJson),
    ("expression_span", .ofOption (fun e => e.span.toJson) field.expression)]

def Table.toJson (table : Table) : Json :=
  .record [
    ("table_name", .ofText table.name),
    ("decorators", .ofList Decorator.toJson table.decorators),
    ("span", table.span.toJson),
    ("name_span", table.nameSpan.toJson),
    ("fields", .ofList Field.toJson table.fields),
    ("totals", .ofList Field.toJson table.totals),
    ("override_span", .ofOption Span.toJson table.overrideSpan),
    ("apply_span", .ofOption Span.toJson table.applySpan)]

def Diagnostic.toJson (diagnostic : Diagnostic) : Json :=
  .record [("offset", .ofNat diagnostic.offset), ("message", .ofText diagnostic.problem.message)]

def Sheet.toJson (sheet : Sheet) : Json :=
  .record [
    ("tables", .ofList Table.toJson sheet.tables),
    ("diagnostics", .ofList Diagnostic.toJson sheet.diagnostics)]

end Gridbook
