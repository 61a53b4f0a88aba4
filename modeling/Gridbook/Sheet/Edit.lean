import Gridbook.Sheet.Draft

/-!
Edits of a sheet text at the tables and fields found in it. Each edit gives the new text, or nothing if its table or
field is not there.
-/
namespace Gridbook

/-- A place in a text: the characters before it and those after it. -/
structure Cursor where
  before : List Char
  after : List Char

namespace Cursor

def ofOffset (offset : Nat) (text : List Char) : Cursor :=
  let (before, after) := Text.cut offset text
  ⟨before, after⟩

/-- From the start of the line to the cursor. -/
def lineBefore (cursor : Cursor) : List Char :=
  (cursor.before.reverse.takeWhile Token.inLine).reverse

/-- From the cursor to the end of the line. -/
def lineAfter (cursor : Cursor) : List Char :=
  cursor.after.takeWhile Token.inLine

def insert (cursor : Cursor) (new : List Char) : List Char :=
  cursor.before ++ new ++ cursor.after

/-- Past blanks and a comment that fill the rest of the line, but not past a carriage return at its end. -/
def pastRemark (cursor : Cursor) : Cursor :=
  let line := cursor.lineAfter
  match Text.trim line with
  | [] | '#' :: _ =>
    let skipped := if line.getLast? = some '\r' then line.dropLast else line
    ⟨cursor.before ++ skipped, cursor.after.drop skipped.length⟩
  | _ => cursor

/-- The break that ends the cursor's line, or the line before it if the text ends there. -/
def lineBreak (cursor : Cursor) : List Char :=
  let upToBreak :=
    match cursor.after.dropWhile Token.inLine with
    | _ :: _ => (cursor.before ++ cursor.lineAfter).reverse
    | [] => (cursor.before.reverse.dropWhile Token.inLine).tail
  if upToBreak.head? = some '\r' then ['\r', '\n'] else ['\n']

end Cursor

namespace Sheet

def defaultIndent : List Char := [' ', ' ']

def declaration (field expression : String) : List Char :=
  let name := (FieldKey.mk "" field).bracketed.toList
  if expression.isEmpty then name else name ++ [' ', '=', ' '] ++ expression.toList

/-- The blanks before a field that starts its line. -/
def indentOf (field : Field) (text : List Char) : List Char :=
  let indent := (Cursor.ofOffset field.span.start text).lineBefore
  if !indent.isEmpty && indent.all Text.isBlank then indent else defaultIndent

/-- Declares a field on a line of its own behind the last field, or behind the header of a table that has none. -/
def appendField (text table field expression : String) : Option String := do
  let chars := text.toList
  let found ← (read text).table? table
  let (anchor, indent) :=
    match found.lastField? with
    | some last => (last.span.stop, indentOf last chars)
    | none => (found.nameSpan.stop, defaultIndent)
  let cursor := (Cursor.ofOffset anchor chars).pastRemark
  return String.ofList (cursor.insert (cursor.lineBreak ++ indent ++ declaration field expression))

/-- Replaces the expression of a field, or gives it one. -/
def setExpression (text table field expression : String) : Option String := do
  let found ← (read text).field? table field
  return String.ofList <|
    match found.expression with
    | some old => old.span.replace expression.toList text.toList
    | none =>
      (⟨found.nameSpan.stop, found.nameSpan.stop⟩ : Span).replace ([' ', '=', ' '] ++ expression.toList) text.toList

/-- Takes off the line break at the end. -/
def dropBreak (cs : List Char) : List Char :=
  let line := cs.dropLast
  if line.getLast? = some '\r' then line.dropLast else line

/-- The text without a range. A range that fills its lines takes their break along: the one behind it, or
the one before it at the end of the text. -/
def removeSpan (span : Span) (text : List Char) : List Char :=
  let before := (Cursor.ofOffset span.start text).before
  let after := (Cursor.ofOffset span.stop text).after
  let around : Cursor := ⟨before, after⟩
  if around.lineBefore.all Text.isBlank && around.lineAfter.all Text.isBlank then
    let kept := before.take (before.length - around.lineBefore.length)
    match after.dropWhile Token.inLine with
    | _ :: rest => kept ++ rest
    | [] => dropBreak kept
  else Text.dropEndWhile Text.isInlineBlank before ++ after

/-- Removes the declaration of a field with its decorators and modifiers. -/
def removeField (text table field : String) : Option String := do
  let found ← (read text).field? table field
  return String.ofList (removeSpan found.span text.toList)

def renameTable (text table name : String) : Option String := do
  let found ← (read text).table? table
  return String.ofList (found.nameSpan.replace name.toList text.toList)

end Sheet
end Gridbook
