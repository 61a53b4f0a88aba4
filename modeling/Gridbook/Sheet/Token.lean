import Gridbook.Sheet.Basic
import Gridbook.Text.Blank

/-!
Tokens of a sheet text. A token keeps the characters it was read from, and no position: `Token.text` gives them
back, and `Token.read` takes a token off the front of a text that is not blank there.
-/
namespace Gridbook

inductive Keyword where
  | table
  | key
  | dim
  | block (kind : BlockKind)
  | total
  deriving DecidableEq

namespace Keyword

def word : Keyword → String
  | table => "table"
  | key => "key"
  | dim => "dim"
  | block kind => kind.word
  | total => "total"

def all : List Keyword := [table, key, dim, block .override, block .apply, total]

def ofWord? (word : List Char) : Option Keyword :=
  all.find? fun k => k.word.toList = word

/-- Keywords that end a block when a line starts with them. -/
def startsSection : Keyword → Bool
  | table | block _ | total => true
  | key | dim => false

end Keyword

/-- What follows a field's name: blanks, an equals sign, blanks, the expression, and the rest of the line. -/
structure Definition where
  gap : List Char
  lead : List Char
  body : List Char
  tail : List Char
  deriving DecidableEq

def Definition.text (d : Definition) : List Char :=
  d.gap ++ '=' :: (d.lead ++ d.body ++ d.tail)

inductive Token where
  | comment (body : List Char)
  | decorator (name : List Char) (args : Option (List Char))
  /-- An exclamation mark that no decorator name follows. -/
  | bang
  | field (name : List Char) (definition : Option Definition)
  /-- The keyword, the blanks after it and the name, which is empty if it is missing. -/
  | table (gap name : List Char)
  | key
  | dim
  | block (kind : BlockKind) (body : List Char)
  | total
  /-- Any other word or quoted name. -/
  | word (text : List Char)
  /-- A construct that is not closed. It takes the rest of the text. -/
  | unclosed (problem : Problem) (text : List Char)
  deriving DecidableEq

namespace Token

def text : Token → List Char
  | comment body => '#' :: body
  | decorator name none => '!' :: name
  | decorator name (some args) => '!' :: (name ++ '(' :: (args ++ [')']))
  | bang => ['!']
  | field name none => '[' :: (name ++ [']'])
  | field name (some d) => '[' :: (name ++ ']' :: d.text)
  | table gap name => Keyword.table.word.toList ++ gap ++ name
  | key => Keyword.key.word.toList
  | dim => Keyword.dim.word.toList
  | block kind body => kind.word.toList ++ body
  | total => Keyword.total.word.toList
  | word text => text
  | unclosed _ text => text

/-- A word ends before an ASCII blank, a bracket, a comment or a decorator. -/
def isWordEnd (c : Char) : Bool :=
  Text.isAsciiBlank c || c == '[' || c == '#' || c == '!'

def isDecoratorNameChar (c : Char) : Bool :=
  c.isAlphanum || c == '_' || c == '.'

def inLine (c : Char) : Bool := c != '\n'

/-- The rest of a quoted name after its opening quote. Two quotes in a row do not close it, a line end refuses it. -/
def readQuoted : List Char → Option (List Char × List Char)
  | [] => none
  | c :: cs =>
    if c = '\x27' then
      match cs with
      | [] => some ([c], [])
      | d :: cs =>
        if d = '\x27' then (readQuoted cs).map fun (name, rest) => (c :: d :: name, rest)
        else some ([c], d :: cs)
    else if c = '\n' then none
    else (readQuoted cs).map fun (name, rest) => (c :: name, rest)

/-- Decorator arguments after the opening parenthesis, up to the one that closes it. `depth` counts the further
parentheses that are open; parentheses between double quotes do not count. -/
def readArgs : (depth : Nat) → (quoted : Bool) → List Char → Option (List Char × List Char)
  | _, _, [] => none
  | depth, quoted, c :: cs =>
    if c = '"' then (readArgs depth (!quoted) cs).map fun (args, rest) => (c :: args, rest)
    else if quoted then (readArgs depth true cs).map fun (args, rest) => (c :: args, rest)
    else if c = '(' then (readArgs (depth + 1) false cs).map fun (args, rest) => (c :: args, rest)
    else if c = ')' then
      match depth with
      | 0 => some ([], cs)
      | depth + 1 => (readArgs depth false cs).map fun (args, rest) => (c :: args, rest)
    else (readArgs depth false cs).map fun (args, rest) => (c :: args, rest)

/-- Parts a line at the first comment mark outside quotes. `quote` is the quote that is open. -/
def splitRemark : (quote : Option Char) → List Char → List Char × List Char
  | _, [] => ([], [])
  | none, c :: cs =>
    if c = '#' then ([], c :: cs)
    else
      let (raw, remark) := splitRemark (if c = '"' ∨ c = '\x27' then some c else none) cs
      (c :: raw, remark)
  | some quote, c :: cs =>
    let (raw, remark) := splitRemark (if c = quote then none else some quote) cs
    (c :: raw, remark)

/-- The definition of a field, from behind its name to the end of the line. -/
def readDefinition (cs : List Char) : Option (Definition × List Char) :=
  match cs.dropWhile Text.isInlineBlank with
  | '=' :: rest =>
    let line := rest.takeWhile inLine
    let raw := (splitRemark none line).1
    let lead := raw.takeWhile Text.isBlank
    let body := Text.trim raw
    some (⟨cs.takeWhile Text.isInlineBlank, lead, body, line.drop (lead.length + body.length)⟩,
      rest.dropWhile inLine)
  | _ => none

/-- A blank line, a decorator, or a keyword that starts another section ends a block. -/
def endsBlock (line : List Char) : Bool :=
  match Text.trim line with
  | [] => true
  | c :: cs => c == '!' || (Keyword.ofWord? (Text.firstWord (c :: cs))).any (·.startsSection)

/-- The lines that continue a block, from a line end on. -/
def blockLines : List Char → List Char × List Char
  | [] => ([], [])
  | c :: cs =>
    if endsBlock (cs.takeWhile inLine) then ([], c :: cs)
    else
      let (lines, rest) := blockLines (cs.dropWhile inLine)
      (c :: (cs.takeWhile inLine ++ lines), rest)
termination_by cs => cs.length
decreasing_by
  have := (List.dropWhile_suffix (l := cs) inLine).length_le
  simp only [List.length_cons]
  omega

/-- A block from behind its keyword. Blanks at its end are left. -/
def readBlock (kind : BlockKind) (cs : List Char) : Token × List Char :=
  let (lines, rest) := blockLines (cs.dropWhile inLine)
  let whole := cs.takeWhile inLine ++ lines
  let body := Text.dropEndWhile Text.isAsciiBlank whole
  (block kind body, whole.drop body.length ++ rest)

/-- A table header from behind its keyword. -/
def readTable (cs : List Char) : Token × List Char :=
  let gap := cs.takeWhile Text.isInlineBlank
  match cs.dropWhile Text.isInlineBlank with
  | [] => (table gap [], [])
  | c :: rest =>
    if c = '\x27' then
      match readQuoted rest with
      | some (name, rest) => (table gap (c :: name), rest)
      | none => (unclosed .unclosedTableName (Keyword.table.word.toList ++ cs), [])
    else (table gap ((c :: rest).takeWhile (!isWordEnd ·)), (c :: rest).dropWhile (!isWordEnd ·))

/-- What a word and the characters behind it are read as. -/
def readWord (text cs : List Char) : Token × List Char :=
  match Keyword.ofWord? text with
  | some .table => readTable cs
  | some .key => (key, cs)
  | some .dim => (dim, cs)
  | some (.block kind) => readBlock kind cs
  | some .total => (total, cs)
  | none => (word text, cs)

def readField (cs : List Char) : Token × List Char :=
  let name := cs.takeWhile fun c => c != ']' && c != '\n'
  match cs.dropWhile fun c => c != ']' && c != '\n' with
  | ']' :: rest =>
    match readDefinition rest with
    | some (definition, rest) => (field name (some definition), rest)
    | none => (field name none, rest)
  | _ => (unclosed .unclosedFieldName ('[' :: cs), [])

def readDecorator (cs : List Char) : Token × List Char :=
  let name := cs.takeWhile isDecoratorNameChar
  if name.isEmpty then (bang, cs)
  else
    match cs.dropWhile isDecoratorNameChar with
    | '(' :: rest =>
      match readArgs 0 false rest with
      | some (args, rest) => (decorator name (some args), rest)
      | none => (unclosed (.unclosedArguments (String.ofList name)) ('!' :: cs), [])
    | rest => (decorator name none, rest)

/-- The token that starts with `c`, and the characters behind it. -/
def read (c : Char) (cs : List Char) : Token × List Char :=
  if c = '#' then (comment (cs.takeWhile inLine), cs.dropWhile inLine)
  else if c = '!' then readDecorator cs
  else if c = '[' then readField cs
  else if c = '\x27' then
    match readQuoted cs with
    | some (name, rest) => (word (c :: name), rest)
    | none => (unclosed .unclosedName (c :: cs), [])
  else readWord (c :: cs.takeWhile (!isWordEnd ·)) (cs.dropWhile (!isWordEnd ·))

end Token
end Gridbook
