import Gridbook.Json.Literal

/-!
The two forms in which documents are written: compact, without blanks, and laid out, one item or member to a line,
indented by two spaces a level.
-/
namespace Gridbook.Json

def quoted (literal : List Char) : List Char := '"' :: (literal ++ ['"'])

def constant : Bool → List Char
  | true => "true".toList
  | false => "false".toList

mutual

def compactChars : Json → List Char
  | .null => "null".toList
  | .bool value => constant value
  | .number literal => literal
  | .string literal => quoted literal
  | .array items => '[' :: (compactItems items ++ [']'])
  | .object members => '{' :: (compactMembers members ++ ['}'])

def compactItems : List Json → List Char
  | [] => []
  | [item] => compactChars item
  | item :: items => compactChars item ++ ',' :: compactItems items

def compactMembers : List (List Char × Json) → List Char
  | [] => []
  | [(key, value)] => quoted key ++ ':' :: compactChars value
  | (key, value) :: members => quoted key ++ ':' :: (compactChars value ++ ',' :: compactMembers members)

end

def newLine (level : Nat) : List Char := '\n' :: List.replicate (2 * level) ' '

mutual

def layoutChars (level : Nat) : Json → List Char
  | .null => "null".toList
  | .bool value => constant value
  | .number literal => literal
  | .string literal => quoted literal
  | .array [] => ['[', ']']
  | .array (item :: items) => '[' :: (layoutItems (level + 1) (item :: items) ++ newLine level ++ [']'])
  | .object [] => ['{', '}']
  | .object (member :: members) =>
    '{' :: (layoutMembers (level + 1) (member :: members) ++ newLine level ++ ['}'])

def layoutItems (level : Nat) : List Json → List Char
  | [] => []
  | [item] => newLine level ++ layoutChars level item
  | item :: items => newLine level ++ layoutChars level item ++ ',' :: layoutItems level items

def layoutMembers (level : Nat) : List (List Char × Json) → List Char
  | [] => []
  | [(key, value)] => newLine level ++ quoted key ++ ':' :: ' ' :: layoutChars level value
  | (key, value) :: members =>
    newLine level ++ quoted key ++ ':' :: ' ' :: (layoutChars level value ++ ',' :: layoutMembers level members)

end

def compact (json : Json) : String := String.ofList (compactChars json)
def layout (json : Json) : String := String.ofList (layoutChars 0 json)

end Gridbook.Json
