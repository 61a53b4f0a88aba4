/-!
JSON documents. Numbers and strings are kept as their literals are written, so that a document says no more than its
text does; `Json.Literal` gives strings their meaning.
-/
namespace Gridbook

inductive Json where
  | null
  | bool (value : Bool)
  /-- The digits as written. -/
  | number (literal : List Char)
  /-- The characters between the quotes, escapes as written. -/
  | string (literal : List Char)
  | array (items : List Json)
  /-- Members in their order, repeated keys included. -/
  | object (members : List (List Char × Json))

end Gridbook
