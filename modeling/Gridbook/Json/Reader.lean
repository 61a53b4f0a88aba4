import Gridbook.Json.Token

/-!
Reading a JSON text: one pass over its tokens, with the arrays and objects that are open on a stack.
-/
namespace Gridbook.Json

/-- An array or object that is open: what it holds so far, and for an object the key whose value is due. -/
inductive Frame where
  | array (items : List Json)
  | object (members : List (List Char × Json)) (key : List Char)

/-- What is due next, and what is open around it. -/
inductive Reading where
  | valueDue (stack : List Frame)
  /-- An array has just been opened. -/
  | firstItemDue (stack : List Frame)
  /-- An object has just been opened. -/
  | firstKeyDue (stack : List Frame)
  | keyDue (members : List (List Char × Json)) (stack : List Frame)
  | colonDue (members : List (List Char × Json)) (key : List Char) (stack : List Frame)
  | done (value : Json) (stack : List Frame)

namespace Reading

def startValue (stack : List Frame) : Token → Option Reading
  | .null => some (done .null stack)
  | .bool b => some (done (.bool b) stack)
  | .number literal => some (done (.number literal) stack)
  | .string literal => some (done (.string literal) stack)
  | .openArray => some (firstItemDue stack)
  | .openObject => some (firstKeyDue stack)
  | _ => none

def startKey (members : List (List Char × Json)) (stack : List Frame) : Token → Option Reading
  | .string literal => some (colonDue members literal stack)
  | _ => none

def step : Reading → Token → Option Reading
  | valueDue stack, token => startValue stack token
  | firstItemDue stack, .closeArray => some (done (.array []) stack)
  | firstItemDue stack, token => startValue (.array [] :: stack) token
  | firstKeyDue stack, .closeObject => some (done (.object []) stack)
  | firstKeyDue stack, token => startKey [] stack token
  | keyDue members stack, token => startKey members stack token
  | colonDue members key stack, .colon => some (valueDue (.object members key :: stack))
  | done v (.array items :: stack), .comma => some (valueDue (.array (items ++ [v]) :: stack))
  | done v (.array items :: stack), .closeArray => some (done (.array (items ++ [v])) stack)
  | done v (.object members key :: stack), .comma => some (keyDue (members ++ [(key, v)]) stack)
  | done v (.object members key :: stack), .closeObject => some (done (.object (members ++ [(key, v)])) stack)
  | _, _ => none

/-- The document, if nothing is open or due. -/
def result? : Reading → Option Json
  | done v [] => some v
  | _ => none

end Reading

def ofTokens? (tokens : List Token) : Option Json :=
  (tokens.foldlM Reading.step (.valueDue [])).bind Reading.result?

def read (text : String) : Option Json :=
  (Token.readAll text.toList).bind ofTokens?

end Gridbook.Json
