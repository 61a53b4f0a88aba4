import Gridbook.Json.Reader
import Gridbook.Json.Writer

/-!
How typed values are read from documents. A record is an object with named fields, or an array of all its fields in
order; a variant is its name, or an object whose one member has that name and the value null.
-/
namespace Gridbook.Json

def bool? : Json → Option Bool
  | .bool value => some value
  | _ => none

def listOf? (item? : Json → Option α) : Json → Option (List α)
  | .array items => items.mapM item?
  | _ => none

/-- Null for nothing. -/
def optional? (value? : Json → Option α) : Json → Option (Option α)
  | .null => some none
  | json => (value? json).map some

/-- A whole number written as such, without sign, fraction or exponent, below the bound. -/
def natBelow? (bound : Nat) : Json → Option Nat
  | .number literal =>
    if literal.all Char.isDigit then
      let n := literal.foldl (fun n c => 10 * n + (c.toNat - '0'.toNat)) 0
      if n < bound then some n else none
    else none
  | _ => none

def key? (literal : List Char) : Option String :=
  (unescape? literal).map String.ofList

/-- The members under their keys; refused if a key cannot be decoded. -/
def members? : Json → Option (List (String × Json))
  | .object members => members.mapM fun (key, value) => do return (← key? key, value)
  | _ => none

def variant? (ofName? : String → Option α) : Json → Option α
  | .string literal => (key? literal).bind ofName?
  | .object [(key, .null)] => (key? key).bind ofName?
  | _ => none

/-- A map from texts; of a repeated key the last value counts. -/
def mapOf? (key? : String → Option α) (value? : Json → Option β) (json : Json) : Option (List (α × β)) := do
  (← json.members?).mapM fun (key, value) => do return (← key? key, ← value? value)

structure RecordShape where
  fields : List String
  /-- Whether the array form may stop before the last field. -/
  mayStop : Bool := false

/-- The value of each field, in their order. Members of other names are skipped, but no field may come twice. -/
def RecordShape.values? (shape : RecordShape) : Json → Option (List (Option Json))
  | .array items =>
    if items.length = shape.fields.length ∨ shape.mayStop ∧ items.length ≤ shape.fields.length then
      some (items.map some ++ List.replicate (shape.fields.length - items.length) none)
    else none
  | json => do
    let members ← json.members?
    let found name := members.filter fun (key, _) => key = name
    if shape.fields.all fun name => (found name).length ≤ 1 then
      return shape.fields.map fun name => (found name).head?.map (·.2)
    else none

def ofOption (write : α → Json) : Option α → Json
  | none => .null
  | some value => write value

def ofList (write : α → Json) (items : List α) : Json := .array (items.map write)

end Gridbook.Json
