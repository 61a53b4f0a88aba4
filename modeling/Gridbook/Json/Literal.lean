import Gridbook.Json.Basic
import Gridbook.Text.Hex

/-!
String literals. Writing escapes the quote, the backslash and the control characters; reading takes every escape of
the format, and refuses an escape that is half of a surrogate pair.
-/
namespace Gridbook.Json

open Gridbook.Text

/-- The letters that stand for a character after a backslash. -/
def shortEscapes : List (Char × Char) :=
  [('"', '"'), ('\\', '\\'), ('/', '/'), ('b', '\x08'), ('f', '\x0c'), ('n', '\n'), ('r', '\r'), ('t', '\t')]

def escapeChar (c : Char) : List Char :=
  if c = '"' then ['\\', '"']
  else if c = '\\' then ['\\', '\\']
  else if c = '\x08' then ['\\', 'b']
  else if c = '\x0c' then ['\\', 'f']
  else if c = '\n' then ['\\', 'n']
  else if c = '\r' then ['\\', 'r']
  else if c = '\t' then ['\\', 't']
  else if c.toNat < 0x20 then ['\\', 'u', '0', '0', hexDigit (c.toNat / 16), hexDigit (c.toNat % 16)]
  else [c]

def escape (text : List Char) : List Char :=
  text.flatMap escapeChar

def unit? (a b c d : Char) : Option Nat := do
  return ((← hexValue? a) * 16 + (← hexValue? b)) * 256 + ((← hexValue? c) * 16 + (← hexValue? d))

def isHighSurrogate (n : Nat) : Bool := 0xd800 ≤ n && n ≤ 0xdbff
def isLowSurrogate (n : Nat) : Bool := 0xdc00 ≤ n && n ≤ 0xdfff

def unescape? : List Char → Option (List Char)
  | [] => some []
  | '\\' :: 'u' :: a :: b :: c :: d :: rest => do
    let unit ← unit? a b c d
    if isHighSurrogate unit then
      match rest with
      | '\\' :: 'u' :: a :: b :: c :: d :: rest =>
        let low ← unit? a b c d
        if isLowSurrogate low then
          return Char.ofNat (0x10000 + (unit - 0xd800) * 0x400 + (low - 0xdc00)) :: (← unescape? rest)
        else none
      | _ => none
    else if isLowSurrogate unit then none
    else return Char.ofNat unit :: (← unescape? rest)
  | '\\' :: e :: rest => do return (← shortEscapes.lookup e) :: (← unescape? rest)
  | c :: rest => do return c :: (← unescape? rest)

def ofText (text : String) : Json := .string (escape text.toList)

def text? : Json → Option String
  | .string literal => (unescape? literal).map String.ofList
  | _ => none

def ofNat (n : Nat) : Json := .number (Nat.toDigits 10 n)

/-- An object with the given keys. -/
def record (members : List (String × Json)) : Json :=
  .object (members.map fun (key, value) => (escape key.toList, value))

end Gridbook.Json
