import Gridbook.Number.Single
import Gridbook.Text.Hex

/-! Colours by four channels, from numbers and from hexadecimal text. -/
namespace Gridbook

open Number (Single)

structure Colour where
  r : Single
  g : Single
  b : Single
  a : Single
  deriving DecidableEq

namespace Colour

/-- A byte as a part of 255. -/
def channel (byte : Nat) : Single := .ofRatio byte 255

/-- From the low three bytes of a number, red first. -/
def ofNumber (n : UInt32) : Colour :=
  let byte (shift : UInt32) := channel ((n >>> shift) &&& 0xff).toNat
  ⟨byte 16, byte 8, byte 0, .one⟩

/-- A byte as two hexadecimal digits, or as a plus sign and one digit. -/
def byte? (high low : Char) : Option Nat :=
  if high = '+' then Text.hexValue? low
  else do return 16 * (← Text.hexValue? high) + (← Text.hexValue? low)

def bytes? : List Char → Option (List Nat)
  | [] => some []
  | [_] => none
  | high :: low :: cs => do return (← byte? high low) :: (← bytes? cs)

/-- Three bytes, or four with alpha, after any number of hash marks. -/
def read? (text : String) : Option Colour :=
  match bytes? (text.toList.dropWhile (· == '#')) with
  | some [r, g, b] => some ⟨channel r, channel g, channel b, .one⟩
  | some [r, g, b, a] => some ⟨channel r, channel g, channel b, channel a⟩
  | _ => none

def withAlpha (colour : Colour) (a : Single) : Colour := { colour with a }

/-- Stands for a token that is no colour, so that it is seen on screen. -/
def magenta : Colour := ⟨.one, .zero, .one, .one⟩

end Colour
end Gridbook
