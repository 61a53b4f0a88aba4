import Gridbook.Number.Rounding

/-!
Double-precision numbers, and how they are read from decimal text: correctly rounded, with an optional sign,
fraction and exponent.
-/
namespace Gridbook.Number

/-- A finite number is `mantissa * 2 ^ exponent`, as `BinaryFormat.round` gives it. -/
inductive Double where
  | nan
  | infinite (negative : Bool)
  | finite (negative : Bool) (mantissa : Nat) (exponent : Int)
  deriving DecidableEq

namespace Double

/-- The exponent of the last place of the greatest numbers. -/
def maxExponent : Int := 971

def ofRatio (negative : Bool) (num den : Nat) : Double :=
  let (mantissa, exponent) := binary64.round num den
  if exponent > maxExponent then infinite negative else finite negative mantissa exponent

def digitsValue (digits : List Char) : Nat :=
  digits.foldl (fun n c => 10 * n + (c.toNat - '0'.toNat)) 0

/-- `digits * 10 ^ exponent`. A number far outside the range is not worked out: it is infinite or zero. -/
def ofDecimal (negative : Bool) (digits : Nat) (exponent : Int) : Double :=
  let magnitude := Int.ofNat (Nat.toDigits 10 digits).length + exponent
  if digits = 0 ∨ magnitude < -400 then ofRatio negative 0 1
  else if magnitude > 400 then infinite negative
  else
    let (num, den) := scale 10 exponent digits 1
    ofRatio negative num den

/-- The text after the exponent mark. -/
def exponent? (cs : List Char) : Option Int :=
  let value (negative : Bool) (digits : List Char) : Option Int :=
    if digits.isEmpty || !digits.all Char.isDigit then none
    else some (if negative then -Int.ofNat (digitsValue digits) else Int.ofNat (digitsValue digits))
  match cs with
  | '-' :: digits => value true digits
  | '+' :: digits => value false digits
  | digits => value false digits

/-- Digits with an optional point among them and an optional exponent. -/
def unsigned? (negative : Bool) (cs : List Char) : Option Double := do
  let whole := cs.takeWhile Char.isDigit
  let (fraction, rest) :=
    match cs.dropWhile Char.isDigit with
    | '.' :: rest => (rest.takeWhile Char.isDigit, rest.dropWhile Char.isDigit)
    | rest => ([], rest)
  let digits := whole ++ fraction
  if digits.isEmpty then none
  else
    let exponent ←
      match rest with
      | [] => some 0
      | c :: rest => if c = 'e' ∨ c = 'E' then exponent? rest else none
    return ofDecimal negative (digitsValue digits) (exponent - Int.ofNat fraction.length)

/-- Words for numbers that have no digits, in any case. -/
def special? (negative : Bool) (cs : List Char) : Option Double :=
  let word := String.ofList (cs.map Char.toLower)
  if word = "nan" then some nan
  else if word = "inf" ∨ word = "infinity" then some (infinite negative)
  else none

def read? (text : String) : Option Double :=
  let magnitude? negative cs := (unsigned? negative cs).or (special? negative cs)
  match text.toList with
  | '-' :: cs => magnitude? true cs
  | '+' :: cs => magnitude? false cs
  | cs => magnitude? false cs

end Double
end Gridbook.Number
