import Gridbook.Number.Double
import Gridbook.Text.Blank

/-!
The text of a double: the fewest decimal digits that read back as the same number, of several such the nearest, and
of two equally near the greater. It is written without an exponent.
-/
namespace Gridbook.Number.Double

def floorLog10 (num den : Nat) : Int :=
  let guess := Int.ofNat (Nat.toDigits 10 (num / den)).length - 1
  if den ≤ num then guess
  else correctDown 10 (1 - Int.ofNat (Nat.toDigits 10 (den / num)).length) num den

/-- Whether a ratio rounds to the number: it lies within half a place of it, the ends included for an even mantissa.
Below a power of two the places are half as wide. -/
def roundsTo (mantissa : Nat) (exponent : Int) (num den : Nat) : Bool :=
  let (n, d) := scale 2 (2 - exponent) num den
  let low := if mantissa = Nat.pow 2 52 then 4 * mantissa - 1 else 4 * mantissa - 2
  let high := 4 * mantissa + 2
  if mantissa % 2 = 0 then low * d ≤ n && n ≤ high * d
  else low * d < n && n < high * d

/-- The nearest multiple of `10 ^ k` that rounds to the number, if there is one. -/
def onGrid? (mantissa : Nat) (exponent : Int) (k : Int) : Option Nat :=
  let (n, d) := scale 2 exponent mantissa 1
  let (n, d) := scale 10 (-k) n d
  let below := n / d
  let fits digits :=
    let (num, den) := scale 10 k digits 1
    roundsTo mantissa exponent num den
  let nearest := if 2 * (n % d) < d then [below, below + 1] else [below + 1, below]
  nearest.find? fits

/-- The digits and the exponent of their last place. Seventeen digits always suffice. -/
def shortest (mantissa : Nat) (exponent : Int) : Nat × Int :=
  let (n, d) := scale 2 exponent mantissa 1
  let top := floorLog10 n d
  let tries := (List.range 17).map fun digits => top - Int.ofNat digits
  (tries.findSome? fun k => (onGrid? mantissa exponent k).map fun digits => (digits, k)).getD (0, 0)

/-- `digits * 10 ^ exponent` written out, without zeros at the end of a fraction. -/
def positional (digits : Nat) : Int → List Char
  | .ofNat n => Nat.toDigits 10 digits ++ List.replicate n '0'
  | .negSucc n =>
    let places := n + 1
    let written := Nat.toDigits 10 digits
    let padded := List.replicate (places + 1 - written.length) '0' ++ written
    let whole := padded.take (padded.length - places)
    let fraction := Text.dropEndWhile (· == '0') (padded.drop (padded.length - places))
    if fraction.isEmpty then whole else whole ++ '.' :: fraction

def chars : Double → List Char
  | nan => "NaN".toList
  | infinite negative => sign negative ++ "inf".toList
  | finite negative mantissa exponent =>
    sign negative ++
      if mantissa = 0 then ['0']
      else
        let (digits, k) := shortest mantissa exponent
        positional digits k
where
  sign (negative : Bool) : List Char := if negative then ['-'] else []

def text (x : Double) : String := String.ofList x.chars

end Gridbook.Number.Double
