/-!
Rounding a ratio of naturals to a binary floating-point format: nearest, a tie to the even mantissa.
-/
namespace Gridbook.Number

/-- A ratio rounded to a natural, a half to the even neighbour. -/
def roundDiv (num den : Nat) : Nat :=
  let q := num / den
  let twice := 2 * (num % den)
  if twice < den then q
  else if twice > den then q + 1
  else if q % 2 = 0 then q else q + 1

/-- A ratio multiplied by a power of the base. -/
def scale (base : Nat) (exponent : Int) (num den : Nat) : Nat × Nat :=
  match exponent with
  | .ofNat n => (num * base.pow n, den)
  | .negSucc n => (num, den * base.pow (n + 1))

/-- The greatest `k` such that the ratio is at least `base ^ k`, if `guess` is it or one too great. -/
def correctDown (base : Nat) (guess : Int) (num den : Nat) : Int :=
  let (n, d) := scale base (-guess) num den
  if d ≤ n then guess else guess - 1

def floorLog2 (num den : Nat) : Int :=
  correctDown 2 (Int.ofNat num.log2 - Int.ofNat den.log2) num den

/-- Mantissa bits, and the exponent of the last place of the smallest numbers. -/
structure BinaryFormat where
  precision : Nat
  minExponent : Int

def binary32 : BinaryFormat := ⟨24, -149⟩
def binary64 : BinaryFormat := ⟨53, -1074⟩

/-- The nearest number `mantissa * 2 ^ exponent` of the format, without bound on the exponent. -/
def BinaryFormat.round (format : BinaryFormat) (num den : Nat) : Nat × Int :=
  if num = 0 then (0, format.minExponent)
  else
    let exponent := max format.minExponent (floorLog2 num den - Int.ofNat (format.precision - 1))
    let (n, d) := scale 2 (-exponent) num den
    let mantissa := roundDiv n d
    if mantissa = Nat.pow 2 format.precision then (mantissa / 2, exponent + 1) else (mantissa, exponent)

end Gridbook.Number
