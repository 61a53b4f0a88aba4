import Gridbook.Number.Rounding

/-! Single-precision numbers by their bits. -/
namespace Gridbook.Number

structure Single where
  bits : UInt32
  deriving DecidableEq

namespace Single

/-- The nearest number to a ratio up to one. Counting places from the smallest number on, the mantissa carries
over into the exponent, so the bits are a sum. -/
def ofRatio (num den : Nat) : Single :=
  let (mantissa, exponent) := binary32.round num den
  ⟨UInt32.ofNat ((exponent - binary32.minExponent).toNat * Nat.pow 2 23 + mantissa)⟩

def zero : Single := ofRatio 0 1
def one : Single := ofRatio 1 1

end Single
end Gridbook.Number
