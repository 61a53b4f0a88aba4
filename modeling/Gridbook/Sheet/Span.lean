import Gridbook.Text.Offset

/-! Byte ranges of a text. -/
namespace Gridbook

/-- The bytes from `start` up to, not including, `stop`. -/
structure Span where
  start : Nat
  stop : Nat
  deriving DecidableEq

namespace Span

/-- The characters before the range, in it and after it. -/
def parts (span : Span) (text : List Char) : List Char × List Char × List Char :=
  let (before, rest) := Text.cut span.start text
  let (within, after) := Text.cut (span.stop - span.start) rest
  (before, within, after)

def slice (span : Span) (text : List Char) : List Char :=
  (span.parts text).2.1

/-- Puts `new` where the range stood. -/
def replace (span : Span) (new text : List Char) : List Char :=
  (span.parts text).1 ++ new ++ (span.parts text).2.2

end Span
end Gridbook
