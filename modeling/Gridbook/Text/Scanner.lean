/-!
Scanners: functions that take an initial part off a text or refuse it. Each of those built here is sound: the part
taken and the rest are the text.
-/
namespace Gridbook.Text

def Scanner := List Char → Option (List Char × List Char)

namespace Scanner

def Sound (scan : Scanner) : Prop :=
  ∀ {cs taken rest}, scan cs = some (taken, rest) → taken ++ rest = cs

/-- One character of a class. -/
def one (p : Char → Bool) : Scanner
  | [] => none
  | c :: cs => if p c then some ([c], cs) else none

/-- As many characters of a class as follow, perhaps none. -/
def many (p : Char → Bool) : Scanner := fun cs =>
  some (cs.takeWhile p, cs.dropWhile p)

def seq (first second : Scanner) : Scanner := fun cs =>
  match first cs with
  | none => none
  | some (a, rest) =>
    match second rest with
    | none => none
    | some (b, rest) => some (a ++ b, rest)

def orElse (first second : Scanner) : Scanner := fun cs =>
  match first cs with
  | some result => some result
  | none => second cs

/-- Takes nothing where `scan` refuses. -/
def optional (scan : Scanner) : Scanner := orElse scan fun cs => some ([], cs)

def many1 (p : Char → Bool) : Scanner := seq (one p) (many p)

theorem sound_one (p : Char → Bool) : Sound (one p) := by
  intro cs taken rest h
  cases cs with
  | nil => simp [one] at h
  | cons c cs =>
    by_cases hp : p c
    · simp only [one, hp, if_true, Option.some.injEq, Prod.mk.injEq] at h
      simp [← h.1, ← h.2]
    · simp [one, hp] at h

theorem sound_many (p : Char → Bool) : Sound (many p) := by
  intro cs taken rest h
  simp only [many, Option.some.injEq, Prod.mk.injEq] at h
  rw [← h.1, ← h.2, List.takeWhile_append_dropWhile]

theorem sound_seq {a b : Scanner} (ha : Sound a) (hb : Sound b) : Sound (seq a b) := by
  intro cs taken rest h
  unfold seq at h
  split at h
  · simp at h
  · next x mid hx =>
    split at h
    · simp at h
    · next y rest' hy =>
      simp only [Option.some.injEq, Prod.mk.injEq] at h
      rw [← h.1, ← h.2, List.append_assoc, hb hy, ha hx]

theorem sound_orElse {a b : Scanner} (ha : Sound a) (hb : Sound b) : Sound (orElse a b) := by
  intro cs taken rest h
  unfold orElse at h
  split at h
  · next hx => exact ha (h ▸ hx)
  · exact hb h

theorem sound_optional {a : Scanner} (ha : Sound a) : Sound (optional a) :=
  sound_orElse ha fun h => by
    simp only [Option.some.injEq, Prod.mk.injEq] at h
    rw [← h.1, ← h.2, List.nil_append]

theorem sound_many1 (p : Char → Bool) : Sound (many1 p) :=
  sound_seq (sound_one p) (sound_many p)

end Scanner
end Gridbook.Text
