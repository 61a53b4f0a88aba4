import Gridbook.Json.Literal
import Gridbook.Text.Scanner

/-! Tokens of a JSON text. -/
namespace Gridbook.Json

open Gridbook.Text

inductive Token where
  | openArray
  | closeArray
  | openObject
  | closeObject
  | comma
  | colon
  | null
  | bool (value : Bool)
  | number (literal : List Char)
  | string (literal : List Char)
  deriving DecidableEq

namespace Token

def isSpace (c : Char) : Bool := c == ' ' || c == '\n' || c == '\r' || c == '\t'

def isSign (c : Char) : Bool := c == '+' || c == '-'

/-- An integer without leading zeros, perhaps a fraction, perhaps an exponent. -/
def scanNumber : Scanner :=
  .seq (.optional (.one (· == '-'))) <|
  .seq (.orElse (.one (· == '0')) (.many1 Char.isDigit)) <|
  .seq (.optional (.seq (.one (· == '.')) (.many1 Char.isDigit)))
    (.optional (.seq (.one fun c => c == 'e' || c == 'E') (.seq (.optional (.one isSign)) (.many1 Char.isDigit))))

def marks : List (Char × Token) :=
  [('[', openArray), (']', closeArray), ('{', openObject), ('}', closeObject), (',', comma), (':', colon)]

def words : List (List Char × Token) :=
  [("null".toList, null), ("true".toList, bool true), ("false".toList, bool false)]

def isHex (c : Char) : Bool := (hexValue? c).isSome

/-- Puts characters before a literal that has been read. -/
def extend (taken : List Char) (result : Option (List Char × List Char)) : Option (List Char × List Char) :=
  result.map fun (literal, rest) => (taken ++ literal, rest)

/-- The rest of a string after its opening quote: its literal, and what stands behind the closing quote. Control
characters and unknown escapes refuse it; whether an escape is half of a surrogate pair is not asked here. -/
def scanString : List Char → Option (List Char × List Char)
  | [] => none
  | c :: cs =>
    if c = '"' then some ([], cs)
    else if c = '\\' then
      match cs with
      | [] => none
      | e :: cs =>
        if e = 'u' then
          match cs with
          | h₁ :: h₂ :: h₃ :: h₄ :: cs =>
            if [h₁, h₂, h₃, h₄].all isHex then extend [c, e, h₁, h₂, h₃, h₄] (scanString cs) else none
          | _ => none
        else if (shortEscapes.lookup e).isSome then extend [c, e] (scanString cs)
        else none
    else if c.toNat < 0x20 then none
    else extend [c] (scanString cs)

/-- The token that starts with `c`, and the characters behind it. -/
def read (c : Char) (cs : List Char) : Option (Token × List Char) :=
  match marks.lookup c with
  | some token => some (token, cs)
  | none =>
    if c = '"' then (scanString cs).map fun (literal, rest) => (string literal, rest)
    else
      match words.find? fun (word, _) => word.isPrefixOf (c :: cs) with
      | some (word, token) => some (token, (c :: cs).drop word.length)
      | none =>
        match scanNumber (c :: cs) with
        | some (d :: literal, rest) => some (number (d :: literal), rest)
        | _ => none

theorem sound_scanNumber : Scanner.Sound scanNumber := by
  open Scanner in
  exact sound_seq (sound_optional (sound_one _)) <|
    sound_seq (sound_orElse (sound_one _) (sound_many1 _)) <|
    sound_seq (sound_optional (sound_seq (sound_one _) (sound_many1 _))) <|
    sound_optional (sound_seq (sound_one _) (sound_seq (sound_optional (sound_one _)) (sound_many1 _)))

theorem rest_of_extend {taken literal rest cs : List Char}
    (h : extend taken (scanString cs) = some (literal, rest)) : ∃ l, scanString cs = some (l, rest) := by
  obtain ⟨⟨l, r⟩, found, same⟩ := Option.map_eq_some_iff.1 h
  simp only [Prod.mk.injEq] at same
  exact ⟨l, same.2 ▸ found⟩

theorem length_scanString {cs literal rest : List Char} (h : scanString cs = some (literal, rest)) :
    rest.length < cs.length := by
  fun_induction scanString cs generalizing literal with
  | case2 => simp at h; simp [h.2]
  | case4 | case7 | case10 =>
    rename_i ih
    obtain ⟨l, found⟩ := rest_of_extend h
    have := ih found
    simp only [List.length_cons]
    omega
  | _ => simp at h

/-- A token takes at least one character. -/
theorem length_read_le {c : Char} {cs rest : List Char} {t : Token} (h : read c cs = some (t, rest)) :
    rest.length ≤ cs.length := by
  unfold read at h
  split at h
  · simp only [Option.some.injEq, Prod.mk.injEq] at h
    exact h.2 ▸ Nat.le_refl _
  · split at h
    · obtain ⟨⟨l, r⟩, found, same⟩ := Option.map_eq_some_iff.1 h
      simp only [Prod.mk.injEq] at same
      exact same.2 ▸ Nat.le_of_lt (length_scanString found)
    · split at h
      · next word token found =>
        have nonempty : ∀ w ∈ words, 1 ≤ w.1.length := by decide
        have taken := nonempty _ (List.mem_of_find?_eq_some found)
        simp only [Option.some.injEq, Prod.mk.injEq] at h
        rw [← h.2, List.length_drop, List.length_cons]
        simp only at taken
        omega
      · split at h
        · next d literal after found =>
          have whole := congrArg List.length (sound_scanNumber found)
          simp only [List.length_append, List.length_cons] at whole
          simp only [Option.some.injEq, Prod.mk.injEq] at h
          rw [← h.2]
          omega
        · simp at h

/-- All tokens of a text. -/
def readAll (cs : List Char) : Option (List Token) :=
  match _found : cs.dropWhile isSpace with
  | [] => some []
  | c :: rest =>
    match _taken : read c rest with
    | none => none
    | some (token, after) => (readAll after).map (token :: ·)
termination_by cs.length
decreasing_by
  have suffix := (List.dropWhile_suffix (l := cs) isSpace).length_le
  have shorter := length_read_le _taken
  rw [_found, List.length_cons] at suffix
  omega

end Token
end Gridbook.Json
