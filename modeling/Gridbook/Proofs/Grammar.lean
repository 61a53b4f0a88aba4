import Gridbook.Proofs.Runs
import Gridbook.Sheet.Item

/-!
What a token is and where it ends, said without reading. A well-formed token is read back from any text that starts
with it and does not carry it on; every closed token that is read is of this kind. What stands behind a token
matters only through `Token.EndsBefore`.
-/
namespace Gridbook

open Text

namespace Token

/-- What may stand between the quotes of a name: one line in which every quote is written twice. -/
def isDoubled : List Char → Bool
  | [] => true
  | c :: cs =>
    if c = '\x27' then
      match cs with
      | [] => false
      | d :: cs => d == '\x27' && isDoubled cs
    else c != '\n' && isDoubled cs

def IsQuoted (text : List Char) : Prop :=
  ∃ body, isDoubled body = true ∧ text = '\x27' :: (body ++ ['\x27'])

/-- A word without delimiters that is not taken for a quoted name. -/
structure IsBare (text : List Char) : Prop where
  nonempty : text ≠ []
  inside : ∀ c ∈ text, isWordEnd c = false
  unquoted : Stops (· == '\x27') text

/-- Parentheses outside double quotes close in pairs and double quotes come in pairs, with `depth` parentheses open
before the text and `quoted` inside quotes. -/
def balanced : (depth : Nat) → (quoted : Bool) → List Char → Bool
  | depth, quoted, [] => depth == 0 && !quoted
  | depth, quoted, c :: cs =>
    if c = '"' then balanced depth (!quoted) cs
    else if quoted then balanced depth true cs
    else if c = '(' then balanced (depth + 1) false cs
    else if c = ')' then
      match depth with
      | 0 => false
      | depth + 1 => balanced depth false cs
    else balanced depth false cs

def GoesOn (body : List Char) : Prop :=
  ∀ before line, body = before ++ '\n' :: line → endsBlock (line.takeWhile inLine) = false

def StartsSection (text : List Char) : Prop := endsBlock (text.takeWhile inLine) = true

/-- From a line end: the text ends there, or the next line ends a block. -/
def StopsBlock (rest : List Char) : Prop :=
  ∀ c more, rest = c :: more → StartsSection more

end Token

structure Definition.WellFormed (d : Definition) : Prop where
  gap : ∀ c ∈ d.gap, isInlineBlank c = true
  line : ∀ c ∈ d.lead ++ d.body ++ d.tail, Token.inLine c = true
  lead : d.lead = (Token.splitRemark none (d.lead ++ d.body ++ d.tail)).1.takeWhile isBlank
  body : d.body = trim (Token.splitRemark none (d.lead ++ d.body ++ d.tail)).1

namespace Token

def isUnclosed : Token → Bool
  | unclosed .. => true
  | _ => false

def isBlock : Token → Bool
  | block .. => true
  | _ => false

def WellFormed : Token → Prop
  | comment body => ∀ c ∈ body, inLine c = true
  | decorator name args =>
    name ≠ [] ∧ (∀ c ∈ name, isDecoratorNameChar c = true) ∧ ∀ a ∈ args, balanced 0 false a = true
  | bang | key | dim | total => True
  | field name definition =>
    (∀ c ∈ name, (c != ']' && c != '\n') = true) ∧ ∀ d ∈ definition, d.WellFormed
  | table gap name =>
    (∀ c ∈ gap, isInlineBlank c = true) ∧ (name = [] ∨ gap ≠ [] ∧ (IsBare name ∨ IsQuoted name))
  | block _ body => Stops (!isWordEnd ·) body ∧ Stops isAsciiBlank body.reverse ∧ GoesOn body
  | word text => IsQuoted text ∨ IsBare text ∧ Keyword.ofWord? text = none
  | unclosed _ _ => False

/-- Characters that would carry on a name. Where a name is missing, blanks would come before it. -/
def nameTakes : (name : List Char) → Char → Bool
  | [], c => isInlineBlank c || !isWordEnd c
  | first :: _, c => if first = '\x27' then c == '\x27' else !isWordEnd c

def takes : Token → Char → Bool
  | comment _ | field _ (some _) => inLine
  | decorator _ none => fun c => isDecoratorNameChar c || c == '('
  | decorator _ (some _) | field _ none | block _ _ => fun _ => false
  | bang => isDecoratorNameChar
  | key | dim | total => (!isWordEnd ·)
  | table _ name | word name => nameTakes name
  | unclosed _ _ => fun _ => true

/-- Nothing of the text belongs to the token before it. Two tokens look further than one character: a name looks
past blanks for an equals sign, and a block looks at the whole next line. -/
def EndsBefore (token : Token) (rest : List Char) : Prop :=
  Stops token.takes rest ∧
    match token with
    | field _ none => Stops (· == '=') (rest.dropWhile isInlineBlank)
    | block _ _ =>
      (∀ c ∈ rest.takeWhile inLine, isAsciiBlank c = true) ∧ StopsBlock (rest.dropWhile inLine)
    | _ => True

/-- What is read as a token is well-formed and ends where it says, or it is not closed. -/
def Sound (token : Token) (rest : List Char) : Prop :=
  token.isUnclosed = true ∨ token.WellFormed ∧ token.EndsBefore rest

theorem ofWord?_word (keyword : Keyword) : Keyword.ofWord? keyword.word.toList = some keyword := by
  cases keyword with
  | block kind => cases kind <;> decide
  | _ => decide

theorem isBare_keyword (keyword : Keyword) : IsBare keyword.word.toList := by
  rcases keyword with _ | _ | _ | (_ | _) | _
  all_goals exact ⟨by decide, by simp [Keyword.word, BlockKind.word]; decide, by simp [Keyword.word, BlockKind.word]⟩

theorem isWordEnd_quote : isWordEnd '\x27' = false := by decide

theorem isWordEnd_of_isAsciiBlank {c : Char} (h : isAsciiBlank c = true) : isWordEnd c = true := by
  simp [isWordEnd, h]

theorem isAsciiBlank_newline : isAsciiBlank '\n' = true := by decide

theorem stops_bare {name rest : List Char} (bare : IsBare name) :
    Stops (nameTakes name) rest ↔ Stops (!isWordEnd ·) rest := by
  cases name with
  | nil => exact absurd rfl bare.nonempty
  | cons c name =>
    have unquoted : c ≠ '\x27' := by simpa using bare.unquoted
    simp [Stops, nameTakes, unquoted]

theorem stops_quoted {name rest : List Char} (quoted : IsQuoted name) :
    Stops (nameTakes name) rest ↔ Stops (· == '\x27') rest := by
  obtain ⟨body, -, rfl⟩ := quoted
  simp [Stops, nameTakes]

theorem readQuoted_complete {body rest : List Char} (doubled : isDoubled body = true)
    (ends : Stops (· == '\x27') rest) : readQuoted (body ++ '\x27' :: rest) = some (body ++ ['\x27'], rest) := by
  fun_induction isDoubled body with
  | case1 =>
    cases rest with
    | nil => simp [readQuoted]
    | cons c rest =>
      have other : c ≠ '\x27' := by simpa using ends
      simp [readQuoted, other]
  | case2 => simp at doubled
  | case3 d cs ih =>
    simp only [Bool.and_eq_true, beq_iff_eq] at doubled
    simp [readQuoted, doubled.1, ih doubled.2]
  | case4 c cs other ih =>
    simp only [Bool.and_eq_true, bne_iff_ne] at doubled
    rw [List.cons_append, readQuoted.eq_def]
    simp [other, doubled.1, ih doubled.2]

theorem readQuoted_sound {cs name rest : List Char} (read : readQuoted cs = some (name, rest)) :
    ∃ body, isDoubled body = true ∧ name = body ++ ['\x27'] ∧ Stops (· == '\x27') rest := by
  fun_induction readQuoted cs generalizing name with
  | case1 => simp at read
  | case2 =>
    simp only [Option.some.injEq, Prod.mk.injEq] at read
    obtain ⟨rfl, rfl⟩ := read
    exact ⟨[], rfl, rfl, stops_nil⟩
  | case3 cs ih =>
    obtain ⟨⟨n, r⟩, found, same⟩ := Option.map_eq_some_iff.1 read
    simp only [Prod.mk.injEq] at same
    obtain ⟨rfl, rfl⟩ := same
    obtain ⟨body, doubled, rfl, ends⟩ := ih found
    exact ⟨'\x27' :: '\x27' :: body, by simpa [isDoubled] using doubled, rfl, ends⟩
  | case4 d cs other =>
    simp only [Option.some.injEq, Prod.mk.injEq] at read
    obtain ⟨rfl, rfl⟩ := read
    exact ⟨[], rfl, rfl, by simpa using other⟩
  | case5 => simp at read
  | case6 c cs other inside ih =>
    obtain ⟨⟨n, r⟩, found, same⟩ := Option.map_eq_some_iff.1 read
    simp only [Prod.mk.injEq] at same
    obtain ⟨rfl, rfl⟩ := same
    obtain ⟨body, doubled, rfl, ends⟩ := ih found
    refine ⟨c :: body, ?_, rfl, ends⟩
    rw [isDoubled.eq_def]
    simp [other, inside, doubled]

theorem readArgs_complete {depth : Nat} {quoted : Bool} {args : List Char}
    (closes : balanced depth quoted args = true) (rest : List Char) :
    readArgs depth quoted (args ++ ')' :: rest) = some (args, rest) := by
  induction args generalizing depth quoted with
  | nil =>
    simp only [balanced, Bool.and_eq_true, beq_iff_eq, Bool.not_eq_true'] at closes
    simp [readArgs, closes.1, closes.2]
  | cons c args ih =>
    rw [List.cons_append]
    unfold balanced at closes
    unfold readArgs
    split at closes
    · next mark => rw [if_pos mark, ih closes]; rfl
    · next mark =>
      rw [if_neg mark]
      split at closes
      · next inside => rw [if_pos inside, ih closes]; rfl
      · next outside =>
        rw [if_neg outside]
        split at closes
        · next opens => rw [if_pos opens, ih closes]; rfl
        · next opens =>
          rw [if_neg opens]
          split at closes
          · next shuts =>
            rw [if_pos shuts]
            cases depth with
            | zero => simp at closes
            | succ depth => simp [ih closes]
          · next shuts => rw [if_neg shuts, ih closes]; rfl

theorem readArgs_sound {depth : Nat} {quoted : Bool} {cs args rest : List Char}
    (read : readArgs depth quoted cs = some (args, rest)) : balanced depth quoted args = true := by
  induction cs generalizing depth quoted args with
  | nil => simp [readArgs] at read
  | cons c cs ih =>
    have step {d : Nat} {q : Bool}
        (read : (readArgs d q cs).map (fun found => (c :: found.1, found.2)) = some (args, rest)) :
        ∃ more, args = c :: more ∧ balanced d q more = true := by
      obtain ⟨⟨more, r⟩, found, same⟩ := Option.map_eq_some_iff.1 read
      simp only [Prod.mk.injEq] at same
      obtain ⟨rfl, rfl⟩ := same
      exact ⟨more, rfl, ih found⟩
    unfold readArgs at read
    split at read
    · obtain ⟨more, rfl, closes⟩ := step read
      simp_all [balanced]
    · split at read
      · obtain ⟨more, rfl, closes⟩ := step read
        simp_all [balanced]
      · split at read
        · obtain ⟨more, rfl, closes⟩ := step read
          simp_all [balanced]
        · split at read
          · cases depth with
            | zero =>
              simp only [Option.some.injEq, Prod.mk.injEq] at read
              simp_all [balanced]
            | succ depth =>
              obtain ⟨more, rfl, closes⟩ := step read
              simp_all [balanced]
          · obtain ⟨more, rfl, closes⟩ := step read
            simp_all [balanced]

theorem readDefinition_complete {d : Definition} {rest : List Char} (wellFormed : d.WellFormed)
    (ends : Stops inLine rest) : readDefinition (d.text ++ rest) = some (d, rest) := by
  have behind : (d.text ++ rest).dropWhile isInlineBlank = '=' :: (d.lead ++ d.body ++ d.tail ++ rest) := by
    rw [Definition.text, List.append_assoc, List.cons_append]
    exact dropWhile_run wellFormed.gap (by simp [isInlineBlank])
  have before : (d.text ++ rest).takeWhile isInlineBlank = d.gap := by
    rw [Definition.text, List.append_assoc, List.cons_append]
    exact takeWhile_run wellFormed.gap (by simp [isInlineBlank])
  unfold readDefinition
  rw [behind]
  simp only [takeWhile_run wellFormed.line ends, dropWhile_run wellFormed.line ends, before]
  rw [← wellFormed.lead, ← wellFormed.body, List.append_assoc d.lead, ← List.length_append,
    ← List.append_assoc, List.drop_left]

theorem readDefinition_sound {cs rest : List Char} {d : Definition} (read : readDefinition cs = some (d, rest)) :
    d.WellFormed ∧ Stops inLine rest := by
  unfold readDefinition at read
  split at read
  · next after behind =>
    simp only [Option.some.injEq, Prod.mk.injEq] at read
    obtain ⟨rfl, rfl⟩ := read
    have whole := append_drop_of_initial (lead_append_trim_initial (after.takeWhile inLine))
    rw [List.length_append] at whole
    refine ⟨⟨fun _ => List.mem_takeWhile_imp, ?_, ?_, ?_⟩, stops_dropWhile _ _⟩
    · intro c member
      simp only [whole] at member
      exact List.mem_takeWhile_imp member
    · simp only [whole]
    · simp only [whole]
  · simp at read

theorem readDefinition_eq_none {cs : List Char} :
    readDefinition cs = none ↔ Stops (· == '=') (cs.dropWhile isInlineBlank) := by
  unfold readDefinition
  split
  · next after behind => simp [behind]
  · next other =>
    cases rest : cs.dropWhile isInlineBlank with
    | nil => simp
    | cons c after =>
      have different : c ≠ '=' := fun same => other after (same ▸ rest)
      simp [different]

end Token
end Gridbook
