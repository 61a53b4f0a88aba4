import Gridbook.Proofs.Unclosed

/-!
Constructs that are not closed, said without reading. A text that opens one and does not close it is read as a single
token (`read_isOpen`), and no other token takes the rest of a text for want of an end (`isOpen_of_read`). With
`Token.WellFormed` for closed tokens this says of every text how it is read (`Item.grammar_induction`).
-/
namespace Gridbook

open Text

namespace Token

/-- No quote in the text closes a name: it is one of a pair, or a line end comes before it. -/
def QuoteOpen (cs : List Char) : Prop :=
  ∀ body rest, cs = body ++ '\x27' :: rest → isDoubled body = true → ¬Stops (· == '\x27') rest

def BracketOpen (cs : List Char) : Prop :=
  ∀ name rest, cs = name ++ ']' :: rest → '\n' ∈ name

def ArgumentsOpen (cs : List Char) : Prop :=
  ∀ args rest, cs = args ++ ')' :: rest → balanced 0 false args = false

inductive IsOpen : Problem → List Char → Prop where
  | name {cs : List Char} (unclosed : QuoteOpen cs) : IsOpen .unclosedName ('\x27' :: cs)
  | tableName {gap cs : List Char} (apart : gap ≠ []) (blank : ∀ c ∈ gap, isInlineBlank c = true)
      (unclosed : QuoteOpen cs) : IsOpen .unclosedTableName (Keyword.table.word.toList ++ (gap ++ '\x27' :: cs))
  | fieldName {cs : List Char} (unclosed : BracketOpen cs) : IsOpen .unclosedFieldName ('[' :: cs)
  | arguments {name cs : List Char} (nonempty : name ≠ []) (inside : ∀ c ∈ name, isDecoratorNameChar c = true)
      (unclosed : ArgumentsOpen cs) :
      IsOpen (.unclosedArguments (String.ofList name)) ('!' :: (name ++ '(' :: cs))

theorem quoteOpen_iff {cs : List Char} : QuoteOpen cs ↔ readQuoted cs = none := by
  constructor
  · intro unclosed
    cases read : readQuoted cs with
    | none => rfl
    | some found =>
      obtain ⟨name, rest⟩ := found
      obtain ⟨body, doubled, rfl, ends⟩ := readQuoted_sound read
      have parts : cs = body ++ '\x27' :: rest := by simpa using (readQuoted_append read).symm
      exact absurd ends (unclosed body rest parts doubled)
  · rintro none body rest rfl doubled ends
    simp [readQuoted_complete doubled ends] at none

theorem bracketOpen_iff {cs : List Char} :
    BracketOpen cs ↔ Stops (· == ']') (cs.dropWhile fun c => c != ']' && c != '\n') := by
  have parts := List.takeWhile_append_dropWhile (p := fun c => c != ']' && c != '\n') (l := cs)
  constructor
  · intro unclosed c first
    obtain ⟨rest, behind⟩ := List.head?_eq_some_iff.1 first
    by_contra closes
    obtain rfl : c = ']' := by simpa using closes
    rw [behind] at parts
    have inside := List.mem_takeWhile_imp (unclosed _ rest parts.symm)
    simp at inside
  · rintro stops name rest rfl
    have bracket : Stops (fun c => c != ']' && c != '\n') (']' :: rest) := by simp
    rw [(takeWhile_append_stops bracket).2] at stops
    have outside := stops_dropWhile (fun c => c != ']' && c != '\n') name
    cases behind : name.dropWhile (fun c => c != ']' && c != '\n') with
    | nil => simp [behind] at stops
    | cons c more =>
      have member : c ∈ name := (List.dropWhile_subset _) (by rw [behind]; simp)
      rw [behind] at stops outside
      have newline : c = '\n' := by
        simp only [List.cons_append, stops_cons, beq_eq_false_iff_ne] at stops
        simpa [stops] using outside
      exact newline ▸ member

theorem argumentsOpen_iff {cs : List Char} : ArgumentsOpen cs ↔ readArgs 0 false cs = none := by
  constructor
  · intro unclosed
    cases read : readArgs 0 false cs with
    | none => rfl
    | some found =>
      have closes := unclosed found.1 found.2 (readArgs_append read).symm
      simp [readArgs_sound read] at closes
  · rintro none args rest rfl
    by_contra closes
    simp [readArgs_complete (by simpa using closes)] at none

variable {problem : Problem} {text taken rest cs : List Char} {c : Char}

theorem isOpen_readTable (start : Stops (!isWordEnd ·) cs) (read : (readTable cs).1 = unclosed problem taken) :
    IsOpen problem taken := by
  have parts := List.takeWhile_append_dropWhile (p := isInlineBlank) (l := cs)
  unfold readTable at read
  split at read
  · cases read
  · next c rest behind =>
    rw [behind] at parts
    split at read
    · next quote =>
      split at read
      · cases read
      · next none =>
        cases read
        subst quote
        rw [← parts]
        refine .tableName ?_ (fun _ => List.mem_takeWhile_imp) (quoteOpen_iff.2 none)
        -- Without blanks the quote would have been a part of the word.
        intro empty
        rw [empty, List.nil_append] at parts
        rw [← parts] at start
        simp [isWordEnd_quote] at start
    · cases read

theorem isOpen_readWord {word : List Char} (stops : Stops (!isWordEnd ·) cs)
    (read : (readWord word cs).1 = unclosed problem taken) : IsOpen problem taken := by
  unfold readWord at read
  split at read
  · exact isOpen_readTable stops read
  all_goals cases read

theorem isOpen_readField (read : (readField cs).1 = unclosed problem taken) : IsOpen problem taken := by
  unfold readField at read
  split at read
  · split at read <;> cases read
  · next other =>
    cases read
    refine .fieldName (bracketOpen_iff.2 ?_)
    intro c first
    obtain ⟨rest, same⟩ := List.head?_eq_some_iff.1 first
    have : c ≠ ']' := by
      rintro rfl
      exact other rest same
    simpa using this

theorem isOpen_readDecorator (read : (readDecorator cs).1 = unclosed problem taken) : IsOpen problem taken := by
  have parts := List.takeWhile_append_dropWhile (p := isDecoratorNameChar) (l := cs)
  unfold readDecorator at read
  simp only at read
  split at read
  · cases read
  · next nonempty =>
    split at read
    · next rest found =>
      split at read
      · cases read
      · next none =>
        cases read
        rw [found] at parts
        conv => arg 2; rw [← parts]
        exact .arguments (by simpa using nonempty) (fun _ => List.mem_takeWhile_imp) (argumentsOpen_iff.2 none)
    · cases read

theorem isOpen_of_read (start : isAsciiBlank c = false) (read : (read c cs).1 = unclosed problem taken) :
    IsOpen problem taken := by
  unfold Token.read at read
  split at read
  · cases read
  split at read
  · exact isOpen_readDecorator read
  split at read
  · exact isOpen_readField read
  split at read
  · next quote =>
    split at read
    · cases read
    · next none =>
      cases read
      subst quote
      exact .name (quoteOpen_iff.2 none)
  · exact isOpen_readWord (stops_dropWhile _ _) read

theorem read_isOpen (opens : IsOpen problem text) (same : text = c :: cs) :
    read c cs = (unclosed problem text, []) := by
  cases opens with
  | name stays =>
    have none := quoteOpen_iff.1 stays
    obtain ⟨rfl, rfl⟩ := List.cons.inj same
    simp [read, none]
  | @tableName gap rest apart blank stays =>
    have none := quoteOpen_iff.1 stays
    obtain ⟨d, gap, rfl⟩ := List.exists_cons_of_ne_nil apart
    have wordEnd : isWordEnd d = true :=
      isWordEnd_of_isAsciiBlank (isAsciiBlank_of_isInlineBlank (blank d (by simp)))
    have stops : Stops (!isWordEnd ·) (d :: gap ++ '\x27' :: rest) := by simp [wordEnd]
    have quote : Stops isInlineBlank ('\x27' :: rest) := by simp [isInlineBlank]
    rw [read_keyword stops same, readWord, ofWord?_word]
    simp only [readTable, takeWhile_run blank quote, dropWhile_run blank quote, none]
    rfl
  | @fieldName rest stays =>
    have none := bracketOpen_iff.1 stays
    obtain ⟨rfl, rfl⟩ := List.cons.inj same
    have field : readField rest = (unclosed .unclosedFieldName ('[' :: rest), []) := by
      unfold readField
      split
      · next found => simp [found] at none
      · rfl
    simp [read, field]
  | @arguments name rest nonempty inside stays =>
    have none := argumentsOpen_iff.1 stays
    obtain ⟨rfl, rfl⟩ := List.cons.inj same
    have stops : Stops isDecoratorNameChar ('(' :: rest) := by simp [isDecoratorNameChar]
    simp [read, readDecorator, takeWhile_run inside stops, dropWhile_run inside stops, nonempty, none]

theorem IsOpen.exists_cons (opens : IsOpen problem text) : ∃ c cs, text = c :: cs ∧ isAsciiBlank c = false := by
  cases opens with
  | name => exact ⟨'\x27', _, rfl, by decide⟩
  | tableName => exact ⟨'t', _, rfl, by decide⟩
  | fieldName => exact ⟨'[', _, rfl, by decide⟩
  | arguments => exact ⟨'!', _, rfl, by decide⟩

end Token

namespace Item

theorem read_open {gap text : List Char} {problem : Problem} (blank : ∀ c ∈ gap, isAsciiBlank c = true)
    (opens : Token.IsOpen problem text) : read (gap ++ text) = [⟨gap, .unclosed problem text⟩] := by
  obtain ⟨c, cs, same, start⟩ := opens.exists_cons
  rw [same, read_cons blank start, Token.read_isOpen opens same, ← same, read_nil]

/-- Follows a text token by token, up to its end or to a construct that is not closed. -/
theorem grammar_induction {motive : List Char → Prop}
    (blank : ∀ text, (∀ c ∈ text, isAsciiBlank c = true) → motive text)
    (closed : ∀ gap (token : Token) rest, (∀ c ∈ gap, isAsciiBlank c = true) → token.WellFormed →
      token.EndsBefore rest → motive rest → motive (gap ++ (token.text ++ rest)))
    (opened : ∀ gap problem text, (∀ c ∈ gap, isAsciiBlank c = true) → Token.IsOpen problem text →
      motive (gap ++ text))
    (text : List Char) : motive text := by
  induction text using read_induction with
  | blank text all => exact blank text all
  | token gap c cs all start ih =>
    have sound : Token.Sound (Token.read c cs).1 (Token.read c cs).2 := Token.read_sound start
    rw [← Token.text_read c cs]
    rcases sound with unclosed | ⟨wellFormed, ends⟩
    · obtain ⟨problem, taken, same⟩ := Token.eq_unclosed unclosed
      obtain ⟨-, -, done⟩ := Token.read_takesAll c cs problem taken same
      rw [same, done, List.append_nil]
      exact opened gap problem taken all (Token.isOpen_of_read start same)
    · exact closed gap _ _ all wellFormed ends ih

end Item
end Gridbook
