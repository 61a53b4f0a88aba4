import Gridbook.Proofs.Placement
import Mathlib.Data.List.Infix

/-!
Constructs that are not closed. Such a construct takes the rest of the text, so it is the last token, and its problem
the last diagnostic. Nothing before it looks into it: the text up to it is read to the same tables and to the
diagnostics before that one.
-/
namespace Gridbook

open Text

namespace Problem

def isUnclosed : Problem → Bool
  | unclosedName | unclosedTableName | unclosedFieldName | unclosedArguments _ => true
  | emptyDecoratorName | missingTableName | strayField _ | strayBlock _ => false

theorem startsWith_unterminated (problem : Problem) :
    problem.message.startsWith "unterminated" = problem.isUnclosed := by
  rw [Bool.eq_iff_iff, String.startsWith_string_iff]
  unfold message isUnclosed BlockKind.word
  rcases problem with _ | _ | _ | _ | _ | _ | _ | (_ | _)
  all_goals simp

end Problem

namespace Token

def openings : List (List Char) := [['!'], ['['], ['\x27'], Keyword.table.word.toList]

def StartsOpen (text : List Char) : Prop := ∃ start ∈ openings, start <+: text

def TakesAll (token : Token) (rest : List Char) : Prop :=
  ∀ problem taken, token = unclosed problem taken → problem.isUnclosed = true ∧ StartsOpen taken ∧ rest = []

theorem eq_unclosed {token : Token} (unclosed : token.isUnclosed = true) :
    ∃ problem taken, token = .unclosed problem taken := by
  cases token with
  | unclosed problem taken => exact ⟨problem, taken, rfl⟩
  | _ => simp [isUnclosed] at unclosed

theorem WellFormed.closed {token : Token} (wellFormed : token.WellFormed) : token.isUnclosed = false := by
  cases token with
  | unclosed problem taken => exact wellFormed.elim
  | _ => rfl

theorem takesAll_of_closed {token : Token} {rest : List Char} (closed : token.isUnclosed = false) :
    token.TakesAll rest := by
  rintro problem taken rfl
  simp [isUnclosed] at closed

theorem readTable_takesAll (cs : List Char) : (readTable cs).1.TakesAll (readTable cs).2 := by
  unfold readTable
  split
  · exact takesAll_of_closed rfl
  · split
    · split
      · exact takesAll_of_closed rfl
      · rintro problem taken ⟨⟩
        exact ⟨rfl, ⟨_, by simp [openings], List.prefix_append ..⟩, rfl⟩
    · exact takesAll_of_closed rfl

theorem readWord_takesAll (text cs : List Char) : (readWord text cs).1.TakesAll (readWord text cs).2 := by
  unfold readWord
  split
  · exact readTable_takesAll cs
  all_goals exact takesAll_of_closed rfl

theorem readField_takesAll (cs : List Char) : (readField cs).1.TakesAll (readField cs).2 := by
  unfold readField
  split
  · split <;> exact takesAll_of_closed rfl
  · rintro problem taken ⟨⟩
    exact ⟨rfl, ⟨['['], by simp [openings], by simp⟩, rfl⟩

theorem readDecorator_takesAll (cs : List Char) : (readDecorator cs).1.TakesAll (readDecorator cs).2 := by
  unfold readDecorator
  simp only
  split
  · exact takesAll_of_closed rfl
  · split
    · split
      · exact takesAll_of_closed rfl
      · rintro problem taken ⟨⟩
        exact ⟨rfl, ⟨['!'], by simp [openings], by simp⟩, rfl⟩
    · exact takesAll_of_closed rfl

theorem read_takesAll (c : Char) (cs : List Char) : (read c cs).1.TakesAll (read c cs).2 := by
  unfold read
  split
  · exact takesAll_of_closed rfl
  split
  · exact readDecorator_takesAll cs
  split
  · exact readField_takesAll cs
  split
  · split
    · exact takesAll_of_closed rfl
    · rintro problem taken ⟨⟩
      exact ⟨rfl, ⟨['\x27'], by simp [openings], by simp_all⟩, rfl⟩
  · exact readWord_takesAll _ _

/-- No keyword goes on in this way behind its first letter, so it parts what stands before it from what follows. -/
structure Parts (start : List Char) : Prop where
  shown : ∀ c ∈ start, isBlank c = false
  inside : ∀ c ∈ start, inLine c = true
  apart : ∀ keyword : Keyword, ∀ back ∈ keyword.word.toList.tail.tails, ¬start <+: back

theorem parts_of_mem {start : List Char}
    (known : start ∈ openings ++ [Keyword.key.word.toList, Keyword.dim.word.toList]) : Parts start := by
  refine ⟨?_, ?_, ?_⟩
  · have all : ∀ start ∈ openings ++ [Keyword.key.word.toList, Keyword.dim.word.toList],
        start.all (!isBlank ·) = true := by decide
    simpa using all start known
  · have all : ∀ start ∈ openings ++ [Keyword.key.word.toList, Keyword.dim.word.toList],
        start.all inLine = true := by decide
    simpa using all start known
  · have none : ∀ keyword : Keyword, ∀ back ∈ keyword.word.toList.tail.tails,
        ∀ start ∈ openings ++ [Keyword.key.word.toList, Keyword.dim.word.toList], ¬start <+: back := by
      rintro (_ | _ | _ | (_ | _) | _) <;> decide
    exact fun keyword back member => none keyword back member start known

def StartsApart (text : List Char) : Prop := ∃ start, Parts start ∧ start <+: text

theorem StartsApart.exists_cons {text : List Char} (starts : StartsApart text) :
    ∃ c more, text = c :: more ∧ isBlank c = false := by
  obtain ⟨start, parts, more, rfl⟩ := starts
  cases start with
  | nil => exact absurd List.nil_prefix (parts.apart .key [] (by decide))
  | cons c start => exact ⟨c, start ++ more, rfl, parts.shown c (by simp)⟩

theorem StartsOpen.startsApart {text : List Char} (starts : StartsOpen text) : StartsApart text := by
  obtain ⟨start, known, initial⟩ := starts
  exact ⟨start, parts_of_mem (List.mem_append_left _ known), initial⟩

/-- A line that ends a block because of its front does so without what opens behind it. -/
theorem endsBlock_of_append {line opened : List Char} (starts : StartsApart opened)
    (ends : endsBlock (line ++ opened) = true) : endsBlock line = true := by
  rw [endsBlock_eq] at ends ⊢
  cases front : trimStart line with
  | nil => rfl
  | cons c word =>
    have whole : trimStart (line ++ opened) = c :: word ++ opened := by
      rw [trimStart, List.dropWhile_append, ← trimStart, front]
      rfl
    simp only [whole, List.cons_append, Bool.or_eq_true] at ends ⊢
    refine ends.imp_right fun starter => ?_
    -- The keyword that ends the block cannot reach into what opens behind the line.
    have apart : firstWord (line ++ opened) = firstWord line := by
      rw [Option.any_eq_true] at starter
      obtain ⟨keyword, found, -⟩ := starter
      have written := word_of_ofWord? found
      rw [firstWord, whole] at written
      rw [firstWord, firstWord, whole, front]
      rcases takeWhile_append_cases (fun c => !isBlank c) (c :: word) opened with ⟨-, same⟩ | same
      · obtain ⟨start, parts, more, rfl⟩ := starts
        rw [same, List.takeWhile_append_of_pos (by simpa using parts.shown)] at written
        have back : start ++ more.takeWhile (!isBlank ·) ∈ keyword.word.toList.tail.tails := by
          rw [List.mem_tails, written]
          exact List.suffix_append word _
        exact absurd (List.prefix_append ..) (parts.apart keyword _ back)
      · exact same
    rwa [← apart]

theorem StartsSection.of_append {text opened : List Char} (next : StartsSection (text ++ opened))
    (starts : StartsApart opened) : StartsSection text := by
  unfold StartsSection at next ⊢
  rcases takeWhile_append_cases inLine text opened with ⟨inside, same⟩ | same
  · obtain ⟨start, parts, more, rfl⟩ := starts
    rw [same, List.takeWhile_append_of_pos parts.inside] at next
    rw [List.takeWhile_eq_self_iff.2 inside]
    exact endsBlock_of_append ⟨start, parts, List.prefix_append ..⟩ next
  · rwa [same] at next

/-- Where a token ends does not depend on what opens further behind it. -/
theorem EndsBefore.of_append {token : Token} {rest opened : List Char} (ends : token.EndsBefore (rest ++ opened))
    (starts : StartsApart opened) : token.EndsBefore rest := by
  obtain ⟨stops, further⟩ := ends
  refine ⟨stops.of_append, ?_⟩
  cases token with
  | field name definition =>
    cases definition with
    | some d => trivial
    | none =>
      simp only [List.dropWhile_append] at further ⊢
      split at further
      · next none => simp [List.isEmpty_iff.1 none]
      · exact further.of_append
  | block kind body =>
    obtain ⟨blank, stopsBlock⟩ := further
    constructor
    · intro c member
      refine blank c ?_
      rcases takeWhile_append_cases inLine rest opened with ⟨inside, same⟩ | same
      · rw [same]
        exact List.mem_append_left _ (List.takeWhile_subset _ member)
      · rwa [same]
    · intro c more found
      have next := stopsBlock c (more ++ opened) (by rw [List.dropWhile_append, found]; rfl)
      exact next.of_append starts
  | _ => trivial

end Token

namespace Item

/-- Follows the reading of a text token by token, up to one that is not closed. -/
theorem token_induction {motive : List Char → Prop}
    (blank : ∀ text, (∀ c ∈ text, isAsciiBlank c = true) → motive text)
    (closed : ∀ gap (token : Token) rest, (∀ c ∈ gap, isAsciiBlank c = true) → token.WellFormed →
      token.EndsBefore rest → motive rest → motive (gap ++ (token.text ++ rest)))
    (unclosed : ∀ gap problem taken, (∀ c ∈ gap, isAsciiBlank c = true) → problem.isUnclosed = true →
      Token.StartsOpen taken → read (gap ++ taken) = [⟨gap, .unclosed problem taken⟩] → motive (gap ++ taken))
    (text : List Char) : motive text := by
  induction text using read_induction with
  | blank text all => exact blank text all
  | token gap c cs all start ih =>
    have items : read (gap ++ c :: cs) = _ := read_cons all start
    have sound : Token.Sound (Token.read c cs).1 (Token.read c cs).2 := Token.read_sound start
    have takesAll := Token.read_takesAll c cs
    rw [← Token.text_read c cs] at items ⊢
    generalize Token.read c cs = result at *
    obtain ⟨token, rest⟩ := result
    rcases sound with open' | ⟨wellFormed, ends⟩
    · obtain ⟨problem, taken, rfl⟩ := Token.eq_unclosed open'
      obtain ⟨known, opens, rfl⟩ := takesAll problem taken rfl
      have done : read [] = [] := read_blank (by simp)
      simp only [Token.text, List.append_nil, done] at items ⊢
      exact unclosed gap problem taken all known opens items
    · exact closed gap token rest all wellFormed ends ih

/-- The text is read up to `before`; `taken`, which stands behind it, opens a construct that is not closed. -/
structure BreaksOff (text before gap taken : List Char) (problem : Problem) : Prop where
  parts : text = before ++ taken
  items : read text = read before ++ [⟨gap, .unclosed problem taken⟩]
  gap : texts (read before) ++ gap = before
  closed : ∀ item ∈ read before, item.token.isUnclosed = false
  problem : problem.isUnclosed = true
  opens : Token.StartsOpen taken

theorem closed_or_breaksOff (text : List Char) :
    (∀ item ∈ read text, item.token.isUnclosed = false) ∨
      ∃ before gap taken problem, BreaksOff text before gap taken problem := by
  induction text using token_induction with
  | blank text blank => simp [read_blank blank]
  | closed gap token rest blank wellFormed ends ih =>
    have items := read_token blank wellFormed ends
    have closed := wellFormed.closed
    rcases ih with all | ⟨before, blanks, taken, problem, breaks⟩
    · refine .inl ?_
      rw [items]
      simpa [closed] using all
    · rw [breaks.parts] at ends
      have front : read (gap ++ (token.text ++ before)) = ⟨gap, token⟩ :: read before :=
        read_token blank wellFormed (ends.of_append breaks.opens.startsApart)
      refine .inr ⟨gap ++ (token.text ++ before), blanks, taken, problem, ?_, ?_, ?_, ?_, breaks.problem,
        breaks.opens⟩
      · rw [breaks.parts, List.append_assoc, List.append_assoc]
      · rw [items, front, breaks.items, List.cons_append]
      · rw [front, texts_cons, List.append_assoc, List.append_assoc, breaks.gap]
      · rw [front]
        simpa [closed] using breaks.closed
  | unclosed gap problem taken blank known opens items =>
    have before : read gap = [] := read_blank blank
    exact .inr ⟨gap, gap, taken, problem, rfl, by rw [items, before]; rfl, by simp [before], by simp [before], known,
      opens⟩

end Item

namespace Draft

/-- A closed token meets none of the problems of an unclosed one. -/
theorem step_diagnostics {draft : Draft} {placed : Placed} (closed : placed.token.isUnclosed = false)
    (clean : ∀ d ∈ draft.diagnostics, d.problem.isUnclosed = false) :
    ∀ d ∈ (draft.step placed).diagnostics, d.problem.isUnclosed = false := by
  have report {draft : Draft} {problem : Problem} (clean : ∀ d ∈ draft.diagnostics, d.problem.isUnclosed = false)
      (known : problem.isUnclosed = false) :
      ∀ d ∈ (draft.report placed.start problem).diagnostics, d.problem.isUnclosed = false := by
    simpa [Draft.report, known, or_imp, forall_and] using clean
  obtain ⟨start, token⟩ := placed
  cases token with
  | bang => exact report clean rfl
  | field name definition =>
    simp only [step, addField]
    split
    · exact report (by exact clean) rfl
    · exact clean
  | table gap name =>
    simp only [step, openTable]
    split
    · exact report (by exact clean) rfl
    · exact clean
  | block kind body =>
    simp only [step, addBlock]
    split
    · exact report clean rfl
    · exact clean
  | unclosed problem taken => simp [Token.isUnclosed] at closed
  | _ => exact clean

theorem foldl_diagnostics {tokens : List Placed} (closed : ∀ placed ∈ tokens, placed.token.isUnclosed = false)
    {draft : Draft} (clean : ∀ d ∈ draft.diagnostics, d.problem.isUnclosed = false) :
    ∀ d ∈ (tokens.foldl step draft).diagnostics, d.problem.isUnclosed = false := by
  induction tokens generalizing draft with
  | nil => exact clean
  | cons placed tokens ih =>
    exact ih (fun p member => closed p (by simp [member])) (step_diagnostics (closed placed (by simp)) clean)

/-- A text all of whose tokens are closed meets no such problem. -/
theorem diagnostics_ofChars {text : List Char} (closed : ∀ item ∈ Item.read text, item.token.isUnclosed = false) :
    ∀ d ∈ (Draft.ofChars text).diagnostics, d.problem.isUnclosed = false := by
  refine foldl_diagnostics ?_ (by simp)
  intro placed member
  obtain ⟨item, read, same⟩ := Item.exists_mem_of_mem_place member
  exact same ▸ closed item read

/-- The construct that is not closed adds its problem to what was read before it, and nothing else. -/
theorem ofChars_breaksOff {text before gap taken : List Char} {problem : Problem}
    (breaks : Item.BreaksOff text before gap taken problem) :
    Draft.ofChars text = (Draft.ofChars before).report (width before) problem := by
  have start : width (Item.texts (Item.read before)) + width gap = width before := by
    rw [← width_append, breaks.gap]
  simp [Draft.ofChars, Placed.ofChars, breaks.items, Item.place_append, Item.place, step, start]

end Draft

/-- At most one diagnostic says that a construct is not closed. It is the last one, and the text up to it is read to
the same tables and the other diagnostics. -/
theorem Sheet.read_unterminated (text : String) :
    (∀ d ∈ (Sheet.read text).diagnostics.dropLast, d.problem.message.startsWith "unterminated" = false) ∧
      ∀ d ∈ (Sheet.read text).diagnostics, d.problem.message.startsWith "unterminated" = true →
        (Sheet.read text).diagnostics.getLast? = some d ∧
          ∃ before after, text = before ++ after ∧ before.utf8ByteSize = d.offset ∧
            Sheet.read before = ⟨(Sheet.read text).tables, (Sheet.read text).diagnostics.dropLast⟩ := by
  simp only [Problem.startsWith_unterminated]
  rcases Item.closed_or_breaksOff text.toList with closed | ⟨before, gap, taken, problem, breaks⟩
  · have clean := Draft.diagnostics_ofChars closed
    refine ⟨fun d member => clean d (List.dropLast_subset _ member), ?_⟩
    intro d member unclosed
    have : d.problem.isUnclosed = false := clean d member
    simp [this] at unclosed
  · have draft := Draft.ofChars_breaksOff breaks
    have clean := Draft.diagnostics_ofChars breaks.closed
    have diagnostics : (Sheet.read text).diagnostics =
        (Draft.ofChars before).diagnostics ++ [⟨width before, problem⟩] := by
      rw [Sheet.read, Sheet.ofChars_eq, draft]
      rfl
    rw [diagnostics, List.dropLast_concat, List.getLast?_concat]
    refine ⟨clean, ?_⟩
    intro d member unclosed
    rcases List.mem_append.1 member with member | member
    · simp [clean d member] at unclosed
    · obtain rfl := List.mem_singleton.1 member
      refine ⟨rfl, String.ofList before, String.ofList taken, ?_, ?_, ?_⟩
      · rw [← String.ofList_append, ← breaks.parts, String.ofList_toList]
      · rw [← width_toList, String.toList_ofList]
      · rw [Sheet.read, Sheet.read, Sheet.ofChars_eq, Sheet.ofChars_eq, draft, String.toList_ofList]
        rfl

/-- The line that ends the block is the one with the construct that is not closed. -/
theorem Sheet.read_unterminated_block :
    ⟨28, .unclosedArguments "x"⟩ ∈ (Sheet.read "[é]\ntable a\noverride\n1,2\n  !x(\")\"").diagnostics ∧
      (Problem.unclosedArguments "x").message.startsWith "unterminated" = true ∧
      ∃ before after, "[é]\ntable a\noverride\n1,2\n  !x(\")\"" = before ++ after ∧ before.utf8ByteSize = 28 ∧
        Sheet.read before = ⟨(Sheet.read "[é]\ntable a\noverride\n1,2\n  !x(\")\"").tables,
          (Sheet.read "[é]\ntable a\noverride\n1,2\n  !x(\")\"").diagnostics.dropLast⟩ := by
  have found : ⟨28, .unclosedArguments "x"⟩ ∈
      (Sheet.read "[é]\ntable a\noverride\n1,2\n  !x(\")\"").diagnostics := by decide +kernel
  have fatal : (Problem.unclosedArguments "x").message.startsWith "unterminated" = true := by decide +kernel
  exact ⟨found, fatal, ((Sheet.read_unterminated _).2 _ found fatal).2⟩

end Gridbook
