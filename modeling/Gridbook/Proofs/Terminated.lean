import Gridbook.Batch.Editor
import Gridbook.Proofs.Returns

/-!
The line break that ends every sheet that is written. It can come behind any construct that is still open at the end
of a text, and each of them ends there as it ends at the end of the text. The one place that moves is that of an
empty expression: it stands behind the blanks after the equals sign, and the carriage return is one of them.
-/
namespace Gridbook

open Text

theorem Text.eq_append_cons_of_append {a b front back : List Char} {c : Char} (absent : c ∉ b)
    (same : a ++ b = front ++ c :: back) : ∃ middle, a = front ++ c :: middle ∧ back = middle ++ b := by
  rcases List.append_eq_append_iff.1 same with ⟨m, -, rfl⟩ | ⟨m, rfl, rest⟩
  · exact absurd (by simp) absent
  · cases m with
    | nil =>
      rw [List.nil_append] at rest
      exact absurd (by simp [← rest]) absent
    | cons d m =>
      obtain ⟨rfl, rfl⟩ := List.cons.inj rest
      exact ⟨m, rfl, rfl⟩

namespace Token

variable {token : Token} {problem : Problem} {rest cs more : List Char}

theorem EndsBefore.append_return (wellFormed : token.WellFormed) (ends : token.EndsBefore rest)
    (line : token.fillsLine = true → rest ≠ []) : token.EndsBefore (rest ++ ['\r']) := by
  have apart : Stops token.takes (rest ++ ['\r']) := by
    by_cases last : rest = []
    · have fills : token.fillsLine = true → inLine '\r' = false := fun fills => absurd last (line fills)
      simp [last, takes_blank wellFormed (by decide : isAsciiBlank '\r' = true) (by decide) fills]
    · exact (stops_append last).2 ends.1
  cases token with
  | field name definition =>
    refine ⟨apart, ?_⟩
    cases definition with
    | none =>
      have unset : Stops (· == '=') (rest.dropWhile isInlineBlank) := ends.2
      have stops : Stops isInlineBlank ['\r'] := by simp [isInlineBlank]
      dsimp only
      rw [(takeWhile_append_stops stops).2]
      exact unset.append (by simp)
    | some d => trivial
  | block kind body =>
    rcases line_cases rest with inside | ⟨line, more, inside, rfl⟩
    · rw [← List.append_nil rest, endsBefore_block_iff inside stops_nil] at ends
      rw [← List.append_nil (_ ++ _), endsBefore_block_iff (inLine_append_return inside) stops_nil]
      exact ⟨List.forall_mem_append.2 ⟨ends.1, List.forall_mem_singleton.2 (by decide)⟩, ends.2⟩
    · rw [endsBefore_block_iff inside stops_newline, stopsBlock_newline] at ends
      rw [List.append_assoc, List.cons_append, endsBefore_block_iff inside stops_newline, stopsBlock_newline]
      exact ⟨ends.1, (startsSection_append_blank fun c member => isBlank_return c (List.takeWhile_subset _ member)).2 ends.2⟩
  | _ => exact ⟨apart, trivial⟩

/-- A token ends before a line break at the end of the text, if it does not take in the carriage return. -/
theorem EndsBefore.append_break (wellFormed : token.WellFormed) (ends : token.EndsBefore rest)
    (line : token.fillsLine = true → rest ≠ []) : token.EndsBefore (rest ++ ['\r', '\n']) := by
  have ends := (ends.append_return wellFormed line).append_newline wellFormed fun _ => startsSection_nil
  rwa [List.append_assoc] at ends

theorem QuoteOpen.append (stays : QuoteOpen cs) (absent : '\x27' ∉ more) : QuoteOpen (cs ++ more) := by
  intro body rest same doubled ends
  obtain ⟨middle, rfl, rfl⟩ := eq_append_cons_of_append absent same
  exact stays body middle rfl doubled ends.of_append

theorem BracketOpen.append (stays : BracketOpen cs) (absent : ']' ∉ more) : BracketOpen (cs ++ more) := by
  intro name rest same
  obtain ⟨middle, rfl, -⟩ := eq_append_cons_of_append absent same
  exact stays name middle rfl

theorem ArgumentsOpen.append (stays : ArgumentsOpen cs) (absent : ')' ∉ more) : ArgumentsOpen (cs ++ more) := by
  intro args rest same
  obtain ⟨middle, rfl, -⟩ := eq_append_cons_of_append absent same
  exact stays args middle rfl

theorem IsOpen.append_break (opens : IsOpen problem cs) : IsOpen problem (cs ++ ['\r', '\n']) := by
  cases opens with
  | name stays => exact .name (stays.append (by decide))
  | tableName apart blank stays => simpa using IsOpen.tableName apart blank (stays.append (by decide))
  | fieldName stays => exact .fieldName (stays.append (by decide))
  | arguments nonempty inside stays => simpa using IsOpen.arguments nonempty inside (stays.append (by decide))

end Token

namespace Draft

def EndsEmpty (draft : Draft) (offset : Nat) : Prop :=
  ∃ table ∈ draft.current, ∃ field ∈ table.fields ++ table.totals, ∃ e ∈ field.expression, e.span = ⟨offset, offset⟩

theorem expression_declare_empty (pending : Pending) (table : String) (start : Nat) (name : List Char) {d : Definition}
    (empty : d.body = [] ∧ d.tail = []) :
    ∃ e ∈ (declare pending table start name d).expression,
      e.span = ⟨start + width (Token.field name d).text, start + width (Token.field name d).text⟩ := by
  refine ⟨_, rfl, ?_⟩
  simp [Token.text, Definition.text, empty, Nat.add_assoc]

/-- A carriage return at the end of its line changes nothing about a token, unless it moves an empty expression. -/
theorem step_withReturn (draft : Draft) (start : Nat) (token : Token) :
    draft.step ⟨start, token.withReturn⟩ = draft.step ⟨start, token⟩ ∨
      (draft.step ⟨start, token⟩).EndsEmpty (start + width token.text) := by
  cases token with
  | field name definition =>
    cases definition with
    | none => exact .inl rfl
    | some d =>
      by_cases empty : d.body = [] ∧ d.tail = []
      · cases current : draft.current with
        | none => simp [step, addField, current, Token.withReturn]
        | some table =>
          have declared := expression_declare_empty draft.pending table.name start name empty
          refine .inr ⟨_, by simp only [step, addField, current]; rfl, _, ?_, declared⟩
          by_cases totals : draft.inTotals = true <;> simp [totals]
      · refine .inl ?_
        simp only [step, addField, Token.withReturn, Definition.withReturn, if_neg empty]
        rfl
  | _ => exact .inl rfl

end Draft

namespace Item

/-- A line break at the end of a text leaves the draft as it is, unless it moves an empty expression there. -/
theorem foldl_append_break (text : List Char) (offset : Nat) (draft : Draft) :
    (place offset (read (text ++ ['\r', '\n']))).foldl Draft.step draft =
        (place offset (read text)).foldl Draft.step draft ∨
      ((place offset (read text)).foldl Draft.step draft).EndsEmpty (offset + width text) := by
  induction text using grammar_induction generalizing offset draft with
  | blank text all =>
    have longer : ∀ c ∈ text ++ ['\r', '\n'], isAsciiBlank c = true :=
      List.forall_mem_append.2 ⟨all, List.all_eq_true.1 (by decide)⟩
    rw [read_blank all, read_blank longer]
    exact .inl rfl
  | closed gap token rest blank wellFormed ends ih =>
    rw [read_token blank wellFormed ends]
    -- Only a comment or definition at the very end of the text takes in the return, and leaves a line feed.
    by_cases taken : token.fillsLine = true ∧ rest = []
    · obtain ⟨fills, rfl⟩ := taken
      have longer : gap ++ (token.text ++ []) ++ ['\r', '\n'] = gap ++ (token.withReturn.text ++ ['\n']) := by
        simp [Token.text_withReturn fills]
      have blankLine : read ['\n'] = [] := read_blank (by simp [Token.isAsciiBlank_newline])
      rw [longer, read_token blank wellFormed.withReturn (Token.endsBefore_withReturn fills), read_nil, blankLine]
      simpa [place, Nat.add_assoc] using draft.step_withReturn (offset + width gap) token
    · have ends := ends.append_break wellFormed fun fills last => taken ⟨fills, last⟩
      have behind := ih (offset + width gap + width token.text) (draft.step ⟨offset + width gap, token⟩)
      rw [List.append_assoc, List.append_assoc, read_token blank wellFormed ends]
      simpa [place, Nat.add_assoc] using behind
  | opened gap problem text blank opens =>
    refine .inl ?_
    rw [read_open blank opens, List.append_assoc, read_open blank opens.append_break]
    rfl

end Item

theorem terminate_toList (text : String) :
    ['\r', '\n'] <:+ text.toList ∧ terminate text = text ∨ (terminate text).toList = text.toList ++ ['\r', '\n'] := by
  unfold terminate
  split
  · next ends => exact .inl ⟨List.isSuffixOf_iff_suffix.1 ends, rfl⟩
  · exact .inr (by simp)

theorem terminate_suffix (text : String) : ['\r', '\n'] <:+ (terminate text).toList := by
  rcases terminate_toList text with ⟨ends, same⟩ | longer
  · rwa [same]
  · exact ⟨text.toList, longer.symm⟩

theorem terminate_of_suffix {text : String} (ends : ['\r', '\n'] <:+ text.toList) : terminate text = text :=
  if_pos (List.isSuffixOf_iff_suffix.2 ends)

/-- A text and what is written for it are read as the same sheet, with every range and every diagnostic, unless the
text ends with an empty expression. -/
theorem Sheet.read_terminate (text : String) :
    ((∀ table ∈ (Sheet.read text).tables, ∀ field ∈ table.fields ++ table.totals, ∀ e ∈ field.expression,
        ¬(e.span.start = e.span.stop ∧ e.span.stop = text.utf8ByteSize)) →
      Sheet.read (terminate text) = Sheet.read text) ∧
    ['\r', '\n'] <:+ (terminate text).toList ∧ terminate (terminate text) = terminate text := by
  refine ⟨?_, terminate_suffix text, terminate_of_suffix (terminate_suffix text)⟩
  intro full
  rcases terminate_toList text with ⟨-, same⟩ | longer
  · rw [same]
  · rcases Item.foldl_append_break text.toList 0 {} with same | ⟨table, current, field, member, e, expression, place⟩
    · rw [Sheet.read, longer]
      exact congrArg Draft.finish same
    · have listed : table ∈ (Sheet.read text).tables := by
        refine List.mem_append_right _ ?_
        exact Option.mem_toList.2 current
      refine absurd ?_ (full table listed field member e expression)
      rw [place, Nat.zero_add, width_toList]
      exact ⟨rfl, rfl⟩

/-- The comment takes in the carriage return, and the empty expression above it stays where it is. -/
theorem Sheet.read_terminate_remark :
    let text := "table t\n[a] =\n[b] = x # note"
    (∀ table ∈ (Sheet.read text).tables, ∀ field ∈ table.fields ++ table.totals, ∀ e ∈ field.expression,
        ¬(e.span.start = e.span.stop ∧ e.span.stop = text.utf8ByteSize)) ∧
      Sheet.read (terminate text) = Sheet.read text :=
  have full := by decide +kernel
  ⟨full, (Sheet.read_terminate _).1 full⟩

end Gridbook
