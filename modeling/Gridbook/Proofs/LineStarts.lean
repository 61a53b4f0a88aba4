import Gridbook.Proofs.LineEnds

/-!
The start of a line. Whatever follows a text that ends with a line end, the tokens of the text are read as they are,
up to the last one: that can be a block, which goes on with the lines that follow, or a construct that is not closed.
Of the latter only the arguments of a decorator can still be closed by what follows.
-/
namespace Gridbook

open Text

namespace Text

def EndsLine (cs : List Char) : Prop := ∀ c ∈ cs.getLast?, c = '\n'

variable {a b cs : List Char}

theorem EndsLine.of_append (ends : EndsLine (a ++ b)) : EndsLine b := by
  intro c last
  refine ends c ?_
  rw [List.getLast?_append, Option.mem_def.1 last]
  rfl

theorem EndsLine.exists_newline (ends : EndsLine cs) (nonempty : cs ≠ []) : ∃ init, cs = init ++ ['\n'] := by
  rcases List.eq_nil_or_concat cs with rfl | ⟨init, c, rfl⟩
  · exact absurd rfl nonempty
  · exact ⟨init, by rw [List.concat_eq_append, ends c (by simp)]⟩

/-- A text that ends a line and is not empty has a first line, and its rest ends a line. -/
theorem EndsLine.exists_line (ends : EndsLine cs) (nonempty : cs ≠ []) :
    ∃ line more, (∀ c ∈ line, Token.inLine c = true) ∧ cs = line ++ '\n' :: more ∧ EndsLine more := by
  rcases line_cases cs with inside | ⟨line, more, inside, rfl⟩
  · obtain ⟨init, rfl⟩ := ends.exists_newline nonempty
    exact absurd (inside '\n' (by simp)) (by decide)
  · rw [List.append_cons] at ends
    exact ⟨line, more, inside, rfl, ends.of_append⟩

end Text

namespace Token

variable {token : Token} {problem : Problem} {cs rest line more : List Char}

theorem inLine_of_isInlineBlank {c : Char} (blank : isInlineBlank c = true) : inLine c = true := by
  simp only [isInlineBlank, Bool.or_eq_true, beq_iff_eq] at blank
  rcases blank with rfl | rfl <;> decide

theorem inLine_of_not_isWordEnd {c : Char} (inside : isWordEnd c = false) : inLine c = true := by
  by_contra newline
  obtain rfl : c = '\n' := by simpa [inLine] using newline
  exact absurd inside (by decide)

theorem inLine_keyword (keyword : Keyword) : ∀ c ∈ keyword.word.toList, inLine c = true :=
  fun c member => inLine_of_not_isWordEnd ((isBare_keyword keyword).inside c member)

theorem inLine_name {name : List Char} (legal : IsBare name ∨ IsQuoted name) : ∀ c ∈ name, inLine c = true := by
  rcases legal with bare | ⟨body, doubled, rfl⟩
  · exact fun c member => inLine_of_not_isWordEnd (bare.inside c member)
  · simpa [inLine, or_imp, forall_and] using inLine_of_isDoubled doubled

/-- Only arguments and blocks reach over a line end. -/
theorem inLine_text (wellFormed : token.WellFormed) (block : token.isBlock = false)
    (args : ∀ name args, token ≠ decorator name (some args)) : ∀ c ∈ token.text, inLine c = true := by
  have bracket : inLine '[' = true ∧ inLine ']' = true ∧ inLine '=' = true ∧ inLine '!' = true ∧ inLine '#' = true := by
    decide
  cases token with
  | comment body => exact List.forall_mem_cons.2 ⟨bracket.2.2.2.2, wellFormed⟩
  | decorator name args' =>
    cases args' with
    | some args' => exact absurd rfl (args name args')
    | none =>
      refine List.forall_mem_cons.2 ⟨bracket.2.2.2.1, fun c member => ?_⟩
      by_contra newline
      obtain rfl : c = '\n' := by simpa [inLine] using newline
      exact absurd (wellFormed.2.1 _ member) (by decide)
  | bang => exact List.forall_mem_singleton.2 bracket.2.2.2.1
  | field name definition =>
    obtain ⟨inside, wellFormed⟩ := wellFormed
    have name : ∀ c ∈ name, inLine c = true := fun c member => (Bool.and_eq_true_iff.1 (inside c member)).2
    cases definition with
    | none => simpa [text, bracket, or_imp, forall_and] using name
    | some d =>
      obtain ⟨gap, line, -, -⟩ := wellFormed d rfl
      have gap : ∀ c ∈ d.gap, inLine c = true := fun c member => inLine_of_isInlineBlank (gap c member)
      simpa [text, Definition.text, bracket, or_imp, forall_and, and_assoc] using ⟨name, gap, by
        simpa [or_imp, forall_and, and_assoc] using line⟩
  | table gap name =>
    obtain ⟨blank, legal⟩ := wellFormed
    have gap : ∀ c ∈ gap, inLine c = true := fun c member => inLine_of_isInlineBlank (blank c member)
    have name : ∀ c ∈ name, inLine c = true := by
      rcases legal with rfl | ⟨-, legal⟩
      · simp
      · exact inLine_name legal
    exact List.forall_mem_append.2 ⟨List.forall_mem_append.2 ⟨inLine_keyword .table, gap⟩, name⟩
  | key => exact inLine_keyword .key
  | dim => exact inLine_keyword .dim
  | block kind body => simp [isBlock] at block
  | total => exact inLine_keyword .total
  | word text => exact inLine_name (wellFormed.elim .inr fun bare => .inl bare.1)
  | unclosed problem text => exact wellFormed.elim

/-- No closed token ends with a line end. -/
theorem WellFormed.not_endsLine (wellFormed : token.WellFormed) : ¬EndsLine token.text := by
  intro ends
  have nonempty : token.text ≠ [] := by
    obtain ⟨c, cs, same, -⟩ := wellFormed.exists_cons
    simp [same]
  obtain ⟨init, same⟩ := ends.exists_newline nonempty
  have newline : '\n' ∈ token.text := by simp [same]
  by_cases block : token.isBlock = true
  · cases token with
    | block kind body =>
      have trimmed : Stops isAsciiBlank body.reverse := wellFormed.2.1
      rcases List.eq_nil_or_concat body with rfl | ⟨body, c, rfl⟩
      · simp only [text, List.append_nil] at newline
        exact absurd (inLine_keyword (.block kind) '\n' newline) (by decide)
      · rw [text, List.concat_eq_append, ← List.append_assoc] at same
        obtain rfl : c = '\n' := by simpa using congrArg List.getLast? same
        simp [isAsciiBlank_newline] at trimmed
    | _ => simp [isBlock] at block
  · by_cases args : ∃ name args, token = decorator name (some args)
    · obtain ⟨name, args, rfl⟩ := args
      have last := congrArg List.getLast? same
      simp [text, List.getLast?_cons] at last
    · refine absurd (inLine_text wellFormed (by simpa using block) ?_ '\n' newline) (by decide)
      intro name args' same
      exact args ⟨name, args', same⟩

theorem startsSection_append (ends : EndsLine more) (nonempty : more ≠ []) (cs : List Char) :
    StartsSection (more ++ cs) ↔ StartsSection more := by
  obtain ⟨line, back, inside, rfl, -⟩ := ends.exists_line nonempty
  rw [List.append_assoc, List.cons_append, StartsSection, StartsSection, takeWhile_run inside stops_newline,
    takeWhile_run inside stops_newline]

/-- Behind a whole line a token ends as it did, whatever follows. A block needs one line more. -/
theorem EndsBefore.append_line (ends : token.EndsBefore (line ++ '\n' :: more))
    (inside : ∀ c ∈ line, inLine c = true) (whole : EndsLine more) (next : token.isBlock = true → more ≠ [])
    (cs : List Char) : token.EndsBefore (line ++ '\n' :: more ++ cs) := by
  have apart : Stops token.takes (line ++ '\n' :: more ++ cs) := (stops_append (by simp)).2 ends.1
  cases token with
  | field name definition =>
    refine ⟨apart, ?_⟩
    cases definition with
    | none =>
      have unset : Stops (· == '=') ((line ++ '\n' :: more).dropWhile isInlineBlank) := ends.2
      have newline : Stops isInlineBlank ('\n' :: more) := by simp [isInlineBlank]
      have newline' : Stops isInlineBlank ('\n' :: (more ++ cs)) := by simp [isInlineBlank]
      rw [(takeWhile_append_stops newline).2] at unset
      dsimp only
      rw [List.append_assoc, List.cons_append, (takeWhile_append_stops newline').2]
      exact unset.of_append.append (by simp)
    | some d => trivial
  | block kind body =>
    rw [endsBefore_block_iff inside stops_newline, stopsBlock_newline] at ends
    rw [List.append_assoc, List.cons_append]
    exact (endsBefore_block_iff inside stops_newline).2
      ⟨ends.1, stopsBlock_newline.2 ((startsSection_append whole (next rfl) cs).2 ends.2)⟩
  | _ => exact ⟨apart, trivial⟩

theorem QuoteOpen.append_newline (stays : QuoteOpen cs) (newline : '\n' ∈ cs) (more : List Char) :
    QuoteOpen (cs ++ more) := by
  intro body rest same doubled ends
  have outside : '\n' ∉ body := fun member => absurd (inLine_of_isDoubled doubled _ member) (by decide)
  rcases List.append_eq_append_iff.1 same with ⟨m, rfl, -⟩ | ⟨m, rfl, behind⟩
  · exact outside (List.mem_append_left _ newline)
  · cases m with
    | nil => exact outside (by simpa using newline)
    | cons c m =>
      obtain ⟨rfl, rfl⟩ := List.cons.inj behind
      exact stays body m rfl doubled ends.of_append

theorem BracketOpen.append_newline (stays : BracketOpen cs) (newline : '\n' ∈ cs) (more : List Char) :
    BracketOpen (cs ++ more) := by
  intro name rest same
  rcases List.append_eq_append_iff.1 same with ⟨m, rfl, -⟩ | ⟨m, rfl, behind⟩
  · exact List.mem_append_left _ newline
  · cases m with
    | nil => simpa using newline
    | cons c m =>
      obtain ⟨rfl, -⟩ := List.cons.inj behind
      exact stays name m rfl

/-- A name that is not closed on its line stays so, whatever follows. -/
theorem IsOpen.append_newline (opens : IsOpen problem cs) (newline : '\n' ∈ cs)
    (name : ∀ decorator, problem ≠ .unclosedArguments decorator) (more : List Char) :
    IsOpen problem (cs ++ more) := by
  cases opens with
  | name stays => exact .name (stays.append_newline (by simpa using newline) more)
  | @tableName gap cs apart blank stays =>
    have inside : '\n' ∈ cs := by
      rcases List.mem_append.1 newline with member | member
      · exact absurd (inLine_keyword .table _ member) (by decide)
      · rcases List.mem_append.1 member with member | member
        · exact absurd (blank _ member) (by decide)
        · simpa using member
    simpa using IsOpen.tableName apart blank (stays.append_newline inside more)
  | fieldName stays => exact .fieldName (stays.append_newline (by simpa using newline) more)
  | arguments => exact absurd rfl (name _)

theorem goesOn_append {body lines : List Char} (goesOn : GoesOn body) (start : Stops inLine lines)
    (further : GoesOn lines) : GoesOn (body ++ lines) := by
  intro before line same
  rcases List.append_eq_append_iff.1 same with ⟨m, -, behind⟩ | ⟨m, rfl, behind⟩
  · exact further m line behind
  · cases m with
    | nil => exact further [] line (by simpa using behind.symm)
    | cons c m =>
      obtain ⟨rfl, rfl⟩ := List.cons.inj behind
      rw [List.append_eq, (takeWhile_append_stops start).1]
      exact goesOn before m rfl

/-- The lines with which a block would go on, and the rest. -/
theorem exists_blockLines (start : Stops inLine cs) :
    ∃ lines rest, cs = lines ++ rest ∧ Stops inLine lines ∧ GoesOn lines ∧ Stops inLine rest ∧ StopsBlock rest :=
  ⟨(blockLines cs).1, (blockLines cs).2, (blockLines_append cs).symm, blockLines_sound start⟩

end Token

namespace Item

/-- A block with its lines, up to one that ends it. Blanks at its end are left. -/
theorem read_block {gap body blanks rest : List Char} (kind : BlockKind) (blank : ∀ c ∈ gap, isAsciiBlank c = true)
    (front : Stops (!Token.isWordEnd ·) (body ++ blanks)) (goesOn : Token.GoesOn (body ++ blanks))
    (trimmed : Stops isAsciiBlank body.reverse) (all : ∀ c ∈ blanks, isAsciiBlank c = true)
    (ends : Stops Token.inLine rest) (stops : Token.StopsBlock rest) :
    read (gap ++ (kind.word.toList ++ (body ++ blanks ++ rest))) = ⟨gap, .block kind body⟩ :: read (blanks ++ rest) := by
  have inside := goesOn.inLine_of_blank fun c member => isBlank_of_isAsciiBlank (all c member)
  have goesOn := (Token.goesOn_append_blank fun c member => ⟨all c member, inside c member⟩).1 goesOn
  have wellFormed : (Token.block kind body).WellFormed := ⟨front.of_append, trimmed, goesOn⟩
  have ends : (Token.block kind body).EndsBefore (blanks ++ rest) :=
    (Token.endsBefore_block_iff inside ends).2 ⟨all, stops⟩
  rw [← read_token blank wellFormed ends, Token.text]
  simp only [List.append_assoc]

/-- The same with the lines of the block as they stand, for what depends on tokens only. -/
theorem exists_read_block {gap lines rest : List Char} (kind : BlockKind) (blank : ∀ c ∈ gap, isAsciiBlank c = true)
    (front : Stops (!Token.isWordEnd ·) lines) (goesOn : Token.GoesOn lines) (ends : Stops Token.inLine rest)
    (stops : Token.StopsBlock rest) :
    ∃ back, read (gap ++ (kind.word.toList ++ (lines ++ rest))) =
        ⟨gap, .block kind (dropEndWhile isAsciiBlank lines)⟩ :: back ∧ back.map (·.token) = Token.ofChars rest := by
  obtain ⟨blanks, whole, all⟩ := exists_run_dropEndWhile isAsciiBlank lines
  have trimmed := stops_dropEndWhile isAsciiBlank lines
  refine ⟨read (blanks ++ rest), ?_, Token.ofChars_run_append all rest⟩
  rw [whole] at front goesOn
  have block := read_block kind blank front goesOn trimmed all ends stops
  rwa [← whole] at block

/-- The part of a text that ends a line in which reading can depend on what follows. -/
inductive LastPart : List Char → Prop where
  | blank {blanks : List Char} (blank : ∀ c ∈ blanks, isAsciiBlank c = true) : LastPart blanks
  | block {gap lines : List Char} (kind : BlockKind) (blank : ∀ c ∈ gap, isAsciiBlank c = true)
      (front : Stops (!Token.isWordEnd ·) lines) (goesOn : Token.GoesOn lines) :
      LastPart (gap ++ (kind.word.toList ++ (lines ++ ['\n'])))
  | opened {gap text : List Char} {problem : Problem} (blank : ∀ c ∈ gap, isAsciiBlank c = true)
      (opens : Token.IsOpen problem text) (newline : '\n' ∈ text) : LastPart (gap ++ text)

theorem read_endsLine {text : List Char} (ends : EndsLine text) :
    ∃ items last, text = texts items ++ last ∧ LastPart last ∧
      ∀ more, read (text ++ more) = items ++ read (last ++ more) := by
  induction text using grammar_induction with
  | blank text all => exact ⟨[], text, rfl, .blank all, fun _ => rfl⟩
  | closed gap token rest blank wellFormed apart ih =>
    have endsRest : EndsLine (token.text ++ rest) := ends.of_append
    have nonempty : rest ≠ [] := by
      rintro rfl
      rw [List.append_nil] at endsRest
      exact wellFormed.not_endsLine endsRest
    have whole := endsRest.of_append
    obtain ⟨line, more, inside, same, endsMore⟩ := whole.exists_line nonempty
    by_cases last : token.isBlock = true ∧ more = []
    · -- The next line decides whether the block goes on.
      obtain ⟨isBlock, rfl⟩ := last
      cases token with
      | block kind body =>
        obtain ⟨front, -, goesOn⟩ := wellFormed
        rw [same, Token.endsBefore_block_iff inside Token.stops_newline] at apart
        have part : LastPart (gap ++ (kind.word.toList ++ ((body ++ line) ++ ['\n']))) := by
          refine .block kind blank (front.append ?_) ((Token.goesOn_append_blank ?_).2 goesOn)
          · intro c first
            simp [Token.isWordEnd_of_isAsciiBlank (apart.1 c (List.mem_of_mem_head? first))]
          · exact fun c member => ⟨apart.1 c member, inside c member⟩
        refine ⟨[], _, rfl, ?_, fun _ => rfl⟩
        simpa [same, Token.text] using part
      | _ => simp [Token.isBlock] at isBlock
    · obtain ⟨items, last', parts, part, further⟩ := ih whole
      refine ⟨⟨gap, token⟩ :: items, last', by simp [parts], part, fun cs => ?_⟩
      have apart : token.EndsBefore (rest ++ cs) := by
        rw [same] at apart ⊢
        exact apart.append_line inside endsMore (fun isBlock empty => last ⟨isBlock, empty⟩) cs
      rw [List.append_assoc, List.append_assoc, read_token blank wellFormed apart, further, List.cons_append]
  | opened gap problem text blank opens =>
    have nonempty : text ≠ [] := by
      obtain ⟨c, cs, same, -⟩ := opens.exists_cons
      simp [same]
    obtain ⟨init, same⟩ := ends.of_append.exists_newline nonempty
    exact ⟨[], _, rfl, .opened blank opens (by simp [same]), fun _ => rfl⟩

/-- A text that ends a line and leaves nothing open is read apart from a text whose first line ends a block. -/
theorem read_startsSection {text : List Char} (ends : EndsLine text)
    (closed : ∀ item ∈ read text, item.token.isUnclosed = false) :
    ∃ items blanks, text = texts items ++ blanks ∧ (∀ c ∈ blanks, isAsciiBlank c = true) ∧
      ∀ more, Token.StartsSection more → read (text ++ more) = items ++ read (blanks ++ more) := by
  obtain ⟨items, last, parts, part, further⟩ := read_endsLine ends
  cases part with
  | blank blank => exact ⟨items, last, parts, blank, fun more _ => further more⟩
  | @block gap lines kind blank front goesOn =>
    obtain ⟨blanks, whole, all⟩ := exists_run_dropEndWhile isAsciiBlank lines
    have trimmed := stops_dropEndWhile isAsciiBlank lines
    generalize dropEndWhile isAsciiBlank lines = body at whole trimmed
    subst whole
    refine ⟨items ++ [⟨gap, .block kind body⟩], blanks ++ ['\n'], ?_, ?_, fun more next => ?_⟩
    · simp [parts, texts, Item.text, Token.text]
    · exact List.forall_mem_append.2 ⟨all, List.forall_mem_singleton.2 Token.isAsciiBlank_newline⟩
    · have block := read_block kind blank front goesOn trimmed all Token.stops_newline (Token.stopsBlock_newline.2 next)
      simp only [List.append_assoc, List.cons_append, List.nil_append] at block ⊢
      rw [further]
      simp only [List.append_assoc, List.cons_append, List.nil_append, block]
  | @opened gap text' problem blank opens newline =>
    have last := further []
    rw [List.append_nil, List.append_nil, read_open blank opens] at last
    have isClosed := closed ⟨gap, .unclosed problem text'⟩ (by simp [last])
    simp [Token.isUnclosed] at isClosed

end Item

/-- A construct that is not closed is among the problems met. -/
theorem Sheet.exists_diagnostic {text gap taken : List Char} {items : List Item} {problem : Problem}
    (read : Item.read text = items ++ [⟨gap, .unclosed problem taken⟩]) :
    ∃ d ∈ (Sheet.ofChars text).diagnostics, d.problem = problem := by
  rw [Sheet.ofChars, read, Item.place_append, List.foldl_append]
  exact ⟨_, List.mem_append_right _ (List.mem_singleton_self _), rfl⟩

theorem Item.closed_of_diagnostics {text : List Char}
    (clean : ∀ d ∈ (Sheet.ofChars text).diagnostics, d.problem.isUnclosed = false) :
    ∀ item ∈ read text, item.token.isUnclosed = false := by
  rcases closed_or_breaksOff text with closed | ⟨before, gap, taken, problem, breaks⟩
  · exact closed
  · obtain ⟨d, found, rfl⟩ := Sheet.exists_diagnostic breaks.items
    exact absurd (clean d found) (by simp [breaks.problem])

end Gridbook
