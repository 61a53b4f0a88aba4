import Gridbook.Proofs.Unclosed

/-!
Sheets put one behind the other. A text in which everything is closed and nothing waits can be followed, on a new
line, by a text that starts with a table header: the two are read as if each stood alone, the second moved by the
width of the first and the line end.
-/
namespace Gridbook

open Text

def Span.shift (n : Nat) (span : Span) : Span := ⟨n + span.start, n + span.stop⟩

def Decorator.shift (n : Nat) (decorator : Decorator) : Decorator :=
  { decorator with span := decorator.span.shift n }

def Expression.shift (n : Nat) (expression : Expression) : Expression :=
  { expression with span := expression.span.shift n }

def Field.shift (n : Nat) (field : Field) : Field :=
  { field with
    decorators := field.decorators.map (Decorator.shift n)
    expression := field.expression.map (Expression.shift n)
    span := field.span.shift n
    nameSpan := field.nameSpan.shift n }

def Table.shift (n : Nat) (table : Table) : Table :=
  { table with
    decorators := table.decorators.map (Decorator.shift n)
    span := table.span.shift n
    nameSpan := table.nameSpan.shift n
    fields := table.fields.map (Field.shift n)
    totals := table.totals.map (Field.shift n)
    overrideSpan := table.overrideSpan.map (Span.shift n)
    applySpan := table.applySpan.map (Span.shift n) }

def Diagnostic.shift (n : Nat) (diagnostic : Diagnostic) : Diagnostic :=
  { diagnostic with offset := n + diagnostic.offset }

def Sheet.shift (n : Nat) (sheet : Sheet) : Sheet :=
  ⟨sheet.tables.map (Table.shift n), sheet.diagnostics.map (Diagnostic.shift n)⟩

instance : Append Sheet :=
  ⟨fun front back => ⟨front.tables ++ back.tables, front.diagnostics ++ back.diagnostics⟩⟩

theorem Sheet.append_eq (front back : Sheet) :
    front ++ back = ⟨front.tables ++ back.tables, front.diagnostics ++ back.diagnostics⟩ := rfl

/-- No decorator and no modifier waits for its table or field. -/
def Pending.isSettled (pending : Pending) : Bool :=
  pending.decorators.isEmpty && !pending.isKey && !pending.isDim

def Pending.shift (n : Nat) (pending : Pending) : Pending :=
  { pending with start := pending.start.map (n + ·), decorators := pending.decorators.map (Decorator.shift n) }

@[simp] theorem Pending.shift_empty (n : Nat) : Pending.shift n {} = {} := rfl

theorem Pending.mark_shift (n start : Nat) (pending : Pending) :
    (pending.shift n).mark (n + start) = (pending.mark start).shift n := by
  cases first : pending.start <;> simp [Pending.mark, Pending.shift, first]

theorem Pending.getD_shift (n start : Nat) (pending : Pending) :
    (pending.shift n).start.getD (n + start) = n + pending.start.getD start := by
  cases first : pending.start <;> simp [Pending.shift, first]

def Placed.shift (n : Nat) (placed : Placed) : Placed := ⟨n + placed.start, placed.token⟩

theorem Item.place_shift (n offset : Nat) (items : List Item) :
    place (n + offset) items = (place offset items).map (Placed.shift n) := by
  induction items generalizing offset with
  | nil => rfl
  | cons item items ih => simp [place, Placed.shift, ← ih, Nat.add_assoc]

namespace Draft

/-- The draft of a text that stands at offset `n`, behind a text that was read to `front`. -/
def behind (front : Sheet) (n : Nat) (draft : Draft) : Draft where
  closed := front.tables ++ draft.closed.map (Table.shift n)
  current := draft.current.map (Table.shift n)
  inTotals := draft.inTotals
  pending := draft.pending.shift n
  diagnostics := front.diagnostics ++ draft.diagnostics.map (Diagnostic.shift n)

variable (front : Sheet) (n : Nat) (draft : Draft) (start : Nat)

theorem tables_behind : (draft.behind front n).tables = front.tables ++ draft.tables.map (Table.shift n) := by
  cases current : draft.current <;> simp [tables, behind, current]

theorem pending_behind : (draft.behind front n).pending = draft.pending.shift n := rfl

theorem finish_behind : (draft.behind front n).finish = front ++ draft.finish.shift n := by
  rw [Sheet.append_eq, finish, tables_behind]
  rfl

theorem report_behind (problem : Problem) :
    (draft.behind front n).report (n + start) problem = (draft.report start problem).behind front n := by
  simp [report, behind, Diagnostic.shift]

theorem addDecorator_behind (name : List Char) (args : Option (List Char)) :
    (draft.behind front n).addDecorator (n + start) name args =
      (draft.addDecorator start name args).behind front n := by
  simp only [addDecorator, pending_behind, Pending.mark_shift]
  simp [behind, Pending.shift, Pending.mark, Decorator.shift, Span.shift, Nat.add_assoc]

theorem openTable_behind (gap name : List Char) :
    (draft.behind front n).openTable (n + start) gap name = (draft.openTable start gap name).behind front n := by
  simp only [openTable, tables_behind, pending_behind, Pending.getD_shift]
  split
  · simp [report, behind, Diagnostic.shift]
  · simp [behind, Table.shift, Span.shift, Nat.add_assoc, Pending.shift]

theorem declare_shift (pending : Pending) (table : String) (name : List Char) (definition : Option Definition) :
    declare (pending.shift n) table (n + start) name definition =
      (declare pending table start name definition).shift n := by
  unfold declare
  rw [Pending.getD_shift]
  cases definition <;> simp [Field.shift, Expression.shift, Span.shift, Pending.shift, Nat.add_assoc]

theorem addField_behind (name : List Char) (definition : Option Definition) :
    (draft.behind front n).addField (n + start) name definition =
      (draft.addField start name definition).behind front n := by
  unfold addField
  cases current : draft.current with
  | none => simp [behind, current, report, Diagnostic.shift]
  | some table =>
    cases totals : draft.inTotals <;>
      simp [behind, current, totals, declare_shift, Table.shift, Span.shift, Field.shift]

theorem addBlock_behind (kind : BlockKind) (body : List Char) :
    (draft.behind front n).addBlock (n + start) kind body = (draft.addBlock start kind body).behind front n := by
  unfold addBlock
  cases current : draft.current with
  | none => simp [behind, current, report, Diagnostic.shift]
  | some table => cases kind <;> simp [behind, current, Table.shift, Span.shift, Nat.add_assoc]

theorem openTotals_behind :
    (draft.behind front n).openTotals (n + start) = (draft.openTotals start).behind front n := by
  cases current : draft.current <;> simp [openTotals, behind, current, Table.shift, Span.shift, Nat.add_assoc]

/-- Taking in a token does not depend on what stands before the text. -/
theorem step_behind (placed : Placed) :
    (draft.behind front n).step (placed.shift n) = (draft.step placed).behind front n := by
  obtain ⟨start, token⟩ := placed
  cases token with
  | comment body => rfl
  | word text => rfl
  | decorator name args => exact addDecorator_behind front n draft start name args
  | bang => exact report_behind front n draft start _
  | field name definition => exact addField_behind front n draft start name definition
  | table gap name => exact openTable_behind front n draft start gap name
  | key =>
    simp only [step, Placed.shift, pending_behind, Pending.mark_shift]
    rfl
  | dim =>
    simp only [step, Placed.shift, pending_behind, Pending.mark_shift]
    rfl
  | block kind body => exact addBlock_behind front n draft start kind body
  | total => exact openTotals_behind front n draft start
  | unclosed problem taken => exact report_behind front n draft start problem

theorem foldl_behind (tokens : List Placed) :
    (tokens.map (Placed.shift n)).foldl step (draft.behind front n) = (tokens.foldl step draft).behind front n := by
  induction tokens generalizing draft with
  | nil => rfl
  | cons placed tokens ih => rw [List.map_cons, List.foldl_cons, step_behind, ih, List.foldl_cons]

/-- Where nothing waits, no start is kept. -/
theorem pending_eq_of_isSettled {text : List Char} (settled : (Draft.ofChars text).pending.isSettled = true) :
    (Draft.ofChars text).pending = {} := by
  have kept (draft : Draft) (placed : Placed) (holds : draft.pending.isSettled = true → draft.pending = {}) :
      (draft.step placed).pending.isSettled = true → (draft.step placed).pending = {} := by
    obtain ⟨start, token⟩ := placed
    cases token with
    | decorator name args => simp [step, addDecorator, Pending.isSettled]
    | key => simp [step, Pending.isSettled]
    | dim => simp [step, Pending.isSettled]
    | field name definition =>
      simp only [step, addField]
      split <;> simp [report]
    | table gap name =>
      simp only [step, openTable]
      split <;> simp [report]
    | block kind body =>
      simp only [step, addBlock]
      split <;> exact holds
    | _ => exact holds
  have run : ∃ offset ≤ width text,
      (Draft.ofChars text).pending.isSettled = true → (Draft.ofChars text).pending = {} :=
    Draft.run_induction (motive := fun _ draft => draft.pending.isSettled = true → draft.pending = {}) (fun _ => rfl)
      fun _ draft placed _ _ holds => kept draft placed holds
  obtain ⟨-, -, holds⟩ := run
  exact holds settled

/-- A header starts afresh: the table before it is closed, and nothing of the draft is left but what was found. -/
theorem openTable_settled {draft : Draft} (settled : draft.pending = {}) (gap name : List Char) :
    draft.openTable (n + start) gap name = (openTable {} start gap name).behind draft.finish n := by
  unfold openTable
  split <;> simp [settled, report, behind, finish, tables, Diagnostic.shift, Table.shift, Span.shift, Nat.add_assoc]

end Draft

namespace Item

/-- A text in which everything is closed and a text whose first line ends a block, with a line end between them. -/
theorem place_read_newline {a b : List Char} (offset : Nat)
    (closed : ∀ item ∈ read a, item.token.isUnclosed = false) (next : Token.StartsSection b) :
    place offset (read (a ++ '\n' :: b)) =
      place offset (read a) ++ place (offset + width (a ++ ['\n'])) (read b) := by
  have skip {blanks : List Char} (blank : ∀ c ∈ blanks, isAsciiBlank c = true) (offset : Nat) :
      place offset (read (blanks ++ b)) = place (offset + width blanks) (read b) := by
    rw [read_run_append blank]
    cases read b <;> simp [place, Nat.add_assoc]
  induction a using token_induction generalizing offset with
  | blank a blank =>
    have all : ∀ c ∈ a ++ ['\n'], isAsciiBlank c = true := by
      simpa [or_imp, forall_and, Token.isAsciiBlank_newline] using blank
    rw [read_blank blank, ← skip all, List.append_assoc]
    rfl
  | closed gap token rest blank wellFormed ends ih =>
    have items := read_token blank wellFormed ends
    rw [items] at closed
    have behind := ih (offset + width gap + width token.text) fun item member => closed item (by simp [member])
    have ends := ends.append_newline wellFormed fun _ => next
    rw [List.append_assoc, List.append_assoc, read_token blank wellFormed ends, items, place, place, behind]
    simp [Nat.add_assoc]
  | unclosed gap problem taken blank known opens items =>
    rw [items] at closed
    simp [Token.isUnclosed] at closed

end Item

theorem Token.readTable_cases (cs : List Char) :
    (∃ gap name, (readTable cs).1 = .table gap name) ∨ (readTable cs).1.isUnclosed = true := by
  unfold readTable
  split
  · exact .inl ⟨_, _, rfl⟩
  split
  · split
    · exact .inl ⟨_, _, rfl⟩
    · exact .inr rfl
  · exact .inl ⟨_, _, rfl⟩

theorem Item.read_keyword (keyword : Keyword) {rest : List Char} (stops : Stops (!Token.isWordEnd ·) rest) :
    read (keyword.word.toList ++ rest) =
      ⟨[], (Token.readWord keyword.word.toList rest).1⟩ :: read (Token.readWord keyword.word.toList rest).2 := by
  obtain ⟨c, cs, same, start⟩ : ∃ c cs, keyword.word.toList = c :: cs ∧ isAsciiBlank c = false := by
    rcases keyword with _ | _ | _ | (_ | _) | _ <;> exact ⟨_, _, rfl, by decide⟩
  have whole : keyword.word.toList ++ rest = c :: (cs ++ rest) := by rw [same, List.cons_append]
  have items : read ([] ++ c :: (cs ++ rest)) = _ := read_cons (by simp) start
  rw [Token.read_keyword stops whole] at items
  rw [whole, ← items, List.nil_append]

/-- A text that starts with a table header is read on from any draft in which nothing waits. -/
theorem Draft.foldl_header {draft : Draft} (settled : draft.pending = {}) (n : Nat) {text more : List Char}
    (header : text = Keyword.table.word.toList ++ ' ' :: more) :
    (((Placed.ofChars text).map (Placed.shift n)).foldl step draft).finish =
      draft.finish ++ (Sheet.ofChars text).shift n := by
  have stops : Stops (!Token.isWordEnd ·) (' ' :: more) := by simp; decide
  have items := Item.read_keyword .table stops
  rw [Token.readWord, Token.ofWord?_word, ← header] at items
  have takesAll := Token.readTable_takesAll (' ' :: more)
  have kind := Token.readTable_cases (' ' :: more)
  generalize Token.readTable (' ' :: more) = result at *
  obtain ⟨token, rest⟩ := result
  rw [Sheet.ofChars_eq, Draft.ofChars, Placed.ofChars, items, Item.place]
  simp only [List.map_cons, List.foldl_cons]
  rcases kind with ⟨gap, name, rfl⟩ | unclosed
  · have opened : draft.step (Placed.shift n ⟨0 + width [], .table gap name⟩) = _ :=
      openTable_settled n (0 + width []) settled gap name
    rw [opened, foldl_behind, finish_behind]
    rfl
  · -- Nothing stands behind a header that is not closed.
    obtain ⟨problem, taken, rfl⟩ := Token.eq_unclosed unclosed
    obtain ⟨-, -, rfl⟩ := takesAll problem taken rfl
    rw [Item.read_blank (by simp)]
    simp [Item.place, Sheet.append_eq, Sheet.shift, finish, tables, step, report, Placed.shift, Diagnostic.shift]

/-- Two sheets are read as one where the first leaves nothing open or waiting and the second starts with a header. -/
theorem Sheet.read_append (a b : String)
    (closed : ∀ d ∈ (Sheet.read a).diagnostics, d.problem.message.startsWith "unterminated" = false)
    (settled : (Draft.ofChars a.toList).pending.isSettled = true) (header : b.startsWith "table " = true) :
    Sheet.read (a ++ "\n" ++ b) = Sheet.read a ++ (Sheet.read b).shift (a.utf8ByteSize + 1) := by
  have tokens : ∀ item ∈ Item.read a.toList, item.token.isUnclosed = false := by
    rcases Item.closed_or_breaksOff a.toList with all | ⟨before, gap, taken, problem, breaks⟩
    · exact all
    · have found : ⟨width before, problem⟩ ∈ (Sheet.read a).diagnostics := by
        rw [Sheet.read, Sheet.ofChars_eq, Draft.ofChars_breaksOff breaks]
        simp [Draft.finish, Draft.report]
      have := closed _ found
      rw [Problem.startsWith_unterminated, breaks.problem] at this
      exact absurd this (by simp)
  obtain ⟨more, starts⟩ := String.startsWith_string_iff.1 header
  have header : b.toList = Keyword.table.word.toList ++ ' ' :: more := starts.symm
  have next : Token.StartsSection b.toList := by
    rw [header]
    exact Token.startsSection_keyword .table rfl (by simp; decide)
  have placed := Item.place_read_newline 0 tokens next
  have start : 0 + width (a.toList ++ ['\n']) = a.utf8ByteSize + 1 + 0 := by
    rw [width_append, width_toList, Nat.zero_add]
    rfl
  rw [start, Item.place_shift] at placed
  have whole : (a ++ "\n" ++ b).toList = a.toList ++ '\n' :: b.toList := by simp
  rw [Sheet.read, Sheet.ofChars, whole, placed, List.foldl_append]
  exact Draft.foldl_header (Draft.pending_eq_of_isSettled settled) _ header

/-- The first text ends inside a block; the second is not closed at its end. -/
theorem Sheet.read_append_block :
    (∀ d ∈ (Sheet.read "[é]\ntable a\noverride\n1").diagnostics,
        d.problem.message.startsWith "unterminated" = false) ∧
      (Draft.ofChars "[é]\ntable a\noverride\n1".toList).pending.isSettled = true ∧
      "table b [x]=1 [y".startsWith "table " = true ∧
      Sheet.read ("[é]\ntable a\noverride\n1" ++ "\n" ++ "table b [x]=1 [y") =
        Sheet.read "[é]\ntable a\noverride\n1" ++ (Sheet.read "table b [x]=1 [y").shift (23 + 1) := by
  have closed : ∀ d ∈ (Sheet.read "[é]\ntable a\noverride\n1").diagnostics,
      d.problem.message.startsWith "unterminated" = false := by decide +kernel
  have settled : (Draft.ofChars "[é]\ntable a\noverride\n1".toList).pending.isSettled = true := by decide +kernel
  have header : "table b [x]=1 [y".startsWith "table " = true := by decide +kernel
  exact ⟨closed, settled, header, Sheet.read_append _ _ closed settled header⟩

end Gridbook
