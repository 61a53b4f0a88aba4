import Gridbook.Proofs.Outline
import Gridbook.Proofs.Returns

/-!
Line ends. A text with a carriage return put before every line feed says what it said before: comments and
definitions take the return in, in the arguments of a decorator and in a block it stays where it is put, and
everywhere else it is one more blank. Nothing is assumed of the returns that a text already has.
-/
namespace Gridbook

namespace Text

def crlf (cs : List Char) : List Char :=
  cs.flatMap fun c => if c = '\n' then ['\r', '\n'] else [c]

/-- The spelling of a text with carriage returns. -/
def respell (text : String) : String := String.ofList (crlf text.toList)

variable {p : Char → Bool} {a b cs : List Char} {c : Char}

@[simp] theorem crlf_nil : crlf [] = [] := rfl

@[simp] theorem crlf_newline : crlf ('\n' :: cs) = '\r' :: '\n' :: crlf cs := rfl

theorem crlf_cons (other : c ≠ '\n') : crlf (c :: cs) = c :: crlf cs := by
  simp [crlf, other]

@[simp] theorem crlf_append : crlf (a ++ b) = crlf a ++ crlf b := by
  simp [crlf]

/-- A run of a class that has no line feed stays as it is. -/
theorem crlf_run (outside : p '\n' = false) (run : ∀ c ∈ cs, p c = true) : crlf cs = cs := by
  induction cs with
  | nil => rfl
  | cons c cs ih =>
    have other : c ≠ '\n' := by
      rintro rfl
      simp [outside] at run
    rw [crlf_cons other, ih fun d member => run d (by simp [member])]

theorem crlf_line (inside : ∀ c ∈ a, Token.inLine c = true) :
    crlf (a ++ '\n' :: b) = (a ++ ['\r']) ++ '\n' :: crlf b := by
  simp [crlf_run (by decide) inside]

theorem mem_crlf : c ∈ crlf cs ↔ c ∈ cs ∨ c = '\r' ∧ '\n' ∈ cs := by
  induction cs with
  | nil => simp
  | cons d cs ih =>
    by_cases newline : d = '\n'
    · subst newline
      simp only [crlf_newline, List.mem_cons, ih, true_or, and_true]
      tauto
    · simp only [crlf_cons newline, List.mem_cons, ih, Ne.symm newline, false_or, or_assoc]

theorem stops_crlf (same : p '\r' = p '\n') : Stops p (crlf cs) ↔ Stops p cs := by
  cases cs with
  | nil => rfl
  | cons c cs =>
    by_cases newline : c = '\n'
    · simp [newline, same]
    · simp [crlf_cons newline]

theorem dropWhile_crlf (newline : p '\n' = false) (ret : p '\r' = false) :
    (crlf cs).dropWhile p = crlf (cs.dropWhile p) := by
  have run : ∀ c ∈ cs.takeWhile p, p c = true := fun _ => List.mem_takeWhile_imp
  conv => lhs; rw [← List.takeWhile_append_dropWhile (p := p) (l := cs), crlf_append, crlf_run newline run]
  exact dropWhile_run run ((stops_crlf (ret.trans newline.symm)).2 (stops_dropWhile p cs))

theorem stops_reverse_crlf : Stops p (crlf cs).reverse ↔ Stops p cs.reverse := by
  rcases List.eq_nil_or_concat cs with rfl | ⟨init, c, rfl⟩
  · rfl
  · by_cases newline : c = '\n' <;> simp [newline, crlf_cons]

/-- A character other than a line end stands where it stood. -/
theorem eq_append_cons_of_crlf {front back : List Char} (plain : c ≠ '\r' ∧ c ≠ '\n')
    (same : crlf cs = front ++ c :: back) :
    ∃ before after, cs = before ++ c :: after ∧ front = crlf before ∧ back = crlf after := by
  induction cs generalizing front with
  | nil => simp at same
  | cons d cs ih =>
    by_cases newline : d = '\n'
    · subst newline
      rw [crlf_newline] at same
      match front with
      | [] => exact absurd (List.cons.inj same).1.symm plain.1
      | [_] => exact absurd (List.cons.inj (List.cons.inj same).2).1.symm plain.2
      | _ :: _ :: front =>
        simp only [List.cons_append, List.cons.injEq] at same
        obtain ⟨rfl, rfl, same⟩ := same
        obtain ⟨before, after, rfl, rfl, rfl⟩ := ih same
        exact ⟨'\n' :: before, after, rfl, rfl, rfl⟩
    · rw [crlf_cons newline] at same
      cases front with
      | nil =>
        obtain ⟨rfl, rfl⟩ := List.cons.inj same
        exact ⟨[], cs, rfl, rfl, rfl⟩
      | cons e front =>
        simp only [List.cons_append, List.cons.injEq] at same
        obtain ⟨rfl, same⟩ := same
        obtain ⟨before, after, rfl, rfl, rfl⟩ := ih same
        exact ⟨d :: before, after, rfl, (crlf_cons newline).symm, rfl⟩

end Text

open Text

namespace Token

variable {token : Token} {problem : Problem} {rest cs : List Char}

theorem balanced_crlf (depth : Nat) (quoted : Bool) (args : List Char) :
    balanced depth quoted (crlf args) = balanced depth quoted args := by
  induction args generalizing depth quoted with
  | nil => rfl
  | cons c args ih =>
    by_cases newline : c = '\n'
    · subst newline
      cases quoted <;> simp [balanced, ih]
    · rw [crlf_cons newline]
      simp only [balanced, ih]

theorem startsSection_crlf : StartsSection (crlf cs) ↔ StartsSection cs := by
  rcases line_cases cs with inside | ⟨line, more, inside, rfl⟩
  · rw [crlf_run (by decide) inside]
  · rw [crlf_line inside, StartsSection, takeWhile_run (inLine_append_return inside) stops_newline,
      endsBlock_append_blank isBlank_return, StartsSection, takeWhile_run inside stops_newline]

theorem goesOn_crlf {body : List Char} : GoesOn (crlf body) ↔ GoesOn body := by
  induction body with
  | nil => rfl
  | cons c body ih =>
    by_cases newline : c = '\n'
    · subst newline
      have line : ∀ c ∈ ['\r'], inLine c = true := List.forall_mem_singleton.2 (by decide)
      rw [crlf_newline, ← List.singleton_append, goesOn_line_append line, goesOn_newline, goesOn_newline, ih,
        ← Bool.not_eq_true, ← Bool.not_eq_true]
      exact and_congr_left' (not_congr startsSection_crlf)
    · have line : ∀ d ∈ [c], inLine d = true := List.forall_mem_singleton.2 (by simpa [inLine] using newline)
      rw [crlf_cons newline, ← List.singleton_append, goesOn_line_append line, ih, ← List.singleton_append,
        goesOn_line_append line]

/-- The token of the respelled text, where it does not take in the return of its own line. -/
def respell : Token → Token
  | decorator name args => decorator name (args.map crlf)
  | block kind body => block kind (crlf body)
  | token => token

theorem respell_of_fillsLine (fills : token.fillsLine = true) : token.respell = token := by
  cases token with
  | comment body => rfl
  | field name definition => rfl
  | _ => simp [fillsLine] at fills

theorem inLine_of_isDoubled {body : List Char} (doubled : isDoubled body = true) : ∀ c ∈ body, inLine c = true := by
  fun_induction isDoubled body with
  | case1 => simp
  | case2 => simp at doubled
  | case3 d cs ih =>
    simp only [Bool.and_eq_true, beq_iff_eq] at doubled
    simp only [List.forall_mem_cons, doubled.1]
    exact ⟨by decide, by decide, ih doubled.2⟩
  | case4 c cs other ih =>
    simp only [Bool.and_eq_true] at doubled
    exact List.forall_mem_cons.2 ⟨doubled.1, ih doubled.2⟩

theorem crlf_name {name : List Char} (legal : IsBare name ∨ IsQuoted name) : crlf name = name := by
  rcases legal with bare | ⟨body, doubled, rfl⟩
  · exact crlf_run (p := fun c => !isWordEnd c) (by decide) (by simpa using bare.inside)
  · simp [crlf_cons, crlf_run (by decide) (inLine_of_isDoubled doubled)]

theorem crlf_keyword (keyword : Keyword) : crlf keyword.word.toList = keyword.word.toList :=
  crlf_name (.inl (isBare_keyword keyword))

theorem crlf_definition {d : Definition} (wellFormed : d.WellFormed) : crlf d.text = d.text := by
  have gap : crlf d.gap = d.gap := crlf_run (by decide) wellFormed.gap
  have line : crlf (d.lead ++ d.body ++ d.tail) = d.lead ++ d.body ++ d.tail := crlf_run (by decide) wellFormed.line
  rw [Definition.text, crlf_append, gap, crlf_cons (by decide), line]

theorem crlf_text (wellFormed : token.WellFormed) : crlf token.text = token.respell.text := by
  cases token with
  | comment body => simp [text, respell, crlf_cons, crlf_run (by decide) wellFormed]
  | decorator name args =>
    obtain ⟨-, inside, -⟩ := wellFormed
    cases args <;> simp [text, respell, crlf_cons, crlf_run (by decide) inside]
  | bang => rfl
  | field name definition =>
    obtain ⟨inside, wellFormed⟩ := wellFormed
    have name : crlf name = name := crlf_run (by decide) inside
    cases definition with
    | none => simp [text, respell, crlf_cons, name]
    | some d => simp [text, respell, crlf_cons, name, crlf_definition (wellFormed d rfl)]
  | table gap name =>
    obtain ⟨blank, legal⟩ := wellFormed
    have gap : crlf gap = gap := crlf_run (by decide) blank
    have name : crlf name = name := by
      rcases legal with rfl | ⟨-, legal⟩
      · rfl
      · exact crlf_name legal
    simp only [text, respell, crlf_append, crlf_keyword, gap, name]
  | key => exact crlf_keyword .key
  | dim => exact crlf_keyword .dim
  | block kind body =>
    have keyword : crlf kind.word.toList = kind.word.toList := crlf_keyword (.block kind)
    simp only [text, respell, crlf_append, keyword]
  | total => exact crlf_keyword .total
  | word text => exact crlf_name (wellFormed.elim .inr fun bare => .inl bare.1)
  | unclosed problem text => exact wellFormed.elim

theorem WellFormed.respell (wellFormed : token.WellFormed) : token.respell.WellFormed := by
  cases token with
  | decorator name args =>
    obtain ⟨nonempty, inside, closes⟩ := wellFormed
    exact ⟨nonempty, inside, by simpa [balanced_crlf] using closes⟩
  | block kind body =>
    obtain ⟨front, back, goesOn⟩ := wellFormed
    exact ⟨(stops_crlf (by decide)).2 front, stops_reverse_crlf.2 back, goesOn_crlf.2 goesOn⟩
  | _ => exact wellFormed

theorem EndsBefore.respell (wellFormed : token.WellFormed) (ends : token.EndsBefore rest)
    (last : token.fillsLine = true → rest = []) : token.respell.EndsBefore (crlf rest) := by
  have apart : Stops token.takes (crlf rest) := by
    by_cases fills : token.fillsLine = true
    · simp [last fills]
    · have blank : token.takes '\r' = false := takes_blank wellFormed (by decide) (by decide) (absurd · fills)
      exact (stops_crlf (blank.trans (takes_newline wellFormed).symm)).2 ends.1
  cases token with
  | decorator name args => cases args <;> exact ⟨apart, trivial⟩
  | field name definition =>
    refine ⟨apart, ?_⟩
    cases definition with
    | none =>
      have unset : Stops (· == '=') (rest.dropWhile isInlineBlank) := ends.2
      simp only [Token.respell]
      rw [dropWhile_crlf (by decide) (by decide)]
      exact (stops_crlf (by decide)).2 unset
    | some d => trivial
  | block kind body =>
    rcases line_cases rest with inside | ⟨line, more, inside, rfl⟩
    · rw [← List.append_nil rest, endsBefore_block_iff inside stops_nil] at ends
      rw [crlf_run (by decide) inside, ← List.append_nil rest]
      exact (endsBefore_block_iff inside stops_nil).2 ends
    · rw [endsBefore_block_iff inside stops_newline, stopsBlock_newline] at ends
      rw [crlf_line inside]
      refine (endsBefore_block_iff (inLine_append_return inside) stops_newline).2
        ⟨?_, stopsBlock_newline.2 (startsSection_crlf.2 ends.2)⟩
      exact List.forall_mem_append.2 ⟨ends.1, List.forall_mem_singleton.2 (by decide)⟩
  | _ => exact ⟨apart, trivial⟩

theorem QuoteOpen.crlf (stays : QuoteOpen cs) : QuoteOpen (crlf cs) := by
  intro body rest same doubled ends
  obtain ⟨before, after, rfl, rfl, rfl⟩ := eq_append_cons_of_crlf (by decide) same
  have inside : ∀ c ∈ before, inLine c = true := fun c member =>
    inLine_of_isDoubled doubled c (mem_crlf.2 (.inl member))
  rw [crlf_run (by decide) inside] at doubled
  exact stays before after rfl doubled ((stops_crlf (by decide)).1 ends)

theorem BracketOpen.crlf (stays : BracketOpen cs) : BracketOpen (crlf cs) := by
  intro name rest same
  obtain ⟨before, after, rfl, rfl, -⟩ := eq_append_cons_of_crlf (by decide) same
  exact mem_crlf.2 (.inl (stays before after rfl))

theorem ArgumentsOpen.crlf (stays : ArgumentsOpen cs) : ArgumentsOpen (crlf cs) := by
  intro args rest same
  obtain ⟨before, after, rfl, rfl, -⟩ := eq_append_cons_of_crlf (by decide) same
  rw [balanced_crlf]
  exact stays before after rfl

theorem IsOpen.crlf (opens : IsOpen problem cs) : IsOpen problem (crlf cs) := by
  cases opens with
  | name stays =>
    rw [crlf_cons (by decide)]
    exact .name stays.crlf
  | tableName apart blank stays =>
    rw [crlf_append, crlf_append, crlf_keyword, crlf_run (by decide) blank, crlf_cons (by decide)]
    exact .tableName apart blank stays.crlf
  | fieldName stays =>
    rw [crlf_cons (by decide)]
    exact .fieldName stays.crlf
  | arguments nonempty inside stays =>
    rw [crlf_cons (by decide), crlf_append, crlf_run (by decide) inside, crlf_cons (by decide)]
    exact .arguments nonempty inside stays.crlf

end Token

def DecoratorOutline.respell (decorator : DecoratorOutline) : DecoratorOutline :=
  { decorator with args := decorator.args.map Text.respell }

def FieldOutline.respell (field : FieldOutline) : FieldOutline :=
  { field with decorators := field.decorators.map DecoratorOutline.respell }

def TableOutline.respell (table : TableOutline) : TableOutline :=
  { table with
    decorators := table.decorators.map DecoratorOutline.respell
    fields := table.fields.map FieldOutline.respell
    totals := table.totals.map FieldOutline.respell
    override := table.override.map Text.respell
    apply := table.apply.map Text.respell }

def SheetOutline.respell (sheet : SheetOutline) : SheetOutline :=
  { sheet with tables := sheet.tables.map TableOutline.respell }

def PendingOutline.respell (pending : PendingOutline) : PendingOutline :=
  { pending with decorators := pending.decorators.map DecoratorOutline.respell }

namespace DraftOutline

def respell (draft : DraftOutline) : DraftOutline :=
  { draft with
    closed := draft.closed.map TableOutline.respell
    current := draft.current.map TableOutline.respell
    pending := draft.pending.respell }

variable (draft : DraftOutline)

theorem tables_respell : draft.respell.tables = draft.tables.map TableOutline.respell := by
  cases current : draft.current <;> simp [tables, respell, current]

theorem finish_respell : draft.respell.finish = draft.finish.respell := by
  simp only [finish, tables_respell]
  rfl

theorem addDecorator_respell (decorator : DecoratorOutline) :
    draft.respell.addDecorator decorator.respell = (draft.addDecorator decorator).respell := by
  simp [addDecorator, respell, PendingOutline.respell]

theorem openTable_respell (name : List Char) : draft.respell.openTable name = (draft.openTable name).respell := by
  simp only [openTable, tables_respell]
  split
  · rfl
  · rfl

theorem addField_respell (name : List Char) (expression : Option (List Char)) :
    draft.respell.addField name expression = (draft.addField name expression).respell := by
  cases current : draft.current with
  | none => simp [addField, respell, current, report, PendingOutline.respell]
  | some table =>
    by_cases totals : draft.inTotals = true <;>
      simp [addField, respell, current, totals, TableOutline.addField, TableOutline.respell, FieldOutline.respell,
        PendingOutline.respell]

theorem addBlock_respell (kind : BlockKind) (body : List Char) :
    draft.respell.addBlock kind (crlf body) = (draft.addBlock kind body).respell := by
  have keyword : crlf kind.word.toList = kind.word.toList := Token.crlf_keyword (.block kind)
  have text : String.ofList (Token.block kind (crlf body)).text =
      Text.respell (String.ofList (Token.block kind body).text) := by
    simp [Text.respell, Token.text, keyword]
  cases current : draft.current with
  | none => simp [addBlock, respell, current, report]
  | some table =>
    cases kind <;>
      simp [addBlock, respell, current, TableOutline.setBlock, TableOutline.respell, text]

theorem step_respell (token : Token) : draft.respell.step token.respell = (draft.step token).respell := by
  cases token with
  | decorator name args =>
    have texts : (args.map crlf).map String.ofList = (args.map String.ofList).map Text.respell := by
      cases args <;> simp [Text.respell]
    simp only [Token.respell, step, texts]
    exact draft.addDecorator_respell ⟨String.ofList name, args.map String.ofList⟩
  | field name definition => exact draft.addField_respell name _
  | table gap name => exact draft.openTable_respell name
  | block kind body => exact draft.addBlock_respell kind body
  | _ => rfl

theorem step_withReturn (token : Token) : draft.step token.withReturn = draft.step token := by
  cases token with
  | field name definition =>
    cases definition with
    | none => rfl
    | some d => simp [Token.withReturn, step, d.body_withReturn]
  | _ => rfl

end DraftOutline

/-- What the tokens of a respelled text do to an outline. -/
theorem Token.foldl_crlf (text : List Char) (draft : DraftOutline) :
    (ofChars (crlf text)).foldl DraftOutline.step draft.respell =
      ((ofChars text).foldl DraftOutline.step draft).respell := by
  have blank_crlf {gap : List Char} (blank : ∀ c ∈ gap, isAsciiBlank c = true) :
      ∀ c ∈ crlf gap, isAsciiBlank c = true := by
    intro c member
    rcases mem_crlf.1 member with inside | ⟨rfl, -⟩
    · exact blank c inside
    · decide
  induction text using Item.grammar_induction generalizing draft with
  | blank text all =>
    simp [ofChars, Item.read_blank all, Item.read_blank (blank_crlf all)]
  | closed gap token rest blank wellFormed ends ih =>
    have step := draft.step_respell token
    rw [crlf_append, crlf_append, ofChars_run_append blank, ofChars_run_append (blank_crlf blank),
      ofChars_token wellFormed ends, crlf_text wellFormed]
    -- A token that fills its line takes in the return of the line end behind it, which then starts with the feed.
    by_cases taken : token.fillsLine = true ∧ rest ≠ []
    · obtain ⟨fills, nonempty⟩ := taken
      obtain ⟨c, more, rfl⟩ := List.exists_cons_of_ne_nil nonempty
      obtain rfl : c = '\n' := by simpa [inLine] using (endsBefore_iff fills).1 ends
      have behind : ofChars (['\r'] ++ '\n' :: crlf more) = ofChars ('\n' :: crlf more) :=
        ofChars_run_append (List.forall_mem_singleton.2 (by decide)) _
      rw [respell_of_fillsLine fills] at step ⊢
      rw [crlf_newline, List.append_cons, ← text_withReturn fills,
        ofChars_token wellFormed.withReturn (endsBefore_withReturn fills), ← behind, List.foldl_cons,
        DraftOutline.step_withReturn, step]
      exact ih _
    · have ends := ends.respell wellFormed fun fills => not_ne_iff.1 fun nonempty => taken ⟨fills, nonempty⟩
      rw [ofChars_token wellFormed.respell ends, List.foldl_cons, step]
      exact ih _
  | opened gap problem text blank opens =>
    rw [crlf_append]
    simp only [ofChars, Item.read_open blank opens, Item.read_open (blank_crlf blank) opens.crlf]
    rfl

/-- Reading does not depend on how lines end. A sheet read with carriage returns before its line feeds has the tables,
fields, expressions and diagnostics it had without, and arguments and blocks with their line ends respelled. -/
theorem Sheet.read_respell (text : String) :
    (Sheet.read (Text.respell text)).outline (Text.respell text).toList =
      ((Sheet.read text).outline text.toList).respell := by
  have start : ({} : DraftOutline).respell = {} := rfl
  simp only [Sheet.read, Text.respell, String.toList_ofList]
  rw [Sheet.outline_ofChars, Sheet.outline_ofChars, ← DraftOutline.finish_respell, ← Token.foldl_crlf, start]

end Gridbook
