import Gridbook.Proofs.Lookups
import Gridbook.Proofs.Remarks

/-!
The expression of a field set. The line of the declaration is read as a definition with the new expression, whether it had
one or only blanks and a comment; the sheet says the same of everything else.
-/
namespace Gridbook

open Text

variable {front : List Item} {gap word rest rest' : List Char} {definition : Option Definition} {d : Definition}

/-- The name of a field can get another definition where it stands. -/
theorem Item.Leads.define (leads : Leads (front ++ [⟨gap, .field word definition⟩]) rest) (wellFormed : d.WellFormed)
    (ends : Stops Token.inLine rest') : Leads (front ++ [⟨gap, .field word (some d)⟩]) rest' := by
  obtain ⟨-, -, named, -⟩ := leads_append.1 leads
  obtain ⟨more, starts⟩ := Token.exists_text_field word definition
  obtain ⟨more', starts'⟩ := Token.exists_text_field word (some d)
  exact leads.exchange Token.opens_bracket starts starts' ⟨named.1, by simpa using wellFormed⟩
    ((Token.endsBefore_iff rfl).2 ends)

/-- What may be set: one line, without a comment and with its quotes closed. -/
structure Text.IsExpression (expression : List Char) : Prop where
  oneLine : '\n' ∉ expression
  free : Token.isRemarkFree none expression = true
  shut : Token.openQuote none expression = none

theorem Text.inLine_of_not_mem {cs : List Char} (oneLine : '\n' ∉ cs) : ∀ c ∈ cs, Token.inLine c = true := by
  intro c member
  have : c ≠ '\n' := by
    rintro rfl
    exact oneLine member
  simpa [Token.inLine] using this

variable {expression lead tail : List Char}

/-- An expression between blanks, before a comment, is what the line defines. -/
theorem Definition.body_ofLine (blank : ∀ c ∈ lead, isBlank c = true) (legal : IsExpression expression)
    (quiet : IsRemark tail) (gap : List Char) : (ofLine gap (lead ++ (expression ++ tail))).body = trim expression := by
  have raw : (Token.splitRemark none (lead ++ (expression ++ tail))).1 =
      lead ++ (expression ++ (Token.splitRemark none tail).1) := by
    rw [Token.splitRemark_blank_append blank, Token.splitRemark_free_append legal.free, legal.shut]
  rw [ofLine, raw, trim_run_append blank, trim_append_run (Token.splitRemark_remark quiet)]

namespace Item

/-- The name of a field, and a line behind it that defines the field by the expression. -/
theorem exists_define (leads : Leads (front ++ [⟨gap, .field word definition⟩]) rest) (legal : IsExpression expression)
    {blanks : List Char} (inline : ∀ c ∈ blanks, isInlineBlank c = true) (blank : ∀ c ∈ lead, isBlank c = true)
    (quiet : IsRemark tail) (before : ∀ c ∈ lead, Token.inLine c = true) (behind : ∀ c ∈ tail, Token.inLine c = true)
    (ends : Stops Token.inLine rest') :
    ∃ d, d.body = trim expression ∧ Leads (front ++ [⟨gap, .field word (some d)⟩]) rest' ∧
      texts (front ++ [⟨gap, .field word (some d)⟩]) ++ rest' =
        texts front ++ gap ++ ((Token.field word none).text ++ (blanks ++ '=' :: lead)) ++
          (expression ++ (tail ++ rest')) := by
  have line : ∀ c ∈ lead ++ (expression ++ tail), Token.inLine c = true :=
    List.forall_mem_append.2 ⟨before, List.forall_mem_append.2 ⟨inLine_of_not_mem legal.oneLine, behind⟩⟩
  refine ⟨.ofLine blanks (lead ++ (expression ++ tail)), Definition.body_ofLine blank legal quiet blanks,
    leads.define (Definition.wellFormed_ofLine inline line) ends, ?_⟩
  simp [Token.text, Definition.text_ofLine]

end Item

namespace Sheet

/-- Two texts that differ in the definition of one field. -/
theorem outline_define {definition' : Option Definition} {table : String} {old : Table}
    (leads : Item.Leads (front ++ [⟨gap, .field word definition⟩]) rest)
    (leads' : Item.Leads (front ++ [⟨gap, .field word definition'⟩]) rest')
    (same : ∀ draft, (Token.ofChars rest).foldl DraftOutline.step draft = (Token.ofChars rest').foldl DraftOutline.step draft)
    (reaches : (Draft.ofItems front).Reaches table old) (plain : (Draft.ofItems front).inTotals = false)
    (first : ∀ earlier ∈ old.fields, earlier.key.field ≠ String.ofList word) :
    let text := Item.texts (front ++ [⟨gap, .field word definition⟩]) ++ rest
    let edited := Item.texts (front ++ [⟨gap, .field word definition'⟩]) ++ rest'
    (ofChars edited).outline edited = ((ofChars text).outline text).changeTable table
      (·.changeField (String.ofList word) ({ · with expression := (definition'.map (·.body)).map String.ofList })) := by
  intro text edited
  let draft := DraftOutline.ofItems front
  let opened := old.outline (Item.texts front)
  let declared (definition : Option Definition) : FieldOutline :=
    ⟨String.ofList word, draft.pending.isKey, draft.pending.isDim, draft.pending.decorators,
      (definition.map (·.body)).map String.ofList⟩
  obtain ⟨current, earlier⟩ := reaches.outline
  rw [← Draft.inTotals_ofItems] at plain
  have named : ∀ other ∈ opened.fields, other.name ≠ String.ofList word := by
    simpa [opened, Table.outline, Field.outline] using first
  have differ : TableOutline.Exchanged table opened.fields [declared definition] [declared definition']
      { opened with fields := opened.fields ++ [declared definition] }
      { opened with fields := opened.fields ++ [declared definition'] } :=
    ⟨reaches.named, [], by simp, by simp⟩
  rw [outline_leads leads, outline_leads leads', DraftOutline.ofItems_concat, DraftOutline.ofItems_concat,
    DraftOutline.step_field current plain, DraftOutline.step_field current plain, same]
  exact DraftOutline.finish_changed (TableOutline.lasting_exchanged _ _ _ _)
    (fun _ _ exchanged => ⟨exchanged.1, exchanged.changeField named rfl⟩)
    { draft with pending := {} } earlier (Token.ofChars rest') differ

end Sheet

theorem Draft.nameSpan_declare (pending : Pending) (table : String) (before word : List Char)
    (definition : Option Definition) :
    (declare pending table (width before) word definition).nameSpan = Span.over before (Token.field word none).text := rfl

/-- Where the expression of a declaration stands. -/
theorem Draft.expression_declare (pending : Pending) (table : String) (before word : List Char) (d : Definition) :
    (declare pending table (width before) word (some d)).expression =
      some ⟨String.ofList d.body,
        Span.over (before ++ ((Token.field word none).text ++ (d.gap ++ '=' :: d.lead))) d.body⟩ := by
  simp [declare, Span.over, Nat.add_assoc]

namespace Sheet

theorem setExpression_some {text table field expression : String} {found : Field} {old : Expression}
    (declared : (read text).field? table field = some found) (defined : found.expression = some old) :
    setExpression text table field expression = some (String.ofList (old.span.replace expression.toList text.toList)) := by
  simp [setExpression, declared, defined]

theorem setExpression_none {text table field expression : String} {found : Field}
    (declared : (read text).field? table field = some found) (undefined : found.expression = none) :
    setExpression text table field expression = some (String.ofList
      ((⟨found.nameSpan.stop, found.nameSpan.stop⟩ : Span).replace ([' ', '=', ' '] ++ expression.toList) text.toList)) := by
  simp [setExpression, declared, undefined]

/-- Setting the expression of a field that has one, or behind whose name the line says nothing more, changes that
expression and nothing else that the sheet says. -/
theorem setExpression_exact (text table field expression : String) {found : Field}
    (declared : (read text).field? table field = some found)
    (room : found.expression.isSome = true ∨ IsRemark (Cursor.ofOffset found.nameSpan.stop text.toList).lineAfter)
    (legal : IsExpression expression.toList) :
    ∃ out, setExpression text table field expression = some out ∧ (read text).Keyed ∧ (read out).Keyed ∧
      (read out).outline out.toList = ((read text).outline text.toList).changeTable table
        (·.changeField field ({ · with expression := some (String.ofList (trim expression.toList)) })) := by
  obtain ⟨front, gap, word, definition, rest, old, parts, leads, reaches, plain, first, rfl, rfl⟩ := exists_field? declared
  obtain ⟨-, -, named, ends, -⟩ := Item.leads_append.1 leads
  rw [Item.texts_nil, List.nil_append] at ends
  cases definition with
  | some d =>
    have wellFormed : d.WellFormed := named.2 d rfl
    obtain ⟨d', body, leads', spell⟩ := Item.exists_define leads legal wellFormed.gap wellFormed.lead_blank
      wellFormed.isRemark_tail (fun c member => wellFormed.line c (by simp [member]))
      (fun c member => wellFormed.line c (by simp [member])) ((Token.endsBefore_iff rfl).1 ends)
    refine ⟨String.ofList (Item.texts (front ++ [⟨gap, .field word (some d')⟩]) ++ rest), ?_, keyed_read _, keyed_read _, ?_⟩
    · have whole : text.toList = Item.texts front ++ gap ++ ((Token.field word none).text ++ (d.gap ++ '=' :: d.lead)) ++
          (d.body ++ (d.tail ++ rest)) := by
        rw [parts]
        simp [Token.text, Definition.text]
      rw [setExpression_some declared (Draft.expression_declare ..), whole, Span.replace_over, spell]
    · rw [read, read, String.toList_ofList, parts, ← body]
      exact outline_define leads leads' (fun _ => rfl) reaches plain first
  | none =>
    obtain ⟨line, rest, rfl, inside, stops⟩ := exists_line rest
    have whole : text.toList = Item.texts front ++ gap ++ ((Token.field word none).text ++ (line ++ rest)) := by
      rw [parts]
      simp
    have quiet : IsRemark line := by
      have behind := room.resolve_left (by simp [Draft.declare])
      rwa [whole, Draft.nameSpan_declare, Cursor.ofOffset_over, Cursor.lineAfter_eq inside stops] at behind
    have space : ∀ c ∈ [' '], isInlineBlank c = true := by simp [isInlineBlank]
    obtain ⟨d, body, leads', spell⟩ := Item.exists_define leads legal space (by simp; decide : ∀ c ∈ [' '], isBlank c = true)
      quiet (by simp; decide) inside stops
    refine ⟨String.ofList (Item.texts (front ++ [⟨gap, .field word (some d)⟩]) ++ rest), ?_, keyed_read _, keyed_read _, ?_⟩
    · have insertion := Span.replace_over (Item.texts front ++ gap ++ (Token.field word none).text) [] (line ++ rest)
        ([' ', '=', ' '] ++ expression.toList)
      rw [setExpression_none declared rfl, spell, whole, Draft.nameSpan_declare]
      simpa [Span.over, Nat.add_assoc] using congrArg String.ofList insertion
    · rw [read, read, String.toList_ofList, parts, ← body]
      refine outline_define leads leads' (fun draft => ?_) reaches plain first
      obtain ⟨items, blanks, rfl, ascii, idle, further⟩ := Item.exists_idle quiet inside stops
      rw [List.append_assoc]
      exact Token.foldl_idle idle ascii further draft

/-- A comment with a quote stands behind the name, and a later field has the same name; the expression has a comment mark
between its quotes. -/
theorem setExpression_exact_commented :
    let text := "table t\r\n!d [f]\u00a0# it's\r\n[f] = 2"
    let expression := " \"#\" & 'é' "
    ∃ found out, (read text).field? "t" "f" = some found ∧
      IsRemark (Cursor.ofOffset found.nameSpan.stop text.toList).lineAfter ∧ IsExpression expression.toList ∧
      setExpression text "t" "f" expression = some out ∧
      (read out).outline out.toList = ((read text).outline text.toList).changeTable "t"
        (·.changeField "f" ({ · with expression := some "\"#\" & 'é'" })) := by
  intro text expression
  obtain ⟨found, declared, stop⟩ : ∃ found, (read text).field? "t" "f" = some found ∧ found.nameSpan.stop = 15 :=
    Option.map_eq_some_iff.1 (by decide +kernel)
  have line : trim (Cursor.ofOffset 15 text.toList).lineAfter = "# it's".toList := by decide +kernel
  have quiet : IsRemark (Cursor.ofOffset found.nameSpan.stop text.toList).lineAfter := by
    rw [IsRemark, stop, line]
    simp
  have legal : IsExpression expression.toList := ⟨by decide +kernel, by decide +kernel, by decide +kernel⟩
  have trimmed : String.ofList (trim expression.toList) = "\"#\" & 'é'" := by decide +kernel
  obtain ⟨out, done, -, -, same⟩ := setExpression_exact text "t" "f" expression declared (.inr quiet) legal
  rw [trimmed] at same
  exact ⟨found, out, declared, quiet, legal, done, same⟩

end Sheet
end Gridbook
