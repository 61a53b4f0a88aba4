import Gridbook.Proofs.Anchors

/-!
Fields appended to a table. A new field stands on a line of its own behind the last one, and is read as a field of that
table with nothing but its name and its expression; behind it the line says nothing more, so a table to which a field can
be appended takes any number of them, one behind the other.
-/
namespace Gridbook

open Text

/-- What may be appended: a name that can stand in brackets, and an expression on one line without a comment. -/
structure Sheet.IsAddition (field expression : String) : Prop where
  name : ∀ c ∈ field.toList, c ≠ ']' ∧ c ≠ '\n'
  oneLine : '\n' ∉ expression.toList
  free : Token.isRemarkFree none expression.toList = true

def Table.indent (table : Table) (text : List Char) : List Char :=
  (table.lastField?.map (Sheet.indentOf · text)).getD Sheet.defaultIndent

/-- The field that is appended. Without an expression it is not defined. -/
def FieldOutline.added (field expression : String) : FieldOutline :=
  ⟨field, false, false, [], if expression = "" then none else some (String.ofList (trim expression.toList))⟩

variable {text table field expression : String} {rest ret : List Char}

theorem Text.IsReturn.stops {p : Char → Bool} (short : IsReturn ret) (ends : Stops Token.inLine rest)
    (return' : p '\r' = false) (newline : p '\n' = false) : Stops p (ret ++ rest) := by
  rcases short with rfl | rfl
  · intro c first
    obtain rfl : c = '\n' := by simpa [Token.inLine] using ends c first
    exact newline
  · simpa using return'

theorem Text.IsReturn.unmarked (short : IsReturn ret) (quote : Option Char) : (Token.splitRemark quote ret).2 = [] := by
  rcases short with rfl | rfl <;> cases quote <;> simp [Token.splitRemark]

/-- The declaration that is appended before the end of a line, read as the token of a field, and what is left behind it. -/
structure Sheet.Adds (field expression : String) (ret rest : List Char) (definition : Option Definition)
    (behind : List Char) : Prop where
  spell : declaration field expression ++ (ret ++ rest) = (Token.field field.toList definition).text ++ behind
  wellFormed : (Token.field field.toList definition).WellFormed
  ends : (Token.field field.toList definition).EndsBefore behind
  defined : (definition.map (·.body)).map String.ofList = (FieldOutline.added field expression).expression
  same : ∀ draft, (Token.ofChars behind).foldl DraftOutline.step draft = (Token.ofChars rest).foldl DraftOutline.step draft
  left : ∃ run, (∀ c ∈ run, isBlank c = true) ∧ (∀ c ∈ run, Token.inLine c = true) ∧
    Token.behind definition ++ behind = run ++ rest

namespace Sheet

theorem exists_adds (legal : IsAddition field expression) (short : IsReturn ret) (ends : Stops Token.inLine rest) :
    ∃ definition behind, Adds field expression ret rest definition behind := by
  have named : ∀ c ∈ field.toList, (c != ']' && c != '\n') = true := by simpa using legal.name
  by_cases empty : expression = ""
  · subst empty
    refine ⟨none, ret ++ rest, by simp [declaration, FieldKey.bracketed, Token.text], ⟨named, by simp⟩,
      ⟨by simp [Token.takes, Stops], ?_⟩, by simp [FieldOutline.added], fun draft => ?_, ret, short.isBlank, short.inLine, rfl⟩
    · dsimp only
      rw [dropWhile_of_stops (short.stops ends (by decide) (by decide))]
      exact short.stops ends (by decide) (by decide)
    · rw [Token.ofChars_run_append short.isAsciiBlank]
  · -- The carriage return goes to the line of the definition.
    let line := ' ' :: (expression.toList ++ ret)
    have inside : ∀ c ∈ line, Token.inLine c = true :=
      List.forall_mem_cons.2 ⟨by decide, List.forall_mem_append.2 ⟨inLine_of_not_mem legal.oneLine, short.inLine⟩⟩
    have wellFormed : (Definition.ofLine [' '] line).WellFormed :=
      Definition.wellFormed_ofLine (by simp [isInlineBlank]) inside
    have free : Token.isRemarkFree none (' ' :: expression.toList) = true := by
      simpa [Token.isRemarkFree] using legal.free
    have body : (Definition.ofLine [' '] line).body = trim expression.toList := by
      calc trim (Token.splitRemark none (' ' :: expression.toList ++ ret)).1
          = trim (Token.splitRemark none (' ' :: expression.toList)).1 := Token.trim_splitRemark_append short _
        _ = trim (' ' :: expression.toList) := by rw [Token.splitRemark_of_isRemarkFree free]
        _ = trim expression.toList := trim_run_append (a := [' ']) (by simp; decide)
    refine ⟨some (.ofLine [' '] line), rest, ?_, ⟨named, by simpa using wellFormed⟩, (Token.endsBefore_iff rfl).2 ends, ?_,
      fun _ => rfl, ?_⟩
    · simp [declaration, FieldKey.bracketed, Token.text, Definition.text_ofLine, empty, line]
    · simp [FieldOutline.added, empty, body]
    · obtain ⟨run, blank, tail⟩ := wellFormed.exists_tail
      have unmarked : (Token.splitRemark none line).2 = [] := by
        have split := Token.splitRemark_free_append free ret
        rw [List.cons_append] at split
        rw [split]
        exact short.unmarked _
      rw [Definition.line_ofLine, unmarked, List.append_nil] at tail
      refine ⟨run, blank, fun c member => wellFormed.line c ?_, by rw [Token.behind, tail]⟩
      simp [tail, member]

end Sheet

/-- A field that is declared when nothing waits for it. -/
theorem DraftOutline.Ready.step_field {draft : DraftOutline} {name : String} {opened : TableOutline}
    (ready : draft.Ready name opened) (word : List Char) (definition : Option Definition) :
    draft.step (.field word definition) =
      { draft with current := some (opened.appendFields
          [⟨String.ofList word, false, false, [], (definition.map (·.body)).map String.ofList⟩]) } := by
  obtain ⟨closed, current, inTotals, pending, problems⟩ := draft
  obtain ⟨rfl, -, -, rfl, rfl⟩ := ready
  rfl

/-- A new field of the open table, behind which no other is declared in it. -/
theorem DraftOutline.Ready.finish_added {draft : DraftOutline} {name : String} {opened : TableOutline}
    (ready : draft.Ready name opened) {tokens : List Token}
    (last : ∀ other, (tokens.foldl step draft).finish.tables.find? (·.name = name) = some other →
      other.fields.length = opened.fields.length) (new : FieldOutline) :
    (tokens.foldl step { draft with current := some (opened.appendFields [new]) }).finish =
      (tokens.foldl step draft).finish.changeTable name (·.appendFields [new]) := by
  have differ : TableOutline.Exchanged name opened.fields [] [new] opened (opened.appendFields [new]) :=
    ⟨ready.named, [], by simp, by simp [TableOutline.appendFields]⟩
  have start : { draft with current := some opened } = draft := by rw [← ready.current]
  obtain ⟨old, _, more, problems, ⟨named, back, fields, rfl⟩, before, after⟩ :=
    foldl_related (TableOutline.lasting_exchanged _ _ _ _) draft tokens differ draft.problems draft.problems
  rw [start] at before
  have found : (tokens.foldl step draft).finish.tables.find? (·.name = name) = some old := by
    rw [before, List.find?_append, List.find?_eq_none.2 (by simpa using ready.first), Option.none_or,
      List.find?_cons_of_pos (by simpa using named)]
  have length := last old found
  rw [fields] at length
  obtain rfl : back = [] := by simpa using length
  rw [after, before, SheetOutline.changeTable_eq ready.first named, TableOutline.appendFields, fields]
  simp

namespace Draft

variable {items : List Item} {name : String} {opened : Table}

theorem exists_reaches {outline : TableOutline} (ready : (DraftOutline.ofItems items).Ready name outline) :
    ∃ table, (ofItems items).Reaches name table ∧ (ofItems items).inTotals = false ∧
      table.fields.length = outline.fields.length := by
  obtain ⟨current, named, first, plain, -⟩ := ready
  rw [inTotals_ofItems] at plain
  rw [← outline_ofItems items []] at current first
  obtain ⟨table, open', rfl⟩ := Option.map_eq_some_iff.1 current
  exact ⟨table, ⟨open', named, by simpa [outline, Table.outline] using first⟩, plain, by simp [Table.outline]⟩

/-- The open table with the field that a token has declared. -/
theorem Reaches.exists_declare (reaches : (ofItems items).Reaches name opened) (plain : (ofItems items).inTotals = false)
    (gap word : List Char) (definition : Option Definition) :
    ∃ table, (ofItems (items ++ [⟨gap, .field word definition⟩])).Reaches name table ∧
      table.fields = opened.fields ++
        [declare (ofItems items).pending name (width (Item.texts items ++ gap)) word definition] := by
  rw [ofItems_concat]
  obtain ⟨current, named, first⟩ := reaches
  simp only [step, addField, current, plain, Bool.false_eq_true, if_false]
  refine ⟨_, ⟨rfl, named, first⟩, ?_⟩
  dsimp only
  rw [named]

end Draft

theorem Table.names_outline (table : Table) (text : List Char) :
    (table.outline text).fields.map (·.name) = table.fieldNames := by
  simp [Table.outline, Table.fieldNames, Field.outline, Function.comp_def]

namespace Sheet

theorem indentOf_blank (field : Field) (text : List Char) :
    ∀ c ∈ indentOf field text, isBlank c = true ∧ Token.inLine c = true := by
  unfold indentOf
  extract_lets indent
  split
  · next all =>
    have blank : ∀ c ∈ indent, isBlank c = true := by simpa using (Bool.and_eq_true_iff.1 all).2
    refine fun c member => ⟨blank c member, ?_⟩
    exact List.mem_takeWhile_imp (List.mem_reverse.1 member)
  · simp [defaultIndent, Token.inLine, isBlank]

theorem indent_blank (found : Table) (text : List Char) :
    ∀ c ∈ found.indent text, isBlank c = true ∧ Token.inLine c = true := by
  unfold Table.indent
  cases found.lastField? with
  | none => simp [defaultIndent, Token.inLine, isBlank]
  | some field => exact indentOf_blank field text

theorem appendField_eq {found : Table} (declared : (read text).table? table = some found) (field expression : String) :
    let cursor := (Cursor.ofOffset found.anchor text.toList).pastRemark
    appendField text table field expression =
      some (String.ofList (cursor.insert
        (cursor.lineBreak ++ found.indent text.toList ++ declaration field expression))) := by
  cases last : found.lastField? <;> simp [appendField, declared, last, Table.anchor, Table.indent]

theorem exists_appendField {found : Table} (declared : (read text).table? table = some found) (field expression : String) :
    ∃ indent, (∀ c ∈ indent, isBlank c = true ∧ Token.inLine c = true) ∧
      let cursor := (Cursor.ofOffset found.anchor text.toList).pastRemark
      appendField text table field expression =
        some (String.ofList (cursor.insert (cursor.lineBreak ++ indent ++ declaration field expression))) :=
  ⟨found.indent text.toList, indent_blank found _, appendField_eq declared field expression⟩

theorem find?_outline (sheet : Sheet) (text : List Char) (name : String) :
    (sheet.outline text).tables.find? (·.name = name) = (sheet.table? name).map (Table.outline text) := by
  rw [outline, List.find?_map]
  rfl

/-- A field that is written on a line of its own behind the others of a table: the text before it, up to a carriage
return that ends its line in the old text, the line break and the blanks before the field, and how the new text is read
up to it. -/
structure Insertion (table field expression : String) where
  before : List Char
  kept : List Char
  ret : List Char
  rest : List Char
  cr : List Char
  indent : List Char
  items : List Item
  gap : List Char
  definition : Option Definition
  behind : List Char
  opened : TableOutline
  short : IsReturn ret
  unreturned : ret = [] → kept.getLast? ≠ some '\r'
  ends : Stops Token.inLine rest
  lineBreak : (⟨before ++ kept, ret ++ rest⟩ : Cursor).lineBreak = cr ++ ['\n']
  blank : ∀ c ∈ indent, isBlank c = true ∧ Token.inLine c = true
  indented : before ++ (kept ++ (cr ++ '\n' :: indent)) = Item.texts items ++ gap
  leads : Item.Leads (items ++ [⟨gap, .field field.toList definition⟩]) behind
  adds : Adds field expression ret rest definition behind
  ready : (DraftOutline.ofItems items).Ready table opened
  said : (ofChars (before ++ (kept ++ (ret ++ rest)))).outline (before ++ (kept ++ (ret ++ rest))) =
    ((Token.ofChars rest).foldl DraftOutline.step (.ofItems items)).finish

namespace Insertion

variable (insertion : Insertion table field expression)

def old : List Char := insertion.before ++ (insertion.kept ++ (insertion.ret ++ insertion.rest))

def new : List Char :=
  Item.texts (insertion.items ++ [⟨insertion.gap, .field field.toList insertion.definition⟩]) ++ insertion.behind

def added : Field :=
  Draft.declare (Draft.ofItems insertion.items).pending table (width (Item.texts insertion.items ++ insertion.gap))
    field.toList insertion.definition

end Insertion

theorem exists_insertion {found : Table} (declared : (read text).table? table = some found)
    (room : IsRemark (Cursor.ofOffset found.anchor text.toList).lineAfter) (legal : IsAddition field expression) :
    ∃ insertion : Insertion table field expression,
      text.toList = insertion.old ∧ found.anchor = width insertion.before ∧
      insertion.opened.fields.length = found.fields.length ∧
      appendField text table field expression = some (String.ofList insertion.new) := by
  obtain ⟨before, line, rest, _, opened, anchor, start, ready, length⟩ := exists_anchor declared room
  obtain ⟨kept, ret, short, unreturned, parts, past⟩ :=
    Cursor.exists_pastRemark before anchor.quiet anchor.inside anchor.ends
  obtain ⟨cr, short', lineBreak⟩ := Cursor.exists_lineBreak ⟨before ++ kept, ret ++ rest⟩
  obtain ⟨indent, blank, done⟩ := exists_appendField declared field expression
  obtain ⟨definition, behind, adds⟩ := exists_adds legal short anchor.ends
  obtain ⟨more, starts⟩ := Token.exists_text_field field.toList definition
  obtain ⟨items, gap, same, ascii, rfl, leads⟩ :=
    anchor.insert parts short short' (fun c member => (blank c member).1) (more ++ behind)
  have whole : text.toList = before ++ (kept ++ (ret ++ rest)) := by
    rw [anchor.parts, parts, List.append_assoc]
  refine ⟨⟨before, kept, ret, rest, cr, indent, items, gap, definition, behind, opened, short, unreturned, anchor.ends,
    lineBreak, blank, same, ?_, adds, ready, whole ▸ anchor.outline⟩, whole, start, length, ?_⟩
  · refine Item.leads_append.2 ⟨?_, ascii, adds.wellFormed, adds.ends, trivial⟩
    simpa [starts] using leads
  · have spell := calc before ++ kept ++ (cr ++ ['\n'] ++ indent ++ declaration field expression) ++ (ret ++ rest)
          = before ++ (kept ++ (cr ++ '\n' :: indent)) ++ (declaration field expression ++ (ret ++ rest)) := by simp
        _ = Item.texts items ++ gap ++ ((Token.field field.toList definition).text ++ behind) := by rw [same, adds.spell]
        _ = Item.texts (items ++ [⟨gap, .field field.toList definition⟩]) ++ behind := by simp
    have place : Cursor.ofOffset found.anchor text.toList = ⟨before, line ++ rest⟩ := by
      rw [start, anchor.parts, Cursor.ofOffset_width]
    rw [done, place, past, lineBreak, Cursor.insert, spell]
    rfl

namespace Insertion

variable (insertion : Insertion table field expression) {found : Table}

/-- The new field is the only thing that the text with it says more. -/
theorem outline_new (declared : (ofChars insertion.old).table? table = some found)
    (length : insertion.opened.fields.length = found.fields.length) :
    (ofChars insertion.new).outline insertion.new = ((ofChars insertion.old).outline insertion.old).changeTable table
      (·.appendFields [.added field expression]) := by
  have last : ∀ other,
      ((Token.ofChars insertion.rest).foldl DraftOutline.step (.ofItems insertion.items)).finish.tables.find?
        (·.name = table) = some other → other.fields.length = insertion.opened.fields.length := by
    intro other same
    rw [← insertion.said, ← old, find?_outline, declared] at same
    obtain rfl := Option.some.inj same
    simp [Table.outline, length]
  have said : (ofChars insertion.old).outline insertion.old = _ := insertion.said
  rw [new, outline_leads insertion.leads, DraftOutline.ofItems_concat, insertion.ready.step_field, insertion.adds.same,
    insertion.adds.defined, said, ← insertion.ready.finish_added last, String.ofList_toList]
  rfl

/-- The table has the new field behind the others. -/
theorem exists_table? (declared : (ofChars insertion.old).table? table = some found)
    (length : insertion.opened.fields.length = found.fields.length) :
    ∃ found' others, (ofChars insertion.new).table? table = some found' ∧ found'.fields = others ++ [insertion.added] ∧
      others.map (·.key.field) = found.fieldNames := by
  obtain ⟨now, reaches, plain, length'⟩ := Draft.exists_reaches insertion.ready
  obtain ⟨grown, reaches, fields⟩ := reaches.exists_declare plain insertion.gap field.toList insertion.definition
  obtain ⟨found', declared', -, initial⟩ := reaches.exists_table? insertion.leads
  have keeps : ∀ old : TableOutline, (old.appendFields [.added field expression]).name = old.name := fun _ => rfl
  have listed := find?_outline (ofChars insertion.new) insertion.new table
  rw [insertion.outline_new declared length, SheetOutline.find?_changeTable keeps, find?_outline, declared] at listed
  rw [← new] at declared'
  rw [declared'] at listed
  have names : found.fieldNames ++ [field] = found'.fieldNames := by
    have same := congrArg (fun outline => outline.fields.map (·.name)) (Option.some.inj listed)
    rwa [TableOutline.appendFields, List.map_append, Table.names_outline, Table.names_outline] at same
  have all : grown.fields = found'.fields := by
    refine initial.eq_of_length ?_
    have count := congrArg List.length names
    simp only [Table.fieldNames, List.length_append, List.length_map, List.length_singleton] at count
    rw [fields, List.length_append, List.length_singleton, length', length, count]
  rw [fields] at all
  refine ⟨found', now.fields, declared', all.symm, ?_⟩
  have split : found'.fieldNames = now.fields.map (·.key.field) ++ [insertion.added.key.field] := by
    rw [Table.fieldNames, ← all, List.map_append]
    rfl
  exact (List.append_inj_left' (names.trans split) rfl).symm

/-- Behind the new field the line says nothing more. -/
theorem isRemark_lineAfter : IsRemark (Cursor.ofOffset insertion.added.span.stop insertion.new).lineAfter := by
  obtain ⟨run, blank, inside, left⟩ := insertion.adds.left
  have whole : insertion.new = (Item.texts insertion.items ++ insertion.gap ++
      Token.stated field.toList insertion.definition) ++ (run ++ insertion.rest) := by
    rw [← left]
    simp [new, Token.text_stated]
  rw [added, Draft.span_declare, whole, Cursor.ofOffset_width, Cursor.lineAfter_eq inside insertion.ends]
  exact isRemark_blank blank

end Insertion

/-- One field appended: what the text says then, and that it takes another one. -/
theorem exists_append {found : Table} (declared : (read text).table? table = some found)
    (room : IsRemark (Cursor.ofOffset found.anchor text.toList).lineAfter) (legal : IsAddition field expression) :
    ∃ out found', appendField text table field expression = some out ∧
      (read out).outline out.toList = ((read text).outline text.toList).changeTable table
        (·.appendFields [.added field expression]) ∧
      (read out).table? table = some found' ∧ IsRemark (Cursor.ofOffset found'.anchor out.toList).lineAfter := by
  obtain ⟨insertion, parts, -, length, done⟩ := exists_insertion declared room legal
  rw [read, parts] at declared
  obtain ⟨found', others, declared', fields, -⟩ := insertion.exists_table? declared length
  have stop : found'.anchor = insertion.added.span.stop := by simp [Table.anchor, Table.lastField?, fields]
  refine ⟨_, found', done, ?_, ?_, ?_⟩
  · rw [read, read, String.toList_ofList, parts]
    exact insertion.outline_new declared length
  · rw [read, String.toList_ofList]
    exact declared'
  · rw [String.toList_ofList, stop]
    exact insertion.isRemark_lineAfter

/-- Fields appended one behind the other. -/
theorem exists_appendAll {found : Table} (declared : (read text).table? table = some found)
    (room : IsRemark (Cursor.ofOffset found.anchor text.toList).lineAfter) (additions : List (String × String))
    (legal : ∀ a ∈ additions, IsAddition a.1 a.2) :
    ∃ out, additions.foldlM (fun text a => appendField text table a.1 a.2) text = some out ∧
      (read out).outline out.toList = ((read text).outline text.toList).changeTable table
        (·.appendFields (additions.map fun a => .added a.1 a.2)) := by
  induction additions generalizing text found with
  | nil => exact ⟨text, rfl, (SheetOutline.changeTable_same (by simp [TableOutline.appendFields]) _).symm⟩
  | cons a additions ih =>
    obtain ⟨middle, found', first, same, declared', room'⟩ := exists_append declared room (legal a (by simp))
    obtain ⟨out, others, same'⟩ := ih declared' room' fun b member => legal b (by simp [member])
    refine ⟨out, by simp [List.foldlM_cons, first, others], ?_⟩
    rw [same', same, SheetOutline.changeTable_appendFields]
    rfl

/-- Appending a field to a table puts it behind the other fields of the table and changes nothing else that the sheet
says; so does appending any number of them in order. -/
theorem appendField_exact (text table field expression : String) (additions : List (String × String)) {found : Table}
    (declared : (read text).table? table = some found)
    (room : IsRemark (Cursor.ofOffset found.anchor text.toList).lineAfter) (legal : IsAddition field expression)
    (others : ∀ a ∈ additions, IsAddition a.1 a.2) :
    (∃ out, appendField text table field expression = some out ∧ (read text).Keyed ∧ (read out).Keyed ∧
      (read out).outline out.toList = ((read text).outline text.toList).changeTable table
        (·.appendFields [.added field expression])) ∧
    ∃ out, additions.foldlM (fun text a => appendField text table a.1 a.2) text = some out ∧ (read out).Keyed ∧
      (read out).outline out.toList = ((read text).outline text.toList).changeTable table
        (·.appendFields (additions.map fun a => .added a.1 a.2)) := by
  obtain ⟨one, -, done, same, -⟩ := exists_append declared room legal
  obtain ⟨all, done', same'⟩ := exists_appendAll declared room additions others
  exact ⟨⟨one, done, keyed_read _, keyed_read _, same⟩, all, done', keyed_read _, same'⟩

/-- The field before is indented by a wide blank and has a comment, the lines end with carriage returns, a block follows,
and the expression leaves a quote open before a comment mark. -/
theorem appendField_exact_indented :
    let text := "table t\r\n\u3000[a]\u00a0# c\r\noverride\r\n x\r\ntable t\n[z]"
    let additions := [("b", ""), ("b", " 1 ")]
    ∃ found, (read text).table? "t" = some found ∧
      IsRemark (Cursor.ofOffset found.anchor text.toList).lineAfter ∧ IsAddition "é" " '#  x" ∧
      (∀ a ∈ additions, IsAddition a.1 a.2) ∧
      (∃ out, appendField text "t" "é" " '#  x" = some out ∧
        (read out).outline out.toList = ((read text).outline text.toList).changeTable "t"
          (·.appendFields [⟨"é", false, false, [], some "'#  x"⟩])) ∧
      ∃ out, additions.foldlM (fun text a => appendField text "t" a.1 a.2) text = some out ∧
        (read out).outline out.toList = ((read text).outline text.toList).changeTable "t"
          (·.appendFields [⟨"b", false, false, [], none⟩, ⟨"b", false, false, [], some "1"⟩]) := by
  intro text additions
  obtain ⟨found, declared, stop⟩ : ∃ found, (read text).table? "t" = some found ∧ found.anchor = 15 :=
    Option.map_eq_some_iff.1 (by decide +kernel)
  have line : trim (Cursor.ofOffset 15 text.toList).lineAfter = "# c".toList := by decide +kernel
  have room : IsRemark (Cursor.ofOffset found.anchor text.toList).lineAfter := by
    rw [IsRemark, stop, line]
    simp
  have legal : IsAddition "é" " '#  x" := ⟨by simp, by decide +kernel, by decide +kernel⟩
  have others : ∀ a ∈ additions, IsAddition a.1 a.2 :=
    List.forall_mem_cons.2 ⟨⟨by simp, by decide +kernel, by decide +kernel⟩,
      List.forall_mem_singleton.2 ⟨by simp, by decide +kernel, by decide +kernel⟩⟩
  have one : FieldOutline.added "é" " '#  x" = ⟨"é", false, false, [], some "'#  x"⟩ := by decide +kernel
  have two : (additions.map fun a => FieldOutline.added a.1 a.2) =
      [⟨"b", false, false, [], none⟩, ⟨"b", false, false, [], some "1"⟩] := by decide +kernel
  obtain ⟨⟨out, done, -, -, same⟩, all, done', -, same'⟩ :=
    appendField_exact text "t" "é" " '#  x" additions declared room legal others
  rw [one] at same
  rw [two] at same'
  exact ⟨found, declared, room, legal, others, ⟨out, done, same⟩, all, done', same'⟩

end Sheet
end Gridbook
