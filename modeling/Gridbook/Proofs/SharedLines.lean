import Gridbook.Proofs.Appending
import Gridbook.Proofs.Cuts

/-!
Lines that go on. Behind a header or behind a field without an expression, the line may say more. An expression that is
written there takes in the rest of the line: what the line said is lost, as if it stood in a comment, and the expression
is longer than the one that was asked for.
-/
namespace Gridbook

open Text

def Cursor.silenced (cursor : Cursor) : List Char := cursor.insert ['#']

def TableOutline.insertField (index : Nat) (new : FieldOutline) (table : TableOutline) : TableOutline :=
  { table with fields := table.fields.take index ++ new :: table.fields.drop index }

theorem TableOutline.Exchanged.insertField {name : String} {front : List FieldOutline} {come : FieldOutline}
    {old new : TableOutline} (differ : Exchanged name front [] [come] old new) :
    new = old.insertField front.length come := by
  obtain ⟨-, back, fields, rfl⟩ := differ
  simp [TableOutline.insertField, fields]

/-- A new field of the open table, whatever is declared behind it. -/
theorem DraftOutline.Ready.finish_inserted {draft : DraftOutline} {name : String} {opened : TableOutline}
    (ready : draft.Ready name opened) (tokens : List Token) (new : FieldOutline) :
    (tokens.foldl step { draft with current := some (opened.appendFields [new]) }).finish =
      (tokens.foldl step draft).finish.changeTable name (·.insertField opened.fields.length new) := by
  have differ : TableOutline.Exchanged name opened.fields [] [new] opened (opened.appendFields [new]) :=
    ⟨ready.named, [], by simp, by simp [TableOutline.appendFields]⟩
  have start : { draft with current := some opened } = draft := by rw [← ready.current]
  have changed := finish_changed (TableOutline.lasting_exchanged _ _ _ _)
    (fun _ _ exchanged => ⟨exchanged.1, exchanged.insertField⟩) draft ready.first tokens differ
  rwa [start] at changed

namespace Token

variable {expression line rest : List Char}

/-- What of a line goes to an expression that stands before it: all up to the comment, and without the blanks at the end.
A quote that the expression leaves open goes on. -/
def carried (expression line : List Char) : List Char := trimEnd (splitRemark (openQuote none expression) line).1

/-- The first character that is no blank is no part of a comment if it is not the mark. -/
theorem mem_splitRemark {c : Char} {blanks more : List Char} (quote : Option Char) (blank : ∀ d ∈ blanks, isBlank d = true)
    (other : c ≠ '#') : c ∈ (splitRemark quote (blanks ++ c :: more)).1 := by
  induction blanks generalizing quote with
  | nil => cases quote <;> simp [splitRemark, other]
  | cons d blanks ih =>
    have mark : d ≠ '#' := by
      rintro rfl
      exact absurd (blank '#' (by simp)) (by decide)
    have later (quote : Option Char) := ih quote fun d member => blank d (by simp [member])
    cases quote <;> simp [splitRemark, mark, later]

theorem exists_raw (shared : ¬IsRemark line) (quote : Option Char) :
    ∃ front c back, (splitRemark quote line).1 = front ++ c :: back ∧ isBlank c = false := by
  have start : ¬Stops (· != '#') (trimStart line) := fun stops => shared (isRemark_iff.2 stops)
  cases rest : trimStart line with
  | nil => simp [rest] at start
  | cons c more =>
    have shown : isBlank c = false := by
      have stops := stops_dropWhile isBlank line
      rwa [← trimStart, rest, stops_cons] at stops
    have other : c ≠ '#' := by simpa [rest] using start
    have parts : line = line.takeWhile isBlank ++ c :: more := by
      rw [← rest, trimStart, List.takeWhile_append_dropWhile]
    have inside : c ∈ (splitRemark quote line).1 := by
      rw [parts]
      exact mem_splitRemark quote (fun _ => List.mem_takeWhile_imp) other
    obtain ⟨front, back, same⟩ := List.append_of_mem inside
    exact ⟨front, c, back, same, shown⟩

theorem carried_ne_nil (shared : ¬IsRemark line) (expression : List Char) : carried expression line ≠ [] := by
  obtain ⟨front, c, back, same, shown⟩ := exists_raw shared (openQuote none expression)
  rw [carried, same, trimEnd, dropEndWhile_append_cons shown]
  simp

theorem body_carried (nonempty : expression ≠ []) (trimmed : trim expression = expression)
    (free : isRemarkFree none expression = true) (shared : ¬IsRemark line) (gap : List Char) :
    (Definition.ofLine gap (' ' :: (expression ++ line))).body = expression ++ carried expression line := by
  obtain ⟨front, c, back, same, shown⟩ := exists_raw shared (openQuote none expression)
  have space : ∀ d ∈ [' '], isBlank d = true := by simp; decide
  have start : Stops isBlank (expression ++ (front ++ c :: back)) := by
    rw [stops_append nonempty, ← trimmed]
    exact stops_trim expression
  calc trim (splitRemark none (' ' :: (expression ++ line))).1
      = trim ([' '] ++ (expression ++ (splitRemark (openQuote none expression) line).1)) := by
        rw [← List.singleton_append, splitRemark_blank_append space, splitRemark_free_append free]
    _ = trim (expression ++ (front ++ c :: back)) := by rw [trim_run_append space, same]
    _ = expression ++ carried expression line := by
        rw [trim, trimStart, dropWhile_of_stops start, carried, same, trimEnd, trimEnd, ← List.append_assoc,
          dropEndWhile_append_cons shown, dropEndWhile_append_cons shown, List.append_assoc]

/-- An expression written before a line that goes on defines the field by itself and what it carries along. -/
theorem exists_definition_shared (oneLine : '\n' ∉ expression) (free : isRemarkFree none expression = true)
    (trimmed : trim expression = expression) (nonempty : expression ≠ []) (inside : ∀ c ∈ line, inLine c = true)
    (shared : ¬IsRemark line) :
    ∃ d : Definition, d.WellFormed ∧ d.body = expression ++ carried expression line ∧
      d.text = [' ', '=', ' '] ++ (expression ++ line) := by
  refine ⟨.ofLine [' '] (' ' :: (expression ++ line)), ?_, body_carried nonempty trimmed free shared [' '], ?_⟩
  · refine Definition.wellFormed_ofLine (by simp [isInlineBlank]) (List.forall_mem_cons.2 ⟨by decide, ?_⟩)
    exact List.forall_mem_append.2 ⟨inLine_of_not_mem oneLine, inside⟩
  · rw [Definition.text_ofLine]
    rfl

/-- A line that was made a comment says nothing. -/
theorem foldl_silenced (inside : ∀ c ∈ line, inLine c = true) (ends : Stops inLine rest) (draft : DraftOutline) :
    (ofChars ('#' :: (line ++ rest))).foldl DraftOutline.step draft = (ofChars rest).foldl DraftOutline.step draft := by
  have quiet : IsRemark ('#' :: line) := by
    rw [isRemark_iff, trimStart, dropWhile_of_stops (by simp; decide)]
    simp
  obtain ⟨items, blanks, same, ascii, idle, further⟩ :=
    Item.exists_idle quiet (List.forall_mem_cons.2 ⟨by decide, inside⟩) ends
  rw [← List.cons_append, same, List.append_assoc, foldl_idle idle ascii further]

end Token

namespace Seat

variable (seat : Seat)

/-- What ends words can stand behind a seat, if it is no definition. -/
theorem leads_apart {after : List Char} (apart : Stops (!Token.isWordEnd ·) after)
    (unset : Stops (· == '=') (after.dropWhile isInlineBlank)) : Item.Leads seat.items after :=
  seat.exchange (seat.endsBefore.1.endsBefore seat.plain seat.fillsLine seat.named apart unset)

theorem leads_silenced : Item.Leads seat.items ('#' :: (seat.line ++ seat.rest)) := by
  refine seat.leads_apart (by simp [Token.isWordEnd]) ?_
  rw [dropWhile_of_stops (by simp; decide)]
  simp

theorem outline_silenced :
    let silenced := Item.texts seat.items ++ '#' :: (seat.line ++ seat.rest)
    (Sheet.ofChars silenced).outline silenced =
      ((Token.ofChars seat.rest).foldl DraftOutline.step (.ofItems seat.items)).finish := by
  intro silenced
  rw [Sheet.outline_leads seat.leads_silenced, Token.foldl_silenced seat.inside seat.ends]

/-- The next line, whatever it says. -/
theorem leads_newline {cr : List Char} (short : IsReturn cr) (next : List Char) :
    Item.Leads seat.items (cr ++ '\n' :: next) := by
  have stops {p : Char → Bool} (return' : p '\r' = false) (newline : p '\n' = false) : Stops p (cr ++ '\n' :: next) :=
    short.stops Token.stops_newline return' newline
  refine seat.leads_apart (stops (by decide) (by decide)) ?_
  rw [dropWhile_of_stops (stops (by decide) (by decide))]
  exact stops (by decide) (by decide)

end Seat

namespace Sheet

variable {text table field expression : String}

/-- Before a line that goes on, the cursor stays where it is. -/
theorem pastRemark_shared {cursor : Cursor} (shared : ¬IsRemark cursor.lineAfter) : cursor.pastRemark = cursor := by
  rw [IsRemark] at shared
  unfold Cursor.pastRemark
  extract_lets line
  split
  · next same => simp [line, same] at shared
  · next same => simp [line, same] at shared
  · rfl

/-- The seat at which a line goes on behind the fields of a table. -/
theorem exists_seat {found : Table} (declared : (read text).table? table = some found)
    (shared : ¬IsRemark (Cursor.ofOffset found.anchor text.toList).lineAfter) :
    ∃ (seat : Seat) (opened : TableOutline),
      Cursor.ofOffset found.anchor text.toList = ⟨Item.texts seat.items, seat.line ++ seat.rest⟩ ∧ ¬IsRemark seat.line ∧
        (DraftOutline.ofItems seat.items).Ready table opened ∧ opened.fields.length = found.fields.length := by
  obtain ⟨opened, length, ⟨before, line, rest, draft, anchor, start, ready⟩ | ⟨seat, parts, start, ready⟩⟩ :=
    exists_anchor_cases declared
  · rw [start, anchor.parts, Cursor.ofOffset_width, Cursor.lineAfter_eq anchor.inside anchor.ends] at shared
    exact absurd anchor.quiet shared
  · rw [start, parts, Seat.text, Cursor.ofOffset_width] at shared ⊢
    rw [Cursor.lineAfter_eq seat.inside seat.ends] at shared
    exact ⟨seat, opened, rfl, shared, ready, length⟩

/-- A field appended where the line goes on takes in the rest of the line. The new field stands behind those that the
table had before, but its expression is longer than the one asked for; and the sheet says nothing of what the line said,
so that what was declared behind it can go to this table. -/
theorem appendField_shared (text table field expression : String) {found : Table}
    (declared : (read text).table? table = some found)
    (shared : ¬IsRemark (Cursor.ofOffset found.anchor text.toList).lineAfter) (legal : IsAddition field expression)
    (trimmed : trim expression.toList = expression.toList) (nonempty : expression ≠ "") :
    ∃ out, appendField text table field expression = some out ∧ (read out).Keyed ∧
      let cursor := Cursor.ofOffset found.anchor text.toList
      let more := Token.carried expression.toList cursor.lineAfter
      more ≠ [] ∧
        (read out).outline out.toList = ((ofChars cursor.silenced).outline cursor.silenced).changeTable table
          (·.insertField found.fields.length
            ⟨field, false, false, [], some (String.ofList (expression.toList ++ more))⟩) := by
  obtain ⟨seat, opened, place, shared', ready, length⟩ := exists_seat declared shared
  obtain ⟨cr, short, lineBreak⟩ := Cursor.exists_lineBreak ⟨Item.texts seat.items, seat.line ++ seat.rest⟩
  obtain ⟨indent, blank, done⟩ := exists_appendField declared field expression
  obtain ⟨d, wellFormed, body, spell⟩ := Token.exists_definition_shared legal.oneLine legal.free trimmed
    (by simpa using nonempty) seat.inside shared'
  let token := Token.field field.toList (some d)
  have wellFormed : token.WellFormed := ⟨by simpa using legal.name, by simpa using wellFormed⟩
  have declares : declaration field expression ++ (seat.line ++ seat.rest) = token.text ++ seat.rest := by
    simp [declaration, FieldKey.bracketed, token, Token.text, spell, nonempty]
  obtain ⟨more, starts⟩ := Token.exists_text_field field.toList (some d)
  -- The line is ended behind the seat, and the field is read behind the blanks of the next one.
  have blanks : ∀ c ∈ cr ++ '\n' :: indent, isBlank c = true :=
    List.forall_mem_append.2 ⟨short.isBlank, List.forall_mem_cons.2 ⟨by decide, fun c member => (blank c member).1⟩⟩
  have behind : Item.Leads seat.items ((cr ++ '\n' :: indent) ++ '[' :: (more ++ seat.rest)) := by
    simpa using seat.leads_newline short (indent ++ '[' :: (more ++ seat.rest))
  obtain ⟨words, gap, indented, ascii, silent, leads⟩ := behind.indent blanks
  have leads : Item.Leads (seat.items ++ words ++ [⟨gap, token⟩]) seat.rest := by
    refine Item.leads_append.2 ⟨?_, ascii, wellFormed, (Token.endsBefore_iff rfl).2 seat.ends, trivial⟩
    simpa [token, starts] using leads
  have out := calc Item.texts seat.items ++ (cr ++ ['\n'] ++ indent ++ declaration field expression) ++
          (seat.line ++ seat.rest)
        = Item.texts seat.items ++ ((cr ++ '\n' :: indent) ++
            (declaration field expression ++ (seat.line ++ seat.rest))) := by simp
      _ = Item.texts (seat.items ++ words ++ [⟨gap, token⟩]) ++ seat.rest := by
          rw [declares, indented]
          simp
  have silenced : (⟨Item.texts seat.items, seat.line ++ seat.rest⟩ : Cursor).silenced =
      Item.texts seat.items ++ '#' :: (seat.line ++ seat.rest) := by
    simp [Cursor.silenced, Cursor.insert]
  dsimp only at done ⊢
  rw [pastRemark_shared shared, place, lineBreak, Cursor.insert, out] at done
  rw [place, Cursor.lineAfter_eq seat.inside seat.ends]
  refine ⟨_, done, keyed_read _, Token.carried_ne_nil shared' _, ?_⟩
  rw [read, String.toList_ofList, outline_leads leads, DraftOutline.ofItems_concat, silent, silenced, seat.outline_silenced,
    ready.step_field, ready.finish_inserted, length, String.ofList_toList, Option.map_some, Option.map_some, body]

/-- The line ends with a carriage return and a comment with another quote, before which a modifier waits for the total of
the next line; the expression leaves a quote open, which takes in the comment. -/
theorem appendField_shared_quoted :
    let text := "table t\r\n [a] key # 'k\r\ntotal\r\n[b]"
    let out := "table t\r\n [a]\r\n [é] = \"x key # 'k\r\ntotal\r\n[b]"
    let silenced := "table t\r\n [a]# key # 'k\r\ntotal\r\n[b]"
    ∃ found, (read text).table? "t" = some found ∧
      ¬IsRemark (Cursor.ofOffset found.anchor text.toList).lineAfter ∧ IsAddition "é" "\"x" ∧
      appendField text "t" "é" "\"x" = some out ∧
      (read out).outline out.toList = ((read silenced).outline silenced.toList).changeTable "t"
        (·.insertField 1 ⟨"é", false, false, [], some "\"x key # 'k"⟩) := by
  intro text out silenced
  obtain ⟨found, declared, same⟩ : ∃ found, (read text).table? "t" = some found ∧
      (found.anchor, found.fields.length) = (13, 1) := Option.map_eq_some_iff.1 (by decide +kernel)
  obtain ⟨stop, length⟩ := Prod.mk.inj same
  have line : trim (Cursor.ofOffset 13 text.toList).lineAfter = "key # 'k".toList := by decide +kernel
  have shared : ¬IsRemark (Cursor.ofOffset found.anchor text.toList).lineAfter := by
    rw [IsRemark, stop, line]
    simp
  have legal : IsAddition "é" "\"x" := ⟨by simp, by decide +kernel, by decide +kernel⟩
  have more : String.ofList ("\"x".toList ++ Token.carried "\"x".toList (Cursor.ofOffset 13 text.toList).lineAfter) =
      "\"x key # 'k" := by decide +kernel
  have muted : (Cursor.ofOffset 13 text.toList).silenced = silenced.toList := by decide +kernel
  have done : appendField text "t" "é" "\"x" = some out := by decide +kernel
  obtain ⟨out', done', -, -, outline⟩ :=
    appendField_shared text "t" "é" "\"x" declared shared legal (by decide +kernel) (by decide)
  obtain rfl := Option.some.inj (done.symm.trans done')
  rw [stop, length, more, muted] at outline
  exact ⟨found, declared, shared, legal, done, outline⟩

/-- The header of the next table goes to the expression, and the field of that table to the one before. -/
theorem appendField_takes_header :
    let text := "table a table b\n  [x] = 1"
    let out := "table a\n  [f] = 1 table b\n  [x] = 1"
    ∃ found, (read text).table? "a" = some found ∧
      ¬IsRemark (Cursor.ofOffset found.anchor text.toList).lineAfter ∧ IsAddition "f" "1" ∧
      appendField text "a" "f" "1" = some out ∧ (read text).tables.map (·.name) = ["a", "b"] ∧
      (read out).outline out.toList =
        ⟨[⟨"a", [], [⟨"f", false, false, [], some "1 table b"⟩, ⟨"x", false, false, [], some "1"⟩], [], none, none⟩], []⟩ := by
  intro text out
  obtain ⟨found, declared, stop⟩ : ∃ found, (read text).table? "a" = some found ∧ found.anchor = 7 :=
    Option.map_eq_some_iff.1 (by decide +kernel)
  have line : trim (Cursor.ofOffset 7 text.toList).lineAfter = "table b".toList := by decide +kernel
  refine ⟨found, declared, ?_, ⟨by simp, by decide +kernel, by decide +kernel⟩, by decide +kernel, by decide +kernel,
    by decide +kernel⟩
  rw [IsRemark, stop, line]
  simp

/-- An expression set on a field that has none, where the line goes on, takes in the rest of the line: it is longer than
the one asked for, and the sheet says nothing of what the line said. -/
theorem setExpression_shared (text table field expression : String) {found : Field}
    (declared : (read text).field? table field = some found) (undefined : found.expression = none)
    (shared : ¬IsRemark (Cursor.ofOffset found.nameSpan.stop text.toList).lineAfter)
    (oneLine : '\n' ∉ expression.toList) (free : Token.isRemarkFree none expression.toList = true)
    (trimmed : trim expression.toList = expression.toList) (nonempty : expression ≠ "") :
    ∃ out, setExpression text table field expression = some out ∧ (read out).Keyed ∧
      let cursor := Cursor.ofOffset found.nameSpan.stop text.toList
      let more := Token.carried expression.toList cursor.lineAfter
      more ≠ [] ∧
        (read out).outline out.toList = ((ofChars cursor.silenced).outline cursor.silenced).changeTable table
          (·.changeField field ({ · with expression := some (String.ofList (expression.toList ++ more)) })) := by
  obtain ⟨front, gap, word, definition, rest, old, parts, leads, reaches, plain, first, rfl, rfl⟩ := exists_field? declared
  obtain rfl : definition = none := by
    cases definition with
    | none => rfl
    | some d => exact absurd undefined (by simp [Draft.declare])
  obtain ⟨line, rest, rfl, inside, ends⟩ := exists_line rest
  let seat : Seat := ⟨front, gap, .field word none, line, rest, leads, .inl ⟨word, rfl⟩, inside, ends⟩
  have whole : text.toList = Item.texts front ++ gap ++ ((Token.field word none).text ++ (line ++ rest)) := by
    rw [parts]
    simp
  have place : Cursor.ofOffset (Draft.declare (Draft.ofItems front).pending table (width (Item.texts front ++ gap)) word
      none).nameSpan.stop text.toList = ⟨Item.texts seat.items, line ++ rest⟩ := by
    rw [whole, Draft.nameSpan_declare, Cursor.ofOffset_over]
    simp [seat, Seat.items]
  have silenced : (⟨Item.texts seat.items, line ++ rest⟩ : Cursor).silenced =
      Item.texts seat.items ++ '#' :: (line ++ rest) := by
    simp [Cursor.silenced, Cursor.insert]
  rw [place, Cursor.lineAfter_eq inside ends] at shared
  obtain ⟨d, wellFormed, body, spell⟩ :=
    Token.exists_definition_shared oneLine free trimmed (by simpa using nonempty) inside shared
  have done : setExpression text table (String.ofList word) expression =
      some (String.ofList (Item.texts (front ++ [⟨gap, .field word (some d)⟩]) ++ rest)) := by
    have insertion := Span.replace_over (Item.texts front ++ gap ++ (Token.field word none).text) [] (line ++ rest)
      ([' ', '=', ' '] ++ expression.toList)
    have out : Item.texts (front ++ [⟨gap, .field word (some d)⟩]) ++ rest =
        Item.texts front ++ gap ++ (Token.field word none).text ++
          (([' ', '=', ' '] ++ expression.toList) ++ (line ++ rest)) := by
      simp [Token.text, spell]
    rw [setExpression_none declared rfl, out, whole, Draft.nameSpan_declare]
    simpa [Span.over, Nat.add_assoc] using congrArg String.ofList insertion
  dsimp only
  rw [place, Cursor.lineAfter_eq inside ends]
  refine ⟨_, done, keyed_read _, Token.carried_ne_nil shared _, ?_⟩
  rw [read, String.toList_ofList, silenced, ← body]
  exact outline_define seat.leads_silenced (leads.define wellFormed ends) (Token.foldl_silenced inside ends)
    reaches plain first

/-- Another field stands behind the name, with a comment mark between its quotes and a comment; a later field has the
same name as the first. -/
theorem setExpression_shared_quoted :
    let text := "table t\r\n !d [a] [b] = 'x # y' # c\r\n[a]"
    let out := "table t\r\n !d [a] = é + [b] = 'x # y' # c\r\n[a]"
    let silenced := "table t\r\n !d [a]# [b] = 'x # y' # c\r\n[a]"
    ∃ found, (read text).field? "t" "a" = some found ∧ found.expression = none ∧
      ¬IsRemark (Cursor.ofOffset found.nameSpan.stop text.toList).lineAfter ∧
      setExpression text "t" "a" "é +" = some out ∧
      (read out).outline out.toList = ((read silenced).outline silenced.toList).changeTable "t"
        (·.changeField "a" ({ · with expression := some "é + [b] = 'x # y'" })) := by
  intro text out silenced
  obtain ⟨found, declared, same⟩ : ∃ found, (read text).field? "t" "a" = some found ∧
      (found.nameSpan.stop, found.expression) = (16, none) := Option.map_eq_some_iff.1 (by decide +kernel)
  obtain ⟨stop, undefined⟩ := Prod.mk.inj same
  have line : trim (Cursor.ofOffset 16 text.toList).lineAfter = "[b] = 'x # y' # c".toList := by decide +kernel
  have shared : ¬IsRemark (Cursor.ofOffset found.nameSpan.stop text.toList).lineAfter := by
    rw [IsRemark, stop, line]
    simp
  have more : String.ofList ("é +".toList ++ Token.carried "é +".toList (Cursor.ofOffset 16 text.toList).lineAfter) =
      "é + [b] = 'x # y'" := by decide +kernel
  have muted : (Cursor.ofOffset 16 text.toList).silenced = silenced.toList := by decide +kernel
  have done : setExpression text "t" "a" "é +" = some out := by decide +kernel
  obtain ⟨out', done', -, -, outline⟩ := setExpression_shared text "t" "a" "é +" declared undefined shared
    (by decide +kernel) (by decide +kernel) (by decide +kernel) (by decide)
  obtain rfl := Option.some.inj (done.symm.trans done')
  rw [stop, more, muted] at outline
  exact ⟨found, declared, undefined, shared, done, outline⟩

/-- The other field of the line goes to the expression. -/
theorem setExpression_takes_field :
    let text := "table t\n  [a] [b] = 2"
    let out := "table t\n  [a] = 1 [b] = 2"
    ∃ found, (read text).field? "t" "a" = some found ∧ found.expression = none ∧
      ¬IsRemark (Cursor.ofOffset found.nameSpan.stop text.toList).lineAfter ∧
      setExpression text "t" "a" "1" = some out ∧ (read text).tables.map (·.fieldNames) = [["a", "b"]] ∧
      (read out).outline out.toList =
        ⟨[⟨"t", [], [⟨"a", false, false, [], some "1 [b] = 2"⟩], [], none, none⟩], []⟩ := by
  intro text out
  obtain ⟨found, declared, same⟩ : ∃ found, (read text).field? "t" "a" = some found ∧
      (found.nameSpan.stop, found.expression) = (13, none) := Option.map_eq_some_iff.1 (by decide +kernel)
  obtain ⟨stop, undefined⟩ := Prod.mk.inj same
  have line : trim (Cursor.ofOffset 13 text.toList).lineAfter = "[b] = 2".toList := by decide +kernel
  refine ⟨found, declared, undefined, ?_, by decide +kernel, by decide +kernel, by decide +kernel⟩
  rw [IsRemark, stop, line]
  simp

end Sheet
end Gridbook
