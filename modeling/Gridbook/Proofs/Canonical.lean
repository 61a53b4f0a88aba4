import Gridbook.Proofs.Outline

/-!
Writing a sheet. Tables are written one declaration a line: decorators, header, fields, blocks and totals. Reading
what was written gives the tables back, whatever their names, arguments and expressions look like, as long as each
is legal where it stands.
-/
namespace Gridbook

open Text

/-- No comment mark stands outside quotes, `quote` being the quote that is open. -/
def Token.isRemarkFree : (quote : Option Char) → List Char → Bool
  | _, [] => true
  | none, c :: cs => c != '#' && isRemarkFree (if c = '"' ∨ c = '\x27' then some c else none) cs
  | some quote, c :: cs => isRemarkFree (if c = quote then none else some quote) cs

namespace DecoratorOutline

def written (decorator : DecoratorOutline) : String :=
  "!" ++ decorator.name ++ (decorator.args.map fun args => "(" ++ args ++ ")").getD ""

structure Legal (decorator : DecoratorOutline) : Prop where
  nonempty : decorator.name ≠ ""
  name : ∀ c ∈ decorator.name.toList, Token.isDecoratorNameChar c = true
  args : ∀ args ∈ decorator.args, Token.balanced 0 false args.toList = true

end DecoratorOutline

namespace FieldOutline

def declaration (field : FieldOutline) : String :=
  (if field.isKey then "key " else "") ++ (if field.isDim then "dim " else "") ++
    "[" ++ field.name ++ "]" ++ (field.expression.map (" = " ++ ·)).getD ""

def lines (field : FieldOutline) : List String :=
  field.decorators.map (·.written) ++ [field.declaration]

structure Legal (field : FieldOutline) : Prop where
  name : ∀ c ∈ field.name.toList, c ≠ ']' ∧ c ≠ '\n'
  decorators : ∀ d ∈ field.decorators, d.Legal
  trimmed : ∀ e ∈ field.expression, trim e.toList = e.toList
  oneLine : ∀ e ∈ field.expression, '\n' ∉ e.toList
  remarkFree : ∀ e ∈ field.expression, Token.isRemarkFree none e.toList = true

end FieldOutline

/-- The keyword alone on its line, then lines of which none ends a block. -/
def BlockKind.IsLegal (kind : BlockKind) (block : String) : Prop :=
  ∃ lines : List String, block.toList = kind.word.toList ++ lines.flatMap (fun line => '\n' :: line.toList) ∧
    ∀ line ∈ lines, '\n' ∉ line.toList ∧ Token.endsBlock line.toList = false

namespace TableOutline

def lines (table : TableOutline) : List String :=
  table.decorators.map (·.written) ++ ["table " ++ table.name] ++ table.fields.flatMap (·.lines) ++
    table.apply.toList ++ table.override.toList ++
    if table.totals.isEmpty then [] else "total" :: table.totals.flatMap (·.lines)

structure Legal (table : TableOutline) : Prop where
  name : Token.IsBare table.name.toList ∨ Token.IsQuoted table.name.toList
  decorators : ∀ d ∈ table.decorators, d.Legal
  fields : ∀ f ∈ table.fields, f.Legal
  apply : ∀ block ∈ table.apply, BlockKind.apply.IsLegal block
  override : ∀ block ∈ table.override, BlockKind.override.IsLegal block
  totals : ∀ f ∈ table.totals, f.Legal

end TableOutline

def Text.unlines (lines : List String) : List Char :=
  lines.flatMap fun line => line.toList ++ ['\n']

def SheetOutline.write (tables : List TableOutline) : String :=
  String.ofList (unlines (tables.flatMap TableOutline.lines))

/-- A block as it is read back: the blanks at its end are gone. -/
def TableOutline.trimmed (table : TableOutline) : TableOutline :=
  let trimmed (block : String) := String.ofList (dropEndWhile isAsciiBlank block.toList)
  { table with override := table.override.map trimmed, apply := table.apply.map trimmed }

/-! The tokens that are written. -/

def DecoratorOutline.token (decorator : DecoratorOutline) : Token :=
  .decorator decorator.name.toList (decorator.args.map String.toList)

def FieldOutline.token (field : FieldOutline) : Token :=
  .field field.name.toList (field.expression.map fun e => ⟨[' '], [' '], e.toList, []⟩)

def FieldOutline.tokens (field : FieldOutline) : List Token :=
  field.decorators.map (·.token) ++ (if field.isKey then [.key] else []) ++ (if field.isDim then [.dim] else []) ++
    [field.token]

def BlockKind.token (kind : BlockKind) (block : String) : Token :=
  .block kind (dropEndWhile isAsciiBlank (block.toList.drop kind.word.toList.length))

def TableOutline.tokens (table : TableOutline) : List Token :=
  table.decorators.map (·.token) ++ [.table [' '] table.name.toList] ++ table.fields.flatMap (·.tokens) ++
    table.apply.toList.map BlockKind.apply.token ++ table.override.toList.map BlockKind.override.token ++
    if table.totals.isEmpty then [] else .total :: table.totals.flatMap (·.tokens)

namespace Text

@[simp] theorem unlines_nil : unlines [] = [] := rfl

@[simp] theorem unlines_append (front back : List String) :
    unlines (front ++ back) = unlines front ++ unlines back := by
  simp [unlines]

@[simp] theorem unlines_cons (line : String) (lines : List String) :
    unlines (line :: lines) = line.toList ++ '\n' :: unlines lines := by
  simp [unlines]

end Text

namespace DecoratorOutline

theorem text_token (decorator : DecoratorOutline) : decorator.token.text = decorator.written.toList := by
  cases args : decorator.args <;> simp [token, written, args, Token.text]

theorem Legal.wellFormed {decorator : DecoratorOutline} (legal : decorator.Legal) : decorator.token.WellFormed := by
  refine ⟨by simpa using legal.nonempty, legal.name, ?_⟩
  intro args member
  obtain ⟨written, found, rfl⟩ := Option.map_eq_some_iff.1 member
  exact legal.args written found

theorem ofChars_unlines {decorators : List DecoratorOutline} (legal : ∀ d ∈ decorators, d.Legal) (rest : List Char) :
    Token.ofChars (unlines (decorators.map (·.written)) ++ rest) =
      decorators.map (·.token) ++ Token.ofChars rest := by
  induction decorators with
  | nil => simp
  | cons d decorators ih =>
    simp only [List.map_cons, unlines_cons, List.append_assoc, List.cons_append]
    rw [← text_token, Token.ofChars_line (legal d (by simp)).wellFormed (by simp [token, Token.isBlock]),
      ih fun d member => legal d (by simp [member])]

end DecoratorOutline

theorem Token.splitRemark_of_isRemarkFree {quote : Option Char} {cs : List Char}
    (free : isRemarkFree quote cs = true) : (splitRemark quote cs).1 = cs := by
  fun_induction isRemarkFree quote cs with
  | case1 => rfl
  | case2 c cs ih =>
    simp only [Bool.and_eq_true, bne_iff_ne] at free
    simp [splitRemark, free.1, ih free.2]
  | case3 quote c cs ih => simp [splitRemark, ih free]

namespace FieldOutline

/-- An expression behind an equals sign with a space on either side. -/
theorem definition_wellFormed {expression : List Char} (trimmed : trim expression = expression)
    (oneLine : '\n' ∉ expression) (free : Token.isRemarkFree none expression = true) :
    (⟨[' '], [' '], expression, []⟩ : Definition).WellFormed := by
  have free' : Token.isRemarkFree none (' ' :: expression) = true := by simpa [Token.isRemarkFree] using free
  have raw := Token.splitRemark_of_isRemarkFree free'
  have front : Stops isBlank expression := trimmed ▸ stops_trim expression
  have blank : isBlank ' ' = true := by decide
  refine ⟨by simp [isInlineBlank], ?_, ?_, ?_⟩
  · intro c member
    simp only [List.append_nil, List.singleton_append, List.mem_cons] at member
    rcases member with rfl | member
    · decide
    · have : c ≠ '\n' := by rintro rfl; exact oneLine member
      simpa [Token.inLine] using this
  · simp only [List.append_nil, List.singleton_append, raw]
    simp [blank, takeWhile_of_stops front]
  · simp only [List.append_nil, List.singleton_append, raw]
    rw [← List.singleton_append, trim_run_append (by simpa using blank), trimmed]

theorem Legal.wellFormed {field : FieldOutline} (legal : field.Legal) : field.token.WellFormed := by
  refine ⟨fun c member => by simpa using legal.name c member, ?_⟩
  intro d member
  obtain ⟨e, found, rfl⟩ := Option.map_eq_some_iff.1 member
  exact definition_wellFormed (legal.trimmed e found) (legal.oneLine e found) (legal.remarkFree e found)

theorem text_token (field : FieldOutline) :
    field.token.text = ("[" ++ field.name ++ "]" ++ (field.expression.map (" = " ++ ·)).getD "").toList := by
  cases expression : field.expression <;> simp [token, expression, Token.text, Definition.text]

/-- A modifier, if it is there, and the space behind it. -/
theorem ofChars_modifier (present : Bool) {modifier : Token} (known : modifier = .key ∨ modifier = .dim)
    {written : String} (text : written.toList = modifier.text ++ [' ']) (rest : List Char) :
    Token.ofChars ((if present then written else "").toList ++ rest) =
      (if present then [modifier] else []) ++ Token.ofChars rest := by
  cases present with
  | false => simp
  | true =>
    have space := Token.ofChars_run_append (by simp [isAsciiBlank] : ∀ c ∈ [' '], isAsciiBlank c = true) rest
    have stops : Stops (!Token.isWordEnd ·) (' ' :: rest) := by simp; decide
    have read : Token.ofChars (modifier.text ++ ' ' :: rest) = modifier :: Token.ofChars (' ' :: rest) := by
      rcases known with rfl | rfl
      · exact Token.ofChars_token trivial ⟨stops, trivial⟩
      · exact Token.ofChars_token trivial ⟨stops, trivial⟩
    simp only [if_true, text, List.append_assoc, List.singleton_append]
    rw [read, ← space, List.singleton_append]

theorem ofChars_unlines {field : FieldOutline} (legal : field.Legal) (rest : List Char) :
    Token.ofChars (unlines field.lines ++ rest) = field.tokens ++ Token.ofChars rest := by
  have declared : field.declaration.toList = (if field.isKey then "key " else "").toList ++
      ((if field.isDim then "dim " else "").toList ++ field.token.text) := by
    rw [text_token]
    simp only [declaration, String.toList_append, List.append_assoc]
  have key := ofChars_modifier field.isKey (.inl rfl) (rfl : "key ".toList = Token.key.text ++ [' '])
  have dim := ofChars_modifier field.isDim (.inr rfl) (rfl : "dim ".toList = Token.dim.text ++ [' '])
  have line : Token.ofChars (field.token.text ++ '\n' :: rest) = field.token :: Token.ofChars rest :=
    Token.ofChars_line legal.wellFormed (by simp [token, Token.isBlock])
  simp only [lines, unlines_append, unlines_cons, unlines_nil, declared, tokens, List.append_assoc, List.cons_append,
    List.nil_append]
  rw [DecoratorOutline.ofChars_unlines legal.decorators, key, dim, line]

theorem ofChars_unlines_all {fields : List FieldOutline} (legal : ∀ f ∈ fields, f.Legal) (rest : List Char) :
    Token.ofChars (unlines (fields.flatMap (·.lines)) ++ rest) =
      fields.flatMap (·.tokens) ++ Token.ofChars rest := by
  induction fields with
  | nil => simp
  | cons f fields ih =>
    simp only [List.flatMap_cons, unlines_append, List.append_assoc]
    rw [ofChars_unlines (legal f (by simp)), ih fun f member => legal f (by simp [member])]

end FieldOutline

namespace BlockKind

variable {kind : BlockKind} {block : String}

/-- Lines that do not end a block, each behind its line end, go on with it. -/
theorem goesOn_lines {lines : List String}
    (legal : ∀ line ∈ lines, '\n' ∉ line.toList ∧ Token.endsBlock line.toList = false) :
    Token.GoesOn (lines.flatMap fun line => '\n' :: line.toList) := by
  induction lines with
  | nil => simp [Token.GoesOn]
  | cons line lines ih =>
    obtain ⟨oneLine, goes⟩ := legal line (by simp)
    have inside : ∀ c ∈ line.toList, Token.inLine c = true := by
      intro c member
      have : c ≠ '\n' := by rintro rfl; exact oneLine member
      simpa [Token.inLine] using this
    have newline : Stops Token.inLine (lines.flatMap fun line => '\n' :: line.toList) := by
      cases lines <;> simp [Token.inLine]
    simp only [List.flatMap_cons, List.cons_append]
    refine Token.goesOn_newline.2 ⟨?_, (Token.goesOn_line_append inside).2 ?_⟩
    · rwa [takeWhile_run inside newline]
    · exact ih fun line member => legal line (by simp [member])

theorem text_token (legal : kind.IsLegal block) :
    (kind.token block).text = dropEndWhile isAsciiBlank block.toList := by
  obtain ⟨lines, written, -⟩ := legal
  rw [token, written, List.drop_left, Token.text]
  generalize (lines.flatMap fun line => '\n' :: line.toList) = body
  obtain ⟨blanks, whole, blank⟩ := exists_run_dropEndWhile isAsciiBlank body
  have keyword : Stops isAsciiBlank kind.word.toList.reverse := by
    cases kind <;> simp [word] <;> decide
  have trimmed : Stops isAsciiBlank (kind.word.toList ++ dropEndWhile isAsciiBlank body).reverse := by
    rw [List.reverse_append]
    exact (stops_dropEndWhile isAsciiBlank body).append keyword
  conv => rhs; rw [whole, ← List.append_assoc]
  rw [dropEndWhile_append_run blank, dropEndWhile_of_stops trimmed]

/-- A legal block is read as its token, and the blanks at its end are skipped. -/
theorem ofChars_unlines (legal : kind.IsLegal block) {rest : List Char}
    (next : Token.StartsSection rest) :
    Token.ofChars (block.toList ++ '\n' :: rest) = kind.token block :: Token.ofChars rest := by
  obtain ⟨lines, written, legal⟩ := legal
  have goesOn := goesOn_lines legal
  have front : Stops (!Token.isWordEnd ·) (lines.flatMap fun line => '\n' :: line.toList) := by
    cases lines <;> simp; decide
  have body : block.toList.drop kind.word.toList.length = lines.flatMap fun line => '\n' :: line.toList := by
    rw [written, List.drop_left]
  unfold token
  rw [body, written]
  generalize (lines.flatMap fun line => '\n' :: line.toList) = body at goesOn front
  obtain ⟨blanks, whole, blank⟩ := exists_run_dropEndWhile isAsciiBlank body
  have trimmed := stops_dropEndWhile isAsciiBlank body
  generalize dropEndWhile isAsciiBlank body = kept at whole trimmed
  subst whole
  have inside := goesOn.inLine_of_blank fun c member => isBlank_of_isAsciiBlank (blank c member)
  have goesOn := (Token.goesOn_append_blank fun c member => ⟨blank c member, inside c member⟩).1 goesOn
  have newline : Stops Token.inLine ('\n' :: rest) := by simp [Token.inLine]
  have ends : (Token.block kind kept).EndsBefore (blanks ++ '\n' :: rest) := by
    refine ⟨by simp [Token.takes, Stops], ?_⟩
    dsimp only
    rw [takeWhile_run inside newline, dropWhile_run inside newline]
    exact ⟨blank, Token.stopsBlock_newline.2 next⟩
  have wellFormed : (Token.block kind kept).WellFormed := ⟨front.of_append, trimmed, goesOn⟩
  have read := Token.ofChars_token wellFormed ends
  have skipped : Token.ofChars (blanks ++ '\n' :: rest) = Token.ofChars rest := by
    have all : ∀ c ∈ blanks ++ ['\n'], isAsciiBlank c = true := by
      intro c member
      rcases List.mem_append.1 member with member | member
      · exact blank c member
      · rw [List.mem_singleton.1 member]
        exact Token.isAsciiBlank_newline
    rw [← Token.ofChars_run_append all rest, List.append_assoc, List.singleton_append]
  rw [skipped] at read
  rw [← read]
  simp [Token.text]

end BlockKind

namespace TableOutline

theorem startsSection_lines (table : TableOutline) (rest : List Char) :
    Token.StartsSection (unlines table.lines ++ rest) := by
  unfold lines
  cases table.decorators with
  | nil =>
    simp only [List.map_nil, List.nil_append, List.append_assoc, List.cons_append, unlines_cons, String.toList_append]
    exact Token.startsSection_keyword .table rfl (by simp; decide)
  | cons d decorators =>
    simp only [List.map_cons, List.cons_append, unlines_cons, DecoratorOutline.written, String.toList_append,
      List.append_assoc]
    exact Token.startsSection_bang _

theorem startsSection_block {kind : BlockKind} {block : String} (legal : kind.IsLegal block) (rest : List Char) :
    Token.StartsSection (block.toList ++ '\n' :: rest) := by
  obtain ⟨lines, written, -⟩ := legal
  rw [written, List.append_assoc]
  refine Token.startsSection_keyword (.block kind) rfl ?_
  cases lines <;> simp <;> decide

/-- A block if it is there. The text behind it starts a section, and so does the text with it. -/
theorem ofChars_block {kind : BlockKind} {block : Option String} (legal : ∀ b ∈ block, kind.IsLegal b)
    {rest : List Char} (next : Token.StartsSection rest) :
    Token.ofChars (unlines block.toList ++ rest) = block.toList.map kind.token ++ Token.ofChars rest ∧
      Token.StartsSection (unlines block.toList ++ rest) := by
  cases block with
  | none => exact ⟨rfl, next⟩
  | some block =>
    have legal := legal block rfl
    simp only [Option.toList_some, unlines_cons, unlines_nil, List.append_assoc, List.cons_append, List.nil_append,
      List.map_cons, List.map_nil]
    exact ⟨BlockKind.ofChars_unlines legal next, startsSection_block legal rest⟩

theorem ofChars_totals {totals : List FieldOutline} (legal : ∀ f ∈ totals, f.Legal) {rest : List Char}
    (next : Token.StartsSection rest) :
    Token.ofChars (unlines (if totals.isEmpty then [] else "total" :: totals.flatMap (·.lines)) ++ rest) =
        (if totals.isEmpty then [] else .total :: totals.flatMap (·.tokens)) ++ Token.ofChars rest ∧
      Token.StartsSection (unlines (if totals.isEmpty then [] else "total" :: totals.flatMap (·.lines)) ++ rest) := by
  split
  · exact ⟨rfl, next⟩
  · simp only [unlines_cons, List.append_assoc, List.cons_append]
    refine ⟨?_, Token.startsSection_keyword .total rfl (by simp; decide)⟩
    have line (rest : List Char) : Token.ofChars (Token.total.text ++ '\n' :: rest) = .total :: Token.ofChars rest :=
      Token.ofChars_line trivial (by simp [Token.isBlock])
    rw [← FieldOutline.ofChars_unlines_all legal]
    exact line _

theorem ofChars_unlines {table : TableOutline} (legal : table.Legal) {rest : List Char}
    (next : Token.StartsSection rest) :
    Token.ofChars (unlines table.lines ++ rest) = table.tokens ++ Token.ofChars rest := by
  obtain ⟨totals, atTotals⟩ := ofChars_totals legal.totals next
  obtain ⟨override, atOverride⟩ := ofChars_block legal.override atTotals
  obtain ⟨apply, -⟩ := ofChars_block legal.apply atOverride
  have wellFormed : (Token.table [' '] table.name.toList).WellFormed :=
    ⟨by simp [isInlineBlank], .inr ⟨by simp, legal.name⟩⟩
  have header (rest : List Char) : Token.ofChars (("table " ++ table.name).toList ++ '\n' :: rest) =
      .table [' '] table.name.toList :: Token.ofChars rest := by
    have line : Token.ofChars ((Token.table [' '] table.name.toList).text ++ '\n' :: rest) = _ :=
      Token.ofChars_line wellFormed (by simp [Token.isBlock])
    simpa [Token.text, Keyword.word] using line
  simp only [lines, tokens, unlines_append, List.append_assoc, unlines_cons, List.cons_append, List.nil_append]
  rw [DecoratorOutline.ofChars_unlines legal.decorators, header, FieldOutline.ofChars_unlines_all legal.fields,
    apply, override, totals]

theorem ofChars_write {tables : List TableOutline} (legal : ∀ t ∈ tables, t.Legal) :
    Token.ofChars (unlines (tables.flatMap (·.lines))) = tables.flatMap (·.tokens) ∧
      Token.StartsSection (unlines (tables.flatMap (·.lines))) := by
  induction tables with
  | nil => exact ⟨by simp [Token.ofChars, Item.read_blank], Token.startsSection_nil⟩
  | cons table tables ih =>
    obtain ⟨read, next⟩ := ih fun t member => legal t (by simp [member])
    simp only [List.flatMap_cons, unlines_append]
    rw [ofChars_unlines (legal table (by simp)) next, read]
    exact ⟨rfl, startsSection_lines table _⟩

end TableOutline

theorem TableOutline.foldl_addField (table : TableOutline) (inTotals : Bool) (fields : List FieldOutline) :
    fields.foldl (·.addField inTotals ·) table =
      if inTotals then { table with totals := table.totals ++ fields }
      else { table with fields := table.fields ++ fields } := by
  induction fields generalizing table with
  | nil => simp
  | cons field fields ih =>
    rw [List.foldl_cons, ih]
    cases inTotals <;> simp [TableOutline.addField]

namespace DraftOutline

theorem step_decorator (draft : DraftOutline) (decorator : DecoratorOutline) :
    draft.step decorator.token = draft.addDecorator decorator := by
  obtain ⟨name, args⟩ := decorator
  cases args <;> simp [DecoratorOutline.token, step]

theorem foldl_decorators (decorators : List DecoratorOutline) (draft : DraftOutline) :
    (decorators.map (·.token)).foldl step draft =
      { draft with pending := { draft.pending with decorators := draft.pending.decorators ++ decorators } } := by
  induction decorators generalizing draft with
  | nil => simp
  | cons d decorators ih =>
    simp only [List.map_cons, List.foldl_cons, step_decorator]
    rw [ih]
    simp [addDecorator]

/-- A field with nothing waiting before it goes to the open table, and nothing waits behind it. -/
theorem foldl_field {draft : DraftOutline} {table : TableOutline} (field : FieldOutline)
    (settled : draft.pending = {}) (current : draft.current = some table) :
    field.tokens.foldl step draft = { draft with current := some (table.addField draft.inTotals field) } := by
  obtain ⟨name, isKey, isDim, decorators, expression⟩ := field
  simp only [FieldOutline.tokens, List.foldl_append, foldl_decorators, settled]
  cases isKey <;> cases isDim <;> cases expression <;>
    simp [step, addField, current, FieldOutline.token]

theorem foldl_fields {draft : DraftOutline} {table : TableOutline} (fields : List FieldOutline)
    (settled : draft.pending = {}) (current : draft.current = some table) :
    (fields.flatMap (·.tokens)).foldl step draft =
      { draft with current := some (fields.foldl (·.addField draft.inTotals ·) table) } := by
  induction fields generalizing draft table with
  | nil => simp [← current]
  | cons field fields ih =>
    simp only [List.flatMap_cons, List.foldl_append, List.foldl_cons]
    rw [foldl_field field settled current, ih (by exact settled) rfl]

theorem foldl_block {draft : DraftOutline} {table : TableOutline} {kind : BlockKind} {block : Option String}
    (legal : ∀ b ∈ block, kind.IsLegal b) (current : draft.current = some table) :
    (block.toList.map kind.token).foldl step draft =
      { draft with current := some (block.elim table fun b =>
          table.setBlock kind (String.ofList (dropEndWhile isAsciiBlank b.toList))) } := by
  cases block with
  | none => simp [← current]
  | some block =>
    have text := BlockKind.text_token (legal block rfl)
    simp only [BlockKind.token] at text
    simp [step, addBlock, current, BlockKind.token, text]

theorem foldl_table {draft : DraftOutline} {table : TableOutline} (legal : table.Legal)
    (settled : draft.pending = {}) :
    table.tokens.foldl step draft =
      { draft with closed := draft.tables, current := some table.trimmed, inTotals := !table.totals.isEmpty } := by
  have named : table.name.toList.isEmpty = false := by
    rcases legal.name with bare | ⟨body, -, same⟩
    · simpa using bare.nonempty
    · simp [same]
  have header : (table.decorators.map (·.token) ++ [Token.table [' '] table.name.toList]).foldl step draft =
      { draft with
        closed := draft.tables
        inTotals := false
        current := some ⟨table.name, table.decorators, [], [], none, none⟩ } := by
    rw [List.foldl_append, foldl_decorators]
    simp [step, openTable, named, settled, tables]
  have totals {draft : DraftOutline} {open' : TableOutline} (settled : draft.pending = {})
      (current : draft.current = some open') (fields : draft.inTotals = false) :
      (if table.totals.isEmpty then [] else Token.total :: table.totals.flatMap (·.tokens)).foldl step draft =
        { draft with
          inTotals := !table.totals.isEmpty
          current := some { open' with totals := open'.totals ++ table.totals } } := by
    cases all : table.totals with
    | nil => simp [← current, ← fields]
    | cons f more =>
      simp only [List.isEmpty_cons, Bool.false_eq_true, if_false, List.foldl_cons, step]
      rw [foldl_fields (f :: more) (by exact settled) (by exact current), TableOutline.foldl_addField]
      simp
  unfold TableOutline.tokens
  rw [List.foldl_append, List.foldl_append, List.foldl_append, List.foldl_append, header,
    foldl_fields table.fields (by exact settled) rfl, foldl_block legal.apply rfl, foldl_block legal.override rfl,
    totals (by exact settled) rfl rfl, TableOutline.foldl_addField]
  cases apply : table.apply <;> cases override : table.override <;>
    simp [TableOutline.trimmed, TableOutline.setBlock, apply, override]

theorem foldl_tables {tables : List TableOutline} (legal : ∀ t ∈ tables, t.Legal) {draft : DraftOutline}
    (settled : draft.pending = {}) :
    ((tables.flatMap (·.tokens)).foldl step draft).finish =
      ⟨draft.tables ++ tables.map TableOutline.trimmed, draft.problems⟩ := by
  induction tables generalizing draft with
  | nil => simp [finish]
  | cons table tables ih =>
    simp only [List.flatMap_cons, List.foldl_append]
    rw [foldl_table (legal table (by simp)) settled,
      ih (fun t member => legal t (by simp [member])) (by exact settled)]
    simp [DraftOutline.tables]

end DraftOutline

/-- Reading what was written gives back the tables that were written, and finds no problem. -/
theorem Sheet.read_write (tables : List TableOutline) (legal : ∀ t ∈ tables, t.Legal) :
    (Sheet.read (SheetOutline.write tables)).outline (SheetOutline.write tables).toList =
      ⟨tables.map TableOutline.trimmed, []⟩ := by
  rw [Sheet.read, Sheet.outline_ofChars, SheetOutline.write, String.toList_ofList,
    (TableOutline.ofChars_write legal).1, DraftOutline.foldl_tables legal rfl]
  rfl

/-- A table whose names, arguments, expressions and lines look like other parts of a sheet, and a bare one. -/
def TableOutline.lookalikes : List TableOutline :=
  [{ name := "'it''s table'"
     decorators := [⟨"ui.note", some "\")\" (\n!x)"⟩]
     fields := [⟨"table = 1", true, true, [], none⟩, ⟨"größe", false, false, [], some "\"#\" & '#'[a]"⟩]
     totals := [⟨"!sum", false, true, [⟨"dim", none⟩], some "= (total"⟩]
     override := some "override"
     apply := some "apply\n  tables [a] # kept\n  'override \t" },
   { name := "total", decorators := [], fields := [], totals := [], override := none, apply := none }]

theorem TableOutline.legal_lookalikes : ∀ t ∈ lookalikes, t.Legal := by
  have note : DecoratorOutline.Legal ⟨"ui.note", some "\")\" (\n!x)"⟩ :=
    ⟨by decide, List.all_eq_true.1 (by decide +kernel), by decide +kernel⟩
  have dim : DecoratorOutline.Legal ⟨"dim", none⟩ := ⟨by decide, List.all_eq_true.1 (by decide +kernel), by simp⟩
  have bare : FieldOutline.Legal ⟨"table = 1", true, true, [], none⟩ :=
    ⟨by simp, by simp, by simp, by simp, by simp⟩
  have quotes : FieldOutline.Legal ⟨"größe", false, false, [], some "\"#\" & '#'[a]"⟩ :=
    ⟨by simp, by simp, by decide +kernel, by decide +kernel, by decide +kernel⟩
  have sum : FieldOutline.Legal ⟨"!sum", false, true, [⟨"dim", none⟩], some "= (total"⟩ :=
    ⟨by simp, by simpa using dim, by decide +kernel, by decide +kernel, by decide +kernel⟩
  have apply : BlockKind.apply.IsLegal "apply\n  tables [a] # kept\n  'override \t" :=
    ⟨["  tables [a] # kept", "  'override \t"], by decide +kernel, by decide +kernel⟩
  have override : BlockKind.override.IsLegal "override" := ⟨[], by decide +kernel, by simp⟩
  have quoted : Token.IsQuoted "'it''s table'".toList := ⟨"it''s table".toList, by decide +kernel, by decide +kernel⟩
  intro t member
  simp only [lookalikes, List.mem_cons, List.not_mem_nil, or_false] at member
  rcases member with rfl | rfl
  · exact ⟨.inr quoted, by simpa using note, by simpa using ⟨bare, quotes⟩, by simpa using apply,
      by simpa using override, by simpa using sum⟩
  · exact ⟨.inl (Token.isBare_keyword .total), by simp, by simp, by simp, by simp, by simp⟩

theorem Sheet.read_write_lookalikes :
    TableOutline.lookalikes.map (·.name) = ["'it''s table'", "total"] ∧ (∀ t ∈ TableOutline.lookalikes, t.Legal) ∧
      (Sheet.read (SheetOutline.write TableOutline.lookalikes)).outline
          (SheetOutline.write TableOutline.lookalikes).toList =
        ⟨TableOutline.lookalikes.map TableOutline.trimmed, []⟩ :=
  ⟨rfl, TableOutline.legal_lookalikes, Sheet.read_write _ TableOutline.legal_lookalikes⟩

end Gridbook
