import Gridbook.Proofs.Appending

/-!
The place of a field in a text. Which declaration is found under the name of a table and of a field is settled by the names
before it alone, so a field is found again behind items that declare the same names (`Place.field?_text`). Setting its
expression writes between what stands before that and what stands behind it on the line, and leaves the field in its place.
-/
namespace Gridbook

open Text

/-- The names declared so far: those of the tables that are closed, and that of the open one with those of its fields. -/
structure Roster where
  closed : List String := []
  current : Option (String × List String) := none
  inTotals : Bool := false
  deriving DecidableEq

namespace Roster

def step (roster : Roster) : Token → Roster
  | .table _ name =>
    { closed := roster.closed ++ (roster.current.map (·.1)).toList
      current := if name.isEmpty then none else some (String.ofList name, []) }
  | .field name _ =>
    if roster.inTotals then roster
    else { roster with current := roster.current.map fun opened => (opened.1, opened.2 ++ [String.ofList name]) }
  | .total => { roster with inTotals := true }
  | _ => roster

def ofTokens (tokens : List Token) : Roster := tokens.foldl step {}

theorem ofTokens_append (front back : List Token) : ofTokens (front ++ back) = back.foldl step (ofTokens front) :=
  List.foldl_append

/-- What does nothing to a sheet declares no names. -/
theorem foldl_idle {tokens : List Token} (idle : ∀ token ∈ tokens, token.isIdle = true) (roster : Roster) :
    tokens.foldl step roster = roster := by
  induction tokens with
  | nil => rfl
  | cons token tokens ih =>
    have same : roster.step token = roster := by
      have first := idle token (by simp)
      cases token <;> simp [Token.isIdle] at first <;> rfl
    rw [List.foldl_cons, same, ih fun token member => idle token (by simp [member])]

/-- A field of that name, declared next, is the first one in the first table of that name. -/
structure Awaits (roster : Roster) (table field : String) : Prop where
  current : ∃ fields, roster.current = some (table, fields) ∧ field ∉ fields
  first : table ∉ roster.closed
  plain : roster.inTotals = false

end Roster

namespace Draft

def roster (draft : Draft) : Roster :=
  ⟨draft.closed.map (·.name), draft.current.map fun table => (table.name, table.fieldNames), draft.inTotals⟩

theorem roster_step (draft : Draft) (placed : Placed) : (draft.step placed).roster = draft.roster.step placed.token := by
  obtain ⟨start, token⟩ := placed
  cases token with
  | table blanks name =>
    by_cases empty : name.isEmpty = true <;> cases current : draft.current <;>
      simp [step, openTable, roster, Roster.step, tables, report, Table.fieldNames, empty, current]
  | field name definition =>
    cases totals : draft.inTotals <;> cases current : draft.current <;>
      simp [step, addField, roster, Roster.step, report, Table.fieldNames, declare, totals, current]
  | block kind body =>
    cases current : draft.current with
    | none => simp [step, addBlock, roster, Roster.step, report, current]
    | some table => cases kind <;> simp [step, addBlock, roster, Roster.step, Table.fieldNames, current]
  | total => cases current : draft.current <;> simp [step, openTotals, roster, Roster.step, Table.fieldNames, current]
  | _ => rfl

theorem roster_ofItems (items : List Item) : (ofItems items).roster = .ofTokens (items.map (·.token)) := by
  induction items using List.reverseRecOn with
  | nil => rfl
  | append_singleton items item ih => rw [ofItems_concat, roster_step, ih, List.map_append, Roster.ofTokens_append]; rfl

theorem awaits_iff {front : List Item} {table field : String} :
    (Roster.ofTokens (front.map (·.token))).Awaits table field ↔ ∃ old, (ofItems front).Reaches table old ∧
      (ofItems front).inTotals = false ∧ ∀ earlier ∈ old.fields, earlier.key.field ≠ field := by
  rw [← roster_ofItems]
  constructor
  · rintro ⟨⟨fields, current, fresh⟩, first, plain⟩
    obtain ⟨old, opened, same⟩ := Option.map_eq_some_iff.1 current
    obtain ⟨rfl, rfl⟩ := Prod.mk.inj same
    refine ⟨old, ⟨opened, rfl, ?_⟩, plain, ?_⟩
    · simpa [roster] using first
    · simpa [Table.fieldNames] using fresh
  · rintro ⟨old, ⟨opened, rfl, first⟩, plain, fresh⟩
    refine ⟨⟨old.fieldNames, by simp [roster, opened], ?_⟩, ?_, plain⟩
    · simpa [Table.fieldNames] using fresh
    · simpa [roster] using first

end Draft

namespace Sheet

/-- The first field of a name in the first table of a name, in a text. -/
structure Place (table field : String) where
  front : List Item
  gap : List Char
  definition : Option Definition
  rest : List Char
  leads : Item.Leads (front ++ [⟨gap, .field field.toList definition⟩]) rest
  awaits : (Roster.ofTokens (front.map (·.token))).Awaits table field

variable {table field : String}

namespace Place

variable (place : Place table field)

def items : List Item := place.front ++ [⟨place.gap, .field field.toList place.definition⟩]

def text : List Char := Item.texts place.items ++ place.rest

def found : Field :=
  Draft.declare (Draft.ofItems place.front).pending table (width (Item.texts place.front ++ place.gap)) field.toList
    place.definition

/-- The blanks before the equals sign, once the expression is set. -/
def blanks : List Char := (place.definition.map (·.gap)).getD [' ']

/-- The blanks behind the equals sign. -/
def lead : List Char := (place.definition.map (·.lead)).getD [' ']

def opening : List Char := (Token.field field.toList none).text ++ (place.blanks ++ '=' :: place.lead)

def before : List Char := Item.texts place.front ++ place.gap ++ place.opening

/-- Behind the expression, or behind the name of a field that has none. -/
def after : List Char := Token.behind place.definition ++ place.rest

theorem wellFormed : (Token.field field.toList place.definition).WellFormed := by
  obtain ⟨-, -, wellFormed, -⟩ := Item.leads_append.1 place.leads
  exact wellFormed

theorem text_eq : place.text =
    Item.texts place.front ++ place.gap ++ ((Token.field field.toList place.definition).text ++ place.rest) := by
  simp [text, items]

/-- A field is found at its place. -/
theorem field?_text : (ofChars place.text).field? table field = some place.found := by
  obtain ⟨old, reaches, plain, first⟩ := Draft.awaits_iff.1 place.awaits
  obtain ⟨opened, reaches, fields⟩ := reaches.exists_declare plain place.gap field.toList place.definition
  obtain ⟨found, declared, -, more, same⟩ := reaches.exists_table? place.leads
  have named : place.found.key.field = field := String.ofList_toList
  have listed : found.field? field = some place.found := by
    rw [Table.field?, ← same, fields, List.append_assoc, List.find?_append, List.find?_eq_none.2 (by simpa using first),
      Option.none_or]
    exact List.find?_cons_of_pos (decide_eq_true named)
  rw [field?, text, items, declared]
  exact listed

theorem expression_found : place.found.expression.map (·.text) = place.definition.map fun d => String.ofList d.body := by
  cases defined : place.definition <;> simp [found, Draft.declare, defined]

theorem isSome_expression : place.found.expression.isSome = place.definition.isSome := by
  simp [found, Draft.declare]

end Place

theorem exists_place {text : List Char} {found : Field} (declared : (ofChars text).field? table field = some found) :
    ∃ place : Place table field, text = place.text ∧ found = place.found := by
  obtain ⟨front, gap, word, definition, rest, old, parts, leads, reaches, plain, first, named, same⟩ := exists_field? declared
  obtain rfl : word = field.toList := by rw [named, String.toList_ofList]
  exact ⟨⟨front, gap, definition, rest, leads, Draft.awaits_iff.2 ⟨old, reaches, plain, first⟩⟩, parts, same⟩

namespace Place

variable (place : Place table field)

/-- What the text says behind the name is kept, whatever is set. -/
theorem setExpression_eq (expression : String) :
    setExpression (String.ofList place.text) table field expression =
      some (String.ofList (place.before ++ (expression.toList ++ place.after))) := by
  have declared : (read (String.ofList place.text)).field? table field = some place.found := by
    rw [read, String.toList_ofList, place.field?_text]
  cases defined : place.definition with
  | none =>
    have undefined : place.found.expression = none := by simp [found, Draft.declare, defined]
    have whole : place.text =
        Item.texts place.front ++ place.gap ++ (Token.field field.toList none).text ++ ([] ++ place.rest) := by
      rw [text_eq, defined]
      simp
    have range : (⟨place.found.nameSpan.stop, place.found.nameSpan.stop⟩ : Span) =
        .over (Item.texts place.front ++ place.gap ++ (Token.field field.toList none).text) [] := by
      rw [found, Draft.nameSpan_declare]
      simp [Span.over, Nat.add_assoc]
    rw [setExpression_none declared undefined, String.toList_ofList, range, whole, Span.replace_over]
    simp [before, opening, blanks, lead, after, Token.behind, defined]
  | some d =>
    have expression := Draft.expression_declare (Draft.ofItems place.front).pending table
      (Item.texts place.front ++ place.gap) field.toList d
    rw [← defined] at expression
    have whole : place.text = Item.texts place.front ++ place.gap ++
        ((Token.field field.toList none).text ++ (d.gap ++ '=' :: d.lead)) ++ (d.body ++ (d.tail ++ place.rest)) := by
      rw [text_eq, defined]
      simp [Token.text, Definition.text]
    rw [setExpression_some declared expression, String.toList_ofList, whole, Span.replace_over]
    simp [before, opening, blanks, lead, after, Token.behind, defined]

/-- The text around an expression that the field has. -/
theorem text_of_definition {d : Definition} (defined : place.definition = some d) :
    place.text = place.before ++ (d.body ++ place.after) := by
  rw [text_eq, before, after, defined]
  simp [opening, blanks, lead, Token.behind, Token.text, Definition.text, defined]

def tail : List Char := (place.definition.map (·.tail)).getD (place.rest.takeWhile Token.inLine)

/-- What stands behind the line, from its end on. -/
def further : List Char := (place.definition.map fun _ => place.rest).getD (place.rest.dropWhile Token.inLine)

theorem after_eq : place.after = place.tail ++ place.further := by
  cases defined : place.definition <;> simp [after, tail, further, Token.behind, defined]

theorem stops_further : Stops Token.inLine place.further := by
  cases defined : place.definition with
  | none => simpa [further, defined] using stops_dropWhile Token.inLine place.rest
  | some d =>
    obtain ⟨-, -, -, ends, -⟩ := Item.leads_append.1 place.leads
    rw [Item.texts_nil, List.nil_append, defined] at ends
    simpa [further, defined] using (Token.endsBefore_iff rfl).1 ends

theorem blanks_inline : ∀ c ∈ place.blanks, isInlineBlank c = true := by
  cases defined : place.definition with
  | none => simp [blanks, defined, isInlineBlank]
  | some d => simpa [blanks, defined] using (place.wellFormed.2 d defined).gap

theorem lead_blank : ∀ c ∈ place.lead, isBlank c = true ∧ Token.inLine c = true := by
  cases defined : place.definition with
  | none => simp [lead, defined, isBlank, Token.inLine]
  | some d =>
    have wellFormed := place.wellFormed.2 d defined
    intro c member
    rw [lead, defined] at member
    exact ⟨wellFormed.lead_blank c member, wellFormed.line c (by simp [show c ∈ d.lead from member])⟩

theorem tail_inLine : ∀ c ∈ place.tail, Token.inLine c = true := by
  cases defined : place.definition with
  | none =>
    rw [tail, defined]
    exact fun _ => List.mem_takeWhile_imp
  | some d =>
    intro c member
    rw [tail, defined] at member
    exact (place.wellFormed.2 d defined).line c (by simp [show c ∈ d.tail from member])

/-- The line says nothing more behind the expression, or behind the name of a field without one. -/
theorem isRemark_tail (room : place.found.expression.isSome = true ∨
    IsRemark (Cursor.ofOffset place.found.nameSpan.stop place.text).lineAfter) : IsRemark place.tail := by
  rw [isSome_expression] at room
  cases defined : place.definition with
  | some d => simpa [tail, defined] using (place.wellFormed.2 d defined).isRemark_tail
  | none =>
    have quiet := room.resolve_left (by simp [defined])
    rw [found, Draft.nameSpan_declare, text_eq, defined, Cursor.ofOffset_over] at quiet
    simpa [tail, defined, Cursor.lineAfter] using quiet

def set (expression : List Char) (oneLine : '\n' ∉ expression) : Place table field where
  front := place.front
  gap := place.gap
  definition := some (.ofLine place.blanks (place.lead ++ (expression ++ place.tail)))
  rest := place.further
  leads := by
    refine place.leads.define (Definition.wellFormed_ofLine place.blanks_inline ?_) place.stops_further
    exact List.forall_mem_append.2 ⟨fun c member => (place.lead_blank c member).2,
      List.forall_mem_append.2 ⟨inLine_of_not_mem oneLine, place.tail_inLine⟩⟩
  awaits := place.awaits

theorem text_set {expression : List Char} (oneLine : '\n' ∉ expression) :
    (place.set expression oneLine).text = place.before ++ (expression ++ place.after) := by
  rw [text_eq, after_eq]
  simp [set, before, opening, Token.text, Definition.text_ofLine]

end Place

end Sheet
end Gridbook
