import Gridbook.Proofs.Anchors
import Gridbook.Proofs.Cuts

/-!
A field taken out of a text. What waits for a field stands between the declaration before it and its own token, and is
taken out with it, together with the marks among it that have no name. The declarations before it and those behind it are
read as if it had not been there.
-/
namespace Gridbook

open Text

def Span.covers (span : Span) (offset : Nat) : Bool := span.start ≤ offset && offset < span.stop

theorem Span.covers_iff {span : Span} {offset : Nat} :
    span.covers offset = true ↔ span.start ≤ offset ∧ offset < span.stop := by
  simp [covers]

/-- A line that says nothing does not go on with an equals sign. -/
theorem Text.IsRemark.unset {line rest : List Char} (quiet : IsRemark line) (ends : Stops Token.inLine rest) :
    Stops (· == '=') ((line ++ rest).dropWhile isInlineBlank) := by
  obtain ⟨blanks, remark, rfl, blank, mark⟩ := quiet.exists_parts
  obtain ⟨shown, other⟩ : Stops isInlineBlank (remark ++ rest) ∧ Stops (· == '=') (remark ++ rest) := by
    cases remark with
    | nil =>
      refine ⟨fun c first => ?_, fun c first => ?_⟩ <;>
        obtain rfl : c = '\n' := by simpa [Token.inLine] using ends c first
      · decide
      · decide
    | cons c more =>
      obtain rfl : c = '#' := by simpa using mark
      exact ⟨by simp; decide, by simp⟩
  rw [List.append_assoc, (takeWhile_append_stops shown).2]
  refine Stops.append (fun c first => ?_) other
  have inside := blank c ((List.dropWhile_sublist _).subset (List.mem_of_mem_head? first))
  simp only [beq_eq_false_iff_ne]
  rintro rfl
  exact absurd inside (by decide)

namespace Token

/-- Waits for a declaration, or stands among what waits. -/
def isAside : Token → Bool
  | comment _ | word _ | decorator .. | bang | key | dim => true
  | _ => false

theorem WellFormed.isAside {token : Token} (wellFormed : token.WellFormed) (plain : token.isBlock = false)
    (other : token.declares = false) (before : token ≠ total) : token.isAside = true := by
  cases token with
  | field => simp [declares] at other
  | table => simp [declares] at other
  | block => simp [isBlock] at plain
  | total => exact absurd rfl before
  | unclosed => exact wellFormed.elim
  | _ => rfl

theorem startsApart_of_waits {token : Token} (waits : token.waits = true) (more : List Char) :
    StartsApart (token.text ++ more) := by
  cases token with
  | decorator name args =>
    refine ⟨['!'], parts_of_mem (by simp [openings]), ?_⟩
    cases args <;> simp [text]
  | key => exact ⟨Keyword.key.word.toList, parts_of_mem (by simp), List.prefix_append ..⟩
  | dim => exact ⟨Keyword.dim.word.toList, parts_of_mem (by simp), List.prefix_append ..⟩
  | _ => simp [Token.waits] at waits

variable {word rest : List Char} {definition : Option Definition}

/-- What stands behind an expression does not make an expression of itself. -/
theorem EndsBefore.unset (ends : (field word definition).EndsBefore rest)
    (wellFormed : (field word definition).WellFormed) :
    Stops (· == '=') ((behind definition ++ rest).dropWhile isInlineBlank) := by
  cases definition with
  | none => exact ends.2
  | some d =>
    have defined : d.WellFormed := wellFormed.2 d rfl
    exact defined.isRemark_tail.unset ((endsBefore_iff rfl).1 ends)

/-- What stands behind an expression says nothing. -/
theorem EndsBefore.exists_behind (ends : (field word definition).EndsBefore rest)
    (wellFormed : (field word definition).WellFormed) :
    ∃ items gap, behind definition = Item.texts items ++ gap ∧ (∀ c ∈ gap, isAsciiBlank c = true) ∧
      (∀ item ∈ items, item.token.isIdle = true) ∧ Item.Leads items (gap ++ rest) := by
  cases definition with
  | none => exact ⟨[], [], rfl, by simp, by simp, trivial⟩
  | some d =>
    have defined : d.WellFormed := wellFormed.2 d rfl
    exact Item.exists_idle defined.isRemark_tail (fun c member => defined.line c (List.mem_append_right _ member))
      ((endsBefore_iff rfl).1 ends)

theorem EndsBefore.foldl_behind (ends : (field word definition).EndsBefore rest)
    (wellFormed : (field word definition).WellFormed) (draft : DraftOutline) :
    (ofChars (behind definition ++ rest)).foldl DraftOutline.step draft =
      (ofChars rest).foldl DraftOutline.step draft := by
  obtain ⟨items, gap, parts, ascii, idle, leads⟩ := ends.exists_behind wellFormed
  rw [parts, List.append_assoc]
  exact foldl_idle idle ascii leads draft

end Token

namespace Item

variable {items : List Item} {item : Item} {placed : Placed}

theorem infix_texts (member : item ∈ items) : item.token.text <:+: texts items := by
  obtain ⟨front, back, rfl⟩ := List.append_of_mem member
  exact ⟨texts front ++ item.gap, texts back, by simp⟩

/-- Items among which the word of a block does not stand are no blocks. -/
theorem plain_of_clear {more : List Char} (clear : ∀ kind : BlockKind, ¬kind.word.toList <:+: texts items ++ more) :
    ∀ item ∈ items, item.token.isBlock = false := by
  intro item member
  cases token : item.token with
  | block kind body =>
    have inside : kind.word.toList ++ body <:+: texts items := by simpa [token, Token.text] using infix_texts member
    have shown : kind.word.toList <:+: texts items := (List.prefix_append ..).isInfix.trans inside
    exact absurd (shown.trans (List.prefix_append ..).isInfix) (clear kind)
  | _ => rfl

theorem plain_of_slice {front : List Item} {text blank blanks name more rest : List Char}
    (parts : text = texts (front ++ ⟨blank, .table blanks name⟩ :: items) ++ (more ++ rest))
    (clear : ∀ kind : BlockKind, ¬kind.word.toList <:+:
      (⟨(Span.over (texts front ++ (blank ++ (Keyword.table.word.toList ++ blanks))) name).stop,
        width (texts (front ++ ⟨blank, .table blanks name⟩ :: items) ++ more)⟩ : Span).slice text) :
    ∀ item ∈ items, item.token.isBlock = false := by
  let header := texts front ++ (blank ++ (Keyword.table.word.toList ++ blanks)) ++ name
  have spell : (Token.table blanks name).text = Keyword.table.word.toList ++ (blanks ++ name) := by simp [Token.text]
  have whole : text = header ++ ((texts items ++ more) ++ rest) := by
    simp [parts, header, spell]
  have range : (⟨(Span.over (texts front ++ (blank ++ (Keyword.table.word.toList ++ blanks))) name).stop,
      width (texts (front ++ ⟨blank, .table blanks name⟩ :: items) ++ more)⟩ : Span) =
        .over header (texts items ++ more) := by
    simp [header, spell, Span.over, Nat.add_assoc]
  rw [range, whole, Span.slice_over] at clear
  exact plain_of_clear clear

theorem lt_of_mem_place (before : List Char) (wellFormed : ∀ item ∈ items, item.token.WellFormed)
    (member : placed ∈ place (width before) items) : placed.start < width (before ++ texts items) := by
  obtain ⟨item, listed, same⟩ := exists_mem_of_mem_place member
  obtain ⟨c, more, text, -⟩ := (wellFormed item listed).exists_cons
  have bound := (at_of_mem_place before [] member).bound
  have positive := c.utf8Size_pos
  rw [List.append_nil, ← same, text, width_cons] at bound
  omega

/-- The first of the tokens stands behind its gap. -/
theorem le_of_mem_place {offset : Nat} (member : placed ∈ place offset (item :: items)) :
    offset + width item.gap ≤ placed.start := by
  rcases List.mem_cons.1 member with rfl | member
  · exact Nat.le_refl _
  · have := (place_increasing _ items).1 placed member
    omega

end Item

namespace Draft

/-- A token reports problems where it stands. -/
theorem step_reports (draft : Draft) (placed : Placed) :
    ∃ new, (draft.step placed).diagnostics = draft.diagnostics ++ new ∧ ∀ d ∈ new, d.offset = placed.start := by
  have none {next : Draft} (same : next.diagnostics = draft.diagnostics) :
      ∃ new, next.diagnostics = draft.diagnostics ++ new ∧ ∀ d ∈ new, d.offset = placed.start :=
    ⟨[], by simp [same], by simp⟩
  have one (problem : Problem) {next : Draft} (same : next.diagnostics = draft.diagnostics ++ [⟨placed.start, problem⟩]) :
      ∃ new, next.diagnostics = draft.diagnostics ++ new ∧ ∀ d ∈ new, d.offset = placed.start :=
    ⟨_, same, by simp⟩
  obtain ⟨start, token⟩ := placed
  cases token with
  | bang => exact one .emptyDecoratorName rfl
  | field name definition =>
    cases current : draft.current with
    | none => exact one (.strayField (String.ofList name)) (by simp [step, addField, current, report])
    | some table => exact none (by simp [step, addField, current])
  | table gap name =>
    by_cases empty : name.isEmpty = true
    · exact one .missingTableName (by simp [step, openTable, empty, report])
    · exact none (by simp [step, openTable, empty])
  | block kind body =>
    cases current : draft.current with
    | none => exact one (.strayBlock kind) (by simp [step, addBlock, current, report])
    | some table => exact none (by simp [step, addBlock, current])
  | unclosed problem taken => exact one problem rfl
  | _ => exact none rfl

theorem diagnostics_step_field {draft : Draft} {table : Table} (current : draft.current = some table) (start : Nat)
    (name : List Char) (definition : Option Definition) :
    (draft.step ⟨start, .field name definition⟩).diagnostics = draft.diagnostics := by
  simp [step, addField, current]

theorem foldl_reports (draft : Draft) (tokens : List Placed) :
    ∃ new, (tokens.foldl step draft).diagnostics = draft.diagnostics ++ new ∧
      ∀ d ∈ new, ∃ placed ∈ tokens, placed.start = d.offset := by
  induction tokens generalizing draft with
  | nil => exact ⟨[], by simp, by simp⟩
  | cons placed tokens ih =>
    obtain ⟨first, reported, stand⟩ := step_reports draft placed
    obtain ⟨later, reported', stand'⟩ := ih (draft.step placed)
    refine ⟨first ++ later, by simp [reported', reported], ?_⟩
    intro d member
    rcases List.mem_append.1 member with early | late
    · exact ⟨placed, by simp, (stand d early).symm⟩
    · obtain ⟨other, listed, same⟩ := stand' d late
      exact ⟨other, by simp [listed], same⟩

theorem offset_ofItems {items : List Item} (wellFormed : ∀ item ∈ items, item.token.WellFormed) :
    ∀ d ∈ (ofItems items).diagnostics, d.offset < width (Item.texts items) := by
  obtain ⟨new, reported, stand⟩ := foldl_reports {} (Item.place 0 items)
  intro d member
  rw [ofItems, reported, List.nil_append] at member
  obtain ⟨placed, listed, same⟩ := stand d member
  rw [← same]
  exact Item.lt_of_mem_place [] wellFormed listed

/-- What waits changes nothing else, and of what stands among it only a mark without a name is a problem. -/
theorem step_aside {placed : Placed} (aside : placed.token.isAside = true) (draft : Draft) :
    ∃ pending new, draft.step placed = { draft with pending := pending, diagnostics := draft.diagnostics ++ new } ∧
      ∀ d ∈ new, d = ⟨placed.start, .emptyDecoratorName⟩ := by
  have none (pending : Pending) :
      ∃ pending' new, ({ draft with pending := pending } : Draft) =
          { draft with pending := pending', diagnostics := draft.diagnostics ++ new } ∧
        ∀ d ∈ new, d = ⟨placed.start, .emptyDecoratorName⟩ :=
    ⟨pending, [], by simp, by simp⟩
  obtain ⟨start, token⟩ := placed
  cases token with
  | bang => exact ⟨draft.pending, [⟨start, .emptyDecoratorName⟩], rfl, by simp⟩
  | comment | word | decorator | key | dim => exact none _
  | _ => simp [Token.isAside] at aside

theorem foldl_aside {tokens : List Placed} (aside : ∀ placed ∈ tokens, placed.token.isAside = true) (draft : Draft) :
    ∃ pending new,
      tokens.foldl step draft = { draft with pending := pending, diagnostics := draft.diagnostics ++ new } ∧
      ∀ d ∈ new, d.problem = .emptyDecoratorName ∧ ∃ placed ∈ tokens, placed.start = d.offset := by
  induction tokens generalizing draft with
  | nil => exact ⟨draft.pending, [], by simp, by simp⟩
  | cons placed tokens ih =>
    obtain ⟨first, aside⟩ := List.forall_mem_cons.1 aside
    obtain ⟨pending, early, taken, marks⟩ := step_aside first draft
    obtain ⟨pending', late, taken', marks'⟩ := ih aside (draft.step placed)
    refine ⟨pending', early ++ late, ?_, ?_⟩
    · rw [List.foldl_cons, taken', taken, List.append_assoc]
    · intro d member
      rcases List.mem_append.1 member with member | member
      · obtain rfl := marks d member
        exact ⟨rfl, placed, by simp, rfl⟩
      · obtain ⟨problem, other, listed, same⟩ := marks' d member
        exact ⟨problem, other, by simp [listed], same⟩

theorem ofItems_aside {waiting : List Item} (aside : ∀ item ∈ waiting, item.token.isAside = true) (front : List Item) :
    ∃ pending new,
      ofItems (front ++ waiting) =
        { ofItems front with pending := pending, diagnostics := (ofItems front).diagnostics ++ new } ∧
      ∀ d ∈ new, d.problem = .emptyDecoratorName ∧
        ∃ placed ∈ Item.place (width (Item.texts front)) waiting, placed.start = d.offset := by
  rw [ofItems_append]
  refine foldl_aside (fun placed member => ?_) (ofItems front)
  obtain ⟨item, listed, same⟩ := Item.exists_mem_of_mem_place member
  rw [← same]
  exact aside item listed

/-- A header stands before what waits. -/
theorem exists_before_waiting {front back done waiting : List Item} {header : Item}
    (same : front ++ header :: back = done ++ waiting) (declares : header.token.declares = true)
    (other : ∀ item ∈ waiting, item.token.declares = false) :
    ∃ more, done = front ++ header :: more ∧ back = more ++ waiting := by
  have early : header ∉ waiting := by
    intro member
    simp [other header member] at declares
  rcases List.append_eq_append_iff.1 same with ⟨c, rfl, behind⟩ | ⟨c, -, rfl⟩
  · rcases List.cons_eq_append_iff.1 behind with ⟨-, rfl⟩ | ⟨more, rfl, rfl⟩
    · simp at early
    · exact ⟨more, rfl, rfl⟩
  · simp at early

end Draft

theorem DraftOutline.ofItems_aside {front waiting : List Item} {pending : Pending} {marks : List Diagnostic}
    (taken : Draft.ofItems (front ++ waiting) =
      { Draft.ofItems front with pending := pending, diagnostics := (Draft.ofItems front).diagnostics ++ marks }) :
    ofItems (front ++ waiting) =
      { ofItems front with
        pending := pending.outline, problems := (ofItems front).problems ++ marks.map (·.problem) } := by
  rw [← Draft.outline_ofItems _ [], taken, Item.texts_append, List.append_assoc,
    ← Draft.outline_ofItems front (Item.texts waiting ++ [])]
  simp [Draft.outline]

/-- A field that is declared with what waits for it, and the problems met while that waits, make the difference to an
outline without the field. -/
theorem DraftOutline.Ready.finish_erased {draft : DraftOutline} {name : String} {table : TableOutline} {word : List Char}
    (ready : draft.Ready name table) (fresh : ∀ other ∈ table.fields, other.name ≠ String.ofList word)
    (pending : PendingOutline) (marks : List Problem) (definition : Option Definition) (tokens : List Token) :
    let whole := (tokens.foldl step
      (step { draft with pending := pending, problems := draft.problems ++ marks } (.field word definition))).finish
    ∃ problems, whole.problems = draft.problems ++ marks ++ problems ∧
      (tokens.foldl step draft).finish =
        { whole.changeTable name (·.eraseField (String.ofList word)) with problems := draft.problems ++ problems } := by
  intro whole
  obtain ⟨current, named, first, plain, settled⟩ := ready
  obtain ⟨closed, opened, inTotals, waiting, met⟩ := draft
  dsimp only at current first plain settled
  subst current plain settled
  let gone : FieldOutline := ⟨String.ofList word, pending.isKey, pending.isDim, pending.decorators,
    (definition.map (·.body)).map String.ofList⟩
  have differ : TableOutline.Exchanged name table.fields [gone] [] { table with fields := table.fields ++ [gone] } table :=
    ⟨named, [], by simp, by simp⟩
  have erased := finish_related (TableOutline.lasting_exchanged _ _ _ _)
    (fun _ _ exchanged => ⟨exchanged.1, exchanged.eraseField fresh rfl⟩) { closed } first tokens differ (met ++ marks) met
  have declared : step ⟨closed, some table, false, pending, met ++ marks⟩ (.field word definition) =
      ⟨closed, some { table with fields := table.fields ++ [gone] }, false, {}, met ++ marks⟩ :=
    DraftOutline.step_field rfl rfl word definition
  simp only [whole, declared]
  exact erased

/-- A field where it is declared: the items before the header of its table, those up to the declaration before it, what
waits for it and its own token. -/
structure Sheet.Spot (table field : String) (target : Field) where
  front : List Item
  blank : List Char
  blanks : List Char
  name : List Char
  more : List Item
  done : List Item
  waiting : List Item
  gap : List Char
  word : List Char
  definition : Option Definition
  rest : List Char
  opened : done = front ++ ⟨blank, .table blanks name⟩ :: more
  leads : Item.Leads (done ++ waiting ++ [⟨gap, .field word definition⟩]) rest
  nonempty : name ≠ []
  headers : ∀ item ∈ more, item.token.isTable = false
  totals : ∀ item ∈ more ++ waiting, item.token ≠ .total
  other : ∀ item ∈ waiting, item.token.declares = false
  waits : ∀ item ∈ waiting.head?, item.token.waits = true
  old : Table
  reaches : (Draft.ofItems (done ++ waiting)).Reaches table old
  inTotals : (Draft.ofItems done).inTotals = false
  settled : (Draft.ofItems done).pending = {}
  first : ∀ earlier ∈ old.fields, earlier.key.field ≠ field
  named : field = String.ofList word
  nameStart : target.nameSpan.start = width (Item.texts (done ++ waiting) ++ gap)
  span : target.span = ⟨width (Item.texts done ++ (waiting.head?.map (·.gap)).getD gap),
    width (Item.texts (done ++ waiting) ++ gap ++ Token.stated word definition)⟩

namespace Sheet.Spot

variable {table field : String} {target : Field} (spot : Spot table field target)

def text : List Char :=
  Item.texts (spot.done ++ spot.waiting ++ [⟨spot.gap, .field spot.word spot.definition⟩]) ++ spot.rest

def after : List Char := Token.behind spot.definition ++ spot.rest

end Sheet.Spot

namespace Sheet

/-- Every field is declared at such a place. -/
theorem exists_spot {text : List Char} {table field : String} {found : Table} {target : Field}
    (declared : (ofChars text).table? table = some found) (listed : found.field? field = some target) :
    ∃ spot : Spot table field target, text = spot.text ∧
      found.nameSpan =
        .over (Item.texts spot.front ++ (spot.blank ++ (Keyword.table.word.toList ++ spot.blanks))) spot.name := by
  have located : (ofChars text).field? table field = some target := by simp [field?, declared, listed]
  obtain ⟨items, gap, word, definition, rest, old, parts, leads, reaches, plain, first, named, rfl⟩ := exists_field? located
  obtain ⟨before, -⟩ := Item.leads_append.1 leads
  obtain ⟨front, blank, blanks, name, back, same, nonempty, headers, -, stands, -⟩ := Draft.exists_header reaches.current
  obtain ⟨done, waiting, rfl, settled, other, -, waits, start⟩ := Draft.exists_waiting items
  obtain ⟨more, rfl, rfl⟩ := Draft.exists_before_waiting same.symm rfl other
  obtain ⟨again, table', stands', -⟩ := reaches.exists_table? before
  rw [← List.append_assoc, ← Item.texts_append, ← parts, declared, Option.some.injEq] at table'
  have spell : front ++ ⟨blank, .table blanks name⟩ :: more ++ waiting =
      (front ++ [⟨blank, .table blanks name⟩]) ++ (more ++ waiting) := by simp
  have early := Draft.ne_total_of_inTotals plain fun item member => headers item (List.mem_append_right _ member)
  rw [spell] at plain
  have late := Draft.ne_total_of_inTotals plain headers
  exact ⟨{
    front, blank, blanks, name, more, waiting, gap, word, definition, rest, leads, nonempty, other, waits, old, reaches,
    settled, first, named
    done := front ++ ⟨blank, .table blanks name⟩ :: more
    opened := rfl
    headers := fun item member => headers item (List.mem_append_left _ member)
    totals := late.2
    inTotals := early.1
    nameStart := rfl
    span := by rw [Draft.span_declare, start] }, parts, by rw [table', stands', stands]⟩

namespace Spot

variable {table field : String} {target : Field} (spot : Spot table field target)

structure Range where
  lead : List Char
  part : List Char
  parts : Item.texts spot.waiting ++ (spot.gap ++ Token.stated spot.word spot.definition) = lead ++ part
  ascii : ∀ c ∈ lead, isAsciiBlank c = true
  starts : Token.StartsApart part
  span : target.span = .over (Item.texts spot.done ++ lead) part

theorem exists_range : Nonempty spot.Range := by
  have span := spot.span
  obtain ⟨inner, own, -⟩ := Item.leads_append.1 spot.leads
  cases waiting : spot.waiting with
  | nil =>
    obtain ⟨more, same⟩ := Token.exists_stated spot.word spot.definition
    refine ⟨⟨spot.gap, Token.stated spot.word spot.definition, by simp [waiting], own,
      ⟨['['], Token.parts_of_mem (by simp [Token.openings]), by simp [same]⟩, ?_⟩⟩
    rw [span, waiting]
    simp [Span.over, Nat.add_assoc]
  | cons item more =>
    obtain ⟨-, blank⟩ := inner.wellFormed item (by simp [waiting])
    refine ⟨⟨item.gap, item.token.text ++ (Item.texts more ++ (spot.gap ++ Token.stated spot.word spot.definition)),
      by simp [waiting], blank, Token.startsApart_of_waits (spot.waits item (by simp [waiting])) _, ?_⟩⟩
    rw [span, waiting]
    simp [Span.over, Nat.add_assoc]

namespace Range

variable {spot} (range : spot.Range)

theorem behind : Item.texts spot.waiting ++ (Item.texts [⟨spot.gap, .field spot.word spot.definition⟩] ++ spot.rest) =
    range.lead ++ (range.part ++ spot.after) := by
  rw [← List.append_assoc range.lead, ← range.parts]
  simp [after, Token.text_stated]

theorem text_eq : spot.text = Item.texts spot.done ++ range.lead ++ (range.part ++ spot.after) := by
  rw [List.append_assoc, ← range.behind]
  simp [text]

theorem leads : Item.Leads spot.done (range.lead ++ (range.part ++ spot.after)) := by
  obtain ⟨inner, -⟩ := Item.leads_append.1 spot.leads
  rw [← range.behind]
  exact (Item.leads_append.1 inner).1

end Range

theorem after_ofOffset : (Cursor.ofOffset target.span.stop spot.text).after = spot.after := by
  obtain ⟨range⟩ := spot.exists_range
  rw [range.span, range.text_eq, Cursor.ofOffset_over]

theorem wellFormed : (Token.field spot.word spot.definition).WellFormed ∧
    (Token.field spot.word spot.definition).EndsBefore spot.rest := by
  obtain ⟨-, -, wellFormed, ends, -⟩ := Item.leads_append.1 spot.leads
  exact ⟨wellFormed, ends⟩

/-- What stands before the field's range. -/
theorem le_start : width (Item.texts spot.done) ≤ target.span.start := by
  rw [spot.span, width_append]
  exact Nat.le_add_right _ _

/-- What waits for the field is in its range. -/
theorem covers_waiting {placed : Placed} (listed : placed ∈ Item.place (width (Item.texts spot.done)) spot.waiting) :
    target.span.covers placed.start = true := by
  refine Span.covers_iff.2 ⟨?_, ?_⟩
  · cases waiting : spot.waiting with
    | nil => simp [waiting, Item.place] at listed
    | cons item more =>
      rw [waiting] at listed
      have first := Item.le_of_mem_place listed
      simpa [spot.span, waiting] using first
  · have bound := Item.lt_of_mem_place _ (fun item listed => (spot.leads.wellFormed item (by simp [listed])).1) listed
    rw [← Item.texts_append] at bound
    have stop : target.span.stop = width (Item.texts (spot.done ++ spot.waiting)) +
        width (spot.gap ++ Token.stated spot.word spot.definition) := by
      rw [spot.span, List.append_assoc]
      exact width_append _ _
    omega

/-- What stands behind the field's token stands behind its range. -/
theorem stop_le : target.span.stop ≤
    width (Item.texts (spot.done ++ spot.waiting ++ [⟨spot.gap, .field spot.word spot.definition⟩])) := by
  rw [spot.span]
  simp [Token.text_stated]

variable (plain : ∀ item ∈ spot.waiting, item.token.isBlock = false)

include plain

theorem aside : ∀ item ∈ spot.waiting, item.token.isAside = true := fun item member =>
  (spot.leads.wellFormed item (by simp [member])).1.isAside (plain item member) (spot.other item member)
    (spot.totals item (by simp [member]))

/-- What was met before what waits for the field, the marks without a name in the range of the field, and what was met
behind it. -/
theorem exists_diagnostics :
    ∃ pending marks late,
      Draft.ofItems (spot.done ++ spot.waiting) =
        { Draft.ofItems spot.done with
          pending := pending, diagnostics := (Draft.ofItems spot.done).diagnostics ++ marks } ∧
      (ofChars spot.text).diagnostics = (Draft.ofItems spot.done).diagnostics ++ marks ++ late ∧
      (∀ d ∈ (Draft.ofItems spot.done).diagnostics, target.span.covers d.offset = false) ∧
      (∀ d ∈ marks, d.problem = .emptyDecoratorName ∧ target.span.covers d.offset = true) ∧
      ∀ d ∈ late, target.span.covers d.offset = false := by
  have wellFormed := spot.leads.wellFormed
  obtain ⟨pending, marks, taken, named⟩ := Draft.ofItems_aside (spot.aside plain) spot.done
  obtain ⟨late, reported, behind⟩ := Draft.foldl_reports
    (Draft.ofItems (spot.done ++ spot.waiting ++ [⟨spot.gap, .field spot.word spot.definition⟩]))
    (Item.place (width (Item.texts (spot.done ++ spot.waiting ++
      [⟨spot.gap, .field spot.word spot.definition⟩]))) (Item.read spot.rest))
  refine ⟨pending, marks, late, taken, ?_, ?_, ?_, ?_⟩
  · rw [ofChars_eq, Spot.text, Draft.finish, Draft.ofChars_leads spot.leads, reported, Draft.ofItems_concat]
    rw [Draft.diagnostics_step_field spot.reaches.current, taken]
  · intro d member
    have early := Draft.offset_ofItems
      (fun item listed => (wellFormed item (List.mem_append_left _ (List.mem_append_left _ listed))).1) d member
    have start := spot.le_start
    rw [← Bool.not_eq_true, Span.covers_iff]
    omega
  · intro d member
    obtain ⟨problem, placed, listed, same⟩ := named d member
    exact ⟨problem, same ▸ spot.covers_waiting listed⟩
  · intro d member
    obtain ⟨placed, listed, same⟩ := behind d member
    have bound := (Item.place_increasing _ _).1 placed listed
    have stop := spot.stop_le
    rw [← Bool.not_eq_true, Span.covers_iff]
    omega

theorem ready : (DraftOutline.ofItems spot.done).Ready table (spot.old.outline (Item.texts spot.done)) := by
  obtain ⟨pending, new, taken, -⟩ := Draft.ofItems_aside (spot.aside plain) spot.done
  have reaches : (Draft.ofItems spot.done).Reaches table spot.old := by
    obtain ⟨current, named, earlier⟩ := spot.reaches
    rw [taken] at current earlier
    exact ⟨current, named, earlier⟩
  obtain ⟨current, first⟩ := reaches.outline
  refine ⟨current, reaches.named, first, ?_, ?_⟩
  · rw [Draft.inTotals_ofItems, spot.inTotals]
  · rw [Draft.pending_ofItems, spot.settled]
    rfl

/-- A text that says what was said before what waits for the field, and behind it, says what the text says without the
field and the marks in its range. -/
theorem outline_without {out : List Char} (removed : (ofChars out).outline out =
      ((Token.ofChars spot.after).foldl DraftOutline.step (.ofItems spot.done)).finish) :
    (∀ d ∈ (ofChars spot.text).diagnostics, target.span.covers d.offset = true → d.problem = .emptyDecoratorName) ∧
      (ofChars out).outline out =
        { ((ofChars spot.text).outline spot.text).changeTable table (·.eraseField field) with
          problems := ((ofChars spot.text).diagnostics.filter (!target.span.covers ·.offset)).map (·.problem) } := by
  obtain ⟨wellFormed, ends⟩ := spot.wellFormed
  obtain ⟨pending, marks, late, taken, reported, early, within, behind⟩ := spot.exists_diagnostics plain
  have fresh : ∀ other ∈ (spot.old.outline (Item.texts spot.done)).fields, other.name ≠ String.ofList spot.word := by
    simpa [Table.outline, Field.outline, ← spot.named] using spot.first
  obtain ⟨problems, met, same⟩ := (spot.ready plain).finish_erased fresh pending.outline (marks.map (·.problem))
    spot.definition (Token.ofChars spot.rest)
  have text : (ofChars spot.text).outline spot.text = _ := outline_leads spot.leads
  rw [DraftOutline.ofItems_concat, DraftOutline.ofItems_aside taken] at text
  rw [← text] at met same
  -- What is met behind the field is met with and without it.
  obtain rfl : problems = late.map (·.problem) := by
    have listed : (ofChars spot.text).diagnostics.map (·.problem) = _ := met
    rw [reported, Draft.problems_ofItems, List.map_append, List.map_append] at listed
    exact (List.append_cancel_left listed).symm
  refine ⟨?_, ?_⟩
  · intro d member covered
    rw [reported, List.append_assoc, List.mem_append, List.mem_append] at member
    rcases member with first | mark | last
    · simp [early d first] at covered
    · exact (within d mark).1
    · simp [behind d last] at covered
  · have all (ds : List Diagnostic) (outside : ∀ d ∈ ds, target.span.covers d.offset = false) :
        ds.filter (!target.span.covers ·.offset) = ds := by
      simpa using outside
    have none : marks.filter (!target.span.covers ·.offset) = [] := by
      simpa using fun d member => (within d member).2
    rw [removed, after, ends.foldl_behind wellFormed, same, reported, List.filter_append, List.filter_append, none,
      List.append_nil, all _ early, all _ behind, List.map_append, Draft.problems_ofItems, ← spot.named]

end Spot

/-- A field before which its table has no block. -/
structure Site (table field : String) (target : Field) extends Spot table field target where
  plain : ∀ item ∈ more ++ waiting, item.token.isBlock = false

theorem exists_site {text : List Char} {table field : String} {found : Table} {target : Field}
    (declared : (ofChars text).table? table = some found) (listed : found.field? field = some target)
    (clear : ∀ kind : BlockKind, ¬kind.word.toList <:+: (⟨found.nameSpan.stop, target.span.stop⟩ : Span).slice text) :
    ∃ site : Site table field target, text = site.text := by
  obtain ⟨spot, parts, stands⟩ := exists_spot declared listed
  have same : spot.done ++ spot.waiting =
      spot.front ++ ⟨spot.blank, .table spot.blanks spot.name⟩ :: (spot.more ++ spot.waiting) := by
    simp [spot.opened]
  have whole : text = Item.texts (spot.front ++ ⟨spot.blank, .table spot.blanks spot.name⟩ :: (spot.more ++ spot.waiting)) ++
      (spot.gap ++ Token.stated spot.word spot.definition ++ spot.after) := by
    rw [parts, Spot.text, same]
    simp [Token.text_stated, Spot.after]
  -- A block behind the header would show its word there.
  rw [stands, spot.span, List.append_assoc _ spot.gap, same] at clear
  exact ⟨⟨spot, Item.plain_of_slice whole clear⟩, parts⟩

namespace Site

variable {table field : String} {target : Field} (site : Site table field target)

/-- Without the range of the field, the text says what was said before what waits for the field, and behind it. -/
theorem outline_removed (apart : Stops (!Token.isWordEnd ·) (Cursor.ofOffset target.span.stop site.text).after) :
    let out := removeSpan target.span site.text
    (ofChars out).outline out =
      ((Token.ofChars site.after).foldl DraftOutline.step (.ofItems site.done)).finish := by
  obtain ⟨range⟩ := site.exists_range
  obtain ⟨wellFormed, ends⟩ := site.toSpot.wellFormed
  have leads := range.leads
  have unset := ends.unset wellFormed
  rw [site.after_ofOffset] at apart
  rw [site.opened] at leads
  obtain ⟨cut, removed, left⟩ := exists_cut_header leads site.nonempty range.ascii
    (fun item member => ⟨site.plain item (by simp [member]), site.headers item member⟩) range.starts (.inl apart) unset
  obtain ⟨-, blank, header, -⟩ := Item.leads_append.1 leads
  have ends' : (Token.table site.blanks site.name).EndsBefore cut.text := by
    rcases left with same | ends'
    · rw [same]
      exact header.endsBefore rfl rfl (fun _ same => site.nonempty (Token.table.inj same).2) apart unset
    · exact ends'
  have leads' : Item.Leads (site.front ++ [⟨site.blank, .table site.blanks site.name⟩]) cut.text :=
    leads.rebase site.nonempty ⟨blank, header, ends', trivial⟩
  intro out
  have same : out = Item.texts (site.front ++ [⟨site.blank, .table site.blanks site.name⟩]) ++ cut.text := by
    rw [← removed, ← site.opened, ← range.span, ← range.text_eq]
  rw [same, outline_cut leads', site.opened]
  simp

/-- Without the range, the text says what it said, without the field and the marks in its range. -/
theorem outline_erased (apart : Stops (!Token.isWordEnd ·) (Cursor.ofOffset target.span.stop site.text).after) :
    let out := removeSpan target.span site.text
    (∀ d ∈ (ofChars site.text).diagnostics, target.span.covers d.offset = true → d.problem = .emptyDecoratorName) ∧
      (ofChars out).outline out =
        { ((ofChars site.text).outline site.text).changeTable table (·.eraseField field) with
          problems := ((ofChars site.text).diagnostics.filter (!target.span.covers ·.offset)).map (·.problem) } :=
  site.outline_without (fun item member => site.plain item (by simp [member])) (site.outline_removed apart)

end Site

/-- Taking out a field before which its table has no block takes out its declaration and nothing else that the sheet
says, up to the marks without a name that stand among what waits for the field. -/
theorem removeField_exact (text table field : String) {found : Table} {target : Field}
    (declared : (read text).table? table = some found) (listed : found.field? field = some target)
    (clear : ∀ kind : BlockKind,
      ¬kind.word.toList <:+: (⟨found.nameSpan.stop, target.span.stop⟩ : Span).slice text.toList)
    (apart : Stops (!Token.isWordEnd ·) (Cursor.ofOffset target.span.stop text.toList).after) :
    ∃ out, removeField text table field = some out ∧ (read text).Keyed ∧ (read out).Keyed ∧
      (∀ d ∈ (read text).diagnostics, target.span.covers d.offset = true → d.problem = .emptyDecoratorName) ∧
      (read out).outline out.toList =
        { ((read text).outline text.toList).changeTable table (·.eraseField field) with
          problems := ((read text).diagnostics.filter (!target.span.covers ·.offset)).map (·.problem) } := by
  have located : (read text).field? table field = some target := by simp [field?, declared, listed]
  obtain ⟨site, parts⟩ := exists_site declared listed clear
  rw [parts] at apart
  have erased := site.outline_erased apart
  rw [← parts] at erased
  refine ⟨String.ofList (removeSpan target.span text.toList), by simp [removeField, located], keyed_read _,
    keyed_read _, ?_⟩
  rw [read, read, String.toList_ofList]
  exact erased

/-- Two marks without a name, of which one stands among what waits for the field. The field shares its first line with
another and its last one with a comment; a later field has the same name, and a block comes behind it. -/
theorem removeField_exact_marked :
    let text := "!\ntable t\n[e] !d\r\n! dim [f] = 'é' # x\r\n[f]\noverride\n1"
    let out := "!\ntable t\n[e] # x\r\n[f]\noverride\n1"
    ∃ found target, (read text).table? "t" = some found ∧ found.field? "f" = some target ∧
      (∀ kind : BlockKind,
        ¬kind.word.toList <:+: (⟨found.nameSpan.stop, target.span.stop⟩ : Span).slice text.toList) ∧
      Stops (!Token.isWordEnd ·) (Cursor.ofOffset target.span.stop text.toList).after ∧
      removeField text "t" "f" = some out ∧
      (read out).outline out.toList =
        { ((read text).outline text.toList).changeTable "t" (·.eraseField "f") with problems := [.emptyDecoratorName] } := by
  intro text out
  obtain ⟨found, declared, inner⟩ := Option.bind_eq_some_iff.1 (by decide +kernel :
    ((read text).table? "t").bind (fun found => (found.field? "f").map fun target => (found.nameSpan.stop, target.span)) =
      some (9, ⟨14, 34⟩))
  obtain ⟨target, listed, same⟩ := Option.map_eq_some_iff.1 inner
  obtain ⟨stop, span⟩ := Prod.mk.inj same
  have clear : ∀ kind : BlockKind,
      ¬kind.word.toList <:+: (⟨found.nameSpan.stop, target.span.stop⟩ : Span).slice text.toList := by
    rw [stop, span]
    rintro (_ | _) <;> decide +kernel
  have apart : Stops (!Token.isWordEnd ·) (Cursor.ofOffset target.span.stop text.toList).after := by
    have next : (Cursor.ofOffset 34 text.toList).after = ' ' :: "# x\r\n[f]\noverride\n1".toList := by decide +kernel
    rw [span, next, stops_cons]
    decide
  have left : ((read text).diagnostics.filter (!target.span.covers ·.offset)).map (·.problem) = [.emptyDecoratorName] := by
    rw [span]
    decide +kernel
  have done : removeField text "t" "f" = some out := by decide +kernel
  obtain ⟨out', done', -, -, -, outline⟩ := removeField_exact text "t" "f" declared listed clear apart
  obtain rfl := Option.some.inj (done.symm.trans done')
  exact ⟨found, target, declared, listed, clear, apart, done, left ▸ outline⟩

/-- A mark without a name that stands among what waits for a field is lost with the field. -/
theorem removeField_drops_mark :
    let text := "table t\n!d\n!\n[f]\n"
    let out := "table t\n"
    ∃ found target, (read text).table? "t" = some found ∧ found.field? "f" = some target ∧
      (∀ kind : BlockKind,
        ¬kind.word.toList <:+: (⟨found.nameSpan.stop, target.span.stop⟩ : Span).slice text.toList) ∧
      Stops (!Token.isWordEnd ·) (Cursor.ofOffset target.span.stop text.toList).after ∧
      removeField text "t" "f" = some out ∧
      (read out).outline out.toList ≠ ((read text).outline text.toList).changeTable "t" (·.eraseField "f") := by
  intro text out
  obtain ⟨found, declared, inner⟩ := Option.bind_eq_some_iff.1 (by decide +kernel :
    ((read text).table? "t").bind (fun found => (found.field? "f").map fun target => (found.nameSpan.stop, target.span)) =
      some (7, ⟨8, 16⟩))
  obtain ⟨target, listed, same⟩ := Option.map_eq_some_iff.1 inner
  obtain ⟨stop, span⟩ := Prod.mk.inj same
  refine ⟨found, target, declared, listed, ?_, ?_, by decide +kernel, by decide +kernel⟩
  · rw [stop, span]
    rintro (_ | _) <;> decide +kernel
  · have next : (Cursor.ofOffset 16 text.toList).after = ['\n'] := by decide +kernel
    rw [span, next, stops_cons]
    decide

end Sheet
end Gridbook
