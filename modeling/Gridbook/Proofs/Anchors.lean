import Gridbook.Proofs.Expressions
import Gridbook.Proofs.Terminated

/-!
Where a table takes another field. Behind the last field, or behind the header of a table that has none, the line may say
nothing more; then it can be ended there, with or without a carriage return, and what was read up to the end of the line
is read in the same way, whatever stands on the next line.
-/
namespace Gridbook

open Text

/-- Where the last field of a table ends, or its name if it has no fields. -/
def Table.anchor (table : Table) : Nat := (table.lastField?.map (·.span.stop)).getD table.nameSpan.stop

/-- What may stand before a line feed to end a line. -/
def Text.IsReturn (cs : List Char) : Prop := cs = [] ∨ cs = ['\r']

namespace Text.IsReturn

variable {cs : List Char}

theorem isAsciiBlank (short : IsReturn cs) : ∀ c ∈ cs, isAsciiBlank c = true := by
  rcases short with rfl | rfl
  · simp
  · simp [Text.isAsciiBlank]

theorem isBlank (short : IsReturn cs) : ∀ c ∈ cs, isBlank c = true :=
  fun c member => isBlank_of_isAsciiBlank (short.isAsciiBlank c member)

theorem inLine (short : IsReturn cs) : ∀ c ∈ cs, Token.inLine c = true := by
  rcases short with rfl | rfl
  · simp
  · simp [Token.inLine]

end Text.IsReturn

namespace Cursor

theorem exists_lineBreak (cursor : Cursor) : ∃ cr, IsReturn cr ∧ cursor.lineBreak = cr ++ ['\n'] := by
  unfold lineBreak
  extract_lets upToBreak
  split
  · exact ⟨['\r'], .inr rfl, rfl⟩
  · exact ⟨[], .inl rfl, rfl⟩

/-- The cursor goes to the end of a line that says nothing more. -/
theorem exists_pastRemark {line rest : List Char} (before : List Char) (quiet : IsRemark line)
    (inside : ∀ c ∈ line, Token.inLine c = true) (ends : Stops Token.inLine rest) :
    ∃ kept ret, IsReturn ret ∧ (ret = [] → kept.getLast? ≠ some '\r') ∧ line = kept ++ ret ∧
      (⟨before, line ++ rest⟩ : Cursor).pastRemark = ⟨before ++ kept, ret ++ rest⟩ := by
  have skip : (⟨before, line ++ rest⟩ : Cursor).pastRemark =
      let skipped := if line.getLast? = some '\r' then line.dropLast else line
      ⟨before ++ skipped, (line ++ rest).drop skipped.length⟩ := by
    rw [pastRemark, lineAfter_eq inside ends]
    dsimp only
    rw [IsRemark] at quiet
    cases trimmed : trim line with
    | nil => rfl
    | cons c more =>
      obtain rfl : c = '#' := by simpa [trimmed] using quiet
      rfl
  by_cases last : line.getLast? = some '\r'
  · obtain ⟨kept, rfl⟩ := List.getLast?_eq_some_iff.1 last
    refine ⟨kept, ['\r'], .inr rfl, by simp, rfl, skip.trans ?_⟩
    simp
  · refine ⟨line, [], .inl rfl, fun _ => last, by simp, skip.trans ?_⟩
    simp [last]

end Cursor

/-- A header with a name, or the name of a field without an expression. The rest of the line is not its own. -/
def Token.IsSeat (token : Token) : Prop :=
  (∃ word, token = .field word none) ∨ ∃ blanks word, token = .table blanks word ∧ word ≠ []

/-- A place behind such a token, and the rest of its line. -/
structure Seat where
  front : List Item
  gap : List Char
  token : Token
  line : List Char
  rest : List Char
  leads : Item.Leads (front ++ [⟨gap, token⟩]) (line ++ rest)
  isSeat : token.IsSeat
  inside : ∀ c ∈ line, Token.inLine c = true
  ends : Stops Token.inLine rest

namespace Seat

variable (seat : Seat)

def items : List Item := seat.front ++ [⟨seat.gap, seat.token⟩]

def text : List Char := Item.texts seat.items ++ (seat.line ++ seat.rest)

theorem plain : seat.token.isBlock = false := by
  rcases seat.isSeat with ⟨word, same⟩ | ⟨blanks, word, same, -⟩ <;> simp [same, Token.isBlock]

theorem fillsLine : seat.token.fillsLine = false := by
  rcases seat.isSeat with ⟨word, same⟩ | ⟨blanks, word, same, -⟩ <;> simp [same, Token.fillsLine]

theorem named (blanks : List Char) : seat.token ≠ .table blanks [] := by
  intro same
  rcases seat.isSeat with ⟨word, field⟩ | ⟨blanks', word, header, nonempty⟩
  · simp [field] at same
  · exact nonempty (Token.table.inj (header.symm.trans same)).2

theorem endsBefore : seat.token.WellFormed ∧ seat.token.EndsBefore (seat.line ++ seat.rest) := by
  obtain ⟨-, -, wellFormed, ends, -⟩ := Item.leads_append.1 seat.leads
  exact ⟨wellFormed, by simpa using ends⟩

/-- What stands before the place does not see what follows it. -/
theorem exchange {rest' : List Char} (ends : seat.token.EndsBefore rest') : Item.Leads seat.items rest' := by
  obtain ⟨part, more, opens, starts⟩ : ∃ part more, Token.Opens part ∧ seat.token.text = part ++ more := by
    rcases seat.isSeat with ⟨word, same⟩ | ⟨blanks, word, same, nonempty⟩
    · exact ⟨_, _, Token.opens_bracket, by rw [same]; rfl⟩
    · have wellFormed := seat.endsBefore.1
      rw [same] at wellFormed ⊢
      obtain ⟨part, opens, starts⟩ := wellFormed.exists_text_table nonempty
      obtain ⟨more, starts⟩ := starts word
      exact ⟨part, more, opens, starts⟩
  exact seat.leads.exchange opens starts starts seat.endsBefore.1 ends

end Seat

variable {front : List Item} {token : Token} {definition : Option Definition} {d : Definition}
  {gap word part more text before line rest kept ret cr : List Char}

/-- A place in a text behind which its line says nothing more. The draft is what was read up to there. The line can be
ended there in another way, and the next one can be any. -/
structure Anchor (text before line rest : List Char) (draft : DraftOutline) : Prop where
  parts : text = before ++ (line ++ rest)
  quiet : IsRemark line
  inside : ∀ c ∈ line, Token.inLine c = true
  ends : Stops Token.inLine rest
  outline : (Sheet.ofChars text).outline text = ((Token.ofChars rest).foldl DraftOutline.step draft).finish
  breaks : ∀ kept ret cr next, line = kept ++ ret → IsReturn ret → IsReturn cr →
    ∃ items gap, before ++ (kept ++ cr) = Item.texts items ++ gap ∧ (∀ c ∈ gap, isAsciiBlank c = true) ∧
      DraftOutline.ofItems items = draft ∧ Item.Leads items (gap ++ '\n' :: next)

/-- A token that does not take the rest of its line ends before the end of the line that says nothing more. -/
theorem Token.EndsBefore.breakLine (ends : token.EndsBefore (kept ++ (ret ++ rest))) (wellFormed : token.WellFormed)
    (plain : token.isBlock = false) (open' : token.fillsLine = false) (short : IsReturn cr) (next : List Char) :
    token.EndsBefore ((kept ++ cr) ++ '\n' :: next) := by
  refine EndsBefore.append_newline wellFormed ?_ (by simp [plain])
  have before : token.EndsBefore kept := ends.of_append_plain plain
  rcases short with rfl | rfl
  · simpa using before
  · exact before.append_return wellFormed (by simp [open'])

/-- The place behind a token that does not take the rest of its line. -/
theorem Anchor.behind (seat : Seat) (quiet : IsRemark seat.line) :
    Anchor seat.text (Item.texts seat.items) seat.line seat.rest (.ofItems seat.items) := by
  refine ⟨rfl, quiet, seat.inside, seat.ends, ?_, ?_⟩
  · obtain ⟨items, blanks, same, ascii, idle, further⟩ := Item.exists_idle quiet seat.inside seat.ends
    have leads : Item.Leads seat.items (seat.line ++ seat.rest) := seat.leads
    rw [Seat.text, Sheet.outline_leads leads, same, List.append_assoc, Token.foldl_idle idle ascii further]
  · intro kept ret cr next same short short'
    obtain ⟨wellFormed, apart⟩ := seat.endsBefore
    rw [same, List.append_assoc] at apart
    have leads := seat.exchange (apart.breakLine wellFormed seat.plain seat.fillsLine short' next)
    have quiet' : IsRemark (kept ++ cr) :=
      (isRemark_append_run short'.isBlank).2 ((isRemark_append_run short.isBlank).1 (same ▸ quiet))
    have inside' : ∀ c ∈ kept ++ cr, Token.inLine c = true :=
      List.forall_mem_append.2 ⟨fun c member => seat.inside c (by simp [same, member]), short'.inLine⟩
    obtain ⟨items, blanks, same, ascii, idle, further⟩ := Item.exists_idle quiet' inside'
      (Token.stops_newline : Stops Token.inLine ('\n' :: next))
    refine ⟨seat.items ++ items, blanks, ?_, ascii, ?_, Item.leads_append.2 ⟨?_, further⟩⟩
    · rw [same, Item.texts_append, List.append_assoc]
    · rw [DraftOutline.ofItems_append, DraftOutline.foldl_idle idle]
    · rwa [same, List.append_assoc] at leads

/-- Blanks before a field are read behind any items as words that say nothing. -/
theorem Item.Leads.indent {items : List Item} {blanks after : List Char} (leads : Item.Leads items (blanks ++ '[' :: after))
    (blank : ∀ c ∈ blanks, isBlank c = true) :
    ∃ words gap, blanks = Item.texts words ++ gap ∧ (∀ c ∈ gap, isAsciiBlank c = true) ∧
      DraftOutline.ofItems (items ++ words) = DraftOutline.ofItems items ∧
      Item.Leads (items ++ words) (gap ++ '[' :: after) := by
  have apart : Stops (!Token.isWordEnd ·) ('[' :: after) := by simp [Token.isWordEnd]
  obtain ⟨words, gap, rfl, ascii, idle, further⟩ := Item.exists_words blank apart
  refine ⟨words, gap, rfl, ascii, ?_, Item.leads_append.2 ⟨?_, further⟩⟩
  · rw [DraftOutline.ofItems_append, DraftOutline.foldl_idle idle]
  · rwa [List.append_assoc] at leads

/-- A declaration on a line of its own, indented by any blanks, is read behind what was read up to the place. -/
theorem Anchor.insert {draft : DraftOutline} {indent : List Char} (anchor : Anchor text before line rest draft)
    (parts : line = kept ++ ret) (short : IsReturn ret) (short' : IsReturn cr) (blank : ∀ c ∈ indent, isBlank c = true)
    (after : List Char) :
    ∃ items gap, before ++ (kept ++ (cr ++ '\n' :: indent)) = Item.texts items ++ gap ∧
      (∀ c ∈ gap, isAsciiBlank c = true) ∧ DraftOutline.ofItems items = draft ∧ Item.Leads items (gap ++ '[' :: after) := by
  obtain ⟨items, gap, same, ascii, taken, leads⟩ := anchor.breaks kept ret cr (indent ++ '[' :: after) parts short short'
  have blanks : ∀ c ∈ gap ++ '\n' :: indent, isBlank c = true := by
    refine List.forall_mem_append.2 ⟨fun c member => isBlank_of_isAsciiBlank (ascii c member), ?_⟩
    exact List.forall_mem_cons.2 ⟨by decide, blank⟩
  have leads : Item.Leads items ((gap ++ '\n' :: indent) ++ '[' :: after) := by simpa using leads
  obtain ⟨words, gap', same', ascii', silent, leads⟩ := leads.indent blanks
  refine ⟨items ++ words, gap', ?_, ascii', silent.trans taken, leads⟩
  calc before ++ (kept ++ (cr ++ '\n' :: indent)) = before ++ (kept ++ cr) ++ '\n' :: indent := by simp
    _ = Item.texts items ++ (gap ++ '\n' :: indent) := by rw [same, List.append_assoc]
    _ = Item.texts (items ++ words) ++ gap' := by rw [same', Item.texts_append, List.append_assoc]

theorem Token.trim_splitRemark_append (short : IsReturn ret) (line : List Char) :
    trim (splitRemark none (line ++ ret)).1 = trim (splitRemark none line).1 := by
  rcases short with rfl | rfl
  · rw [List.append_nil]
  · exact trim_splitRemark_return line

/-- From the start of the text to the end of the expression that is defined. -/
def Definition.reach (d : Definition) (before word : List Char) : List Char :=
  before ++ ((Token.field word none).text ++ (d.gap ++ '=' :: (d.lead ++ d.body)))

namespace Token

def stated (word : List Char) : Option Definition → List Char
  | none => (field word none).text
  | some d => d.reach [] word

def behind : Option Definition → List Char
  | none => []
  | some d => d.tail

theorem text_stated (word : List Char) (definition : Option Definition) :
    (field word definition).text = stated word definition ++ behind definition := by
  cases definition <;> simp [stated, behind, Definition.reach, text, Definition.text]

theorem exists_stated (word : List Char) (definition : Option Definition) :
    ∃ more, stated word definition = '[' :: more := by
  cases definition <;> exact ⟨_, rfl⟩

end Token

/-- The place behind an expression. -/
theorem Anchor.defined (leads : Item.Leads (front ++ [⟨gap, .field word (some d)⟩]) rest) :
    Anchor (Item.texts (front ++ [⟨gap, .field word (some d)⟩]) ++ rest) (d.reach (Item.texts front ++ gap) word) d.tail rest
      (.ofItems (front ++ [⟨gap, .field word (some d)⟩])) := by
  obtain ⟨-, -, wellFormed, apart, -⟩ := Item.leads_append.1 leads
  have wellFormed : d.WellFormed := wellFormed.2 d rfl
  refine ⟨by simp [Definition.reach, Token.text, Definition.text], wellFormed.isRemark_tail,
    fun c member => wellFormed.line c (by simp [member]), (Token.endsBefore_iff rfl).1 apart, Sheet.outline_leads leads, ?_⟩
  intro kept ret cr next parts short short'
  let d' := Definition.ofLine d.gap (d.lead ++ d.body ++ kept ++ cr)
  have body : d'.body = d.body := by
    have same := wellFormed.body
    rw [parts, ← List.append_assoc, Token.trim_splitRemark_append short] at same
    rw [same]
    exact Token.trim_splitRemark_append short' _
  have inside : ∀ c ∈ d.lead ++ d.body ++ kept ++ cr, Token.inLine c = true := by
    refine List.forall_mem_append.2 ⟨fun c member => wellFormed.line c ?_, short'.inLine⟩
    rw [parts, ← List.append_assoc]
    exact List.mem_append_left ret member
  refine ⟨front ++ [⟨gap, .field word (some d')⟩], [], ?_, by simp, ?_,
    leads.define (Definition.wellFormed_ofLine wellFormed.gap inside) Token.stops_newline⟩
  · simp [Definition.reach, d', Token.text, Definition.text_ofLine]
  · simp [DraftOutline.ofItems_concat, DraftOutline.step, body]

/-- The first table of a name is open, and nothing waits for its next field. -/
structure DraftOutline.Ready (draft : DraftOutline) (name : String) (table : TableOutline) : Prop where
  current : draft.current = some table
  named : table.name = name
  first : ∀ earlier ∈ draft.closed, earlier.name ≠ name
  plain : draft.inTotals = false
  settled : draft.pending = {}

/-- Behind a header the table is ready for its first field. -/
theorem DraftOutline.ready_header (nonempty : word ≠ []) (gap blanks : List Char)
    (first : ∀ earlier ∈ (Draft.ofItems front).tables, earlier.name ≠ String.ofList word) :
    ∃ table, (ofItems (front ++ [⟨gap, .table blanks word⟩])).Ready (String.ofList word) table ∧ table.fields = [] := by
  rw [ofItems_concat, step_table nonempty]
  refine ⟨_, ⟨rfl, rfl, ?_, rfl, rfl⟩, rfl⟩
  dsimp only
  rw [Draft.tables_ofItems]
  simpa [Table.outline] using first

/-- Behind a field the table is ready for the next one. -/
theorem DraftOutline.ready_field {name : String} {old : Table} (reaches : (Draft.ofItems front).Reaches name old)
    (plain : (Draft.ofItems front).inTotals = false) (gap word : List Char) (definition : Option Definition) :
    ∃ table, (ofItems (front ++ [⟨gap, .field word definition⟩])).Ready name table ∧
      table.fields.length = old.fields.length + 1 := by
  obtain ⟨current, first⟩ := reaches.outline
  rw [← Draft.inTotals_ofItems] at plain
  rw [ofItems_concat, step_field current plain]
  exact ⟨_, ⟨rfl, reaches.named, first, plain, rfl⟩, by simp [Table.outline]⟩

theorem Draft.stop_declare (pending : Pending) (table : String) (before word : List Char) (d : Definition) :
    (declare pending table (width before) word (some d)).span.stop = width (d.reach before word) := by
  simp [declare, Definition.reach, Nat.add_assoc]

theorem Draft.span_declare (pending : Pending) (table : String) (before word : List Char) (definition : Option Definition) :
    (declare pending table (width before) word definition).span =
      ⟨pending.start.getD (width before), width (before ++ Token.stated word definition)⟩ := by
  have stop : (declare pending table (width before) word definition).span.stop =
      width (before ++ Token.stated word definition) := by
    cases definition with
    | none => rw [width_append]; rfl
    | some d => rw [stop_declare, Token.stated, Definition.reach, Definition.reach, List.nil_append]
  rw [← stop]
  rfl

namespace Sheet

variable {name : String} {found : Table}

/-- The place behind the header of the first table of a name. -/
theorem exists_seat_header (declared : (ofChars text).table? name = some found) :
    ∃ (seat : Seat) (table : TableOutline), text = seat.text ∧ found.nameSpan.stop = width (Item.texts seat.items) ∧
      (DraftOutline.ofItems seat.items).Ready name table ∧ table.fields = [] := by
  obtain ⟨front, gap, blanks, word, rest, rfl, leads, nonempty, rfl, stands, before⟩ := exists_header declared
  obtain ⟨line, rest, rfl, inside, ends⟩ := exists_line rest
  have first : ∀ earlier ∈ (Draft.ofItems front).tables, earlier.name ≠ String.ofList word := by
    intro earlier member
    rw [before] at member
    simpa using List.mem_takeWhile_imp member
  obtain ⟨table, ready, none⟩ := DraftOutline.ready_header nonempty gap blanks first
  refine ⟨⟨front, gap, .table blanks word, line, rest, leads, .inr ⟨blanks, word, rfl, nonempty⟩, inside, ends⟩, table, rfl,
    ?_, ready, none⟩
  simp [stands, Seat.items, Span.over, Token.text, Nat.add_assoc]

/-- The place behind a field: its line says nothing more if it is defined, and goes on in any way if it is not. -/
theorem exists_field_cases {i : Nat} {field : Field} (declared : (ofChars text).table? name = some found)
    (listed : found.fields[i]? = some field) :
    ∃ table : TableOutline, table.fields.length = i + 1 ∧
      ((∃ before line rest draft, Anchor text before line rest draft ∧ field.span.stop = width before ∧
          draft.Ready name table) ∨
        ∃ seat : Seat, text = seat.text ∧ field.span.stop = width (Item.texts seat.items) ∧
          (DraftOutline.ofItems seat.items).Ready name table) := by
  have bound := (List.getElem?_eq_some_iff.1 listed).1
  obtain ⟨front, gap, word, definition, rest, old, rfl, leads, reaches, plain, fields, rfl⟩ := exists_field declared listed
  obtain ⟨table, ready, length⟩ := DraftOutline.ready_field reaches plain gap word definition
  rw [fields, List.length_take, Nat.min_eq_left (Nat.le_of_lt bound)] at length
  refine ⟨table, length, ?_⟩
  cases definition with
  | some d => exact .inl ⟨_, d.tail, rest, _, .defined leads, Draft.stop_declare .., ready⟩
  | none =>
    obtain ⟨line, rest, rfl, inside, ends⟩ := exists_line rest
    refine .inr ⟨⟨front, gap, .field word none, line, rest, leads, .inl ⟨word, rfl⟩, inside, ends⟩, rfl, ?_, ready⟩
    simp [Draft.declare, Seat.items, Nat.add_assoc]

/-- The place where the first table of a name takes another field. -/
theorem exists_anchor_cases (declared : (ofChars text).table? name = some found) :
    ∃ table : TableOutline, table.fields.length = found.fields.length ∧
      ((∃ before line rest draft, Anchor text before line rest draft ∧ found.anchor = width before ∧
          draft.Ready name table) ∨
        ∃ seat : Seat, text = seat.text ∧ found.anchor = width (Item.texts seat.items) ∧
          (DraftOutline.ofItems seat.items).Ready name table) := by
  cases last : found.lastField? with
  | none =>
    have stop : found.anchor = found.nameSpan.stop := by simp [Table.anchor, last]
    have empty : found.fields = [] := List.getLast?_eq_none_iff.1 last
    obtain ⟨seat, table, parts, start, ready, none⟩ := exists_seat_header declared
    exact ⟨table, by simp [none, empty], .inr ⟨seat, parts, stop.trans start, ready⟩⟩
  | some field =>
    have stop : found.anchor = field.span.stop := by simp [Table.anchor, last]
    rw [Table.lastField?, List.getLast?_eq_getElem?] at last
    have bound := (List.getElem?_eq_some_iff.1 last).1
    obtain ⟨table, length, cases⟩ := exists_field_cases declared last
    rw [stop]
    exact ⟨table, by omega, cases⟩

theorem exists_anchor (declared : (ofChars text).table? name = some found)
    (room : IsRemark (Cursor.ofOffset found.anchor text).lineAfter) :
    ∃ before line rest draft table, Anchor text before line rest draft ∧ found.anchor = width before ∧
      draft.Ready name table ∧ table.fields.length = found.fields.length := by
  obtain ⟨table, length, ⟨before, line, rest, draft, anchor, start, ready⟩ | ⟨seat, parts, start, ready⟩⟩ :=
    exists_anchor_cases declared
  · exact ⟨before, line, rest, draft, table, anchor, start, ready, length⟩
  · rw [start, parts, Seat.text, Cursor.ofOffset_width, Cursor.lineAfter_eq seat.inside seat.ends] at room
    exact ⟨_, seat.line, seat.rest, _, table, parts ▸ .behind seat room, start, ready, length⟩

end Sheet
end Gridbook
