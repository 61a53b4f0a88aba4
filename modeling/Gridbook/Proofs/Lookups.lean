import Gridbook.Proofs.Declarations
import Gridbook.Proofs.OutlineEdits
import Gridbook.Sheet.Edit

/-!
What is looked up in a sheet, as a place in its text. The first table of a name was opened by a header, and each of its
fields was declared by a token; the items up to that token lead to the text behind it, and no table of that name comes
before. An edit at such a place changes the first table of that name in the outline and no other.
-/
namespace Gridbook

open Text

theorem Cursor.ofOffset_width (before after : List Char) : ofOffset (width before) (before ++ after) = ⟨before, after⟩ := by
  rw [ofOffset, cut_width_append]

theorem Cursor.ofOffset_over (before part after : List Char) :
    ofOffset (Span.over before part).stop (before ++ (part ++ after)) = ⟨before ++ part, after⟩ := by
  rw [← List.append_assoc, Span.over, ← width_append, ofOffset_width]

theorem Cursor.lineAfter_eq {before line rest : List Char} (inside : ∀ c ∈ line, Token.inLine c = true)
    (ends : Stops Token.inLine rest) : (⟨before, line ++ rest⟩ : Cursor).lineAfter = line :=
  takeWhile_run inside ends

theorem Text.exists_line (cs : List Char) :
    ∃ line rest, cs = line ++ rest ∧ (∀ c ∈ line, Token.inLine c = true) ∧ Stops Token.inLine rest :=
  ⟨cs.takeWhile Token.inLine, cs.dropWhile Token.inLine, List.takeWhile_append_dropWhile.symm,
    fun _ => List.mem_takeWhile_imp, stops_dropWhile _ _⟩

structure Draft.Reaches (draft : Draft) (name : String) (table : Table) : Prop where
  current : draft.current = some table
  named : table.name = name
  first : ∀ earlier ∈ draft.closed, earlier.name ≠ name

def DraftOutline.ofItems (items : List Item) : DraftOutline := (items.map (·.token)).foldl step {}

theorem DraftOutline.ofItems_append (front back : List Item) :
    ofItems (front ++ back) = (back.map (·.token)).foldl step (ofItems front) := by
  rw [ofItems, List.map_append, List.foldl_append]
  rfl

theorem DraftOutline.ofItems_concat (items : List Item) (item : Item) :
    ofItems (items ++ [item]) = (ofItems items).step item.token :=
  ofItems_append items [item]

namespace Draft

variable {front : List Item} {rest : List Char} {table : Table} {name : String}

/-- The items at the front of a text do to an outline what they do to a draft. -/
theorem outline_ofItems (front : List Item) (rest : List Char) :
    (ofItems front).outline (Item.texts front ++ rest) = DraftOutline.ofItems front := by
  have stands : ∀ p ∈ Item.place 0 front, At (Item.texts front ++ rest) p.start p.token.text :=
    fun p member => Item.at_of_mem_place [] rest member
  rw [ofItems, outline_foldl {} stands, Item.map_token_place]
  rfl

theorem ofChars_leads (leads : Item.Leads front rest) :
    Draft.ofChars (Item.texts front ++ rest) =
      (Item.place (width (Item.texts front)) (Item.read rest)).foldl step (ofItems front) := by
  rw [← ofItems_append, ← Item.read_leads leads]
  rfl

/-- In the outline too, the first table of that name is open. -/
theorem Reaches.outline (reaches : (ofItems front).Reaches name table) :
    (DraftOutline.ofItems front).current = some (table.outline (Item.texts front)) ∧
      ∀ earlier ∈ (DraftOutline.ofItems front).closed, earlier.name ≠ name := by
  rw [← outline_ofItems front [], List.append_nil]
  refine ⟨by simp [Draft.outline, reaches.current], ?_⟩
  simpa [Draft.outline, Table.outline] using reaches.first

theorem tables_ofItems (front : List Item) :
    (DraftOutline.ofItems front).tables = (ofItems front).tables.map (Table.outline (Item.texts front)) := by
  rw [← outline_ofItems front [], List.append_nil, outline_tables]

theorem problems_ofItems (front : List Item) :
    (DraftOutline.ofItems front).problems = (ofItems front).diagnostics.map (·.problem) := by
  rw [← outline_ofItems front []]
  rfl

theorem pending_ofItems (front : List Item) : (DraftOutline.ofItems front).pending = (ofItems front).pending.outline := by
  rw [← outline_ofItems front []]
  rfl

theorem inTotals_ofItems (front : List Item) : (DraftOutline.ofItems front).inTotals = (ofItems front).inTotals := by
  rw [← outline_ofItems front []]
  rfl

/-- The table that is open is found again among all tables of the text, if no other of its name comes before it. -/
theorem Reaches.exists_table? (reaches : (ofItems front).Reaches name table) (leads : Item.Leads front rest) :
    ∃ found, (Sheet.ofChars (Item.texts front ++ rest)).table? name = some found ∧
      found.nameSpan = table.nameSpan ∧ table.fields <+: found.fields := by
  obtain ⟨later, more, listed, named, stands, fields⟩ :=
    exists_of_current reaches.current (Item.place (width (Item.texts front)) (Item.read rest))
  refine ⟨later, ?_, stands, fields⟩
  rw [Sheet.table?, Sheet.ofChars_eq, finish, ofChars_leads leads, listed, List.find?_append,
    List.find?_eq_none.2 (by simpa using reaches.first), Option.none_or,
    List.find?_cons_of_pos (by simpa using named.trans reaches.named)]

end Draft

namespace Sheet

variable {text : List Char} {name : String} {table : Table}

/-- The first table of a name, when the last item that belongs to it has been taken in. -/
theorem exists_reaches (found : (ofChars text).table? name = some table) :
    ∃ front back, Item.read text = front ++ back ∧ (Draft.ofItems front).Reaches name table ∧
      (Draft.ofItems front).closed = (ofChars text).tables.takeWhile (·.name ≠ name) := by
  obtain ⟨named, closed, more, listed, none⟩ := List.find?_eq_some_iff_append.1 found
  have named : table.name = name := by simpa using named
  have none : ∀ earlier ∈ closed, earlier.name ≠ name := by simpa using none
  have before : (ofChars text).tables.takeWhile (·.name ≠ name) = closed := by
    rw [listed, List.takeWhile_append_of_pos (by simpa using none), List.takeWhile_cons_of_neg (by simpa using named),
      List.append_nil]
  have place : (Draft.ofItems (Item.read text)).tables[closed.length]? = some table := by
    have same : (Draft.ofItems (Item.read text)).tables = closed ++ table :: more := listed
    simp [same]
  obtain ⟨front, back, parts, current, length⟩ := Draft.exists_open place
  have initial : (Draft.ofItems front).closed <+: closed ++ table :: more := by
    rw [← listed]
    have grown := Draft.closed_initial (Draft.ofItems front) (Item.place (width (Item.texts front)) back)
    rw [← Draft.ofItems_append, ← parts] at grown
    exact grown.trans (List.prefix_append ..)
  have same : (Draft.ofItems front).closed = closed := by
    rw [List.prefix_iff_eq_take.1 initial, length, List.take_left]
  exact ⟨front, back, parts, ⟨current, named, same ▸ none⟩, same.trans before.symm⟩

/-- What stands behind items that lead to it adds to the outline that they make. -/
theorem outline_leads {items : List Item} {rest : List Char} (leads : Item.Leads items rest) :
    (ofChars (Item.texts items ++ rest)).outline (Item.texts items ++ rest) =
      ((Token.ofChars rest).foldl DraftOutline.step (.ofItems items)).finish := by
  rw [outline_ofChars, Token.ofChars, Item.read_leads leads, List.map_append, List.foldl_append]
  rfl

/-- The header of the first table of a name. -/
theorem exists_header (found : (ofChars text).table? name = some table) :
    ∃ front gap blanks word rest, text = Item.texts (front ++ [⟨gap, .table blanks word⟩]) ++ rest ∧
      Item.Leads (front ++ [⟨gap, .table blanks word⟩]) rest ∧ word ≠ [] ∧ name = String.ofList word ∧
      table.nameSpan = Span.over (Item.texts front ++ (gap ++ (Keyword.table.word.toList ++ blanks))) word ∧
      (Draft.ofItems front).tables = (ofChars text).tables.takeWhile (·.name ≠ name) := by
  obtain ⟨front, back, read, reaches, before⟩ := exists_reaches found
  obtain ⟨front, gap, blanks, word, more, rfl, nonempty, -, named, stands, closed⟩ := Draft.exists_header reaches.current
  rw [List.append_assoc] at read
  obtain ⟨rest, parts, leads, -⟩ := Item.exists_leads_concat read rfl
  exact ⟨front, gap, blanks, word, rest, parts, leads, nonempty, reaches.named.symm.trans named, stands,
    closed.symm.trans before⟩

/-- The token of a field of the first table of a name. -/
theorem exists_field {i : Nat} {field : Field} (found : (ofChars text).table? name = some table)
    (listed : table.fields[i]? = some field) :
    ∃ front gap word definition rest old, text = Item.texts (front ++ [⟨gap, .field word definition⟩]) ++ rest ∧
      Item.Leads (front ++ [⟨gap, .field word definition⟩]) rest ∧ (Draft.ofItems front).Reaches name old ∧
      (Draft.ofItems front).inTotals = false ∧ old.fields = table.fields.take i ∧
      field = Draft.declare (Draft.ofItems front).pending name (width (Item.texts front ++ gap)) word definition := by
  obtain ⟨front, back, read, reaches, before⟩ := exists_reaches found
  obtain ⟨front, gap, word, definition, more, old, rfl, opened, plain, closed, named, stands, fields, declared⟩ :=
    Draft.exists_field reaches.current listed
  rw [List.append_assoc] at read
  obtain ⟨rest, parts, leads, -⟩ := Item.exists_leads_concat read rfl
  have named : old.name = name := named.symm.trans reaches.named
  exact ⟨front, gap, word, definition, rest, old, parts, leads, ⟨opened, named, closed ▸ reaches.first⟩, plain, fields,
    named ▸ declared⟩

/-- The token of the first field of a name in the first table of a name. -/
theorem exists_field? {field : String} {found : Field} (declared : (ofChars text).field? name field = some found) :
    ∃ front gap word definition rest old, text = Item.texts (front ++ [⟨gap, .field word definition⟩]) ++ rest ∧
      Item.Leads (front ++ [⟨gap, .field word definition⟩]) rest ∧ (Draft.ofItems front).Reaches name old ∧
      (Draft.ofItems front).inTotals = false ∧ (∀ earlier ∈ old.fields, earlier.key.field ≠ field) ∧
      field = String.ofList word ∧
      found = Draft.declare (Draft.ofItems front).pending name (width (Item.texts front ++ gap)) word definition := by
  obtain ⟨table, opened, listed⟩ := Option.bind_eq_some_iff.1 declared
  obtain ⟨named, fields, more, parts, none⟩ := List.find?_eq_some_iff_append.1 listed
  have last : table.fields[fields.length]? = some found := by simp [parts]
  obtain ⟨front, gap, word, definition, rest, old, same, leads, reaches, plain, earlier, token⟩ :=
    exists_field opened last
  refine ⟨front, gap, word, definition, rest, old, same, leads, reaches, plain, ?_, ?_, token⟩
  · rw [earlier, parts, List.take_left]
    simpa using none
  · rw [token] at named
    exact (of_decide_eq_true named).symm

end Sheet
end Gridbook
