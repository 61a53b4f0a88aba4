import Gridbook.Proofs.Fronts
import Gridbook.Proofs.Overlaps
import Mathlib.Data.List.Induction

/-!
Where the parts of a sheet were declared. Every table of a sheet was the open one when its last item was taken in, it was
opened by a header, and each of its fields was put behind the others by a token that stands in the text. What waited for
that token stands between it and the declaration before it.
-/
namespace Gridbook

open Text

def Span.over (before part : List Char) : Span := ⟨width before, width before + width part⟩

theorem Span.replace_over (before part after new : List Char) :
    (Span.over before part).replace new (before ++ (part ++ after)) = before ++ (new ++ after) := by
  simp [Span.replace, Span.parts, Span.over, cut_width_append]

theorem Span.slice_over (before part after : List Char) :
    (Span.over before part).slice (before ++ (part ++ after)) = part := by
  simp [Span.slice, Span.parts, Span.over, cut_width_append]

/-- What can be seen of a table when a declaration is looked up. -/
def Table.declared (table : Table) : String × Span × List Field := (table.name, table.nameSpan, table.fields)

namespace Token

def isTable : Token → Bool
  | table .. => true
  | _ => false

def declares : Token → Bool
  | table .. | field .. => true
  | _ => false

end Token

namespace Draft

/-- What a token can do to the tables of a draft. -/
inductive Tabulates (draft next : Draft) : Placed → Prop where
  | opens {start : Nat} {blanks name : List Char} {table : Table} (nonempty : name ≠ [])
      (closed : next.closed = draft.tables) (current : next.current = some table) (named : table.name = String.ofList name)
      (stands : table.nameSpan.start = start + width (Keyword.table.word.toList ++ blanks))
      (ends : table.nameSpan.stop = table.nameSpan.start + width name) (empty : table.fields = []) :
      Tabulates draft next ⟨start, .table blanks name⟩
  | closes {start : Nat} {blanks : List Char} (closed : next.closed = draft.tables) (current : next.current = none) :
      Tabulates draft next ⟨start, .table blanks []⟩
  | declares {start : Nat} {name : List Char} {definition : Option Definition} {old new : Table}
      (closed : next.closed = draft.closed) (before : draft.current = some old) (after : next.current = some new)
      (plain : draft.inTotals = false) (named : new.name = old.name) (stands : new.nameSpan = old.nameSpan)
      (fields : new.fields = old.fields ++ [declare draft.pending old.name start name definition]) :
      Tabulates draft next ⟨start, .field name definition⟩
  | keeps {placed : Placed} (other : placed.token.isTable = false) (closed : next.closed = draft.closed)
      (same : next.current.map Table.declared = draft.current.map Table.declared) : Tabulates draft next placed

theorem step_tabulates (draft : Draft) (placed : Placed) : Tabulates draft (draft.step placed) placed := by
  obtain ⟨start, token⟩ := placed
  cases token with
  | table blanks name =>
    by_cases empty : name = []
    · subst empty
      exact .closes rfl rfl
    · have step : draft.step ⟨start, .table blanks name⟩ = draft.openTable start blanks name := rfl
      rw [step, openTable, if_neg (by simpa using empty)]
      exact .opens empty rfl rfl rfl (by simp [Nat.add_assoc]) rfl rfl
  | field name definition =>
    cases current : draft.current with
    | none => exact .keeps rfl (by simp [step, addField, current, report]) (by simp [step, addField, current, report])
    | some table =>
      by_cases totals : draft.inTotals = true
      · refine .keeps rfl ?_ ?_ <;> simp [step, addField, current, totals, Table.declared]
      · have after : (draft.step ⟨start, .field name definition⟩).current =
            (draft.addField start name definition).current := rfl
        simp only [addField, current, if_neg totals] at after
        exact .declares (by simp [step, addField, current]) current after (by simpa using totals) rfl rfl rfl
  | block kind body =>
    refine .keeps rfl ?_ ?_
    · cases current : draft.current <;> simp [step, addBlock, current, report]
    · cases current : draft.current with
      | none => simp [step, addBlock, current, report]
      | some table => cases kind <;> simp [step, addBlock, current, Table.declared]
  | total =>
    refine .keeps rfl rfl ?_
    cases current : draft.current <;> simp [step, openTotals, current, Table.declared]
  | _ => exact .keeps rfl rfl rfl

/-- Other tokens than headers leave the open table its header. -/
theorem Tabulates.exists_old {draft next : Draft} {placed : Placed} {new : Table} (moves : Tabulates draft next placed)
    (other : placed.token.isTable = false) (current : next.current = some new) :
    next.closed = draft.closed ∧ ∃ old, draft.current = some old ∧ new.name = old.name ∧ new.nameSpan = old.nameSpan := by
  cases moves with
  | opens => simp [Token.isTable] at other
  | closes => simp [Token.isTable] at other
  | declares closed before after _ named stands =>
    obtain rfl := Option.some.inj (after.symm.trans current)
    exact ⟨closed, _, before, named, stands⟩
  | keeps _ closed same =>
    rw [current, Option.map_some, eq_comm, Option.map_eq_some_iff] at same
    obtain ⟨old, before, same⟩ := same
    simp only [Table.declared, Prod.mk.injEq] at same
    exact ⟨closed, old, before, same.1.symm, same.2.1.symm⟩

def ofItems (items : List Item) : Draft := (Item.place 0 items).foldl step {}

variable {items : List Item} {table : Table}

theorem ofItems_append (front back : List Item) :
    ofItems (front ++ back) = (Item.place (width (Item.texts front)) back).foldl step (ofItems front) := by
  rw [ofItems, Item.place_append, List.foldl_append, Nat.zero_add]
  rfl

theorem ofItems_concat (items : List Item) (item : Item) :
    ofItems (items ++ [item]) = (ofItems items).step ⟨width (Item.texts items ++ item.gap), item.token⟩ := by
  simp [ofItems_append, Item.place]

theorem tabulates_concat (items : List Item) (item : Item) :
    Tabulates (ofItems items) (ofItems (items ++ [item])) ⟨width (Item.texts items ++ item.gap), item.token⟩ := by
  rw [ofItems_concat]
  exact step_tabulates _ _

theorem tables_of_current {draft : Draft} (current : draft.current = some table) :
    draft.tables = draft.closed ++ [table] := by
  simp [tables, current]

/-- A table is closed or it is the open one. -/
theorem getElem?_tables {draft : Draft} {i : Nat} (found : draft.tables[i]? = some table) :
    draft.closed[i]? = some table ∨ draft.current = some table ∧ draft.closed.length = i := by
  rw [tables, List.getElem?_append] at found
  split at found
  · exact .inl found
  · cases current : draft.current with
    | none => simp [current] at found
    | some last =>
      rw [current, Option.toList_some, List.getElem?_singleton] at found
      split at found
      · exact .inr ⟨found, by omega⟩
      · simp at found

/-- Every table was the open one at some time, and was not touched after that. -/
theorem exists_open {i : Nat} (found : (ofItems items).tables[i]? = some table) :
    ∃ front back, items = front ++ back ∧ (ofItems front).current = some table ∧ (ofItems front).closed.length = i := by
  induction items using List.reverseRecOn with
  | nil => simp [ofItems, Item.place, tables] at found
  | append_singleton items item ih =>
    rcases getElem?_tables found with inClosed | ⟨current, length⟩
    · have listed : (ofItems items).tables[i]? = some table := by
        have kept (closed : (ofItems (items ++ [item])).closed = (ofItems items).closed) :
            (ofItems items).tables[i]? = some table := by
          rw [closed] at inClosed
          exact (List.getElem?_append_left (List.getElem?_eq_some_iff.1 inClosed).1).trans inClosed
        obtain ⟨gap, token⟩ := item
        cases tabulates_concat items ⟨gap, token⟩ with
        | opens _ closed => rwa [closed] at inClosed
        | closes closed => rwa [closed] at inClosed
        | declares closed => exact kept closed
        | keeps _ closed => exact kept closed
      obtain ⟨front, back, rfl, current, length⟩ := ih listed
      exact ⟨front, back ++ [item], by simp, current, length⟩
    · exact ⟨items ++ [item], [], by simp, current, length⟩

/-- The open table was opened by a header behind which no other stands. -/
theorem exists_header (current : (ofItems items).current = some table) :
    ∃ front gap blanks name back, items = front ++ ⟨gap, .table blanks name⟩ :: back ∧ name ≠ [] ∧
      (∀ item ∈ back, item.token.isTable = false) ∧ table.name = String.ofList name ∧
      table.nameSpan = Span.over (Item.texts front ++ (gap ++ (Keyword.table.word.toList ++ blanks))) name ∧
      (ofItems items).closed = (ofItems front).tables := by
  induction items using List.reverseRecOn generalizing table with
  | nil => simp [ofItems, Item.place] at current
  | append_singleton items item ih =>
    have moves := tabulates_concat items item
    by_cases header : item.token.isTable = true
    · obtain ⟨gap, token⟩ := item
      cases moves with
      | @opens _ blanks name opened nonempty closed after named stands ends =>
        obtain rfl := Option.some.inj (after.symm.trans current)
        refine ⟨items, gap, blanks, name, [], rfl, nonempty, by simp, named, ?_, closed⟩
        rw [Span.over, ← List.append_assoc, width_append, ← stands, ← ends]
      | closes _ after => simp [after] at current
      | declares => simp [Token.isTable] at header
      | keeps other => exact absurd header (by simpa using other)
    · have other : item.token.isTable = false := by simpa using header
      obtain ⟨closed, old, before, named, stands⟩ := moves.exists_old other current
      obtain ⟨front, gap, blanks, name, back, rfl, nonempty, plain, named', stands', closed'⟩ := ih before
      refine ⟨front, gap, blanks, name, back ++ [item], by simp, nonempty, ?_, named.trans named', stands.trans stands',
        closed.trans closed'⟩
      exact List.forall_mem_append.2 ⟨plain, List.forall_mem_singleton.2 other⟩

/-- A token declares the last field of the open table, or leaves it the fields that it has. -/
theorem Tabulates.field_cases {draft next : Draft} {placed : Placed} {new : Table} {i : Nat} {field : Field}
    (moves : Tabulates draft next placed) (current : next.current = some new) (found : new.fields[i]? = some field) :
    next.closed = draft.closed ∧ ∃ old, draft.current = some old ∧ new.name = old.name ∧ new.nameSpan = old.nameSpan ∧
      new.fields.take i = old.fields.take i ∧
      (old.fields[i]? = some field ∨ old.fields.length = i ∧ draft.inTotals = false ∧
        ∃ name definition, placed.token = .field name definition ∧
          field = declare draft.pending old.name placed.start name definition) := by
  cases moves with
  | opens _ _ after _ _ _ empty =>
    obtain rfl := Option.some.inj (after.symm.trans current)
    simp [empty] at found
  | closes _ after => simp [after] at current
  | @declares _ name definition old _ closed before after plain named stands fields =>
    obtain rfl := Option.some.inj (after.symm.trans current)
    have bound := (List.getElem?_eq_some_iff.1 found).1
    rw [fields, List.length_append, List.length_singleton] at bound
    refine ⟨closed, old, before, named, stands, ?_, ?_⟩
    · rw [fields, List.take_append_of_le_length (by omega)]
    · rw [fields, List.getElem?_append] at found
      split at found
      · exact .inl found
      · have last : i - old.fields.length = 0 := by omega
        rw [last] at found
        exact .inr ⟨by omega, plain, name, definition, rfl, (Option.some.inj found).symm⟩
  | keeps _ closed same =>
    rw [current, Option.map_some, eq_comm, Option.map_eq_some_iff] at same
    obtain ⟨old, before, same⟩ := same
    simp only [Table.declared, Prod.mk.injEq] at same
    rw [← same.2.2] at found ⊢
    exact ⟨closed, old, before, same.1.symm, same.2.1.symm, rfl, .inl found⟩

/-- Every field of the open table was declared by a token, behind the fields before it. -/
theorem exists_field {i : Nat} {field : Field} (current : (ofItems items).current = some table)
    (found : table.fields[i]? = some field) :
    ∃ front gap name definition back old, items = front ++ ⟨gap, .field name definition⟩ :: back ∧
      (ofItems front).current = some old ∧ (ofItems front).inTotals = false ∧
      (ofItems items).closed = (ofItems front).closed ∧ table.name = old.name ∧ table.nameSpan = old.nameSpan ∧
      old.fields = table.fields.take i ∧
      field = declare (ofItems front).pending old.name (width (Item.texts front ++ gap)) name definition := by
  induction items using List.reverseRecOn generalizing table with
  | nil => simp [ofItems, Item.place] at current
  | append_singleton items item ih =>
    obtain ⟨closed, old, before, named, stands, same, earlier | ⟨length, plain, name, definition, token, declared⟩⟩ :=
      (tabulates_concat items item).field_cases current found
    · obtain ⟨front, gap, name, definition, back, first, rfl, opened, plain, closed', named', stands', fields, declared⟩ :=
        ih before earlier
      exact ⟨front, gap, name, definition, back ++ [item], first, by simp, opened, plain, closed.trans closed',
        named.trans named', stands.trans stands', fields.trans same.symm, declared⟩
    · refine ⟨items, item.gap, name, definition, [], old, ?_, before, plain, closed, named, stands, ?_, declared⟩
      · rw [← token]
      · rw [same, ← length, List.take_length]

/-- What is closed stays as it is. -/
theorem closed_initial (draft : Draft) (tokens : List Placed) : draft.closed <+: (tokens.foldl step draft).closed := by
  induction tokens generalizing draft with
  | nil => exact List.prefix_refl _
  | cons placed tokens ih =>
    refine List.IsPrefix.trans ?_ (ih (draft.step placed))
    have grown : draft.closed <+: draft.tables := List.prefix_append ..
    cases step_tabulates draft placed with
    | opens _ closed => rwa [closed]
    | closes closed => rwa [closed]
    | declares closed => rw [closed]
    | keeps _ closed => rw [closed]

/-- The open table stays where it is, with its header, and can only get more fields. -/
theorem exists_of_current {draft : Draft} (current : draft.current = some table) (tokens : List Placed) :
    ∃ later more, (tokens.foldl step draft).tables = draft.closed ++ later :: more ∧ later.name = table.name ∧
      later.nameSpan = table.nameSpan ∧ table.fields <+: later.fields := by
  induction tokens generalizing draft table with
  | nil => exact ⟨table, [], tables_of_current current, rfl, rfl, List.prefix_refl _⟩
  | cons placed tokens ih =>
    have shut (closed : (draft.step placed).closed = draft.tables) :
        ∃ later more, ((placed :: tokens).foldl step draft).tables = draft.closed ++ later :: more ∧
          later.name = table.name ∧ later.nameSpan = table.nameSpan ∧ table.fields <+: later.fields := by
      obtain ⟨more, same⟩ := closed_initial (draft.step placed) tokens
      refine ⟨table, more ++ (tokens.foldl step (draft.step placed)).current.toList, ?_, rfl, rfl, List.prefix_refl _⟩
      rw [List.foldl_cons, tables, ← same, closed, tables_of_current current]
      simp
    have grown {new : Table} (after : (draft.step placed).current = some new)
        (closed : (draft.step placed).closed = draft.closed) (named : new.name = table.name)
        (stands : new.nameSpan = table.nameSpan) (fields : table.fields <+: new.fields) :
        ∃ later more, ((placed :: tokens).foldl step draft).tables = draft.closed ++ later :: more ∧
          later.name = table.name ∧ later.nameSpan = table.nameSpan ∧ table.fields <+: later.fields := by
      obtain ⟨later, more, listed, named', stands', fields'⟩ := ih after
      exact ⟨later, more, closed ▸ listed, named'.trans named, stands'.trans stands, fields.trans fields'⟩
    cases step_tabulates draft placed with
    | opens _ closed => exact shut closed
    | closes closed => exact shut closed
    | declares closed before after _ named stands fields =>
      obtain rfl := Option.some.inj (before.symm.trans current)
      exact grown after closed named stands (fields ▸ List.prefix_append ..)
    | keeps _ closed same =>
      rw [current, Option.map_some, Option.map_eq_some_iff] at same
      obtain ⟨new, after, same⟩ := same
      simp only [Table.declared, Prod.mk.injEq] at same
      exact grown after closed same.1 same.2.1 (same.2.2 ▸ List.prefix_refl _)

/-- What a token does to what waits. -/
theorem step_pending (draft : Draft) (placed : Placed) :
    placed.token.declares = true ∧ (draft.step placed).pending = {} ∨
      placed.token.declares = false ∧ (placed.token.waits = false ∧ (draft.step placed).pending = draft.pending ∨
        placed.token.waits = true ∧
          (draft.step placed).pending.start = some (draft.pending.start.getD placed.start)) := by
  obtain ⟨start, token⟩ := placed
  cases token with
  | table blanks name =>
    refine .inl ⟨rfl, ?_⟩
    simp only [step, openTable]
    split <;> rfl
  | field name definition =>
    refine .inl ⟨rfl, ?_⟩
    simp only [step, addField]
    split <;> rfl
  | block kind body =>
    refine .inr ⟨rfl, .inl ⟨rfl, ?_⟩⟩
    simp only [step, addBlock]
    split <;> rfl
  | decorator name args => exact .inr ⟨rfl, .inr ⟨rfl, rfl⟩⟩
  | key => exact .inr ⟨rfl, .inr ⟨rfl, rfl⟩⟩
  | dim => exact .inr ⟨rfl, .inr ⟨rfl, rfl⟩⟩
  | _ => exact .inr ⟨rfl, .inl ⟨rfl, rfl⟩⟩

/-- What waits came behind the last declaration, and the first of it fixes where the next declaration starts. -/
theorem exists_waiting (items : List Item) :
    ∃ front back, items = front ++ back ∧ (ofItems front).pending = {} ∧ (∀ item ∈ back, item.token.declares = false) ∧
      (back ≠ [] → (ofItems items).pending.start.isSome = true) ∧ (∀ item ∈ back.head?, item.token.waits = true) ∧
      ∀ gap, (ofItems items).pending.start.getD (width (Item.texts items ++ gap)) =
        width (Item.texts front ++ (back.head?.map (·.gap)).getD gap) := by
  induction items using List.reverseRecOn with
  | nil => exact ⟨[], [], rfl, rfl, by simp, by simp, by simp, fun gap => rfl⟩
  | append_singleton items item ih =>
    obtain ⟨front, back, parts, settled, plain, waiting, head, start⟩ := ih
    have longer (other : item.token.declares = false) : ∀ x ∈ back ++ [item], x.token.declares = false :=
      List.forall_mem_append.2 ⟨plain, List.forall_mem_singleton.2 other⟩
    have step := step_pending (ofItems items) ⟨width (Item.texts items ++ item.gap), item.token⟩
    rw [← ofItems_concat] at step
    rcases step with ⟨-, none⟩ | ⟨other, ⟨-, same⟩ | ⟨waits, first⟩⟩
    · refine ⟨items ++ [item], [], by simp, none, by simp, by simp, by simp, fun gap => ?_⟩
      simp [none]
    · cases back with
      | nil =>
        rw [List.append_nil] at parts
        refine ⟨items ++ [item], [], by simp, ?_, by simp, by simp, by simp, fun gap => ?_⟩
        · rw [same, parts, settled]
        · rw [same, parts, settled]
          rfl
      | cons second back =>
        obtain ⟨s, waits⟩ := Option.isSome_iff_exists.1 (waiting (by simp))
        refine ⟨front, second :: back ++ [item], by simp [parts], settled, longer other, fun _ => by rw [same, waits]; rfl,
          head, fun gap => ?_⟩
        have fixed := start gap
        rw [waits] at fixed
        rw [same, waits]
        exact fixed
    · refine ⟨front, back ++ [item], by simp [parts], settled, longer other, fun _ => by rw [first]; rfl, ?_, fun gap => ?_⟩
      · cases back with
        | nil => simpa using waits
        | cons second back => exact head
      · rw [first, Option.getD_some, start item.gap]
        cases back <;> rfl

/-- Nothing but a header ends the totals. -/
theorem inTotals_of_step {draft : Draft} {placed : Placed} (other : placed.token.isTable = false)
    (plain : (draft.step placed).inTotals = false) : draft.inTotals = false ∧ placed.token ≠ .total := by
  obtain ⟨start, token⟩ := placed
  cases token with
  | table blanks name => simp [Token.isTable] at other
  | field name definition =>
    refine ⟨?_, by simp⟩
    simp only [step, addField] at plain
    split at plain <;> exact plain
  | block kind body =>
    refine ⟨?_, by simp⟩
    simp only [step, addBlock] at plain
    split at plain <;> exact plain
  | total => simp [step, openTotals] at plain
  | _ => exact ⟨plain, by simp⟩

theorem ne_total_of_inTotals {front back : List Item} (plain : (ofItems (front ++ back)).inTotals = false)
    (headers : ∀ item ∈ back, item.token.isTable = false) :
    (ofItems front).inTotals = false ∧ ∀ item ∈ back, item.token ≠ .total := by
  induction back using List.reverseRecOn with
  | nil => exact ⟨by simpa using plain, by simp⟩
  | append_singleton back item ih =>
    rw [← List.append_assoc, ofItems_concat] at plain
    obtain ⟨plain, other⟩ := inTotals_of_step (headers item (by simp)) plain
    obtain ⟨first, others⟩ := ih plain fun item member => headers item (by simp [member])
    exact ⟨first, List.forall_mem_append.2 ⟨others, List.forall_mem_singleton.2 other⟩⟩

end Draft
end Gridbook
