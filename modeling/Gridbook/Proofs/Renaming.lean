import Gridbook.Proofs.Lookups

/-!
A table with another name. The header with the new name is read where the old one was read, so the sheet says the same of
a table with that name; and its name is found again where it was put, so the old name can be put back.
-/
namespace Gridbook

open Text

variable {front : List Item} {gap blanks word new rest : List Char}

/-- The header can get another name where it stands. -/
theorem Item.Leads.rename (leads : Leads (front ++ [⟨gap, .table blanks word⟩]) rest) (nonempty : word ≠ [])
    (legal : Token.IsBare new ∨ Token.IsQuoted new) (apart : Stops (!Token.isWordEnd ·) rest) :
    Leads (front ++ [⟨gap, .table blanks new⟩]) rest := by
  obtain ⟨-, -, wellFormed, -⟩ := leads_append.1 leads
  obtain ⟨part, opens, starts⟩ := wellFormed.exists_text_table nonempty
  obtain ⟨inline, missing | ⟨parted, -⟩⟩ := wellFormed
  · exact absurd missing nonempty
  · exact leads.exchange opens (starts word).choose_spec (starts new).choose_spec
      ⟨inline, .inr ⟨parted, legal⟩⟩ ⟨Token.stops_nameTakes legal apart, trivial⟩

namespace Sheet

/-- Two texts that differ in the name of one header. -/
theorem outline_rename (leads : Item.Leads (front ++ [⟨gap, .table blanks word⟩]) rest)
    (leads' : Item.Leads (front ++ [⟨gap, .table blanks new⟩]) rest) (nonempty : word ≠ []) (nonempty' : new ≠ [])
    (first : ∀ earlier ∈ (Draft.ofItems front).tables, earlier.name ≠ String.ofList word) :
    let text := Item.texts (front ++ [⟨gap, .table blanks word⟩]) ++ rest
    let renamed := Item.texts (front ++ [⟨gap, .table blanks new⟩]) ++ rest
    (ofChars renamed).outline renamed = ((ofChars text).outline text).changeTable (String.ofList word)
      fun table => { table with name := String.ofList new } := by
  intro text renamed
  let draft := DraftOutline.ofItems front
  have earlier : ∀ table ∈ draft.tables, table.name ≠ String.ofList word := by
    simpa [draft, Draft.tables_ofItems, Table.outline] using first
  have differ : TableOutline.Renamed (String.ofList word) (String.ofList new)
      ⟨String.ofList word, draft.pending.decorators, [], [], none, none⟩
      ⟨String.ofList new, draft.pending.decorators, [], [], none, none⟩ := ⟨rfl, rfl⟩
  rw [outline_leads leads, outline_leads leads', DraftOutline.ofItems_concat, DraftOutline.ofItems_concat,
    DraftOutline.step_table nonempty, DraftOutline.step_table nonempty']
  exact DraftOutline.finish_changed (TableOutline.lasting_renamed _ _) (fun _ _ renamed => renamed)
    { draft with closed := draft.tables, inTotals := false, pending := {} } earlier (Token.ofChars rest) differ

end Sheet

/-- The table that a header has opened. -/
theorem Draft.exists_opened (front : List Item) (gap blanks : List Char) (nonempty : word ≠ []) :
    ∃ table, (ofItems (front ++ [⟨gap, .table blanks word⟩])).current = some table ∧
      (ofItems (front ++ [⟨gap, .table blanks word⟩])).closed = (ofItems front).tables ∧
      table.name = String.ofList word ∧
      table.nameSpan = Span.over (Item.texts front ++ (gap ++ (Keyword.table.word.toList ++ blanks))) word := by
  cases tabulates_concat front ⟨gap, .table blanks word⟩ with
  | @opens _ _ _ table _ closed current named stands ends =>
    refine ⟨table, current, closed, named, ?_⟩
    rw [Span.over, ← List.append_assoc, width_append, ← stands, ← ends]
  | closes => exact absurd rfl nonempty
  | keeps other => simp [Token.isTable] at other

namespace Sheet

theorem renameTable_eq {text table name : String} {found : Table} {before word rest : List Char}
    (declared : (read text).table? table = some found) (stands : found.nameSpan = Span.over before word)
    (parts : text.toList = before ++ (word ++ rest)) :
    renameTable text table name = some (String.ofList (before ++ (name.toList ++ rest))) := by
  simp [renameTable, declared, stands, parts, Span.replace_over]

/-- Renaming a table changes its name, and that in the keys of its fields, and nothing else that the sheet says. If no
table before it has the new name, renaming it back gives the text as it was. -/
theorem renameTable_exact (text table name : String) {found : Table}
    (declared : (read text).table? table = some found)
    (apart : Stops (!Token.isWordEnd ·) (Cursor.ofOffset found.nameSpan.stop text.toList).after)
    (legal : Token.IsBare name.toList ∨ Token.IsQuoted name.toList) :
    ∃ out, renameTable text table name = some out ∧ (read text).Keyed ∧ (read out).Keyed ∧
      (read out).outline out.toList =
        ((read text).outline text.toList).changeTable table ({ · with name := name }) ∧
      ((∀ earlier ∈ (read text).tables.takeWhile (·.name ≠ table), earlier.name ≠ name) →
        renameTable out name table = some text) := by
  obtain ⟨front, gap, blanks, word, rest, parts, leads, nonempty, rfl, stands, before⟩ := exists_header declared
  let start := Item.texts front ++ (gap ++ (Keyword.table.word.toList ++ blanks))
  have spell (name : List Char) :
      Item.texts (front ++ [⟨gap, .table blanks name⟩]) ++ rest = start ++ (name ++ rest) := by
    simp [start, Token.text]
  have apart : Stops (!Token.isWordEnd ·) rest := by
    rwa [parts, spell, stands, Cursor.ofOffset_over] at apart
  have nonempty' : name.toList ≠ [] := by
    rcases legal with bare | ⟨body, -, quoted⟩
    · exact bare.nonempty
    · simp [quoted]
  have leads' := leads.rename nonempty legal apart
  have first : ∀ earlier ∈ (Draft.ofItems front).tables, earlier.name ≠ String.ofList word := by
    intro earlier member
    rw [before] at member
    simpa using List.mem_takeWhile_imp member
  have same := outline_rename leads leads' nonempty nonempty' first
  refine ⟨String.ofList (start ++ (name.toList ++ rest)), renameTable_eq declared stands (parts.trans (spell word)),
    keyed_read _, keyed_read _, ?_, fun other => ?_⟩
  · rw [read, read, String.toList_ofList, parts, ← spell]
    simpa using same
  · obtain ⟨opened, current, closed, named, stands'⟩ :=
      Draft.exists_opened front gap blanks nonempty'
    have reaches : (Draft.ofItems (front ++ [⟨gap, .table blanks name.toList⟩])).Reaches name opened :=
      ⟨current, by simpa using named, by rw [closed, before]; exact other⟩
    obtain ⟨found', declared', same', -⟩ := reaches.exists_table? leads'
    rw [spell] at declared'
    have declared' : (read (String.ofList (start ++ (name.toList ++ rest)))).table? name = some found' := by
      rwa [read, String.toList_ofList]
    rw [renameTable_eq declared' (same'.trans stands') String.toList_ofList, String.toList_ofList, ← spell, ← parts,
      String.ofList_toList]

/-- A quoted name right before a decorator mark is replaced by a bare one that a later table has. -/
theorem renameTable_exact_quoted :
    let text := "table 'é''b'!\n[x] = 1\ntotal\n[y]\ntable n"
    ∃ found out, (read text).table? "'é''b'" = some found ∧
      Stops (!Token.isWordEnd ·) (Cursor.ofOffset found.nameSpan.stop text.toList).after ∧
      renameTable text "'é''b'" "n" = some out ∧
      (read out).outline out.toList =
        ((read text).outline text.toList).changeTable "'é''b'" ({ · with name := "n" }) ∧
      (∀ earlier ∈ (read text).tables.takeWhile (·.name ≠ "'é''b'"), earlier.name ≠ "n") ∧
      renameTable out "n" "'é''b'" = some text := by
  intro text
  obtain ⟨found, declared, stop⟩ : ∃ found, (read text).table? "'é''b'" = some found ∧ found.nameSpan.stop = 13 :=
    Option.map_eq_some_iff.1 (by decide +kernel)
  have behind : (Cursor.ofOffset 13 text.toList).after = "!\n[x] = 1\ntotal\n[y]\ntable n".toList := by decide +kernel
  have apart : Stops (!Token.isWordEnd ·) (Cursor.ofOffset found.nameSpan.stop text.toList).after := by
    rw [stop, behind]
    simp [Token.isWordEnd]
  have bare : Token.IsBare "n".toList := ⟨by simp, by simp; decide, by simp⟩
  have earlier : ∀ earlier ∈ (read text).tables.takeWhile (·.name ≠ "'é''b'"), earlier.name ≠ "n" := by decide +kernel
  obtain ⟨out, renamed, -, -, same, back⟩ := renameTable_exact text "'é''b'" "n" declared apart (.inl bare)
  exact ⟨found, out, declared, apart, renamed, same, earlier, back earlier⟩

end Sheet
end Gridbook
