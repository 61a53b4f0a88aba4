import Gridbook.Proofs.BlockCuts
import Gridbook.Proofs.Removal

/-!
Blocks before a field that is taken out. A block ends before a line that ends it. That line can be the one on which the
field starts, and without the field the block goes on if the next line does not end it; and a block among what waits for
the field is taken out with it. Apart from that the blocks stay as they are, and so does everything else but the field.
-/
namespace Gridbook

open Text

/-- A range that can be taken out of a text without a change to a block: no block stands in it, and if a block ends on the
line before it, the line that comes up ends the block too. -/
structure Span.Detached (span : Span) (text : List Char) : Prop where
  clear : ∀ placed ∈ Placed.ofChars text, placed.token.isBlock = true → span.covers placed.start = false
  ends : ∀ placed ∈ Placed.ofChars text, placed.token.isBlock = true → placed.stop ≤ span.start →
    IsBreak ((⟨placed.stop, span.start⟩ : Span).slice text) →
      Token.endsBlock (nextLine (Cursor.ofOffset span.stop text).after) = true

instance (span : Span) (text : List Char) : Decidable (span.Detached text) :=
  decidable_of_iff (_ ∧ _) ⟨fun both => ⟨both.1, both.2⟩, fun detached => ⟨detached.clear, detached.ends⟩⟩

namespace Item

theorem exists_mem_place {items : List Item} {item : Item} (member : item ∈ items) (offset : Nat) :
    ∃ placed ∈ place offset items, placed.token = item.token := by
  obtain ⟨front, back, rfl⟩ := List.append_of_mem member
  rw [place_append]
  exact ⟨_, List.mem_append_right _ List.mem_cons_self, rfl⟩

theorem exists_last_block {items : List Item} (block : ∃ item ∈ items, item.token.isBlock = true) :
    ∃ front gap kind body back, items = front ++ ⟨gap, .block kind body⟩ :: back ∧
      ∀ item ∈ back, item.token.isBlock = false := by
  induction items using List.reverseRecOn with
  | nil => simp at block
  | append_singleton items last ih =>
    by_cases own : last.token.isBlock = true
    · obtain ⟨gap, token⟩ := last
      cases token with
      | block kind body => exact ⟨items, gap, kind, body, [], rfl, by simp⟩
      | _ => simp [Token.isBlock] at own
    · have earlier : ∃ item ∈ items, item.token.isBlock = true := by simpa [own] using block
      obtain ⟨front, gap, kind, body, back, rfl, plain⟩ := ih earlier
      exact ⟨front, gap, kind, body, back ++ [last], by simp,
        List.forall_mem_append.2 ⟨plain, List.forall_mem_singleton.2 (by simpa using own)⟩⟩

end Item

namespace Sheet.Spot

variable {table field : String} {target : Field} (spot : Spot table field target)

theorem placed_text : Placed.ofChars spot.text = Item.place 0 spot.done ++
    (Item.place (width (Item.texts spot.done)) spot.waiting ++
      (⟨width (Item.texts (spot.done ++ spot.waiting) ++ spot.gap), .field spot.word spot.definition⟩ ::
        Item.place (width (Item.texts (spot.done ++ spot.waiting ++ [⟨spot.gap, .field spot.word spot.definition⟩])))
          (Item.read spot.rest))) := by
  rw [Placed.ofChars, text, Item.read_leads spot.leads]
  simp [Item.place_append, Item.place, Nat.add_assoc]

include spot in
theorem start_lt_stop : target.span.start < target.span.stop := by
  obtain ⟨range⟩ := spot.exists_range
  obtain ⟨c, more, same, -⟩ := range.starts.exists_cons
  have positive := c.utf8Size_pos
  simp only [range.span, Span.over, same, width_cons]
  omega

/-- Where a block of the text stands. -/
theorem mem_cases {placed : Placed} (member : placed ∈ Placed.ofChars spot.text) (block : placed.token.isBlock = true) :
    placed ∈ Item.place 0 spot.done ∨ placed ∈ Item.place (width (Item.texts spot.done)) spot.waiting ∨
      target.nameSpan.start ≤ placed.start ∧ target.span.stop ≤ placed.start := by
  rw [spot.placed_text, List.mem_append, List.mem_append, List.mem_cons] at member
  refine member.imp_right (Or.imp_right fun late => ?_)
  rcases late with rfl | late
  · simp [Token.isBlock] at block
  · have bound := (Item.place_increasing _ _).1 placed late
    have stop := spot.stop_le
    refine ⟨?_, stop.trans bound⟩
    refine Nat.le_trans ?_ bound
    rw [spot.nameStart]
    simp

theorem clear_iff : (∀ placed ∈ Placed.ofChars spot.text, placed.token.isBlock = true →
    target.span.covers placed.start = false) ↔ ∀ item ∈ spot.waiting, item.token.isBlock = false := by
  constructor
  · intro clear item member
    by_contra block
    obtain ⟨placed, listed, same⟩ := Item.exists_mem_place member (width (Item.texts spot.done))
    have outside := clear placed (by rw [spot.placed_text]; simp [listed]) (by simpa [same] using block)
    simp [spot.covers_waiting listed] at outside
  · intro plain placed member block
    rw [← Bool.not_eq_true, Span.covers_iff]
    rcases spot.mem_cases member block with early | within | late
    · have bound := Item.lt_of_mem_place [] (fun item listed => (spot.leads.wellFormed item (by simp [listed])).1) early
      have start := spot.le_start
      rw [List.nil_append] at bound
      omega
    · obtain ⟨item, listed, same⟩ := Item.exists_mem_of_mem_place within
      simp [← same, plain item listed] at block
    · omega

theorem blocks_text : Item.blocks (Item.read spot.text) =
    Item.blocks spot.done ++ (Item.blocks spot.waiting ++ Item.blocks (Item.read spot.after)) := by
  obtain ⟨wellFormed, ends⟩ := spot.wellFormed
  obtain ⟨items, gap, parts, ascii, idle, leads⟩ := ends.exists_behind wellFormed
  have own : Item.blocks [⟨spot.gap, .field spot.word spot.definition⟩] = [] := rfl
  rw [text, Item.blocks_read_leads spot.leads, Item.blocks_append, Item.blocks_append, own, after, parts,
    List.append_assoc (Item.texts items), Item.blocks_read_idle idle ascii leads]
  simp

/-- A block of the table before the name of the field stands behind the header of the table. -/
theorem exists_block {found : Table}
    (stands : found.nameSpan = .over (Item.texts spot.front ++ (spot.blank ++ (Keyword.table.word.toList ++ spot.blanks)))
      spot.name)
    (behind : ∃ placed ∈ Placed.ofChars spot.text, placed.token.isBlock = true ∧ found.nameSpan.stop ≤ placed.start ∧
      placed.start < target.nameSpan.start) :
    ∃ item ∈ spot.more ++ spot.waiting, item.token.isBlock = true := by
  obtain ⟨placed, member, block, header, name⟩ := behind
  rcases spot.mem_cases member block with early | within | late
  · rw [spot.opened, Item.place_append, List.mem_append, Item.place, List.mem_cons] at early
    rcases early with early | rfl | early
    · have wellFormed : ∀ item ∈ spot.front, item.token.WellFormed :=
        fun item listed => (spot.leads.wellFormed item (by simp [spot.opened, listed])).1
      have bound := Item.lt_of_mem_place [] wellFormed early
      simp only [stands, Span.over, List.nil_append, width_append] at bound header
      omega
    · simp [Token.isBlock] at block
    · obtain ⟨item, listed, same⟩ := Item.exists_mem_of_mem_place early
      exact ⟨item, List.mem_append_left _ listed, same ▸ block⟩
  · obtain ⟨item, listed, same⟩ := Item.exists_mem_of_mem_place within
    exact ⟨item, List.mem_append_right _ listed, same ▸ block⟩
  · omega

/-- What stands before the field's range lets nothing wait and opens no totals. -/
theorem calm {front items : List Item} (same : spot.done = front ++ items) (within : items ⊆ spot.more) :
    ∀ item ∈ items.getLast?, item.token.waits = false ∧ item.token ≠ .total := by
  intro last member
  obtain ⟨init, rfl⟩ := List.getLast?_eq_some_iff.1 member
  refine ⟨?_, spot.totals last (List.mem_append_left _ (within (by simp)))⟩
  have settled := spot.settled
  rw [same, ← List.append_assoc, Draft.ofItems_concat] at settled
  obtain ⟨declares, -⟩ | ⟨-, ⟨calm, -⟩ | ⟨-, waiting⟩⟩ := Draft.step_pending (Draft.ofItems (front ++ init))
    ⟨width (Item.texts (front ++ init) ++ last.gap), last.token⟩
  · cases token : last.token with
    | field | table => rfl
    | _ => simp [token, Token.declares] at declares
  · exact calm
  · rw [settled] at waiting
    simp at waiting

structure BlockBefore where
  front : List Item
  gap : List Char
  kind : BlockKind
  body : List Char
  items : List Item
  parts : spot.done = front ++ ⟨gap, .block kind body⟩ :: items
  plain : ∀ item ∈ items, item.token.isBlock = false
  within : items ⊆ spot.more

theorem exists_blockBefore (block : ∃ item ∈ spot.more, item.token.isBlock = true) : Nonempty spot.BlockBefore := by
  obtain ⟨front, gap, kind, body, back, same, plain⟩ := Item.exists_last_block block
  exact ⟨⟨spot.front ++ ⟨spot.blank, .table spot.blanks spot.name⟩ :: front, gap, kind, body, back,
    by simp [spot.opened, same], plain, by simp [same]⟩⟩

namespace BlockBefore

variable {spot} (block : spot.BlockBefore) (range : spot.Range)

def between : List Char := Item.texts block.items ++ range.lead

theorem wellFormed : (Token.block block.kind block.body).WellFormed ∧ ∀ c ∈ block.gap, isAsciiBlank c = true :=
  spot.leads.wellFormed ⟨block.gap, .block block.kind block.body⟩ (by simp [block.parts])

theorem slice_before {before after : List Char} (parts : Item.texts spot.done ++ range.lead = before ++ after) :
    (⟨width before, target.span.start⟩ : Span).slice spot.text = after := by
  have span : (⟨width before, target.span.start⟩ : Span) = .over before after := by
    rw [range.span, Span.over, parts, width_append]
    rfl
  rw [span, range.text_eq, parts, List.append_assoc, Span.slice_over]

/-- Only the last block before the range can end right before it. -/
theorem eq_of_isBreak {placed : Placed} (member : placed ∈ Item.place 0 spot.done) (isBlock : placed.token.isBlock = true)
    (short : IsBreak ((⟨placed.stop, target.span.start⟩ : Span).slice spot.text)) :
    placed = ⟨width (Item.texts block.front) + width block.gap, .block block.kind block.body⟩ := by
  rw [block.parts, Item.place_append, List.mem_append, Item.place, List.mem_cons, Nat.zero_add] at member
  rcases member with early | same | late
  · -- The last block would stand between, and its keyword is no blank.
    obtain ⟨range⟩ := spot.exists_range
    obtain ⟨before, after, parts, start⟩ := Item.at_of_mem_place [] [] early
    rw [List.nil_append, List.append_nil] at parts
    have stop : placed.stop = width (before ++ placed.token.text) := by simp [Placed.stop, start]
    have whole : Item.texts spot.done ++ range.lead = (before ++ placed.token.text) ++
        (after ++ (block.gap ++ ((Token.block block.kind block.body).text ++ block.between range))) := by
      simp [block.parts, parts, between]
    obtain ⟨c, member, shown⟩ := Token.exists_shown block.kind block.body
    rw [stop, slice_before range whole] at short
    simp [List.all_eq_true.1 short.1 c (by simp [member])] at shown
  · exact same
  · obtain ⟨item, listed, same⟩ := Item.exists_mem_of_mem_place late
    simp [← same, block.plain item listed] at isBlock

theorem detached_iff : target.span.Detached spot.text ↔ (∀ item ∈ spot.waiting, item.token.isBlock = false) ∧
    (IsBreak (block.between range) → Token.endsBlock (nextLine spot.after) = true) := by
  let placed : Placed := ⟨width (Item.texts block.front) + width block.gap, .block block.kind block.body⟩
  have parts : Item.texts spot.done ++ range.lead =
      (Item.texts block.front ++ block.gap ++ (Token.block block.kind block.body).text) ++ block.between range := by
    simp [block.parts, between]
  have stop : placed.stop = width (Item.texts block.front ++ block.gap ++ (Token.block block.kind block.body).text) := by
    simp [placed, Placed.stop, Nat.add_assoc]
  have slice : (⟨placed.stop, target.span.start⟩ : Span).slice spot.text = block.between range :=
    stop ▸ slice_before range parts
  constructor
  · intro detached
    refine ⟨spot.clear_iff.1 detached.clear, fun short => ?_⟩
    have member : placed ∈ Placed.ofChars spot.text := by
      rw [spot.placed_text, block.parts, Item.place_append]
      simp [Item.place, placed]
    have bound : placed.stop ≤ target.span.start := by
      rw [stop, range.span, Span.over, parts]
      simp
    have ends := detached.ends placed member rfl bound (slice.symm ▸ short)
    rwa [spot.after_ofOffset] at ends
  · rintro ⟨plain, ends⟩
    refine ⟨spot.clear_iff.2 plain, fun other member isBlock bound short => ?_⟩
    rw [spot.after_ofOffset]
    rcases spot.mem_cases member isBlock with early | within | late
    · obtain rfl := block.eq_of_isBreak early isBlock short
      exact ends (slice ▸ short)
    · obtain ⟨item, listed, same⟩ := Item.exists_mem_of_mem_place within
      simp [← same, plain item listed] at isBlock
    · have first : other.start ≤ other.stop := Nat.le_add_right _ _
      have nonempty := spot.start_lt_stop
      omega

theorem exists_cut (apart : Stops (!isBlank ·) spot.after) :
    ∃ cut : Item.Cut block.items spot.after,
      removeSpan target.span spot.text =
        Item.texts block.front ++ (block.gap ++ ((Token.block block.kind block.body).text ++ cut.text)) ∧
      Item.Leads block.front (block.gap ++ ((Token.block block.kind block.body).text ++ cut.text)) ∧
      Stops (!Token.isWordEnd ·) cut.text ∧
      ((Token.block block.kind block.body).EndsBefore cut.text ↔
        (IsBreak (block.between range) → Token.endsBlock (nextLine spot.after) = true)) := by
  obtain ⟨wellFormed, ends⟩ := spot.wellFormed
  have leads := range.leads
  rw [block.parts] at leads
  have last : spot.done = (block.front ++ [⟨block.gap, .block block.kind block.body⟩]) ++ block.items := by
    simp [block.parts]
  rw [range.span, range.text_eq, block.parts]
  exact exists_cut_block leads range.ascii
    (fun item member => ⟨block.plain item member, spot.headers item (block.within member)⟩) range.starts apart
    (spot.calm last block.within) (ends.unset wellFormed)

include block in
/-- The blocks stay as they are if and only if the range is detached from them. -/
theorem blocks_removed_iff (apart : Stops (!isBlank ·) spot.after) :
    Item.blocks (Item.read (removeSpan target.span spot.text)) = Item.blocks (Item.read spot.text) ↔
      target.span.Detached spot.text := by
  obtain ⟨range⟩ := spot.exists_range
  obtain ⟨wellFormed, ascii⟩ := block.wellFormed
  obtain ⟨cut, removed, leads, apart', ends⟩ := block.exists_cut range apart
  have none : Item.blocks block.items = [] := Item.blocks_eq_nil_iff.2 block.plain
  have whole : Item.blocks (Item.read spot.text) = Item.blocks block.front ++
      .block block.kind block.body :: (Item.blocks spot.waiting ++ Item.blocks (Item.read spot.after)) := by
    have own : Item.blocks (⟨block.gap, .block block.kind block.body⟩ :: block.items) =
        .block block.kind block.body :: Item.blocks block.items := rfl
    rw [spot.blocks_text, block.parts, Item.blocks_append, own, none]
    simp
  have kept (ends : (Token.block block.kind block.body).EndsBefore cut.text) :
      Item.blocks (Item.read (removeSpan target.span spot.text)) =
        Item.blocks block.front ++ .block block.kind block.body :: Item.blocks (Item.read spot.after) := by
    rw [removed, Item.blocks_read_leads leads, Item.read_token ascii wellFormed ends, ← cut.blocks_text]
    rfl
  rw [block.detached_iff range, ← ends, whole]
  constructor
  · intro same
    have stays := Item.endsBefore_of_blocks leads ascii wellFormed apart' (removed ▸ same)
    rw [kept stays] at same
    have short := (List.cons.inj (List.append_cancel_left same)).2
    exact ⟨Item.blocks_eq_nil_iff.1 (List.self_eq_append_left.1 short), stays⟩
  · rintro ⟨plain, stays⟩
    rw [kept stays, Item.blocks_eq_nil_iff.2 plain, List.nil_append]

include block in
theorem outline_removed (apart : Stops (!isBlank ·) spot.after) (detached : target.span.Detached spot.text) :
    let out := removeSpan target.span spot.text
    (ofChars out).outline out = ((Token.ofChars spot.after).foldl DraftOutline.step (.ofItems spot.done)).finish := by
  obtain ⟨range⟩ := spot.exists_range
  obtain ⟨wellFormed, ascii⟩ := block.wellFormed
  obtain ⟨cut, removed, leads, -, ends⟩ := block.exists_cut range apart
  have stays := ends.2 ((block.detached_iff range).1 detached).2
  have leads' : Item.Leads (block.front ++ [⟨block.gap, .block block.kind block.body⟩]) cut.text :=
    Item.leads_append.2 ⟨by simpa using leads, ascii, wellFormed, by simpa using stays, trivial⟩
  intro out
  have same : out = Item.texts (block.front ++ [⟨block.gap, .block block.kind block.body⟩]) ++ cut.text := by
    simpa using removed
  rw [same, outline_cut leads', block.parts]
  simp

end BlockBefore

/-- Without a block between the header and the field's range, what waits for the field is all that goes. -/
theorem blocks_removed (plain : ∀ item ∈ spot.more, item.token.isBlock = false) (apart : Stops (!isBlank ·) spot.after) :
    Item.blocks (Item.read (removeSpan target.span spot.text)) =
      Item.blocks spot.front ++ Item.blocks (Item.read spot.after) := by
  obtain ⟨range⟩ := spot.exists_range
  obtain ⟨wellFormed, ends⟩ := spot.wellFormed
  have leads := range.leads
  rw [spot.opened] at leads
  obtain ⟨-, blank, header, -⟩ := Item.leads_append.1 leads
  have last : spot.done = (spot.front ++ [⟨spot.blank, .table spot.blanks spot.name⟩]) ++ spot.more := by simp [spot.opened]
  obtain ⟨cut, removed, left⟩ := exists_cut_header leads spot.nonempty range.ascii
    (fun item member => ⟨plain item member, spot.headers item member⟩) range.starts
    (.inr ⟨apart, spot.calm last (List.Subset.refl _)⟩) (ends.unset wellFormed)
  rw [range.span, range.text_eq, spot.opened, removed]
  -- The header ends as before, or it takes up a word of blanks.
  obtain ⟨moved⟩ : Nonempty ((Token.table spot.blanks spot.name).Moved cut.text) := by
    rcases left with same | ends'
    · rw [same]
      exact header.moved rfl rfl (fun _ same => spot.nonempty (Token.table.inj same).2) (.inr ⟨apart, rfl, by simp⟩)
        (ends.unset wellFormed)
    · exact ⟨.same header rfl ends'⟩
  obtain ⟨part, opens, starts⟩ := header.exists_text_table spot.nonempty
  obtain ⟨inner, starts⟩ := starts spot.name
  obtain ⟨taken, longer⟩ := moved.longer
  have first : Item.Leads (spot.front ++ [⟨spot.blank, .table spot.blanks spot.name⟩])
      (Item.texts spot.more ++ (range.lead ++ (range.part ++ spot.after))) :=
    (Item.leads_append.1 (last ▸ range.leads)).1
  have leads' : Item.Leads (spot.front ++ [⟨spot.blank, moved.token'⟩]) moved.rest :=
    first.exchange opens starts (by rw [longer, starts, List.append_assoc]) moved.wellFormed moved.ends
  have spell : Item.texts (spot.front ++ [⟨spot.blank, .table spot.blanks spot.name⟩]) ++ cut.text =
      Item.texts (spot.front ++ [⟨spot.blank, moved.token'⟩]) ++ moved.rest := by
    simp [moved.parts]
  have own : Item.blocks [⟨spot.blank, moved.token'⟩] = [] :=
    Item.blocks_eq_nil_iff.2 (List.forall_mem_singleton.2 moved.plain)
  have words : Item.blocks (Item.read cut.text) = Item.blocks (Item.read moved.rest) := by
    have none : Item.blocks moved.words = [] :=
      Item.blocks_eq_nil_iff.2 fun item member => Token.isBlock_of_isIdle (moved.idle item member)
    conv => lhs; rw [moved.behind, Item.blocks_read_leads moved.leads, none, List.nil_append]
  rw [spell, Item.blocks_read_leads leads', Item.blocks_append, own, List.append_nil, ← words, cut.blocks_text]

theorem blocks_removed_iff (blocked : ∃ item ∈ spot.more ++ spot.waiting, item.token.isBlock = true)
    (apart : Stops (!isBlank ·) spot.after) :
    Item.blocks (Item.read (removeSpan target.span spot.text)) = Item.blocks (Item.read spot.text) ↔
      target.span.Detached spot.text := by
  by_cases before : ∃ item ∈ spot.more, item.token.isBlock = true
  · obtain ⟨block⟩ := spot.exists_blockBefore before
    exact block.blocks_removed_iff apart
  · have plain : ∀ item ∈ spot.more, item.token.isBlock = false := by simpa using before
    have waiting : ¬∀ item ∈ spot.waiting, item.token.isBlock = false := by
      intro none
      obtain ⟨item, member, block⟩ := blocked
      rcases List.mem_append.1 member with member | member
      · simp [plain item member] at block
      · simp [none item member] at block
    refine iff_of_false (fun same => waiting ?_) fun detached => waiting (spot.clear_iff.1 detached.clear)
    have done : Item.blocks spot.done = Item.blocks spot.front := by
      have more : Item.blocks (⟨spot.blank, .table spot.blanks spot.name⟩ :: spot.more) = Item.blocks spot.more := rfl
      rw [spot.opened, Item.blocks_append, more, Item.blocks_eq_nil_iff.2 plain, List.append_nil]
    rw [spot.blocks_removed plain apart, spot.blocks_text, done] at same
    exact Item.blocks_eq_nil_iff.1 (List.self_eq_append_left.1 (List.append_cancel_left same))

/-- A detached range takes out the field and nothing else that the sheet says, up to the marks without a name in it. -/
theorem outline_detached (blocked : ∃ item ∈ spot.more ++ spot.waiting, item.token.isBlock = true)
    (apart : Stops (!isBlank ·) spot.after) (detached : target.span.Detached spot.text) :
    let out := removeSpan target.span spot.text
    (∀ d ∈ (ofChars spot.text).diagnostics, target.span.covers d.offset = true → d.problem = .emptyDecoratorName) ∧
      (ofChars out).outline out =
        { ((ofChars spot.text).outline spot.text).changeTable table (·.eraseField field) with
          problems := ((ofChars spot.text).diagnostics.filter (!target.span.covers ·.offset)).map (·.problem) } := by
  have plain := spot.clear_iff.1 detached.clear
  have before : ∃ item ∈ spot.more, item.token.isBlock = true := by
    obtain ⟨item, member, block⟩ := blocked
    rcases List.mem_append.1 member with member | member
    · exact ⟨item, member, block⟩
    · simp [plain item member] at block
  obtain ⟨block⟩ := spot.exists_blockBefore before
  exact spot.outline_without plain (block.outline_removed apart detached)

end Sheet.Spot

namespace Sheet

/-- Taking out a field behind a block of its table leaves the blocks of the text as they are if and only if the range of
the field is detached from them, and then nothing but the declaration is lost, up to the marks without a name that stand
among what waits for the field. -/
theorem removeField_detached (text table field : String) {found : Table} {target : Field}
    (declared : (read text).table? table = some found) (listed : found.field? field = some target)
    (behind : ∃ placed ∈ Placed.ofChars text.toList, placed.token.isBlock = true ∧
      found.nameSpan.stop ≤ placed.start ∧ placed.start < target.nameSpan.start)
    (apart : Stops (!isBlank ·) (Cursor.ofOffset target.span.stop text.toList).after) :
    ∃ out, removeField text table field = some out ∧ (read text).Keyed ∧ (read out).Keyed ∧
      (Item.blocks (Item.read out.toList) = Item.blocks (Item.read text.toList) ↔ target.span.Detached text.toList) ∧
      (target.span.Detached text.toList →
        (∀ d ∈ (read text).diagnostics, target.span.covers d.offset = true → d.problem = .emptyDecoratorName) ∧
          (read out).outline out.toList =
            { ((read text).outline text.toList).changeTable table (·.eraseField field) with
              problems := ((read text).diagnostics.filter (!target.span.covers ·.offset)).map (·.problem) }) := by
  have located : (read text).field? table field = some target := by simp [field?, declared, listed]
  obtain ⟨spot, parts, stands⟩ := exists_spot declared listed
  rw [parts] at behind apart
  rw [spot.after_ofOffset] at apart
  have blocked := spot.exists_block stands behind
  refine ⟨String.ofList (removeSpan target.span text.toList), by simp [removeField, located], keyed_read _,
    keyed_read _, ?_⟩
  rw [read, read, String.toList_ofList, parts]
  exact ⟨spot.blocks_removed_iff blocked apart, spot.outline_detached blocked apart⟩

/-- The field stands right behind a block, with a mark among what waits for it and a wide blank behind it. The next line
ends the block as well; a later block holds a field of the same name. -/
theorem removeField_detached_ended :
    let text := "!\ntable t\napply\nx\n!d ! key [f]\u3000\n!e [g] = 'é'\noverride\n[f]\n"
    let out := "!\ntable t\napply\nx\n!e [g] = 'é'\noverride\n[f]\n"
    ∃ found target, (read text).table? "t" = some found ∧ found.field? "f" = some target ∧
      (∃ placed ∈ Placed.ofChars text.toList, placed.token.isBlock = true ∧
        found.nameSpan.stop ≤ placed.start ∧ placed.start < target.nameSpan.start) ∧
      Stops (!isBlank ·) (Cursor.ofOffset target.span.stop text.toList).after ∧
      target.span.Detached text.toList ∧ removeField text "t" "f" = some out ∧
      Item.blocks (Item.read out.toList) = Item.blocks (Item.read text.toList) ∧
      (read out).outline out.toList =
        { ((read text).outline text.toList).changeTable "t" (·.eraseField "f") with problems := [.emptyDecoratorName] } := by
  intro text out
  obtain ⟨found, declared, inner⟩ := Option.bind_eq_some_iff.1 (by decide +kernel :
    ((read text).table? "t").bind (fun found => (found.field? "f").map fun target =>
      (found.nameSpan.stop, target.nameSpan.start, target.span)) = some (9, 27, ⟨18, 30⟩))
  obtain ⟨target, listed, same⟩ := Option.map_eq_some_iff.1 inner
  simp only [Prod.mk.injEq] at same
  obtain ⟨stop, start, span⟩ := same
  have behind : ∃ placed ∈ Placed.ofChars text.toList, placed.token.isBlock = true ∧
      found.nameSpan.stop ≤ placed.start ∧ placed.start < target.nameSpan.start := by
    rw [stop, start]
    decide +kernel
  have apart : Stops (!isBlank ·) (Cursor.ofOffset target.span.stop text.toList).after := by
    have next : (Cursor.ofOffset 30 text.toList).after = '\u3000' :: "\n!e [g] = 'é'\noverride\n[f]\n".toList := by
      decide +kernel
    rw [span, next, stops_cons]
    decide
  have detached : target.span.Detached text.toList := by
    rw [span]
    decide +kernel
  have left : ((read text).diagnostics.filter (!target.span.covers ·.offset)).map (·.problem) = [.emptyDecoratorName] := by
    rw [span]
    decide +kernel
  have done : removeField text "t" "f" = some out := by decide +kernel
  obtain ⟨out', done', -, -, kept, outline⟩ := removeField_detached text "t" "f" declared listed behind apart
  obtain rfl := Option.some.inj (done.symm.trans done')
  exact ⟨found, target, declared, listed, behind, apart, detached, done, kept.2 detached, left ▸ (outline detached).2⟩

/-- A block goes on with the field behind the one that is taken out, if what waited for that one ended the block. -/
theorem removeField_extends_block :
    let text := "table t\noverride\n1\n!d\n[f]\n[g] = 2\n"
    let out := "table t\noverride\n1\n[g] = 2\n"
    ∃ found target, (read text).table? "t" = some found ∧ found.field? "f" = some target ∧
      (∃ placed ∈ Placed.ofChars text.toList, placed.token.isBlock = true ∧
        found.nameSpan.stop ≤ placed.start ∧ placed.start < target.nameSpan.start) ∧
      Stops (!isBlank ·) (Cursor.ofOffset target.span.stop text.toList).after ∧
      removeField text "t" "f" = some out ∧
      Item.blocks (Item.read text.toList) = [.block .override "\n1".toList] ∧
      Item.blocks (Item.read out.toList) = [.block .override "\n1\n[g] = 2".toList] ∧
      ((read text).field? "t" "g").isSome = true ∧ (read out).field? "t" "g" = none := by
  intro text out
  obtain ⟨found, declared, inner⟩ := Option.bind_eq_some_iff.1 (by decide +kernel :
    ((read text).table? "t").bind (fun found => (found.field? "f").map fun target =>
      (found.nameSpan.stop, target.nameSpan.start, target.span)) = some (7, 22, ⟨19, 25⟩))
  obtain ⟨target, listed, same⟩ := Option.map_eq_some_iff.1 inner
  simp only [Prod.mk.injEq] at same
  obtain ⟨stop, start, span⟩ := same
  refine ⟨found, target, declared, listed, ?_, ?_, by decide +kernel, by decide +kernel, by decide +kernel,
    by decide +kernel, by decide +kernel⟩
  · rw [stop, start]
    decide +kernel
  · have next : (Cursor.ofOffset 25 text.toList).after = '\n' :: "[g] = 2\n".toList := by decide +kernel
    rw [span, next, stops_cons]
    decide

end Sheet

end Gridbook
