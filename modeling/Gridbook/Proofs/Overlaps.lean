import Gridbook.Proofs.Spans

/-!
Ranges that lie apart, and those that do not. A decorator or modifier fixes where its declaration starts and then
waits, while blocks and the keyword of the totals go to the table that is open. So a declaration can start before a
part of the table in front of it; that is the only way in which ranges overlap.
-/
namespace Gridbook

open Text

namespace Token

def waits : Token → Bool
  | decorator .. | key | dim => true
  | _ => false

/-- Goes to the open table and lets wait what waits. -/
def isSection : Token → Bool
  | block .. | total => true
  | _ => false

end Token

instance (first second : Span) : Decidable (first.Before second) :=
  inferInstanceAs (Decidable (first.stop ≤ second.start))

def Placed.span (placed : Placed) : Span := ⟨placed.start, placed.stop⟩

/-- The range stands between what a declaration starts with, a decorator or modifier that waits for it, and the
declaration's name. -/
def Span.Interposed (text : List Char) (inner declared name : Span) : Prop :=
  ∃ first ∈ Placed.ofChars text,
    first.token.waits = true ∧ first.start = declared.start ∧ first.span.Before inner ∧ inner.Before name

def Table.blocks (table : Table) : List Span :=
  table.overrideSpan.toList ++ table.applySpan.toList

/-- The second table starts behind the first, unless the first ends with a block or the keyword of its totals, and the
second starts with what waits before that. -/
def Table.Parted (text : List Char) (first second : Table) : Prop :=
  first.span.Before second.span ∨
    ∃ last ∈ Placed.ofChars text,
      last.token.isSection = true ∧ first.span.stop = last.stop ∧
        last.span.Interposed text second.span second.nameSpan

/-- A field lies apart from a block, unless it starts with what waits before the block. -/
def Field.Parted (text : List Char) (field : Field) (block : Span) : Prop :=
  field.span.Before block ∨ block.Before field.span ∨ block.Interposed text field.span field.nameSpan

structure Sheet.Apart (text : List Char) (sheet : Sheet) : Prop where
  tables : sheet.tables.Pairwise (Table.Parted text)
  blocks : ∀ t ∈ sheet.tables, ∀ f ∈ t.fields ++ t.totals, ∀ block ∈ t.blocks, f.Parted text block

/-- The range ends before what is declared next, or it stands behind what waits for that. -/
def Pending.Clears (text : List Char) (offset : Nat) (pending : Pending) (inner : Span) : Prop :=
  inner.stop ≤ pending.start.getD offset ∨
    ∃ first ∈ Placed.ofChars text,
      first.token.waits = true ∧ pending.start = some first.start ∧ first.span.Before inner ∧ inner.stop ≤ offset

structure Draft.Apart (text : List Char) (offset : Nat) (draft : Draft) : Prop where
  waiting : ∀ s ∈ draft.pending.start, ∃ first ∈ Placed.ofChars text,
    first.token.waits = true ∧ first.start = s ∧ first.stop ≤ offset
  closed : ∀ t ∈ draft.closed, t.span.stop ≤ draft.pending.start.getD offset
  last : ∀ t ∈ draft.current, t.span.stop ≤ draft.pending.start.getD offset ∨
    ∃ last ∈ Placed.ofChars text,
      last.token.isSection = true ∧ t.span.stop = last.stop ∧ draft.pending.Clears text offset last.span
  open' : ∀ t ∈ draft.current, ∀ block ∈ t.blocks, draft.pending.Clears text offset block
  sheet : draft.finish.Apart text

section
variable {text : List Char} {offset start stop : Nat} {draft : Draft} {pending : Pending} {inner : Span}

theorem Pending.Clears.mono (clears : pending.Clears text offset inner) (later : offset ≤ stop) :
    pending.Clears text stop inner := by
  rcases clears with before | ⟨first, member, waits, same, behind, reached⟩
  · exact .inl (before.trans (pending.getD_mono later))
  · exact .inr ⟨first, member, waits, same, behind, reached.trans later⟩

theorem Pending.Clears.reached (clears : pending.Clears text offset inner) (waits : pending.Located text offset) :
    inner.stop ≤ offset := by
  rcases clears with before | ⟨-, -, -, -, -, reached⟩
  · exact before.trans (waits.getD_le (Nat.le_refl _))
  · exact reached

theorem Pending.clears_empty (reached : inner.stop ≤ offset) : ({} : Pending).Clears text offset inner :=
  .inl reached

/-- What is cleared stays so when another decorator or modifier comes to wait. -/
theorem Pending.Clears.mark (clears : pending.Clears text offset inner) (later : offset ≤ start) (further : start ≤ stop)
    : (pending.mark start).Clears text stop inner := by
  rcases clears with before | ⟨first, member, waits, same, behind, reached⟩
  · exact .inl (before.trans (pending.getD_mono later))
  · refine .inr ⟨first, member, waits, ?_, behind, (reached.trans later).trans further⟩
    simp [Pending.mark, same]

/-- A declaration with what waits for it starts behind a cleared range, or the range is interposed. -/
theorem Pending.Clears.declared {declared name : Span} (clears : pending.Clears text offset inner)
    (later : offset ≤ start) (begins : declared.start = pending.start.getD start) (named : start ≤ name.start) :
    inner.Before declared ∨ inner.Interposed text declared name := by
  rcases clears with before | ⟨first, member, waits, same, behind, reached⟩
  · refine .inl ?_
    rw [Span.Before, begins]
    exact before.trans (pending.getD_mono later)
  · refine .inr ⟨first, member, waits, ?_, behind, (reached.trans later).trans named⟩
    rw [begins, same, Option.getD_some]

/-- A range behind the offset is cleared: nothing waits, or it stands behind what does. -/
theorem Draft.Apart.clears_behind (apart : draft.Apart text offset) (behind : offset ≤ inner.start) (ends : inner.stop ≤ stop) :
    draft.pending.Clears text stop inner := by
  cases first : draft.pending.start with
  | none =>
    refine .inl ?_
    simpa [first] using ends
  | some s =>
    obtain ⟨placed, member, waits, rfl, reached⟩ := apart.waiting s first
    exact .inr ⟨placed, member, waits, first, reached.trans behind, ends⟩

theorem Draft.Apart.mono (apart : draft.Apart text offset) (later : offset ≤ stop) : draft.Apart text stop := by
  have next := draft.pending.getD_mono later
  refine ⟨?_, ?_, ?_, ?_, apart.sheet⟩
  · intro s member
    obtain ⟨first, found, waits, same, reached⟩ := apart.waiting s member
    exact ⟨first, found, waits, same, reached.trans later⟩
  · exact fun t member => (apart.closed t member).trans next
  · intro t member
    rcases apart.last t member with before | ⟨last, found, ends, same, clears⟩
    · exact .inl (before.trans next)
    · exact .inr ⟨last, found, ends, same, clears.mono later⟩
  · exact fun t member block inside => (apart.open' t member block inside).mono later

theorem Draft.Apart.report (apart : draft.Apart text offset) (problem : Problem) :
    (draft.report start problem).Apart text offset :=
  ⟨apart.waiting, apart.closed, apart.last, apart.open', ⟨apart.sheet.tables, apart.sheet.blocks⟩⟩

/-- How two tables lie to each other depends on the second only by its start and its header. -/
theorem Table.Parted.of_start {first old new : Table} (parted : first.Parted text old)
    (begins : new.span.start = old.span.start) (header : new.nameSpan = old.nameSpan) : first.Parted text new := by
  rcases parted with before | ⟨last, member, ends, same, placed, found, waits, starts, behind, ahead⟩
  · exact .inl (before.trans begins.ge)
  · exact .inr ⟨last, member, ends, same, placed, found, waits, starts.trans begins.symm, behind, header ▸ ahead⟩

/-- The open table may grow at its end. -/
theorem Sheet.Apart.withCurrent {old new : Table} {inTotals : Bool} (apart : draft.finish.Apart text)
    (current : draft.current = some old) (begins : new.span.start = old.span.start)
    (header : new.nameSpan = old.nameSpan)
    (blocks : ∀ f ∈ new.fields ++ new.totals, ∀ block ∈ new.blocks, f.Parted text block) :
    { draft with current := some new, inTotals, pending }.finish.Apart text := by
  obtain ⟨tables, parted⟩ := apart
  simp only [Draft.finish, Draft.tables, current, Option.toList_some, List.mem_append, List.mem_singleton] at tables parted
  constructor
  · simp only [Draft.finish, Draft.tables, Option.toList_some]
    obtain ⟨closed, -, before⟩ := List.pairwise_append.1 tables
    refine List.pairwise_append.2 ⟨closed, by simp, ?_⟩
    intro t member last same
    obtain rfl := List.mem_singleton.1 same
    exact (before t member old (by simp)).of_start begins header
  · intro t member
    simp only [Draft.finish, Draft.tables, Option.toList_some, List.mem_append, List.mem_singleton] at member
    rcases member with member | rfl
    · exact fun f inside => parted t (.inl member) f (List.mem_append.1 inside)
    · exact blocks

theorem Draft.mark_apart {isKey isDim : Bool} {decorators : List Decorator} {placed : Placed}
    (apart : draft.Apart text offset) (member : placed ∈ Placed.ofChars text) (waits : placed.token.waits = true)
    (later : offset ≤ placed.start) :
    { draft with pending := { start := (draft.pending.mark placed.start).start, decorators, isKey, isDim } }.Apart text
      placed.stop := by
  have further : placed.start ≤ placed.stop := Nat.le_add_right _ _
  have next : draft.pending.start.getD offset ≤ draft.pending.start.getD placed.start := draft.pending.getD_mono later
  have clears {inner : Span} (before : draft.pending.Clears text offset inner) :
      ({ start := (draft.pending.mark placed.start).start, decorators, isKey, isDim } : Pending).Clears text placed.stop
        inner := before.mark later further
  refine ⟨?_, ?_, ?_, ?_, apart.sheet⟩
  · intro s same
    obtain rfl := Option.some.inj same
    cases first : draft.pending.start with
    | none => exact ⟨placed, member, waits, rfl, Nat.le_refl _⟩
    | some s =>
      obtain ⟨waiting, found, waits, starts, reached⟩ := apart.waiting s first
      exact ⟨waiting, found, waits, starts, (reached.trans later).trans further⟩
  · exact fun t closed => (apart.closed t closed).trans next
  · intro t open'
    rcases apart.last t open' with before | ⟨last, found, ends, same, before⟩
    · exact .inl (before.trans next)
    · exact .inr ⟨last, found, ends, same, clears before⟩
  · exact fun t open' block inside => clears (apart.open' t open' block inside)

/-- Every table so far lies apart from one that is opened with what waits for it. -/
theorem Draft.Apart.parted {t new : Table} (apart : draft.Apart text offset) (member : t ∈ draft.tables)
    (later : offset ≤ start) (begins : new.span.start = draft.pending.start.getD start)
    (named : start ≤ new.nameSpan.start) : t.Parted text new := by
  have next : draft.pending.start.getD offset ≤ new.span.start := by
    rw [begins]
    exact draft.pending.getD_mono later
  rcases List.mem_append.1 member with closed | open'
  · exact .inl ((apart.closed t closed).trans next)
  · rcases apart.last t (by simpa using open') with before | ⟨last, found, ends, same, clears⟩
    · exact .inl (before.trans next)
    · rcases clears.declared later begins named with before | interposed
      · exact .inl (same.le.trans before)
      · exact .inr ⟨last, found, ends, same, interposed⟩

theorem Draft.openTable_apart {gap name : List Char} (valid : draft.Invariant text offset)
    (apart : draft.Apart text offset) (later : offset ≤ start) :
    (draft.openTable start gap name).Apart text (start + width (Token.table gap name).text) := by
  have ends : ∀ t ∈ draft.tables, t.span.stop ≤ start := by
    intro t member
    rcases List.mem_append.1 member with closed | open'
    · exact ((apart.closed t closed).trans (valid.pending.getD_le (Nat.le_refl _))).trans later
    · exact (valid.reached t (by simpa using open')).trans later
  have further : start ≤ start + width (Token.table gap name).text := Nat.le_add_right _ _
  have closed : { draft with closed := draft.tables, current := none, inTotals := false, pending := {} }.Apart text
      (start + width (Token.table gap name).text) := by
    refine ⟨by simp, fun t member => (ends t member).trans further, by simp, by simp, ?_⟩
    simpa [finish, tables] using apart.sheet
  unfold openTable
  split
  · exact closed.report _
  · obtain ⟨parted, blocks⟩ := apart.sheet
    refine ⟨closed.waiting, closed.closed, ?_, by simp [Table.blocks], ?_, ?_⟩
    · simp [Token.text, Nat.add_assoc]
    · refine List.pairwise_append.2 ⟨parted, by simp, ?_⟩
      intro t member new same
      obtain rfl := List.mem_singleton.1 same
      exact apart.parted member later rfl (by simp [Nat.add_assoc])
    · intro t member
      rcases List.mem_append.1 member with old | new
      · exact blocks t old
      · obtain rfl := List.mem_singleton.1 new
        simp

theorem Draft.addField_apart {name : List Char} {definition : Option Definition}
    (valid : draft.Invariant text offset) (apart : draft.Apart text offset) (later : offset ≤ start)
    (wellFormed : (Token.field name definition).WellFormed)
    (stands : At text start (Token.field name definition).text) :
    (draft.addField start name definition).Apart text (start + width (Token.field name definition).text) := by
  have further := later.trans (Nat.le_add_right start (width (Token.field name definition).text))
  have closed : ∀ t ∈ draft.closed, t.span.stop ≤ start + width (Token.field name definition).text :=
    fun t member => ((apart.closed t member).trans (valid.pending.getD_le (Nat.le_refl _))).trans further
  unfold addField
  split
  · next none =>
    refine Apart.report ⟨by simp, closed, by simp [none], by simp [none], ?_⟩ _
    exact apart.sheet
  · next table current =>
    obtain ⟨-, -, ends⟩ := declare_located table.name valid.pending later wellFormed stands
    have fields : ∀ f ∈ table.fields ++ table.totals ++ [declare draft.pending table.name start name definition],
        ∀ block ∈ table.blocks, f.Parted text block := by
      intro f member block inside
      rcases List.mem_append.1 member with old | new
      · exact apart.sheet.blocks table (by simp [finish, tables, current]) f old block inside
      · obtain rfl := List.mem_singleton.1 new
        exact .inr ((apart.open' table current block inside).declared later rfl (Nat.le_refl _))
    have blocks : ∀ block ∈ table.blocks,
        ({} : Pending).Clears text (start + width (Token.field name definition).text) block := fun block inside =>
      Pending.clears_empty (((apart.open' table current block inside).reached valid.pending).trans further)
    have added : ∀ more totals,
        more ++ totals ⊆ table.fields ++ table.totals ++ [declare draft.pending table.name start name definition] →
        { draft with
          pending := {}
          current := some { table with
            span := ⟨table.span.start, (declare draft.pending table.name start name definition).span.stop⟩
            fields := more
            totals } }.Apart text (start + width (Token.field name definition).text) := by
      intro more totals known
      refine ⟨by simp, closed, by simpa using .inl ends, ?_, ?_⟩
      · rintro t ⟨⟩
        exact blocks
      · exact apart.sheet.withCurrent current rfl rfl fun f member => fields f (known member)
    split
    · exact added _ _ (by simp)
    · refine added _ _ ?_
      intro f member
      simp only [List.mem_append] at member ⊢
      tauto

theorem Draft.addBlock_apart {kind : BlockKind} {body : List Char} (valid : draft.Invariant text offset)
    (apart : draft.Apart text offset) (later : offset ≤ start)
    (member : ⟨start, .block kind body⟩ ∈ Placed.ofChars text) :
    (draft.addBlock start kind body).Apart text (start + width (Token.block kind body).text) := by
  have further := later.trans (Nat.le_add_right start (width (Token.block kind body).text))
  have grown := apart.mono further
  unfold addBlock
  split
  · exact grown.report _
  · next table current =>
    have clears : draft.pending.Clears text (start + width (Token.block kind body).text)
        ⟨start, start + width (Token.block kind body).text⟩ := apart.clears_behind later (Nat.le_refl _)
    have fields : ∀ f ∈ table.fields ++ table.totals,
        f.Parted text ⟨start, start + width (Token.block kind body).text⟩ := by
      intro f inside
      have before := (valid.behind table current).2 f inside
      exact .inl ((before.trans (valid.pending.getD_le (Nat.le_refl _))).trans later)
    -- The new block takes the place of the one of its kind; the other one stays.
    have added : ∀ overrideSpan applySpan,
        overrideSpan.toList ++ applySpan.toList ⊆
          (⟨start, start + width (Token.block kind body).text⟩ : Span) :: table.blocks →
        { draft with
          current := some { table with
            span := ⟨table.span.start, start + width (Token.block kind body).text⟩
            overrideSpan
            applySpan } }.Apart text (start + width (Token.block kind body).text) := by
      intro overrideSpan applySpan known
      refine ⟨grown.waiting, grown.closed, ?_, ?_, ?_⟩
      · rintro t ⟨⟩
        exact .inr ⟨_, member, rfl, rfl, clears⟩
      · rintro t ⟨⟩ block inside
        rcases List.mem_cons.1 (known inside) with rfl | old
        · exact clears
        · exact grown.open' table current block old
      · refine apart.sheet.withCurrent current rfl rfl ?_
        intro f inside block held
        rcases List.mem_cons.1 (known held) with rfl | old
        · exact fields f inside
        · exact apart.sheet.blocks table (by simp [finish, tables, current]) f inside block old
    cases kind with
    | override => exact added _ _ (by simp [Table.blocks])
    | apply => exact added _ _ (by simp [Table.blocks])

theorem Draft.openTotals_apart (apart : draft.Apart text offset) (later : offset ≤ start)
    (member : ⟨start, .total⟩ ∈ Placed.ofChars text) :
    (draft.openTotals start).Apart text (start + width Token.total.text) := by
  have further := later.trans (Nat.le_add_right start (width Token.total.text))
  have grown := apart.mono further
  unfold openTotals
  cases current : draft.current with
  | none =>
    refine ⟨grown.waiting, grown.closed, by simp, by simp, ?_⟩
    simpa [finish, tables, current] using grown.sheet
  | some table =>
    refine ⟨grown.waiting, grown.closed, ?_, ?_, ?_⟩
    · rintro t ⟨⟩
      exact .inr ⟨_, member, rfl, rfl, apart.clears_behind later (Nat.le_refl _)⟩
    · rintro t ⟨⟩
      exact grown.open' table current
    · exact apart.sheet.withCurrent current rfl rfl (apart.sheet.blocks table (by simp [finish, tables, current]))

end

/-- Every token of the text keeps the ranges apart. -/
theorem Draft.step_apart {text : List Char} {offset : Nat} {draft : Draft} {placed : Placed}
    (valid : draft.Invariant text offset) (apart : draft.Apart text offset) (member : placed ∈ Placed.ofChars text)
    (later : offset ≤ placed.start) : (draft.step placed).Apart text placed.stop := by
  have further : offset ≤ placed.stop := later.trans (Nat.le_add_right _ _)
  have stands := Placed.at_of_mem member
  have wellFormed := Placed.wellFormed_of_mem member
  obtain ⟨start, token⟩ := placed
  cases token with
  | comment body => exact apart.mono further
  | decorator name args => exact mark_apart apart member rfl later
  | bang => exact (apart.mono further).report _
  | field name definition =>
    exact addField_apart valid apart later (wellFormed.resolve_left (by simp [Token.isUnclosed])) stands
  | table gap name => exact openTable_apart valid apart later
  | key => exact mark_apart apart member rfl later
  | dim => exact mark_apart apart member rfl later
  | block kind body => exact addBlock_apart valid apart later member
  | total => exact openTotals_apart apart later member
  | word text => exact apart.mono further
  | unclosed problem text => exact (apart.mono further).report _

theorem Draft.apart_ofChars (text : List Char) : ∃ offset ≤ width text, (Draft.ofChars text).Apart text offset := by
  have start : ({} : Draft).Apart text 0 :=
    ⟨by simp, by simp, by simp, by simp, ⟨by simp [finish, tables], by simp [finish, tables]⟩⟩
  have step (offset : Nat) (draft : Draft) (placed : Placed) (member : placed ∈ Placed.ofChars text)
      (later : offset ≤ placed.start) (holds : draft.Invariant text offset ∧ draft.Apart text offset) :
      (draft.step placed).Invariant text placed.stop ∧ (draft.step placed).Apart text placed.stop :=
    ⟨step_invariant holds.1 later (Placed.at_of_mem member) (Placed.wellFormed_of_mem member),
      step_apart holds.1 holds.2 member later⟩
  obtain ⟨offset, bound, -, apart⟩ := Draft.run_induction
    (motive := fun offset draft => draft.Invariant text offset ∧ draft.Apart text offset)
    ⟨invariant_empty text, start⟩ step
  exact ⟨offset, bound, apart⟩

/-- Tables lie apart, and in each the fields from its blocks, but for declarations that start with a decorator or
modifier that waits while the table in front of them goes on. -/
theorem Sheet.read_apart (text : String) : (Sheet.read text).Apart text.toList := by
  obtain ⟨offset, -, apart⟩ := Draft.apart_ofChars text.toList
  exact apart.sheet

/-- Both kinds of overlap: a modifier waits while a block is read, a decorator while totals start. -/
theorem Sheet.read_overlapping :
    ¬((Sheet.read "table a\nkey\noverride\n\n[f]\n!d\ntotal\ntable b").tables.IsChain
        fun a b => a.span.Before b.span) ∧
      ¬∀ t ∈ (Sheet.read "table a\nkey\noverride\n\n[f]\n!d\ntotal\ntable b").tables,
        ∀ f ∈ t.fields ++ t.totals, ∀ block ∈ t.blocks, f.span.Before block ∨ block.Before f.span := by
  constructor
  · decide +kernel
  · decide +kernel

end Gridbook
