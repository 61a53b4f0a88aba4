import Gridbook.Proofs.Placement

/-!
Where the parts of a sheet stand. Every range of a sheet that was read is a range of its text on whole characters,
and cutting it out gives what the range is said to locate. Ranges nest as the declarations do, and the fields of a
table come one behind the other.
-/
namespace Gridbook

open Text

namespace Span

structure Within (text : List Char) (span : Span) : Prop where
  ordered : span.start ≤ span.stop
  bounded : span.stop ≤ width text
  startsOn : IsBoundary text span.start
  stopsOn : IsBoundary text span.stop

def Contains (outer inner : Span) : Prop :=
  outer.start ≤ inner.start ∧ inner.stop ≤ outer.stop

def Before (first second : Span) : Prop :=
  first.stop ≤ second.start

end Span

def Decorator.written (decorator : Decorator) : List Char :=
  '!' :: (decorator.name.toList ++ (decorator.args.map fun args => '(' :: (args.toList ++ [')'])).getD [])

structure Decorator.Located (text : List Char) (decorator : Decorator) : Prop where
  within : decorator.span.Within text
  slice : decorator.span.slice text = decorator.written

structure Expression.Located (text : List Char) (expression : Expression) : Prop where
  within : expression.span.Within text
  slice : expression.span.slice text = expression.text.toList
  trimmed : trim expression.text.toList = expression.text.toList
  oneLine : '\n' ∉ expression.text.toList

structure Field.Located (text : List Char) (table : String) (field : Field) : Prop where
  ofTable : field.key.table = table
  within : field.span.Within text
  nameWithin : field.nameSpan.Within text
  name : field.nameSpan.slice text = field.key.bracketed.toList
  nameInside : field.span.Contains field.nameSpan
  decorators : ∀ d ∈ field.decorators, d.Located text ∧ field.span.Contains d.span
  expression : ∀ e ∈ field.expression, e.Located text ∧ field.span.Contains e.span

structure Table.Located (text : List Char) (table : Table) : Prop where
  within : table.span.Within text
  nameWithin : table.nameSpan.Within text
  name : table.nameSpan.slice text = table.name.toList
  nameInside : table.span.Contains table.nameSpan
  decorators : ∀ d ∈ table.decorators, d.Located text ∧ table.span.Contains d.span
  fields : ∀ f ∈ table.fields ++ table.totals, f.Located text table.name ∧ table.span.Contains f.span
  increasing : (table.fields ++ table.totals).Pairwise fun a b => a.span.Before b.span
  override : ∀ span ∈ table.overrideSpan, span.Within text ∧ table.span.Contains span
  apply : ∀ span ∈ table.applySpan, span.Within text ∧ table.span.Contains span

structure Sheet.Located (text : List Char) (sheet : Sheet) : Prop where
  tables : ∀ t ∈ sheet.tables, t.Located text
  increasing : sheet.tables.Pairwise fun a b => a.nameSpan.Before b.nameSpan

theorem Text.At.within {text part : List Char} {offset : Nat} (stands : At text offset part) :
    (⟨offset, offset + width part⟩ : Span).Within text :=
  ⟨Nat.le_add_right _ _, stands.bound, stands.start, stands.stop⟩

structure Pending.Located (text : List Char) (offset : Nat) (pending : Pending) : Prop where
  start : ∀ s ∈ pending.start, IsBoundary text s ∧ s ≤ offset
  decorators : ∀ d ∈ pending.decorators,
    d.Located text ∧ (∃ s ∈ pending.start, s ≤ d.span.start) ∧ d.span.stop ≤ offset

/-- What holds of a draft when the text has been read up to the offset. -/
structure Draft.Invariant (text : List Char) (offset : Nat) (draft : Draft) : Prop where
  pending : draft.pending.Located text offset
  tables : ∀ t ∈ draft.tables, t.Located text ∧ t.nameSpan.stop ≤ offset
  increasing : draft.tables.Pairwise fun a b => a.nameSpan.Before b.nameSpan
  reached : ∀ t ∈ draft.current, t.span.stop ≤ offset
  /-- What is declared next starts behind the header and the fields of the open table. -/
  behind : ∀ t ∈ draft.current, t.nameSpan.stop ≤ draft.pending.start.getD offset ∧
    ∀ f ∈ t.fields ++ t.totals, f.span.stop ≤ draft.pending.start.getD offset
  fieldsFirst : ∀ t ∈ draft.current, draft.inTotals = false → t.totals = []

section
variable {text : List Char} {offset start : Nat} {draft : Draft} {pending : Pending}

theorem Pending.Located.mono (located : pending.Located text offset) (later : offset ≤ start) :
    pending.Located text start := by
  constructor
  · intro s member
    obtain ⟨boundary, before⟩ := located.start s member
    exact ⟨boundary, before.trans later⟩
  · intro d member
    obtain ⟨stands, first, before⟩ := located.decorators d member
    exact ⟨stands, first, before.trans later⟩

theorem Pending.getD_mono (pending : Pending) (later : offset ≤ start) :
    pending.start.getD offset ≤ pending.start.getD start := by
  cases pending.start <;> simp [later]

theorem Draft.Invariant.mono (valid : draft.Invariant text offset) (later : offset ≤ start) :
    draft.Invariant text start := by
  have next := draft.pending.getD_mono later
  constructor
  · exact valid.pending.mono later
  · exact fun t member => ⟨(valid.tables t member).1, (valid.tables t member).2.trans later⟩
  · exact valid.increasing
  · exact fun t member => (valid.reached t member).trans later
  · intro t member
    obtain ⟨header, fields⟩ := valid.behind t member
    exact ⟨header.trans next, fun f inside => (fields f inside).trans next⟩
  · exact valid.fieldsFirst

theorem Pending.Located.getD_boundary (located : pending.Located text offset) (boundary : IsBoundary text start) :
    IsBoundary text (pending.start.getD start) := by
  cases first : pending.start with
  | none => exact boundary
  | some s => exact (located.start s first).1

theorem Pending.Located.getD_le (located : pending.Located text offset) (later : offset ≤ start) :
    pending.start.getD start ≤ start := by
  cases first : pending.start with
  | none => exact Nat.le_refl _
  | some s => exact (located.start s first).2.trans later

/-- The decorators that wait lie in the range of what is declared next. -/
theorem Pending.Located.contains (located : pending.Located text offset) {stop : Nat} (later : offset ≤ stop) :
    ∀ d ∈ pending.decorators, d.Located text ∧ (⟨pending.start.getD start, stop⟩ : Span).Contains d.span := by
  intro d member
  obtain ⟨stands, ⟨s, first, before⟩, reached⟩ := located.decorators d member
  refine ⟨stands, ?_, reached.trans later⟩
  rw [Option.mem_def.1 first]
  exact before

theorem Pending.located_empty : ({} : Pending).Located text offset :=
  ⟨by simp, by simp⟩

theorem Decorator.located {name : List Char} {args : Option (List Char)}
    (stands : At text start (Token.decorator name args).text) :
    (⟨String.ofList name, args.map String.ofList, ⟨start, start + width (Token.decorator name args).text⟩⟩ :
      Decorator).Located text := by
  refine ⟨stands.within, stands.slice.trans ?_⟩
  cases args <;> simp [Token.text, Decorator.written]

/-- A definition stands behind its field's name, and its body behind what leads to it. -/
theorem Text.At.body {name : List Char} {d : Definition} (stands : At text start (Token.field name (some d)).text) :
    At text (start + width (Token.field name none).text + width d.gap + width ['='] + width d.lead) d.body := by
  have parts : (Token.field name (some d)).text =
      (Token.field name none).text ++ (d.gap ++ (['='] ++ (d.lead ++ (d.body ++ d.tail)))) := by
    simp [Token.text, Definition.text]
  rw [parts] at stands
  exact stands.append_right.append_right.append_right.append_right.append_left

theorem Text.At.fieldName {name : List Char} {definition : Option Definition}
    (stands : At text start (Token.field name definition).text) : At text start (Token.field name none).text := by
  cases definition with
  | none => exact stands
  | some d =>
    have parts : (Token.field name (some d)).text = (Token.field name none).text ++ d.text := by simp [Token.text]
    rw [parts] at stands
    exact stands.append_left

theorem Expression.located {d : Definition} (wellFormed : d.WellFormed) (stands : At text start d.body) :
    (⟨String.ofList d.body, ⟨start, start + width d.body⟩⟩ : Expression).Located text := by
  refine ⟨stands.within, by simpa using stands.slice, ?_, ?_⟩
  · rw [String.toList_ofList, wellFormed.body, trim_trim]
  · rw [String.toList_ofList]
    intro newline
    simpa [Token.inLine] using wellFormed.line '\n' (by simp [newline])

/-- A declared field reaches from what waited for it to its end, which is behind its name and inside its token. -/
theorem Draft.declare_located {name : List Char} {definition : Option Definition} (table : String)
    (waits : pending.Located text offset) (later : offset ≤ start)
    (wellFormed : (Token.field name definition).WellFormed)
    (stands : At text start (Token.field name definition).text) :
    (Draft.declare pending table start name definition).Located text table ∧
      start ≤ (Draft.declare pending table start name definition).span.stop ∧
      (Draft.declare pending table start name definition).span.stop ≤
        start + width (Token.field name definition).text := by
  have named := stands.fieldName
  have first := waits.getD_le later
  have boundary := waits.getD_boundary named.start
  have bracketed : (⟨table, String.ofList name⟩ : FieldKey).bracketed.toList = (Token.field name none).text := by
    simp [FieldKey.bracketed, Token.text]
  cases definition with
  | none =>
    refine ⟨⟨rfl, ⟨?_, named.bound, boundary, named.stop⟩, named.within, named.slice.trans bracketed.symm,
      ⟨first, Nat.le_refl _⟩, ?_, by simp [declare]⟩, Nat.le_add_right _ _, Nat.le_refl _⟩
    · exact first.trans (Nat.le_add_right _ _)
    · exact waits.contains (later.trans (Nat.le_add_right _ _))
  | some d =>
    have body := stands.body
    have inside : start + width (Token.field name none).text + width d.gap + width ['='] + width d.lead +
        width d.body ≤ start + width (Token.field name (some d)).text := by
      simp [Token.text, Definition.text]
      omega
    refine ⟨⟨rfl, ⟨?_, body.bound, boundary, body.stop⟩, named.within, named.slice.trans bracketed.symm,
      ⟨first, ?_⟩, ?_, ?_⟩, ?_, inside⟩
    · simp only [declare, Option.map_some, Option.getD_some]
      omega
    · simp only [declare, Option.map_some, Option.getD_some]
      omega
    · exact waits.contains (by simp only [Option.map_some, Option.getD_some]; omega)
    · simp only [declare, Option.map_some, Option.mem_def, Option.some.injEq, forall_eq']
      refine ⟨Expression.located (wellFormed.2 d rfl) body, ?_, Nat.le_refl _⟩
      dsimp only
      omega
    · simp only [declare, Option.map_some, Option.getD_some]
      omega

/-- A table that reaches further still contains all its parts. -/
theorem Table.Located.grow {table : Table} {stop : Nat} (located : table.Located text)
    (further : table.span.stop ≤ stop) (bounded : stop ≤ width text) (boundary : IsBoundary text stop) :
    { table with span := ⟨table.span.start, stop⟩ }.Located text := by
  have widen {inner : Span} (inside : table.span.Contains inner) :
      (⟨table.span.start, stop⟩ : Span).Contains inner :=
    ⟨inside.1, inside.2.trans further⟩
  refine { located with
    within := ⟨located.within.ordered.trans further, bounded, located.within.startsOn, boundary⟩
    nameInside := widen located.nameInside
    decorators := fun d member => ?_
    fields := fun f member => ?_
    override := fun span member => ?_
    apply := fun span member => ?_ }
  · exact ⟨(located.decorators d member).1, widen (located.decorators d member).2⟩
  · exact ⟨(located.fields f member).1, widen (located.fields f member).2⟩
  · exact ⟨(located.override span member).1, widen (located.override span member).2⟩
  · exact ⟨(located.apply span member).1, widen (located.apply span member).2⟩

/-- A table takes in a further field at its end: `fields` and `totals` are what they become. -/
theorem Table.Located.addField {table : Table} {field : Field} {fields totals : List Field}
    (located : table.Located text) (stands : field.Located text table.name)
    (inside : table.span.Contains field.span) (behind : ∀ f ∈ table.fields ++ table.totals, f.span.Before field.span)
    (same : fields ++ totals = table.fields ++ table.totals ++ [field]) :
    { table with fields, totals }.Located text := by
  refine { located with fields := ?_, increasing := ?_ }
  · intro f member
    simp only [same, List.mem_append, List.mem_singleton] at member
    rcases member with old | rfl
    · exact located.fields f (List.mem_append.2 old)
    · exact ⟨stands, inside⟩
  · simp only [same]
    exact List.pairwise_append.2 ⟨located.increasing, by simp, by simpa using behind⟩

theorem Draft.Invariant.report (valid : draft.Invariant text offset) (problem : Problem) :
    (draft.report start problem).Invariant text offset :=
  ⟨valid.pending, valid.tables, valid.increasing, valid.reached, valid.behind, valid.fieldsFirst⟩

/-- Other things may wait if they do not start before what waited. -/
theorem Draft.Invariant.withPending {stop : Nat} (valid : draft.Invariant text offset) (later : offset ≤ stop)
    (waits : pending.Located text stop) (next : draft.pending.start.getD offset ≤ pending.start.getD stop) :
    { draft with pending }.Invariant text stop := by
  refine ⟨waits, ?_, valid.increasing, ?_, ?_, valid.fieldsFirst⟩
  · exact fun t member => ⟨(valid.tables t member).1, (valid.tables t member).2.trans later⟩
  · exact fun t member => (valid.reached t member).trans later
  · intro t member
    obtain ⟨header, fields⟩ := valid.behind t member
    exact ⟨header.trans next, fun f inside => (fields f inside).trans next⟩

/-- The open table may grow; its header stays where it is. -/
theorem Draft.Invariant.withCurrent {old new : Table} {inTotals : Bool} {stop : Nat}
    (valid : draft.Invariant text offset) (later : offset ≤ stop) (current : draft.current = some old)
    (header : new.nameSpan = old.nameSpan) (located : new.Located text) (reached : new.span.stop ≤ stop)
    (waits : pending.Located text stop) (next : draft.pending.start.getD offset ≤ pending.start.getD stop)
    (behind : ∀ f ∈ new.fields ++ new.totals, f.span.stop ≤ pending.start.getD stop)
    (first : inTotals = false → new.totals = []) :
    { draft with current := some new, inTotals, pending }.Invariant text stop := by
  have tables := valid.tables
  have increasing := valid.increasing
  simp only [Draft.tables, current, Option.toList_some, List.mem_append, List.mem_singleton] at tables
  simp only [Draft.tables, current, Option.toList_some, List.pairwise_append] at increasing
  refine ⟨waits, ?_, ?_, by simpa using reached, ?_, by simpa using first⟩
  · intro t member
    simp only [Draft.tables, Option.toList_some, List.mem_append, List.mem_singleton] at member
    rcases member with member | rfl
    · exact ⟨(tables t (.inl member)).1, (tables t (.inl member)).2.trans later⟩
    · exact ⟨located, header ▸ (tables old (.inr rfl)).2.trans later⟩
  · simp only [Draft.tables, Option.toList_some, List.pairwise_append]
    refine ⟨increasing.1, by simp, ?_⟩
    simpa [header] using increasing.2.2
  · simp only [Option.mem_def, Option.some.injEq, forall_eq']
    exact ⟨header ▸ (valid.behind old current).1.trans next, behind⟩

theorem Pending.Located.mark {stop : Nat} (located : pending.Located text offset) (later : offset ≤ start)
    (boundary : IsBoundary text start) (further : start ≤ stop) : (pending.mark start).Located text stop := by
  constructor
  · simp only [Pending.mark, Option.mem_def, Option.some.injEq, forall_eq']
    exact ⟨located.getD_boundary boundary, (located.getD_le later).trans further⟩
  · intro d member
    obtain ⟨stands, ⟨s, waited, before⟩, reached⟩ := located.decorators d member
    refine ⟨stands, ⟨s, ?_, before⟩, reached.trans (later.trans further)⟩
    simp [Pending.mark, Option.mem_def.1 waited]

/-- A modifier waits like a decorator; the invariant does not look at which modifier it is. -/
theorem Draft.mark_invariant {part : List Char} {isKey isDim : Bool} (valid : draft.Invariant text offset)
    (later : offset ≤ start) (stands : At text start part) :
    { draft with pending := { draft.pending.mark start with isKey, isDim } }.Invariant text (start + width part) := by
  obtain ⟨first, decorators⟩ := valid.pending.mark later stands.start (Nat.le_add_right start (width part))
  exact valid.withPending (later.trans (Nat.le_add_right _ _)) ⟨first, decorators⟩ (draft.pending.getD_mono later)

theorem Draft.addDecorator_invariant {name : List Char} {args : Option (List Char)}
    (valid : draft.Invariant text offset) (later : offset ≤ start)
    (stands : At text start (Token.decorator name args).text) :
    (draft.addDecorator start name args).Invariant text (start + width (Token.decorator name args).text) := by
  obtain ⟨first, decorators⟩ := valid.pending.mark later stands.start
    (Nat.le_add_right start (width (Token.decorator name args).text))
  refine valid.withPending (later.trans (Nat.le_add_right _ _)) ⟨first, ?_⟩ (draft.pending.getD_mono later)
  intro d member
  simp only [List.mem_append, List.mem_singleton] at member
  rcases member with old | rfl
  · exact decorators d old
  · exact ⟨Decorator.located stands, ⟨_, rfl, valid.pending.getD_le later⟩, Nat.le_refl _⟩

theorem Draft.openTable_invariant {gap name : List Char} (valid : draft.Invariant text offset)
    (later : offset ≤ start) (stands : At text start (Token.table gap name).text) :
    (draft.openTable start gap name).Invariant text (start + width (Token.table gap name).text) := by
  have closed : ∀ stop, offset ≤ stop →
      { draft with closed := draft.tables, current := none, inTotals := false, pending := {} }.Invariant text stop := by
    intro stop further
    refine ⟨Pending.located_empty, ?_, ?_, by simp, by simp, by simp⟩
    · intro t member
      simp only [Draft.tables, Option.toList_none, List.append_nil] at member
      exact ⟨(valid.tables t member).1, (valid.tables t member).2.trans further⟩
    · simpa [Draft.tables] using valid.increasing
  have reached := later.trans (Nat.le_add_right start (width (Token.table gap name).text))
  unfold openTable
  split
  · exact (closed _ reached).report _
  · have named : At text (start + width Keyword.table.word.toList + width gap) name := by
      rw [Token.text, List.append_assoc] at stands
      exact stands.append_right.append_right
    have stop : start + width Keyword.table.word.toList + width gap + width name =
        start + width (Token.table gap name).text := by
      simp [Token.text, Nat.add_assoc]
    have first := valid.pending.getD_le later
    have located : Table.Located text {
        name := String.ofList name
        decorators := draft.pending.decorators
        span := ⟨draft.pending.start.getD start,
          start + width Keyword.table.word.toList + width gap + width name⟩
        nameSpan := ⟨start + width Keyword.table.word.toList + width gap,
          start + width Keyword.table.word.toList + width gap + width name⟩
        fields := []
        totals := []
        overrideSpan := none
        applySpan := none } := by
      refine ⟨⟨?_, named.bound, valid.pending.getD_boundary stands.start, named.stop⟩, named.within,
        by simpa using named.slice, ⟨?_, Nat.le_refl _⟩, ?_, by simp, by simp, by simp, by simp⟩
      · dsimp only
        omega
      · dsimp only
        omega
      · exact valid.pending.contains (by omega)
    have before := closed _ reached
    refine ⟨before.pending, ?_, ?_, by simp [stop], by simp [stop], by simp⟩
    · intro t member
      simp only [Draft.tables, Option.toList_some, List.mem_append, List.mem_singleton] at member
      rcases member with member | rfl
      · exact before.tables t (by simpa [Draft.tables] using member)
      · exact ⟨located, Nat.le_of_eq stop⟩
    · simp only [Draft.tables, Option.toList_some]
      refine List.pairwise_append.2 ⟨valid.increasing, by simp, ?_⟩
      intro t member header new
      rw [List.mem_singleton.1 new]
      have := (valid.tables t member).2
      simp only [Span.Before]
      omega

theorem Draft.addField_invariant {name : List Char} {definition : Option Definition}
    (valid : draft.Invariant text offset) (later : offset ≤ start)
    (wellFormed : (Token.field name definition).WellFormed)
    (stands : At text start (Token.field name definition).text) :
    (draft.addField start name definition).Invariant text
      (start + width (Token.field name definition).text) := by
  have further := later.trans (Nat.le_add_right start (width (Token.field name definition).text))
  have next : draft.pending.start.getD offset ≤
      ({} : Pending).start.getD (start + width (Token.field name definition).text) :=
    (valid.pending.getD_le (Nat.le_refl _)).trans further
  unfold addField
  split
  · exact (valid.withPending further Pending.located_empty next).report _
  · next table current =>
    obtain ⟨declared, begins, ends⟩ := declare_located table.name valid.pending later wellFormed stands
    obtain ⟨header, fields⟩ := valid.behind table current
    have located := (valid.tables table (by simp [Draft.tables, current])).1
    have reached := valid.reached table current
    have start' := draft.pending.getD_mono later
    have grown := located.grow ((reached.trans later).trans begins) declared.within.bounded declared.within.stopsOn
    have inside : (⟨table.span.start, (declare draft.pending table.name start name definition).span.stop⟩ :
        Span).Contains (declare draft.pending table.name start name definition).span := by
      refine ⟨?_, Nat.le_refl _⟩
      exact (located.nameInside.1.trans located.nameWithin.ordered).trans (header.trans start')
    have behind : ∀ f ∈ table.fields ++ table.totals,
        f.span.Before (declare draft.pending table.name start name definition).span :=
      fun f member => (fields f member).trans start'
    -- Where the field goes makes no difference: it comes last in either list.
    have added : ∀ more totals,
        more ++ totals = table.fields ++ table.totals ++ [declare draft.pending table.name start name definition] →
        (draft.inTotals = false → totals = []) →
        { draft with
          pending := {}
          current := some { table with
            span := ⟨table.span.start, (declare draft.pending table.name start name definition).span.stop⟩
            fields := more
            totals } }.Invariant text (start + width (Token.field name definition).text) := by
      intro more totals same first
      refine valid.withCurrent further current rfl (grown.addField declared inside behind same) ends
        Pending.located_empty next ?_ first
      intro f member
      simp only [same, List.mem_append, List.mem_singleton] at member
      rcases member with old | rfl
      · exact (fields f (List.mem_append.2 old)).trans next
      · exact ends
    split
    · next totals => exact added _ _ (by simp) (by simp [totals])
    · next totals =>
      have none := valid.fieldsFirst table current (by simpa using totals)
      exact added _ _ (by simp [none]) fun _ => none

theorem Draft.addBlock_invariant {kind : BlockKind} {body : List Char}
    (valid : draft.Invariant text offset) (later : offset ≤ start)
    (stands : At text start (Token.block kind body).text) :
    (draft.addBlock start kind body).Invariant text (start + width (Token.block kind body).text) := by
  have further := later.trans (Nat.le_add_right start (width (Token.block kind body).text))
  unfold addBlock
  split
  · exact (valid.mono further).report _
  · next table current =>
    have located := (valid.tables table (by simp [Draft.tables, current])).1
    have reached := valid.reached table current
    have next := draft.pending.getD_mono further
    have grown := located.grow (reached.trans further) stands.bound stands.stop
    have inside : (⟨table.span.start, start + width (Token.block kind body).text⟩ : Span).Contains
        ⟨start, start + width (Token.block kind body).text⟩ :=
      ⟨(located.within.ordered.trans reached).trans later, Nat.le_refl _⟩
    have behind : ∀ f ∈ table.fields ++ table.totals, f.span.stop ≤ draft.pending.start.getD _ :=
      fun f member => ((valid.behind table current).2 f member).trans next
    cases kind with
    | override =>
      exact valid.withCurrent further current rfl
        { grown with override := by simpa using ⟨stands.within, inside⟩ } (Nat.le_refl _)
        (valid.pending.mono further) next behind (valid.fieldsFirst table current)
    | apply =>
      exact valid.withCurrent further current rfl
        { grown with apply := by simpa using ⟨stands.within, inside⟩ } (Nat.le_refl _)
        (valid.pending.mono further) next behind (valid.fieldsFirst table current)

theorem Draft.openTotals_invariant (valid : draft.Invariant text offset) (later : offset ≤ start)
    (stands : At text start Token.total.text) :
    (draft.openTotals start).Invariant text (start + width Token.total.text) := by
  have further := later.trans (Nat.le_add_right start (width Token.total.text))
  have next := draft.pending.getD_mono further
  unfold openTotals
  cases current : draft.current with
  | none =>
    have valid := valid.mono further
    refine ⟨valid.pending, ?_, ?_, by simp, by simp, by simp⟩
    · simpa [Draft.tables, current] using valid.tables
    · simpa [Draft.tables, current] using valid.increasing
  | some table =>
    have located := (valid.tables table (by simp [Draft.tables, current])).1
    have grown := located.grow ((valid.reached table current).trans further) stands.bound stands.stop
    refine valid.withCurrent further current rfl grown (Nat.le_refl _) (valid.pending.mono further) next ?_ (by simp)
    exact fun f member => ((valid.behind table current).2 f member).trans next

end

/-- Every token of the text keeps the invariant. -/
theorem Draft.step_invariant {text : List Char} {offset : Nat} {draft : Draft} {placed : Placed}
    (valid : draft.Invariant text offset) (later : offset ≤ placed.start)
    (stands : At text placed.start placed.token.text)
    (wellFormed : placed.token.isUnclosed = true ∨ placed.token.WellFormed) :
    (draft.step placed).Invariant text placed.stop := by
  have further : offset ≤ placed.stop := later.trans (Nat.le_add_right _ _)
  obtain ⟨start, token⟩ := placed
  cases token with
  | comment body => exact valid.mono further
  | decorator name args => exact addDecorator_invariant valid later stands
  | bang => exact (valid.mono further).report _
  | field name definition =>
    exact addField_invariant valid later (wellFormed.resolve_left (by simp [Token.isUnclosed])) stands
  | table gap name => exact openTable_invariant valid later stands
  | key => exact mark_invariant valid later stands
  | dim => exact mark_invariant valid later stands
  | block kind body => exact addBlock_invariant valid later stands
  | total => exact openTotals_invariant valid later stands
  | word text => exact valid.mono further
  | unclosed problem text => exact (valid.mono further).report _

theorem Draft.invariant_empty (text : List Char) : ({} : Draft).Invariant text 0 :=
  ⟨Pending.located_empty, by simp [Draft.tables], by simp [Draft.tables], by simp, by simp, by simp⟩

theorem Draft.invariant_ofChars (text : List Char) :
    ∃ offset ≤ width text, (Draft.ofChars text).Invariant text offset := by
  refine Draft.run_induction (invariant_empty text) ?_
  intro offset draft placed member later valid
  exact step_invariant valid later (Placed.at_of_mem member) (Placed.wellFormed_of_mem member)

/-- All parts of a sheet stand in its text where they say. -/
theorem Sheet.read_located (text : String) : (Sheet.read text).Located text.toList := by
  obtain ⟨offset, -, valid⟩ := Draft.invariant_ofChars text.toList
  exact ⟨fun t member => (valid.tables t member).1, valid.increasing⟩

end Gridbook
