import Gridbook.Proofs.Appending
import Gridbook.Proofs.Cuts

/-!
An appended field taken out again. Appending looks for the line break that ends the line behind which it writes, and for
the blanks before the last field; taking out looks for the lines that the field has for itself. Where every carriage
return belongs to a line break, the two undo each other, and the text is the same again.
-/
namespace Gridbook

open Text

def Text.PairsReturns (text : List Char) : Prop := ∀ i, text[i]? = some '\r' → text[i + 1]? = some '\n'

namespace Text.PairsReturns

variable {text : List Char}

instance : Decidable (PairsReturns text) :=
  decidable_of_iff (∀ i < text.length, text[i]? = some '\r' → text[i + 1]? = some '\n')
    ⟨fun pairs i found => pairs i (List.getElem?_eq_some_iff.1 found).1 found, fun pairs i _ => pairs i⟩

theorem getLast?_ne (pairs : PairsReturns text) : text.getLast? ≠ some '\r' := by
  intro last
  rw [List.getLast?_eq_getElem?] at last
  have next := (List.getElem?_eq_some_iff.1 (pairs _ last)).1
  omega

end Text.PairsReturns

/-- The break of a line that is ended in the text. -/
theorem Cursor.lineBreak_newline {before line rest : List Char} (inside : ∀ c ∈ line, Token.inLine c = true) :
    (⟨before, line ++ '\n' :: rest⟩ : Cursor).lineBreak =
      if (before ++ line).getLast? = some '\r' then ['\r', '\n'] else ['\n'] := by
  simp only [lineBreak, dropWhile_run inside Token.stops_newline, lineAfter_eq inside Token.stops_newline,
    List.head?_reverse]

/-- What waits has left a mark of its own. -/
theorem Draft.pending_of_outline (items : List Item) (settled : (ofItems items).pending.outline = {}) :
    (ofItems items).pending = {} := by
  induction items using List.reverseRecOn with
  | nil => rfl
  | append_singleton items item ih =>
    have step := step_pending (ofItems items) ⟨width (Item.texts items ++ item.gap), item.token⟩
    rw [ofItems_concat] at settled ⊢
    rcases step with ⟨-, none⟩ | ⟨-, ⟨-, same⟩ | ⟨waits, -⟩⟩
    · exact none
    · rw [same] at settled ⊢
      exact ih settled
    · cases token : item.token <;> simp [token, Token.waits] at waits <;>
        simp [token, Draft.step, addDecorator, Pending.outline, Pending.mark] at settled

/-- A token whose line goes on does not end with a blank. -/
theorem Seat.getLast?_ne (seat : Seat) : (Item.texts seat.items).getLast? ≠ some '\r' := by
  obtain ⟨wellFormed, -⟩ := seat.endsBefore
  obtain ⟨c, more, same, -⟩ := wellFormed.exists_cons
  have stops := wellFormed.stops_reverse_text seat.plain seat.fillsLine seat.named
  have spell : Item.texts seat.items = (Item.texts seat.front ++ seat.gap) ++ seat.token.text := by simp [Seat.items]
  intro last
  rw [spell, List.getLast?_append_of_ne_nil _ (by simp [same]), ← List.head?_reverse] at last
  exact absurd (stops '\r' last) (by decide)

namespace Sheet

variable {text table field expression : String} {found : Table}

/-- A table does not take another field right behind a carriage return, unless that is the blank of an expression. -/
theorem getLast?_anchor {text : List Char} (declared : (ofChars text).table? table = some found)
    (blank : ∀ last e, found.lastField? = some last → last.expression = some e → e.text = "" → '\r' ∉ text) :
    (Cursor.ofOffset found.anchor text).before.getLast? ≠ some '\r' := by
  cases last : found.lastField? with
  | none =>
    have stop : found.anchor = found.nameSpan.stop := by simp [Table.anchor, last]
    obtain ⟨seat, opened, parts, start, -⟩ := exists_seat_header declared
    rw [stop, start, parts, Seat.text, Cursor.ofOffset_width]
    exact seat.getLast?_ne
  | some field =>
    have stop : found.anchor = field.span.stop := by simp [Table.anchor, last]
    have listed := last
    rw [Table.lastField?, List.getLast?_eq_getElem?] at listed
    obtain ⟨front, gap, word, definition, rest, old, parts, leads, -, -, -, rfl⟩ := exists_field declared listed
    have whole : text = Item.texts front ++ gap ++ Token.stated word definition ++ (Token.behind definition ++ rest) := by
      rw [parts]
      simp [Token.text_stated]
    rw [stop, Draft.span_declare, whole, Cursor.ofOffset_width]
    cases definition with
    | none =>
      have spell : Token.stated word none = '[' :: word ++ [']'] := by simp [Token.stated, Token.text]
      rw [spell, ← List.append_assoc, List.getLast?_concat]
      decide
    | some d =>
      obtain ⟨-, -, wellFormed, -⟩ := Item.leads_append.1 leads
      have wellFormed : d.WellFormed := wellFormed.2 d rfl
      intro ends
      by_cases empty : d.body = []
      · have written := blank _ _ last (Draft.expression_declare ..) (by simp [empty])
        rw [whole] at written
        exact written (List.mem_append_left _ (List.mem_of_getLast? ends))
      · have spell : Item.texts front ++ gap ++ Token.stated word (some d) =
            Item.texts front ++ gap ++ ((Token.field word none).text ++ (d.gap ++ '=' :: d.lead)) ++ d.body := by
          simp [Token.stated, Definition.reach]
        have stops : Stops isBlank d.body.reverse := by
          rw [wellFormed.body]
          exact stops_dropEndWhile isBlank _
        rw [spell, List.getLast?_append_of_ne_nil _ empty, ← List.head?_reverse] at ends
        exact absurd (stops '\r' ends) (by decide)

namespace Insertion

variable (insertion : Insertion table field expression)

/-- The line before the new field ends as the line ended before it was cut. -/
theorem cr_eq {rest : List Char} (ends : insertion.rest = '\n' :: rest)
    (before : insertion.before.getLast? ≠ some '\r') : insertion.cr = insertion.ret := by
  have lineBreak := insertion.lineBreak
  rw [ends, Cursor.lineBreak_newline insertion.short.inLine] at lineBreak
  rcases insertion.short with none | some
  · have last : (insertion.before ++ insertion.kept).getLast? ≠ some '\r' := by
      rcases List.eq_nil_or_concat' insertion.kept with nothing | ⟨kept, c, same⟩
      · rwa [nothing, List.append_nil]
      · rw [List.getLast?_append_of_ne_nil _ (by simp [same])]
        exact insertion.unreturned none
    rw [none, List.append_nil, if_neg last] at lineBreak
    rw [none]
    simpa using lineBreak.symm
  · rw [some, List.getLast?_concat, if_pos rfl] at lineBreak
    rw [some]
    exact (List.append_cancel_right (lineBreak : ['\r'] ++ ['\n'] = insertion.cr ++ ['\n'])).symm

/-- The range of the new field, which nothing waited for. -/
theorem span_added : insertion.added.span =
    .over (Item.texts insertion.items ++ insertion.gap) (Token.stated field.toList insertion.definition) := by
  have settled := insertion.ready.settled
  rw [Draft.pending_ofItems] at settled
  rw [added, Draft.span_declare, Draft.pending_of_outline _ settled, Span.over, ← width_append]
  rfl

/-- Without its range the text is as it was. -/
theorem removeSpan_new (before : insertion.before.getLast? ≠ some '\r') (pairs : PairsReturns insertion.old) :
    removeSpan insertion.added.span insertion.new = insertion.old := by
  obtain ⟨run, blank, inside, left⟩ := insertion.adds.left
  let kept := insertion.before ++ (insertion.kept ++ (insertion.cr ++ ['\n']))
  have ends : EndsLine kept := by
    simp [kept, EndsLine]
  have front : Item.texts insertion.items ++ insertion.gap = kept ++ insertion.indent := by
    rw [← insertion.indented]
    simp [kept]
  have whole : insertion.new = kept ++ insertion.indent ++
      (Token.stated field.toList insertion.definition ++ (run ++ insertion.rest)) := by
    rw [← front, ← left]
    simp [new, Token.text_stated]
  rw [span_added, front, whole, removeSpan_alone ends (fun c member => (insertion.blank c member).2) inside insertion.ends
    _ (fun c member => (insertion.blank c member).1) blank]
  cases behind : insertion.rest with
  | nil =>
    -- The text does not end with a carriage return, so one before the new line belongs to the break.
    have last := pairs.getLast?_ne
    have whole : insertion.old = insertion.before ++ insertion.kept := by
      rcases insertion.short with none | some
      · simp [old, behind, none]
      · simp [old, behind, some] at last
    have shape : kept = insertion.before ++ insertion.kept ++ insertion.cr ++ ['\n'] := by simp [kept]
    rw [whole] at last ⊢
    rw [if_pos rfl, shape, dropBreak_concat]
    obtain ⟨cr, short, same⟩ := Cursor.exists_lineBreak ⟨insertion.before ++ insertion.kept, insertion.ret ++ insertion.rest⟩
    obtain rfl : insertion.cr = cr := List.append_cancel_right (insertion.lineBreak.symm.trans same)
    rcases short with none | some
    · rw [none, List.append_nil, if_neg last]
    · rw [some, List.getLast?_concat, if_pos rfl, List.dropLast_concat]
  | cons c rest =>
    have newline := insertion.ends
    rw [behind, stops_cons] at newline
    obtain rfl : c = '\n' := by simpa [Token.inLine] using newline
    rw [if_neg (by simp), List.tail_cons, old, behind, ← insertion.cr_eq behind before]
    simp [kept]

end Insertion

/-- A field that was appended to a table, and was not declared there before, is taken out again without a trace. -/
theorem removeField_appendField (text table field expression : String) {found : Table}
    (declared : (read text).table? table = some found) (pairs : PairsReturns text.toList)
    (room : IsRemark (Cursor.ofOffset found.anchor text.toList).lineAfter)
    (blank : ∀ last e, found.lastField? = some last → last.expression = some e → e.text = "" → '\r' ∉ text.toList)
    (legal : IsAddition field expression) (fresh : field ∉ found.fieldNames) :
    ∃ out, appendField text table field expression = some out ∧ removeField out table field = some text := by
  obtain ⟨insertion, parts, start, length, done⟩ := exists_insertion declared room legal
  have before := getLast?_anchor declared blank
  rw [read, parts] at declared
  rw [parts] at pairs
  rw [start, parts, Insertion.old, Cursor.ofOffset_width] at before
  obtain ⟨found', others, declared', fields, names⟩ := insertion.exists_table? declared length
  have listed : found'.field? field = some insertion.added := by
    have other : ∀ f ∈ others, f.key.field ≠ field := by
      intro f member same
      rw [← names] at fresh
      exact fresh (same ▸ List.mem_map_of_mem member)
    have named : insertion.added.key.field = field := String.ofList_toList
    rw [Table.field?, fields, List.find?_append, List.find?_eq_none.2 (by simpa using other), Option.none_or]
    simp [named]
  have located : (read (String.ofList insertion.new)).field? table field = some insertion.added := by
    rw [field?, read, String.toList_ofList, declared']
    exact listed
  refine ⟨_, done, ?_⟩
  rw [removeField, located, String.toList_ofList]
  simp only [Option.bind_eq_bind, Option.bind_some]
  rw [insertion.removeSpan_new before pairs, ← parts, String.ofList_toList]
  rfl

/-- The last field is indented by a wide blank and its line goes on with another one and a comment; the lines end with
carriage returns, and the expression has a comment mark behind an open quote and blanks at its ends. -/
theorem removeField_appendField_indented :
    let text := "table t\r\n\u3000[a] = 1\u00a0# c\r\ntable u"
    let out := "table t\r\n\u3000[a] = 1\u00a0# c\r\n\u3000[é] =  '# x \r\ntable u"
    ∃ found, (read text).table? "t" = some found ∧ PairsReturns text.toList ∧
      IsRemark (Cursor.ofOffset found.anchor text.toList).lineAfter ∧ IsAddition "é" " '# x " ∧ "é" ∉ found.fieldNames ∧
      appendField text "t" "é" " '# x " = some out ∧ removeField out "t" "é" = some text := by
  intro text out
  obtain ⟨found, declared, same⟩ : ∃ found, (read text).table? "t" = some found ∧
      (found.anchor, found.fieldNames, (found.lastField?.bind (·.expression)).map (·.text)) = (19, ["a"], some "1") :=
    Option.map_eq_some_iff.1 (by decide +kernel)
  simp only [Prod.mk.injEq] at same
  obtain ⟨stop, names, defined⟩ := same
  have line : trim (Cursor.ofOffset 19 text.toList).lineAfter = "# c".toList := by decide +kernel
  have room : IsRemark (Cursor.ofOffset found.anchor text.toList).lineAfter := by
    rw [IsRemark, stop, line]
    simp
  have blank : ∀ last e, found.lastField? = some last → last.expression = some e → e.text = "" → '\r' ∉ text.toList := by
    intro last e listed expression empty
    simp [listed, expression, empty] at defined
  have pairs : PairsReturns text.toList := by decide +kernel
  have legal : IsAddition "é" " '# x " := ⟨by simp, by decide +kernel, by decide +kernel⟩
  have fresh : "é" ∉ found.fieldNames := by
    rw [names]
    decide
  have done : appendField text "t" "é" " '# x " = some out := by decide +kernel
  obtain ⟨out', done', removed⟩ := removeField_appendField text "t" "é" " '# x " declared pairs room blank legal fresh
  obtain rfl := Option.some.inj (done.symm.trans done')
  exact ⟨found, declared, pairs, room, legal, fresh, done, removed⟩

end Sheet
end Gridbook
