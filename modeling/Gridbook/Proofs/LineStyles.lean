import Gridbook.Proofs.Restoring
import Gridbook.Proofs.SharedLines

/-!
Line breaks of one kind. A text that ends its lines with line feeds alone gets only such lines when a field is appended to
a table. A text that ends them with pairs of a carriage return and a line feed gets such a line as well, but where the last
field is defined by nothing, the blank of its expression takes in the carriage return, and the new line is put between the
two characters.
-/
namespace Gridbook

open Text

/-- Every line break is a carriage return and a line feed, and neither stands without the other. -/
structure Text.IsPaired (text : List Char) : Prop where
  returns : PairsReturns text
  feeds : ∀ i, text[i]? = some '\n' → 0 < i ∧ text[i - 1]? = some '\r'

namespace Text

variable {a b text : List Char}

instance : Decidable (IsPaired text) :=
  decidable_of_iff (PairsReturns text ∧ ∀ i < text.length, text[i]? = some '\n' → 0 < i ∧ text[i - 1]? = some '\r')
    ⟨fun ⟨returns, feeds⟩ => ⟨returns, fun i found => feeds i (List.getElem?_eq_some_iff.1 found).1 found⟩,
      fun paired => ⟨paired.returns, fun i _ => paired.feeds i⟩⟩

theorem PairsReturns.head? (pairs : PairsReturns (a ++ '\r' :: b)) : b.head? = some '\n' := by
  simpa [List.getElem?_append_right, List.head?_eq_getElem?] using pairs a.length (by simp)

namespace IsPaired

theorem getLast? (paired : IsPaired (a ++ '\n' :: b)) : a.getLast? = some '\r' := by
  obtain ⟨filled, last⟩ := paired.feeds a.length (by simp)
  rwa [List.getElem?_append_left (by omega), ← List.getLast?_eq_getElem?] at last

theorem append (first : IsPaired a) (second : IsPaired b) : IsPaired (a ++ b) := by
  refine ⟨fun i found => ?_, fun i found => ?_⟩
  · rcases Nat.lt_or_ge i a.length with inside | behind
    · rw [List.getElem?_append_left inside] at found
      have next := first.returns i found
      rwa [List.getElem?_append_left (List.getElem?_eq_some_iff.1 next).1]
    · rw [List.getElem?_append_right behind] at found
      rw [List.getElem?_append_right (by omega), Nat.sub_add_comm behind]
      exact second.returns _ found
  · rcases Nat.lt_or_ge i a.length with inside | behind
    · rw [List.getElem?_append_left inside] at found
      rw [List.getElem?_append_left (by omega)]
      exact first.feeds i found
    · rw [List.getElem?_append_right behind] at found
      obtain ⟨later, last⟩ := second.feeds _ found
      rw [List.getElem?_append_right (by omega), Nat.sub_right_comm]
      exact ⟨by omega, last⟩

/-- A text is cut into two such texts anywhere but between the two characters of a break. -/
theorem of_append (paired : IsPaired (a ++ b)) (cut : a.getLast? ≠ some '\r') : IsPaired a ∧ IsPaired b := by
  refine ⟨⟨fun i found => ?_, fun i found => ?_⟩, fun i found => ?_, fun i found => ?_⟩
  · have inside := (List.getElem?_eq_some_iff.1 found).1
    have next := paired.returns i (by rwa [List.getElem?_append_left inside])
    rcases Nat.lt_or_eq_of_le (Nat.succ_le_of_lt inside) with before | last
    · rwa [List.getElem?_append_left before] at next
    · rw [List.getLast?_eq_getElem?, ← last] at cut
      exact absurd found cut
  · have inside := (List.getElem?_eq_some_iff.1 found).1
    have last := paired.feeds i (by rwa [List.getElem?_append_left inside])
    rwa [List.getElem?_append_left (by omega)] at last
  · have next := paired.returns (a.length + i) (by rwa [List.getElem?_append_right (by omega), Nat.add_sub_cancel_left])
    rwa [List.getElem?_append_right (by omega), Nat.add_assoc, Nat.add_sub_cancel_left] at next
  · have last := paired.feeds (a.length + i) (by rwa [List.getElem?_append_right (by omega), Nat.add_sub_cancel_left])
    rcases Nat.eq_zero_or_pos i with rfl | later
    · rw [List.getLast?_eq_getElem?] at cut
      have inside : a.length - 1 < a.length := by omega
      rw [Nat.add_zero, List.getElem?_append_left inside] at last
      exact absurd last.2 cut
    · rw [List.getElem?_append_right (by omega), Nat.add_sub_assoc later, Nat.add_sub_cancel_left] at last
      exact ⟨later, last.2⟩

end IsPaired

theorem isPaired_plain (plain : ∀ c ∈ text, c ≠ '\r' ∧ c ≠ '\n') : IsPaired text :=
  ⟨fun _ found => absurd rfl (plain _ (List.mem_of_getElem? found)).1,
    fun _ found => absurd rfl (plain _ (List.mem_of_getElem? found)).2⟩

end Text

namespace Cursor

variable {cursor : Cursor}

@[simp] theorem before_append_after (offset : Nat) (text : List Char) :
    (ofOffset offset text).before ++ (ofOffset offset text).after = text := by
  unfold ofOffset
  fun_induction cut offset text with simp_all

theorem lineBreak_paired (paired : IsPaired (cursor.before ++ cursor.after)) (broken : '\n' ∈ cursor.before ++ cursor.after) :
    cursor.lineBreak = ['\r', '\n'] := by
  obtain ⟨before, after⟩ := cursor
  obtain ⟨line, rest, rfl, inside, ends⟩ := exists_line after
  cases rest with
  | cons c rest =>
    obtain rfl : c = '\n' := by simpa [Token.inLine] using ends
    dsimp only at paired
    rw [← List.append_assoc] at paired
    rw [lineBreak_newline inside, if_pos paired.getLast?]
  | nil =>
    -- The text ends on this line, and the break before it counts.
    obtain ⟨back, front, same, inside', ends'⟩ := exists_line before.reverse
    have spell : before = front.reverse ++ back.reverse := by rw [← List.reverse_append, ← same, List.reverse_reverse]
    have unbroken : '\n' ∉ back ++ line := fun member =>
      absurd (List.forall_mem_append.2 ⟨inside', inside⟩ _ member) (by decide)
    cases front with
    | nil => simp_all
    | cons c front =>
      obtain rfl : c = '\n' := by simpa [Token.inLine] using ends'
      have returned : front.head? = some '\r' := by
        rw [← List.getLast?_reverse]
        refine IsPaired.getLast? (b := back.reverse ++ line) ?_
        simpa [spell] using paired
      have last : line.dropWhile Token.inLine = [] := by simpa using inside
      simp [lineBreak, last, same, dropWhile_run inside' Token.stops_newline, returned]

theorem lineBreak_unpaired (free : '\r' ∉ cursor.before ++ cursor.after) : cursor.lineBreak = ['\n'] := by
  unfold lineBreak
  extract_lets upToBreak
  have within : upToBreak ⊆ cursor.before ++ cursor.after := by
    intro c member
    simp only [upToBreak] at member
    split at member
    · rcases List.mem_append.1 (List.mem_reverse.1 member) with before | line
      · exact List.mem_append_left _ before
      · exact List.mem_append_right _ ((List.takeWhile_prefix _).subset line)
    · have before := (List.dropWhile_suffix _).subset (List.mem_of_mem_tail member)
      exact List.mem_append_left _ (List.mem_reverse.1 before)
  exact if_neg fun first => free (within (List.mem_of_head? first))

/-- How far the cursor goes: not past a break, and not right behind a carriage return that ends the line. -/
theorem exists_kept_pastRemark (cursor : Cursor) :
    ∃ kept rest, cursor.after = kept ++ rest ∧ cursor.pastRemark = ⟨cursor.before ++ kept, rest⟩ ∧
      (∀ c ∈ kept, Token.inLine c = true) ∧ (kept.getLast? = some '\r' → rest.head? = some '\r') := by
  by_cases quiet : IsRemark cursor.lineAfter
  · obtain ⟨before, after⟩ := cursor
    obtain ⟨line, rest, rfl, inside, ends⟩ := exists_line after
    rw [lineAfter_eq inside ends] at quiet
    obtain ⟨kept, ret, short, unreturned, rfl, past⟩ := exists_pastRemark before quiet inside ends
    refine ⟨kept, ret ++ rest, by simp, past, fun c member => inside c (by simp [member]), fun last => ?_⟩
    rcases short with rfl | rfl
    · exact absurd last (unreturned rfl)
    · rfl
  · exact ⟨[], cursor.after, rfl, by simp [Sheet.pastRemark_shared quiet], by simp, by simp⟩

theorem pastRemark_append (cursor : Cursor) :
    cursor.pastRemark.before ++ cursor.pastRemark.after = cursor.before ++ cursor.after := by
  obtain ⟨kept, rest, after, past, -⟩ := cursor.exists_kept_pastRemark
  simp [past, after]

theorem getLast?_pastRemark (paired : IsPaired (cursor.before ++ cursor.after)) :
    cursor.pastRemark.before.getLast? = some '\r' ↔ cursor.before.getLast? = some '\r' := by
  obtain ⟨kept, rest, after, past, inside, between⟩ := cursor.exists_kept_pastRemark
  rw [past]
  constructor
  · intro last
    cases same : kept.getLast? with
    | none => simpa [List.getLast?_append, same] using last
    | some c =>
      obtain rfl : c = '\r' := by simpa [List.getLast?_append, same] using last
      obtain ⟨more, rfl⟩ := List.head?_eq_some_iff.1 (between same)
      obtain ⟨front, rfl⟩ := List.getLast?_eq_some_iff.1 same
      -- The cursor would stand between two carriage returns.
      rw [after, List.append_assoc, ← List.append_assoc] at paired
      exact absurd paired.returns.head? (by simp)
  · intro last
    obtain ⟨front, same⟩ := List.getLast?_eq_some_iff.1 last
    rw [same, List.append_assoc, List.singleton_append, after] at paired
    have next := paired.returns.head?
    cases kept with
    | nil => simpa using last
    | cons c kept =>
      obtain rfl : c = '\n' := by simpa using next
      exact absurd (inside '\n' (by simp)) (by decide)

end Cursor

/-- The last field is defined by nothing, and the line feed stands right behind that. -/
def Table.EndsBlank (table : Table) (text : List Char) : Prop :=
  (∃ last e, table.lastField? = some last ∧ last.expression = some e ∧ e.text = "") ∧
    (Cursor.ofOffset table.anchor text).after.head? = some '\n'

namespace Sheet

section

variable {text : List Char} {name : String} {found : Table}

/-- A field, with the modifiers before it, does not start with a blank. -/
theorem exists_start {i : Nat} {field : Field} (declared : (ofChars text).table? name = some found)
    (listed : found.fields[i]? = some field) :
    ∃ before c after, text = before ++ c :: after ∧ field.span.start = width before ∧ isAsciiBlank c = false := by
  obtain ⟨front, gap, word, definition, rest, old, rfl, leads, -, -, -, rfl⟩ := exists_field declared listed
  obtain ⟨done, waiting, rfl, -, -, -, -, start⟩ := Draft.exists_waiting front
  obtain ⟨item, more, first, lead⟩ : ∃ item more, waiting ++ [⟨gap, .field word definition⟩] = item :: more ∧
      (waiting.head?.map (·.gap)).getD gap = item.gap := by
    cases waiting with
    | nil => exact ⟨_, _, rfl, rfl⟩
    | cons item waiting => exact ⟨_, _, rfl, rfl⟩
  rw [List.append_assoc, first] at leads
  obtain ⟨-, -, wellFormed, -⟩ := Item.leads_append.1 leads
  obtain ⟨c, cs, same, shown⟩ := wellFormed.exists_cons
  refine ⟨Item.texts done ++ item.gap, c, cs ++ (Item.texts more ++ rest), ?_, ?_, shown⟩
  · rw [List.append_assoc, first]
    simp [same]
  · rw [Draft.span_declare, start, lead]

theorem indent_plain (declared : (ofChars text).table? name = some found) (pairs : PairsReturns text) :
    ∀ c ∈ found.indent text, c ≠ '\r' ∧ c ≠ '\n' := by
  cases last : found.lastField? with
  | none => simp [Table.indent, last, defaultIndent]
  | some field =>
    have listed := last
    rw [Table.lastField?, List.getLast?_eq_getElem?] at listed
    obtain ⟨before, c, after, rfl, start, shown⟩ := exists_start declared listed
    obtain ⟨kept, line, rfl, ends, inside⟩ := exists_lineBefore before
    have newline : '\n' ∉ line := fun member => absurd (inside '\n' member) (by decide)
    -- The line feed of a carriage return before the field would stand before it too, or start it.
    have return' : '\r' ∉ line := by
      intro member
      obtain ⟨front, back, rfl⟩ := List.append_of_mem member
      rw [List.append_assoc, List.append_assoc, List.cons_append, ← List.append_assoc] at pairs
      have next := pairs.head?
      cases back with
      | nil =>
        obtain rfl : c = '\n' := by simpa using next
        exact absurd shown (by decide)
      | cons d back =>
        obtain rfl : d = '\n' := by simpa using next
        simp at newline
    rw [Table.indent, last, Option.map_some, Option.getD_some, indentOf, start, Cursor.ofOffset_width,
      Cursor.lineBefore_eq ends inside]
    split
    · exact fun d member => ⟨fun same => return' (same ▸ member), fun same => newline (same ▸ member)⟩
    · simp [defaultIndent]

/-- In a text of pairs, a table takes another field right behind a carriage return if its last field is defined by nothing
on the rest of its line. -/
theorem getLast?_anchor_iff (declared : (ofChars text).table? name = some found) (paired : IsPaired text) :
    (Cursor.ofOffset found.anchor text).before.getLast? = some '\r' ↔ found.EndsBlank text := by
  have parts := Cursor.before_append_after found.anchor text
  constructor
  · intro last
    obtain ⟨front, same⟩ := List.getLast?_eq_some_iff.1 last
    rw [← parts, same, List.append_assoc, List.singleton_append] at paired
    by_contra other
    refine getLast?_anchor declared (fun field e listed defined blank => ?_) last
    exact absurd ⟨⟨field, e, listed, defined, blank⟩, paired.returns.head?⟩ other
  · rintro ⟨-, next⟩
    obtain ⟨more, same⟩ := List.head?_eq_some_iff.1 next
    rw [← parts, same] at paired
    exact paired.getLast?

end

variable {field expression : String}

theorem declaration_plain (plain : ∀ c ∈ field.toList ++ expression.toList, c ≠ '\r' ∧ c ≠ '\n') :
    ∀ c ∈ declaration field expression, c ≠ '\r' ∧ c ≠ '\n' := by
  obtain ⟨name, body⟩ := List.forall_mem_append.1 plain
  have bracketed : ∀ c ∈ (FieldKey.mk "" field).bracketed.toList, c ≠ '\r' ∧ c ≠ '\n' := by
    simpa [FieldKey.bracketed, or_imp, forall_and] using name
  unfold declaration
  extract_lets name
  split
  · exact bracketed
  · exact List.forall_mem_append.2 ⟨List.forall_mem_append.2 ⟨bracketed, by simp⟩, body⟩

/-- A field that is appended leaves a text without carriage returns without them. A text whose line breaks are all pairs of
a carriage return and a line feed stays one unless the last field of the table is defined by nothing; then the new line
parts a carriage return from its line feed. -/
theorem appendField_lineStyle (text table field expression : String) {found : Table}
    (declared : (read text).table? table = some found)
    (plain : ∀ c ∈ field.toList ++ expression.toList, c ≠ '\r' ∧ c ≠ '\n') :
    ∃ out, appendField text table field expression = some out ∧
      ('\n' ∈ text.toList → IsPaired text.toList → (IsPaired out.toList ↔ ¬found.EndsBlank text.toList)) ∧
      ('\r' ∉ text.toList → '\r' ∉ out.toList) := by
  have done := appendField_eq declared field expression
  dsimp only at done
  rw [List.append_assoc] at done
  have parts := (Cursor.pastRemark_append _).trans (Cursor.before_append_after found.anchor text.toList)
  have line (pairs : PairsReturns text.toList) :
      ∀ c ∈ found.indent text.toList ++ declaration field expression, c ≠ '\r' ∧ c ≠ '\n' :=
    List.forall_mem_append.2 ⟨indent_plain declared pairs, declaration_plain plain⟩
  refine ⟨_, done, fun broken paired => ?_, fun free => ?_⟩
  · have ends : (Cursor.ofOffset found.anchor text.toList).pastRemark.before.getLast? = some '\r' ↔
        found.EndsBlank text.toList := by
      rw [Cursor.getLast?_pastRemark (by simpa using paired)]
      exact getLast?_anchor_iff declared paired
    rw [← ends, String.toList_ofList, Cursor.insert]
    generalize (Cursor.ofOffset found.anchor text.toList).pastRemark = cursor at parts
    rw [Cursor.lineBreak_paired (parts ▸ paired) (parts ▸ broken)]
    rw [← parts] at paired
    constructor
    · intro kept last
      obtain ⟨front, same⟩ := List.getLast?_eq_some_iff.1 last
      rw [same, List.append_assoc, List.append_assoc] at kept
      exact absurd kept.returns.head? (by simp)
    · intro apart
      obtain ⟨before, after⟩ := paired.of_append apart
      exact (before.append (.append (by decide) (isPaired_plain (line (parts ▸ paired.returns))))).append after
  · have pairs : PairsReturns text.toList := fun _ found => absurd (List.mem_of_getElem? found) free
    rw [String.toList_ofList, Cursor.insert, Cursor.lineBreak_unpaired (parts.symm ▸ free)]
    have added : '\r' ∉ found.indent text.toList ++ declaration field expression := fun member =>
      (line pairs '\r' member).1 rfl
    rw [← parts, List.mem_append, not_or] at free
    simpa [free] using added

/-- The last field is defined by nothing but a comment, behind which the line ends, and is indented by a wide blank. -/
theorem appendField_lineStyle_commented :
    let text := "table t\r\n\u3000[a] = # c\r\ntable u"
    let out := "table t\r\n\u3000[a] = # c\r\n\u3000[é] = '1\r\ntable u"
    ∃ found, (read text).table? "t" = some found ∧ (∀ c ∈ "é".toList ++ "'1".toList, c ≠ '\r' ∧ c ≠ '\n') ∧
      '\n' ∈ text.toList ∧ IsPaired text.toList ∧ ¬found.EndsBlank text.toList ∧
      appendField text "t" "é" "'1" = some out ∧ IsPaired out.toList := by
  intro text out
  obtain ⟨found, declared, stop⟩ : ∃ found, (read text).table? "t" = some found ∧ found.anchor = 18 :=
    Option.map_eq_some_iff.1 (by decide +kernel)
  have plain : ∀ c ∈ "é".toList ++ "'1".toList, c ≠ '\r' ∧ c ≠ '\n' := by simp
  have broken : '\n' ∈ text.toList := by decide +kernel
  have paired : IsPaired text.toList := by decide +kernel
  have behind : (Cursor.ofOffset 18 text.toList).after.head? = some '#' := by decide +kernel
  have other : ¬found.EndsBlank text.toList := by
    rintro ⟨-, next⟩
    rw [stop, behind] at next
    exact absurd next (by decide)
  have done : appendField text "t" "é" "'1" = some out := by decide +kernel
  obtain ⟨out', done', kept, -⟩ := appendField_lineStyle text "t" "é" "'1" declared plain
  obtain rfl := Option.some.inj (done.symm.trans done')
  exact ⟨found, declared, plain, broken, paired, other, done, (kept broken paired).2 other⟩

/-- The new line stands before the line feed of the old one, whose carriage return is doubled. -/
theorem appendField_parts_pair :
    let text := "table t\r\n[a] =\r\n"
    let out := "table t\r\n[a] =\r\r\n  [b] = 1\n"
    '\n' ∈ text.toList ∧ IsPaired text.toList ∧ (∀ c ∈ "b".toList ++ "1".toList, c ≠ '\r' ∧ c ≠ '\n') ∧
      appendField text "t" "b" "1" = some out ∧ ¬IsPaired out.toList :=
  ⟨by decide +kernel, by decide +kernel, by simp, by decide +kernel, by decide +kernel⟩

end Sheet
end Gridbook
