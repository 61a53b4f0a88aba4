import Gridbook.Proofs.ByteTurns
import Gridbook.Proofs.Cuts
import Gridbook.Proofs.LineStyles
import Gridbook.Proofs.Spans

/-!
Editing a sheet by byte offsets. The edits find their table or field with the reader and cut the text at the offsets of its
ranges, at line ends, and at bytes counted back from them. Every such access is checked. As the ranges of a sheet lie
between characters of its text, each edit ends without a fault and gives the text that the edit of the characters gives.
-/
namespace Gridbook

open Text

namespace ByteEdit

variable (text : List Char)

def newline? (cs : List Char) : Option Nat :=
  match cs.dropWhile Token.inLine with
  | [] => none
  | _ :: _ => some (width (cs.takeWhile Token.inLine))

def lastNewline? (cs : List Char) : Option Nat :=
  match cs.reverse.dropWhile Token.inLine with
  | [] => none
  | _ :: front => some (width front.reverse)

def lineStart (pos : Nat) : Checked Nat := do
  return ((lastNewline? (← sliceAt text 0 pos)).map (· + 1)).getD 0

def lineStop (pos : Nat) : Checked Nat := do
  return ((newline? (← sliceAt text pos (bytes text).length)).map (pos + ·)).getD (bytes text).length

/-- Whether a carriage return stands right before an offset, and not before `low`. -/
def returnsBefore (low pos : Nat) : Checked Bool := do
  if low < pos then return (← byteAt text (← Checked.minus pos 1)) == '\r' else return false

/-- The break of the line that holds an offset, or of the line before it if the text ends there. -/
def lineBreakAt (pos : Nat) : Checked (List Char) := do
  let newline ←
    match newline? (← sliceAt text pos (bytes text).length) with
    | some i => pure (some (pos + i))
    | none => do pure (lastNewline? (← sliceAt text 0 pos))
  match newline with
  | none => return ['\n']
  | some i => return if ← returnsBefore text 0 i then ['\r', '\n'] else ['\n']

/-- The end of the line, before a carriage return, if the rest of the line is blank or a comment. -/
def insertionPoint (pos : Nat) : Checked Nat := do
  let stop ← lineStop text pos
  let rest := trim (← sliceAt text pos stop)
  if rest.isEmpty || rest.head? == some '#' then
    if ← returnsBefore text pos stop then Checked.minus stop 1 else return stop
  else return pos

def replaceSpan (span : Span) (new : List Char) : Checked (List Char) := do
  return (← sliceAt text 0 span.start) ++ new ++ (← sliceAt text span.stop (bytes text).length)

def anchorAt (table : Table) : Checked (Nat × List Char) := do
  match table.lastField? with
  | none => return (table.nameSpan.stop, Sheet.defaultIndent)
  | some last =>
    let indent ← sliceAt text (← lineStart text last.span.start) last.span.start
    return (last.span.stop, if !indent.isEmpty && (trim indent).isEmpty then indent else Sheet.defaultIndent)

/-- Where a line starts, or the break before it, at the end of the text. -/
def breakStart (low : Nat) : Checked Nat := do
  if 0 < low then
    let start ← Checked.minus low 1
    if ← returnsBefore text 0 start then Checked.minus start 1 else return start
  else return low

/-- Cuts out a range, with its lines and a break if it has them for itself. -/
def removeAt (span : Span) : Checked (List Char) := do
  let low ← lineStart text span.start
  let before ← sliceAt text low span.start
  let high ← lineStop text span.stop
  let after ← sliceAt text span.stop high
  if (trim before).isEmpty && (trim after).isEmpty then
    if high < (bytes text).length then replaceSpan text ⟨low, high + 1⟩ []
    else replaceSpan text ⟨← breakStart text low, high⟩ []
  else replaceSpan text ⟨← skipBack text isInlineBlank low span.start, span.stop⟩ []

def appendField (text table field expression : String) : Checked (Option String) := do
  match (← ByteReader.read text).table? table with
  | none => return none
  | some found =>
    let (anchor, indent) ← anchorAt text.toList found
    let pos ← insertionPoint text.toList anchor
    let new := (← lineBreakAt text.toList pos) ++ indent ++ Sheet.declaration field expression
    return some (String.ofList (← replaceSpan text.toList ⟨pos, pos⟩ new))

def setExpression (text table field expression : String) : Checked (Option String) := do
  match (← ByteReader.read text).field? table field with
  | none => return none
  | some found =>
    match found.expression with
    | some old => return some (String.ofList (← replaceSpan text.toList old.span expression.toList))
    | none =>
      let pos := found.nameSpan.stop
      return some (String.ofList (← replaceSpan text.toList ⟨pos, pos⟩ ([' ', '=', ' '] ++ expression.toList)))

def removeField (text table field : String) : Checked (Option String) := do
  match (← ByteReader.read text).field? table field with
  | none => return none
  | some found => return some (String.ofList (← removeAt text.toList found.span))

def renameTable (text table name : String) : Checked (Option String) := do
  match (← ByteReader.read text).table? table with
  | none => return none
  | some found => return some (String.ofList (← replaceSpan text.toList found.nameSpan name.toList))

end ByteEdit

/-! ### Lines -/

namespace Text

variable {before part after line rest : List Char} {c : Char}

theorem isEmpty_trim (cs : List Char) : (trim cs).isEmpty = cs.all isBlank := by
  rw [Bool.eq_iff_iff, List.isEmpty_iff, List.all_eq_true]
  constructor
  · intro empty c member
    by_contra shown
    exact trim_ne_nil member (by simpa using shown) empty
  · intro blank
    simpa [trim, trimStart, trimEnd, dropEndWhile] using trim_run_append (b := []) blank

theorem sliceAt_before (before after : List Char) : sliceAt (before ++ after) 0 (width before) = pure before := by
  simpa using (Ahead.start (before ++ after)).sliceAt

theorem sliceAt_after (before after : List Char) :
    sliceAt (before ++ after) (width before) (bytes (before ++ after)).length = pure after := by
  have ahead : Ahead (before ++ after) (width before) (after ++ []) := ⟨before, by simp, rfl⟩
  simpa using ahead.sliceAt

theorem sliceAt_between (before part after : List Char) :
    sliceAt (before ++ part ++ after) (width before) (width (before ++ part)) = pure part := by
  have ahead : Ahead (before ++ part ++ after) (width before) (part ++ after) := ⟨before, by simp, rfl⟩
  rw [width_append, ahead.sliceAt]

end Text

theorem Sheet.dropBreak_initial (cs : List Char) : dropBreak cs <+: cs := by
  unfold dropBreak
  extract_lets line
  split
  · exact (List.dropLast_prefix line).trans (List.dropLast_prefix cs)
  · exact List.dropLast_prefix cs

theorem Table.Located.lastField {text : List Char} {table : Table} {field : Field} (located : table.Located text)
    (last : table.lastField? = some field) : field.Located text table.name :=
  (located.fields field (List.mem_append_left _ (List.mem_of_getLast? last))).1

/-- A range between characters of a text parts it in three. -/
theorem Span.Within.exists_over {text : List Char} {span : Span} (within : span.Within text) :
    ∃ before part after, text = before ++ (part ++ after) ∧ span = .over before part := by
  obtain ⟨start, stop⟩ := span
  obtain ⟨before, behind, rfl, rfl⟩ := within.startsOn
  obtain ⟨before', after, parts, rfl⟩ := within.stopsOn
  have ordered : width before ≤ width before' := within.ordered
  rcases List.append_eq_append_iff.1 parts with ⟨part, rfl, rfl⟩ | ⟨more, rfl, rfl⟩
  · exact ⟨before, part, after, rfl, by simp [Span.over]⟩
  · have none : more = [] := by
      cases more with
      | nil => rfl
      | cons c more =>
        have := c.utf8Size_pos
        simp at ordered
        omega
    subst none
    exact ⟨before', [], behind, by simp, by simp [Span.over]⟩

namespace ByteEdit

variable {before part after kept line line' rest : List Char}

theorem newline?_inside (inside : ∀ c ∈ line, Token.inLine c = true) : newline? line = none := by
  rw [newline?, List.dropWhile_eq_nil_iff.2 inside]

theorem newline?_append (inside : ∀ c ∈ line, Token.inLine c = true) (rest : List Char) :
    newline? (line ++ '\n' :: rest) = some (width line) := by
  rw [newline?, dropWhile_run inside Token.stops_newline, takeWhile_run inside Token.stops_newline]

theorem lastNewline?_inside (inside : ∀ c ∈ line, Token.inLine c = true) : lastNewline? line = none := by
  rw [lastNewline?, List.dropWhile_eq_nil_iff.2 (by simpa using inside)]

theorem lastNewline?_append (front : List Char) (inside : ∀ c ∈ line, Token.inLine c = true) :
    lastNewline? (front ++ '\n' :: line) = some (width front) := by
  have turned : (front ++ '\n' :: line).reverse = line.reverse ++ '\n' :: front.reverse := by simp
  rw [lastNewline?, turned, dropWhile_run (by simpa using inside) Token.stops_newline]
  simp

theorem lineStart_eq (ends : EndsLine kept) (inside : ∀ c ∈ line, Token.inLine c = true) (after : List Char) :
    lineStart (kept ++ line ++ after) (width (kept ++ line)) = pure (width kept) := by
  rw [lineStart, sliceAt_before, pure_bind]
  by_cases first : kept = []
  · rw [first, List.nil_append, lastNewline?_inside inside]
    rfl
  · obtain ⟨init, rfl⟩ := ends.exists_newline first
    rw [List.append_assoc, List.singleton_append, lastNewline?_append init inside, width_append]
    rfl

theorem lineStop_eq (before : List Char) (inside : ∀ c ∈ line, Token.inLine c = true) (stops : Stops Token.inLine rest) :
    lineStop (before ++ (line ++ rest)) (width before) = pure (width (before ++ line)) := by
  rw [lineStop, sliceAt_after, pure_bind]
  cases rest with
  | nil => rw [List.append_nil, newline?_inside inside, length_bytes]; rfl
  | cons c rest =>
    obtain rfl : c = '\n' := by simpa [Token.inLine] using stops
    rw [newline?_append inside, width_append]
    rfl

/-- The byte before an offset is a carriage return iff the character before it is. -/
theorem returnsBefore_eq {text : List Char} {low : Nat} (ahead : Ahead text low (part ++ after)) :
    returnsBefore text low (low + width part) = pure (part.getLast? == some '\r') := by
  rcases List.eq_nil_or_concat' part with rfl | ⟨init, c, rfl⟩
  · rw [returnsBefore, if_neg (by simp)]
    rfl
  · -- the last byte of the last character
    obtain ⟨more, byte, last⟩ := (List.eq_nil_or_concat' (bytes [c])).resolve_left (bytes_singleton_ne_nil c)
    have size : width (init ++ [c]) = width init + more.length + 1 := by
      rw [← length_bytes, bytes_append, last]
      simp [Nat.add_assoc]
    have there : (bytes text).drop (low + (width init + more.length)) = byte :: bytes after := by
      have front : (bytes init ++ more).length = width init + more.length := by simp
      rw [← List.drop_drop, ahead.drop_bytes, ← front, bytes_append, bytes_append, last]
      simp only [List.append_assoc, List.singleton_append]
      rw [← List.append_assoc, List.drop_left]
    have same : (byte == '\r') = (c == '\r') := (IsByteClass.eq '\r' : IsByteClass _) (by simp [last])
    rw [returnsBefore, if_pos (by omega), Checked.minus_eq (by omega), pure_bind, size, ← Nat.add_assoc,
      Nat.add_sub_cancel, (walk_step there).2.1, pure_bind, same, List.getLast?_concat]
    rfl

theorem returnsBefore_start (before after : List Char) :
    returnsBefore (before ++ after) 0 (width before) = pure (before.getLast? == some '\r') := by
  simpa using returnsBefore_eq (Ahead.start (before ++ after))

theorem lineBreakAt_eq (before after : List Char) :
    lineBreakAt (before ++ after) (width before) = pure (⟨before, after⟩ : Cursor).lineBreak := by
  rw [lineBreakAt, sliceAt_after, pure_bind]
  rcases line_cases after with inside | ⟨line, rest, inside, rfl⟩
  · rw [newline?_inside inside, sliceAt_before]
    have none : after.dropWhile Token.inLine = [] := List.dropWhile_eq_nil_iff.2 inside
    obtain ⟨kept, line, rfl, ends, inside'⟩ := exists_lineBefore before
    by_cases first : kept = []
    · subst first
      have none' : line.reverse.dropWhile Token.inLine = [] := List.dropWhile_eq_nil_iff.2 (by simpa using inside')
      simp [lastNewline?_inside inside', Cursor.lineBreak, none, none']
    · obtain ⟨init, rfl⟩ := ends.exists_newline first
      have turned : (init ++ ['\n'] ++ line).reverse = line.reverse ++ '\n' :: init.reverse := by simp
      have text : init ++ ['\n'] ++ line ++ after = init ++ ('\n' :: line ++ after) := by simp
      have found : lastNewline? (init ++ ['\n'] ++ line) = some (width init) := by
        rw [List.append_assoc, List.singleton_append, lastNewline?_append init inside']
      simp only [pure_bind, found, text, returnsBefore_start, Cursor.lineBreak, none, turned,
        dropWhile_run (a := line.reverse) (by simpa using inside') Token.stops_newline, List.tail_cons, List.head?_reverse,
        beq_iff_eq]
  · have text : before ++ (line ++ '\n' :: rest) = before ++ line ++ '\n' :: rest := by simp
    simp only [newline?_append inside, pure_bind, ← width_append, text, returnsBefore_start,
      Cursor.lineBreak_newline inside, beq_iff_eq]

theorem insertionPoint_eq (before after : List Char) :
    insertionPoint (before ++ after) (width before) = pure (width (⟨before, after⟩ : Cursor).pastRemark.before) := by
  obtain ⟨line, rest, rfl, inside, stops⟩ := exists_line after
  have ahead : Ahead (before ++ (line ++ rest)) (width before) (line ++ rest) := ⟨before, rfl, rfl⟩
  rw [insertionPoint, lineStop_eq before inside stops, pure_bind, width_append, ahead.sliceAt, pure_bind,
    returnsBefore_eq ahead, Cursor.pastRemark, Cursor.lineAfter_eq inside stops]
  have point : (if (line.getLast? == some '\r') = true then Checked.minus (width before + width line) 1
      else return width before + width line) =
      pure (width (before ++ if line.getLast? = some '\r' then line.dropLast else line)) := by
    by_cases ret : line.getLast? = some '\r'
    · obtain ⟨init, rfl⟩ := List.getLast?_eq_some_iff.1 ret
      have one : width (init ++ ['\r']) = width init + 1 := by rw [width_append]; rfl
      rw [if_pos (by simp), if_pos ret, one, Checked.minus_eq (by omega), ← Nat.add_assoc, Nat.add_sub_cancel,
        List.dropLast_concat, width_append]
    · rw [if_neg (by simpa using ret), if_neg ret, width_append]
  cases shown : trim line with
  | nil => simpa using point
  | cons c more =>
    by_cases remark : c = '#'
    · subst remark
      simpa using point
    · simp [remark]

theorem replaceSpan_parts {text : List Char} {start stop : Nat} (parts : text = before ++ (part ++ after))
    (starts : start = width before) (stops : stop = width (before ++ part)) (new : List Char) :
    replaceSpan text ⟨start, stop⟩ new = pure (before ++ (new ++ after)) := by
  subst parts starts stops
  rw [replaceSpan, sliceAt_before, pure_bind, ← List.append_assoc before part, sliceAt_after]
  simp

theorem replaceSpan_within {text : List Char} {span : Span} (within : span.Within text) (new : List Char) :
    replaceSpan text span new = pure (span.replace new text) := by
  obtain ⟨before, part, after, rfl, rfl⟩ := within.exists_over
  rw [Span.replace_over]
  exact replaceSpan_parts rfl rfl (width_append ..).symm new

theorem anchorAt_eq {text : List Char} {found : Table} (located : found.Located text) :
    anchorAt text found = pure (found.anchor, found.indent text) := by
  cases last : found.lastField? with
  | none => simp [anchorAt, Table.anchor, Table.indent, last]
  | some field =>
    obtain ⟨before, part, after, rfl, stands⟩ := (located.lastField last).within.exists_over
    obtain ⟨kept, line, rfl, ends, inside⟩ := exists_lineBefore before
    have start : field.span.start = width (kept ++ line) := by rw [stands, Span.over]
    simp only [anchorAt, last, start, lineStart_eq ends inside, pure_bind, sliceAt_between, isEmpty_trim, Table.anchor,
      Table.indent, Sheet.indentOf, Cursor.ofOffset_width, Cursor.lineBefore_eq ends inside, Option.map_some,
      Option.getD_some]

theorem breakStart_eq (ends : EndsLine kept) (after : List Char) :
    breakStart (kept ++ after) (width kept) = pure (width (Sheet.dropBreak kept)) := by
  by_cases first : kept = []
  · subst first
    rfl
  · obtain ⟨init, rfl⟩ := ends.exists_newline first
    have size : width (init ++ ['\n']) = width init + 1 := by rw [width_append]; rfl
    rw [breakStart, size, if_pos (by omega), Checked.minus_eq (by omega), pure_bind, Nat.add_sub_cancel,
      List.append_assoc, returnsBefore_start, pure_bind, Sheet.dropBreak_concat]
    by_cases ret : init.getLast? = some '\r'
    · obtain ⟨line, rfl⟩ := List.getLast?_eq_some_iff.1 ret
      have one : width (line ++ ['\r']) = width line + 1 := by rw [width_append]; rfl
      rw [if_pos (by simp), if_pos ret, one, Checked.minus_eq (by omega), Nat.add_sub_cancel, List.dropLast_concat]
    · rw [if_neg (by simpa using ret), if_neg ret]

/-- At the end of the text the break before the line goes. -/
theorem replaceSpan_last (ends : EndsLine kept) (more : List Char) :
    (do replaceSpan (kept ++ more) ⟨← breakStart (kept ++ more) (width kept), width (kept ++ more)⟩ []) =
      pure (Sheet.dropBreak kept) := by
  obtain ⟨taken, parts⟩ := Sheet.dropBreak_initial kept
  have whole : kept ++ more = Sheet.dropBreak kept ++ ((taken ++ more) ++ []) := by
    rw [List.append_nil, ← List.append_assoc, parts]
  rw [breakStart_eq ends, pure_bind, replaceSpan_parts whole rfl (by rw [whole, List.append_nil]), List.append_nil,
    List.append_nil]

/-- On a line that is shared the blanks before the range go, but not the line before. -/
theorem replaceSpan_shared (ends : EndsLine kept) (line part after : List Char) :
    (do replaceSpan (kept ++ line ++ (part ++ after))
          ⟨← skipBack (kept ++ line ++ (part ++ after)) isInlineBlank (width kept) (width (kept ++ line)),
            width (kept ++ line ++ part)⟩ []) =
      pure (dropEndWhile isInlineBlank (kept ++ line) ++ after) := by
  have solid : Stops isInlineBlank kept.reverse := by
    intro c last
    rw [List.head?_reverse] at last
    rw [ends c last]
    rfl
  have ahead : Ahead (kept ++ line ++ (part ++ after)) (width kept) (line ++ (part ++ after)) := ⟨kept, by simp, rfl⟩
  obtain ⟨run, parts, -⟩ := exists_run_dropEndWhile isInlineBlank line
  have front : kept ++ line = kept ++ dropEndWhile isInlineBlank line ++ run := by rw [List.append_assoc, ← parts]
  have whole : kept ++ line ++ (part ++ after) =
      (kept ++ dropEndWhile isInlineBlank line) ++ ((run ++ part) ++ after) := by
    rw [front]
    simp
  have back : skipBack (kept ++ line ++ (part ++ after)) isInlineBlank (width kept) (width (kept ++ line)) =
      pure (width (kept ++ dropEndWhile isInlineBlank line)) := by
    rw [width_append kept line, ahead.skipBack IsByteClass.isInlineBlank, width_append]
  rw [back, pure_bind, replaceSpan_parts whole rfl (by rw [front, List.append_assoc _ run]), dropEndWhile_append solid,
    List.nil_append]

theorem removeAt_eq {text : List Char} {span : Span} (within : span.Within text) :
    removeAt text span = pure (Sheet.removeSpan span text) := by
  obtain ⟨before, part, after, rfl, rfl⟩ := within.exists_over
  obtain ⟨kept, line, rfl, ends, inside⟩ := exists_lineBefore before
  obtain ⟨line', rest, rfl, inside', stops⟩ := exists_line after
  have span : Span.over (kept ++ line) part = ⟨width (kept ++ line), width (kept ++ line ++ part)⟩ := by
    rw [Span.over, width_append _ part]
  have regroup : kept ++ line ++ (part ++ (line' ++ rest)) = kept ++ line ++ part ++ (line' ++ rest) := by simp
  have high : lineStop (kept ++ line ++ (part ++ (line' ++ rest))) (width (kept ++ line ++ part)) =
      pure (width (kept ++ line ++ part ++ line')) := by
    rw [regroup, lineStop_eq _ inside' stops]
  have behind : sliceAt (kept ++ line ++ (part ++ (line' ++ rest))) (width (kept ++ line ++ part))
      (width (kept ++ line ++ part ++ line')) = pure line' := by
    rw [regroup, ← List.append_assoc _ line', sliceAt_between]
  rw [Sheet.removeSpan_eq ends inside inside' stops, span, removeAt]
  simp only [lineStart_eq ends inside, pure_bind, sliceAt_between, high, behind, isEmpty_trim]
  by_cases alone : (line.all isBlank && line'.all isBlank) = true
  · rw [if_pos alone, if_pos alone]
    cases rest with
    | nil =>
      have whole : kept ++ line ++ (part ++ (line' ++ [])) = kept ++ (line ++ part ++ line') := by simp
      have stop : width (kept ++ line ++ part ++ line') = width (kept ++ (line ++ part ++ line')) := by simp
      rw [if_neg (by simp), if_pos rfl, whole, stop, replaceSpan_last ends]
    | cons c rest =>
      obtain rfl : c = '\n' := by simpa [Token.inLine] using stops
      have whole : kept ++ line ++ (part ++ (line' ++ '\n' :: rest)) =
          kept ++ ((line ++ part ++ line' ++ ['\n']) ++ rest) := by simp
      have one : Char.utf8Size '\n' = 1 := rfl
      have stop : width (kept ++ line ++ part ++ line') + 1 = width (kept ++ (line ++ part ++ line' ++ ['\n'])) := by
        simp [one, Nat.add_assoc]
      have inner : width (kept ++ line ++ part ++ line') <
          (bytes (kept ++ line ++ (part ++ (line' ++ '\n' :: rest)))).length := by
        rw [length_bytes, regroup, ← List.append_assoc _ line', width_append _ ('\n' :: rest), width_cons, one]
        omega
      rw [if_pos inner, if_neg (by simp), replaceSpan_parts whole rfl stop]
      rfl
  · rw [if_neg alone, if_neg alone, replaceSpan_shared ends]

end ByteEdit

/-! ### Edits -/

theorem Sheet.located_of_table? {text : String} {name : String} {found : Table}
    (declared : (read text).table? name = some found) : found.Located text.toList := by
  obtain ⟨offset, -, valid⟩ := Draft.invariant_ofChars text.toList
  exact (valid.tables found (List.mem_of_find?_eq_some declared)).1

theorem Sheet.located_of_field? {text : String} {table name : String} {found : Field}
    (declared : (read text).field? table name = some found) : found.Located text.toList table := by
  obtain ⟨owner, opened, inside⟩ := Option.bind_eq_some_iff.1 declared
  have named : owner.name = table := by simpa using List.find?_some opened
  have member : found ∈ owner.fields := List.mem_of_find?_eq_some inside
  have located := ((located_of_table? opened).fields found (by simp [member])).1
  rwa [named] at located

namespace ByteEdit

theorem appendField_eq (text table field expression : String) :
    appendField text table field expression = pure (Sheet.appendField text table field expression) := by
  rw [appendField, ByteReader.read_eq, pure_bind]
  cases declared : (Sheet.read text).table? table with
  | none => simp [Sheet.appendField, declared]
  | some found =>
    have located := Sheet.located_of_table? declared
    have boundary : IsBoundary text.toList found.anchor := by
      cases last : found.lastField? with
      | none => simpa [Table.anchor, last] using located.nameWithin.stopsOn
      | some field =>
        simpa [Table.anchor, last] using (located.lastField last).within.stopsOn
    obtain ⟨before, after, parts, stands⟩ := boundary
    have whole := (⟨before, after⟩ : Cursor).pastRemark_append
    rw [Sheet.appendField_eq declared]
    simp only [anchorAt_eq located, pure_bind]
    rw [parts, ← stands, insertionPoint_eq, pure_bind, Cursor.ofOffset_width]
    generalize (⟨before, after⟩ : Cursor).pastRemark = cursor at whole ⊢
    have inserted (new : List Char) : replaceSpan (cursor.before ++ cursor.after)
        ⟨width cursor.before, width cursor.before⟩ new = pure (cursor.insert new) := by
      have parts : cursor.before ++ cursor.after = cursor.before ++ ([] ++ cursor.after) := rfl
      rw [replaceSpan_parts parts rfl (by simp), Cursor.insert, List.append_assoc]
    rw [← whole, lineBreakAt_eq, pure_bind, inserted, pure_bind]

theorem setExpression_eq (text table field expression : String) :
    setExpression text table field expression = pure (Sheet.setExpression text table field expression) := by
  rw [setExpression, ByteReader.read_eq, pure_bind]
  cases declared : (Sheet.read text).field? table field with
  | none => simp [Sheet.setExpression, declared]
  | some found =>
    have located := Sheet.located_of_field? declared
    cases defined : found.expression with
    | none =>
      have within : (⟨found.nameSpan.stop, found.nameSpan.stop⟩ : Span).Within text.toList :=
        ⟨Nat.le_refl _, located.nameWithin.bounded, located.nameWithin.stopsOn, located.nameWithin.stopsOn⟩
      simp [Sheet.setExpression, declared, defined, replaceSpan_within within]
    | some old =>
      have within := (located.expression old defined).1.within
      simp [Sheet.setExpression, declared, defined, replaceSpan_within within]

theorem removeField_eq (text table field : String) :
    removeField text table field = pure (Sheet.removeField text table field) := by
  rw [removeField, ByteReader.read_eq, pure_bind]
  cases declared : (Sheet.read text).field? table field with
  | none => simp [Sheet.removeField, declared]
  | some found => simp [Sheet.removeField, declared, removeAt_eq (Sheet.located_of_field? declared).within]

theorem renameTable_eq (text table name : String) :
    renameTable text table name = pure (Sheet.renameTable text table name) := by
  rw [renameTable, ByteReader.read_eq, pure_bind]
  cases declared : (Sheet.read text).table? table with
  | none => simp [Sheet.renameTable, declared]
  | some found =>
    simp [Sheet.renameTable, declared, replaceSpan_within (Sheet.located_of_table? declared).nameWithin]

/-- Reading and editing end without a fault for every text and every argument. Each turn of the reader starts between
characters and goes on only forward. With every byte, range and difference checked, the sheet and the edited texts are
those of the reader and the edits of characters. -/
theorem faultless (text table field expression name : String) :
    (∀ reader, ByteReader.Reached text.toList reader → IsBoundary text.toList reader.pos ∧
      ∃ goesOn next, ByteReader.turn text.toList reader = pure (goesOn, next) ∧
        (goesOn = true → reader.pos < next.pos)) ∧
    ByteReader.read text = pure (Sheet.read text) ∧
    appendField text table field expression = pure (Sheet.appendField text table field expression) ∧
    setExpression text table field expression = pure (Sheet.setExpression text table field expression) ∧
    removeField text table field = pure (Sheet.removeField text table field) ∧
    renameTable text table name = pure (Sheet.renameTable text table name) := by
  refine ⟨fun reader reached => ⟨reached.isBoundary, ?_⟩, ByteReader.read_eq text, appendField_eq .., setExpression_eq ..,
    removeField_eq .., renameTable_eq ..⟩
  obtain ⟨goesOn, next, turned, forward⟩ := ByteReader.turn_advances reached.isBoundary
  exact ⟨goesOn, next, turned, fun more => (forward more).1⟩

end ByteEdit
end Gridbook
