import Gridbook.Proofs.BlockBodies

/-!
Comments on lines of their own. Such a line says nothing wherever it is put in, unless it comes into the arguments of a
decorator: between tokens it is one more token that does nothing, behind a name that is not closed nothing is read any
more, and among the lines of a block it becomes a part of the block and of nothing else.
-/
namespace Gridbook

open Text

theorem Problem.startsWith_unterminatedArguments (decorator : String) :
    (Problem.unclosedArguments decorator).message.startsWith "unterminated arguments" = true := by
  rw [String.startsWith_string_iff]
  unfold message
  simp

theorem Keyword.ofWord?_mark (word : List Char) : Keyword.ofWord? ('#' :: word) = none := by
  refine List.find?_eq_none.2 fun keyword _ => ?_
  rcases keyword with _ | _ | _ | (_ | _) | _ <;> simp [Keyword.word, BlockKind.word]

/-- Nothing is dropped from the end past a character outside the class. -/
theorem Text.dropEndWhile_append_cons {p : Char → Bool} {c : Char} (outside : p c = false) (a b : List Char) :
    dropEndWhile p (a ++ c :: b) = a ++ c :: dropEndWhile p b := by
  have stops : Stops p (c :: a.reverse) := by simpa using outside
  have reversed : (a ++ c :: b).reverse = b.reverse ++ c :: a.reverse := by simp
  simp only [dropEndWhile, reversed, (takeWhile_append_stops stops).2]
  simp

namespace Token

variable {remark : List Char}

/-- A comment does not end a block. -/
theorem endsBlock_comment (remark : List Char) : endsBlock ('#' :: remark) = false := by
  have start : trimStart ('#' :: remark) = '#' :: remark := dropWhile_of_stops (by simp; decide)
  have word : firstWord ('#' :: remark) = '#' :: remark.takeWhile (!isBlank ·) := by
    rw [firstWord, start, List.takeWhile_cons_of_pos (by decide)]
  rw [endsBlock_eq, start, word, Keyword.ofWord?_mark]
  rfl

theorem goesOn_comment {lines : List Char} (inside : ∀ c ∈ remark, inLine c = true) (start : Stops inLine lines)
    (goesOn : GoesOn lines) : GoesOn ('\n' :: '#' :: (remark ++ lines)) := by
  have line : ∀ c ∈ '#' :: remark, inLine c = true := List.forall_mem_cons.2 ⟨by decide, inside⟩
  rw [← List.cons_append, goesOn_newline, takeWhile_run line start, goesOn_line_append line]
  exact ⟨endsBlock_comment remark, goesOn⟩

theorem ofChars_comment (inside : ∀ c ∈ remark, inLine c = true) (rest : List Char) :
    ofChars ('#' :: (remark ++ '\n' :: rest)) = comment remark :: ofChars rest := by
  have line : (comment remark).WellFormed := inside
  exact ofChars_line line (by simp [isBlock])

end Token

def Text.withComment (front remark back : List Char) : List Char := front ++ '#' :: (remark ++ '\n' :: back)

namespace Item

variable {front last remark back : List Char} {items : List Item}

/-- Between tokens a comment line is a token of its own. -/
theorem foldl_comment_blank (blank : ∀ c ∈ last, isAsciiBlank c = true)
    (further : ∀ more, read (front ++ more) = items ++ read (last ++ more)) (inside : ∀ c ∈ remark, Token.inLine c = true) :
    (Token.ofChars (withComment front remark back)).foldl DraftOutline.step {} =
      (Token.ofChars (front ++ back)).foldl DraftOutline.step {} := by
  have tokens (more : List Char) : Token.ofChars (front ++ more) = items.map (·.token) ++ Token.ofChars more := by
    rw [← Token.ofChars_run_append blank more, Token.ofChars, further, List.map_append]
    rfl
  rw [withComment, tokens, tokens, Token.ofChars_comment inside, List.foldl_append, List.foldl_append]
  rfl

/-- Nothing is read behind a name that is not closed. -/
theorem foldl_comment_opened {gap text : List Char} {problem : Problem} (blank : ∀ c ∈ gap, isAsciiBlank c = true)
    (opens : ∀ more, Token.IsOpen problem (text ++ more))
    (further : ∀ more, read (front ++ more) = items ++ read (gap ++ text ++ more)) :
    (Token.ofChars (withComment front remark back)).foldl DraftOutline.step {} =
      (Token.ofChars (front ++ back)).foldl DraftOutline.step {} := by
  have tokens (more : List Char) :
      Token.ofChars (front ++ more) = items.map (·.token) ++ [.unclosed problem (text ++ more)] := by
    rw [Token.ofChars, further, List.append_assoc, read_open blank (opens more), List.map_append]
    rfl
  rw [withComment, tokens, tokens, List.foldl_append, List.foldl_append]
  rfl

/-- Among the lines of a block a comment line is one more line of the block. -/
theorem read_comment_block {gap lines : List Char} (kind : BlockKind) (blank : ∀ c ∈ gap, isAsciiBlank c = true)
    (start : Stops (!Token.isWordEnd ·) lines) (goesOn : Token.GoesOn lines)
    (inside : ∀ c ∈ remark, Token.inLine c = true) (back : List Char) :
    ∃ kept body back₁ back₂,
      read (gap ++ (kind.word.toList ++ (lines ++ ['\n'])) ++ '#' :: (remark ++ '\n' :: back)) =
        ⟨gap, .block kind (lines ++ '\n' :: '#' :: kept)⟩ :: back₁ ∧
      read (gap ++ (kind.word.toList ++ (lines ++ ['\n'])) ++ back) = ⟨gap, .block kind body⟩ :: back₂ ∧
      back₁.map (·.token) = back₂.map (·.token) := by
  have newline : Stops Token.inLine ('\n' :: back) := Token.stops_newline
  obtain ⟨more, rest, parts, first, goes, ends, stops⟩ := Token.exists_blockLines newline
  have plain : gap ++ (kind.word.toList ++ (lines ++ ['\n'])) ++ back =
      gap ++ (kind.word.toList ++ (lines ++ more ++ rest)) := by
    simp [← parts]
  have commented : gap ++ (kind.word.toList ++ (lines ++ ['\n'])) ++ '#' :: (remark ++ '\n' :: back) =
      gap ++ (kind.word.toList ++ (lines ++ '\n' :: '#' :: (remark ++ more) ++ rest)) := by
    simp [parts]
  have wordEnd : Stops (!Token.isWordEnd ·) more := by
    intro c starts
    obtain rfl : c = '\n' := by simpa [Token.inLine] using first c starts
    rfl
  obtain ⟨back₂, read₂, same₂⟩ :=
    exists_read_block kind blank (start.append wordEnd) (Token.goesOn_append goesOn first goes) ends stops
  obtain ⟨back₁, read₁, same₁⟩ :=
    exists_read_block kind blank (start.append (by simp [Token.isWordEnd_of_isAsciiBlank Token.isAsciiBlank_newline]))
      (Token.goesOn_append goesOn Token.stops_newline (Token.goesOn_comment inside first goes)) ends stops
  have kept : dropEndWhile isAsciiBlank (lines ++ '\n' :: '#' :: (remark ++ more)) =
      lines ++ '\n' :: '#' :: dropEndWhile isAsciiBlank (remark ++ more) := by
    simpa using dropEndWhile_append_cons (by decide : isAsciiBlank '#' = false) (lines ++ ['\n']) (remark ++ more)
  rw [kept] at read₁
  exact ⟨_, _, back₁, back₂, commented ▸ read₁, plain ▸ read₂, same₁.trans same₂.symm⟩

end Item

/-- A comment line changes nothing about a sheet, or it stands in a block and changes nothing but the text of that
block. -/
theorem Sheet.outline_withComment {front remark : List Char} (ends : EndsLine front)
    (closed : ∀ d ∈ (Sheet.ofChars front).diagnostics, ∀ name, d.problem ≠ .unclosedArguments name)
    (inside : ∀ c ∈ remark, Token.inLine c = true) (back : List Char) :
    (Sheet.ofChars (withComment front remark back)).outline (withComment front remark back) =
        (Sheet.ofChars (front ++ back)).outline (front ++ back) ∨
      ∃ block ∈ Placed.ofChars (withComment front remark back), block.token.isBlock = true ∧
        block.start < width front ∧ width front < block.stop ∧
        ((Sheet.ofChars (withComment front remark back)).bare block.start).outline (withComment front remark back) =
          ((Sheet.ofChars (front ++ back)).bare block.start).outline (front ++ back) := by
  obtain ⟨items, last, parts, part, further⟩ := Item.read_endsLine ends
  cases part with
  | blank blank =>
    left
    rw [Sheet.outline_ofChars, Sheet.outline_ofChars, Item.foldl_comment_blank blank further inside]
  | @opened gap text problem blank opens newline =>
    left
    have read := further []
    rw [List.append_nil, List.append_nil, Item.read_open blank opens] at read
    obtain ⟨d, found, rfl⟩ := Sheet.exists_diagnostic read
    have stays := opens.append_newline newline (closed d found)
    rw [Sheet.outline_ofChars, Sheet.outline_ofChars, Item.foldl_comment_opened blank stays further]
  | @block gap lines kind blank start goesOn =>
    right
    obtain ⟨kept, body, back₁, back₂, read₁, read₂, same⟩ := Item.read_comment_block kind blank start goesOn inside back
    have tokens₁ := further ('#' :: (remark ++ '\n' :: back))
    have tokens₂ := further back
    rw [read₁] at tokens₁
    rw [read₂] at tokens₂
    refine ⟨⟨width (Item.texts items ++ gap), .block kind (lines ++ '\n' :: '#' :: kept)⟩, ?_, rfl, ?_, ?_, ?_⟩
    · rw [Placed.ofChars, withComment, tokens₁, Item.place_append]
      simp [Item.place]
    · have keyword : 0 < width kind.word.toList := by cases kind <;> decide
      simp only [parts, width_append]
      omega
    · have mark : 0 < '#'.utf8Size := '#'.utf8Size_pos
      simp only [parts, Placed.stop, Token.text, width_append, width_cons, width_nil]
      omega
    · rw [Sheet.outline_bare, Sheet.outline_bare, withComment, Item.map_bare_ofChars tokens₁,
        Item.map_bare_ofChars tokens₂, same]

/-- Comment lines are irrelevant. A text with a comment line put in at the start of a line, not inside the arguments of
a decorator, is read to the same tables, fields, totals, flags, decorators, expressions, blocks and problems. If the
comment comes to stand in a block, the text of that block has it too. In both sheets the key of every field names the
field's table, which an outline does not repeat. -/
theorem Sheet.read_comment (front remark back : String) (ends : EndsLine front.toList)
    (closed : ∀ d ∈ (Sheet.read front).diagnostics, d.problem.message.startsWith "unterminated arguments" = false)
    (oneLine : '\n' ∉ remark.toList) :
    let commented := front ++ "#" ++ remark ++ "\n" ++ back
    let plain := front ++ back
    (Sheet.read commented).Keyed ∧ (Sheet.read plain).Keyed ∧
      ((Sheet.read commented).outline commented.toList = (Sheet.read plain).outline plain.toList ∨
        ∃ block ∈ Placed.ofChars commented.toList, block.token.isBlock = true ∧
          block.start < front.utf8ByteSize ∧ front.utf8ByteSize < block.stop ∧
          ((Sheet.read commented).bare block.start).outline commented.toList =
            ((Sheet.read plain).bare block.start).outline plain.toList) := by
  intro commented plain
  refine ⟨Sheet.keyed_read _, Sheet.keyed_read _, ?_⟩
  have inside : ∀ c ∈ remark.toList, Token.inLine c = true := by
    intro c member
    have : c ≠ '\n' := by
      rintro rfl
      exact oneLine member
    simpa [Token.inLine] using this
  have closed : ∀ d ∈ (Sheet.ofChars front.toList).diagnostics, ∀ name, d.problem ≠ .unclosedArguments name := by
    intro d found name same
    have clean := closed d found
    rw [same, Problem.startsWith_unterminatedArguments] at clean
    exact Bool.noConfusion clean
  have text : commented.toList = withComment front.toList remark.toList back.toList := by
    simp [commented, withComment]
  have text' : plain.toList = front.toList ++ back.toList := by simp [plain]
  rw [Sheet.read, Sheet.read, text, text', ← width_toList]
  exact Sheet.outline_withComment ends closed inside back.toList

/-- A header as a comment in a block, which goes on behind it, below a modifier that waits. -/
theorem Sheet.read_comment_lookalike :
    let front := "table 'é'\n[x] = 1\nkey\napply\n1\n"
    let commented := front ++ "#" ++ "\r table b [y" ++ "\n" ++ "\t2\n\n[z]"
    let plain := front ++ "\t2\n\n[z]"
    (EndsLine front.toList ∧
      ∀ d ∈ (Sheet.read front).diagnostics, d.problem.message.startsWith "unterminated arguments" = false) ∧
      ((Sheet.read commented).outline commented.toList = (Sheet.read plain).outline plain.toList ∨
        ∃ block ∈ Placed.ofChars commented.toList, block.token.isBlock = true ∧
          block.start < front.utf8ByteSize ∧ front.utf8ByteSize < block.stop ∧
          ((Sheet.read commented).bare block.start).outline commented.toList =
            ((Sheet.read plain).bare block.start).outline plain.toList) := by
  intro front commented plain
  have ends : EndsLine front.toList := by simp [EndsLine, front]
  have closed : ∀ d ∈ (Sheet.read front).diagnostics,
      d.problem.message.startsWith "unterminated arguments" = false := by
    decide +kernel
  exact ⟨⟨ends, closed⟩, (Sheet.read_comment front "\r table b [y" "\t2\n\n[z]" ends closed (by simp)).2.2⟩

end Gridbook
