import Gridbook.Proofs.Canonical
import Gridbook.Proofs.LineStarts

/-!
What a block holds does not reach the rest of the sheet. A sheet can be looked at with one of its blocks cut down to the
keyword. That view is assembled from the tokens of the text, with the one block among them cut down in the same way
(`Sheet.outline_bare`), so texts that differ in the body of that block only give the same view.
-/
namespace Gridbook

open Text

/-- The range of a block, cut down to its keyword if the block starts at the offset. -/
def Span.bare (offset : Nat) (kind : BlockKind) (span : Span) : Span :=
  if span.start = offset then ⟨offset, offset + width kind.word.toList⟩ else span

def Table.bare (offset : Nat) (table : Table) : Table :=
  { table with
    overrideSpan := table.overrideSpan.map (Span.bare offset .override)
    applySpan := table.applySpan.map (Span.bare offset .apply) }

def Sheet.bare (offset : Nat) (sheet : Sheet) : Sheet :=
  { sheet with tables := sheet.tables.map (Table.bare offset) }

def Token.bare : Token → Token
  | block kind _ => block kind []
  | token => token

def Placed.bare (offset : Nat) (placed : Placed) : Token :=
  if placed.start = offset then placed.token.bare else placed.token

namespace Draft

def bare (offset : Nat) (draft : Draft) : Draft :=
  { draft with
    closed := draft.closed.map (Table.bare offset)
    current := draft.current.map (Table.bare offset) }

variable {text : List Char} (offset : Nat) (draft : Draft)

theorem tables_bare : (draft.bare offset).tables = draft.tables.map (Table.bare offset) := by
  cases current : draft.current <;> simp [tables, bare, current]

theorem finish_bare : (draft.bare offset).finish = draft.finish.bare offset := by
  simp only [finish, tables_bare]
  rfl

theorem openTable_bare (start : Nat) (gap name : List Char) :
    (draft.openTable start gap name).bare offset = (draft.bare offset).openTable start gap name := by
  simp only [openTable, tables_bare]
  split
  · rfl
  · rfl

theorem addField_bare (start : Nat) (name : List Char) (definition : Option Definition) :
    (draft.addField start name definition).bare offset = (draft.bare offset).addField start name definition := by
  cases current : draft.current with
  | none => simp [addField, bare, current, report]
  | some table => by_cases totals : draft.inTotals = true <;> simp [addField, bare, current, totals, Table.bare]

theorem openTotals_bare (start : Nat) : (draft.openTotals start).bare offset = (draft.bare offset).openTotals start := by
  cases current : draft.current <;> simp [openTotals, bare, current, Table.bare]

/-- Cutting a block down does not touch what other tokens do. -/
theorem step_bare {placed : Placed} (other : placed.token.isBlock = false) :
    (draft.step placed).bare offset = (draft.bare offset).step placed := by
  obtain ⟨start, token⟩ := placed
  cases token with
  | field name definition => exact addField_bare offset draft start name definition
  | table gap name => exact openTable_bare offset draft start gap name
  | total => exact openTotals_bare offset draft start
  | block kind body => simp [Token.isBlock] at other
  | _ => rfl

theorem slice_bare {start : Nat} {kind : BlockKind} {body : List Char} (stands : At text start (Token.block kind body).text) :
    (Span.bare offset kind ⟨start, start + width (Token.block kind body).text⟩).slice text =
      (Token.block kind (if start = offset then [] else body)).text := by
  by_cases here : start = offset
  · subst here
    simpa [Span.bare, Token.text] using stands.append_left.slice
  · simpa only [Span.bare, if_neg here] using stands.slice

theorem outline_addBlock_bare {start : Nat} {kind : BlockKind} {body : List Char}
    (stands : At text start (Token.block kind body).text) :
    ((draft.addBlock start kind body).bare offset).outline text =
      ((draft.bare offset).outline text).addBlock kind (if start = offset then [] else body) := by
  have slice := slice_bare offset stands
  unfold addBlock DraftOutline.addBlock
  cases current : draft.current with
  | none => simp [bare, outline, current, report, DraftOutline.report]
  | some table =>
    cases kind <;> simp [bare, outline, current, Table.outline, Table.bare, TableOutline.setBlock, slice]

theorem outline_step_bare {placed : Placed} (stands : At text placed.start placed.token.text) :
    ((draft.step placed).bare offset).outline text = ((draft.bare offset).outline text).step (placed.bare offset) := by
  by_cases isBlock : placed.token.isBlock = true
  · obtain ⟨start, token⟩ := placed
    cases token with
    | block kind body =>
      have block : (Placed.bare offset ⟨start, .block kind body⟩) = .block kind (if start = offset then [] else body) := by
        by_cases here : start = offset <;> simp [Placed.bare, Token.bare, here]
      rw [block]
      exact outline_addBlock_bare offset draft stands
    | _ => simp [Token.isBlock] at isBlock
  · have same : placed.bare offset = placed.token := by
      obtain ⟨start, token⟩ := placed
      cases token with
      | block kind body => simp [Token.isBlock] at isBlock
      | _ => simp [Placed.bare, Token.bare]
    rw [step_bare offset draft (by simpa using isBlock), outline_step stands, same]

theorem outline_foldl_bare {tokens : List Placed} (stands : ∀ p ∈ tokens, At text p.start p.token.text) :
    ((tokens.foldl step draft).bare offset).outline text =
      (tokens.map (Placed.bare offset)).foldl DraftOutline.step ((draft.bare offset).outline text) := by
  induction tokens generalizing draft with
  | nil => rfl
  | cons placed tokens ih =>
    simp only [List.foldl_cons, List.map_cons]
    rw [ih _ fun p member => stands p (by simp [member]), outline_step_bare offset draft (stands placed (by simp))]

end Draft

theorem Sheet.outline_bare (offset : Nat) (text : List Char) :
    ((Sheet.ofChars text).bare offset).outline text =
      (((Placed.ofChars text).map (Placed.bare offset)).foldl DraftOutline.step {}).finish := by
  have stands : ∀ p ∈ Placed.ofChars text, At text p.start p.token.text := fun _ => Placed.at_of_mem
  rw [Sheet.ofChars_eq, ← Draft.finish_bare, Draft.outline_finish, Draft.ofChars,
    Draft.outline_foldl_bare offset {} stands]
  rfl

namespace Item

theorem text_ne_nil_of_mem_read {cs : List Char} {item : Item} (member : item ∈ read cs) : item.token.text ≠ [] := by
  induction cs using read_induction with
  | blank cs blank => simp [read_blank blank] at member
  | token gap c cs blank start ih =>
    rw [read_cons blank start, List.mem_cons] at member
    rcases member with rfl | member
    · exact Token.read_ne_nil c cs
    · exact ih member

/-- Of the tokens of a text only the block at its own offset is cut down. -/
theorem map_bare_ofChars {text gap body : List Char} {items back : List Item} {kind : BlockKind}
    (tokens : read text = items ++ ⟨gap, .block kind body⟩ :: back) :
    (Placed.ofChars text).map (Placed.bare (width (texts items ++ gap))) =
      items.map (·.token) ++ .block kind [] :: back.map (·.token) := by
  have front : (place 0 items).map (Placed.bare (width (texts items ++ gap))) = items.map (·.token) := by
    rw [← map_token_place 0 items]
    refine List.map_congr_left fun placed member => if_neg ?_
    obtain ⟨item, listed, same⟩ := exists_mem_of_mem_place member
    have bound := (at_of_mem_place [] [] member).bound
    have nonempty : item.token.text ≠ [] := text_ne_nil_of_mem_read (by rw [tokens]; simp [listed])
    obtain ⟨c, cs, text⟩ := List.exists_cons_of_ne_nil nonempty
    have positive := c.utf8Size_pos
    simp only [← same, text, List.nil_append, List.append_nil, width_cons] at bound
    rw [width_append]
    omega
  have behind (start : Nat) (later : width (texts items ++ gap) < start) :
      (place start back).map (Placed.bare (width (texts items ++ gap))) = back.map (·.token) := by
    rw [← map_token_place start back]
    refine List.map_congr_left fun placed member => if_neg ?_
    have := (place_increasing start back).1 placed member
    omega
  have keyword : 0 < width kind.word.toList := by cases kind <;> decide
  rw [Placed.ofChars, tokens, place_append, List.map_append, front, place, List.map_cons, behind]
  · simp [Placed.bare, Token.bare]
  · simp only [Token.text, width_append]
    omega

end Item

namespace BlockKind

/-- A block as it is written: the keyword alone on its line, then whole lines. -/
def written (kind : BlockKind) (lines : List String) : String :=
  kind.word ++ "\n" ++ String.ofList (unlines lines)

theorem cons_unlines (lines : List String) :
    '\n' :: unlines lines = lines.flatMap (fun line => '\n' :: line.toList) ++ ['\n'] := by
  induction lines with
  | nil => rfl
  | cons line lines ih => simp [← ih]

theorem toList_written (kind : BlockKind) (lines : List String) :
    (kind.written lines).toList = kind.word.toList ++ '\n' :: unlines lines := by
  simp [written]

/-- A block behind a text that ends a line: whatever its lines, it is one token, and the tokens around it are those
of the texts around it. -/
theorem exists_tokens_written {front back : List Char} (ends : EndsLine front)
    (closed : ∀ item ∈ Item.read front, item.token.isUnclosed = false) (next : Token.StartsSection back)
    (kind : BlockKind) :
    ∃ tokens, ∀ lines : List String, (∀ line ∈ lines, '\n' ∉ line.toList ∧ Token.endsBlock line.toList = false) →
      (Placed.ofChars (front ++ ((kind.written lines).toList ++ back))).map (Placed.bare (width front)) =
        tokens ++ .block kind [] :: Token.ofChars back := by
  obtain ⟨items, gap, parts, blank, further⟩ := Item.read_startsSection ends closed
  refine ⟨items.map (·.token), fun lines legal => ?_⟩
  have goesOn := goesOn_lines legal
  have opening : Token.StartsSection ((kind.written lines).toList ++ back) := by
    rw [toList_written, List.append_assoc]
    exact Token.startsSection_keyword (.block kind) rfl (by simp [isBlank_of_isAsciiBlank Token.isAsciiBlank_newline])
  have whole : (kind.written lines).toList ++ back =
      kind.word.toList ++ (lines.flatMap (fun line => '\n' :: line.toList) ++ '\n' :: back) := by
    rw [toList_written, cons_unlines]
    simp only [List.append_assoc, List.cons_append, List.nil_append]
  have start : Stops (!Token.isWordEnd ·) (lines.flatMap fun line => '\n' :: line.toList) := by
    cases lines <;> simp [Token.isWordEnd_of_isAsciiBlank Token.isAsciiBlank_newline]
  obtain ⟨behind, block, same⟩ := Item.exists_read_block kind blank start goesOn Token.stops_newline
    (Token.stopsBlock_newline.2 next)
  have read := further _ opening
  rw [whole, block] at read
  have skipped := Token.ofChars_run_append (List.forall_mem_singleton.2 Token.isAsciiBlank_newline) back
  rw [whole, parts, Item.map_bare_ofChars (parts ▸ read), same, ← skipped, List.singleton_append]

end BlockKind

/-- Two sheets that differ in the lines of one block say the same but for the text of that block. In both the key of
every field names the field's table, which an outline does not repeat. -/
theorem Sheet.bare_read_written (front back : String) (kind : BlockKind) (lines₁ lines₂ : List String)
    (ends : EndsLine front.toList)
    (closed : ∀ d ∈ (Sheet.read front).diagnostics, d.problem.message.startsWith "unterminated" = false)
    (legal₁ : ∀ line ∈ lines₁, '\n' ∉ line.toList ∧ Token.endsBlock line.toList = false)
    (legal₂ : ∀ line ∈ lines₂, '\n' ∉ line.toList ∧ Token.endsBlock line.toList = false)
    (next : Token.StartsSection back.toList) :
    let text lines := front ++ kind.written lines ++ back
    (Sheet.read (text lines₁)).Keyed ∧ (Sheet.read (text lines₂)).Keyed ∧
      ((Sheet.read (text lines₁)).bare front.utf8ByteSize).outline (text lines₁).toList =
        ((Sheet.read (text lines₂)).bare front.utf8ByteSize).outline (text lines₂).toList := by
  intro text
  refine ⟨Sheet.keyed_read _, Sheet.keyed_read _, ?_⟩
  have tokens : ∀ item ∈ Item.read front.toList, item.token.isUnclosed = false :=
    Item.closed_of_diagnostics fun d found => (Problem.startsWith_unterminated d.problem) ▸ closed d found
  obtain ⟨around, same⟩ := BlockKind.exists_tokens_written ends tokens next kind
  have chars (lines : List String) : (text lines).toList = front.toList ++ ((kind.written lines).toList ++ back.toList) := by
    simp [text]
  rw [Sheet.read, Sheet.read, Sheet.outline_bare, Sheet.outline_bare, chars, chars, ← width_toList, same _ legal₁,
    same _ legal₂]

/-- One body looks like declarations that are not closed, the other is empty. The block stands behind another one and
before a decorator that takes the rest. -/
theorem Sheet.bare_read_written_lookalikes :
    let front := "table 'é' [x] = 1\ntotal\nkey\napply\n#\n"
    let lines := ["[z", "tables 'b !c(", "# table"]
    let back := "  !d(\")\n[y] = 2"
    let text lines := front ++ BlockKind.override.written lines ++ back
    (EndsLine front.toList ∧
      (∀ d ∈ (Sheet.read front).diagnostics, d.problem.message.startsWith "unterminated" = false) ∧
      (∀ line ∈ lines, '\n' ∉ line.toList ∧ Token.endsBlock line.toList = false) ∧
      Token.StartsSection back.toList) ∧
      ((Sheet.read (text lines)).bare front.utf8ByteSize).outline (text lines).toList =
        ((Sheet.read (text [])).bare front.utf8ByteSize).outline (text []).toList := by
  intro front lines back text
  have ends : EndsLine front.toList := by simp [EndsLine, front]
  have closed : ∀ d ∈ (Sheet.read front).diagnostics, d.problem.message.startsWith "unterminated" = false := by
    decide +kernel
  have legal : ∀ line ∈ lines, '\n' ∉ line.toList ∧ Token.endsBlock line.toList = false := by decide +kernel
  have next : Token.StartsSection back.toList := by
    unfold Token.StartsSection
    decide +kernel
  exact ⟨⟨ends, closed, legal, next⟩,
    (Sheet.bare_read_written front back .override lines [] ends closed legal (by simp) next).2.2⟩

end Gridbook
