import Gridbook.Proofs.Cuts

/-!
A range cut out behind a block. What is left starts with blanks to the end of the block's line, so the items before the
block are read as before. The block ends there as well, unless the range started on the next line: then the line that
comes up decides, and if it does not end the block, another block is read.
-/
namespace Gridbook

open Text

namespace Text

/-- The rest of a line, or the next line if there are only blanks in it. -/
def nextLine (after : List Char) : List Char :=
  let line := after.takeWhile Token.inLine
  if line.all isBlank then (after.dropWhile Token.inLine).tail.takeWhile Token.inLine else line

theorem nextLine_newline {line rest : List Char} (blank : ∀ c ∈ line, isBlank c = true ∧ Token.inLine c = true) :
    nextLine (line ++ '\n' :: rest) = rest.takeWhile Token.inLine := by
  have inside : ∀ c ∈ line, Token.inLine c = true := fun c member => (blank c member).2
  have all : line.all isBlank = true := List.all_eq_true.2 fun c member => (blank c member).1
  simp [nextLine, takeWhile_run inside Token.stops_newline, dropWhile_run inside Token.stops_newline, all]

theorem nextLine_blank {line : List Char} (blank : ∀ c ∈ line, isBlank c = true ∧ Token.inLine c = true) :
    nextLine line = [] := by
  have inside : ∀ c ∈ line, Token.inLine c = true := fun c member => (blank c member).2
  have all : line.all isBlank = true := List.all_eq_true.2 fun c member => (blank c member).1
  simp [nextLine, List.takeWhile_eq_self_iff.2 inside, List.dropWhile_eq_nil_iff.2 inside, all]

/-- Blanks with one line end among them. -/
def IsBreak (cs : List Char) : Prop := cs.all isBlank = true ∧ cs.count '\n' = 1

instance (cs : List Char) : Decidable (IsBreak cs) := inferInstanceAs (Decidable (_ ∧ _))

theorem isBreak_iff {line rest : List Char} (blank : ∀ c ∈ line, isAsciiBlank c = true)
    (inside : ∀ c ∈ line, Token.inLine c = true) :
    IsBreak (line ++ '\n' :: rest) ↔ ∀ c ∈ rest, isBlank c = true ∧ Token.inLine c = true := by
  have first : line.count '\n' = 0 := List.count_eq_zero.2 fun member => by simpa [Token.inLine] using inside '\n' member
  have last : rest.count '\n' = 0 ↔ ∀ c ∈ rest, Token.inLine c = true := by
    rw [List.count_eq_zero]
    constructor
    · intro none c member
      simp only [Token.inLine, bne_iff_ne]
      rintro rfl
      exact none member
    · intro inside member
      simpa [Token.inLine] using inside '\n' member
  have newline : isBlank '\n' = true := by decide
  rw [IsBreak, List.all_eq_true, List.count_append, List.count_cons_self, first, forall₂_and, ← last]
  simp only [List.mem_append, List.mem_cons, Nat.zero_add, Nat.add_eq_right]
  refine and_congr_left fun _ => ⟨fun all c member => all c (.inr (.inr member)), fun all c member => ?_⟩
  rcases member with member | rfl | member
  · exact isBlank_of_isAsciiBlank (blank c member)
  · exact newline
  · exact all c member

/-- The first line end, or a later one. -/
theorem newline_cases {line rest kept run : List Char} (inside : ∀ c ∈ line, Token.inLine c = true)
    (same : line ++ '\n' :: rest = kept ++ '\n' :: run) :
    kept = line ∧ run = rest ∨ ∃ more, kept = line ++ '\n' :: more ∧ rest = more ++ '\n' :: run := by
  rcases List.append_eq_append_iff.1 same with ⟨c, rfl, behind⟩ | ⟨c, rfl, behind⟩
  · rcases List.cons_eq_append_iff.1 behind with ⟨rfl, behind⟩ | ⟨more, rfl, rfl⟩
    · exact .inl ⟨by simp, (List.cons.inj behind).2.symm⟩
    · exact .inr ⟨more, rfl, rfl⟩
  · rcases List.cons_eq_append_iff.1 behind with ⟨rfl, behind⟩ | ⟨more, rfl, rfl⟩
    · exact .inl ⟨by simp, (List.cons.inj behind).2⟩
    · simpa [Token.inLine] using inside '\n'

end Text

namespace Token

theorem endsBlock_blank_append {blanks line : List Char} (blank : ∀ c ∈ blanks, isBlank c = true) :
    endsBlock (blanks ++ line) = endsBlock line := by
  have same : trimStart (blanks ++ line) = trimStart line := List.dropWhile_append_of_pos blank
  rw [endsBlock, trim, same]
  rfl

/-- A line in which a word has started ends a block or does not, whatever comes behind a blank. -/
theorem endsBlock_append_apart {line more : List Char} {c : Char} (member : c ∈ line) (shown : isBlank c = false)
    (apart : Stops (!isBlank ·) more) : endsBlock (line ++ more) = endsBlock line := by
  cases more with
  | nil => rw [List.append_nil]
  | cons d more =>
    have blank : isBlank d = true := by simpa using apart
    have settled := settles_blank shown member blank [] more
    rw [List.nil_append, List.nil_append, List.append_assoc, List.singleton_append] at settled
    rw [settled, endsBlock_append_blank (List.forall_mem_singleton.2 blank)]

/-- What stands in front of a text decides whether a line ends a block, unless it is the front of a line and blank. -/
theorem startsSection_append_iff {front after : List Char} (next : StartsSection front) (apart : Stops (!isBlank ·) after)
    (shared : (∀ c ∈ front, isBlank c = true ∧ inLine c = true) → ¬∀ c ∈ after.takeWhile inLine, isBlank c = true) :
    StartsSection (front ++ after) ↔
      ((∀ c ∈ front, isBlank c = true ∧ inLine c = true) → endsBlock (nextLine after) = true) := by
  unfold StartsSection at next ⊢
  by_cases within : ∀ c ∈ front, inLine c = true
  · rw [List.takeWhile_append_of_pos within]
    rw [List.takeWhile_eq_self_iff.2 within] at next
    by_cases empty : ∀ c ∈ front, isBlank c = true
    · have all : ∀ c ∈ front, isBlank c = true ∧ inLine c = true := fun c member => ⟨empty c member, within c member⟩
      rw [endsBlock_blank_append empty, nextLine, if_neg (by simpa using shared all)]
      exact ⟨fun ends _ => ends, fun ends => ends all⟩
    · obtain ⟨c, member, shown⟩ : ∃ c ∈ front, isBlank c = false := by simpa using empty
      have apart : Stops (!isBlank ·) (after.takeWhile inLine) := by
        rw [← List.takeWhile_append_dropWhile (p := inLine) (l := after)] at apart
        exact apart.of_append
      rw [endsBlock_append_apart member shown apart]
      refine iff_of_true next fun all => ?_
      simp [(all c member).1] at shown
  · refine iff_of_true ?_ fun all => absurd (fun c member => (all c member).2) within
    rcases takeWhile_append_cases inLine front after with ⟨within', -⟩ | same
    · exact absurd within' within
    · rwa [same]

end Token

/-- What is left around a range that is cut out behind a block starts with blanks to the end of the block's line. The block
ends there, unless the range started on the next line and the line that comes up does not end a block. -/
theorem Text.Cut.exists_stopsBlock {line rest after left : List Char} (cut : Cut (line ++ '\n' :: rest) after left)
    (blank : ∀ c ∈ line, isAsciiBlank c = true) (inside : ∀ c ∈ line, Token.inLine c = true)
    (next : Token.StartsSection rest) (apart : Stops (!isBlank ·) after) :
    ∃ line' rest', left = line' ++ rest' ∧ (∀ c ∈ line', isAsciiBlank c = true) ∧ (∀ c ∈ line', Token.inLine c = true) ∧
      Stops Token.inLine rest' ∧
      (Token.StopsBlock rest' ↔ (IsBreak (line ++ '\n' :: rest) → Token.endsBlock (nextLine after) = true)) := by
  rw [isBreak_iff blank inside]
  -- With another line end behind the first one, the block ends as it did.
  have later {more run : List Char} (parts : rest = more ++ '\n' :: run) :
      ¬∀ c ∈ rest, isBlank c = true ∧ Token.inLine c = true := by
    intro all
    simpa [Token.inLine] using (all '\n' (by simp [parts])).2
  cases cut with
  | @line kept run behind' rest' parts blank' behind blank'' =>
    rcases newline_cases inside parts with ⟨rfl, rfl⟩ | ⟨more, rfl, rfl⟩
    · refine ⟨kept, '\n' :: rest', rfl, blank, inside, Token.stops_newline, ?_⟩
      rw [Token.stopsBlock_newline, Token.StartsSection, behind, nextLine_newline blank'']
      exact ⟨fun ends _ => ends, fun ends => ends blank'⟩
    · refine ⟨line, '\n' :: (more ++ '\n' :: rest'), by simp, blank, inside, Token.stops_newline,
        iff_of_true ?_ fun all => absurd all (later rfl)⟩
      rw [Token.stopsBlock_newline, Token.startsSection_append_blank (by simp [Token.inLine])]
      rwa [Token.startsSection_append_blank (by simp [Token.inLine])] at next
  | @last kept run parts blank' blank'' =>
    rcases newline_cases inside parts with ⟨rfl, rfl⟩ | ⟨more, rfl, rfl⟩
    · obtain ⟨ret, same, -⟩ := Sheet.exists_dropBreak kept
      have subset : Sheet.dropBreak (kept ++ ['\n']) ⊆ kept := by
        conv => rhs; rw [same]
        exact List.subset_append_left _ _
      refine ⟨Sheet.dropBreak (kept ++ ['\n']), [], by simp, fun c member => blank c (subset member),
        fun c member => inside c (subset member), stops_nil, iff_of_true (by simp [Token.StopsBlock]) fun _ => ?_⟩
      rw [nextLine_blank blank'']
      exact Token.startsSection_nil
    · obtain ⟨ret, same, returns⟩ := Sheet.exists_dropBreak more
      have spell : line ++ '\n' :: more ++ ['\n'] = (line ++ ['\n']) ++ (more ++ ['\n']) := by simp
      refine ⟨line, '\n' :: Sheet.dropBreak (more ++ ['\n']), ?_, blank, inside, Token.stops_newline,
        iff_of_true ?_ fun all => absurd all (later rfl)⟩
      · rw [spell, Sheet.dropBreak_append (by simp)]
        simp
      · have blanks : ∀ c ∈ ret.takeWhile Token.inLine, isBlank c = true := fun c member => by
          rw [returns c (List.takeWhile_subset _ member)]
          decide
        rw [Token.startsSection_append_blank (by simp [Token.inLine]), same, Token.startsSection_append_blank blanks] at next
        rwa [Token.stopsBlock_newline]
  | alone shared =>
    obtain ⟨run, parts, inline⟩ := exists_run_dropEndWhile isInlineBlank rest
    have spell : dropEndWhile isInlineBlank (line ++ '\n' :: rest) = line ++ '\n' :: dropEndWhile isInlineBlank rest :=
      dropEndWhile_append_cons (by decide) line rest
    rw [spell]
    generalize dropEndWhile isInlineBlank rest = front at parts
    have short : ∀ c ∈ run, isBlank c = true ∧ Token.inLine c = true := fun c member =>
      ⟨isBlank_of_isAsciiBlank (isAsciiBlank_of_isInlineBlank (inline c member)),
        Token.inLine_of_isInlineBlank (inline c member)⟩
    have whole : (∀ c ∈ rest, isBlank c = true ∧ Token.inLine c = true) ↔
        ∀ c ∈ front, isBlank c = true ∧ Token.inLine c = true := by
      rw [parts, List.forall_mem_append]
      exact ⟨And.left, fun all => ⟨all, short⟩⟩
    have next : Token.StartsSection front := by
      rwa [parts, Token.startsSection_append_blank fun c member => (short c (List.takeWhile_subset _ member)).1] at next
    refine ⟨line, '\n' :: (front ++ after), by simp, blank, inside, Token.stops_newline, ?_⟩
    rw [Token.stopsBlock_newline, whole]
    exact Token.startsSection_append_iff next apart fun all => shared line rest rfl (whole.2 all)

namespace Token

variable {token : Token} {kind : BlockKind} {body front after after' : List Char}

/-- A token does not look at the blanks with which a line ends, if something stands between. -/
theorem EndsBefore.replace_line {c : Char} (ends : token.EndsBefore (front ++ after)) (member : c ∈ front)
    (shown : isAsciiBlank c = false) (blank : ∀ c ∈ after.takeWhile inLine, isBlank c = true)
    (blank' : ∀ c ∈ after'.takeWhile inLine, isBlank c = true) : token.EndsBefore (front ++ after') := by
  by_cases plain : token.isBlock = false
  · exact ends.replace_plain plain member (isInlineBlank_of_not_isAsciiBlank shown)
  cases token with
  | block kind body =>
    rcases line_cases front with inside | ⟨line, more, inside, rfl⟩
    · -- What stands between would be on the last line of the block.
      have := ends.2.1 c (by rw [List.takeWhile_append_of_pos inside]; exact List.mem_append_left _ member)
      simp [shown] at this
    · rw [List.append_assoc, List.cons_append, endsBefore_block_iff inside stops_newline, stopsBlock_newline] at ends ⊢
      rw [startsSection_append_blank blank] at ends
      rwa [startsSection_append_blank blank']
  | _ => simp [isBlock] at plain

/-- The line on which a block ends goes on with blanks before something that is parted from it. -/
theorem EndsBefore.exists_newline {before part : List Char} (ends : (block kind body).EndsBefore (before ++ (part ++ after)))
    (starts : StartsApart part) :
    ∃ line rest, before = line ++ '\n' :: rest ∧ (∀ c ∈ line, isAsciiBlank c = true) ∧ (∀ c ∈ line, inLine c = true) ∧
      StartsSection rest := by
  rcases line_cases before with inside | ⟨line, rest, inside, rfl⟩
  · obtain ⟨c, more, rfl, shown⟩ := starts.exists_cons
    have within : inLine c = true := by
      simp only [inLine, bne_iff_ne]
      rintro rfl
      exact absurd shown (by decide)
    have ascii := ends.2.1 c (by
      rw [List.takeWhile_append_of_pos inside, List.cons_append, List.takeWhile_cons_of_pos within]
      simp)
    simp [isBlank_of_isAsciiBlank ascii] at shown
  · obtain ⟨start, parts, more, rfl⟩ := starts
    have own := ends.of_append ⟨start, parts, by simp⟩
    rw [endsBefore_block_iff inside stops_newline, stopsBlock_newline] at own
    exact ⟨line, rest, rfl, own.1, inside, own.2⟩

/-- A keyword of a block is read to a block that starts there, wherever it ends. -/
theorem exists_block (kind : BlockKind) {cs : List Char} (start : Stops (!isWordEnd ·) cs) :
    ∃ body rest, cs = body ++ rest ∧ (block kind body).WellFormed ∧ (block kind body).EndsBefore rest := by
  have sound : (readBlock kind cs).1.WellFormed ∧ _ := readBlock_sound start
  have text := text_readBlock kind cs
  obtain ⟨body, same⟩ : ∃ body, (readBlock kind cs).1 = block kind body := ⟨_, rfl⟩
  rw [same] at sound text
  rw [Token.text, List.append_assoc] at text
  exact ⟨body, (readBlock kind cs).2, (List.append_cancel_left text).symm, sound⟩

theorem exists_shown (kind : BlockKind) (body : List Char) : ∃ c ∈ (block kind body).text, isBlank c = false := by
  cases kind with
  | override => exact ⟨'o', by simp [text, BlockKind.word], by decide⟩
  | apply => exact ⟨'a', by simp [text, BlockKind.word], by decide⟩

theorem isBlock_of_isIdle {token : Token} (idle : token.isIdle = true) : token.isBlock = false := by
  cases token with
  | block kind body => simp [isIdle] at idle
  | _ => rfl

end Token

namespace Item

variable {items front : List Item} {gap part rest after after' : List Char}

def blocks (items : List Item) : List Token := (items.map (·.token)).filter (·.isBlock)

@[simp] theorem blocks_append (front back : List Item) : blocks (front ++ back) = blocks front ++ blocks back := by
  simp [blocks]

theorem blocks_eq_nil_iff : blocks items = [] ↔ ∀ item ∈ items, item.token.isBlock = false := by
  simp [blocks]

theorem blocks_read_leads (leads : Leads items rest) :
    blocks (read (texts items ++ rest)) = blocks items ++ blocks (read rest) := by
  rw [read_leads leads, blocks_append]

theorem blocks_read_run (ascii : ∀ c ∈ gap, isAsciiBlank c = true) (rest : List Char) :
    blocks (read (gap ++ rest)) = blocks (read rest) := by
  have same : (read (gap ++ rest)).map (·.token) = (read rest).map (·.token) := Token.ofChars_run_append ascii rest
  rw [blocks, same, ← blocks]

theorem blocks_read_idle (idle : ∀ item ∈ items, item.token.isIdle = true) (ascii : ∀ c ∈ gap, isAsciiBlank c = true)
    (leads : Leads items (gap ++ rest)) : blocks (read (texts items ++ (gap ++ rest))) = blocks (read rest) := by
  have none : blocks items = [] := blocks_eq_nil_iff.2 fun item member => Token.isBlock_of_isIdle (idle item member)
  rw [blocks_read_leads leads, blocks_read_run ascii, none, List.nil_append]

/-- What is left around a range that is cut out has the blocks of the text behind the range. -/
theorem Cut.blocks_text (cut : Cut items after) : blocks (read cut.text) = blocks (read after) := by
  have none : blocks cut.left = [] := blocks_eq_nil_iff.2 cut.plain
  conv => rhs; rw [cut.behind, blocks_read_idle cut.idle cut.ascii' cut.further]
  rw [Cut.text, blocks_read_leads cut.leads, blocks_read_run cut.ascii, none, List.nil_append]

theorem Leads.replace_line {c : Char} (leads : Leads items (part ++ after)) (member : c ∈ part)
    (shown : isAsciiBlank c = false) (blank : ∀ c ∈ after.takeWhile Token.inLine, isBlank c = true)
    (blank' : ∀ c ∈ after'.takeWhile Token.inLine, isBlank c = true) : Leads items (part ++ after') := by
  induction items with
  | nil => trivial
  | cons item items ih =>
    obtain ⟨ascii, wellFormed, ends, further⟩ := leads
    rw [← List.append_assoc] at ends
    refine ⟨ascii, wellFormed, ?_, ih further⟩
    rw [← List.append_assoc]
    exact ends.replace_line (List.mem_append_right _ member) shown blank blank'

/-- A block that is still among the blocks of a text ends where it did. -/
theorem endsBefore_of_blocks {kind : BlockKind} {body left : List Char} {others : List Token}
    (leads : Leads front (gap ++ ((Token.block kind body).text ++ left))) (ascii : ∀ c ∈ gap, isAsciiBlank c = true)
    (wellFormed : (Token.block kind body).WellFormed) (apart : Stops (!Token.isWordEnd ·) left)
    (same : blocks (read (texts front ++ (gap ++ ((Token.block kind body).text ++ left)))) =
      blocks front ++ .block kind body :: others) :
    (Token.block kind body).EndsBefore left := by
  have start : Stops (!Token.isWordEnd ·) (body ++ left) := by
    by_cases none : body = []
    · rwa [none, List.nil_append]
    · exact (stops_append none).2 wellFormed.1
  obtain ⟨body', left', parts, wellFormed', ends⟩ := Token.exists_block kind start
  have spell : (Token.block kind body).text ++ left = (Token.block kind body').text ++ left' := by
    simp [Token.text, parts]
  rw [blocks_read_leads leads, spell, read_token ascii wellFormed' ends] at same
  have first := (List.cons.inj (List.append_cancel_left same)).1
  obtain rfl := (Token.block.inj first).2
  obtain rfl := List.append_cancel_left parts
  exact ends

end Item

namespace Sheet

variable {front items : List Item} {kind : BlockKind} {gap body lead part after : List Char}

/-- A range cut out behind a block, with no other block between. -/
theorem exists_cut_block (leads : Item.Leads (front ++ ⟨gap, .block kind body⟩ :: items) (lead ++ (part ++ after)))
    (ascii : ∀ c ∈ lead, isAsciiBlank c = true)
    (plain : ∀ item ∈ items, item.token.isBlock = false ∧ item.token.isTable = false) (starts : Token.StartsApart part)
    (apart : Stops (!isBlank ·) after)
    (calm : ∀ item ∈ items.getLast?, item.token.waits = false ∧ item.token ≠ .total)
    (unset : Stops (· == '=') (after.dropWhile isInlineBlank)) :
    let before := Item.texts (front ++ ⟨gap, .block kind body⟩ :: items) ++ lead
    ∃ cut : Item.Cut items after,
      removeSpan (.over before part) (before ++ (part ++ after)) =
        Item.texts front ++ (gap ++ ((Token.block kind body).text ++ cut.text)) ∧
      Item.Leads front (gap ++ ((Token.block kind body).text ++ cut.text)) ∧ Stops (!Token.isWordEnd ·) cut.text ∧
      ((Token.block kind body).EndsBefore cut.text ↔
        (IsBreak (Item.texts items ++ lead) → Token.endsBlock (nextLine after) = true)) := by
  obtain ⟨inner, -, wellFormed, ends, further⟩ := Item.leads_append.1 leads
  rw [← List.append_assoc] at ends
  obtain ⟨line, rest, parts, blank, inside, next⟩ := ends.exists_newline starts
  have solid : Stops isAsciiBlank (Item.texts (front ++ [⟨gap, .block kind body⟩])).reverse := by
    have spell : Item.texts (front ++ [⟨gap, .block kind body⟩]) =
        (Item.texts front ++ gap ++ kind.word.toList) ++ body := by
      simp [Token.text]
    rw [spell]
    by_cases none : body = []
    · rw [none, List.append_nil, stops_reverse_append _ (by cases kind <;> decide)]
      cases kind <;> simp [BlockKind.word] <;> decide
    · rw [stops_reverse_append _ none]
      exact wellFormed.2.1
  obtain ⟨left, removed, cut⟩ : ∃ left, _ ∧ Text.Cut (Item.texts items ++ lead) after left :=
    exists_removeSpan solid (.inl (by simp [parts])) part after
  obtain ⟨line', rest', same, blank', inside', stops, stopsBlock⟩ := (parts ▸ cut).exists_stopsBlock blank inside next apart
  obtain ⟨cut', rfl⟩ := Item.exists_cut further ascii plain starts (.inr ⟨apart, calm⟩) unset cut
  refine ⟨cut', by simpa using removed, ?_, ?_, ?_⟩
  · -- Before the block nothing is seen of the change: both its lines end with blanks.
    obtain ⟨c, more, text, shown⟩ := wellFormed.exists_cons
    have inner : Item.Leads front ((gap ++ (Token.block kind body).text) ++ (line ++ '\n' :: rest ++ (part ++ after))) := by
      rw [← parts]
      simpa using inner
    have replaced : Item.Leads front ((gap ++ (Token.block kind body).text) ++ cut'.text) := by
      refine inner.replace_line (c := c) (by simp [text]) shown ?_ ?_
      · rw [List.append_assoc, List.cons_append, takeWhile_run inside Token.stops_newline]
        exact fun c member => isBlank_of_isAsciiBlank (blank c member)
      · rw [same, takeWhile_run inside' stops]
        exact fun c member => isBlank_of_isAsciiBlank (blank' c member)
    simpa using replaced
  · rw [same]
    refine Stops.append (fun c first => ?_) fun c first => ?_
    · simp [Token.isWordEnd_of_isAsciiBlank (blank' c (List.mem_of_mem_head? first))]
    · obtain rfl : c = '\n' := by simpa [Token.inLine] using stops c first
      simp [Token.isWordEnd_of_isAsciiBlank Token.isAsciiBlank_newline]
  · rw [parts, ← stopsBlock, same, Token.endsBefore_block_iff inside' stops]
    exact and_iff_right blank'

end Sheet

end Gridbook
