import Gridbook.Proofs.Moves

/-!
A range cut out of a text. What is left of the text before it and behind it is said once for all texts; items before the
range of which none is a block or a header are read from it as before, up to words of blanks and a carriage return at
their end, and then what was read behind the range. So is a whole table without a block before the range.
-/
namespace Gridbook

open Text

theorem Text.exists_lineBefore (cs : List Char) :
    ∃ kept line, cs = kept ++ line ∧ EndsLine kept ∧ ∀ c ∈ line, Token.inLine c = true := by
  refine ⟨(cs.reverse.dropWhile Token.inLine).reverse, (cs.reverse.takeWhile Token.inLine).reverse, ?_, ?_, ?_⟩
  · rw [← List.reverse_append, List.takeWhile_append_dropWhile, List.reverse_reverse]
  · intro c last
    rw [List.getLast?_reverse] at last
    simpa [Token.inLine] using stops_dropWhile Token.inLine cs.reverse c last
  · exact fun c member => List.mem_takeWhile_imp (List.mem_reverse.1 member)

theorem Cursor.lineBefore_eq {kept line after : List Char} (ends : EndsLine kept)
    (inside : ∀ c ∈ line, Token.inLine c = true) : (⟨kept ++ line, after⟩ : Cursor).lineBefore = line := by
  have stops : Stops Token.inLine kept.reverse := by
    intro c first
    rw [List.head?_reverse] at first
    simp [ends c first, Token.inLine]
  rw [lineBefore, List.reverse_append, takeWhile_run (by simpa using inside) stops, List.reverse_reverse]

namespace Sheet

section

variable {kept line line' rest : List Char} (ends : EndsLine kept) (inside : ∀ c ∈ line, Token.inLine c = true)
  (inside' : ∀ c ∈ line', Token.inLine c = true) (stops : Stops Token.inLine rest) (part : List Char)

include ends inside inside' stops

theorem removeSpan_eq :
    removeSpan (.over (kept ++ line) part) (kept ++ line ++ (part ++ (line' ++ rest))) =
      if line.all isBlank && line'.all isBlank then if rest = [] then dropBreak kept else kept ++ rest.tail
      else dropEndWhile isInlineBlank (kept ++ line) ++ (line' ++ rest) := by
  have start : (Cursor.ofOffset (Span.over (kept ++ line) part).start (kept ++ line ++ (part ++ (line' ++ rest)))).before =
      kept ++ line := by
    rw [Span.over, Cursor.ofOffset_width]
  unfold removeSpan
  simp only [start, Cursor.ofOffset_over, Cursor.lineBefore_eq ends inside, Cursor.lineAfter_eq inside' stops,
    dropWhile_run inside' stops]
  cases rest <;> simp

/-- A range that has its lines for itself is cut out with a line end. -/
theorem removeSpan_alone (blank : ∀ c ∈ line, isBlank c = true) (blank' : ∀ c ∈ line', isBlank c = true) :
    removeSpan (.over (kept ++ line) part) (kept ++ line ++ (part ++ (line' ++ rest))) =
      if rest = [] then dropBreak kept else kept ++ rest.tail := by
  rw [removeSpan_eq ends inside inside' stops, List.all_eq_true.2 blank, List.all_eq_true.2 blank']
  rfl

/-- A range that shares one of its lines is cut out alone. -/
theorem removeSpan_shared (shared : ¬((∀ c ∈ line, isBlank c = true) ∧ ∀ c ∈ line', isBlank c = true)) :
    removeSpan (.over (kept ++ line) part) (kept ++ line ++ (part ++ (line' ++ rest))) =
      dropEndWhile isInlineBlank (kept ++ line) ++ (line' ++ rest) := by
  rw [removeSpan_eq ends inside inside' stops, if_neg]
  simpa [-not_and] using shared

end

theorem dropBreak_concat (cs : List Char) :
    dropBreak (cs ++ ['\n']) = if cs.getLast? = some '\r' then cs.dropLast else cs := by
  simp [dropBreak]

/-- All that is taken off before the line end is a carriage return. -/
theorem exists_dropBreak (cs : List Char) : ∃ ret, cs = dropBreak (cs ++ ['\n']) ++ ret ∧ ∀ c ∈ ret, c = '\r' := by
  rw [dropBreak_concat]
  split
  · next last =>
    obtain ⟨init, rfl⟩ := List.getLast?_eq_some_iff.1 last
    exact ⟨['\r'], by simp, by simp⟩
  · exact ⟨[], by simp, by simp⟩

theorem dropBreak_append {front : List Char} (other : front.getLast? ≠ some '\r') (kept : List Char) :
    dropBreak (front ++ (kept ++ ['\n'])) = front ++ dropBreak (kept ++ ['\n']) := by
  rw [← List.append_assoc, dropBreak_concat, dropBreak_concat]
  rcases List.eq_nil_or_concat' kept with rfl | ⟨kept, c, rfl⟩
  · simp [other]
  · rw [← List.append_assoc, List.getLast?_concat, List.getLast?_concat, List.dropLast_concat, List.dropLast_concat]
    split <;> simp

end Sheet

namespace Text

/-- What is left around a range that is cut out, of the text before it and of the text behind it. -/
inductive Cut (before after : List Char) : List Char → Prop where
  | line {kept run line rest : List Char} (parts : before = kept ++ '\n' :: run)
      (blank : ∀ c ∈ run, isBlank c = true ∧ Token.inLine c = true) (behind : after = line ++ '\n' :: rest)
      (blank' : ∀ c ∈ line, isBlank c = true ∧ Token.inLine c = true) : Cut before after (kept ++ '\n' :: rest)
  | last {kept run : List Char} (parts : before = kept ++ '\n' :: run)
      (blank : ∀ c ∈ run, isBlank c = true ∧ Token.inLine c = true)
      (blank' : ∀ c ∈ after, isBlank c = true ∧ Token.inLine c = true) :
      Cut before after (Sheet.dropBreak (kept ++ ['\n']))
  | alone (shared : ∀ kept run, before = kept ++ '\n' :: run → (∀ c ∈ run, isBlank c = true ∧ Token.inLine c = true) →
      ¬∀ c ∈ after.takeWhile Token.inLine, isBlank c = true) : Cut before after (dropEndWhile isInlineBlank before ++ after)

/-- What is left starts as before, or it is the text behind the range. -/
theorem Cut.head {before after left : List Char} (cut : Cut before after left) :
    left = after ∨ ∀ c ∈ left.head?, c ∈ before.head? := by
  have initial {front back : List Char} (initial : front <+: before) (stays : front = [] → back = []) :
      ∀ c ∈ (front ++ back).head?, c ∈ before.head? := by
    obtain ⟨more, rfl⟩ := initial
    cases front with
    | nil => simp [stays rfl]
    | cons c front => simp
  cases cut with
  | @line kept run line rest parts blank behind blank' =>
    have spell : kept ++ '\n' :: rest = (kept ++ ['\n']) ++ rest := by simp
    rw [spell]
    exact .inr (initial ⟨run, by simp [parts]⟩ (by simp))
  | @last kept run parts blank blank' =>
    obtain ⟨ret, same, -⟩ := Sheet.exists_dropBreak kept
    have shorter : Sheet.dropBreak (kept ++ ['\n']) <+: before :=
      ⟨ret ++ '\n' :: run, by rw [parts, ← List.append_assoc, ← same]⟩
    rw [← List.append_nil (Sheet.dropBreak _)]
    exact .inr (initial shorter fun _ => rfl)
  | alone shared =>
    by_cases none : dropEndWhile isInlineBlank before = []
    · exact .inl (by rw [none, List.nil_append])
    · exact .inr (initial (dropEndWhile_initial ..) fun same => absurd same none)

theorem dropEndWhile_append {p : Char → Bool} {front : List Char} (solid : Stops p front.reverse) (cs : List Char) :
    dropEndWhile p (front ++ cs) = front ++ dropEndWhile p cs := by
  obtain ⟨run, parts, all⟩ := exists_run_dropEndWhile p cs
  have stops : Stops p (front ++ dropEndWhile p cs).reverse := by
    by_cases none : dropEndWhile p cs = []
    · rwa [none, List.append_nil]
    · rw [stops_reverse_append _ none]
      exact stops_dropEndWhile p cs
  conv => lhs; rw [parts]
  rw [← List.append_assoc, dropEndWhile_append_run all, dropEndWhile_of_stops stops]

end Text

/-- A text that does not end with a blank stays in front of a range behind it, if it is not itself the front of a blank
line. -/
theorem Sheet.exists_removeSpan {front before : List Char} (solid : Stops isAsciiBlank front.reverse)
    (shown : '\n' ∈ before ∨
      ∃ init c more, front = init ++ c :: more ∧ isBlank c = false ∧ ∀ d ∈ c :: more, Token.inLine d = true)
    (part after : List Char) :
    ∃ left, removeSpan (.over (front ++ before) part) (front ++ before ++ (part ++ after)) = front ++ left ∧
      Cut before after left := by
  obtain ⟨kept, run, rfl, ends, inside⟩ := exists_lineBefore before
  obtain ⟨line, rest, rfl, inside', stops⟩ := exists_line after
  have solid' : Stops isInlineBlank front.reverse := fun c first => isInlineBlank_of_not_isAsciiBlank (solid c first)
  have drop : front ++ (dropEndWhile isInlineBlank (kept ++ run) ++ (line ++ rest)) =
      dropEndWhile isInlineBlank (front ++ (kept ++ run)) ++ (line ++ rest) := by
    rw [dropEndWhile_append solid', List.append_assoc]
  by_cases none : kept = []
  · -- The line of the range starts in the front, with a character that is no blank.
    subst none
    obtain ⟨init, c, more, rfl, outside, within⟩ := shown.resolve_left fun newline => by
      simpa [Token.inLine] using inside '\n' newline
    obtain ⟨kept, start, rfl, ends, inside''⟩ := exists_lineBefore init
    have line' : ∀ d ∈ start ++ c :: more ++ run, Token.inLine d = true := by
      refine List.forall_mem_append.2 ⟨List.forall_mem_append.2 ⟨inside'', within⟩, inside⟩
    have cut := removeSpan_shared ends line' inside' stops part fun blank => by
      simp [blank.1 c (by simp)] at outside
    refine ⟨_, ?_, .alone fun kept run' same => ?_⟩
    · rw [drop]
      simpa using cut
    · rw [List.nil_append] at same
      simpa [same, Token.inLine] using inside '\n'
  · obtain ⟨kept, rfl⟩ := ends.exists_newline none
    have ends' : EndsLine (front ++ (kept ++ ['\n'])) := by simp [EndsLine]
    have spell : front ++ (kept ++ ['\n'] ++ run) = front ++ (kept ++ ['\n']) ++ run := by simp
    have parts : kept ++ ['\n'] ++ run = kept ++ '\n' :: run := by simp
    by_cases blank : (∀ c ∈ run, isBlank c = true) ∧ ∀ c ∈ line, isBlank c = true
    · have cut := removeSpan_alone ends' inside inside' stops part blank.1 blank.2
      have own : ∀ c ∈ run, isBlank c = true ∧ Token.inLine c = true := fun c member => ⟨blank.1 c member, inside c member⟩
      have behind : ∀ c ∈ line, isBlank c = true ∧ Token.inLine c = true :=
        fun c member => ⟨blank.2 c member, inside' c member⟩
      cases rest with
      | nil =>
        have other : front.getLast? ≠ some '\r' := by
          rw [← List.head?_reverse]
          exact fun last => absurd (solid '\r' last) (by decide)
        rw [if_pos rfl, dropBreak_append other] at cut
        exact ⟨_, spell ▸ cut, .last parts own (by simpa using behind)⟩
      | cons c rest =>
        obtain rfl : c = '\n' := by simpa [Token.inLine] using stops
        rw [if_neg (by simp), List.tail_cons] at cut
        refine ⟨kept ++ '\n' :: rest, ?_, .line parts own rfl behind⟩
        rw [spell, cut]
        simp
    · have cut := removeSpan_shared ends' inside inside' stops part blank
      refine ⟨_, ?_, .alone fun kept' run' same blank' behind => blank ⟨?_, ?_⟩⟩
      · rw [drop, spell]
        exact cut
      · have unique : run = run' := by
          have ends' : EndsLine (kept' ++ ['\n']) := by simp [EndsLine]
          have first : (⟨kept ++ ['\n'] ++ run, []⟩ : Cursor).lineBefore = run := Cursor.lineBefore_eq ends inside
          have second : (⟨kept' ++ ['\n'] ++ run', []⟩ : Cursor).lineBefore = run' :=
            Cursor.lineBefore_eq ends' fun c member => (blank' c member).2
          rw [← first, same]
          simpa using second
        exact unique ▸ fun c member => (blank' c member).1
      · rwa [takeWhile_run inside' stops] at behind

/-- What is left of items behind which a range was cut out, and of the text behind the range: the same items, up to words
of blanks and a carriage return, and the text, up to words that say nothing. -/
structure Item.Cut (items : List Item) (after : List Char) where
  left : List Item
  gap : List Char
  words : List Item
  blanks : List Char
  rest : List Char
  leads : Leads left (gap ++ rest)
  ascii : ∀ c ∈ gap, isAsciiBlank c = true
  plain : ∀ item ∈ left, item.token.isBlock = false
  alike : ∀ draft : DraftOutline,
    (left.map (·.token)).foldl DraftOutline.step draft = (items.map (·.token)).foldl DraftOutline.step draft
  behind : after = texts words ++ (blanks ++ rest)
  ascii' : ∀ c ∈ blanks, isAsciiBlank c = true
  idle : ∀ item ∈ words, item.token.isIdle = true
  further : Leads words (blanks ++ rest)

namespace Item

variable {items : List Item} {gap kept run rest after : List Char}

def Cut.text (cut : Cut items after) : List Char := texts cut.left ++ (cut.gap ++ cut.rest)

/-- What is left says what the items and the text behind the range say. -/
theorem Cut.foldl_text (cut : Cut items after) (draft : DraftOutline) :
    (Token.ofChars cut.text).foldl DraftOutline.step draft =
      (Token.ofChars after).foldl DraftOutline.step ((items.map (·.token)).foldl DraftOutline.step draft) := by
  have said : (Token.ofChars cut.text) = cut.left.map (·.token) ++ Token.ofChars (cut.gap ++ cut.rest) := by
    rw [text, Token.ofChars, read_leads cut.leads, List.map_append]
    rfl
  conv => rhs; rw [cut.behind, Token.foldl_idle cut.idle cut.ascii' cut.further]
  rw [said, List.foldl_append, cut.alike, Token.ofChars_run_append cut.ascii]

theorem exists_kept (leads : Leads items (gap ++ rest)) (ascii : ∀ c ∈ gap, isAsciiBlank c = true)
    (plain : ∀ item ∈ items, item.token.isBlock = false) (parts : texts items ++ gap = kept ++ '\n' :: run)
    (blank : ∀ c ∈ run, isBlank c = true) :
    ∃ front back g, items = front ++ back ∧ kept = texts front ++ g ∧ (∀ c ∈ g, isAsciiBlank c = true) ∧
      (∀ item ∈ back, item.token.isIdle = true) ∧ Leads front (g ++ '\n' :: (run ++ rest)) := by
  have wellFormed := leads.wellFormed
  have parts' : texts items ++ gap = kept ++ ['\n'] ++ run := by simpa using parts
  obtain ⟨front, back, gap', rfl, same, ascii', idle⟩ := exists_split_blank (fun item member => (wellFormed item member).1)
    plain (fun item member => (wellFormed item member).2) ascii parts' (by simp [EndsLine]) blank
  obtain ⟨inner, -⟩ := leads_append.1 leads
  have ends : EndsLine (texts front ++ gap') := by
    rw [← same]
    simp [EndsLine]
  have nonempty : gap' ≠ [] := by
    rintro rfl
    rw [List.append_nil] at same ends
    refine inner.not_endsLine ?_ ends
    rintro rfl
    simp at same
  obtain ⟨g, rfl⟩ := ends.of_append.exists_newline nonempty
  rw [← List.append_assoc] at same
  obtain ⟨rfl, -⟩ := List.append_inj' same rfl
  refine ⟨front, back, g, rfl, rfl, fun c member => ascii' c (List.mem_append_left _ member), idle, ?_⟩
  have behind : texts back ++ gap = g ++ '\n' :: run := by
    rw [texts_append, List.append_assoc, List.append_assoc] at parts
    exact List.append_cancel_left parts
  rw [← List.append_assoc, behind] at inner
  simpa using inner

theorem foldl_append_idle {front back : List Item} (idle : ∀ item ∈ back, item.token.isIdle = true)
    (draft : DraftOutline) :
    (front.map (·.token)).foldl DraftOutline.step draft = ((front ++ back).map (·.token)).foldl DraftOutline.step draft := by
  rw [List.map_append, List.foldl_append, DraftOutline.foldl_idle idle]

/-- The range is cut out with its lines. -/
theorem exists_cut_line {line : List Char} (leads : Leads items (gap ++ rest)) (ascii : ∀ c ∈ gap, isAsciiBlank c = true)
    (plain : ∀ item ∈ items, item.token.isBlock = false) (parts : texts items ++ gap = kept ++ '\n' :: run)
    (blank : ∀ c ∈ run, isBlank c = true) (blank' : ∀ c ∈ line, isBlank c = true) (next : List Char) :
    ∃ cut : Cut items (line ++ '\n' :: next), kept ++ '\n' :: next = cut.text := by
  obtain ⟨front, back, g, rfl, rfl, ascii', idle, inner⟩ := exists_kept leads ascii plain parts blank
  have newline : ∀ c ∈ ['\n'], isAsciiBlank c = true := List.forall_mem_singleton.2 Token.isAsciiBlank_newline
  have apart : Stops (!Token.isWordEnd ·) ('\n' :: next) := by simp [Token.isWordEnd, isAsciiBlank]
  obtain ⟨words, blanks, rfl, ascii'', silent, further⟩ := exists_words blank' apart
  have first : ∀ item ∈ front, item.token.isBlock = false := fun item member => plain item (List.mem_append_left _ member)
  have leads' : Leads front (g ++ ['\n'] ++ next) :=
    Leads.replace_plain (by simpa using inner) first (c := '\n') (by simp) (by decide)
  exact ⟨{
    left := front
    gap := g ++ ['\n']
    words := words
    blanks := blanks ++ ['\n']
    rest := next
    leads := leads'
    ascii := List.forall_mem_append.2 ⟨ascii', newline⟩
    plain := first
    alike := foldl_append_idle idle
    behind := by simp
    ascii' := List.forall_mem_append.2 ⟨ascii'', newline⟩
    idle := silent
    further := by simpa using further }, by simp [Cut.text]⟩

/-- Items that end with a carriage return, without it. -/
theorem Leads.exists_withoutReturn {cs : List Char} (leads : Leads items rest)
    (plain : ∀ item ∈ items, item.token.isBlock = false ∧ item.token.isTable = false) (parts : texts items = cs ++ ['\r']) :
    ∃ items', cs = texts items' ∧ Leads items' [] ∧ (∀ item ∈ items', item.token.isBlock = false) ∧
      ∀ draft : DraftOutline,
        (items'.map (·.token)).foldl DraftOutline.step draft = (items.map (·.token)).foldl DraftOutline.step draft := by
  rcases List.eq_nil_or_concat' items with rfl | ⟨init, last, rfl⟩
  · simp at parts
  obtain ⟨first, final⟩ := leads_append.1 leads
  have own := (leads.wellFormed last (by simp)).1
  obtain ⟨plain', -⟩ := List.forall_mem_append.1 plain
  have named : ∀ blanks, last.token ≠ .table blanks [] := by
    intro blanks same
    have := (plain last (by simp)).2
    simp [same, Token.isTable] at this
  obtain ⟨text, same, rfl⟩ : ∃ text, last.token.text = text ++ ['\r'] ∧ cs = texts init ++ last.gap ++ text := by
    obtain ⟨c, more, nonblank, -⟩ := own.exists_cons
    rcases List.eq_nil_or_concat' last.token.text with none | ⟨text, d, same⟩
    · simp [none] at nonblank
    · have whole : (texts init ++ last.gap ++ text) ++ [d] = cs ++ ['\r'] := by
        rw [← parts]
        simp [same]
      obtain ⟨rfl, last⟩ := List.append_inj' whole rfl
      exact ⟨text, by rw [same, last], rfl⟩
  obtain ⟨token, wellFormed, rfl, block, alike⟩ := own.exists_withoutReturn (plain last (by simp)).1 named same
  refine ⟨init ++ [⟨last.gap, token⟩], by simp, leads_append.2 ⟨?_, final.1, wellFormed, Token.endsBefore_nil wellFormed,
    trivial⟩, List.forall_mem_append.2 ⟨fun item member => (plain' item member).1, List.forall_mem_singleton.2 block⟩, ?_⟩
  · have shorter : Leads init ((last.gap ++ token.text) ++ ('\r' :: rest)) := by simpa [same] using first
    simpa using shorter.of_append_plain fun item member => (plain' item member).1
  · intro draft
    simp [alike]

/-- The range is cut out at the end of the text, with the line end before it. -/
theorem exists_cut_last (leads : Leads items (gap ++ rest)) (ascii : ∀ c ∈ gap, isAsciiBlank c = true)
    (plain : ∀ item ∈ items, item.token.isBlock = false ∧ item.token.isTable = false)
    (parts : texts items ++ gap = kept ++ '\n' :: run) (blank : ∀ c ∈ run, isBlank c = true)
    (blank' : ∀ c ∈ after, isBlank c = true) : ∃ cut : Cut items after, Sheet.dropBreak (kept ++ ['\n']) = cut.text := by
  obtain ⟨front, back, g, rfl, rfl, ascii', idle, inner⟩ :=
    exists_kept leads ascii (fun item member => (plain item member).1) parts blank
  obtain ⟨words, blanks, rfl, ascii'', silent, further⟩ := exists_words blank' (stops_nil : Stops (!Token.isWordEnd ·) [])
  obtain ⟨first, -⟩ := List.forall_mem_append.1 plain
  have cut {left : List Item} {g' : List Char} (leads' : Leads left g') (ascii : ∀ c ∈ g', isAsciiBlank c = true)
      (plain : ∀ item ∈ left, item.token.isBlock = false)
      (alike : ∀ draft : DraftOutline,
        (left.map (·.token)).foldl DraftOutline.step draft = (front.map (·.token)).foldl DraftOutline.step draft) :
      ∃ cut : Cut (front ++ back) (texts words ++ blanks), texts left ++ g' = cut.text :=
    ⟨{
      left, words, blanks, ascii, plain, further
      gap := g'
      rest := []
      leads := by simpa using leads'
      alike := fun draft => (alike draft).trans (foldl_append_idle idle draft)
      behind := by simp
      ascii' := ascii''
      idle := silent }, by simp [Cut.text]⟩
  -- What is cut off the gap before the line end is a carriage return or nothing.
  have shorter {g' z : List Char} (same : g = g' ++ z) :
      ∃ cut : Cut (front ++ back) (texts words ++ blanks), texts front ++ g' = cut.text := by
    rw [same, List.append_assoc] at inner
    have ascii : ∀ c ∈ g', isAsciiBlank c = true := fun c member => ascii' c (by simp [same, member])
    exact cut (inner.of_append_plain fun item member => (first item member).1) ascii
      (fun item member => (first item member).1) fun _ => rfl
  rw [Sheet.dropBreak_concat]
  split
  · next last =>
    rcases List.eq_nil_or_concat' g with rfl | ⟨g', d, rfl⟩
    · rw [List.append_nil] at last ⊢
      obtain ⟨cs, same⟩ := List.getLast?_eq_some_iff.1 last
      obtain ⟨left, rfl, leads', plain', alike⟩ := inner.exists_withoutReturn first same
      rw [same, List.dropLast_concat, ← List.append_nil (texts left)]
      exact cut leads' (by simp) plain' alike
    · rw [← List.append_assoc, List.dropLast_concat]
      exact shorter rfl
  · exact shorter (List.append_nil g).symm

/-- The range is cut out between what stays on its line. -/
theorem exists_cut_alone {part : List Char} (leads : Leads items (gap ++ (part ++ after)))
    (ascii : ∀ c ∈ gap, isAsciiBlank c = true)
    (plain : ∀ item ∈ items, item.token.isBlock = false ∧ item.token.isTable = false) (nonempty : part ≠ [])
    (shown : Stops isAsciiBlank part)
    (apart : Stops (!Token.isWordEnd ·) after ∨
      Stops (!isBlank ·) after ∧ ∀ item ∈ items.getLast?, item.token.waits = false ∧ item.token ≠ .total)
    (unset : Stops (· == '=') (after.dropWhile isInlineBlank)) :
    ∃ cut : Cut items after, dropEndWhile isInlineBlank (texts items ++ gap) ++ after = cut.text := by
  have plain' : ∀ item ∈ items, item.token.isBlock = false := fun item member => (plain item member).1
  obtain ⟨run, parts, inline⟩ := exists_run_dropEndWhile isInlineBlank gap
  have left : dropEndWhile isInlineBlank (texts items ++ gap) =
      dropEndWhile isInlineBlank (texts items ++ dropEndWhile isInlineBlank gap) := by
    conv => lhs; rw [parts, ← List.append_assoc, dropEndWhile_append_run inline]
  rcases List.eq_nil_or_concat' (dropEndWhile isInlineBlank gap) with none | ⟨init, c, some⟩
  · rw [left, none, List.append_nil]
    rcases List.eq_nil_or_concat' items with rfl | ⟨init, last, rfl⟩
    · exact ⟨⟨[], [], [], [], after, trivial, by simp, by simp, fun _ => rfl, rfl, by simp, by simp, trivial⟩, rfl⟩
    -- The last item is on the line of the range, so it does not take the rest of that.
    obtain ⟨inner, blank, own, ends, -⟩ := leads_append.1 leads
    rw [texts_nil, List.nil_append] at ends
    have open' : last.token.fillsLine = false := by
      by_contra fills
      have stops := (Token.endsBefore_iff (by simpa using fills)).1 ends
      obtain ⟨c, more, rfl⟩ := List.exists_cons_of_ne_nil nonempty
      rw [parts, none, List.nil_append] at stops
      cases run with
      | nil =>
        obtain rfl : c = '\n' := by simpa [Token.inLine] using stops
        simp [Token.isAsciiBlank_newline] at shown
      | cons d run => simp [Token.inLine_of_isInlineBlank (inline d (by simp))] at stops
    have header := (plain last (by simp)).2
    have named : ∀ blanks, last.token ≠ .table blanks [] := by
      intro blanks same
      simp [same, Token.isTable] at header
    obtain ⟨d, more, same, outside⟩ := own.exists_cons
    have stops : Stops isInlineBlank (texts (init ++ [last])).reverse := by
      have spell : texts (init ++ [last]) = (texts init ++ last.gap) ++ last.token.text := by simp
      rw [spell, stops_reverse_append _ (by simp [same])]
      exact fun c first => isInlineBlank_of_not_isAsciiBlank
        (own.stops_reverse_text (plain' last (by simp)) open' named c first)
    obtain ⟨moved⟩ := own.moved (plain' last (by simp)) open' named
      (apart.imp_right fun calm => ⟨calm.1, by simpa using calm.2⟩) unset
    have before : Leads init (last.gap ++ (last.token.text ++ after)) := by
      have inner : Leads init ((last.gap ++ last.token.text) ++ (gap ++ (part ++ after))) := by simpa using inner
      have replaced : Leads init ((last.gap ++ last.token.text) ++ after) :=
        inner.replace_plain (fun item member => plain' item (by simp [member])) (c := d) (by simp [same])
          (isInlineBlank_of_not_isAsciiBlank outside)
      simpa using replaced
    rw [← moved.parts] at before
    exact ⟨{
      left := init ++ [⟨last.gap, moved.token'⟩]
      gap := []
      words := moved.words
      blanks := []
      rest := moved.rest
      leads := leads_append.2 ⟨by simpa using before, blank, moved.wellFormed, by simpa using moved.ends, trivial⟩
      ascii := by simp
      plain := List.forall_mem_append.2 ⟨fun item member => plain' item (by simp [member]),
        List.forall_mem_singleton.2 moved.plain⟩
      alike := fun draft => by simp [moved.alike header]
      behind := moved.behind
      ascii' := by simp
      idle := moved.idle
      further := moved.leads }, by rw [dropEndWhile_of_stops stops]; simp [Cut.text, moved.parts]⟩
  · -- The last item is on an earlier line.
    have outside : isInlineBlank c = false := by
      have stops := stops_dropEndWhile isInlineBlank gap
      rw [some, stops_reverse_append _ (by simp)] at stops
      exact stops_cons.1 stops
    have same : dropEndWhile isInlineBlank (texts items ++ gap) = texts items ++ (init ++ [c]) := by
      rw [left, some, ← List.append_assoc, dropEndWhile_append_cons outside]
      rfl
    rw [parts, some, List.append_assoc] at leads
    exact ⟨{
      left := items
      gap := init ++ [c]
      words := []
      blanks := []
      rest := after
      leads := leads.replace_plain plain' (c := c) (by simp) outside
      ascii := fun d member => ascii d (by rw [parts, some]; exact List.mem_append_left _ member)
      plain := plain'
      alike := fun _ => rfl
      behind := rfl
      ascii' := by simp
      idle := by simp
      further := trivial }, by simp [Cut.text, same]⟩

theorem exists_cut {part left : List Char} (leads : Leads items (gap ++ (part ++ after)))
    (ascii : ∀ c ∈ gap, isAsciiBlank c = true)
    (plain : ∀ item ∈ items, item.token.isBlock = false ∧ item.token.isTable = false) (starts : Token.StartsApart part)
    (apart : Stops (!Token.isWordEnd ·) after ∨
      Stops (!isBlank ·) after ∧ ∀ item ∈ items.getLast?, item.token.waits = false ∧ item.token ≠ .total)
    (unset : Stops (· == '=') (after.dropWhile isInlineBlank)) (cut : Text.Cut (texts items ++ gap) after left) :
    ∃ cut : Cut items after, left = cut.text := by
  cases cut with
  | line parts blank behind blank' =>
    subst behind
    exact exists_cut_line leads ascii (fun item member => (plain item member).1) parts
      (fun c member => (blank c member).1) (fun c member => (blank' c member).1) _
  | last parts blank blank' =>
    exact exists_cut_last leads ascii plain parts (fun c member => (blank c member).1) fun c member => (blank' c member).1
  | alone shared =>
    obtain ⟨c, more, rfl, shown⟩ := starts.exists_cons
    have outside : isAsciiBlank c = false := by
      by_contra blank
      simp [isBlank_of_isAsciiBlank (by simpa using blank)] at shown
    exact exists_cut_alone leads ascii plain (by simp) (by simpa using outside) apart unset

end Item

namespace Sheet

variable {items : List Item} {after : List Char}

/-- The outline of a text in which a range was cut out behind items. -/
theorem outline_cut {before : List Item} {cut : Item.Cut items after} (leads : Item.Leads before cut.text) :
    (ofChars (Item.texts before ++ cut.text)).outline (Item.texts before ++ cut.text) =
      ((Token.ofChars after).foldl DraftOutline.step (.ofItems (before ++ items))).finish := by
  rw [outline_leads leads, cut.foldl_text, DraftOutline.ofItems_append]

/-- A range cut out of a table without blocks before it. The header goes on with the text behind the range if nothing is
left between them. -/
theorem exists_cut_header {front : List Item} {blank blanks name gap part : List Char}
    (leads : Item.Leads (front ++ ⟨blank, .table blanks name⟩ :: items) (gap ++ (part ++ after))) (named : name ≠ [])
    (ascii : ∀ c ∈ gap, isAsciiBlank c = true)
    (plain : ∀ item ∈ items, item.token.isBlock = false ∧ item.token.isTable = false) (starts : Token.StartsApart part)
    (apart : Stops (!Token.isWordEnd ·) after ∨
      Stops (!isBlank ·) after ∧ ∀ item ∈ items.getLast?, item.token.waits = false ∧ item.token ≠ .total)
    (unset : Stops (· == '=') (after.dropWhile isInlineBlank)) :
    let before := Item.texts (front ++ ⟨blank, .table blanks name⟩ :: items) ++ gap
    ∃ cut : Item.Cut items after,
      removeSpan (.over before part) (before ++ (part ++ after)) =
        Item.texts (front ++ [⟨blank, .table blanks name⟩]) ++ cut.text ∧
      (cut.text = after ∨ (Token.table blanks name).EndsBefore cut.text) := by
  obtain ⟨-, -, wellFormed, ends, further⟩ := Item.leads_append.1 leads
  have named' : ∀ other, Token.table blanks name ≠ .table other [] := fun other same => named (Token.table.inj same).2
  have inside := Token.inLine_text wellFormed rfl (by simp)
  have spell : (Token.table blanks name).text = 't' :: (['a', 'b', 'l', 'e'] ++ (blanks ++ name)) := by
    simp [Token.text, Keyword.word]
  have solid : Stops isAsciiBlank (Item.texts (front ++ [⟨blank, .table blanks name⟩])).reverse := by
    have spell' : Item.texts (front ++ [⟨blank, .table blanks name⟩]) =
        (Item.texts front ++ blank) ++ (Token.table blanks name).text := by simp
    rw [spell', stops_reverse_append _ (by simp [spell])]
    exact wellFormed.stops_reverse_text rfl rfl named'
  have shown : ∃ init c more, Item.texts (front ++ [⟨blank, .table blanks name⟩]) = init ++ c :: more ∧
      isBlank c = false ∧ ∀ d ∈ c :: more, Token.inLine d = true :=
    ⟨Item.texts front ++ blank, 't', _, by simp [spell], by decide, spell ▸ inside⟩
  obtain ⟨left, removed, cut⟩ : ∃ left, _ ∧ Text.Cut (Item.texts items ++ gap) after left :=
    exists_removeSpan solid (.inr shown) part after
  obtain ⟨cut', rfl⟩ := Item.exists_cut further ascii plain starts apart unset cut
  refine ⟨cut', by simpa using removed, cut.head.imp_right fun head => ⟨fun c first => ?_, trivial⟩⟩
  refine ends.1 c ?_
  rw [← List.append_assoc, List.head?_append, head c first]
  rfl

end Sheet
end Gridbook
