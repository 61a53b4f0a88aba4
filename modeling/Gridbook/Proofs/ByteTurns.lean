import Gridbook.Proofs.ByteReader

/-!
The turns of the reader. Each turn from a place between characters ends without a fault: it takes in the token that stands
there, as it is read from the characters, and goes on behind it, or stops at a token that is not closed. So the reader goes
forward with every turn, and the last one leaves the sheet of the text.
-/
namespace Gridbook.ByteReader

open Text

variable {text rest : List Char} {pos : Nat}

/-- What a turn can make of a token and the rest behind it. The reader goes on behind the token and blanks, with the token
taken in; or it stops at a token that takes the whole rest, with the sheet that this token gives. -/
inductive Takes (draft : Draft) (placed : Placed) (rest : List Char) : Bool × ByteReader → Prop where
  | goesOn {pos : Nat} {next : Draft} {blanks after : List Char} (same : next = draft.step placed)
      (parts : rest = blanks ++ after) (blank : ∀ c ∈ blanks, isAsciiBlank c = true)
      (ends : pos = placed.stop + width blanks) : Takes draft placed rest (true, ⟨pos, next⟩)
  | stops {last : ByteReader} (same : last.draft.finish = (draft.step placed).finish) (taken : rest = []) :
      Takes draft placed rest (false, last)

theorem Takes.behind {draft next : Draft} {placed : Placed} (same : next = draft.step placed) (ends : pos = placed.stop) :
    Takes draft placed rest (true, ⟨pos, next⟩) :=
  .goesOn same (List.nil_append rest).symm (by simp) ends

theorem addField_eq (draft : Draft) (start : Nat) (name : List Char) (definition : Option Definition) :
    draft.addField start name definition =
      draft.enter name ⟨start, start + width (Token.field name none).text⟩
        (definition.map (·.locate (start + width (Token.field name none).text))) := by
  unfold Draft.addField Draft.enter
  cases draft.current with
  | none => rfl
  | some table =>
    cases definition with
    | none => rfl
    | some d =>
      have later (pos : Nat) : max (d.locate pos).span.stop pos = (d.locate pos).span.stop := by
        apply Nat.max_eq_left
        simp only [Definition.locate]
        omega
      simp only [Option.map_some, Option.getD_some, later]
      rfl

theorem field_takes {start : Nat} (ahead : Ahead text start ('[' :: rest)) (draft : Draft) :
    ∃ outcome, field text start draft = pure outcome ∧
      Takes draft ⟨start, (Token.readField rest).1⟩ (Token.readField rest).2 outcome := by
  have inside := ahead.cons
  have behind := inside.dropWhile fun c => c != ']' && c != '\n'
  have parted : IsByteClass fun c => c != ']' && c != '\n' := (IsByteClass.eq ']').not.and (IsByteClass.eq '\n').not
  rw [field, inside.skipWhile parted, pure_bind]
  by_cases closes : ∃ more, (rest.dropWhile fun c => c != ']' && c != '\n') = ']' :: more
  · obtain ⟨more, found⟩ := closes
    rw [found] at behind
    have bracket := behind.cons
    rw [if_pos ((behind.getElem?_bytes).2 ⟨_, rfl⟩), inside.sliceAt_takeWhile, pure_bind]
    generalize named : (rest.takeWhile fun c => c != ']' && c != '\n') = name at *
    have stop : start + 1 + width name + 1 = start + width (Token.field name none).text := by
      simp [Token.text, utf8Size_ascii, Nat.add_assoc]
    rw [stop] at bracket ⊢
    cases defined : Token.readDefinition more with
    | none =>
      have read : Token.readField rest = (.field name none, more) := by
        simp only [Token.readField, found, named, defined]
      rw [definition_none bracket defined, pure_bind, read]
      refine ⟨_, rfl, .goesOn (addField_eq draft start name none).symm
        (List.takeWhile_append_dropWhile (p := isInlineBlank)).symm ?_ rfl⟩
      intro c member
      exact isAsciiBlank_of_isInlineBlank (List.mem_takeWhile_imp member)
    | some result =>
      have read : Token.readField rest = (.field name (some result.1), result.2) := by
        simp only [Token.readField, found, named, defined]
      rw [definition_some bracket defined, pure_bind, read]
      refine ⟨_, rfl, .behind (addField_eq draft start name (some result.1)).symm ?_⟩
      simp [Placed.stop, Token.text, Nat.add_assoc]
  · rw [if_neg (mt (behind.getElem?_bytes).1 closes)]
    have read : Token.readField rest = (.unclosed .unclosedFieldName ('[' :: rest), []) := by
      unfold Token.readField
      split
      · next found => exact absurd ⟨_, found⟩ closes
      · rfl
    rw [read]
    exact ⟨_, rfl, .stops rfl rfl⟩

theorem decorator_takes {start : Nat} (ahead : Ahead text start ('!' :: rest)) (draft : Draft) :
    ∃ outcome, decorator text start draft = pure outcome ∧
      Takes draft ⟨start, (Token.readDecorator rest).1⟩ (Token.readDecorator rest).2 outcome := by
  have inside := ahead.cons
  have behind := inside.dropWhile Token.isDecoratorNameChar
  rw [decorator, inside.skipWhile IsByteClass.isDecoratorNameChar, pure_bind, inside.sliceAt_takeWhile, pure_bind]
  generalize named : rest.takeWhile Token.isDecoratorNameChar = name at *
  generalize follows : rest.dropWhile Token.isDecoratorNameChar = more at *
  by_cases empty : name.isEmpty = true
  · have token : Token.readDecorator rest = (.bang, rest) := by
      simp only [Token.readDecorator, named, if_pos empty]
    obtain rfl := List.isEmpty_iff.1 empty
    rw [token]
    exact ⟨_, rfl, .behind rfl (by simp [Placed.stop, Token.text, utf8Size_ascii])⟩
  · rw [if_neg empty]
    by_cases opens : ∃ left, more = '(' :: left
    · obtain ⟨left, rfl⟩ := opens
      have inner := behind.cons
      have close : argsEnd (bytes ('(' :: left)) 0 0 false =
          pure ((Token.readArgs 0 false left).map fun found => 1 + width found.1) := by
        have first : argsEnd ('(' :: bytes left) 0 0 false = argsEnd (bytes left) 1 1 false := rfl
        rw [bytes_cons_ascii (by decide), first, argsEnd_eq, Token.readArgs_bytes, Option.map_map]
        simp only [Function.comp_def, length_bytes]
      rw [if_pos ((behind.getElem?_bytes).2 ⟨_, rfl⟩), behind.bytesFrom, pure_bind, close, pure_bind]
      cases read : Token.readArgs 0 false left with
      | none =>
        have token : Token.readDecorator rest =
            (.unclosed (.unclosedArguments (String.ofList name)) ('!' :: rest), []) := by
          simp only [Token.readDecorator, named, if_neg empty, follows, read]
        rw [token]
        exact ⟨_, rfl, .stops rfl rfl⟩
      | some found =>
        obtain ⟨args, after⟩ := found
        have token : Token.readDecorator rest = (.decorator name (some args), after) := by
          simp only [Token.readDecorator, named, if_neg empty, follows, read]
        have stop : start + 1 + width name + 1 + width args + 1 =
            start + width (Token.decorator name (some args)).text := by
          simp [Token.text, utf8Size_ascii, Nat.add_assoc]
        rw [← Token.readArgs_append read] at inner
        simp only [Option.map_some, ← Nat.add_assoc]
        rw [inner.sliceAt, pure_bind, stop, token]
        exact ⟨_, rfl, .behind rfl rfl⟩
    · have token : Token.readDecorator rest = (.decorator name none, more) := by
        simp only [Token.readDecorator, named, if_neg empty, follows]
        split
        · next left => exact absurd ⟨left, rfl⟩ opens
        · rfl
      have stop : start + 1 + width name = start + width (Token.decorator name none).text := by
        simp [Token.text, utf8Size_ascii, Nat.add_assoc]
      rw [if_neg (mt (behind.getElem?_bytes).1 opens), stop, token]
      exact ⟨_, rfl, .behind rfl rfl⟩

theorem openAt_takes {start : Nat} {gap name after : List Char} (ahead : Ahead text pos (name ++ after))
    (stands : pos = start + width Keyword.table.word.toList + width gap) (draft : Draft) :
    ∃ outcome, openAt text start ⟨pos, pos + width name⟩ draft = pure outcome ∧
      Takes draft ⟨start, .table gap name⟩ after outcome := by
  have stop : pos + width name = start + width (Token.table gap name).text := by
    simp [stands, Token.text, Nat.add_assoc]
  cases name with
  | nil =>
    rw [openAt, if_pos (by simp)]
    exact ⟨_, rfl, .behind rfl stop⟩
  | cons c name =>
    have long : ¬pos + width (c :: name) ≤ pos := by
      have := c.utf8Size_pos
      rw [width_cons]
      omega
    rw [openAt, if_neg long, ahead.sliceAt, pure_bind]
    refine ⟨_, rfl, .behind ?_ stop⟩
    subst stands
    rfl

theorem header_takes {start : Nat} (ahead : Ahead text start (Keyword.table.word.toList ++ rest)) (draft : Draft) :
    ∃ outcome, header text start (start + width Keyword.table.word.toList) draft = pure outcome ∧
      Takes draft ⟨start, (Token.readTable rest).1⟩ (Token.readTable rest).2 outcome := by
  have keyword := ahead.append
  have behind := keyword.dropWhile isInlineBlank
  rw [header, keyword.skipWhile IsByteClass.isInlineBlank, pure_bind, nameEnd]
  generalize parted : rest.takeWhile isInlineBlank = gap at *
  generalize follows : rest.dropWhile isInlineBlank = more at *
  by_cases quotes : ∃ left, more = '\x27' :: left
  · obtain ⟨left, rfl⟩ := quotes
    have inner := behind.cons
    rw [if_pos ((behind.getElem?_bytes).2 ⟨_, rfl⟩), quoteEnd_eq inner, pure_bind]
    cases read : Token.readQuoted left with
    | none =>
      have token : Token.readTable rest = (.unclosed .unclosedTableName (Keyword.table.word.toList ++ rest), []) := by
        simp only [Token.readTable, follows, read, if_true]
      rw [token]
      refine ⟨_, rfl, .stops ?_ rfl⟩
      simp [Draft.step, Draft.report, Draft.close, Draft.finish, Draft.tables]
    | some found =>
      obtain ⟨name, after⟩ := found
      have token : Token.readTable rest = (.table gap ('\x27' :: name), after) := by
        simp only [Token.readTable, parted, follows, read, if_true]
      have stop : start + width Keyword.table.word.toList + width gap + 1 + width name =
          start + width Keyword.table.word.toList + width gap + width ('\x27' :: name) := by
        simp [utf8Size_ascii, Nat.add_assoc]
      rw [← Token.readQuoted_append read, ← List.cons_append] at behind
      rw [token]
      simp only [Option.map_some, stop]
      exact openAt_takes behind rfl draft
  · have bare := behind.skipWhile IsByteClass.isWordEnd.not
    have token : Token.readTable rest = (.table gap (more.takeWhile (!Token.isWordEnd ·)), more.dropWhile (!Token.isWordEnd ·)) := by
      simp only [Token.readTable, parted, follows]
      cases more with
      | nil => rfl
      | cons c left =>
        have plain : c ≠ '\x27' := by
          rintro rfl
          exact quotes ⟨left, rfl⟩
        simp only [if_neg plain]
    rw [← List.takeWhile_append_dropWhile (p := (!Token.isWordEnd ·)) (l := more)] at behind
    rw [if_neg (mt (behind.getElem?_bytes).1 (by simpa using quotes)), bare, pure_bind, pure_bind, token]
    exact openAt_takes behind rfl draft

theorem word_takes {start : Nat} {c : Char} (ahead : Ahead text start (c :: rest)) (begins : Token.isWordEnd c = false)
    (draft : Draft) :
    ∃ outcome, word text start draft = pure outcome ∧
      Takes draft ⟨start, (Token.read c rest).1⟩ (Token.read c rest).2 outcome := by
  obtain ⟨-, byte, member, found⟩ := ahead.exists_byteAt
  have plain {d : Char} (ends : Token.isWordEnd d = true) : c ≠ d := by
    rintro rfl
    simp [begins] at ends
  rw [word, found, pure_bind]
  by_cases quote : c = '\x27'
  · subst quote
    have inner := ahead.cons
    rw [if_pos ((eq_iff_of_mem_bytes member).2 rfl), quoteEnd_eq inner, pure_bind]
    cases read : Token.readQuoted rest with
    | none =>
      have token : Token.read '\x27' rest = (.unclosed .unclosedName ('\x27' :: rest), []) := by
        simp [Token.read, read]
      rw [token]
      exact ⟨_, rfl, .stops rfl rfl⟩
    | some found =>
      have token : Token.read '\x27' rest = (.word ('\x27' :: found.1), found.2) := by
        simp [Token.read, read]
      rw [token]
      refine ⟨_, rfl, .behind rfl ?_⟩
      simp [Placed.stop, Token.text, utf8Size_ascii, Nat.add_assoc]
  · have token : Token.read c rest =
        Token.readWord (c :: rest.takeWhile (!Token.isWordEnd ·)) (rest.dropWhile (!Token.isWordEnd ·)) := by
      simp only [Token.read, if_neg (plain (d := '#') (by decide)), if_neg (plain (d := '!') (by decide)),
        if_neg (plain (d := '[') (by decide)), if_neg quote]
    have taken : (c :: rest).takeWhile (!Token.isWordEnd ·) = c :: rest.takeWhile (!Token.isWordEnd ·) :=
      List.takeWhile_cons_of_pos (by simp [begins])
    rw [if_neg (mt (eq_iff_of_mem_bytes member).1 quote), ahead.skipWhile IsByteClass.isWordEnd.not, pure_bind,
      ahead.sliceAt_takeWhile, pure_bind, taken, token]
    rw [← List.takeWhile_append_dropWhile (p := (!Token.isWordEnd ·)) (l := rest), ← List.cons_append] at ahead
    generalize c :: rest.takeWhile (!Token.isWordEnd ·) = name at *
    generalize rest.dropWhile (!Token.isWordEnd ·) = more at *
    unfold Token.readWord
    cases known : Keyword.ofWord? name with
    | none => exact ⟨_, rfl, .behind rfl rfl⟩
    | some keyword =>
      obtain rfl := Token.word_of_ofWord? known
      cases keyword with
      | table => exact header_takes ahead draft
      | key => exact ⟨_, rfl, .behind rfl rfl⟩
      | dim => exact ⟨_, rfl, .behind rfl rfl⟩
      | block kind =>
        obtain ⟨body, blanks, after, read, blank, taken⟩ := block_eq ahead
        simp only [Keyword.word, taken, read, pure_bind]
        exact ⟨_, rfl, .goesOn rfl rfl blank rfl⟩
      | total => exact ⟨_, rfl, .behind rfl rfl⟩

/-- One turn takes in the token that stands behind blanks. -/
theorem turn_takes {reader : ByteReader} {gap : List Char} {c : Char} (ahead : Ahead text reader.pos (gap ++ c :: rest))
    (blank : ∀ d ∈ gap, isAsciiBlank d = true) (shown : isAsciiBlank c = false) :
    ∃ outcome, turn text reader = pure outcome ∧
      Takes reader.draft ⟨reader.pos + width gap, (Token.read c rest).1⟩ (Token.read c rest).2 outcome := by
  have first : (gap ++ c :: rest).takeWhile isAsciiBlank = gap := takeWhile_run blank (by simpa using shown)
  have behind := ahead.append
  obtain ⟨inside, byte, member, found⟩ := behind.exists_byteAt
  rw [turn, ahead.skipWhile IsByteClass.isAsciiBlank, first, pure_bind, if_pos inside, found, pure_bind]
  by_cases comment : c = '#'
  · subst comment
    rw [if_pos ((eq_iff_of_mem_bytes member).2 rfl), behind.lineEnd, pure_bind]
    refine ⟨_, rfl, .behind rfl ?_⟩
    have taken : ('#' :: rest).takeWhile Token.inLine = '#' :: rest.takeWhile Token.inLine :=
      List.takeWhile_cons_of_pos (by decide)
    rw [taken]
    rfl
  rw [if_neg (mt (eq_iff_of_mem_bytes member).1 comment)]
  by_cases bang : c = '!'
  · subst bang
    rw [if_pos ((eq_iff_of_mem_bytes member).2 rfl)]
    exact decorator_takes behind reader.draft
  rw [if_neg (mt (eq_iff_of_mem_bytes member).1 bang)]
  by_cases bracket : c = '['
  · subst bracket
    rw [if_pos ((eq_iff_of_mem_bytes member).2 rfl)]
    exact field_takes behind reader.draft
  rw [if_neg (mt (eq_iff_of_mem_bytes member).1 bracket)]
  exact word_takes behind (by simp [Token.isWordEnd, shown, comment, bang, bracket]) reader.draft

theorem turn_end {reader : ByteReader} (ahead : Ahead text reader.pos rest) (blank : ∀ c ∈ rest, isAsciiBlank c = true) :
    turn text reader = pure (false, ⟨width text, reader.draft⟩) := by
  have all : rest.takeWhile isAsciiBlank = rest := List.takeWhile_eq_self_iff.2 blank
  rw [turn, ahead.skipWhile IsByteClass.isAsciiBlank, all, ahead.width_eq, pure_bind, if_neg (by simp)]

/-- A text is blank, or a character that is not stands behind its first blanks. -/
theorem blank_or_shown (cs : List Char) :
    (∀ c ∈ cs, isAsciiBlank c = true) ∨
      ∃ gap c more, cs = gap ++ c :: more ∧ (∀ d ∈ gap, isAsciiBlank d = true) ∧ isAsciiBlank c = false := by
  have parts := List.takeWhile_append_dropWhile (p := isAsciiBlank) (l := cs)
  have stops := stops_dropWhile isAsciiBlank cs
  cases shown : cs.dropWhile isAsciiBlank with
  | nil => exact .inl (List.dropWhile_eq_nil_iff.1 shown)
  | cons c more =>
    rw [shown] at parts stops
    exact .inr ⟨_, c, more, parts.symm, fun _ => List.mem_takeWhile_imp, stops_cons.1 stops⟩

/-- Blanks before a text move its tokens. -/
theorem place_run_append {blanks : List Char} (blank : ∀ c ∈ blanks, isAsciiBlank c = true) (offset : Nat) (cs : List Char) :
    Item.place offset (Item.read (blanks ++ cs)) = Item.place (offset + width blanks) (Item.read cs) := by
  rw [Item.read_run_append blank]
  cases Item.read cs with
  | nil => rfl
  | cons item items => simp [Item.place, Nat.add_assoc]

theorem Takes.ahead {reader next : ByteReader} {gap : List Char} {c : Char} (ahead : Ahead text reader.pos (gap ++ c :: rest))
    (takes : Takes reader.draft ⟨reader.pos + width gap, (Token.read c rest).1⟩ (Token.read c rest).2 (true, next)) :
    ∃ blanks after, (Token.read c rest).2 = blanks ++ after ∧ (∀ d ∈ blanks, isAsciiBlank d = true) ∧
      Ahead text next.pos after ∧ next = ⟨reader.pos + width gap + width (Token.read c rest).1.text + width blanks,
        reader.draft.step ⟨reader.pos + width gap, (Token.read c rest).1⟩⟩ := by
  have whole := Token.text_read c rest
  cases takes with
  | goesOn same parts blank ends =>
    rw [← whole, parts] at ahead
    subst same ends
    exact ⟨_, _, parts, blank, ahead.append.append.append, rfl⟩

/-- The turns from an offset on take in what is left of the text. -/
theorem loop_finish {reader : ByteReader} (ahead : Ahead text reader.pos rest) :
    ∃ last, loop text reader = pure last ∧
      last.draft.finish = ((Item.place reader.pos (Item.read rest)).foldl Draft.step reader.draft).finish := by
  induction length : rest.length using Nat.strong_induction_on generalizing rest reader with
  | _ n ih =>
    rcases blank_or_shown rest with blank | ⟨gap, c, cs, rfl, blank, shown⟩
    · rw [loop, Checked.iterate_eq, turn_end ahead blank, pure_bind, pure_bind, Item.read_blank blank]
      exact ⟨_, rfl, rfl⟩
    · obtain ⟨⟨goesOn, next⟩, turned, takes⟩ := turn_takes ahead blank shown
      rw [loop, Checked.iterate_eq, turned, pure_bind, pure_bind, Item.read_cons blank shown, Item.place, List.foldl_cons]
      cases goesOn with
      | true =>
        obtain ⟨blanks, after, parts, between, behind, rfl⟩ := takes.ahead ahead
        have shorter : after.length < n := by
          have := Token.length_read_le c cs
          rw [parts, List.length_append] at this
          simp only [List.length_append, List.length_cons] at length
          omega
        obtain ⟨last, looped, same⟩ := ih _ shorter behind rfl
        refine ⟨last, looped, ?_⟩
        rw [same, parts, place_run_append between]
      | false =>
        cases takes with
        | stops same taken =>
          rw [taken, Item.read_nil]
          exact ⟨next, rfl, same⟩

/-- A reader that stands between characters ends its turn without a fault, and goes on only forward to such a place. -/
theorem turn_advances {reader : ByteReader} (boundary : IsBoundary text reader.pos) :
    ∃ goesOn next, turn text reader = pure (goesOn, next) ∧
      (goesOn = true → reader.pos < next.pos ∧ IsBoundary text next.pos) := by
  obtain ⟨rest, ahead⟩ := isBoundary_iff.1 boundary
  rcases blank_or_shown rest with blank | ⟨gap, c, cs, rfl, blank, shown⟩
  · exact ⟨_, _, turn_end ahead blank, by simp⟩
  · obtain ⟨⟨goesOn, next⟩, turned, takes⟩ := turn_takes ahead blank shown
    refine ⟨goesOn, next, turned, ?_⟩
    rintro rfl
    obtain ⟨blanks, after, -, -, behind, rfl⟩ := takes.ahead ahead
    refine ⟨?_, behind.isBoundary⟩
    obtain ⟨d, more, first⟩ := List.exists_cons_of_ne_nil (Token.read_ne_nil c cs)
    have := d.utf8Size_pos
    simp only [first, width_cons]
    omega

/-- The states of the reader before its turns. -/
inductive Reached (text : List Char) : ByteReader → Prop where
  | start : Reached text {}
  | turn {reader next : ByteReader} (reached : Reached text reader) (turned : turn text reader = pure (true, next)) :
      Reached text next

theorem Reached.isBoundary {reader : ByteReader} (reached : Reached text reader) : IsBoundary text reader.pos := by
  induction reached with
  | start => exact (Ahead.start text).isBoundary
  | turn reached turned ih =>
    obtain ⟨goesOn, next, same, forward⟩ := turn_advances ih
    rw [turned] at same
    obtain ⟨rfl, rfl⟩ := Prod.mk.inj (Checked.pure_inj same)
    exact (forward rfl).2

theorem read_eq (text : String) : read text = pure (Sheet.read text) := by
  obtain ⟨last, looped, same⟩ := @loop_finish text.toList text.toList {} (Ahead.start _)
  rw [read, looped, pure_bind, same]
  rfl

end Gridbook.ByteReader
