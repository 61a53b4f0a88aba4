import Gridbook.Proofs.Bytes

/-!
Reading a sheet byte by byte. The reader stands at a byte of the text and keeps the sheet it has made so far; each turn
takes in what starts at the next byte that is not blank. Every access to the text is checked and every loop may run on.
Still each turn ends without a fault, goes forward, and takes in the token that stands there; so reading ends, with the
sheet of the text.
-/
namespace Gridbook

open Text

structure ByteReader where
  pos : Nat := 0
  draft : Draft := {}

namespace Draft

/-- Keeps a decorator until its table or field comes. -/
def attach (draft : Draft) (name : List Char) (args : Option (List Char)) (span : Span) : Draft :=
  { draft with pending := { draft.pending.mark span.start with
      decorators := draft.pending.decorators ++ [⟨String.ofList name, args.map String.ofList, span⟩] } }

def close (draft : Draft) : Draft :=
  { draft with closed := draft.tables, current := none, inTotals := false }

def enter (draft : Draft) (name : List Char) (nameSpan : Span) (expression : Option Expression) : Draft :=
  match draft.current with
  | none => { draft with pending := {} }.report nameSpan.start (.strayField (String.ofList name))
  | some table =>
    let stop := (expression.map fun e => max e.span.stop nameSpan.stop).getD nameSpan.stop
    let field : Field :=
      { key := ⟨table.name, String.ofList name⟩
        isKey := draft.pending.isKey
        isDim := draft.pending.isDim
        decorators := draft.pending.decorators
        expression
        span := ⟨draft.pending.start.getD nameSpan.start, stop⟩
        nameSpan }
    let grown := { table with span := ⟨table.span.start, stop⟩ }
    { draft with
      pending := {}
      current := some <|
        if draft.inTotals then { grown with totals := table.totals ++ [field] }
        else { grown with fields := table.fields ++ [field] } }

def occupy (draft : Draft) (kind : BlockKind) (span : Span) : Draft :=
  match draft.current with
  | none => draft.report span.start (.strayBlock kind)
  | some table =>
    let grown := { table with span := ⟨table.span.start, span.stop⟩ }
    { draft with
      current := some <|
        match kind with
        | .override => { grown with overrideSpan := some span }
        | .apply => { grown with applySpan := some span } }

end Draft

namespace ByteReader

variable (text : List Char)

/-- The end of a quoted name from behind its opening quote, if it is closed on the line. -/
def quoteEnd : Nat → Checked (Option Nat) :=
  Checked.iterate fun pos => do
    if pos < (bytes text).length then
      let byte ← byteAt text pos
      if byte = '\x27' then
        if (bytes text)[pos + 1]? = some '\x27' then return .inr (pos + 2) else return .inl (some (pos + 1))
      else if byte = '\n' then return .inl none
      else return .inr (pos + 1)
    else return .inl none

/-- The first comment mark outside quotes on a line that ends at `stop`, or `stop`, from an open quote and an offset. -/
def expressionEnd (stop : Nat) : Option Char × Nat → Checked Nat :=
  Checked.iterate fun (quote, pos) => do
    if pos < stop then
      let byte ← byteAt text pos
      match quote with
      | none =>
        if byte = '"' ∨ byte = '\x27' then return .inr (some byte, pos + 1)
        else if byte = '#' then return .inl pos
        else return .inr (none, pos + 1)
      | some mark => return .inr (if byte = mark then none else some mark, pos + 1)
    else return .inl stop

/-- The index of the parenthesis that closes the first one, among bytes of which the first has the index `i`. -/
def argsEnd : (left : List Char) → (i depth : Nat) → (quoted : Bool) → Checked (Option Nat)
  | [], _, _, _ => return none
  | byte :: left, i, depth, quoted =>
    if byte = '"' then argsEnd left (i + 1) depth (!quoted)
    else if byte = '(' ∧ quoted = false then argsEnd left (i + 1) (depth + 1) quoted
    else if byte = ')' ∧ quoted = false then do
      let depth ← Checked.minus depth 1
      if depth = 0 then return some i else argsEnd left (i + 1) depth quoted
    else argsEnd left (i + 1) depth quoted

/-- The line end, or the end of the text, behind the last line of a block, from a line end on. -/
def blockEnd : Nat → Checked Nat :=
  Checked.iterate fun pos => do
    if pos < (bytes text).length then
      let stop ← lineEnd text (pos + 1)
      if Token.endsBlock (← sliceAt text (pos + 1) stop) then return .inl pos else return .inr stop
    else return .inl pos

/-- The range of a block whose keyword starts at `start`, and where the reader goes on. -/
def block (start pos : Nat) : Checked (Span × Nat) := do
  let pos ← blockEnd text (← lineEnd text pos)
  return (⟨start, ← skipBack text isAsciiBlank start pos⟩, pos)

def definition (pos : Nat) : Checked (Option Expression × Nat) := do
  let pos ← skipWhile text isInlineBlank pos
  if (bytes text)[pos]? = some '=' then
    let stop ← lineEnd text (pos + 1)
    let raw ← sliceAt text (pos + 1) (← expressionEnd text stop (none, pos + 1))
    let lead ← Checked.minus (width raw) (width (trimStart raw))
    let body ← sliceAt text (pos + 1 + lead) (pos + 1 + lead + width (trim raw))
    return (some ⟨String.ofList body, ⟨pos + 1 + lead, pos + 1 + lead + width (trim raw)⟩⟩, stop)
  else return (none, pos)

/-- Takes in a field. The reader stands at the bracket. -/
def field (start : Nat) (draft : Draft) : Checked (Bool × ByteReader) := do
  let close ← skipWhile text (fun c => c != ']' && c != '\n') (start + 1)
  if (bytes text)[close]? = some ']' then
    let name ← sliceAt text (start + 1) close
    let (expression, pos) ← definition text (close + 1)
    return (true, ⟨pos, draft.enter name ⟨start, close + 1⟩ expression⟩)
  else return (false, ⟨start, draft.report start .unclosedFieldName⟩)

/-- Takes in a decorator. The reader stands at the exclamation mark. -/
def decorator (start : Nat) (draft : Draft) : Checked (Bool × ByteReader) := do
  let pos ← skipWhile text Token.isDecoratorNameChar (start + 1)
  let name ← sliceAt text (start + 1) pos
  if name.isEmpty then return (true, ⟨pos, draft.report start .emptyDecoratorName⟩)
  else if (bytes text)[pos]? = some '(' then
    match ← argsEnd (← bytesFrom text pos) 0 0 false with
    | none => return (false, ⟨pos, draft.report start (.unclosedArguments (String.ofList name))⟩)
    | some i =>
      let args ← sliceAt text (pos + 1) (pos + i)
      return (true, ⟨pos + i + 1, draft.attach name (some args) ⟨start, pos + i + 1⟩⟩)
  else return (true, ⟨pos, draft.attach name none ⟨start, pos⟩⟩)

def nameEnd (pos : Nat) : Checked (Option Nat) := do
  if (bytes text)[pos]? = some '\x27' then quoteEnd text (pos + 1)
  else return some (← skipWhile text (!Token.isWordEnd ·) pos)

/-- Opens the table whose name stands in a range. An empty range is a missing name. -/
def openAt (start : Nat) (span : Span) (draft : Draft) : Checked (Bool × ByteReader) := do
  if span.stop ≤ span.start then
    return (true, ⟨span.stop, { draft.close with pending := {} }.report start .missingTableName⟩)
  else
    let name ← sliceAt text span.start span.stop
    return (true, ⟨span.stop, { draft.close with
      pending := {}
      current := some {
        name := String.ofList name
        decorators := draft.pending.decorators
        span := ⟨draft.pending.start.getD start, span.stop⟩
        nameSpan := span
        fields := []
        totals := []
        overrideSpan := none
        applySpan := none } }⟩)

/-- Takes in a table header. The reader stands behind the keyword. -/
def header (start pos : Nat) (draft : Draft) : Checked (Bool × ByteReader) := do
  let pos ← skipWhile text isInlineBlank pos
  match ← nameEnd text pos with
  | none => return (false, ⟨pos, draft.close.report start .unclosedTableName⟩)
  | some stop => openAt text start ⟨pos, stop⟩ draft

def word (start : Nat) (draft : Draft) : Checked (Bool × ByteReader) := do
  if (← byteAt text start) = '\x27' then
    match ← quoteEnd text (start + 1) with
    | none => return (false, ⟨start, draft.report start .unclosedName⟩)
    | some pos => return (true, ⟨pos, draft⟩)
  else
    let pos ← skipWhile text (!Token.isWordEnd ·) start
    match Keyword.ofWord? (← sliceAt text start pos) with
    | some .table => header text start pos draft
    | some .key => return (true, ⟨pos, { draft with pending := { draft.pending.mark start with isKey := true } }⟩)
    | some .dim => return (true, ⟨pos, { draft with pending := { draft.pending.mark start with isDim := true } }⟩)
    | some (.block kind) =>
      let (span, pos) ← block text start pos
      return (true, ⟨pos, draft.occupy kind span⟩)
    | some .total =>
      return (true, ⟨pos, { draft with
        inTotals := true
        current := draft.current.map fun table => { table with span := ⟨table.span.start, pos⟩ } }⟩)
    | none => return (true, ⟨pos, draft⟩)

/-- One turn of the reader, and whether another is to follow. -/
def turn (reader : ByteReader) : Checked (Bool × ByteReader) := do
  let pos ← skipWhile text isAsciiBlank reader.pos
  if pos < (bytes text).length then
    let byte ← byteAt text pos
    if byte = '#' then return (true, ⟨← lineEnd text pos, reader.draft⟩)
    else if byte = '!' then decorator text pos reader.draft
    else if byte = '[' then field text pos reader.draft
    else word text pos reader.draft
  else return (false, ⟨pos, reader.draft⟩)

def loop : ByteReader → Checked ByteReader :=
  Checked.iterate fun reader => do
    let (goesOn, next) ← turn text reader
    return if goesOn then .inr next else .inl next

def read (text : String) : Checked Sheet := do
  let last ← loop text.toList {}
  return last.draft.finish

end ByteReader

def Definition.locate (d : Definition) (nameStop : Nat) : Expression :=
  let bodyStart := nameStop + width d.gap + width ['='] + width d.lead
  ⟨String.ofList d.body, ⟨bodyStart, bodyStart + width d.body⟩⟩

/-! ### The parts of a token, byte by byte -/

namespace Token

variable {a : List Char}

theorem readQuoted_wide (wide : ∀ c ∈ a, 128 ≤ c.toNat) (rest : List Char) :
    readQuoted (a ++ rest) = (readQuoted rest).map fun found => (a ++ found.1, found.2) := by
  induction a with
  | nil => simp
  | cons c a ih =>
    have behind := ih fun d member => wide d (by simp [member])
    have quote : c ≠ '\x27' := ne_of_wide (wide c (by simp)) (by decide)
    have newline : c ≠ '\n' := ne_of_wide (wide c (by simp)) (by decide)
    rw [List.cons_append, readQuoted.eq_def]
    simp only [quote, newline, if_false, behind, Option.map_map]
    rfl

theorem splitRemark_wide {quote : Option Char} (wide : ∀ c ∈ a, 128 ≤ c.toNat) (ascii : ∀ c ∈ quote, c.toNat < 128)
    (rest : List Char) :
    splitRemark quote (a ++ rest) = (a ++ (splitRemark quote rest).1, (splitRemark quote rest).2) := by
  induction a with
  | nil => simp
  | cons c a ih =>
    have behind := ih fun d member => wide d (by simp [member])
    have other {d : Char} : d.toNat < 128 → c ≠ d := ne_of_wide (wide c (by simp))
    cases quote with
    | none => simp [splitRemark, other, behind]
    | some mark => simp [splitRemark, other (ascii mark rfl), behind]

theorem readArgs_wide {depth : Nat} {quoted : Bool} (wide : ∀ c ∈ a, 128 ≤ c.toNat) (rest : List Char) :
    readArgs depth quoted (a ++ rest) = (readArgs depth quoted rest).map fun found => (a ++ found.1, found.2) := by
  induction a with
  | nil => simp
  | cons c a ih =>
    have behind := ih fun d member => wide d (by simp [member])
    have other {d : Char} : d.toNat < 128 → c ≠ d := ne_of_wide (wide c (by simp))
    cases quoted <;> simp [readArgs, other, behind, Function.comp_def]

theorem readQuoted_bytes (cs : List Char) :
    readQuoted (bytes cs) = (readQuoted cs).map fun found => (bytes found.1, bytes found.2) := by
  have quote : ('\x27' : Char).toNat < 128 := by decide
  fun_induction readQuoted cs with
  | case1 => rfl
  | case2 => rfl
  | case3 cs ih =>
    rw [bytes_cons_ascii quote, bytes_cons_ascii quote, readQuoted.eq_def]
    simp only [if_true, ih, Option.map_map, Function.comp_def, bytes_cons_ascii quote]
  | case4 d cs other =>
    obtain ⟨byte, more, first⟩ := List.exists_cons_of_ne_nil (bytes_singleton_ne_nil d)
    have apart : byte ≠ '\x27' := fun same => other ((eq_iff_of_mem_bytes (by simp [first]) quote).1 same)
    have behind : bytes (d :: cs) = byte :: (more ++ bytes cs) := by rw [bytes_cons, first, List.cons_append]
    rw [bytes_cons_ascii quote, behind, readQuoted.eq_def]
    simp [apart, behind, bytes_ascii quote]
  | case5 cs =>
    rw [bytes_cons_ascii (by decide), readQuoted.eq_def]
    rfl
  | case6 c cs hc hn ih =>
    by_cases narrow : c.toNat < 128
    · rw [bytes_cons_ascii narrow, readQuoted.eq_def]
      simp only [hc, hn, if_false, ih, Option.map_map, Function.comp_def, bytes_cons_ascii narrow]
    · have wide := Nat.not_lt.1 narrow
      rw [bytes_cons, readQuoted_wide fun _ => wide_of_mem_bytes wide, ih, Option.map_map, Option.map_map]
      simp only [Function.comp_def, ← bytes_append, List.singleton_append]

theorem splitRemark_bytes {quote : Option Char} (ascii : ∀ c ∈ quote, c.toNat < 128) (line : List Char) :
    splitRemark quote (bytes line) = (bytes (splitRemark quote line).1, bytes (splitRemark quote line).2) := by
  induction line generalizing quote with
  | nil => rfl
  | cons c line ih =>
    by_cases narrow : c.toNat < 128
    · rw [bytes_cons_ascii narrow]
      cases quote with
      | none =>
        have behind := @ih (if c = '"' ∨ c = '\x27' then some c else none) (by split <;> simp [narrow])
        by_cases mark : c = '#'
        · subst mark
          simp [splitRemark, bytes_cons_ascii narrow]
        · simp [splitRemark, mark, behind, bytes_cons_ascii narrow]
      | some mark =>
        have behind := @ih (if c = mark then none else some mark) (by split <;> simp [ascii mark rfl])
        simp [splitRemark, behind, bytes_cons_ascii narrow]
    · have wide := Nat.not_lt.1 narrow
      have one := splitRemark_wide (a := [c]) (by simpa using wide) ascii line
      rw [List.singleton_append] at one
      rw [bytes_cons, splitRemark_wide (fun _ => wide_of_mem_bytes wide) ascii, ih ascii, one, ← bytes_append]

theorem readArgs_bytes (depth : Nat) (quoted : Bool) (cs : List Char) :
    readArgs depth quoted (bytes cs) = (readArgs depth quoted cs).map fun found => (bytes found.1, bytes found.2) := by
  induction cs generalizing depth quoted with
  | nil => rfl
  | cons c cs ih =>
    by_cases narrow : c.toNat < 128
    · have step (depth : Nat) (quoted : Bool) :
          (readArgs depth quoted (bytes cs)).map (fun found => (c :: found.1, found.2)) =
            ((readArgs depth quoted cs).map fun found => (c :: found.1, found.2)).map
              fun found => (bytes found.1, bytes found.2) := by
        rw [ih, Option.map_map, Option.map_map]
        simp only [Function.comp_def, bytes_cons_ascii narrow]
      rw [bytes_cons_ascii narrow]
      cases depth <;> cases quoted <;> simp only [readArgs] <;> split_ifs <;> first | exact step _ _ | rfl
    · have wide := Nat.not_lt.1 narrow
      have one : readArgs depth quoted ([c] ++ cs) = _ := readArgs_wide (by simpa using wide) cs
      rw [List.singleton_append] at one
      rw [bytes_cons, readArgs_wide fun _ => wide_of_mem_bytes wide, ih, one, Option.map_map, Option.map_map]
      simp only [Function.comp_def, bytes_append]

end Token

namespace ByteReader

variable {text rest : List Char} {pos : Nat}

theorem quoteEnd_eq (ahead : Ahead text pos rest) :
    quoteEnd text pos = pure ((Token.readQuoted rest).map fun found => pos + width found.1) := by
  have walk : ∀ (left : List Char) (pos : Nat), (bytes text).drop pos = left →
      quoteEnd text pos = pure ((Token.readQuoted left).map fun found => pos + found.1.length) := by
    intro left
    fun_induction Token.readQuoted left with
    | case1 =>
      intro pos there
      rw [quoteEnd, Checked.iterate_eq, if_neg (walk_end there), pure_bind]
      rfl
    | case2 =>
      intro pos there
      obtain ⟨inside, found, behind⟩ := walk_step there
      have last : (bytes text)[pos + 1]? = none := by rw [← List.head?_drop, behind, List.head?_nil]
      rw [quoteEnd, Checked.iterate_eq, if_pos inside, found, pure_bind, if_pos rfl, last, if_neg (by simp), pure_bind]
      rfl
    | case3 left ih =>
      intro pos there
      obtain ⟨inside, found, behind⟩ := walk_step there
      have next : (bytes text)[pos + 1]? = some '\x27' := by rw [← List.head?_drop, behind, List.head?_cons]
      rw [quoteEnd, Checked.iterate_eq, if_pos inside, found, pure_bind, if_pos rfl, if_pos next, pure_bind]
      refine (ih _ (walk_step behind).2.2).trans ?_
      simp [Function.comp_def, Nat.add_assoc, Nat.add_comm 2]
    | case4 d left other =>
      intro pos there
      obtain ⟨inside, found, behind⟩ := walk_step there
      have next : (bytes text)[pos + 1]? ≠ some '\x27' := by
        rw [← List.head?_drop, behind, List.head?_cons]
        simpa using other
      rw [quoteEnd, Checked.iterate_eq, if_pos inside, found, pure_bind, if_pos rfl, if_neg next, pure_bind]
      rfl
    | case5 left =>
      intro pos there
      obtain ⟨inside, found, -⟩ := walk_step there
      rw [quoteEnd, Checked.iterate_eq, if_pos inside, found, pure_bind, if_neg (by decide), if_pos rfl, pure_bind]
      rfl
    | case6 c left quote newline ih =>
      intro pos there
      obtain ⟨inside, found, behind⟩ := walk_step there
      rw [quoteEnd, Checked.iterate_eq, if_pos inside, found, pure_bind, if_neg quote, if_neg newline, pure_bind]
      refine (ih _ behind).trans ?_
      simp [Function.comp_def, Nat.add_assoc, Nat.add_comm 1]
  rw [walk _ pos ahead.drop_bytes, Token.readQuoted_bytes, Option.map_map]
  simp only [Function.comp_def, length_bytes]

theorem expressionEnd_eq {line : List Char} (ahead : Ahead text pos (line ++ rest)) :
    expressionEnd text (pos + width line) (none, pos) = pure (pos + width (Token.splitRemark none line).1) := by
  have walk : ∀ (left more : List Char) (quote : Option Char) (pos : Nat), (bytes text).drop pos = left ++ more →
      expressionEnd text (pos + left.length) (quote, pos) = pure (pos + (Token.splitRemark quote left).1.length) := by
    intro left more
    induction left with
    | nil =>
      intro quote pos there
      rw [expressionEnd, Checked.iterate_eq]
      simp only [List.length_nil, Nat.add_zero, Nat.lt_irrefl, if_false, pure_bind, Sum.elim_inl]
      cases quote <;> rfl
    | cons byte left ih =>
      intro quote pos there
      obtain ⟨-, found, behind⟩ := walk_step there
      have stop : pos + (byte :: left).length = pos + 1 + left.length := by simp [Nat.add_assoc, Nat.add_comm 1]
      have next (quote : Option Char) : expressionEnd text (pos + 1 + left.length) (quote, pos + 1) =
          pure (pos + (byte :: (Token.splitRemark quote left).1).length) := by
        rw [ih quote (pos + 1) behind, List.length_cons, Nat.add_assoc, Nat.add_comm 1]
      have inside : pos < pos + 1 + left.length := by omega
      rw [stop, expressionEnd, Checked.iterate_eq, ← expressionEnd]
      simp only [if_pos inside, found, pure_bind]
      cases quote with
      | none =>
        by_cases mark : byte = '"' ∨ byte = '\x27'
        · have plain : byte ≠ '#' := by rintro rfl; simp at mark
          simp only [if_pos mark, pure_bind, Sum.elim_inr, next, Token.splitRemark, if_neg plain]
        · by_cases comment : byte = '#'
          · simp only [if_neg mark, if_pos comment, pure_bind, Sum.elim_inl, Token.splitRemark, List.length_nil,
              Nat.add_zero]
          · simp only [if_neg mark, if_neg comment, pure_bind, Sum.elim_inr, next, Token.splitRemark]
      | some mark => simp only [pure_bind, Sum.elim_inr, next, Token.splitRemark]
  have there := ahead.drop_bytes
  rw [bytes_append] at there
  have whole := walk _ _ none pos there
  rwa [Token.splitRemark_bytes (by simp), length_bytes, length_bytes] at whole

theorem argsEnd_eq (left : List Char) (i depth : Nat) (quoted : Bool) :
    argsEnd left i (depth + 1) quoted = pure ((Token.readArgs depth quoted left).map fun found => i + found.1.length) := by
  induction left generalizing i depth quoted with
  | nil => rfl
  | cons byte left ih =>
    have next (depth : Nat) (quoted : Bool) : argsEnd left (i + 1) (depth + 1) quoted =
        pure (((Token.readArgs depth quoted left).map fun found => (byte :: found.1, found.2)).map
          fun found => i + found.1.length) := by
      rw [ih, Option.map_map]
      simp only [Function.comp_def, List.length_cons, Nat.add_assoc, Nat.add_comm 1]
    have down : Checked.minus (depth + 1) 1 = pure depth := Checked.minus_eq (by simp)
    unfold argsEnd Token.readArgs
    by_cases quote : byte = '"'
    · simp only [if_pos quote, next]
    · cases quoted with
      | true => simp only [if_neg quote, next, Bool.true_eq_false, and_false, if_false, if_true]
      | false =>
        simp only [if_neg quote, and_true, down, pure_bind, next, Bool.false_eq_true, if_false]
        -- A closing parenthesis ends the arguments only if it is the last one open.
        by_cases opens : byte = '('
        · simp only [if_pos opens]
        · by_cases closes : byte = ')'
          · cases depth with
            | zero => simp only [if_neg opens, if_pos closes, if_true]; rfl
            | succ depth => simp only [if_neg opens, if_pos closes, Nat.succ_ne_zero, if_false, next]
          · simp only [if_neg opens, if_neg closes]

theorem blockEnd_eq (ahead : Ahead text pos rest) (start : Stops Token.inLine rest) :
    blockEnd text pos = pure (pos + width (Token.blockLines rest).1) := by
  fun_induction Token.blockLines rest generalizing pos with
  | case1 =>
    rw [blockEnd, Checked.iterate_eq, if_neg (walk_end ahead.drop_bytes), pure_bind]
    rfl
  | case2 c cs ends =>
    obtain rfl : c = '\n' := by simpa [Token.inLine] using start
    have line := ahead.cons
    rw [blockEnd, Checked.iterate_eq, if_pos ahead.exists_byteAt.1, line.lineEnd, pure_bind, line.sliceAt_takeWhile,
      pure_bind, if_pos ends, pure_bind]
    rfl
  | case3 c cs goesOn lines rest found ih =>
    obtain rfl : c = '\n' := by simpa [Token.inLine] using start
    have line := ahead.cons
    rw [blockEnd, Checked.iterate_eq, if_pos ahead.exists_byteAt.1, line.lineEnd, pure_bind, line.sliceAt_takeWhile,
      pure_bind, if_neg goesOn, pure_bind]
    refine (ih (line.dropWhile _) (stops_dropWhile _ _)).trans ?_
    simp [found, utf8Size_ascii, Nat.add_assoc]

/-- A block is taken in up to the blanks at its end, and the reader goes on behind them. -/
theorem block_eq {kind : BlockKind} {start : Nat} (ahead : Ahead text start (kind.word.toList ++ rest)) :
    ∃ body blanks after, Token.readBlock kind rest = (.block kind body, blanks ++ after) ∧
      (∀ c ∈ blanks, isAsciiBlank c = true) ∧
      block text start (start + width kind.word.toList) =
        pure (⟨start, start + width (Token.block kind body).text⟩,
          start + width (Token.block kind body).text + width blanks) := by
  have keyword := ahead.append
  have first := keyword.dropWhile Token.inLine
  have lines := Token.blockLines_append (rest.dropWhile Token.inLine)
  obtain ⟨blanks, whole, blank⟩ := exists_run_dropEndWhile isAsciiBlank
    (rest.takeWhile Token.inLine ++ (Token.blockLines (rest.dropWhile Token.inLine)).1)
  generalize body_eq : dropEndWhile isAsciiBlank
    (rest.takeWhile Token.inLine ++ (Token.blockLines (rest.dropWhile Token.inLine)).1) = body at whole
  have stops : Stops isAsciiBlank (kind.word.toList ++ body).reverse := by
    rw [List.reverse_append]
    refine Stops.append (body_eq ▸ stops_dropEndWhile _ _) ?_
    cases kind <;> simp [BlockKind.word, isAsciiBlank]
  refine ⟨body, blanks, (Token.blockLines (rest.dropWhile Token.inLine)).2, ?_, blank, ?_⟩
  · simp only [Token.readBlock, body_eq]
    rw [whole, List.drop_left]
  · have taken : Ahead text start (kind.word.toList ++ body ++ blanks ++ (Token.blockLines (rest.dropWhile Token.inLine)).2) := by
      have parts : rest = body ++ blanks ++ (Token.blockLines (rest.dropWhile Token.inLine)).2 := by
        rw [← whole, List.append_assoc, lines, List.takeWhile_append_dropWhile]
      rw [parts] at ahead
      simpa using ahead
    have stop : start + width kind.word.toList + width (rest.takeWhile Token.inLine) +
        width (Token.blockLines (rest.dropWhile Token.inLine)).1 =
          start + width (kind.word.toList ++ body ++ blanks) := by
      have widths := congrArg width whole
      simp only [width_append] at widths ⊢
      omega
    rw [block, keyword.lineEnd, pure_bind, blockEnd_eq first (stops_dropWhile _ _), pure_bind, stop,
      taken.skipBack IsByteClass.isAsciiBlank, dropEndWhile_append_run blank, dropEndWhile_of_stops stops, pure_bind]
    simp [Token.text, Nat.add_assoc]

theorem definition_none (ahead : Ahead text pos rest) (bare : Token.readDefinition rest = none) :
    definition text pos = pure (none, pos + width (rest.takeWhile isInlineBlank)) := by
  have behind := ahead.dropWhile isInlineBlank
  have other : (bytes text)[pos + width (rest.takeWhile isInlineBlank)]? ≠ some '=' := by
    intro equals
    obtain ⟨more, found⟩ := (behind.getElem?_bytes).1 equals
    simp [Token.readDefinition, found] at bare
  rw [definition, ahead.skipWhile IsByteClass.isInlineBlank, pure_bind, if_neg other]

theorem definition_some {d : Definition} {after : List Char} (ahead : Ahead text pos rest)
    (found : Token.readDefinition rest = some (d, after)) :
    definition text pos = pure (some (d.locate pos), pos + width d.text) := by
  obtain ⟨wellFormed, ends⟩ := Token.readDefinition_sound found
  obtain rfl := Token.readDefinition_append found
  rw [Definition.text, List.append_assoc, List.cons_append] at ahead
  have gap : (d.gap ++ '=' :: (d.lead ++ d.body ++ d.tail ++ after)).takeWhile isInlineBlank = d.gap :=
    takeWhile_run wellFormed.gap (by simp [isInlineBlank])
  have equals := ahead.append
  have line := equals.cons
  have stop : (d.lead ++ d.body ++ d.tail ++ after).takeWhile Token.inLine = d.lead ++ d.body ++ d.tail :=
    takeWhile_run wellFormed.line ends
  have remark := Token.splitRemark_append none (d.lead ++ d.body ++ d.tail)
  have lead := wellFormed.lead
  have body := wellFormed.body
  have expression := expressionEnd_eq line
  generalize Token.splitRemark none (d.lead ++ d.body ++ d.tail) = split at remark lead body expression
  have raw : Ahead text (pos + width d.gap + 1) (split.1 ++ (split.2 ++ after)) := by
    rwa [← List.append_assoc, remark]
  have blanks : Checked.minus (width split.1) (width (trimStart split.1)) = pure (width d.lead) := by
    have parts := congrArg width (List.takeWhile_append_dropWhile (p := isBlank) (l := split.1))
    rw [← lead, width_append, ← trimStart] at parts
    rw [Checked.minus_eq (by omega), ← parts, Nat.add_sub_cancel]
  have trimmed : Ahead text (pos + width d.gap + 1 + width d.lead) (d.body ++ (d.tail ++ after)) := by
    apply Ahead.append
    simpa using line
  rw [definition, ahead.skipWhile IsByteClass.isInlineBlank, gap, pure_bind,
    if_pos ((equals.getElem?_bytes).2 ⟨_, rfl⟩), line.lineEnd, stop, pure_bind, expression, pure_bind,
    raw.sliceAt, pure_bind, blanks, pure_bind, ← body, trimmed.sliceAt, pure_bind]
  simp [Definition.locate, Definition.text, utf8Size_ascii, Nat.add_assoc]

end ByteReader
end Gridbook
