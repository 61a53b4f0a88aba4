import Gridbook.Proofs.Places

/-!
Expressions set more than once. An expression that is trimmed stands, when the text is read again, exactly where it was
written; so what is written next takes its place and leaves no trace of it. Of two fields, the one that comes later is
found behind the first whatever is set there, and the first is read before anything that is set on the later one.
-/
namespace Gridbook

open Text

/-- A trimmed expression between blanks, before a comment, is read at its place. -/
theorem Definition.ofLine_eq {gap lead expression tail : List Char} (blank : ∀ c ∈ lead, isBlank c = true)
    (legal : IsExpression expression) (nonempty : expression ≠ []) (trimmed : trim expression = expression)
    (quiet : IsRemark tail) : ofLine gap (lead ++ (expression ++ tail)) = ⟨gap, lead, expression, tail⟩ := by
  let d := ofLine gap (lead ++ (expression ++ tail))
  have body : d.body = expression := by rw [body_ofLine blank legal quiet, trimmed]
  have start : Stops isBlank (expression ++ (Token.splitRemark none tail).1) := by
    rw [stops_append nonempty, ← trimmed]
    exact stops_trim expression
  have before : d.lead = lead := by
    change List.takeWhile isBlank (Token.splitRemark none (lead ++ (expression ++ tail))).1 = lead
    rw [Token.splitRemark_blank_append blank, Token.splitRemark_free_append legal.free, legal.shut]
    exact takeWhile_run blank start
  have behind : d.tail = tail := by
    have whole : d.lead ++ d.body ++ d.tail = lead ++ (expression ++ tail) := line_ofLine gap _
    rw [before, body, List.append_assoc] at whole
    exact List.append_cancel_left (List.append_cancel_left whole)
  calc d = ⟨gap, d.lead, d.body, d.tail⟩ := rfl
    _ = ⟨gap, lead, expression, tail⟩ := by rw [before, body, behind]

namespace Sheet

namespace Place

variable {table field : String} (place : Place table field) {expression : List Char}

theorem definition_set (quiet : IsRemark place.tail) (legal : IsExpression expression) (nonempty : expression ≠ [])
    (trimmed : trim expression = expression) :
    (place.set expression legal.oneLine).definition = some ⟨place.blanks, place.lead, expression, place.tail⟩ :=
  congrArg some (Definition.ofLine_eq (fun c member => (place.lead_blank c member).1) legal nonempty trimmed quiet)

/-- What stands around the expression is not changed by what is set. -/
theorem around_set (quiet : IsRemark place.tail) (legal : IsExpression expression) (nonempty : expression ≠ [])
    (trimmed : trim expression = expression) :
    (place.set expression legal.oneLine).before = place.before ∧ (place.set expression legal.oneLine).after = place.after := by
  have defined := place.definition_set quiet legal nonempty trimmed
  constructor
  · simp only [before, opening, blanks, lead, defined, Option.map_some, Option.getD_some]
    rfl
  · rw [after, after_eq, defined]
    rfl

end Place

/-- Setting the expression of a field and looking it up are a lens on the text: to set what the field has changes nothing;
what was set is found; and what is set later is all that is left, as if nothing had been set before. -/
theorem setExpression_lens (text table field : String) {found : Field}
    (declared : (read text).field? table field = some found) :
    (∀ old, found.expression.map (·.text) = some old → setExpression text table field old = some text) ∧
    ∀ first second : String,
      found.expression.isSome = true ∨ IsRemark (Cursor.ofOffset found.nameSpan.stop text.toList).lineAfter →
      first ≠ "" → trim first.toList = first.toList → IsExpression first.toList →
      ∃ middle out found', setExpression text table field first = some middle ∧
        (read middle).field? table field = some found' ∧ found'.expression.map (·.text) = some first ∧
        setExpression middle table field second = some out ∧ setExpression text table field second = some out := by
  obtain ⟨place, parts, rfl⟩ := exists_place declared
  obtain rfl : text = String.ofList place.text := by rw [← parts, String.ofList_toList]
  refine ⟨fun old same => ?_, fun first second room nonempty trimmed legal => ?_⟩
  · rw [place.expression_found] at same
    obtain ⟨d, defined, rfl⟩ := Option.map_eq_some_iff.1 same
    rw [place.setExpression_eq, String.toList_ofList, ← place.text_of_definition defined]
  · rw [String.toList_ofList] at room
    have quiet := place.isRemark_tail room
    have filled : first.toList ≠ [] := by simpa using nonempty
    let next := place.set first.toList legal.oneLine
    have defined : next.definition = some _ := place.definition_set quiet legal filled trimmed
    obtain ⟨before, after⟩ := place.around_set quiet legal filled trimmed
    refine ⟨String.ofList next.text, String.ofList (place.before ++ (second.toList ++ place.after)), next.found, ?_, ?_, ?_,
      ?_, place.setExpression_eq second⟩
    · rw [place.setExpression_eq, place.text_set]
    · rw [read, String.toList_ofList, next.field?_text]
    · rw [next.expression_found, defined, Option.map_some, String.ofList_toList]
    · rw [next.setExpression_eq, before, after]

/-- One field has a comment mark between quotes and blanks around its expression; behind the other there is a wide blank and
a comment, and a later field has its name. What is set at the end goes over two lines. -/
theorem setExpression_lens_commented :
    let text := "table t\r\n[g] = \u3000'a#' # it's\r\n!d [f]\u00a0# é\r\n[f] = 2"
    let first := "\"#\" & 'é'"
    ∃ g f middle out, (read text).field? "t" "g" = some g ∧ g.expression.map (·.text) = some "'a#'" ∧
      setExpression text "t" "g" "'a#'" = some text ∧ (read text).field? "t" "f" = some f ∧
      IsRemark (Cursor.ofOffset f.nameSpan.stop text.toList).lineAfter ∧ IsExpression first.toList ∧
      setExpression text "t" "f" first = some middle ∧ setExpression middle "t" "f" "1\n[z]" = some out ∧
      setExpression text "t" "f" "1\n[z]" = some out := by
  intro text first
  obtain ⟨g, declaredG, defined⟩ : ∃ g, (read text).field? "t" "g" = some g ∧
      g.expression.map (·.text) = some "'a#'" := Option.map_eq_some_iff.1 (by decide +kernel)
  obtain ⟨f, declaredF, stop⟩ : ∃ f, (read text).field? "t" "f" = some f ∧ f.nameSpan.stop = 37 :=
    Option.map_eq_some_iff.1 (by decide +kernel)
  have line : trim (Cursor.ofOffset 37 text.toList).lineAfter = "# é".toList := by decide +kernel
  have quiet : IsRemark (Cursor.ofOffset f.nameSpan.stop text.toList).lineAfter := by
    rw [IsRemark, stop, line]
    simp
  have legal : IsExpression first.toList := ⟨by decide +kernel, by decide +kernel, by decide +kernel⟩
  obtain ⟨middle, out, -, set, -, -, again, once⟩ := (setExpression_lens text "t" "f" declaredF).2 first "1\n[z]"
    (.inr quiet) (by decide) (by decide +kernel) legal
  exact ⟨g, f, middle, out, declaredG, defined, (setExpression_lens text "t" "g" declaredG).1 _ defined, declaredF, quiet,
    legal, set, again, once⟩

end Sheet

namespace Item

variable {items : List Item} {token : Token} {gap blanks line rest more : List Char}

/-- Blanks at the start of a text belong to its first gap. -/
theorem exists_gap (ascii : ∀ c ∈ gap, isAsciiBlank c = true) (wellFormed : token.WellFormed)
    (blank : ∀ c ∈ blanks, isAsciiBlank c = true) (parts : gap ++ (token.text ++ rest) = blanks ++ more) :
    ∃ gap', gap = blanks ++ gap' := by
  obtain ⟨c, cs, starts, shown⟩ := wellFormed.exists_cons
  have stops : Stops isAsciiBlank (token.text ++ rest) := by simpa [starts] using shown
  have same := congrArg (List.takeWhile isAsciiBlank) parts
  rw [takeWhile_run ascii stops, List.takeWhile_append_of_pos blank] at same
  exact ⟨_, same⟩

/-- Items behind blanks are read without them. -/
theorem Leads.exists_unindented (leads : Leads (items ++ [⟨gap, token⟩]) rest) (blank : ∀ c ∈ blanks, isAsciiBlank c = true)
    (parts : texts (items ++ [⟨gap, token⟩]) ++ rest = blanks ++ more) :
    ∃ items' gap', items'.map (·.token) = items.map (·.token) ∧ Leads (items' ++ [⟨gap', token⟩]) rest ∧
      blanks ++ (texts items' ++ gap') = texts items ++ gap := by
  cases items with
  | nil =>
    obtain ⟨ascii, wellFormed, ends, -⟩ := leads
    obtain ⟨gap', rfl⟩ := exists_gap ascii wellFormed blank (by simpa using parts)
    exact ⟨[], gap', rfl, ⟨(List.forall_mem_append.1 ascii).2, wellFormed, ends, trivial⟩, rfl⟩
  | cons item items =>
    obtain ⟨first, word⟩ := item
    obtain ⟨ascii, wellFormed, ends, further⟩ := leads
    obtain ⟨gap', rfl⟩ := exists_gap ascii wellFormed blank (by simpa using parts)
    exact ⟨⟨gap', word⟩ :: items, gap, rfl, ⟨(List.forall_mem_append.1 ascii).2, wellFormed, ends, further⟩, by simp⟩

/-- Of items that start on a line that says nothing, those behind it are read without it. -/
theorem Leads.exists_behind_remark (leads : Leads (items ++ [⟨gap, token⟩]) rest) (busy : token.isIdle = false)
    (quiet : IsRemark line) (inside : ∀ c ∈ line, Token.inLine c = true) (ends : Stops Token.inLine more)
    (parts : texts (items ++ [⟨gap, token⟩]) ++ rest = line ++ more) :
    ∃ items' gap', (∀ roster : Roster,
        (items'.map (·.token)).foldl Roster.step roster = (items.map (·.token)).foldl Roster.step roster) ∧
      Leads (items' ++ [⟨gap', token⟩]) rest ∧ line ++ (texts items' ++ gap') = texts items ++ gap := by
  obtain ⟨words, blanks, rfl, ascii, idle, silent⟩ := exists_idle quiet inside ends
  have both : items ++ [⟨gap, token⟩] ++ read rest = words ++ read (blanks ++ more) := by
    rw [← read_leads leads, ← read_leads silent, parts, List.append_assoc]
  -- The last item says something, so it stands behind all words of the line.
  obtain ⟨others, rfl⟩ : ∃ others, items = words ++ others := by
    rw [List.append_assoc] at both
    rcases List.append_eq_append_iff.1 both with ⟨beyond, same, behind⟩ | ⟨others, same, -⟩
    · cases beyond with
      | nil => exact ⟨[], by simpa using same.symm⟩
      | cons item beyond =>
        obtain rfl : ⟨gap, token⟩ = item := (List.cons.inj behind).1
        have silent := idle ⟨gap, token⟩ (by simp [same])
        simp [busy] at silent
    · exact ⟨others, same⟩
  rw [List.append_assoc, texts_append, List.append_assoc, List.append_assoc] at parts
  rw [List.append_assoc] at leads
  obtain ⟨items', gap', named, leads', spell⟩ :=
    (leads_append.1 leads).2.exists_unindented ascii (List.append_cancel_left parts)
  refine ⟨items', gap', fun roster => ?_, leads', ?_⟩
  · have silent : (words.map (·.token)).foldl Roster.step roster = roster :=
      Roster.foldl_idle (by simpa using idle) roster
    rw [named, List.map_append, List.foldl_append, silent]
  · rw [texts_append, List.append_assoc, spell, List.append_assoc]

end Item

theorem Roster.ofTokens_define (front : List Token) (word : List Char) (a b : Option Definition) :
    ofTokens (front ++ [.field word a]) = ofTokens (front ++ [.field word b]) := by
  rw [ofTokens_append, ofTokens_append]
  rfl

namespace Sheet

namespace Place

variable {table table' field field' : String} (first : Place table field) (second : Place table' field')
  {between : List Item}

/-- What is read between two fields, when the line of the first is its own. -/
theorem exists_between (behind : second.front = first.items ++ between) (same : first.text = second.text)
    (quiet : IsRemark first.tail) :
    ∃ items gap, (∀ roster : Roster,
        (items.map (·.token)).foldl Roster.step roster = (between.map (·.token)).foldl Roster.step roster) ∧
      Item.Leads (items ++ [⟨gap, .field field'.toList second.definition⟩]) second.rest ∧
      first.further = Item.texts (items ++ [⟨gap, .field field'.toList second.definition⟩]) ++ second.rest ∧
      first.tail ++ (Item.texts items ++ gap) =
        Token.behind first.definition ++ (Item.texts between ++ second.gap) := by
  let token := Token.field field'.toList second.definition
  have parts : second.items = first.items ++ (between ++ [⟨second.gap, token⟩]) := by
    rw [items, behind, List.append_assoc]
  have leads : Item.Leads second.items second.rest := second.leads
  rw [parts, Item.leads_append] at leads
  have further : Item.Leads (between ++ [⟨second.gap, token⟩]) second.rest := leads.2
  have rest : first.rest = Item.texts (between ++ [⟨second.gap, token⟩]) ++ second.rest := by
    rw [text, text, parts, Item.texts_append first.items, List.append_assoc] at same
    exact List.append_cancel_left same
  cases defined : first.definition with
  | some d =>
    refine ⟨between, second.gap, fun _ => rfl, further, ?_, ?_⟩
    · simpa [Place.further, defined] using rest
    · simp [tail, Token.behind, defined]
  | none =>
    have line : first.tail ++ first.further = first.rest := by simp [tail, Place.further, defined]
    obtain ⟨items, gap, named, leads', spell⟩ := further.exists_behind_remark rfl quiet first.tail_inLine
      first.stops_further (rest.symm.trans line.symm)
    refine ⟨items, gap, named, leads', ?_, by simpa [Token.behind] using spell⟩
    have whole : first.tail ++ first.further = first.tail ++ (Item.texts (items ++ [⟨gap, token⟩]) ++ second.rest) := by
      calc first.tail ++ first.further = Item.texts between ++ second.gap ++ (token.text ++ second.rest) := by
            rw [line, rest]
            simp
        _ = first.tail ++ (Item.texts (items ++ [⟨gap, token⟩]) ++ second.rest) := by
            rw [← spell]
            simp
    exact List.append_cancel_left whole

/-- A field behind another one is found behind it when the first has another expression. -/
theorem exists_behind {expression : List Char} (behind : second.front = first.items ++ between)
    (same : first.text = second.text) (quiet : IsRemark first.tail) (oneLine : '\n' ∉ expression) :
    ∃ later : Place table' field', later.text = (first.set expression oneLine).text ∧
      later.before = first.before ++ (expression ++
        (Token.behind first.definition ++ (Item.texts between ++ (second.gap ++ second.opening)))) ∧
      later.after = second.after := by
  obtain ⟨items, gap, named, leads, further, spell⟩ := first.exists_between second behind same quiet
  let next := first.set expression oneLine
  have front : Item.texts next.items = first.before ++ (expression ++ first.tail) := by
    have whole : Item.texts next.items ++ first.further = _ := first.text_set oneLine
    rw [after_eq, ← List.append_assoc, ← List.append_assoc] at whole
    simpa using List.append_cancel_right whole
  have leads : Item.Leads (next.items ++ items ++ [⟨gap, .field field'.toList second.definition⟩]) second.rest := by
    rw [List.append_assoc]
    exact Item.leads_append.2 ⟨further ▸ next.leads, leads⟩
  have roster : Roster.ofTokens ((next.items ++ items).map (·.token)) = .ofTokens (second.front.map (·.token)) := by
    have one : Roster.ofTokens (next.items.map (·.token)) = .ofTokens (first.items.map (·.token)) := by
      rw [Place.items, Place.items, List.map_append, List.map_append]
      exact Roster.ofTokens_define ..
    rw [behind, List.map_append, List.map_append, Roster.ofTokens_append, Roster.ofTokens_append, one, named]
  let later : Place table' field' :=
    ⟨next.items ++ items, gap, second.definition, second.rest, leads, roster ▸ second.awaits⟩
  refine ⟨later, ?_, ?_, rfl⟩
  · have whole : next.text = Item.texts next.items ++ first.further := rfl
    rw [whole, further, text_eq]
    simp [later]
  · have place : Item.texts later.front ++ later.gap = first.before ++ (expression ++
        (Token.behind first.definition ++ (Item.texts between ++ second.gap))) := by
      rw [← spell]
      simp [later, front]
    have opening : later.opening = second.opening := rfl
    rw [before, place, opening]
    simp

/-- A field before another one is found there whatever is set on the other. -/
theorem exists_ahead (behind : second.front = first.items ++ between) (expression : List Char) :
    ∃ earlier : Place table field, earlier.text = second.before ++ (expression ++ second.after) ∧
      earlier.before = first.before ∧
      earlier.after = Token.behind first.definition ++
        (Item.texts between ++ (second.gap ++ (second.opening ++ (expression ++ second.after)))) := by
  obtain ⟨more, starts⟩ := Token.exists_text_field field'.toList second.definition
  obtain ⟨more', starts'⟩ : ∃ more, second.opening = ['['] ++ more := ⟨_, rfl⟩
  have before : Item.Leads first.items (Item.texts between ++ second.gap ++ (['['] ++ (more ++ second.rest))) := by
    have leads := second.leads
    rw [behind, List.append_assoc, Item.leads_append] at leads
    simpa [starts] using leads.1
  have leads : Item.Leads first.items
      (Item.texts between ++ (second.gap ++ (second.opening ++ (expression ++ second.after)))) := by
    have replaced : Item.Leads first.items (Item.texts between ++ second.gap ++
        (['['] ++ (more' ++ (expression ++ second.after)))) := before.replace Token.opens_bracket
    simpa [starts'] using replaced
  refine ⟨{ first with rest := _, leads := leads }, ?_, rfl, rfl⟩
  rw [text, Place.before, behind]
  simp [Place.items]

/-- Of two fields, both are set in the same way whichever comes first. -/
theorem exists_both (behind : second.front = first.items ++ between) (same : first.text = second.text)
    (quiet : IsRemark first.tail) {a b : String} (oneLine : '\n' ∉ a.toList) :
    ∃ out, setExpression (String.ofList (first.before ++ (a.toList ++ first.after))) table' field' b = some out ∧
      setExpression (String.ofList (second.before ++ (b.toList ++ second.after))) table field a = some out := by
  obtain ⟨later, laterText, before, after⟩ := first.exists_behind second behind same quiet oneLine
  obtain ⟨earlier, earlierText, before', after'⟩ := first.exists_ahead second behind b.toList
  refine ⟨String.ofList (earlier.before ++ (a.toList ++ earlier.after)), ?_, ?_⟩
  · rw [← first.text_set oneLine, ← laterText, later.setExpression_eq, before, after, before', after']
    simp
  · rw [← earlierText, earlier.setExpression_eq]

/-- A place whose items come behind those of another is the same one or behind it. -/
theorem cases_of_items {more : List Item} (longer : second.items = first.items ++ more) :
    (table, field) = (table', field') ∨ ∃ between, second.front = first.items ++ between := by
  rcases List.eq_nil_or_concat' more with rfl | ⟨between, last, rfl⟩
  · rw [List.append_nil] at longer
    obtain ⟨front, one⟩ := List.append_inj' longer rfl
    obtain ⟨fields, current, -⟩ := first.awaits.current
    obtain ⟨fields', current', -⟩ := second.awaits.current
    rw [front, current, Option.some.injEq, Prod.mk.injEq] at current'
    simp only [List.cons.injEq, Item.mk.injEq, Token.field.injEq, String.toList_inj] at one
    exact .inl (Prod.ext current'.1 one.1.2.1.symm)
  · rw [← List.append_assoc] at longer
    exact .inr ⟨between, List.append_inj_left' longer rfl⟩

/-- Two places in a text are one, or one of them is behind the other. -/
theorem cases_of_text (same : first.text = second.text) :
    (table, field) = (table', field') ∨ (∃ between, second.front = first.items ++ between) ∨
      ∃ between, first.front = second.items ++ between := by
  have read : first.items ++ Item.read first.rest = second.items ++ Item.read second.rest := by
    have leads : Item.Leads first.items first.rest := first.leads
    have leads' : Item.Leads second.items second.rest := second.leads
    rw [← Item.read_leads leads, ← Item.read_leads leads']
    exact congrArg Item.read same
  rcases List.append_eq_append_iff.1 read with ⟨more, longer, -⟩ | ⟨more, longer, -⟩
  · exact (first.cases_of_items second longer).imp_right .inl
  · exact (second.cases_of_items first longer).imp Eq.symm .inr

end Place

/-- The expressions of two fields can be set in either order. -/
theorem setExpression_comm (text table field table' field' a b : String) {found found' : Field}
    (declared : (read text).field? table field = some found) (declared' : (read text).field? table' field' = some found')
    (apart : (table, field) ≠ (table', field'))
    (room : found.expression.isSome = true ∨ IsRemark (Cursor.ofOffset found.nameSpan.stop text.toList).lineAfter)
    (room' : found'.expression.isSome = true ∨ IsRemark (Cursor.ofOffset found'.nameSpan.stop text.toList).lineAfter)
    (oneLine : '\n' ∉ a.toList) (oneLine' : '\n' ∉ b.toList) :
    ∃ one two out, setExpression text table field a = some one ∧ setExpression one table' field' b = some out ∧
      setExpression text table' field' b = some two ∧ setExpression two table field a = some out := by
  obtain ⟨first, parts, rfl⟩ := exists_place declared
  obtain ⟨second, parts', rfl⟩ := exists_place declared'
  have whole : text = String.ofList first.text := by rw [← parts, String.ofList_toList]
  have whole' : text = String.ofList second.text := by rw [← parts', String.ofList_toList]
  have same : first.text = second.text := parts.symm.trans parts'
  have one := first.setExpression_eq a
  have two := second.setExpression_eq b
  rw [← whole] at one
  rw [← whole'] at two
  rw [parts] at room
  rw [parts'] at room'
  rcases first.cases_of_text second same with equal | ⟨between, behind⟩ | ⟨between, behind⟩
  · exact absurd equal apart
  · obtain ⟨out, done, done'⟩ := first.exists_both second behind same (first.isRemark_tail room) oneLine (b := b)
    exact ⟨_, _, out, one, done, two, done'⟩
  · obtain ⟨out, done, done'⟩ := second.exists_both first behind same.symm (second.isRemark_tail room') oneLine' (b := a)
    exact ⟨_, _, out, one, done', two, done⟩

/-- The first field has a comment and no expression, the other stands in another table behind one of the same name as the
first; one expression leaves a quote open before a comment mark, the other is empty. -/
theorem setExpression_comm_tables :
    let text := "table t\r\n[a]\t# c\r\ntable t\n[a]\ntable u key [a] = 'x' # d"
    let out := "table t\r\n[a] =  '#\t# c\r\ntable t\n[a]\ntable u key [a] =  # d"
    ∃ found found' one two, (read text).field? "t" "a" = some found ∧ (read text).field? "u" "a" = some found' ∧
      IsRemark (Cursor.ofOffset found.nameSpan.stop text.toList).lineAfter ∧ found'.expression.isSome = true ∧
      setExpression text "t" "a" " '#" = some one ∧ setExpression one "u" "a" "" = some out ∧
      setExpression text "u" "a" "" = some two ∧ setExpression two "t" "a" " '#" = some out := by
  intro text out
  obtain ⟨found, declared, stop⟩ : ∃ found, (read text).field? "t" "a" = some found ∧ found.nameSpan.stop = 12 :=
    Option.map_eq_some_iff.1 (by decide +kernel)
  obtain ⟨found', declared', defined⟩ : ∃ found, (read text).field? "u" "a" = some found ∧
      found.expression.isSome = true := Option.map_eq_some_iff.1 (by decide +kernel)
  have line : trim (Cursor.ofOffset 12 text.toList).lineAfter = "# c".toList := by decide +kernel
  have quiet : IsRemark (Cursor.ofOffset found.nameSpan.stop text.toList).lineAfter := by
    rw [IsRemark, stop, line]
    simp
  obtain ⟨one, two, out', set, second, set', first⟩ := setExpression_comm text "t" "a" "u" "a" " '#" "" declared declared'
    (by decide) (.inr quiet) (.inl defined) (by decide +kernel) (by decide +kernel)
  have done : (setExpression text "t" "a" " '#").bind (setExpression · "u" "a" "") = some out := by decide +kernel
  rw [set, Option.bind_some, second] at done
  obtain rfl := Option.some.inj done
  exact ⟨found, found', one, two, declared, declared', quiet, defined, set, second, set', first⟩

end Sheet
end Gridbook
