import Gridbook.Proofs.Comments
import Gridbook.Proofs.Lookups
import Gridbook.Proofs.Remarks

/-!
Items before another text. A token that is moved up to it ends as before, or a bare name takes up a word of blanks that
was a word of its own; a token that loses the carriage return at its end says the same; and a text of items cut at the
start of a line behind which there are only blanks is cut between two items.
-/
namespace Gridbook

open Text

theorem Text.stops_reverse {p : Char → Bool} {cs : List Char} (outside : ∀ c ∈ cs, p c = false) : Stops p cs.reverse :=
  fun c first => outside c (by simpa using List.mem_of_mem_head? first)

theorem Text.stops_reverse_append {p : Char → Bool} (a : List Char) {b : List Char} (nonempty : b ≠ []) :
    Stops p (a ++ b).reverse ↔ Stops p b.reverse := by
  rw [List.reverse_append, stops_append (by simpa using nonempty)]

namespace Token

variable {token : Token} {after init : List Char}

theorem stops_reverse_name {name : List Char} (legal : IsBare name ∨ IsQuoted name) : Stops isAsciiBlank name.reverse := by
  rcases legal with bare | ⟨body, -, rfl⟩
  · refine stops_reverse fun c member => ?_
    by_contra blank
    have := bare.inside c member
    simp [isWordEnd_of_isAsciiBlank (by simpa using blank)] at this
  · simp
    decide

/-- A token that does not take the rest of its line does not end with a blank, unless it is a header without a name. -/
theorem WellFormed.stops_reverse_text (wellFormed : token.WellFormed) (plain : token.isBlock = false)
    (open' : token.fillsLine = false) (named : ∀ blanks, token ≠ table blanks []) :
    Stops isAsciiBlank token.text.reverse := by
  cases token with
  | comment body => simp [fillsLine] at open'
  | decorator name args =>
    cases args with
    | none =>
      have spell : (decorator name none).text = ['!'] ++ name := rfl
      rw [spell, stops_reverse_append _ wellFormed.1]
      refine stops_reverse fun c member => ?_
      have taken := wellFormed.2.1 c member
      by_contra blank
      simp only [Bool.not_eq_false, isAsciiBlank, Bool.or_eq_true, beq_iff_eq] at blank
      rcases blank with (((rfl | rfl) | rfl) | rfl) | rfl <;> exact absurd taken (by decide)
    | some args =>
      have spell : (decorator name (some args)).text = '!' :: (name ++ '(' :: args) ++ [')'] := by simp [text]
      rw [spell, stops_reverse_append _ (by simp)]
      simp
      decide
  | bang =>
    simp [text]
    decide
  | field name definition =>
    cases definition with
    | none =>
      have spell : (field name none).text = '[' :: name ++ [']'] := by simp [text]
      rw [spell, stops_reverse_append _ (by simp)]
      simp
      decide
    | some d => simp [fillsLine] at open'
  | table gap name =>
    obtain ⟨-, missing | ⟨-, legal⟩⟩ := wellFormed
    · exact absurd (by rw [missing]) (named gap)
    · have nonempty : name ≠ [] := by
        rintro rfl
        exact named gap rfl
      rw [text, stops_reverse_append _ nonempty]
      exact stops_reverse_name legal
  | key => exact stops_reverse_name (.inl (isBare_keyword .key))
  | dim => exact stops_reverse_name (.inl (isBare_keyword .dim))
  | block kind body => simp [isBlock] at plain
  | total => exact stops_reverse_name (.inl (isBare_keyword .total))
  | word text => exact stops_reverse_name (wellFormed.elim .inr fun bare => .inl bare.1)
  | unclosed problem text => exact wellFormed.elim

/-- What ends words carries on no decorator. -/
theorem takes_wordEnd {c : Char} (wordEnd : isWordEnd c = true) : isDecoratorNameChar c = false ∧ c ≠ '(' := by
  simp only [isWordEnd, isAsciiBlank, Bool.or_eq_true, beq_iff_eq] at wordEnd
  rcases wordEnd with (((((((rfl | rfl) | rfl) | rfl) | rfl) | rfl) | rfl) | rfl) <;> decide

/-- A token can be moved up to what ends words, if it does not take the rest of its line. -/
theorem WellFormed.endsBefore (wellFormed : token.WellFormed) (plain : token.isBlock = false)
    (open' : token.fillsLine = false) (named : ∀ blanks, token ≠ table blanks [])
    (apart : Stops (!isWordEnd ·) after) (unset : Stops (· == '=') (after.dropWhile isInlineBlank)) :
    token.EndsBefore after := by
  have wordEnd : ∀ c ∈ after.head?, isWordEnd c = true := fun c first => by simpa using apart c first
  cases token with
  | comment body => simp [fillsLine] at open'
  | decorator name args =>
    refine ⟨fun c first => ?_, trivial⟩
    obtain ⟨other, bracket⟩ := takes_wordEnd (wordEnd c first)
    cases args <;> simp [takes, other, bracket]
  | bang => exact ⟨fun c first => (takes_wordEnd (wordEnd c first)).1, trivial⟩
  | field name definition =>
    cases definition with
    | none => exact ⟨fun _ _ => rfl, unset⟩
    | some d => simp [fillsLine] at open'
  | table gap name =>
    obtain ⟨-, missing | ⟨-, legal⟩⟩ := wellFormed
    · exact absurd (by rw [missing]) (named gap)
    · exact ⟨stops_nameTakes legal apart, trivial⟩
  | key => exact ⟨apart, trivial⟩
  | dim => exact ⟨apart, trivial⟩
  | block kind body => simp [isBlock] at plain
  | total => exact ⟨apart, trivial⟩
  | word text => exact ⟨stops_nameTakes (wellFormed.elim .inr fun bare => .inl bare.1) apart, trivial⟩
  | unclosed problem text => exact wellFormed.elim

theorem isDecoratorNameChar_of_isBlank {c : Char} (blank : isBlank c = true) : isDecoratorNameChar c = false := by
  have other (d : Char) (shown : isBlank d = false) : c ≠ d := by
    rintro rfl
    simp [blank] at shown
  have letter : c.isAlphanum = false := by
    have code : c.toNat = c.val.toNat := rfl
    simp only [isBlank, Bool.or_eq_true, Bool.and_eq_true, decide_eq_true_eq, beq_iff_eq] at blank
    change (decide (65 ≤ c.val ∧ c.val ≤ 90) || decide (97 ≤ c.val) && decide (c.val ≤ 122) ||
      decide (48 ≤ c.val) && decide (c.val ≤ 57)) = false
    simp only [UInt32.le_iff_toNat_le, Bool.or_eq_false_iff, Bool.and_eq_false_iff, decide_eq_false_iff_not,
      UInt32.reduceToNat]
    omega
  simp [isDecoratorNameChar, letter, other '_' (by decide), other '.' (by decide)]

/-- A bare name can take up more of a word. -/
theorem IsBare.append {name more : List Char} (bare : IsBare name) (inside : ∀ c ∈ more, isWordEnd c = false) :
    IsBare (name ++ more) :=
  ⟨by simp [bare.nonempty], List.forall_mem_append.2 ⟨bare.inside, inside⟩, (stops_append bare.nonempty).2 bare.unquoted⟩

/-- A token that is moved up to another text. A blank that does not end words can carry on a bare name there; what the
name takes up was a word of its own. -/
structure Moved (token : Token) (after : List Char) where
  token' : Token
  words : List Item
  rest : List Char
  wellFormed : token'.WellFormed
  plain : token'.isBlock = false
  ends : token'.EndsBefore rest
  longer : ∃ more, token'.text = token.text ++ more
  parts : token'.text ++ rest = token.text ++ after
  behind : after = Item.texts words ++ rest
  idle : ∀ item ∈ words, item.token.isIdle = true
  leads : Item.Leads words rest
  alike : token.isTable = false → ∀ draft : DraftOutline, draft.step token' = draft.step token

def Moved.same (wellFormed : token.WellFormed) (plain : token.isBlock = false) (ends : token.EndsBefore after) :
    Moved token after :=
  ⟨token, [], after, wellFormed, plain, ends, ⟨[], by simp⟩, rfl, rfl, by simp, trivial, fun _ _ => rfl⟩

/-- The word at the start of a text that starts with a blank. -/
theorem exists_wide {c : Char} (blank : isBlank c = true) (inWord : isWordEnd c = false) (more : List Char) :
    ∃ w rest, c :: more = w ++ rest ∧ IsBare w ∧ c ∈ w ∧ Stops (!isWordEnd ·) rest := by
  refine ⟨(c :: more).takeWhile (!isWordEnd ·), (c :: more).dropWhile (!isWordEnd ·),
    List.takeWhile_append_dropWhile.symm, ⟨by simp [inWord], ?_, ?_⟩, by simp [inWord], stops_dropWhile _ _⟩
  · intro d member
    simpa using List.mem_takeWhile_imp member
  · have other : c ≠ '\x27' := by
      rintro rfl
      simp [isBlank] at blank
    simp [inWord, other]

theorem WellFormed.moved (wellFormed : token.WellFormed) (plain : token.isBlock = false) (open' : token.fillsLine = false)
    (named : ∀ blanks, token ≠ table blanks [])
    (apart : Stops (!isWordEnd ·) after ∨ Stops (!isBlank ·) after ∧ token.waits = false ∧ token ≠ total)
    (unset : Stops (· == '=') (after.dropWhile isInlineBlank)) : Nonempty (Moved token after) := by
  by_cases wordEnd : Stops (!isWordEnd ·) after
  · exact ⟨.same wellFormed plain (wellFormed.endsBefore plain open' named wordEnd unset)⟩
  obtain ⟨start, calm, other⟩ := apart.resolve_left wordEnd
  obtain ⟨c, more, rfl⟩ : ∃ c more, after = c :: more := List.exists_cons_of_ne_nil (by
    rintro rfl
    exact wordEnd stops_nil)
  have blank : isBlank c = true := by simpa using start
  have inWord : isWordEnd c = false := by simpa using wordEnd
  have unquoted : c ≠ '\x27' := by
    rintro rfl
    simp [isBlank] at blank
  obtain ⟨w, rest, parts, bare, first, stops⟩ := exists_wide blank inWord more
  have unknown (name : List Char) : Keyword.ofWord? (name ++ w) = none :=
    Keyword.ofWord?_of_isBlank (List.mem_append_right _ first) blank
  have own : Item.Leads [⟨[], .word w⟩] rest :=
    ⟨by simp, .inr ⟨bare, unknown []⟩, ⟨(stops_bare bare).2 stops, trivial⟩, trivial⟩
  cases token with
  | comment body => simp [fillsLine] at open'
  | decorator name args => simp [waits] at calm
  | bang => exact ⟨.same wellFormed rfl ⟨by simpa [takes] using isDecoratorNameChar_of_isBlank blank, trivial⟩⟩
  | field name definition =>
    cases definition with
    | none => exact ⟨.same wellFormed rfl ⟨fun _ _ => rfl, unset⟩⟩
    | some d => simp [fillsLine] at open'
  | table gap name =>
    obtain ⟨inline, missing | ⟨parted, bare' | quoted⟩⟩ := wellFormed
    · exact absurd (by rw [missing]) (named gap)
    · have longer := bare'.append bare.inside
      refine ⟨⟨table gap (name ++ w), [⟨[], .word w⟩], rest, ⟨inline, .inr ⟨parted, .inl longer⟩⟩, rfl,
        ⟨(stops_bare longer).2 stops, trivial⟩, ⟨w, by simp [text]⟩, ?_, by simp [text, parts], by simp [isIdle], own,
        by simp [isTable]⟩⟩
      simp [text, parts]
    · exact ⟨.same ⟨inline, .inr ⟨parted, .inr quoted⟩⟩ rfl ⟨(stops_quoted quoted).2 (by simpa using unquoted), trivial⟩⟩
  | key => simp [waits] at calm
  | dim => simp [waits] at calm
  | block kind body => simp [isBlock] at plain
  | total => exact absurd rfl other
  | word name =>
    rcases wellFormed with quoted | ⟨bare', known⟩
    · exact ⟨.same (.inl quoted) rfl ⟨(stops_quoted quoted).2 (by simpa using unquoted), trivial⟩⟩
    · have longer := bare'.append bare.inside
      refine ⟨⟨word (name ++ w), [⟨[], .word w⟩], rest, .inr ⟨longer, unknown name⟩, rfl,
        ⟨(stops_bare longer).2 stops, trivial⟩, ⟨w, rfl⟩, ?_, by simp [text, parts], by simp [isIdle], own,
        fun _ _ => rfl⟩⟩
      simp [text, parts]
  | unclosed problem text => exact wellFormed.elim

theorem exists_of_append_return {a b : List Char} {c : Char} (same : a ++ c :: b = init ++ ['\r']) (other : c ≠ '\r') :
    ∃ b', b = b' ++ ['\r'] ∧ init = a ++ c :: b' := by
  rcases List.eq_nil_or_concat' b with rfl | ⟨b', d, rfl⟩
  · exact absurd (List.cons.inj (List.append_inj_right' same rfl)).1 other
  · rw [← List.cons_append, ← List.append_assoc] at same
    obtain ⟨rfl, last⟩ := List.append_inj' same rfl
    obtain rfl : d = '\r' := by simpa using last
    exact ⟨b', rfl, rfl⟩

/-- A token that loses the carriage return at its end says the same. -/
theorem WellFormed.exists_withoutReturn (wellFormed : token.WellFormed) (plain : token.isBlock = false)
    (named : ∀ blanks, token ≠ table blanks []) (ends : token.text = init ++ ['\r']) :
    ∃ token' : Token, token'.WellFormed ∧ token'.text = init ∧ token'.isBlock = false ∧
      ∀ draft : DraftOutline, draft.step token' = draft.step token := by
  by_cases fills : token.fillsLine = true
  · cases token with
    | comment body =>
      obtain ⟨body', rfl, rfl⟩ := exists_of_append_return (a := []) ends (by decide)
      exact ⟨comment body', fun c member => wellFormed c (List.mem_append_left _ member), rfl, rfl, fun _ => rfl⟩
    | field name definition =>
      cases definition with
      | none => simp [fillsLine] at fills
      | some d =>
        have defined : d.WellFormed := wellFormed.2 d rfl
        have spell : (field name (some d)).text = '[' :: (name ++ ']' :: d.gap) ++ '=' :: (d.lead ++ d.body ++ d.tail) := by
          simp [text, Definition.text]
        obtain ⟨line, same, rfl⟩ := exists_of_append_return (spell.symm.trans ends) (by decide)
        have inside : ∀ c ∈ line, inLine c = true := fun c member => defined.line c (by rw [same]; simp [member])
        have body : (Definition.ofLine d.gap line).body = d.body := by
          have own := defined.body
          rw [same, trim_splitRemark_return] at own
          exact own.symm
        refine ⟨field name (some (.ofLine d.gap line)),
          ⟨wellFormed.1, by simpa using Definition.wellFormed_ofLine defined.gap inside⟩, ?_, rfl, fun draft => ?_⟩
        · simp [text, Definition.text_ofLine]
        · simp [DraftOutline.step, body]
    | _ => simp [fillsLine] at fills
  · have stops := wellFormed.stops_reverse_text plain (by simpa using fills) named
    rw [ends, stops_reverse_append _ (by simp)] at stops
    exact absurd (stops_cons.1 stops) (by decide)

/-- A token made of blanks is a word. -/
theorem WellFormed.isIdle (wellFormed : token.WellFormed) (blank : ∀ c ∈ token.text, isBlank c = true) :
    token.isIdle = true := by
  have other (c : Char) (shown : isBlank c = false) : c ∉ token.text := by
    intro member
    simp [blank c member] at shown
  cases token with
  | comment body => rfl
  | word text => rfl
  | decorator name args => cases args <;> exact absurd (by simp [text]) (other '!' (by decide))
  | bang => exact absurd (by simp [text]) (other '!' (by decide))
  | field name definition => cases definition <;> exact absurd (by simp [text]) (other '[' (by decide))
  | table gap name => exact absurd (by simp [text, Keyword.word]) (other 't' (by decide))
  | key => exact absurd (by simp [text, Keyword.word]) (other 'k' (by decide))
  | dim => exact absurd (by simp [text, Keyword.word]) (other 'd' (by decide))
  | total => exact absurd (by simp [text, Keyword.word]) (other 't' (by decide))
  | block kind body =>
    cases kind with
    | override => exact absurd (by simp [text, BlockKind.word]) (other 'o' (by decide))
    | apply => exact absurd (by simp [text, BlockKind.word]) (other 'a' (by decide))
  | unclosed problem text => exact wellFormed.elim

/-- No token goes on with blanks behind a line end. -/
theorem WellFormed.not_blank_of_newline {front back : List Char} (wellFormed : token.WellFormed)
    (plain : token.isBlock = false) (parts : token.text = front ++ back) (newline : '\n' ∈ front)
    (nonempty : back ≠ []) : ¬∀ c ∈ back, isBlank c = true := by
  intro blank
  by_cases args : ∃ name args, token = decorator name (some args)
  · obtain ⟨name, args, rfl⟩ := args
    have spell : (decorator name (some args)).text = '!' :: (name ++ '(' :: args) ++ [')'] := by simp [text]
    have last := congrArg List.getLast? spell
    rw [List.getLast?_concat, parts, List.getLast?_append_of_ne_nil _ nonempty] at last
    exact absurd (blank ')' (List.mem_of_getLast? last)) (by decide)
  · have inside := inLine_text wellFormed plain (fun name args' same => args ⟨name, args', same⟩) '\n'
      (by rw [parts]; simp [newline])
    exact absurd inside (by decide)

end Token

namespace Item

variable {items : List Item} {gap kept run : List Char}

/-- A text of items cut at the start of a line behind which there are only blanks is cut between two items, and those
behind the cut are words. -/
theorem exists_split_blank (wellFormed : ∀ item ∈ items, item.token.WellFormed)
    (plain : ∀ item ∈ items, item.token.isBlock = false) (gaps : ∀ item ∈ items, ∀ c ∈ item.gap, isAsciiBlank c = true)
    (ascii : ∀ c ∈ gap, isAsciiBlank c = true) (parts : texts items ++ gap = kept ++ run) (ends : EndsLine kept)
    (blank : ∀ c ∈ run, isBlank c = true) :
    ∃ front back gap', items = front ++ back ∧ kept = texts front ++ gap' ∧ (∀ c ∈ gap', isAsciiBlank c = true) ∧
      ∀ item ∈ back, item.token.isIdle = true := by
  induction items using List.reverseRecOn generalizing gap run with
  | nil =>
    refine ⟨[], [], kept, rfl, by simp, fun c member => ascii c ?_, by simp⟩
    rw [texts_nil, List.nil_append] at parts
    rw [parts]
    exact List.mem_append_left _ member
  | append_singleton items item ih =>
    obtain ⟨wellFormed, own⟩ := List.forall_mem_append.1 wellFormed
    obtain ⟨plain, ownPlain⟩ := List.forall_mem_append.1 plain
    obtain ⟨gaps, ownGap⟩ := List.forall_mem_append.1 gaps
    rw [List.forall_mem_singleton] at own ownPlain ownGap
    have whole : (texts items ++ item.gap ++ item.token.text) ++ gap = kept ++ run := by simpa using parts
    rcases List.append_eq_append_iff.1 whole with ⟨c, rfl, rfl⟩ | ⟨c, same, rfl⟩
    · exact ⟨items ++ [item], [], c, by simp, by simp, fun d member => ascii d (List.mem_append_left _ member), by simp⟩
    · have words : ∀ d ∈ c, isBlank d = true := fun d member => blank d (List.mem_append_left _ member)
      rcases List.append_eq_append_iff.1 same with ⟨e, rfl, text⟩ | ⟨e, start, rfl⟩
      · by_cases none : c = []
        · subst none
          exact ⟨items ++ [item], [], [], by simp, by simp [text], by simp, by simp⟩
        by_cases whole : e = []
        · subst whole
          have idle : item.token.isIdle = true := own.isIdle (by rw [text]; exact words)
          exact ⟨items, [item], item.gap, rfl, by simp, ownGap, List.forall_mem_singleton.2 idle⟩
        · obtain ⟨init, newline⟩ := ends.of_append.exists_newline whole
          exact absurd words (own.not_blank_of_newline ownPlain text (by simp [newline]) none)
      · obtain ⟨front, back, gap', rfl, kept, ascii', idle⟩ := ih wellFormed plain gaps ownGap start
          fun d member => words d (List.mem_append_left _ member)
        have last : item.token.isIdle = true := own.isIdle fun d member => words d (List.mem_append_right _ member)
        exact ⟨front, back ++ [item], gap', by simp, kept, ascii',
          List.forall_mem_append.2 ⟨idle, List.forall_mem_singleton.2 last⟩⟩

theorem Leads.wellFormed {items : List Item} {rest : List Char} (leads : Leads items rest) :
    ∀ item ∈ items, item.token.WellFormed ∧ ∀ c ∈ item.gap, isAsciiBlank c = true := by
  induction items with
  | nil => simp
  | cons item items ih => exact List.forall_mem_cons.2 ⟨⟨leads.2.1, leads.1⟩, ih leads.2.2.2⟩

/-- Items do not end with a line end. -/
theorem Leads.not_endsLine {items : List Item} {rest : List Char} (leads : Leads items rest) (nonempty : items ≠ []) :
    ¬EndsLine (texts items) := by
  intro ends
  rcases List.eq_nil_or_concat' items with rfl | ⟨items, last, rfl⟩
  · exact nonempty rfl
  · have spell : texts (items ++ [last]) = (texts items ++ last.gap) ++ last.token.text := by simp
    rw [spell] at ends
    exact (leads.wellFormed last (by simp)).1.not_endsLine ends.of_append

end Item

end Gridbook
