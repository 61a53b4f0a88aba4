import Gridbook.Proofs.Blocks

/-!
Reading a token gives back exactly the well-formed tokens that end where they are read: `read_complete` takes a
well-formed token off any text that does not carry it on, and `read_sound` says that no other closed token is read.
-/
namespace Gridbook

open Text

namespace Token

/-- A name that stands behind the keyword of a table, bare or in quotes. -/
theorem readTable_name {gap name rest : List Char} (blank : ∀ c ∈ gap, isInlineBlank c = true)
    (legal : IsBare name ∨ IsQuoted name) (ends : (table gap name).EndsBefore rest) :
    readTable (gap ++ (name ++ rest)) = (table gap name, rest) := by
  rcases legal with bare | quoted
  · have stops : Stops (!isWordEnd ·) rest := (stops_bare bare).1 ends.1
    cases name with
    | nil => exact absurd rfl bare.nonempty
    | cons c name =>
      have unquoted : c ≠ '\x27' := by simpa using bare.unquoted
      have inside : ∀ d ∈ c :: name, (!isWordEnd d) = true := by simpa using bare.inside
      have start : Stops isInlineBlank (c :: name ++ rest) := by
        have := bare.inside c (by simp)
        simp only [isWordEnd, isAsciiBlank, Bool.or_eq_false_iff] at this
        simp [isInlineBlank, this]
      unfold readTable
      rw [takeWhile_run blank start, dropWhile_run blank start]
      simp only [List.cons_append, if_neg unquoted]
      rw [← List.cons_append, takeWhile_run inside stops, dropWhile_run inside stops]
  · have stops : Stops (· == '\x27') rest := (stops_quoted quoted).1 ends.1
    obtain ⟨body, doubled, rfl⟩ := quoted
    have start : Stops isInlineBlank ('\x27' :: (body ++ ['\x27']) ++ rest) := by simp [isInlineBlank]
    unfold readTable
    rw [takeWhile_run blank start, dropWhile_run blank start]
    simp [readQuoted_complete doubled stops]

theorem readTable_complete {gap name rest : List Char} (wellFormed : (table gap name).WellFormed)
    (ends : (table gap name).EndsBefore rest) : readTable (gap ++ (name ++ rest)) = (table gap name, rest) := by
  obtain ⟨blank, rfl | ⟨-, legal⟩⟩ := wellFormed
  · have stops : Stops (fun c => isInlineBlank c || !isWordEnd c) rest := ends.1
    have start : Stops isInlineBlank rest := fun c first => (Bool.or_eq_false_iff.1 (stops c first)).1
    unfold readTable
    rw [List.nil_append, takeWhile_run blank start, dropWhile_run blank start]
    cases rest with
    | nil => rfl
    | cons c rest =>
      have wordEnd : isWordEnd c = true := by simpa using (Bool.or_eq_false_iff.1 (stops c rfl)).2
      have unquoted : c ≠ '\x27' := by
        rintro rfl
        simp [isWordEnd_quote] at wordEnd
      simp [unquoted, wordEnd]
  · exact readTable_name blank legal ends

theorem readTable_sound {cs : List Char} (start : Stops (!isWordEnd ·) cs) :
    Sound (readTable cs).1 (readTable cs).2 := by
  have blank : ∀ c ∈ cs.takeWhile isInlineBlank, isInlineBlank c = true := fun _ => List.mem_takeWhile_imp
  have parts := List.takeWhile_append_dropWhile (p := isInlineBlank) (l := cs)
  have after := stops_dropWhile isInlineBlank cs
  -- A name needs blanks before it: otherwise it would have been read as a part of the keyword.
  have apart {c : Char} {rest : List Char} (behind : cs.dropWhile isInlineBlank = c :: rest)
      (inside : isWordEnd c = false) : cs.takeWhile isInlineBlank ≠ [] := by
    intro none
    rw [none, behind, List.nil_append] at parts
    rw [← parts] at start
    simp [inside] at start
  unfold readTable
  split
  · exact .inr ⟨⟨blank, .inl rfl⟩, stops_nil, trivial⟩
  · next c rest behind =>
    rw [behind, stops_cons] at after
    split
    · next quote =>
      subst quote
      split
      · next name rest' found =>
        obtain ⟨body, doubled, rfl, stops⟩ := readQuoted_sound found
        have quoted : IsQuoted ('\x27' :: (body ++ ['\x27'])) := ⟨body, doubled, rfl⟩
        refine .inr ⟨⟨blank, .inr ⟨apart behind isWordEnd_quote, .inr quoted⟩⟩, ?_, trivial⟩
        exact (stops_quoted quoted).2 stops
      · exact .inl rfl
    · next unquoted =>
      by_cases wordEnd : isWordEnd c = true
      · refine .inr ?_
        simp only [List.takeWhile_cons, List.dropWhile_cons, wordEnd, Bool.not_true, Bool.false_eq_true, if_false]
        exact ⟨⟨blank, .inl rfl⟩, by simp [takes, nameTakes, after, wordEnd], trivial⟩
      · have inside : isWordEnd c = false := by simpa using wordEnd
        have bare : IsBare ((c :: rest).takeWhile (!isWordEnd ·)) := by
          refine ⟨by simp [inside], ?_, by simp [inside, unquoted]⟩
          intro d member
          simpa using List.mem_takeWhile_imp member
        refine .inr ⟨⟨blank, .inr ⟨apart behind inside, .inl bare⟩⟩, ?_, trivial⟩
        exact (stops_bare bare).2 (stops_dropWhile _ _)

theorem readField_complete {name rest : List Char} {definition : Option Definition}
    (wellFormed : (field name definition).WellFormed) (ends : (field name definition).EndsBefore rest) {cs : List Char}
    (text : (field name definition).text ++ rest = '[' :: cs) : readField cs = (field name definition, rest) := by
  obtain ⟨inside, wellFormed⟩ := wellFormed
  have start (cs : List Char) : Stops (fun c => c != ']' && c != '\n') (']' :: cs) := by simp
  cases definition with
  | none =>
    have same : cs = name ++ ']' :: rest := by simpa [Token.text] using text.symm
    have none : readDefinition rest = none := readDefinition_eq_none.2 ends.2
    unfold readField
    rw [same, takeWhile_run inside (start rest), dropWhile_run inside (start rest)]
    simp [none]
  | some d =>
    have same : cs = name ++ ']' :: (d.text ++ rest) := by simpa [Token.text] using text.symm
    have read := readDefinition_complete (wellFormed d rfl) ends.1
    unfold readField
    rw [same, takeWhile_run inside (start _), dropWhile_run inside (start _)]
    simp [read]

theorem readField_sound (cs : List Char) : Sound (readField cs).1 (readField cs).2 := by
  have inside : ∀ c ∈ cs.takeWhile (fun c => c != ']' && c != '\n'), (c != ']' && c != '\n') = true :=
    fun _ => List.mem_takeWhile_imp
  unfold readField
  split
  · next rest found =>
    split
    · next d after read =>
      obtain ⟨wellFormed, ends⟩ := readDefinition_sound read
      exact .inr ⟨⟨inside, by simpa using wellFormed⟩, ends, trivial⟩
    · next none => exact .inr ⟨⟨inside, by simp⟩, by simp [takes, Stops], readDefinition_eq_none.1 none⟩
  · exact .inl rfl

theorem readDecorator_complete {name rest cs : List Char} {args : Option (List Char)}
    (wellFormed : (decorator name args).WellFormed) (ends : (decorator name args).EndsBefore rest)
    (text : (decorator name args).text ++ rest = '!' :: cs) : readDecorator cs = (decorator name args, rest) := by
  obtain ⟨nonempty, inside, closes⟩ := wellFormed
  unfold readDecorator
  cases args with
  | none =>
    have same : cs = name ++ rest := by simpa [Token.text] using text.symm
    have stops : Stops isDecoratorNameChar rest := fun c first => (Bool.or_eq_false_iff.1 (ends.1 c first)).1
    have unopened : ∀ more, rest ≠ '(' :: more := by
      rintro more rfl
      simpa [takes] using ends.1
    rw [same, takeWhile_run inside stops, dropWhile_run inside stops]
    simp only [List.isEmpty_iff, nonempty, if_false]
  | some args =>
    have same : cs = name ++ '(' :: (args ++ ')' :: rest) := by simpa [Token.text] using text.symm
    have stops (more : List Char) : Stops isDecoratorNameChar ('(' :: more) := by
      simp [isDecoratorNameChar]
    rw [same, takeWhile_run inside (stops _), dropWhile_run inside (stops _)]
    simp [nonempty, readArgs_complete (closes args rfl)]

theorem readDecorator_sound (cs : List Char) : Sound (readDecorator cs).1 (readDecorator cs).2 := by
  have inside : ∀ c ∈ cs.takeWhile isDecoratorNameChar, isDecoratorNameChar c = true :=
    fun _ => List.mem_takeWhile_imp
  have stops := stops_dropWhile isDecoratorNameChar cs
  unfold readDecorator
  simp only
  split
  · next none =>
    have same : cs.dropWhile isDecoratorNameChar = cs := by
      conv => rhs; rw [← List.takeWhile_append_dropWhile (p := isDecoratorNameChar) (l := cs),
        List.isEmpty_iff.1 none, List.nil_append]
    exact .inr ⟨trivial, same ▸ stops, trivial⟩
  · next some =>
    have nonempty : cs.takeWhile isDecoratorNameChar ≠ [] := by simpa using some
    split
    · next rest found =>
      split
      · next args after read =>
        exact .inr ⟨⟨nonempty, inside, by simpa using readArgs_sound read⟩, by simp [takes, Stops], trivial⟩
      · exact .inl rfl
    · next other =>
      refine .inr ⟨⟨nonempty, inside, by simp⟩, ?_, trivial⟩
      intro c first
      simp only [takes, Bool.or_eq_false_iff, beq_eq_false_iff_ne]
      refine ⟨stops c first, ?_⟩
      rintro rfl
      obtain ⟨rest, same⟩ := List.head?_eq_some_iff.1 first
      exact other rest same

/-- A bare word is read by its keyword. -/
theorem read_bare {text rest cs : List Char} {c : Char} (bare : IsBare text) (stops : Stops (!isWordEnd ·) rest)
    (same : text ++ rest = c :: cs) : read c cs = readWord text rest := by
  obtain ⟨nonempty, inside, unquoted⟩ := bare
  cases text with
  | nil => exact absurd rfl nonempty
  | cons d word =>
    obtain ⟨rfl, rfl⟩ := List.cons.inj same
    have first : isWordEnd d = false := inside d (by simp)
    have quote : d ≠ '\x27' := by simpa using unquoted
    have tail : ∀ c ∈ word, (!isWordEnd c) = true := fun c member => by
      simpa using inside c (List.mem_cons_of_mem _ member)
    simp only [isWordEnd, Bool.or_eq_false_iff, beq_eq_false_iff_ne] at first
    unfold read
    rw [if_neg first.1.2, if_neg first.2, if_neg first.1.1.2, if_neg quote, List.append_eq,
      takeWhile_run tail stops, dropWhile_run tail stops]

theorem read_keyword {keyword : Keyword} {rest cs : List Char} {c : Char} (stops : Stops (!isWordEnd ·) rest)
    (same : keyword.word.toList ++ rest = c :: cs) : read c cs = readWord keyword.word.toList rest :=
  read_bare (isBare_keyword keyword) stops same

theorem read_complete {token : Token} {rest cs : List Char} {c : Char} (wellFormed : token.WellFormed)
    (ends : token.EndsBefore rest) (same : token.text ++ rest = c :: cs) : read c cs = (token, rest) := by
  cases token with
  | comment body =>
    obtain ⟨rfl, rfl⟩ := List.cons.inj same
    simp [read, takeWhile_run wellFormed ends.1, dropWhile_run wellFormed ends.1]
  | decorator name args =>
    have mark : c = '!' := by
      cases args <;> simpa [text, eq_comm] using congrArg List.head? same
    subst mark
    simp [read, readDecorator_complete wellFormed ends same]
  | bang =>
    obtain ⟨rfl, rfl⟩ := List.cons.inj same
    have none : rest.takeWhile isDecoratorNameChar = [] := takeWhile_of_stops ends.1
    simp only [read, readDecorator, List.append_eq, List.nil_append, none]
    rfl
  | field name definition =>
    have mark : c = '[' := by
      cases definition <;> simpa [text, eq_comm] using congrArg List.head? same
    subst mark
    simp [read, readField_complete wellFormed ends same]
  | table gap name =>
    have stops : Stops (!isWordEnd ·) (gap ++ (name ++ rest)) := by
      obtain ⟨blank, legal⟩ := wellFormed
      cases gap with
      | nil =>
        obtain rfl : name = [] := legal.elim id fun named => absurd rfl named.1
        exact fun c first => (Bool.or_eq_false_iff.1 (ends.1 c first)).2
      | cons d gap => simp [isWordEnd_of_isAsciiBlank (isAsciiBlank_of_isInlineBlank (blank d (by simp)))]
    rw [text, List.append_assoc, List.append_assoc] at same
    rw [read_keyword stops same, readWord, ofWord?_word]
    exact readTable_complete wellFormed ends
  | key =>
    rw [read_keyword ends.1 same, readWord, ofWord?_word]
  | dim =>
    rw [read_keyword ends.1 same, readWord, ofWord?_word]
  | block kind body =>
    have stops : Stops (!isWordEnd ·) (body ++ rest) := by
      refine wellFormed.1.append ?_
      cases rest with
      | nil => exact stops_nil
      | cons d rest =>
        have blank : isAsciiBlank d = true := by
          by_cases inside : inLine d = true
          · exact ends.2.1 d (by simp [inside])
          · obtain rfl : d = '\n' := by simpa [inLine] using inside
            exact isAsciiBlank_newline
        simp [isWordEnd_of_isAsciiBlank blank]
    rw [text, List.append_assoc] at same
    have keyword : kind.word = (Keyword.block kind).word := rfl
    rw [keyword] at same
    rw [read_keyword stops same, readWord, ofWord?_word]
    exact readBlock_complete wellFormed ends
  | total =>
    rw [read_keyword ends.1 same, readWord, ofWord?_word]
  | word text =>
    rcases wellFormed with quoted | ⟨bare, none⟩
    · have stops : Stops (· == '\x27') rest := (stops_quoted quoted).1 ends.1
      obtain ⟨body, doubled, rfl⟩ := quoted
      obtain ⟨rfl, rfl⟩ := List.cons.inj same
      simp [read, readQuoted_complete doubled stops]
    · have stops : Stops (!isWordEnd ·) rest := (stops_bare bare).1 ends.1
      rw [read_bare bare stops same, readWord, none]
  | unclosed problem text => exact wellFormed.elim

theorem readWord_sound {text rest : List Char} (bare : IsBare text) (stops : Stops (!isWordEnd ·) rest) :
    Sound (readWord text rest).1 (readWord text rest).2 := by
  unfold readWord
  split
  · exact readTable_sound stops
  · exact .inr ⟨trivial, stops, trivial⟩
  · exact .inr ⟨trivial, stops, trivial⟩
  · exact .inr (readBlock_sound stops)
  · exact .inr ⟨trivial, stops, trivial⟩
  · next none => exact .inr ⟨.inr ⟨bare, none⟩, (stops_bare bare).2 stops, trivial⟩

theorem read_sound {c : Char} {cs : List Char} (start : isAsciiBlank c = false) :
    Sound (read c cs).1 (read c cs).2 := by
  unfold read
  split
  · exact .inr ⟨fun _ => List.mem_takeWhile_imp, stops_dropWhile _ _, trivial⟩
  · split
    · exact readDecorator_sound cs
    · split
      · exact readField_sound cs
      · split
        · next quote =>
          split
          · next name rest found =>
            subst quote
            obtain ⟨body, doubled, rfl, stops⟩ := readQuoted_sound found
            have quoted : IsQuoted ('\x27' :: (body ++ ['\x27'])) := ⟨body, doubled, rfl⟩
            exact .inr ⟨.inl quoted, (stops_quoted quoted).2 stops, trivial⟩
          · exact .inl rfl
        · refine readWord_sound ⟨by simp, ?_, by simpa⟩ (stops_dropWhile _ _)
          intro d member
          rcases List.mem_cons.1 member with rfl | member
          · simp_all [isWordEnd]
          · simpa using List.mem_takeWhile_imp member

def fillsLine : Token → Bool
  | comment _ | field _ (some _) => true
  | _ => false

/-- No token takes in a blank that does not stay on the line, unless it fills its line and the blank does not end that. -/
theorem takes_blank {token : Token} {c : Char} (wellFormed : token.WellFormed) (blank : isAsciiBlank c = true)
    (outside : isInlineBlank c = false) (line : token.fillsLine = true → inLine c = false) :
    token.takes c = false := by
  have wordEnd := isWordEnd_of_isAsciiBlank blank
  have other : isDecoratorNameChar c = false ∧ c ≠ '(' ∧ c ≠ '\x27' := by
    simp only [isAsciiBlank, Bool.or_eq_true, beq_iff_eq] at blank
    rcases blank with (((rfl | rfl) | rfl) | rfl) | rfl <;> decide
  have named {name : List Char} (legal : name = [] ∨ IsBare name ∨ IsQuoted name) : nameTakes name c = false := by
    rcases legal with rfl | bare | ⟨body, -, rfl⟩
    · simp [nameTakes, outside, wordEnd]
    · cases name with
      | nil => exact absurd rfl bare.nonempty
      | cons d name =>
        have unquoted : d ≠ '\x27' := by simpa using bare.unquoted
        simp [nameTakes, unquoted, wordEnd]
    · simp [nameTakes, other.2.2]
  cases token with
  | comment body => exact line rfl
  | decorator name args => cases args <;> simp [takes, other]
  | bang => exact other.1
  | field name definition =>
    cases definition with
    | none => rfl
    | some d => exact line rfl
  | table gap name => exact named (wellFormed.2.imp_right And.right)
  | key => simp [takes, wordEnd]
  | dim => simp [takes, wordEnd]
  | block kind body => rfl
  | total => simp [takes, wordEnd]
  | word text => exact named (.inr (wellFormed.elim .inr fun bare => .inl bare.1))
  | unclosed problem text => exact wellFormed.elim

/-- No token reaches over a line end, other than a block. -/
theorem takes_newline {token : Token} (wellFormed : token.WellFormed) : token.takes '\n' = false :=
  takes_blank wellFormed isAsciiBlank_newline (by decide) fun _ => by decide

/-- A token that ends the text ends before a line end too, a block if the line behind that ends it. -/
theorem EndsBefore.append_newline {token : Token} {rest more : List Char} (wellFormed : token.WellFormed)
    (ends : token.EndsBefore rest) (next : token.isBlock = true → StartsSection more) :
    token.EndsBefore (rest ++ '\n' :: more) := by
  refine ⟨ends.1.append (by simpa using takes_newline wellFormed), ?_⟩
  cases token with
  | field name definition =>
    cases definition with
    | none =>
      have stops : Stops isInlineBlank ('\n' :: more) := by simp [isInlineBlank]
      have unset : Stops (· == '=') (rest.dropWhile isInlineBlank) := ends.2
      dsimp only
      rw [(takeWhile_append_stops stops).2]
      exact unset.append (by simp)
    | some d => trivial
  | block kind body =>
    obtain ⟨blank, stops⟩ : (∀ c ∈ rest.takeWhile inLine, isAsciiBlank c = true) ∧ StopsBlock (rest.dropWhile inLine) :=
      ends.2
    have newline : Stops inLine ('\n' :: more) := by simp [inLine]
    obtain ⟨taken, dropped⟩ := takeWhile_append_stops (a := rest) newline
    refine ⟨by rwa [taken], ?_⟩
    rw [dropped]
    cases behind : rest.dropWhile inLine with
    | nil => exact stopsBlock_newline.2 (next rfl)
    | cons d line =>
      intro c following same
      rw [List.cons_append] at same
      rw [← (List.cons.inj same).2, StartsSection, (takeWhile_append_stops newline).1]
      exact stops d line behind
  | _ => trivial

theorem endsBefore_nil {token : Token} (wellFormed : token.WellFormed) : token.EndsBefore [] := by
  refine ⟨stops_nil, ?_⟩
  cases token with
  | field name definition => cases definition <;> simp
  | block kind body => simp [StopsBlock]
  | _ => trivial

end Token
end Gridbook
