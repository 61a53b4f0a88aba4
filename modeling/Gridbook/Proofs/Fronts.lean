import Gridbook.Proofs.LineStarts

/-!
The front of a text. Items lead to a rest if they are read off the text that they make up with it. They ask little of the
rest: a token looks at the character behind it, a name for an equals sign behind blanks, and a block at the line that
ends it. So the items in front of an edit are read as before where the edit leaves these in place.
-/
namespace Gridbook

open Text

theorem Text.isInlineBlank_of_not_isAsciiBlank {c : Char} (shown : isAsciiBlank c = false) : isInlineBlank c = false := by
  by_contra blank
  simp [isAsciiBlank_of_isInlineBlank (by simpa using blank)] at shown

theorem Keyword.ofWord?_of_mem {word : List Char} {c : Char} (inside : c ∈ word) (wordEnd : Token.isWordEnd c = true) :
    ofWord? word = none := by
  cases known : ofWord? word with
  | none => rfl
  | some keyword =>
    rw [← Token.word_of_ofWord? known] at inside
    simp [(Token.isBare_keyword keyword).inside c inside] at wordEnd

namespace Token

variable {token : Token} {front part after after' : List Char}

/-- A name ends before a character that ends words, whether it is bare or quoted. -/
theorem stops_nameTakes {name rest : List Char} (legal : IsBare name ∨ IsQuoted name)
    (apart : Stops (!isWordEnd ·) rest) : Stops (nameTakes name) rest := by
  rcases legal with bare | quoted
  · exact (stops_bare bare).2 apart
  · refine (stops_quoted quoted).2 fun c first => ?_
    have wordEnd := apart c first
    simp only [beq_eq_false_iff_ne]
    rintro rfl
    simp [isWordEnd_quote] at wordEnd

/-- Whether a line ends a block is settled once this part of it has been read. -/
def Settles (part : List Char) : Prop :=
  ∀ before after, endsBlock (before ++ (part ++ after)) = endsBlock (before ++ part)

/-- No keyword reaches over a bracket. -/
theorem settles_bracket : Settles ['['] := by
  intro before after
  have word (more : List Char) :
      (Keyword.ofWord? (firstWord (before ++ '[' :: more))).any (·.startsSection) =
        if ∀ c ∈ trimStart before, (!isBlank c) = true then false
        else (Keyword.ofWord? ((trimStart before).takeWhile (!isBlank ·))).any (·.startsSection) := by
    have start : trimStart (before ++ '[' :: more) = trimStart before ++ '[' :: more :=
      (takeWhile_append_stops (by simp; decide)).2
    rw [firstWord, start]
    split
    · next inside =>
      rw [List.takeWhile_append_of_pos inside, List.takeWhile_cons_of_pos (by decide),
        Keyword.ofWord?_of_mem (c := '[') (by simp) (by decide)]
      rfl
    · next outside =>
      rcases takeWhile_append_cases (fun c => !isBlank c) (trimStart before) ('[' :: more) with ⟨inside, -⟩ | same
      · exact absurd inside outside
      · rw [same]
  have start (more : List Char) : trimStart (before ++ '[' :: more) = trimStart before ++ '[' :: more :=
    (takeWhile_append_stops (by simp; decide)).2
  rw [List.singleton_append, endsBlock_eq, endsBlock_eq, start, start, word, word]
  cases trimStart before <;> rfl

/-- A word is complete where a blank follows it. -/
theorem settles_blank {c d : Char} (shown : isBlank c = false) (inside : c ∈ part) (blank : isBlank d = true) :
    Settles (part ++ [d]) := by
  intro before after
  obtain ⟨first, more, start⟩ : ∃ first more, trimStart (before ++ part) = first :: more := by
    refine List.exists_cons_of_ne_nil fun none => ?_
    have := List.dropWhile_eq_nil_iff.1 none c (by simp [inside])
    simp [shown] at this
  have front (rest : List Char) : trimStart (before ++ (part ++ rest)) = first :: more ++ rest := by
    rw [← List.append_assoc, trimStart, List.dropWhile_append, ← trimStart, start]
    rfl
  have stops (rest : List Char) : Stops (!isBlank ·) (d :: rest) := by simp [blank]
  rw [List.append_assoc, List.singleton_append, endsBlock_eq, endsBlock_eq, firstWord, firstWord, front, front,
    (takeWhile_append_stops (stops after)).1, (takeWhile_append_stops (stops [])).1]
  rfl

/-- How a declaration starts: whatever follows it, it is told from what stands before it. -/
structure Opens (part : List Char) : Prop where
  nonempty : part ≠ []
  start : Stops isAsciiBlank part
  inside : ∀ c ∈ part, inLine c = true
  settles : Settles part

theorem opens_bracket : Opens ['['] :=
  ⟨by simp, by simp; decide, by simp [inLine], settles_bracket⟩

theorem opens_header {c : Char} (blank : isInlineBlank c = true) : Opens (Keyword.table.word.toList ++ [c]) := by
  have ascii := isAsciiBlank_of_isInlineBlank blank
  refine ⟨by simp, by simp [Keyword.word]; decide, ?_, ?_⟩
  · exact List.forall_mem_append.2
      ⟨inLine_keyword .table, List.forall_mem_singleton.2 (inLine_of_isInlineBlank blank)⟩
  · exact settles_blank (c := 't') (by decide) (by decide) (isBlank_of_isAsciiBlank ascii)

theorem exists_text_field (name : List Char) (definition : Option Definition) :
    ∃ more, (field name definition).text = ['['] ++ more := by
  cases definition <;> exact ⟨_, rfl⟩

/-- A header with a name starts in the same way whatever the name is. -/
theorem WellFormed.exists_text_table {blanks name : List Char} (wellFormed : (table blanks name).WellFormed)
    (nonempty : name ≠ []) : ∃ part, Opens part ∧ ∀ name, ∃ more, (table blanks name).text = part ++ more := by
  obtain ⟨inline, missing | ⟨parted, -⟩⟩ := wellFormed
  · exact absurd missing nonempty
  · obtain ⟨c, more, rfl⟩ := List.exists_cons_of_ne_nil parted
    exact ⟨_, opens_header (inline c (by simp)), fun name => ⟨more ++ name, by simp [text]⟩⟩

theorem Settles.startsSection (settles : Settles part) (inside : ∀ c ∈ part, inLine c = true)
    (next : StartsSection (front ++ (part ++ after))) : StartsSection (front ++ (part ++ after')) := by
  unfold StartsSection at next ⊢
  rcases line_cases front with all | ⟨line, more, all, rfl⟩
  · rw [List.takeWhile_append_of_pos all, List.takeWhile_append_of_pos inside, settles] at next ⊢
    exact next
  · rw [List.append_assoc, List.cons_append, takeWhile_run all stops_newline] at next ⊢
    exact next

/-- A token that is no block does not look behind the first character that is no blank of its line. -/
theorem EndsBefore.replace_plain {c : Char} (ends : token.EndsBefore (front ++ after)) (plain : token.isBlock = false)
    (member : c ∈ front) (outside : isInlineBlank c = false) : token.EndsBefore (front ++ after') := by
  have nonempty : front ≠ [] := List.ne_nil_of_mem member
  have apart : Stops token.takes (front ++ after') := (stops_append nonempty).2 ((stops_append nonempty).1 ends.1)
  cases token with
  | field name definition =>
    cases definition with
    | none =>
      have left : front.dropWhile isInlineBlank ≠ [] := by
        intro none
        have := List.dropWhile_eq_nil_iff.1 none c member
        simp [outside] at this
      have split (rest : List Char) :
          (front ++ rest).dropWhile isInlineBlank = front.dropWhile isInlineBlank ++ rest := by
        rw [List.dropWhile_append, if_neg (by simpa using left)]
      have unset : Stops (· == '=') ((front ++ after).dropWhile isInlineBlank) := ends.2
      refine ⟨apart, ?_⟩
      dsimp only
      rw [split, stops_append left] at unset ⊢
      exact unset
    | some d => exact ⟨apart, trivial⟩
  | block kind body => simp [isBlock] at plain
  | _ => exact ⟨apart, trivial⟩

/-- A token that is no block ends where the text does if it ends before more. -/
theorem EndsBefore.of_append_plain (ends : token.EndsBefore (front ++ after)) (plain : token.isBlock = false) :
    token.EndsBefore front := by
  have apart : Stops token.takes front := ends.1.of_append
  cases token with
  | field name definition =>
    cases definition with
    | none =>
      have unset : Stops (· == '=') ((front ++ after).dropWhile isInlineBlank) := ends.2
      refine ⟨apart, ?_⟩
      dsimp only
      rw [List.dropWhile_append] at unset
      split at unset
      · next none => simp [List.isEmpty_iff.1 none]
      · exact unset.of_append
    | some d => exact ⟨apart, trivial⟩
  | block kind body => simp [isBlock] at plain
  | _ => exact ⟨apart, trivial⟩

/-- A token in front of the start of a declaration ends there, whatever is declared. -/
theorem EndsBefore.replace (ends : token.EndsBefore (front ++ (part ++ after))) (opens : Opens part) :
    token.EndsBefore (front ++ (part ++ after')) := by
  obtain ⟨c, more, rfl⟩ := List.exists_cons_of_ne_nil opens.nonempty
  have shown : isAsciiBlank c = false := by simpa using opens.start
  cases token with
  | block kind body =>
    rcases line_cases front with all | ⟨line, back, all, rfl⟩
    · -- The block would end on the line of the declaration, in which not all is blank.
      have blank := ends.2.1 c (by
        rw [List.takeWhile_append_of_pos all, List.takeWhile_append_of_pos opens.inside]
        simp)
      simp [shown] at blank
    · rw [List.append_assoc, List.cons_append, endsBefore_block_iff all stops_newline, stopsBlock_newline] at ends ⊢
      exact ⟨ends.1, opens.settles.startsSection opens.inside ends.2⟩
  | _ =>
    rw [← List.append_assoc] at ends ⊢
    exact ends.replace_plain rfl (by simp) (isInlineBlank_of_not_isAsciiBlank shown)

end Token

namespace Item

variable {items front back : List Item} {item : Item} {text rest rest' gap part after after' : List Char}

/-- The items are read off the front of the text that they make up with the rest. -/
def Leads : List Item → List Char → Prop
  | [], _ => True
  | item :: items, rest =>
    (∀ c ∈ item.gap, isAsciiBlank c = true) ∧ item.token.WellFormed ∧ item.token.EndsBefore (texts items ++ rest) ∧
      Leads items rest

@[simp] theorem texts_append (front back : List Item) : texts (front ++ back) = texts front ++ texts back := by
  simp [texts]

theorem leads_append : Leads (front ++ back) rest ↔ Leads front (texts back ++ rest) ∧ Leads back rest := by
  induction front with
  | nil => simp [Leads]
  | cons item front ih => simp [Leads, ih, and_assoc]

theorem read_leads (leads : Leads items rest) : read (texts items ++ rest) = items ++ read rest := by
  induction items with
  | nil => rfl
  | cons item items ih =>
    obtain ⟨blank, wellFormed, ends, further⟩ := leads
    rw [texts_cons, List.append_assoc, List.append_assoc, read_token blank wellFormed ends, ih further]
    rfl

/-- Closed items at the front of what is read lead to what the others are read from. -/
theorem exists_leads (read : read text = front ++ back) (closed : ∀ item ∈ front, item.token.isUnclosed = false) :
    ∃ rest, text = texts front ++ rest ∧ Leads front rest ∧ Item.read rest = back := by
  induction text using grammar_induction generalizing front with
  | blank text all =>
    obtain ⟨rfl, rfl⟩ := List.append_eq_nil_iff.1 (read.symm.trans (read_blank all))
    exact ⟨text, rfl, trivial, read_blank all⟩
  | closed gap token rest blank wellFormed ends ih =>
    cases front with
    | nil => exact ⟨_, rfl, trivial, read⟩
    | cons item front =>
      rw [read_token blank wellFormed ends] at read
      obtain ⟨rfl, behind⟩ := List.cons.inj read
      obtain ⟨rest', rfl, leads, further⟩ := ih behind fun item member => closed item (by simp [member])
      exact ⟨rest', by simp, ⟨blank, wellFormed, ends, leads⟩, further⟩
  | opened gap problem text blank opens =>
    cases front with
    | nil => exact ⟨_, rfl, trivial, read⟩
    | cons item front =>
      rw [read_open blank opens] at read
      obtain ⟨rfl, -⟩ := List.cons.inj read
      have := closed ⟨gap, .unclosed problem text⟩ (by simp)
      simp [Token.isUnclosed] at this

/-- Only the last item of a text can be one that is not closed. -/
theorem closed_of_read (read : read text = front ++ item :: back) :
    ∀ item ∈ front, item.token.isUnclosed = false := by
  induction text using grammar_induction generalizing front with
  | blank text all => simp [read_blank all] at read
  | closed gap token rest blank wellFormed ends ih =>
    cases front with
    | nil => simp
    | cons first front =>
      rw [read_token blank wellFormed ends] at read
      obtain ⟨rfl, behind⟩ := List.cons.inj read
      simpa [wellFormed.closed] using ih behind
  | opened gap problem text blank opens =>
    cases front with
    | nil => simp
    | cons first front => simp [read_open blank opens] at read

/-- The items up to one that is closed. -/
theorem exists_leads_concat (read : read text = front ++ item :: back) (closed : item.token.isUnclosed = false) :
    ∃ rest, text = texts (front ++ [item]) ++ rest ∧ Leads (front ++ [item]) rest ∧ Item.read rest = back :=
  exists_leads (read.trans (List.append_cons ..))
    (List.forall_mem_append.2 ⟨closed_of_read read, List.forall_mem_singleton.2 closed⟩)

/-- Items in front of a declaration do not depend on what is declared. -/
theorem Leads.replace (leads : Leads items (gap ++ (part ++ after))) (opens : Token.Opens part) :
    Leads items (gap ++ (part ++ after')) := by
  induction items with
  | nil => trivial
  | cons item items ih =>
    obtain ⟨blank, wellFormed, ends, further⟩ := leads
    rw [← List.append_assoc] at ends
    refine ⟨blank, wellFormed, ?_, ih further⟩
    rw [← List.append_assoc]
    exact ends.replace opens

/-- The last of the items can be another token that starts in the same way. -/
theorem Leads.exchange {token token' : Token} {more more' : List Char} (leads : Leads (front ++ [⟨gap, token⟩]) rest)
    (opens : Token.Opens part) (starts : token.text = part ++ more) (starts' : token'.text = part ++ more')
    (wellFormed : token'.WellFormed) (ends : token'.EndsBefore rest') : Leads (front ++ [⟨gap, token'⟩]) rest' := by
  obtain ⟨before, blank, -⟩ := leads_append.1 leads
  have spell : texts [⟨gap, token⟩] ++ rest = gap ++ (part ++ (more ++ rest)) := by simp [starts]
  have spell' : texts [⟨gap, token'⟩] ++ rest' = gap ++ (part ++ (more' ++ rest')) := by simp [starts']
  refine leads_append.2 ⟨?_, blank, wellFormed, by simpa using ends, trivial⟩
  rw [spell']
  exact (spell ▸ before).replace opens

/-- Items behind a header that is read after others can be exchanged: what stands before the header sees only that. -/
theorem Leads.rebase {blanks name : List Char} {more more' : List Item}
    (leads : Leads (front ++ ⟨gap, .table blanks name⟩ :: more) rest) (nonempty : name ≠ [])
    (further : Leads (⟨gap, .table blanks name⟩ :: more') rest') :
    Leads (front ++ ⟨gap, .table blanks name⟩ :: more') rest' := by
  obtain ⟨before, -, wellFormed, -⟩ := leads_append.1 leads
  obtain ⟨part, opens, starts⟩ := wellFormed.exists_text_table nonempty
  obtain ⟨inner, starts⟩ := starts name
  have spell (items : List Item) (rest : List Char) : texts (⟨gap, .table blanks name⟩ :: items) ++ rest =
      gap ++ (part ++ (inner ++ (texts items ++ rest))) := by
    simp [starts]
  rw [spell] at before
  refine leads_append.2 ⟨?_, further⟩
  rw [spell]
  exact before.replace opens

/-- Items without blocks are read in the same way when the text ends sooner. -/
theorem Leads.of_append_plain (leads : Leads items (part ++ after)) (plain : ∀ item ∈ items, item.token.isBlock = false) :
    Leads items part := by
  induction items with
  | nil => trivial
  | cons item items ih =>
    obtain ⟨blank, wellFormed, ends, further⟩ := leads
    rw [← List.append_assoc] at ends
    exact ⟨blank, wellFormed, ends.of_append_plain (plain item (by simp)),
      ih further fun item member => plain item (by simp [member])⟩

/-- Items without blocks do not look behind a character that is no blank of the line. -/
theorem Leads.replace_plain {c : Char} (leads : Leads items (part ++ after))
    (plain : ∀ item ∈ items, item.token.isBlock = false) (member : c ∈ part) (outside : isInlineBlank c = false) :
    Leads items (part ++ after') := by
  induction items with
  | nil => trivial
  | cons item items ih =>
    obtain ⟨blank, wellFormed, ends, further⟩ := leads
    rw [← List.append_assoc] at ends
    refine ⟨blank, wellFormed, ?_, ih further fun item member => plain item (by simp [member])⟩
    rw [← List.append_assoc]
    exact ends.replace_plain (plain item (by simp)) (List.mem_append_right _ member) outside

end Item
end Gridbook
