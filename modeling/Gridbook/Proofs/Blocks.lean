import Gridbook.Proofs.Grammar

/-!
Blocks. A block runs over lines until one that ends it, and leaves the blanks at its end. `GoesOn` says of the lines
that were taken what `StopsBlock` says of the rest.
-/
namespace Gridbook.Token

open Text

theorem endsBlock_append_blank {line blanks : List Char} (blank : ∀ c ∈ blanks, isBlank c = true) :
    endsBlock (line ++ blanks) = endsBlock line := by
  unfold endsBlock
  rw [trim_append_run blank]

theorem endsBlock_blank {line : List Char} (blank : ∀ c ∈ line, isBlank c = true) : endsBlock line = true := by
  have none : trim line = [] := trim_append_run (a := []) blank
  simp [endsBlock, none]

/-- Whether a line ends a block can be seen from its front. -/
theorem endsBlock_eq (line : List Char) :
    endsBlock line =
      match trimStart line with
      | [] => true
      | c :: _ => c == '!' || (Keyword.ofWord? (firstWord line)).any (·.startsSection) := by
  unfold endsBlock
  cases start : trimStart line with
  | nil => simp [trim, trimEnd, start, dropEndWhile]
  | cons c cs =>
    have outside : isBlank c = false := by
      have := stops_dropWhile isBlank line
      rwa [← trimStart, start, stops_cons] at this
    obtain ⟨more, same⟩ : ∃ more, trim line = c :: more := by
      obtain ⟨run, parts, all⟩ := exists_run_dropEndWhile isBlank (c :: cs)
      rw [trim, trimEnd, start]
      cases left : dropEndWhile isBlank (c :: cs) with
      | nil =>
        rw [left, List.nil_append] at parts
        have := all c (by simp [← parts])
        simp [outside] at this
      | cons d more =>
        rw [left, List.cons_append] at parts
        exact ⟨more, by rw [(List.cons.inj parts).1]⟩
    rw [same]
    simp only
    rw [← same, firstWord_trim]

theorem endsBlock_bang (line : List Char) : endsBlock ('!' :: line) = true := by
  have start : trimStart ('!' :: line) = '!' :: line := dropWhile_of_stops (by simp; decide)
  rw [endsBlock_eq, start]
  simp

theorem endsBlock_keyword {keyword : Keyword} {rest : List Char} (starts : keyword.startsSection = true)
    (stops : Stops (!isBlank ·) rest) : endsBlock (keyword.word.toList ++ rest) = true := by
  have inside : ∀ c ∈ keyword.word.toList, (!isBlank c) = true := by
    rcases keyword with _ | _ | _ | (_ | _) | _ <;> exact List.all_eq_true.1 (by decide)
  have nonempty : keyword.word.toList ≠ [] := by
    rcases keyword with _ | _ | _ | (_ | _) | _ <;> decide
  have start : trimStart (keyword.word.toList ++ rest) = keyword.word.toList ++ rest := by
    refine dropWhile_of_stops ((stops_append nonempty).2 ?_)
    intro c first
    simpa using inside c (List.mem_of_mem_head? first)
  have word : firstWord (keyword.word.toList ++ rest) = keyword.word.toList := by
    rw [firstWord, start, takeWhile_run inside stops]
  rw [endsBlock_eq, start, word]
  split
  · rfl
  · simp [ofWord?_word, starts]

theorem startsSection_nil : StartsSection [] := by
  simp [StartsSection, endsBlock, trim, trimStart, trimEnd, dropEndWhile]

theorem startsSection_bang (cs : List Char) : StartsSection ('!' :: cs) := by
  rw [StartsSection, List.takeWhile_cons_of_pos (by decide)]
  exact endsBlock_bang _

theorem startsSection_keyword (keyword : Keyword) {rest : List Char} (starts : keyword.startsSection = true)
    (stops : Stops (!isBlank ·) rest) : StartsSection (keyword.word.toList ++ rest) := by
  have inside : ∀ c ∈ keyword.word.toList, inLine c = true := by
    rcases keyword with _ | _ | _ | (_ | _) | _ <;> exact List.all_eq_true.1 (by decide)
  have front : Stops (!isBlank ·) (rest.takeWhile inLine) := by
    rw [← List.takeWhile_append_dropWhile (p := inLine) (l := rest)] at stops
    exact stops.of_append
  unfold StartsSection
  rw [List.takeWhile_append_of_pos inside]
  exact endsBlock_keyword starts front

theorem goesOn_line_append {line more : List Char} (inside : ∀ c ∈ line, inLine c = true) :
    GoesOn (line ++ more) ↔ GoesOn more := by
  constructor
  · intro goesOn before next same
    exact goesOn (line ++ before) next (by simp [same])
  · intro goesOn before next same
    rcases List.append_eq_append_iff.1 same with ⟨m, rfl, rest⟩ | ⟨m, first, rest⟩
    · exact goesOn m next rest
    · cases m with
      | nil => exact goesOn [] next (by simpa using rest.symm)
      | cons c m =>
        have newline : c = '\n' := by simpa using (List.cons.inj rest).1.symm
        have := inside c (by simp [first])
        simp [inLine, newline] at this

theorem goesOn_newline {more : List Char} :
    GoesOn ('\n' :: more) ↔ endsBlock (more.takeWhile inLine) = false ∧ GoesOn more := by
  constructor
  · intro goesOn
    exact ⟨goesOn [] more rfl, fun before line same => goesOn ('\n' :: before) line (by simp [same])⟩
  · rintro ⟨first, goesOn⟩ before line same
    cases before with
    | nil =>
      have : more = line := by simpa using same
      rwa [← this]
    | cons c before => exact goesOn before line (by simpa using (List.cons.inj same).2)

/-- Blanks at the end of a line do not change whether a block goes on there. -/
theorem goesOn_append_blank {body blanks : List Char}
    (blank : ∀ c ∈ blanks, isAsciiBlank c = true ∧ inLine c = true) :
    GoesOn (body ++ blanks) ↔ GoesOn body := by
  have line (line : List Char) :
      endsBlock ((line ++ blanks).takeWhile inLine) = endsBlock (line.takeWhile inLine) := by
    rcases takeWhile_append_cases inLine line blanks with ⟨inside, same⟩ | same
    · rw [same, List.takeWhile_eq_self_iff.2 inside,
        List.takeWhile_eq_self_iff.2 fun c member => (blank c member).2]
      exact endsBlock_append_blank fun c member => isBlank_of_isAsciiBlank (blank c member).1
    · rw [same]
  constructor
  · intro goesOn before next same
    rw [← line]
    exact goesOn before (next ++ blanks) (by simp [same])
  · intro goesOn before next same
    rcases List.append_eq_append_iff.1 same with ⟨m, _, rest⟩ | ⟨m, first, rest⟩
    · have : '\n' ∈ blanks := by simp [rest]
      simpa [inLine] using (blank _ this).2
    · cases m with
      | nil =>
        have : '\n' ∈ blanks := by simp at rest; simp [← rest]
        simpa [inLine] using (blank _ this).2
      | cons c m =>
        rw [List.cons_append] at rest
        obtain ⟨rfl, rfl⟩ := List.cons.inj rest
        rw [line]
        exact goesOn before m first

/-- A block that goes on keeps no line end among the blanks at its end. -/
theorem GoesOn.inLine_of_blank {body blanks : List Char} (goesOn : GoesOn (body ++ blanks))
    (blank : ∀ c ∈ blanks, isBlank c = true) : ∀ c ∈ blanks, inLine c = true := by
  intro c member
  by_contra newline
  have : c = '\n' := by simpa [inLine] using newline
  subst this
  obtain ⟨front, back, rfl⟩ := List.append_of_mem member
  have contradiction := goesOn (body ++ front) back (by simp)
  rw [endsBlock_blank fun c taken => blank c (by simp [(List.takeWhile_subset inLine) taken])] at contradiction
  exact Bool.noConfusion contradiction

theorem stopsBlock_newline {rest : List Char} :
    StopsBlock ('\n' :: rest) ↔ StartsSection rest := by
  constructor
  · intro stops
    exact stops '\n' rest rfl
  · intro ends c line same
    rwa [← (List.cons.inj same).2]

theorem blockLines_sound {cs : List Char} (start : Stops inLine cs) :
    Stops inLine (blockLines cs).1 ∧ GoesOn (blockLines cs).1 ∧
      Stops inLine (blockLines cs).2 ∧ StopsBlock (blockLines cs).2 := by
  fun_induction blockLines cs with
  | case1 => exact ⟨stops_nil, by simp [GoesOn], stops_nil, by simp [StopsBlock]⟩
  | case2 c cs ends =>
    refine ⟨stops_nil, by simp [GoesOn], start, ?_⟩
    rintro d line same
    rwa [← (List.cons.inj same).2]
  | case3 c cs goes lines rest same ih =>
    rw [same] at ih
    obtain ⟨stops, goesOn, ends⟩ := ih (stops_dropWhile _ _)
    have newline : c = '\n' := by simpa [inLine] using start
    subst newline
    refine ⟨by simp [inLine], goesOn_newline.2 ⟨?_, ?_⟩, ends⟩
    · rw [takeWhile_run (fun _ => List.mem_takeWhile_imp) stops]
      simpa using goes
    · exact (goesOn_line_append fun _ => List.mem_takeWhile_imp).2 goesOn

theorem blockLines_complete {lines rest : List Char} (start : Stops inLine lines) (goesOn : GoesOn lines)
    (ends : Stops inLine rest) (stops : StopsBlock rest) : blockLines (lines ++ rest) = (lines, rest) := by
  induction length : lines.length using Nat.strong_induction_on generalizing lines with
  | _ n ih =>
    cases lines with
    | nil =>
      cases rest with
      | nil => simp [blockLines]
      | cons c more =>
        have next : endsBlock (more.takeWhile inLine) = true := stops c more rfl
        simp [blockLines, next]
    | cons c more =>
      have newline : c = '\n' := by simpa [inLine] using start
      subst newline
      obtain ⟨first, goesOn⟩ := goesOn_newline.1 goesOn
      obtain ⟨taken, dropped⟩ := takeWhile_append_stops (a := more) ends
      have shorter : (more.dropWhile inLine).length < n := by
        have := (List.dropWhile_suffix (l := more) inLine).length_le
        simp only [← length, List.length_cons]
        omega
      have goesOn' : GoesOn (more.dropWhile inLine) := by
        rw [← List.takeWhile_append_dropWhile (p := inLine) (l := more)] at goesOn
        exact (goesOn_line_append fun _ => List.mem_takeWhile_imp).1 goesOn
      rw [List.cons_append, blockLines, taken, dropped, first]
      simp [ih _ shorter (stops_dropWhile _ _) goesOn' rfl]

theorem readBlock_complete {kind : BlockKind} {body rest : List Char} (wellFormed : (block kind body).WellFormed)
    (ends : (block kind body).EndsBefore rest) : readBlock kind (body ++ rest) = (block kind body, rest) := by
  obtain ⟨-, trimmed, goesOn⟩ := wellFormed
  obtain ⟨-, blank, stops⟩ := ends
  -- What is read as the block are its body and the blanks left on its last line.
  have whole : body ++ rest = (body ++ rest.takeWhile inLine) ++ rest.dropWhile inLine := by
    rw [List.append_assoc, List.takeWhile_append_dropWhile]
  have goesOn : GoesOn (body ++ rest.takeWhile inLine) :=
    (goesOn_append_blank fun c member => ⟨blank c member, List.mem_takeWhile_imp member⟩).2 goesOn
  obtain ⟨taken, dropped⟩ :=
    takeWhile_append_stops (a := body ++ rest.takeWhile inLine) (stops_dropWhile inLine rest)
  have goesOn' : GoesOn ((body ++ rest.takeWhile inLine).dropWhile inLine) := by
    rw [← List.takeWhile_append_dropWhile (p := inLine) (l := body ++ rest.takeWhile inLine)] at goesOn
    exact (goesOn_line_append fun _ => List.mem_takeWhile_imp).1 goesOn
  have lines := blockLines_complete (stops_dropWhile _ _) goesOn' (stops_dropWhile inLine rest) stops
  unfold readBlock
  rw [whole, dropped, taken, lines]
  simp only [List.takeWhile_append_dropWhile]
  rw [dropEndWhile_append_run blank, dropEndWhile_of_stops trimmed]
  simp

theorem readBlock_sound {kind : BlockKind} {cs : List Char} (start : Stops (!isWordEnd ·) cs) :
    (readBlock kind cs).1.WellFormed ∧ (readBlock kind cs).1.EndsBefore (readBlock kind cs).2 := by
  obtain ⟨-, goesOn, ends, stops⟩ := blockLines_sound (stops_dropWhile inLine cs)
  have goesOn : GoesOn (cs.takeWhile inLine ++ (blockLines (cs.dropWhile inLine)).1) :=
    (goesOn_line_append fun _ => List.mem_takeWhile_imp).2 goesOn
  obtain ⟨blanks, whole, blank⟩ :=
    exists_run_dropEndWhile isAsciiBlank (cs.takeWhile inLine ++ (blockLines (cs.dropWhile inLine)).1)
  have front : Stops (!isWordEnd ·) (cs.takeWhile inLine ++ (blockLines (cs.dropWhile inLine)).1) := by
    rw [← List.takeWhile_append_dropWhile (p := inLine) (l := cs), ← blockLines_append (cs.dropWhile inLine),
      ← List.append_assoc] at start
    exact start.of_append
  have trimmed := stops_dropEndWhile isAsciiBlank
    (cs.takeWhile inLine ++ (blockLines (cs.dropWhile inLine)).1)
  unfold readBlock
  simp only
  generalize dropEndWhile isAsciiBlank _ = body at whole trimmed ⊢
  rw [whole] at goesOn front ⊢
  have inside := goesOn.inLine_of_blank fun c member => isBlank_of_isAsciiBlank (blank c member)
  rw [List.drop_left]
  refine ⟨⟨front.of_append, trimmed, ?_⟩, by simp [takes, Stops], ?_, ?_⟩
  · exact (goesOn_append_blank fun c member => ⟨blank c member, inside c member⟩).1 goesOn
  · rw [takeWhile_run inside ends]
    exact blank
  · rw [dropWhile_run inside ends]
    exact stops

end Gridbook.Token
