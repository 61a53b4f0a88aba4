import Gridbook.Sheet.Token
import Mathlib.Data.List.DropRight

/-!
Runs of characters of one class. A run that is put before a text outside the class is taken off again whole, from
the front as from the end; trimming is taking off runs of blanks at both ends.
-/
namespace Gridbook.Text

variable {p : Char → Bool} {a b cs : List Char}

/-- The text is empty, or starts outside the class. -/
def Stops (p : Char → Bool) (cs : List Char) : Prop := ∀ c ∈ cs.head?, p c = false

@[simp] theorem stops_nil : Stops p [] := by simp [Stops]

@[simp] theorem stops_cons {c : Char} : Stops p (c :: cs) ↔ p c = false := by simp [Stops]

theorem stops_dropWhile (p : Char → Bool) (cs : List Char) : Stops p (cs.dropWhile p) := by
  intro c first
  have outside := List.head?_dropWhile_not p cs
  rw [Option.mem_def.1 first] at outside
  exact outside

theorem Stops.of_append (stops : Stops p (a ++ b)) : Stops p a := by
  cases a with
  | nil => exact stops_nil
  | cons c a => simpa using stops

theorem Stops.append (first : Stops p a) (second : Stops p b) : Stops p (a ++ b) := by
  cases a with
  | nil => exact second
  | cons c a => simpa using first

theorem stops_append (nonempty : a ≠ []) : Stops p (a ++ b) ↔ Stops p a := by
  cases a with
  | nil => exact absurd rfl nonempty
  | cons c a => simp

theorem takeWhile_run (run : ∀ c ∈ a, p c = true) (stops : Stops p b) : (a ++ b).takeWhile p = a := by
  rw [List.takeWhile_append_of_pos run]
  cases b with
  | nil => simp
  | cons c b => simp [stops_cons.1 stops]

theorem dropWhile_run (run : ∀ c ∈ a, p c = true) (stops : Stops p b) : (a ++ b).dropWhile p = b := by
  rw [List.dropWhile_append_of_pos run]
  cases b with
  | nil => simp
  | cons c b => simp [stops_cons.1 stops]

theorem takeWhile_of_stops (stops : Stops p cs) : cs.takeWhile p = [] := by
  simpa using takeWhile_run (a := []) (by simp) stops

theorem dropWhile_of_stops (stops : Stops p cs) : cs.dropWhile p = cs := by
  simpa using dropWhile_run (a := []) (by simp) stops

theorem takeWhile_append_stops (stops : Stops p b) :
    (a ++ b).takeWhile p = a.takeWhile p ∧ (a ++ b).dropWhile p = a.dropWhile p ++ b := by
  have split : a ++ b = a.takeWhile p ++ (a.dropWhile p ++ b) := by
    rw [← List.append_assoc, List.takeWhile_append_dropWhile]
  have outside : Stops p (a.dropWhile p ++ b) := (stops_dropWhile p a).append stops
  rw [split]
  exact ⟨takeWhile_run (fun _ => List.mem_takeWhile_imp) outside,
    dropWhile_run (fun _ => List.mem_takeWhile_imp) outside⟩

/-- A run at the front of two texts goes on into the second only if it takes all of the first. -/
theorem takeWhile_append_cases (p : Char → Bool) (a b : List Char) :
    (∀ c ∈ a, p c = true) ∧ (a ++ b).takeWhile p = a ++ b.takeWhile p ∨ (a ++ b).takeWhile p = a.takeWhile p := by
  by_cases inside : ∀ c ∈ a, p c = true
  · exact .inl ⟨inside, List.takeWhile_append_of_pos inside⟩
  · refine .inr ?_
    rw [List.takeWhile_append, if_neg]
    intro same
    exact inside (List.takeWhile_eq_self_iff.1 ((List.takeWhile_prefix p).eq_of_length same))

/-- Seen from its end, a text starts with what stands behind the last place of a character. -/
theorem reverse_last {d : Char} (apart : d ∉ b) :
    (a ++ d :: b).reverse.takeWhile (· != d) = b.reverse ∧ (a ++ d :: b).reverse.dropWhile (· != d) = d :: a.reverse := by
  have run : ∀ c ∈ b.reverse, (c != d) = true := by
    intro c inside
    have other : c ≠ d := by
      rintro rfl
      exact apart (List.mem_reverse.1 inside)
    simpa using other
  have stops : Stops (· != d) (d :: a.reverse) := by simp
  have reversed : (a ++ d :: b).reverse = b.reverse ++ d :: a.reverse := by simp
  rw [reversed]
  exact ⟨takeWhile_run run stops, dropWhile_run run stops⟩

/-- A text has a last place of a character, or no place of it. -/
theorem last_cases (d : Char) (cs : List Char) :
    cs.reverse.dropWhile (· != d) = [] ∨ ∃ front back, cs = front ++ d :: back ∧ d ∉ back := by
  cases rest : cs.reverse.dropWhile (· != d) with
  | nil => exact .inl rfl
  | cons c front =>
    obtain rfl : c = d := by simpa [rest] using List.head?_dropWhile_not (· != d) cs.reverse
    have parts := congrArg List.reverse (List.takeWhile_append_dropWhile (p := (· != c)) (l := cs.reverse))
    rw [rest, List.reverse_reverse] at parts
    refine .inr ⟨front.reverse, (cs.reverse.takeWhile (· != c)).reverse, by simpa using parts.symm, ?_⟩
    intro inside
    simpa using List.mem_takeWhile_imp (List.mem_reverse.1 inside)

theorem dropEndWhile_append_run (run : ∀ c ∈ b, p c = true) :
    dropEndWhile p (a ++ b) = dropEndWhile p a := by
  unfold dropEndWhile
  rw [List.reverse_append, List.dropWhile_append_of_pos (by simpa using run)]

theorem dropEndWhile_of_stops (stops : Stops p cs.reverse) : dropEndWhile p cs = cs := by
  unfold dropEndWhile
  rw [dropWhile_of_stops stops, List.reverse_reverse]

theorem stops_dropEndWhile (p : Char → Bool) (cs : List Char) : Stops p (dropEndWhile p cs).reverse := by
  unfold dropEndWhile
  rw [List.reverse_reverse]
  exact stops_dropWhile p cs.reverse

/-- What is dropped at the end is a run of the class. -/
theorem exists_run_dropEndWhile (p : Char → Bool) (cs : List Char) :
    ∃ run, cs = dropEndWhile p cs ++ run ∧ ∀ c ∈ run, p c = true :=
  ⟨cs.rtakeWhile p, (List.rdropWhile_append_rtakeWhile (p := p)).symm, fun _ => List.mem_rtakeWhile_imp⟩

theorem trim_run_append (run : ∀ c ∈ a, isBlank c = true) : trim (a ++ b) = trim b := by
  unfold trim trimStart
  rw [List.dropWhile_append_of_pos run]

theorem trim_append_run (run : ∀ c ∈ b, isBlank c = true) : trim (a ++ b) = trim a := by
  unfold trim trimEnd trimStart
  rw [List.dropWhile_append]
  split
  · next all =>
    have none : b.dropWhile isBlank = [] := List.dropWhile_eq_nil_iff.2 run
    rw [none, List.isEmpty_iff.1 all]
  · exact dropEndWhile_append_run run

/-- A text is trimmed when it neither starts nor ends with a blank. -/
theorem trim_of_stops (front : Stops isBlank cs) (back : Stops isBlank cs.reverse) : trim cs = cs := by
  unfold trim trimEnd trimStart
  rw [dropWhile_of_stops front, dropEndWhile_of_stops back]

/-- Trimming does not empty a text that is not blank. -/
theorem trim_ne_nil {c : Char} (inside : c ∈ a) (shown : isBlank c = false) : trim a ≠ [] := by
  intro empty
  obtain ⟨run, left, blank⟩ := exists_run_dropEndWhile isBlank (trimStart a)
  rw [← trimEnd, ← trim, empty, List.nil_append] at left
  have all : ∀ d ∈ a, isBlank d = true := by
    intro d among
    rw [← List.takeWhile_append_dropWhile (p := isBlank) (l := a), List.mem_append] at among
    rcases among with early | late
    · exact List.mem_takeWhile_imp early
    · exact blank d (left ▸ late)
  simp [all c inside] at shown

theorem stops_trim (cs : List Char) : Stops isBlank (trim cs) := by
  obtain ⟨rest, same⟩ := dropEndWhile_initial isBlank (trimStart cs)
  have stops := stops_dropWhile isBlank cs
  rw [← trimStart, ← same] at stops
  exact stops.of_append

theorem trim_trim (cs : List Char) : trim (trim cs) = trim cs :=
  trim_of_stops (stops_trim cs) (stops_dropEndWhile isBlank (trimStart cs))

theorem takeWhile_not_dropEndWhile (p : Char → Bool) (cs : List Char) :
    (dropEndWhile p cs).takeWhile (!p ·) = cs.takeWhile (!p ·) := by
  obtain ⟨run, parts, all⟩ := exists_run_dropEndWhile p cs
  have stops : Stops (!p ·) run := by
    intro c first
    simp [all c (List.mem_of_mem_head? first)]
  conv => rhs; rw [parts]
  rw [(takeWhile_append_stops stops).1]

theorem trimStart_trim (cs : List Char) : trimStart (trim cs) = trim cs :=
  dropWhile_of_stops (stops_trim cs)

theorem firstWord_trim (cs : List Char) : firstWord (trim cs) = firstWord cs := by
  unfold firstWord
  rw [trimStart_trim, trim, trimEnd, takeWhile_not_dropEndWhile]

theorem isBlank_of_isAsciiBlank {c : Char} (h : isAsciiBlank c = true) : isBlank c = true := by
  simp only [isAsciiBlank, Bool.or_eq_true, beq_iff_eq] at h
  rcases h with (((rfl | rfl) | rfl) | rfl) | rfl <;> decide

theorem isAsciiBlank_of_isInlineBlank {c : Char} (h : isInlineBlank c = true) : isAsciiBlank c = true := by
  simp only [isInlineBlank, Bool.or_eq_true, beq_iff_eq] at h
  rcases h with rfl | rfl <;> decide

end Gridbook.Text
