import Gridbook.Proofs.Canonical
import Gridbook.Proofs.Fronts

/-!
Lines that say nothing more. Blanks and a comment at the end of a line are read as a comment and as words made of those
blanks that do not part words; neither does anything to a sheet. Behind an equals sign they are no part of the
expression.
-/
namespace Gridbook

open Text

namespace Text

/-- Blanks and a comment, of which both may be missing. -/
def IsRemark (line : List Char) : Prop := Stops (· != '#') (trim line)

variable {line run blanks remark : List Char}

theorem isRemark_append_run (blank : ∀ c ∈ run, isBlank c = true) : IsRemark (line ++ run) ↔ IsRemark line := by
  rw [IsRemark, IsRemark, trim_append_run blank]

theorem exists_trimEnd {c : Char} (shown : isBlank c = false) (more : List Char) :
    ∃ rest, trimEnd (c :: more) = c :: rest := by
  have trimmed : trim (c :: more) = trimEnd (c :: more) := by
    rw [trim, trimStart, dropWhile_of_stops (by simpa using shown)]
  obtain ⟨d, rest, same⟩ := List.exists_cons_of_ne_nil (trim_ne_nil (a := c :: more) (by simp) shown)
  have initial : trimEnd (c :: more) <+: c :: more := dropEndWhile_initial isBlank _
  rw [← trimmed, same, List.cons_prefix_cons] at initial
  exact ⟨rest, by rw [← trimmed, same, initial.1]⟩

theorem isRemark_iff : IsRemark line ↔ Stops (· != '#') (trimStart line) := by
  rw [IsRemark, trim]
  cases start : trimStart line with
  | nil => simp [trimEnd, dropEndWhile]
  | cons c more =>
    have stops := stops_dropWhile isBlank line
    rw [← trimStart, start, stops_cons] at stops
    obtain ⟨rest, same⟩ := exists_trimEnd stops more
    rw [same, stops_cons, stops_cons]

theorem IsRemark.exists_parts (quiet : IsRemark line) :
    ∃ blanks remark, line = blanks ++ remark ∧ (∀ c ∈ blanks, isBlank c = true) ∧ Stops (· != '#') remark :=
  ⟨line.takeWhile isBlank, trimStart line, List.takeWhile_append_dropWhile.symm, fun _ => List.mem_takeWhile_imp,
    isRemark_iff.1 quiet⟩

theorem isRemark_append (blank : ∀ c ∈ blanks, isBlank c = true) (mark : Stops (· != '#') remark) :
    IsRemark (blanks ++ remark) := by
  rw [isRemark_iff, trimStart, List.dropWhile_append_of_pos blank]
  cases remark with
  | nil => exact stops_nil
  | cons c more =>
    obtain rfl : c = '#' := by simpa using mark
    rw [dropWhile_of_stops (by simp; decide)]
    exact mark

theorem isRemark_blank (blank : ∀ c ∈ blanks, isBlank c = true) : IsRemark blanks := by
  simpa using isRemark_append blank stops_nil

end Text

namespace Token

def isIdle : Token → Bool
  | comment _ | word _ => true
  | _ => false

/-- The quote that is open behind the text, `quote` being open before it. -/
def openQuote : (quote : Option Char) → List Char → Option Char
  | quote, [] => quote
  | none, c :: cs => openQuote (if c = '"' ∨ c = '\x27' then some c else none) cs
  | some quote, c :: cs => openQuote (if c = quote then none else some quote) cs

theorem splitRemark_free_append {quote : Option Char} {cs : List Char} (free : isRemarkFree quote cs = true)
    (more : List Char) :
    splitRemark quote (cs ++ more) =
      (cs ++ (splitRemark (openQuote quote cs) more).1, (splitRemark (openQuote quote cs) more).2) := by
  fun_induction isRemarkFree quote cs with
  | case1 => simp [openQuote]
  | case2 c cs ih =>
    simp only [Bool.and_eq_true, bne_iff_ne] at free
    simp [splitRemark, openQuote, free.1, ih free.2]
  | case3 quote c cs ih => simp [splitRemark, openQuote, ih free]

theorem isRemarkFree_blank {blanks : List Char} (blank : ∀ c ∈ blanks, isBlank c = true) :
    isRemarkFree none blanks = true ∧ openQuote none blanks = none := by
  induction blanks with
  | nil => exact ⟨rfl, rfl⟩
  | cons c blanks ih =>
    have other (d : Char) (shown : isBlank d = false) : c ≠ d := by
      rintro rfl
      simp [blank c] at shown
    have mark := other '#' (by decide)
    have double := other '"' (by decide)
    have single := other '\x27' (by decide)
    simpa [isRemarkFree, openQuote, mark, double, single] using ih fun c member => blank c (by simp [member])

theorem splitRemark_blank_append {blanks : List Char} (blank : ∀ c ∈ blanks, isBlank c = true) (more : List Char) :
    splitRemark none (blanks ++ more) = (blanks ++ (splitRemark none more).1, (splitRemark none more).2) := by
  obtain ⟨free, shut⟩ := isRemarkFree_blank blank
  rw [splitRemark_free_append free, shut]

/-- What stands behind a line up to the comment is empty or the comment. -/
theorem stops_splitRemark (quote : Option Char) (line : List Char) : Stops (· != '#') (splitRemark quote line).2 := by
  fun_induction splitRemark quote line with
  | case1 => exact stops_nil
  | case2 cs => simp
  | case3 c cs other raw remark split ih => simpa [split] using ih
  | case4 quote c cs raw remark split ih => simpa [split] using ih

theorem splitRemark_remark {line : List Char} (quiet : IsRemark line) :
    ∀ c ∈ (splitRemark none line).1, isBlank c = true := by
  obtain ⟨blanks, remark, rfl, blank, mark⟩ := quiet.exists_parts
  have empty : (splitRemark none remark).1 = [] := by
    cases remark with
    | nil => rfl
    | cons c more =>
      obtain rfl : c = '#' := by simpa using mark
      rfl
  rw [splitRemark_blank_append blank, empty, List.append_nil]
  exact blank

end Token

namespace Definition

def ofLine (gap line : List Char) : Definition :=
  let raw := (Token.splitRemark none line).1
  let lead := raw.takeWhile isBlank
  let body := trim raw
  ⟨gap, lead, body, line.drop (lead.length + body.length)⟩

variable {d : Definition} {gap line : List Char}

theorem line_ofLine (gap line : List Char) :
    (ofLine gap line).lead ++ (ofLine gap line).body ++ (ofLine gap line).tail = line := by
  have whole := Token.append_drop_of_initial (Token.lead_append_trim_initial line)
  rwa [List.length_append] at whole

theorem text_ofLine (gap line : List Char) : (ofLine gap line).text = gap ++ '=' :: line := by
  rw [text, line_ofLine]
  rfl

theorem wellFormed_ofLine (blank : ∀ c ∈ gap, isInlineBlank c = true) (inside : ∀ c ∈ line, Token.inLine c = true) :
    (ofLine gap line).WellFormed := by
  refine ⟨blank, ?_, ?_, ?_⟩ <;> rw [line_ofLine]
  · exact inside
  · rfl
  · rfl

theorem WellFormed.lead_blank (wellFormed : d.WellFormed) : ∀ c ∈ d.lead, isBlank c = true := by
  rw [wellFormed.lead]
  exact fun _ => List.mem_takeWhile_imp

/-- Behind the expression there are blanks and the comment of the line. -/
theorem WellFormed.exists_tail (wellFormed : d.WellFormed) :
    ∃ run, (∀ c ∈ run, isBlank c = true) ∧ d.tail = run ++ (Token.splitRemark none (d.lead ++ d.body ++ d.tail)).2 := by
  let line := d.lead ++ d.body ++ d.tail
  obtain ⟨run, parts, blank⟩ := exists_run_dropEndWhile isBlank (trimStart (Token.splitRemark none line).1)
  rw [← trimEnd, ← trim, ← wellFormed.body] at parts
  have whole : d.lead ++ d.body ++ d.tail = d.lead ++ d.body ++ (run ++ (Token.splitRemark none line).2) := by
    calc line = (Token.splitRemark none line).1 ++ (Token.splitRemark none line).2 :=
          (Token.splitRemark_append none line).symm
      _ = d.lead ++ trimStart (Token.splitRemark none line).1 ++ (Token.splitRemark none line).2 := by
          rw [wellFormed.lead, trimStart, List.takeWhile_append_dropWhile]
      _ = d.lead ++ d.body ++ (run ++ (Token.splitRemark none line).2) := by rw [parts]; simp
  exact ⟨run, blank, List.append_cancel_left whole⟩

theorem WellFormed.isRemark_tail (wellFormed : d.WellFormed) : IsRemark d.tail := by
  obtain ⟨run, blank, tail⟩ := wellFormed.exists_tail
  rw [tail]
  exact isRemark_append blank (Token.stops_splitRemark none _)

end Definition

theorem Keyword.ofWord?_of_isBlank {word : List Char} {c : Char} (inside : c ∈ word) (blank : isBlank c = true) :
    ofWord? word = none := by
  cases known : ofWord? word with
  | none => rfl
  | some keyword =>
    have shown : ∀ d ∈ keyword.word.toList, (!isBlank d) = true := by
      rcases keyword with _ | _ | _ | (_ | _) | _ <;> exact List.all_eq_true.1 (by decide)
    rw [← Token.word_of_ofWord? known] at inside
    simpa [blank] using shown c inside

/-- Of the blanks, only the ASCII ones end a word. -/
theorem Token.isWordEnd_of_isBlank {c : Char} (blank : isBlank c = true) (outside : isAsciiBlank c = false) :
    isWordEnd c = false := by
  have other (d : Char) (shown : isBlank d = false) : c ≠ d := by
    rintro rfl
    simp [blank] at shown
  simp [isWordEnd, outside, other '[' (by decide), other '#' (by decide), other '!' (by decide)]

namespace Item

variable {blanks line rest : List Char}

/-- Blanks before a text that does not carry on a word are read as words of other blanks, parted by the ASCII ones. -/
theorem exists_words (blank : ∀ c ∈ blanks, isBlank c = true) (apart : Stops (!Token.isWordEnd ·) rest) :
    ∃ items gap, blanks = texts items ++ gap ∧ (∀ c ∈ gap, isAsciiBlank c = true) ∧
      (∀ item ∈ items, item.token.isIdle = true) ∧ Leads items (gap ++ rest) := by
  induction length : blanks.length using Nat.strong_induction_on generalizing blanks with
  | _ n ih =>
    cases behind : blanks.dropWhile isAsciiBlank with
    | nil => exact ⟨[], blanks, rfl, List.dropWhile_eq_nil_iff.1 behind, by simp, trivial⟩
    | cons c more =>
      have parts : blanks = blanks.takeWhile isAsciiBlank ++ c :: more := by
        rw [← behind, List.takeWhile_append_dropWhile]
      have outside : isAsciiBlank c = false := by
        have stops := stops_dropWhile isAsciiBlank blanks
        rwa [behind, stops_cons] at stops
      have first : isBlank c = true := blank c (parts ▸ by simp)
      have inWord := Token.isWordEnd_of_isBlank first outside
      let word := (c :: more).takeWhile (!Token.isWordEnd ·)
      let back := (c :: more).dropWhile (!Token.isWordEnd ·)
      have whole : word ++ back = c :: more := List.takeWhile_append_dropWhile
      have taken : c ∈ word := by simp [word, inWord]
      have shorter : back.length < n := by
        have := congrArg List.length whole
        have := List.length_pos_of_mem taken
        rw [← length, parts]
        simp only [List.length_append] at *
        omega
      obtain ⟨items, gap, same, ascii, idle, leads⟩ :=
        ih back.length shorter (fun d member => blank d (by rw [parts, ← whole]; simp [member])) rfl
      have bare : Token.IsBare word := by
        refine ⟨List.ne_nil_of_mem taken, fun d member => ?_, ?_⟩
        · simpa using List.mem_takeWhile_imp member
        · have other : c ≠ '\x27' := by
            rintro rfl
            simp [isBlank] at first
          simp [word, inWord, other]
      refine ⟨⟨blanks.takeWhile isAsciiBlank, .word word⟩ :: items, gap, ?_, ascii, by simpa [Token.isIdle] using idle,
        fun _ => List.mem_takeWhile_imp, .inr ⟨bare, Keyword.ofWord?_of_isBlank taken first⟩, ⟨?_, trivial⟩, leads⟩
      · rw [texts_cons, List.append_assoc, List.append_assoc, ← same, Token.text, whole, ← parts]
      · rw [← List.append_assoc, ← same]
        exact (Token.stops_bare bare).2 ((stops_dropWhile _ _).append apart)

/-- The rest of a line that says nothing more. -/
theorem exists_idle (quiet : IsRemark line) (inside : ∀ c ∈ line, Token.inLine c = true) (ends : Stops Token.inLine rest) :
    ∃ items gap, line = texts items ++ gap ∧ (∀ c ∈ gap, isAsciiBlank c = true) ∧
      (∀ item ∈ items, item.token.isIdle = true) ∧ Leads items (gap ++ rest) := by
  obtain ⟨blanks, remark, rfl, blank, mark⟩ := quiet.exists_parts
  cases remark with
  | nil =>
    have apart : Stops (!Token.isWordEnd ·) rest := by
      intro c first
      obtain rfl : c = '\n' := by simpa [Token.inLine] using ends c first
      decide
    rw [List.append_nil]
    exact exists_words blank apart
  | cons c body =>
    obtain rfl : c = '#' := by simpa using mark
    have apart : Stops (!Token.isWordEnd ·) ('#' :: (body ++ rest)) := by simp [Token.isWordEnd]
    obtain ⟨items, gap, rfl, ascii, idle, leads⟩ := exists_words blank apart
    refine ⟨items ++ [⟨gap, .comment body⟩], [], by simp [Token.text], by simp, ?_, leads_append.2 ⟨?_, ?_⟩⟩
    · exact List.forall_mem_append.2 ⟨idle, List.forall_mem_singleton.2 rfl⟩
    · simpa [Token.text] using leads
    · exact ⟨ascii, fun d member => inside d (by simp [member]), ⟨by simpa [Token.takes] using ends, trivial⟩, trivial⟩

end Item

theorem DraftOutline.foldl_idle {items : List Item} (idle : ∀ item ∈ items, item.token.isIdle = true)
    (draft : DraftOutline) : (items.map (·.token)).foldl step draft = draft := by
  induction items with
  | nil => rfl
  | cons item items ih =>
    have same : draft.step item.token = draft := by
      have first := idle item (by simp)
      cases token : item.token <;> simp [token, Token.isIdle] at first <;> rfl
    rw [List.map_cons, List.foldl_cons, same, ih fun item member => idle item (by simp [member])]

/-- A text behind items that say nothing and blanks. -/
theorem Token.foldl_idle {items : List Item} {gap rest : List Char} (idle : ∀ item ∈ items, item.token.isIdle = true)
    (blank : ∀ c ∈ gap, isAsciiBlank c = true) (leads : Item.Leads items (gap ++ rest)) (draft : DraftOutline) :
    (ofChars (Item.texts items ++ (gap ++ rest))).foldl DraftOutline.step draft =
      (ofChars rest).foldl DraftOutline.step draft := by
  rw [ofChars, Item.read_leads leads, List.map_append, List.foldl_append, DraftOutline.foldl_idle idle, ← ofChars,
    ofChars_run_append blank]

end Gridbook
