import Gridbook.Proofs.Tokens
import Gridbook.Sheet.Draft

/-!
Items and the places their tokens get. Items put one behind the other, and blanks at the end, are the text they were
read from; so every placed token stands in the text at its offset, and tokens come in the order of the text.
-/
namespace Gridbook

open Text

theorem Token.WellFormed.exists_cons {token : Token} (wellFormed : token.WellFormed) :
    ∃ c cs, token.text = c :: cs ∧ isAsciiBlank c = false := by
  cases token with
  | comment body => exact ⟨'#', body, rfl, by decide⟩
  | decorator name args => cases args <;> exact ⟨'!', _, rfl, by decide⟩
  | bang => exact ⟨'!', [], rfl, by decide⟩
  | field name definition => cases definition <;> exact ⟨'[', _, rfl, by decide⟩
  | table gap name => exact ⟨'t', _, rfl, by decide⟩
  | key => exact ⟨'k', _, rfl, by decide⟩
  | dim => exact ⟨'d', _, rfl, by decide⟩
  | block kind body =>
    cases kind with
    | override => exact ⟨'o', _, rfl, by decide⟩
    | apply => exact ⟨'a', _, rfl, by decide⟩
  | total => exact ⟨'t', _, rfl, by decide⟩
  | word text =>
    rcases wellFormed with ⟨body, -, rfl⟩ | ⟨bare, -⟩
    · exact ⟨'\x27', _, rfl, by decide⟩
    · obtain ⟨c, cs, rfl⟩ := List.exists_cons_of_ne_nil bare.nonempty
      have inside := bare.inside c (by simp)
      simp only [Token.isWordEnd, Bool.or_eq_false_iff] at inside
      exact ⟨c, cs, rfl, inside.1.1.1⟩
  | unclosed problem text => exact wellFormed.elim

namespace Text

def At (text : List Char) (offset : Nat) (part : List Char) : Prop :=
  ∃ before after, text = before ++ (part ++ after) ∧ width before = offset

variable {text part a b : List Char} {offset : Nat}

theorem At.append_left (h : At text offset (a ++ b)) : At text offset a := by
  obtain ⟨before, after, same, start⟩ := h
  exact ⟨before, b ++ after, by simpa using same, start⟩

theorem At.append_right (h : At text offset (a ++ b)) : At text (offset + width a) b := by
  obtain ⟨before, after, same, start⟩ := h
  exact ⟨before ++ a, after, by simpa using same, by simp [start]⟩

theorem At.slice (h : At text offset part) : (⟨offset, offset + width part⟩ : Span).slice text = part := by
  obtain ⟨before, after, rfl, rfl⟩ := h
  simp [Span.slice, Span.parts, cut_width_append]

theorem At.start (h : At text offset part) : IsBoundary text offset := by
  obtain ⟨before, after, same, start⟩ := h
  exact ⟨before, part ++ after, same, start⟩

theorem At.stop (h : At text offset part) : IsBoundary text (offset + width part) := by
  obtain ⟨before, after, same, start⟩ := h
  exact ⟨before ++ part, after, by simpa using same, by simp [start]⟩

theorem At.bound (h : At text offset part) : offset + width part ≤ width text := by
  obtain ⟨before, after, rfl, rfl⟩ := h
  simp

end Text

def Placed.stop (placed : Placed) : Nat := placed.start + width placed.token.text

namespace Item

def text (item : Item) : List Char := item.gap ++ item.token.text

def texts (items : List Item) : List Char := items.flatMap text

@[simp] theorem texts_nil : texts [] = [] := rfl

@[simp] theorem texts_cons (item : Item) (items : List Item) :
    texts (item :: items) = item.gap ++ (item.token.text ++ texts items) := by
  simp [texts, text]

theorem read_blank {cs : List Char} (blank : ∀ c ∈ cs, isAsciiBlank c = true) : read cs = [] := by
  rw [read]
  split
  · rfl
  · next c rest found =>
    rw [List.dropWhile_eq_nil_iff.2 blank] at found
    exact absurd found (by simp)

theorem read_nil : read [] = [] := read_blank (by simp)

theorem read_cons {gap cs : List Char} {c : Char} (blank : ∀ c ∈ gap, isAsciiBlank c = true)
    (start : isAsciiBlank c = false) :
    read (gap ++ c :: cs) = ⟨gap, (Token.read c cs).1⟩ :: read (Token.read c cs).2 := by
  have stops : Stops isAsciiBlank (c :: cs) := by simpa using start
  have taken := takeWhile_run blank stops
  have dropped := dropWhile_run blank stops
  rw [read]
  split
  · next none =>
    rw [dropped] at none
    exact absurd none (by simp)
  · next d rest found =>
    rw [dropped] at found
    obtain ⟨rfl, rfl⟩ := List.cons.inj found
    rw [taken]

/-- A well-formed token is read off the front of a text that does not carry it on. -/
theorem read_token {gap rest : List Char} {token : Token} (blank : ∀ c ∈ gap, isAsciiBlank c = true)
    (wellFormed : token.WellFormed) (ends : token.EndsBefore rest) :
    read (gap ++ (token.text ++ rest)) = ⟨gap, token⟩ :: read rest := by
  obtain ⟨c, cs, same, start⟩ := wellFormed.exists_cons
  have taken := Token.read_complete wellFormed ends (by rw [same, List.cons_append])
  rw [same, List.cons_append, read_cons blank start, taken]

/-- Follows the reading of a text: it is blank, or it starts with blanks and a token. -/
theorem read_induction {motive : List Char → Prop}
    (blank : ∀ cs, (∀ c ∈ cs, isAsciiBlank c = true) → motive cs)
    (token : ∀ gap c cs, (∀ d ∈ gap, isAsciiBlank d = true) → isAsciiBlank c = false →
      motive (Token.read c cs).2 → motive (gap ++ c :: cs)) (cs : List Char) : motive cs := by
  induction cs using read.induct with
  | case1 cs none => exact blank cs (List.dropWhile_eq_nil_iff.1 none)
  | case2 cs c rest found ih =>
    rw [← List.takeWhile_append_dropWhile (p := isAsciiBlank) (l := cs), found]
    refine token _ c rest (fun _ => List.mem_takeWhile_imp) ?_ ih
    have stops := stops_dropWhile isAsciiBlank cs
    rwa [found, stops_cons] at stops

/-- The items of a text and blanks at the end make up the text. -/
theorem texts_read (cs : List Char) :
    ∃ blanks, texts (read cs) ++ blanks = cs ∧ ∀ c ∈ blanks, isAsciiBlank c = true := by
  induction cs using read_induction with
  | blank cs blank => exact ⟨cs, by simp [read_blank blank], blank⟩
  | token gap c cs blank start ih =>
    obtain ⟨blanks, same, all⟩ := ih
    refine ⟨blanks, ?_, all⟩
    rw [read_cons blank start, texts_cons, List.append_assoc, List.append_assoc, same, Token.text_read]

theorem wellFormed_of_mem_read {cs : List Char} {item : Item} (member : item ∈ read cs) :
    item.token.isUnclosed = true ∨ item.token.WellFormed := by
  induction cs using read_induction with
  | blank cs blank => simp [read_blank blank] at member
  | token gap c cs blank start ih =>
    rw [read_cons blank start, List.mem_cons] at member
    rcases member with rfl | member
    · exact (Token.read_sound start).imp_right And.left
    · exact ih member

/-- Blanks before a text go to its first item. -/
theorem read_run_append {blanks : List Char} (blank : ∀ c ∈ blanks, isAsciiBlank c = true) (cs : List Char) :
    read (blanks ++ cs) = (read cs).modifyHead fun item => { item with gap := blanks ++ item.gap } := by
  have both {gap : List Char} (between : ∀ c ∈ gap, isAsciiBlank c = true) :
      ∀ c ∈ blanks ++ gap, isAsciiBlank c = true :=
    fun c member => (List.mem_append.1 member).elim (blank c) (between c)
  induction cs using read_induction with
  | blank cs all => rw [read_blank (both all), read_blank all, List.modifyHead_nil]
  | token gap c cs between start =>
    rw [← List.append_assoc, read_cons (both between) start, read_cons between start, List.modifyHead_cons]

theorem place_append (offset : Nat) (front back : List Item) :
    place offset (front ++ back) = place offset front ++ place (offset + width (texts front)) back := by
  induction front generalizing offset with
  | nil => simp [place]
  | cons item front ih => simp [place, ih, Nat.add_assoc]

/-- Every placed token stands in the text. -/
theorem at_of_mem_place {items : List Item} {placed : Placed} (before after : List Char)
    (member : placed ∈ place (width before) items) :
    At (before ++ (texts items ++ after)) placed.start placed.token.text := by
  induction items generalizing before with
  | nil => simp [place] at member
  | cons item items ih =>
    simp only [place, List.mem_cons] at member
    rcases member with rfl | member
    · exact ⟨before ++ item.gap, texts items ++ after, by simp, by simp⟩
    · have behind := ih (before ++ item.gap ++ item.token.text) (by simpa [Nat.add_assoc] using member)
      simpa using behind

theorem exists_mem_of_mem_place {items : List Item} {offset : Nat} {placed : Placed}
    (member : placed ∈ place offset items) : ∃ item ∈ items, item.token = placed.token := by
  induction items generalizing offset with
  | nil => simp [place] at member
  | cons item items ih =>
    simp only [place, List.mem_cons] at member
    rcases member with rfl | member
    · exact ⟨item, by simp, rfl⟩
    · obtain ⟨found, member, same⟩ := ih member
      exact ⟨found, by simp [member], same⟩

/-- Tokens come one behind the other, the first at the offset or later. -/
theorem place_increasing (offset : Nat) (items : List Item) :
    (∀ placed ∈ place offset items, offset ≤ placed.start) ∧
      (place offset items).Pairwise fun a b => a.stop ≤ b.start := by
  induction items generalizing offset with
  | nil => simp [place]
  | cons item items ih =>
    obtain ⟨later, increasing⟩ := ih (offset + width item.gap + width item.token.text)
    refine ⟨?_, List.pairwise_cons.2 ⟨fun placed member => later placed member, increasing⟩⟩
    intro placed member
    simp only [place, List.mem_cons] at member
    rcases member with rfl | member
    · simp
    · have := later placed member
      omega

end Item

def Placed.ofChars (text : List Char) : List Placed := Item.place 0 (Item.read text)

def Draft.ofChars (text : List Char) : Draft := (Placed.ofChars text).foldl Draft.step {}

theorem Sheet.ofChars_eq (text : List Char) : Sheet.ofChars text = (Draft.ofChars text).finish := rfl

namespace Placed

variable {text : List Char} {placed : Placed}

theorem at_of_mem (member : placed ∈ ofChars text) : At text placed.start placed.token.text := by
  obtain ⟨blanks, same, -⟩ := Item.texts_read text
  have stands := Item.at_of_mem_place [] blanks member
  rwa [List.nil_append, same] at stands

theorem wellFormed_of_mem (member : placed ∈ ofChars text) :
    placed.token.isUnclosed = true ∨ placed.token.WellFormed := by
  obtain ⟨item, read, same⟩ := Item.exists_mem_of_mem_place member
  exact same ▸ Item.wellFormed_of_mem_read read

end Placed

/-- What holds at the start and is kept by every token of the text, at an offset behind the last token taken in,
holds of the draft at an offset within the text. -/
theorem Draft.run_induction {text : List Char} {motive : Nat → Draft → Prop} (start : motive 0 {})
    (step : ∀ offset draft placed, placed ∈ Placed.ofChars text → offset ≤ placed.start → motive offset draft →
      motive placed.stop (draft.step placed)) :
    ∃ offset ≤ width text, motive offset (Draft.ofChars text) := by
  have run : ∀ (tokens : List Placed) (offset : Nat) (draft : Draft), tokens ⊆ Placed.ofChars text →
      (∀ placed ∈ tokens, offset ≤ placed.start) → (tokens.Pairwise fun a b => a.stop ≤ b.start) →
      offset ≤ width text → motive offset draft →
      ∃ stop ≤ width text, motive stop (tokens.foldl Draft.step draft) := by
    intro tokens
    induction tokens with
    | nil => exact fun offset draft _ _ _ bound holds => ⟨offset, bound, holds⟩
    | cons placed tokens ih =>
      intro offset draft inside later increasing bound holds
      have member := inside (List.mem_cons_self)
      obtain ⟨apart, increasing⟩ := List.pairwise_cons.1 increasing
      exact ih placed.stop (draft.step placed) (fun _ h => inside (List.mem_cons_of_mem _ h)) apart increasing
        (Placed.at_of_mem member).bound (step offset draft placed member (later placed (by simp)) holds)
  obtain ⟨later, increasing⟩ := Item.place_increasing 0 (Item.read text)
  exact run _ 0 {} (fun _ h => h) later increasing (Nat.zero_le _) start

end Gridbook
