import Gridbook.Proofs.OpenEnds

/-!
Carriage returns at the end of a line. A comment and a definition take one in and say the same with it, any other token
ends before it, and whether a line ends a block does not depend on it.
-/
namespace Gridbook

open Text

theorem Text.isBlank_return : ∀ c ∈ ['\r'], isBlank c = true := List.forall_mem_singleton.2 (by decide)

theorem Text.inLine_append_return {line : List Char} (inside : ∀ c ∈ line, Token.inLine c = true) :
    ∀ c ∈ line ++ ['\r'], Token.inLine c = true :=
  List.forall_mem_append.2 ⟨inside, List.forall_mem_singleton.2 (by decide)⟩

/-- A text is one line, or a line and what stands behind its end. -/
theorem Text.line_cases (cs : List Char) :
    (∀ c ∈ cs, Token.inLine c = true) ∨
      ∃ line more, (∀ c ∈ line, Token.inLine c = true) ∧ cs = line ++ '\n' :: more := by
  have parts := List.takeWhile_append_dropWhile (p := Token.inLine) (l := cs)
  have inside : ∀ c ∈ cs.takeWhile Token.inLine, Token.inLine c = true := fun _ => List.mem_takeWhile_imp
  have ends := stops_dropWhile Token.inLine cs
  cases behind : cs.dropWhile Token.inLine with
  | nil =>
    rw [behind, List.append_nil] at parts
    exact .inl (parts ▸ inside)
  | cons c more =>
    obtain rfl : c = '\n' := by simpa [behind, Token.inLine] using ends
    exact .inr ⟨_, more, inside, by rw [← behind, parts]⟩

theorem Token.splitRemark_concat {c : Char} (plain : c ≠ '#') (quote : Option Char) (line : List Char) :
    splitRemark quote (line ++ [c]) =
      if (splitRemark quote line).2 = [] then (line ++ [c], [])
      else ((splitRemark quote line).1, (splitRemark quote line).2 ++ [c]) := by
  induction line generalizing quote with
  | nil => cases quote <;> simp [splitRemark, plain]
  | cons d line ih =>
    have step (next : Option Char) :
        (d :: (splitRemark next (line ++ [c])).1, (splitRemark next (line ++ [c])).2) =
          if (splitRemark next line).2 = [] then (d :: (line ++ [c]), [])
          else (d :: (splitRemark next line).1, (splitRemark next line).2 ++ [c]) := by
      rw [ih]
      by_cases empty : (splitRemark next line).2 = [] <;> simp [empty]
    cases quote with
    | none =>
      by_cases mark : d = '#'
      · simp [splitRemark, mark]
      · simpa only [List.cons_append, splitRemark, mark, if_false] using step _
    | some quote => exact step _

theorem Token.splitRemark_of_nil {quote : Option Char} {line : List Char} (none : (splitRemark quote line).2 = []) :
    (splitRemark quote line).1 = line := by
  have parts := splitRemark_append quote line
  rwa [none, List.append_nil] at parts

theorem Token.trim_splitRemark_return (line : List Char) :
    trim (splitRemark none (line ++ ['\r'])).1 = trim (splitRemark none line).1 := by
  rw [splitRemark_concat (by decide)]
  split
  · next remark => rw [trim_append_run isBlank_return, splitRemark_of_nil remark]
  · rfl

namespace Definition

/-- The definition with a carriage return at the end of its line. Where nothing else stands on the line it leads to
the expression, which is empty. -/
def withReturn (d : Definition) : Definition :=
  if d.body = [] ∧ d.tail = [] then { d with lead := d.lead ++ ['\r'] } else { d with tail := d.tail ++ ['\r'] }

variable {d : Definition}

theorem text_withReturn (d : Definition) : d.withReturn.text = d.text ++ ['\r'] := by
  unfold withReturn
  split
  · next empty => simp [text, empty]
  · simp [text]

theorem body_withReturn (d : Definition) : d.withReturn.body = d.body := by
  unfold withReturn
  split <;> rfl

theorem gap_withReturn (d : Definition) : d.withReturn.gap = d.gap := by
  unfold withReturn
  split <;> rfl

theorem line_withReturn (d : Definition) :
    d.withReturn.lead ++ d.withReturn.body ++ d.withReturn.tail = d.lead ++ d.body ++ d.tail ++ ['\r'] := by
  unfold withReturn
  split
  · next empty => simp [empty]
  · simp

/-- Where neither an expression nor anything behind it stands on the line, there is no comment either. -/
theorem WellFormed.remark_eq_nil (wellFormed : d.WellFormed) (empty : d.body = [] ∧ d.tail = []) :
    (Token.splitRemark none (d.lead ++ d.body ++ d.tail)).2 = [] := by
  have parts := congrArg List.length (Token.splitRemark_append none (d.lead ++ d.body ++ d.tail))
  have lead := congrArg List.length wellFormed.lead
  have within := (List.takeWhile_prefix isBlank (l := (Token.splitRemark none (d.lead ++ d.body ++ d.tail)).1)).length_le
  have line : (d.lead ++ d.body ++ d.tail).length = d.lead.length := by simp [empty]
  rw [List.length_append, line] at parts
  exact List.length_eq_zero_iff.1 (by omega)

theorem WellFormed.lead_withReturn (wellFormed : d.WellFormed) :
    d.withReturn.lead = (Token.splitRemark none (d.lead ++ d.body ++ d.tail ++ ['\r'])).1.takeWhile isBlank := by
  have lead := wellFormed.lead
  rw [Token.splitRemark_concat (by decide), withReturn]
  by_cases remark : (Token.splitRemark none (d.lead ++ d.body ++ d.tail)).2 = []
  · rw [Token.splitRemark_of_nil remark] at lead
    rw [if_pos remark]
    split
    · next empty =>
      have line : d.lead ++ d.body ++ d.tail = d.lead := by simp [empty]
      rw [line] at lead ⊢
      rw [List.takeWhile_append_of_pos (List.takeWhile_eq_self_iff.1 lead.symm),
        List.takeWhile_eq_self_iff.2 isBlank_return]
    · next content =>
      rw [List.takeWhile_append, if_neg]
      · exact lead
      · rw [← lead]
        intro same
        exact content (by simpa using same)
  · have content : ¬(d.body = [] ∧ d.tail = []) := fun empty => remark (wellFormed.remark_eq_nil empty)
    rw [if_neg remark, if_neg content]
    exact lead

theorem WellFormed.withReturn (wellFormed : d.WellFormed) : d.withReturn.WellFormed := by
  refine ⟨?_, ?_, ?_, ?_⟩
  · rw [gap_withReturn]
    exact wellFormed.gap
  · rw [line_withReturn]
    exact inLine_append_return wellFormed.line
  · rw [line_withReturn]
    exact wellFormed.lead_withReturn
  · rw [line_withReturn, body_withReturn, Token.trim_splitRemark_return]
    exact wellFormed.body

end Definition

namespace Token

/-- The token with a carriage return at the end of its line, where the rest of the line is part of it. -/
def withReturn : Token → Token
  | comment body => comment (body ++ ['\r'])
  | field name (some d) => field name (some d.withReturn)
  | token => token

variable {token : Token} {rest more : List Char}

theorem text_withReturn (fills : token.fillsLine = true) : token.withReturn.text = token.text ++ ['\r'] := by
  cases token with
  | comment body => rfl
  | field name definition =>
    cases definition with
    | none => simp [fillsLine] at fills
    | some d => simp [withReturn, text, d.text_withReturn]
  | _ => simp [fillsLine] at fills

theorem WellFormed.withReturn (wellFormed : token.WellFormed) : token.withReturn.WellFormed := by
  cases token with
  | comment body => exact inLine_append_return wellFormed
  | field name definition =>
    cases definition with
    | none => exact wellFormed
    | some d => exact ⟨wellFormed.1, by simpa using (wellFormed.2 d rfl).withReturn⟩
  | _ => exact wellFormed

/-- A token that takes in the rest of its line ends before the line end and nowhere else. -/
theorem endsBefore_iff (fills : token.fillsLine = true) : token.EndsBefore rest ↔ Stops inLine rest := by
  cases token with
  | comment body => simp [EndsBefore, takes]
  | field name definition =>
    cases definition with
    | none => simp [fillsLine] at fills
    | some d => simp [EndsBefore, takes]
  | _ => simp [fillsLine] at fills

theorem stops_newline : Stops inLine ('\n' :: more) := by simp [inLine]

theorem endsBefore_withReturn (fills : token.fillsLine = true) : token.withReturn.EndsBefore ('\n' :: more) := by
  refine (endsBefore_iff ?_).2 stops_newline
  cases token with
  | field name definition => cases definition <;> exact fills
  | _ => exact fills

theorem endsBefore_block_iff {kind : BlockKind} {body line : List Char} (inside : ∀ c ∈ line, inLine c = true)
    (ends : Stops inLine rest) :
    (block kind body).EndsBefore (line ++ rest) ↔ (∀ c ∈ line, isAsciiBlank c = true) ∧ StopsBlock rest := by
  have apart : Stops (block kind body).takes (line ++ rest) := by simp [takes, Stops]
  simp only [EndsBefore, takeWhile_run inside ends, dropWhile_run inside ends, apart, true_and]

/-- Blanks before the end of a line do not change what the line does to a block. -/
theorem startsSection_append_blank {blanks : List Char} (blank : ∀ c ∈ blanks.takeWhile inLine, isBlank c = true) :
    StartsSection (more ++ blanks) ↔ StartsSection more := by
  unfold StartsSection
  rcases takeWhile_append_cases inLine more blanks with ⟨inside, same⟩ | same
  · rw [same, endsBlock_append_blank blank, List.takeWhile_eq_self_iff.2 inside]
  · rw [same]

end Token
end Gridbook
