/-!
Byte offsets into a text. A text is handled as its characters; an offset counts the bytes of their UTF-8
form. Cutting at the offset where an initial part ends gives back that part and what follows it.
-/
namespace Gridbook.Text

/-- Bytes of the UTF-8 form. -/
def width : List Char → Nat
  | [] => 0
  | c :: cs => c.utf8Size + width cs

/-- Cuts at a byte offset. An offset inside a character counts as its end. -/
def cut : Nat → List Char → List Char × List Char
  | _, [] => ([], [])
  | 0, c :: cs => ([], c :: cs)
  | n + 1, c :: cs =>
    let (before, after) := cut (n + 1 - c.utf8Size) cs
    (c :: before, after)

/-- The offsets at which a character of the text starts, and the end of the text. -/
def IsBoundary (cs : List Char) (offset : Nat) : Prop :=
  ∃ before after, cs = before ++ after ∧ width before = offset

@[simp] theorem width_nil : width [] = 0 := rfl

@[simp] theorem width_cons (c : Char) (cs : List Char) : width (c :: cs) = c.utf8Size + width cs := rfl

@[simp] theorem width_append (a b : List Char) : width (a ++ b) = width a + width b := by
  induction a with
  | nil => simp
  | cons c a ih => simp [ih, Nat.add_assoc]

theorem width_toList (text : String) : width text.toList = text.utf8ByteSize := by
  induction text using String.push_induction with
  | empty => rfl
  | push text c ih => simp [ih]

@[simp] theorem cut_zero (cs : List Char) : cut 0 cs = ([], cs) := by
  cases cs <;> rfl

theorem cut_width_append (a b : List Char) : cut (width a) (a ++ b) = (a, b) := by
  induction a with
  | nil => simp
  | cons c a ih =>
    obtain ⟨n, h⟩ : ∃ n, width (c :: a) = n + 1 :=
      ⟨c.utf8Size - 1 + width a, by have := c.utf8Size_pos; simp only [width_cons]; omega⟩
    have rest : n + 1 - c.utf8Size = width a := by simp only [width_cons] at h; omega
    rw [h, List.cons_append, cut, rest, ih]

end Gridbook.Text
