import Gridbook.Sheet.Token

/-!
A sheet text as items: tokens, each with the blanks before it. A token and what is left behind it are the text
they were read from (`Token.text_read`), so reading items ends and loses nothing.
-/
namespace Gridbook

namespace Token

theorem readQuoted_append {cs name rest : List Char} (h : readQuoted cs = some (name, rest)) :
    name ++ rest = cs := by
  fun_induction readQuoted cs generalizing name rest with
  | case1 => simp at h
  | case2 => simp at h; simp [← h.1, ← h.2]
  | case3 d ih =>
    obtain ⟨⟨n, r⟩, found, same⟩ := Option.map_eq_some_iff.1 h
    simp only [Prod.mk.injEq] at same
    simp [← same.1, ← same.2, ih found]
  | case4 => simp at h; simp [← h.1, ← h.2]
  | case5 => simp at h
  | case6 c cs hc hn ih =>
    obtain ⟨⟨n, r⟩, found, same⟩ := Option.map_eq_some_iff.1 h
    simp only [Prod.mk.injEq] at same
    simp [← same.1, ← same.2, ih found]

theorem readArgs_append {depth : Nat} {quoted : Bool} {cs args rest : List Char}
    (h : readArgs depth quoted cs = some (args, rest)) : args ++ ')' :: rest = cs := by
  induction cs generalizing depth quoted args with
  | nil => simp [readArgs] at h
  | cons c cs ih =>
    have step {d : Nat} {q : Bool}
        (h : (readArgs d q cs).map (fun found => (c :: found.1, found.2)) = some (args, rest)) :
        args ++ ')' :: rest = c :: cs := by
      obtain ⟨⟨a, r⟩, found, same⟩ := Option.map_eq_some_iff.1 h
      simp only [Prod.mk.injEq] at same
      obtain ⟨rfl, rfl⟩ := same
      rw [List.cons_append, ih found]
    unfold readArgs at h
    split at h
    · exact step h
    · split at h
      · exact step h
      · split at h
        · exact step h
        · split at h
          · next hc =>
            split at h
            · simp only [Option.some.injEq, Prod.mk.injEq] at h
              simp [← h.1, ← h.2, hc]
            · exact step h
          · exact step h

theorem splitRemark_append (quote : Option Char) (line : List Char) :
    (splitRemark quote line).1 ++ (splitRemark quote line).2 = line := by
  fun_induction splitRemark quote line <;> simp_all

/-- An initial part taken off and put back. -/
theorem append_drop_of_initial {a cs : List Char} (h : a <+: cs) : a ++ cs.drop a.length = cs := by
  obtain ⟨b, rfl⟩ := h
  simp

/-- The blanks before the expression and the expression start the line behind the equals sign. -/
theorem lead_append_trim_initial (line : List Char) :
    (splitRemark none line).1.takeWhile Text.isBlank ++ Text.trim (splitRemark none line).1 <+: line := by
  obtain ⟨t, ht⟩ := Text.dropEndWhile_initial Text.isBlank (Text.trimStart (splitRemark none line).1)
  refine ⟨t ++ (splitRemark none line).2, ?_⟩
  conv => rhs; rw [← splitRemark_append none line]
  rw [← List.append_assoc, List.append_assoc (List.takeWhile _ _)]
  unfold Text.trim Text.trimEnd
  rw [ht, Text.trimStart, List.takeWhile_append_dropWhile]

theorem readDefinition_append {cs rest : List Char} {d : Definition}
    (h : readDefinition cs = some (d, rest)) : d.text ++ rest = cs := by
  unfold readDefinition at h
  split at h
  · next after behind =>
    simp only [Option.some.injEq, Prod.mk.injEq] at h
    obtain ⟨rfl, rfl⟩ := h
    have whole := append_drop_of_initial (lead_append_trim_initial (after.takeWhile inLine))
    rw [List.length_append] at whole
    simp only [Definition.text]
    rw [whole, List.append_assoc, List.cons_append, List.takeWhile_append_dropWhile, ← behind,
      List.takeWhile_append_dropWhile]
  · simp at h

theorem blockLines_append (cs : List Char) : (blockLines cs).1 ++ (blockLines cs).2 = cs := by
  fun_induction blockLines cs with
  | case1 => rfl
  | case2 => rfl
  | case3 c cs _ lines rest same ih =>
    rw [same] at ih
    simp only [List.cons_append, List.append_assoc]
    rw [ih, List.takeWhile_append_dropWhile]

theorem text_readBlock (kind : BlockKind) (cs : List Char) :
    (readBlock kind cs).1.text ++ (readBlock kind cs).2 = kind.word.toList ++ cs := by
  unfold readBlock
  simp only [text, List.append_assoc]
  rw [← List.append_assoc (Text.dropEndWhile _ _), append_drop_of_initial (Text.dropEndWhile_initial _ _),
    List.append_assoc, blockLines_append, List.takeWhile_append_dropWhile]

theorem text_readTable (cs : List Char) :
    (readTable cs).1.text ++ (readTable cs).2 = Keyword.table.word.toList ++ cs := by
  have gap := List.takeWhile_append_dropWhile (p := Text.isInlineBlank) (l := cs)
  unfold readTable
  split
  · next none =>
    rw [none, List.append_nil] at gap
    simp [text, gap]
  · next c rest some =>
    rw [some] at gap
    split
    · split
      · next name after found =>
        simp only [text, List.append_assoc, List.cons_append]
        rw [readQuoted_append found, gap]
      · simp [text]
    · simp only [text, List.append_assoc]
      rw [List.takeWhile_append_dropWhile, gap]

theorem word_of_ofWord? {word : List Char} {k : Keyword} (h : Keyword.ofWord? word = some k) :
    k.word.toList = word := by
  simpa using List.find?_some h

theorem text_readWord (word cs : List Char) :
    (readWord word cs).1.text ++ (readWord word cs).2 = word ++ cs := by
  unfold readWord
  split <;> (try rename_i h; rw [← word_of_ofWord? h])
  · exact text_readTable cs
  · rfl
  · rfl
  · exact text_readBlock _ cs
  · rfl
  · rfl

theorem text_readField (cs : List Char) : (readField cs).1.text ++ (readField cs).2 = '[' :: cs := by
  have name := List.takeWhile_append_dropWhile (p := fun c => c != ']' && c != '\n') (l := cs)
  unfold readField
  split
  · next rest found =>
    rw [found] at name
    split
    · next d after read =>
      simp only [text, List.cons_append, List.append_assoc]
      rw [readDefinition_append read, name]
    · simp [text, name]
  · simp [text]

theorem text_readDecorator (cs : List Char) :
    (readDecorator cs).1.text ++ (readDecorator cs).2 = '!' :: cs := by
  have name := List.takeWhile_append_dropWhile (p := isDecoratorNameChar) (l := cs)
  unfold readDecorator
  simp only
  split
  · simp [text]
  · split
    · next rest found =>
      rw [found] at name
      split
      · next args after read =>
        simp [text, readArgs_append read, name]
      · simp [text]
    · simp [text, name]

/-- A token's characters and those left behind it are the characters it was read from. -/
theorem text_read (c : Char) (cs : List Char) : (read c cs).1.text ++ (read c cs).2 = c :: cs := by
  unfold read
  split
  · next h => simp [text, h]
  · split
    · next h => rw [text_readDecorator, h]
    · split
      · next h => rw [text_readField, h]
      · split
        · split
          · next found => simp [text, readQuoted_append found]
          · simp [text]
        · rw [text_readWord, List.cons_append, List.takeWhile_append_dropWhile]

theorem readTable_ne_nil (cs : List Char) : (readTable cs).1.text ≠ [] := by
  have keyword : Keyword.table.word.toList ≠ [] := by decide
  unfold readTable
  simp only
  repeat' split
  all_goals simp [text, keyword]

theorem readWord_ne_nil {word : List Char} (h : word ≠ []) (cs : List Char) :
    (readWord word cs).1.text ≠ [] := by
  unfold readWord
  split
  · exact readTable_ne_nil cs
  · show Keyword.key.word.toList ≠ []
    decide
  · show Keyword.dim.word.toList ≠ []
    decide
  · next kind hk =>
    have keyword : kind.word.toList ≠ [] := word_of_ofWord? hk ▸ h
    simp [readBlock, text, keyword]
  · show Keyword.total.word.toList ≠ []
    decide
  · exact h

theorem read_ne_nil (c : Char) (cs : List Char) : (read c cs).1.text ≠ [] := by
  unfold read
  split
  · simp [text]
  · split
    · unfold readDecorator
      simp only
      repeat' split
      all_goals simp [text]
    · split
      · unfold readField
        repeat' split
        all_goals simp [text]
      · split
        · split <;> simp [text]
        · exact readWord_ne_nil (by simp) _

/-- Reading a token takes at least one character. -/
theorem length_read_le (c : Char) (cs : List Char) : (read c cs).2.length ≤ cs.length := by
  have whole := congrArg List.length (text_read c cs)
  have taken := List.length_pos_iff.2 (read_ne_nil c cs)
  simp only [List.length_append, List.length_cons] at whole
  omega

end Token

/-- A token and the ASCII blanks before it. -/
structure Item where
  gap : List Char
  token : Token
  deriving DecidableEq

namespace Item

/-- The items of a text. Blanks at its end belong to none. -/
def read (cs : List Char) : List Item :=
  match _rest : cs.dropWhile Text.isAsciiBlank with
  | [] => []
  | c :: rest => ⟨cs.takeWhile Text.isAsciiBlank, (Token.read c rest).1⟩ :: read (Token.read c rest).2
termination_by cs.length
decreasing_by
  have suffix := (List.dropWhile_suffix (l := cs) Text.isAsciiBlank).length_le
  have shorter := Token.length_read_le c rest
  rw [_rest, List.length_cons] at suffix
  omega

end Item
end Gridbook
