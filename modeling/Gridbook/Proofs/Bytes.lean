import Gridbook.Proofs.Declarations
import Mathlib.Data.List.Infix
import Mathlib.Data.PFun

/-!
A text as its bytes, every access to it checked. A byte that is asked for has to be there, and a range that is cut out
has to lie between characters. The delimiters of a sheet are one byte each, and no byte of any other character looks like
one; so a walk over bytes ends where the walk over characters does, and there a character starts.
-/
namespace Gridbook

/-- Why an access to a text cannot be made. -/
inductive Fault where
  /-- There is no byte at the offset. -/
  | index
  /-- The range is out of order, or an end of it is not between characters of the text. -/
  | range
  /-- More is taken from a number than it is. -/
  | underflow

/-- A computation with checked accesses: it gives a result or stops at a fault. One that does not end has no value. -/
abbrev Checked (α : Type) := ExceptT Fault Part α

namespace Checked

variable {α σ : Type}

theorem pure_inj {a b : α} (same : (pure a : Checked α) = pure b) : a = b :=
  Except.ok.inj (Part.some_injective same)

def minus (a b : Nat) : Checked Nat :=
  if b ≤ a then pure (a - b) else throw .underflow

theorem minus_eq {a b : Nat} (least : b ≤ a) : minus a b = pure (a - b) := if_pos least

/-- What comes after a turn of a loop: its result, which can be a fault, or the next state. -/
def verdict : Except Fault (α ⊕ σ) → Except Fault α ⊕ σ
  | .error fault => .inl (.error fault)
  | .ok (.inl a) => .inl (.ok a)
  | .ok (.inr s) => .inr s

/-- A loop: turns are taken until one gives a result. -/
def iterate (body : σ → Checked (α ⊕ σ)) : σ → Checked α :=
  PFun.fix fun s => (body s).run.map verdict

theorem iterate_eq (body : σ → Checked (α ⊕ σ)) (s : σ) :
    iterate body s = body s >>= Sum.elim pure (iterate body) := by
  have turn {found : Except Fault (α ⊕ σ)} (ends : (body s).run = Part.some found) :
      verdict found ∈ (body s).run.map verdict := by
    rw [ends]
    exact Part.mem_map _ (Part.mem_some found)
  rcases Part.eq_none_or_eq_some (body s).run with endless | ⟨found, ends⟩
  · have never : iterate body s = Part.none := by
      refine Part.eq_none_iff.2 fun result member => ?_
      have ends : ((body s).run.map verdict).Dom := PFun.dom_of_mem_fix member
      rw [endless] at ends
      exact ends
    have same : body s = Part.none := endless
    rw [never, same]
    exact (Part.bind_none _).symm
  · cases found with
    | error fault =>
      have same : body s = Part.some (.error fault) := ends
      rw [same]
      exact (Part.eq_some_iff.2 (PFun.fix_stop (turn ends))).trans (Part.bind_some _ _).symm
    | ok outcome =>
      have same : body s = pure outcome := ends
      rw [same, pure_bind]
      cases outcome with
      | inl a => exact Part.eq_some_iff.2 (PFun.fix_stop (turn ends))
      | inr t => exact PFun.fix_fwd_eq (turn ends)

end Checked

namespace Text

/-- The bytes of the UTF-8 form, each as the character of its code. -/
def bytes (cs : List Char) : List Char :=
  cs.flatMap fun c => (String.utf8EncodeChar c).map fun byte => Char.ofNat byte.toNat

instance (cs : List Char) (offset : Nat) : Decidable (IsBoundary cs offset) :=
  decidable_of_iff (∃ before ∈ cs.inits, width before = offset) <| by
    constructor
    · rintro ⟨before, initial, stands⟩
      obtain ⟨after, parts⟩ := (List.mem_inits _ _).1 initial
      exact ⟨before, after, parts.symm, stands⟩
    · rintro ⟨before, after, parts, stands⟩
      exact ⟨before, (List.mem_inits _ _).2 ⟨after, parts.symm⟩, stands⟩

def byteAt (text : List Char) (offset : Nat) : Checked Char :=
  match (bytes text)[offset]? with
  | some byte => pure byte
  | none => throw .index

def bytesFrom (text : List Char) (offset : Nat) : Checked (List Char) :=
  if offset ≤ (bytes text).length then pure ((bytes text).drop offset) else throw .range

def sliceAt (text : List Char) (start stop : Nat) : Checked (List Char) :=
  if IsBoundary text start ∧ IsBoundary text stop ∧ start ≤ stop then pure ((⟨start, stop⟩ : Span).slice text)
  else throw .range

/-- Inside a character no range ends. -/
example : sliceAt ['é', '#'] 0 1 = throw .range ∧ sliceAt ['é', '#'] 0 2 = pure ['é'] := ⟨rfl, rfl⟩

section

variable {a b cs before part after text : List Char} {c d : Char}

@[simp] theorem bytes_nil : bytes [] = [] := rfl

@[simp] theorem bytes_append (a b : List Char) : bytes (a ++ b) = bytes a ++ bytes b := List.flatMap_append

theorem bytes_cons (c : Char) (cs : List Char) : bytes (c :: cs) = bytes [c] ++ bytes cs := bytes_append [c] cs

@[simp] theorem length_bytes (cs : List Char) : (bytes cs).length = width cs := by
  induction cs with
  | nil => rfl
  | cons c cs ih =>
    rw [bytes_cons, List.length_append, ih, width_cons]
    simp [bytes, String.length_utf8EncodeChar]

theorem ne_of_wide (wide : 128 ≤ c.toNat) (ascii : d.toNat < 128) : c ≠ d := by
  rintro rfl
  omega

theorem utf8Size_ascii (ascii : c.toNat < 128) : c.utf8Size = 1 :=
  Char.utf8Size_eq_one_iff.2 (UInt32.le_iff_toNat_le.2 (Nat.le_of_lt_succ ascii))

theorem bytes_ascii (ascii : c.toNat < 128) : bytes [c] = [c] := by
  have one : String.utf8EncodeChar c = [UInt8.ofNat c.toNat] := if_pos (Nat.le_of_lt_succ ascii)
  have code : (UInt8.ofNat c.toNat).toNat = c.toNat := UInt8.toNat_ofNat_of_lt' (ascii.trans (by decide))
  simp [bytes, one, code]

theorem bytes_cons_ascii (ascii : c.toNat < 128) (cs : List Char) : bytes (c :: cs) = c :: bytes cs := by
  rw [bytes_cons, bytes_ascii ascii, List.singleton_append]

/-- A character behind the first 128 has no byte among them. -/
theorem wide_of_mem_bytes (wide : 128 ≤ c.toNat) (member : d ∈ bytes [c]) : 128 ≤ d.toNat := by
  have all : ∀ byte ∈ String.utf8EncodeChar c, 128 ≤ byte.toNat := by
    have large : ¬c.val.toNat ≤ 127 := Nat.not_le.2 wide
    simp only [String.utf8EncodeChar, if_neg large]
    repeat' split
    all_goals
      simp only [List.forall_mem_cons, List.not_mem_nil, false_imp_iff, implies_true, and_true, UInt8.toNat_ofNat']
      omega
  obtain ⟨byte, inside, rfl⟩ : ∃ byte ∈ String.utf8EncodeChar c, Char.ofNat byte.toNat = d := by
    simpa [bytes] using member
  have valid : byte.toNat.isValidChar := .inl (byte.toNat_lt.trans (by decide))
  rw [Char.ofNat, dif_pos valid]
  exact all byte inside

theorem eq_or_wide_of_mem_bytes (member : d ∈ bytes [c]) : d = c ∨ 128 ≤ d.toNat ∧ 128 ≤ c.toNat := by
  by_cases ascii : c.toNat < 128
  · rw [bytes_ascii ascii, List.mem_singleton] at member
    exact .inl member
  · exact .inr ⟨wide_of_mem_bytes (Nat.not_lt.1 ascii) member, Nat.not_lt.1 ascii⟩

theorem bytes_singleton_ne_nil (c : Char) : bytes [c] ≠ [] := by
  rw [← List.length_pos_iff, length_bytes]
  simpa using c.utf8Size_pos

/-- A byte is one of the first 128 characters only if it is the byte of that character. -/
theorem eq_iff_of_mem_bytes {byte : Char} (member : byte ∈ bytes [c]) (ascii : d.toNat < 128 := by decide) :
    byte = d ↔ c = d := by
  rcases eq_or_wide_of_mem_bytes member with rfl | ⟨wide, wide'⟩
  · rfl
  · simp [ne_of_wide wide ascii, ne_of_wide wide' ascii]

end

/-- A character is in the class as each of its bytes is. -/
def IsByteClass (p : Char → Bool) : Prop := ∀ ⦃c byte : Char⦄, byte ∈ bytes [c] → p byte = p c

namespace IsByteClass

variable {p q : Char → Bool}

theorem eq (d : Char) (ascii : d.toNat < 128 := by decide) : IsByteClass (· == d) := by
  intro c byte member
  rw [Bool.eq_iff_iff, beq_iff_eq, beq_iff_eq]
  exact eq_iff_of_mem_bytes member ascii

theorem not (first : IsByteClass p) : IsByteClass (!p ·) := fun _ _ member => congrArg _ (first member)

theorem or (first : IsByteClass p) (second : IsByteClass q) : IsByteClass fun c => p c || q c :=
  fun _ _ member => congrArg₂ _ (first member) (second member)

theorem and (first : IsByteClass p) (second : IsByteClass q) : IsByteClass fun c => p c && q c :=
  fun _ _ member => congrArg₂ _ (first member) (second member)

theorem isInlineBlank : IsByteClass isInlineBlank := (eq ' ').or (eq '\t')

theorem isAsciiBlank : IsByteClass isAsciiBlank :=
  ((((eq ' ').or (eq '\t')).or (eq '\n')).or (eq '\x0c')).or (eq '\r')

theorem inLine : IsByteClass Token.inLine := (eq '\n').not

theorem isWordEnd : IsByteClass Token.isWordEnd :=
  ((isAsciiBlank.or (eq '[')).or (eq '#')).or (eq '!')

theorem isAlphanum : IsByteClass Char.isAlphanum := by
  have wide {c : Char} (wide : 128 ≤ c.toNat) : c.isAlphanum = false := by
    have above {n : UInt32} (small : n.toNat < 128) : ¬c.val ≤ n :=
      fun below => absurd (wide.trans (UInt32.le_iff_toNat_le.1 below)) (Nat.not_le.2 small)
    change (decide (65 ≤ c.val ∧ c.val ≤ 90) || (decide (97 ≤ c.val) && decide (c.val ≤ 122)) ||
      (decide (48 ≤ c.val) && decide (c.val ≤ 57))) = false
    simp [above]
  intro c byte member
  rcases eq_or_wide_of_mem_bytes member with rfl | ⟨large, large'⟩
  · rfl
  · rw [wide large, wide large']

theorem isDecoratorNameChar : IsByteClass Token.isDecoratorNameChar :=
  (isAlphanum.or (eq '_')).or (eq '.')

theorem takeWhile_bytes (parted : IsByteClass p) (cs : List Char) : (bytes cs).takeWhile p = bytes (cs.takeWhile p) := by
  induction cs with
  | nil => rfl
  | cons c cs ih =>
    rw [bytes_cons]
    by_cases inside : p c = true
    · have run : ∀ byte ∈ bytes [c], p byte = true := fun byte member => (parted member).trans inside
      rw [List.takeWhile_append_of_pos run, ih, List.takeWhile_cons_of_pos inside, ← bytes_cons]
    · obtain ⟨byte, more, first⟩ := List.exists_cons_of_ne_nil (bytes_singleton_ne_nil c)
      have outside : ¬p byte = true := by
        rwa [parted (c := c) (by simp [first])]
      rw [first, List.cons_append, List.takeWhile_cons_of_neg outside, List.takeWhile_cons_of_neg inside, bytes_nil]

theorem dropEndWhile_bytes (parted : IsByteClass p) (cs : List Char) :
    dropEndWhile p (bytes cs) = bytes (dropEndWhile p cs) := by
  induction cs using List.reverseRecOn with
  | nil => rfl
  | append_singleton cs c ih =>
    by_cases inside : p c = true
    · have run : ∀ byte ∈ bytes [c], p byte = true := fun byte member => (parted member).trans inside
      rw [bytes_append, dropEndWhile_append_run run, ih, dropEndWhile_append_run (by simpa using inside)]
    · have stops : Stops p (bytes (cs ++ [c])).reverse := by
        rw [bytes_append, List.reverse_append, stops_append (by simpa using bytes_singleton_ne_nil c)]
        intro byte last
        rw [parted (List.mem_reverse.1 (List.mem_of_mem_head? last))]
        simpa using inside
      rw [dropEndWhile_of_stops stops, dropEndWhile_of_stops (by simpa using inside)]

end IsByteClass

/-! ### Walks -/

def skipWhile (text : List Char) (p : Char → Bool) : Nat → Checked Nat :=
  Checked.iterate fun pos => do
    if pos < (bytes text).length then
      if p (← byteAt text pos) then return .inr (pos + 1) else return .inl pos
    else return .inl pos

/-- Goes back over bytes of a class, not past `low`. -/
def skipBack (text : List Char) (p : Char → Bool) (low : Nat) : Nat → Checked Nat :=
  Checked.iterate fun pos => do
    if low < pos then
      let last ← Checked.minus pos 1
      if p (← byteAt text last) then return .inr last else return .inl pos
    else return .inl pos

def lineEnd (text : List Char) (start : Nat) : Checked Nat := do
  let rest ← bytesFrom text start
  return ((rest.findIdx? (· == '\n')).map (start + ·)).getD (bytes text).length

def Ahead (text : List Char) (pos : Nat) (rest : List Char) : Prop :=
  ∃ before, text = before ++ rest ∧ width before = pos

theorem isBoundary_iff {text : List Char} {pos : Nat} : IsBoundary text pos ↔ ∃ rest, Ahead text pos rest :=
  exists_comm

/-- What follows a byte among the bytes of a text. -/
theorem walk_step {text rest : List Char} {pos : Nat} {byte : Char} (there : (bytes text).drop pos = byte :: rest) :
    pos < (bytes text).length ∧ byteAt text pos = pure byte ∧ (bytes text).drop (pos + 1) = rest := by
  have inside : (bytes text)[pos]? = some byte := by
    rw [← List.head?_drop, there, List.head?_cons]
  refine ⟨(List.getElem?_eq_some_iff.1 inside).1, by simp [byteAt, inside], ?_⟩
  rw [← List.drop_drop, there, List.drop_one, List.tail_cons]

theorem walk_end {text : List Char} {pos : Nat} (there : (bytes text).drop pos = []) : ¬pos < (bytes text).length :=
  Nat.not_lt.2 (List.drop_eq_nil_iff.1 there)

namespace Ahead

variable {text rest part after : List Char} {pos : Nat} {c d : Char} {p : Char → Bool}

theorem start (text : List Char) : Ahead text 0 text := ⟨[], rfl, rfl⟩

theorem append (ahead : Ahead text pos (part ++ after)) : Ahead text (pos + width part) after := by
  obtain ⟨before, parts, stands⟩ := ahead
  exact ⟨before ++ part, by simpa using parts, by simp [stands]⟩

theorem cons (ahead : Ahead text pos (c :: rest)) (ascii : c.toNat < 128 := by decide) : Ahead text (pos + 1) rest := by
  have behind : Ahead text (pos + width [c]) rest := append ahead
  rwa [width_cons, utf8Size_ascii ascii] at behind

theorem width_eq (ahead : Ahead text pos rest) : pos + width rest = width text := by
  obtain ⟨before, rfl, rfl⟩ := ahead
  rw [width_append]

theorem drop_bytes (ahead : Ahead text pos rest) : (bytes text).drop pos = bytes rest := by
  obtain ⟨before, rfl, rfl⟩ := ahead
  rw [bytes_append, ← length_bytes, List.drop_left]

theorem isBoundary (ahead : Ahead text pos rest) : IsBoundary text pos := isBoundary_iff.2 ⟨rest, ahead⟩

theorem sliceAt (ahead : Ahead text pos (part ++ after)) : sliceAt text pos (pos + width part) = pure part := by
  rw [Text.sliceAt, if_pos ⟨ahead.isBoundary, ahead.append.isBoundary, Nat.le_add_right ..⟩]
  obtain ⟨before, rfl, rfl⟩ := ahead
  exact congrArg pure (Span.slice_over before part after)

theorem dropWhile (ahead : Ahead text pos rest) (p : Char → Bool) :
    Ahead text (pos + width (rest.takeWhile p)) (rest.dropWhile p) := by
  apply append
  rwa [List.takeWhile_append_dropWhile]

theorem sliceAt_takeWhile (ahead : Ahead text pos rest) (p : Char → Bool) :
    Text.sliceAt text pos (pos + width (rest.takeWhile p)) = pure (rest.takeWhile p) := by
  have parts : Ahead text pos (rest.takeWhile p ++ rest.dropWhile p) := by rwa [List.takeWhile_append_dropWhile]
  exact parts.sliceAt

/-- A character that is there shows one of its bytes. -/
theorem exists_byteAt (ahead : Ahead text pos (c :: rest)) :
    pos < (bytes text).length ∧ ∃ byte ∈ bytes [c], byteAt text pos = pure byte := by
  obtain ⟨byte, more, first⟩ := List.exists_cons_of_ne_nil (bytes_singleton_ne_nil c)
  have there : (bytes text).drop pos = byte :: (more ++ bytes rest) := by
    rw [ahead.drop_bytes, bytes_cons, first, List.cons_append]
  obtain ⟨inside, found, -⟩ := walk_step there
  exact ⟨inside, byte, by simp [first], found⟩

/-- One of the first 128 characters is seen at an offset iff it is there. -/
theorem getElem?_bytes (ahead : Ahead text pos rest) (ascii : d.toNat < 128 := by decide) :
    (bytes text)[pos]? = some d ↔ ∃ more, rest = d :: more := by
  rw [← List.head?_drop, ahead.drop_bytes]
  cases rest with
  | nil => simp
  | cons c rest =>
    obtain ⟨byte, more, first⟩ := List.exists_cons_of_ne_nil (bytes_singleton_ne_nil c)
    rw [bytes_cons, first, List.cons_append, List.head?_cons, Option.some.injEq,
      eq_iff_of_mem_bytes (c := c) (by simp [first]) ascii]
    simp

theorem skipWhile (ahead : Ahead text pos rest) (parted : IsByteClass p) :
    skipWhile text p pos = pure (pos + width (rest.takeWhile p)) := by
  have walk : ∀ (left : List Char) (pos : Nat), (bytes text).drop pos = left →
      Text.skipWhile text p pos = pure (pos + (left.takeWhile p).length) := by
    intro left
    induction left with
    | nil =>
      intro pos there
      rw [Text.skipWhile, Checked.iterate_eq, if_neg (walk_end there), pure_bind]
      rfl
    | cons byte left ih =>
      intro pos there
      obtain ⟨inside, found, behind⟩ := walk_step there
      rw [Text.skipWhile, Checked.iterate_eq, if_pos inside, found, pure_bind]
      by_cases more : p byte = true
      · have next := ih (pos + 1) behind
        rw [Nat.add_assoc, Nat.add_comm 1, ← List.length_cons, ← List.takeWhile_cons_of_pos more] at next
        rwa [if_pos more, pure_bind]
      · rw [if_neg more, pure_bind, List.takeWhile_cons_of_neg more]
        rfl
  rw [walk _ pos ahead.drop_bytes, parted.takeWhile_bytes, length_bytes]

theorem skipBack (ahead : Ahead text pos (part ++ after)) (parted : IsByteClass p) :
    skipBack text p pos (pos + width part) = pure (pos + width (dropEndWhile p part)) := by
  have walk : ∀ left more : List Char, (bytes text).drop pos = left ++ more →
      Text.skipBack text p pos (pos + left.length) = pure (pos + (dropEndWhile p left).length) := by
    intro left
    induction left using List.reverseRecOn with
    | nil =>
      intro more _
      rw [Text.skipBack, Checked.iterate_eq, if_neg (by simp), pure_bind]
      rfl
    | append_singleton left byte ih =>
      intro more there
      have last : (bytes text).drop (pos + left.length) = byte :: more := by
        rw [← List.drop_drop, there, List.append_assoc, List.drop_left, List.singleton_append]
      have one : pos + (left ++ [byte]).length = pos + left.length + 1 := by simp [Nat.add_assoc]
      rw [one, Text.skipBack, Checked.iterate_eq, if_pos (by omega), Checked.minus_eq (by omega), pure_bind,
        Nat.add_sub_cancel, (walk_step last).2.1, pure_bind]
      by_cases inside : p byte = true
      · rw [if_pos inside, pure_bind, dropEndWhile_append_run (by simpa using inside)]
        exact ih (byte :: more) (by simpa using there)
      · rw [if_neg inside, pure_bind, dropEndWhile_of_stops (by simpa using inside), one]
        rfl
  have there := ahead.drop_bytes
  rw [bytes_append] at there
  have whole := walk _ _ there
  rwa [parted.dropEndWhile_bytes, length_bytes, length_bytes] at whole

theorem bytesFrom (ahead : Ahead text pos rest) : bytesFrom text pos = pure (bytes rest) := by
  have whole := ahead.width_eq
  have inside : pos ≤ (bytes text).length := by
    rw [length_bytes]
    omega
  rw [Text.bytesFrom, if_pos inside, ahead.drop_bytes]

theorem lineEnd (ahead : Ahead text pos rest) : lineEnd text pos = pure (pos + width (rest.takeWhile Token.inLine)) := by
  have first : ((bytes rest).findIdx? (· == '\n')).getD (width rest) = width (rest.takeWhile Token.inLine) := by
    have same : (fun c => !Token.inLine c) = (· == '\n') := by
      funext c
      simp [Token.inLine, bne]
    rw [← length_bytes rest, ← List.findIdx_eq_getD_findIdx?, ← length_bytes, ← IsByteClass.inLine.takeWhile_bytes,
      List.takeWhile_eq_take_findIdx_not, same, List.length_take, Nat.min_eq_left List.findIdx_le_length]
  rw [Text.lineEnd, ahead.bytesFrom, pure_bind, ← first, length_bytes, ← ahead.width_eq]
  cases (bytes rest).findIdx? (· == '\n') <;> rfl

end Ahead
end Text
end Gridbook
