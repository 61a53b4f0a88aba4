import Gridbook.Json.Record
import Gridbook.Proofs.Runs

/-!
JSON documents are read back from their text. A document is a list of tokens, which the reader turns into the document
again (`ofTokens?_tokens`). The text that is written spells these tokens, with blanks between them (`Token.Spells`), and
reading takes each token off a text whose rest does not carry it on. Only a number can be carried on, so what may follow
a text that is laid out is said by the first character of the rest (`Lays`).
-/
namespace Gridbook.Json

open Gridbook.Text

theorem hexValue?_hexDigit {n : Nat} (small : n < 16) : hexValue? (hexDigit n) = some n := by
  have all : ∀ n < 16, hexValue? (hexDigit n) = some n := by decide
  exact all n small

/-- A character is written by a letter, by its code, or as it is. -/
theorem escapeChar_cases (c : Char) :
    (∃ e, e ≠ 'u' ∧ shortEscapes.lookup e = some c ∧ escapeChar c = ['\\', e]) ∨
      (c.toNat < 0x20 ∧ escapeChar c = ['\\', 'u', '0', '0', hexDigit (c.toNat / 16), hexDigit (c.toNat % 16)]) ∨
      (c ≠ '"' ∧ c ≠ '\\' ∧ 0x20 ≤ c.toNat ∧ escapeChar c = [c]) := by
  by_cases named : ∃ e, e ≠ 'u' ∧ shortEscapes.lookup e = some c ∧ escapeChar c = ['\\', e]
  · exact .inl named
  · -- A character without a letter is none of those that are tested for before its code is.
    have other (e : Char) (d : Char) (letter : e ≠ 'u') (short : shortEscapes.lookup e = some d)
        (written : escapeChar d = ['\\', e]) : c ≠ d := by
      rintro rfl
      exact named ⟨e, letter, short, written⟩
    have quote : c ≠ '"' := other '"' '"' (by decide) rfl rfl
    have backslash : c ≠ '\\' := other '\\' '\\' (by decide) rfl rfl
    have rest : c ≠ '\x08' ∧ c ≠ '\x0c' ∧ c ≠ '\n' ∧ c ≠ '\r' ∧ c ≠ '\t' :=
      ⟨other 'b' _ (by decide) rfl rfl, other 'f' _ (by decide) rfl rfl, other 'n' _ (by decide) rfl rfl,
        other 'r' _ (by decide) rfl rfl, other 't' _ (by decide) rfl rfl⟩
    right
    by_cases control : c.toNat < 0x20
    · exact .inl ⟨control, by simp [escapeChar, quote, backslash, rest, control]⟩
    · exact .inr ⟨quote, backslash, by omega, by simp [escapeChar, quote, backslash, rest, control]⟩

theorem unescape?_short {e : Char} (letter : e ≠ 'u') (rest : List Char) :
    unescape? ('\\' :: e :: rest) = do return (← shortEscapes.lookup e) :: (← unescape? rest) := by
  simp [unescape?, letter]

theorem unescape?_plain {c : Char} (plain : c ≠ '\\') (rest : List Char) :
    unescape? (c :: rest) = do return c :: (← unescape? rest) := by
  simp [unescape?, plain]

theorem unescape?_escapeChar (c : Char) (rest : List Char) :
    unescape? (escapeChar c ++ rest) = do return c :: (← unescape? rest) := by
  rcases escapeChar_cases c with ⟨e, letter, short, written⟩ | ⟨control, written⟩ | ⟨-, backslash, -, written⟩
  · rw [written, List.cons_append, List.cons_append, List.nil_append, unescape?_short letter, short]
    rfl
  · have unit : unit? '0' '0' (hexDigit (c.toNat / 16)) (hexDigit (c.toNat % 16)) = some c.toNat := by
      have high : hexValue? (hexDigit (c.toNat / 16)) = some (c.toNat / 16) := hexValue?_hexDigit (by omega)
      have low : hexValue? (hexDigit (c.toNat % 16)) = some (c.toNat % 16) := hexValue?_hexDigit (by omega)
      have zero : hexValue? '0' = some 0 := by decide
      simp [unit?, high, low, zero]
      omega
    have whole : isHighSurrogate c.toNat = false ∧ isLowSurrogate c.toNat = false := by
      simp [isHighSurrogate, isLowSurrogate]
      omega
    simp [written, unescape?, unit, whole]
  · rw [written, List.singleton_append, unescape?_plain backslash]

theorem unescape?_escape (text : List Char) : unescape? (escape text) = some text := by
  induction text with
  | nil => rfl
  | cons c text ih =>
    rw [escape, List.flatMap_cons, unescape?_escapeChar, ← escape, ih]
    rfl

@[simp] theorem text?_ofText (text : String) : (ofText text).text? = some text := by
  simp [ofText, text?, unescape?_escape]

namespace Token

theorem scanString_escapeChar (c : Char) (rest : List Char) :
    scanString (escapeChar c ++ rest) = extend (escapeChar c) (scanString rest) := by
  rcases escapeChar_cases c with ⟨e, letter, short, written⟩ | ⟨control, written⟩ | ⟨quote, backslash, visible, written⟩
  · rw [written, List.cons_append, scanString.eq_def]
    simp [letter, short]
  · have high : isHex (hexDigit (c.toNat / 16)) = true := by
      rw [isHex, hexValue?_hexDigit (by omega)]
      rfl
    have low : isHex (hexDigit (c.toNat % 16)) = true := by
      rw [isHex, hexValue?_hexDigit (by omega)]
      rfl
    have zero : isHex '0' = true := by decide
    rw [written, List.cons_append, scanString.eq_def]
    simp [high, low, zero]
  · have control : ¬c.toNat < 0x20 := by omega
    rw [written, List.cons_append, scanString.eq_def]
    simp [quote, backslash, control]

theorem scanString_escape (text rest : List Char) :
    scanString (escape text ++ '"' :: rest) = some (escape text, rest) := by
  induction text with
  | nil =>
    rw [escape, List.flatMap_nil, List.nil_append, scanString.eq_def]
    simp
  | cons c text ih =>
    have split : escape (c :: text) = escapeChar c ++ escape text := List.flatMap_cons
    rw [split, List.append_assoc, scanString_escapeChar, ih]
    rfl

end Token
end Gridbook.Json

namespace Gridbook.Text.Scanner

variable {p : Char → Bool} {a b : Scanner}

/-- What the scanner takes off a text does not depend on a rest that starts outside the class. -/
def Local (p : Char → Bool) (scan : Scanner) : Prop :=
  ∀ cs rest, Stops p rest → scan (cs ++ rest) = (scan cs).map fun found => (found.1, found.2 ++ rest)

theorem local_one {q : Char → Bool} (covers : ∀ c, q c = true → p c = true) : Local p (one q) := by
  intro cs rest stops
  cases cs with
  | nil =>
    cases rest with
    | nil => rfl
    | cons c rest =>
      have outside : q c = false := by
        by_contra inside
        simp [covers c (by simpa using inside)] at stops
      simp [one, outside]
  | cons c cs => by_cases inside : q c = true <;> simp [one, inside]

theorem local_many {q : Char → Bool} (covers : ∀ c, q c = true → p c = true) : Local p (many q) := by
  intro cs rest stops
  have outside : Stops q rest := by
    intro c first
    by_contra inside
    simpa [covers c (by simpa using inside)] using stops c first
  obtain ⟨taken, left⟩ := takeWhile_append_stops (a := cs) outside
  simp [many, taken, left]

theorem local_seq (first : Local p a) (second : Local p b) : Local p (seq a b) := by
  intro cs rest stops
  unfold seq
  rw [first cs rest stops]
  cases a cs with
  | none => rfl
  | some found =>
    simp only [Option.map_some]
    rw [second _ rest stops]
    cases b found.2 <;> rfl

theorem local_orElse (first : Local p a) (second : Local p b) : Local p (orElse a b) := by
  intro cs rest stops
  unfold orElse
  rw [first cs rest stops]
  cases a cs with
  | none => exact second cs rest stops
  | some found => rfl

theorem local_optional (scan : Local p a) : Local p (optional a) :=
  local_orElse scan fun _ _ _ => rfl

theorem local_many1 {q : Char → Bool} (covers : ∀ c, q c = true → p c = true) : Local p (many1 q) :=
  local_seq (local_one covers) (local_many covers)

end Gridbook.Text.Scanner

namespace Gridbook.Json.Token

open Gridbook.Text

def isNumberChar (c : Char) : Bool := c.isDigit || isSign c || c == '.' || c == 'e' || c == 'E'

/-- What holds of the scanners for single characters and runs of a number, and of what is built from such, holds of the
scanner for numbers. -/
theorem scanNumber_induction {motive : Scanner → Prop}
    (one : ∀ q, (∀ c, q c = true → isNumberChar c = true) → motive (.one q))
    (many1 : ∀ q, (∀ c, q c = true → isNumberChar c = true) → motive (.many1 q))
    (seq : ∀ {a b}, motive a → motive b → motive (.seq a b))
    (orElse : ∀ {a b}, motive a → motive b → motive (.orElse a b))
    (optional : ∀ {a}, motive a → motive (.optional a)) : motive scanNumber := by
  have digits := many1 Char.isDigit fun c inside => by simp [isNumberChar, inside]
  refine seq (optional (one _ ?_)) <| seq (orElse (one _ ?_) digits) <| seq (optional (seq (one _ ?_) digits)) <|
    optional (seq (one _ ?_) (seq (optional (one _ ?_)) digits))
  all_goals
    intro c inside
    simp only [isSign, beq_iff_eq, Bool.or_eq_true] at inside
  · simp [isNumberChar, isSign, inside]
  · simp [inside]; decide
  · simp [isNumberChar, inside]
  · rcases inside with rfl | rfl <;> decide
  · rcases inside with rfl | rfl <;> decide

theorem local_scanNumber : Scanner.Local isNumberChar scanNumber :=
  scanNumber_induction (fun _ => Scanner.local_one) (fun _ => Scanner.local_many1) Scanner.local_seq
    Scanner.local_orElse Scanner.local_optional

/-- A number starts with a minus sign or a digit. -/
theorem starts_of_scanNumber {c : Char} {cs : List Char} {found : List Char × List Char}
    (scanned : scanNumber (c :: cs) = some found) : c = '-' ∨ c.isDigit = true := by
  by_contra other
  obtain ⟨minus, digit⟩ := not_or.1 other
  have zero : c ≠ '0' := by
    rintro rfl
    exact digit (by decide)
  simp [scanNumber, Scanner.seq, Scanner.optional, Scanner.orElse, Scanner.one, Scanner.many1, minus, digit, zero]
    at scanned

/-- Such a character starts no other token. -/
theorem number_start {c : Char} (starts : c = '-' ∨ c.isDigit = true) (cs : List Char) :
    isSpace c = false ∧ marks.lookup c = none ∧ c ≠ '"' ∧
      (words.find? fun entry => entry.1.isPrefixOf (c :: cs)) = none := by
  have apart (d : Char) (other : d ≠ '-' ∧ d.isDigit = false) : (c == d) = false ∧ (d == c) = false := by
    have : c ≠ d := by
      rintro rfl
      simp [other] at starts
    exact ⟨beq_false_of_ne this, beq_false_of_ne this.symm⟩
  refine ⟨?_, ?_, ?_, ?_⟩
  · simp [isSpace, apart]
  · simp [marks, List.lookup_nil, List.lookup_cons, apart]
  · simpa using (apart '"' (by decide)).1
  · simp [words, List.isPrefixOf, apart]

def chars : Token → List Char
  | openArray => ['[']
  | closeArray => [']']
  | openObject => ['{']
  | closeObject => ['}']
  | comma => [',']
  | colon => [':']
  | null => "null".toList
  | bool value => constant value
  | number literal => literal
  | string literal => quoted literal

/-- The token is one that is written: a number in the format's form, or a text with its escapes. -/
def Legal : Token → Prop
  | number literal => literal ≠ [] ∧ scanNumber literal = some (literal, [])
  | string literal => ∃ text, literal = escape text
  | _ => True

/-- The rest does not carry on the token. -/
def Ends (rest : List Char) : Token → Prop
  | number _ => Stops isNumberChar rest
  | _ => True

theorem read_chars {token : Token} {rest : List Char} (legal : token.Legal) (ends : token.Ends rest) :
    ∃ c cs, token.chars = c :: cs ∧ isSpace c = false ∧ read c (cs ++ rest) = some (token, rest) := by
  cases token with
  | openArray | closeArray | openObject | closeObject | comma | colon => exact ⟨_, _, rfl, by decide, rfl⟩
  | null => exact ⟨_, _, rfl, by decide, rfl⟩
  | bool value => cases value <;> exact ⟨_, _, rfl, by decide, rfl⟩
  | string literal =>
    obtain ⟨text, rfl⟩ := legal
    refine ⟨_, _, rfl, by decide, ?_⟩
    have unmarked : marks.lookup '"' = none := by decide
    simp [read, unmarked, scanString_escape]
  | number literal =>
    -- The rest ends the number where the literal ends, and no rule that is tried before the number's takes its start.
    obtain ⟨nonempty, whole⟩ := legal
    obtain ⟨c, cs, rfl⟩ := List.exists_cons_of_ne_nil nonempty
    have found : scanNumber (c :: (cs ++ rest)) = some (c :: cs, rest) := by
      rw [← List.cons_append, local_scanNumber _ _ ends, whole]
      rfl
    obtain ⟨space, marked, quote, word⟩ := number_start (starts_of_scanNumber found) (cs ++ rest)
    refine ⟨c, cs, rfl, space, ?_⟩
    simp only [read, marked, quote, word, if_false, found]

inductive Spells : List Token → List Char → Prop
  | nil : Spells [] []
  | blank {c tokens text} (space : isSpace c = true) (spelled : Spells tokens text) : Spells tokens (c :: text)
  | token {token tokens text} (legal : token.Legal) (ends : token.Ends text) (spelled : Spells tokens text) :
    Spells (token :: tokens) (token.chars ++ text)

theorem readAll_cons {c : Char} {cs after : List Char} {token : Token} (visible : isSpace c = false)
    (found : read c cs = some (token, after)) : readAll (c :: cs) = (readAll after).map (token :: ·) := by
  rw [readAll]
  split
  · next empty => simp [visible] at empty
  · next first rest start =>
    rw [List.dropWhile_cons_of_neg (by simp [visible])] at start
    obtain ⟨rfl, rfl⟩ := List.cons.inj start
    split
    · next refused => simp [found] at refused
    · next token' after' taken =>
      rw [found] at taken
      cases taken
      rfl

theorem Spells.readAll {tokens : List Token} {text : List Char} (spelled : Spells tokens text) :
    readAll text = some tokens := by
  induction spelled with
  | nil =>
    rw [Token.readAll]
    rfl
  | @blank c tokens text space spelled ih =>
    rw [Token.readAll, List.dropWhile_cons_of_pos space, ← Token.readAll, ih]
  | @token token tokens text legal ends spelled ih =>
    obtain ⟨c, cs, chars, visible, found⟩ := read_chars legal ends
    rw [chars, List.cons_append, readAll_cons visible found, ih, Option.map_some]

end Gridbook.Json.Token

namespace Gridbook.Json

open Gridbook.Text

/-- Induction over a document: what holds of the items of an array or the values of an object holds of it. -/
@[elab_as_elim]
theorem nested_induction {motive : Json → Prop} (null : motive .null) (bool : ∀ value, motive (.bool value))
    (number : ∀ literal, motive (.number literal)) (string : ∀ literal, motive (.string literal))
    (array : ∀ items, (∀ item ∈ items, motive item) → motive (.array items))
    (object : ∀ members, (∀ member ∈ members, motive member.2) → motive (.object members)) :
    ∀ json, motive json
  | .null => null
  | .bool value => bool value
  | .number literal => number literal
  | .string literal => string literal
  | .array items => array items fun item _ => nested_induction null bool number string array object item
  | .object members =>
    object members fun member _ => nested_induction null bool number string array object member.2
termination_by json => sizeOf json
decreasing_by
  · have := List.sizeOf_lt_of_mem ‹_ ∈ _›
    simp only [Json.array.sizeOf_spec]
    omega
  · have := List.sizeOf_lt_of_mem ‹_ ∈ _›
    have : sizeOf member.2 < sizeOf member := by
      obtain ⟨key, value⟩ := member
      simp only [Prod.mk.sizeOf_spec]
      omega
    simp only [Json.object.sizeOf_spec]
    omega

mutual

def tokens : Json → List Token
  | .null => [.null]
  | .bool value => [.bool value]
  | .number literal => [.number literal]
  | .string literal => [.string literal]
  | .array items => .openArray :: (itemTokens items ++ [.closeArray])
  | .object members => .openObject :: (memberTokens members ++ [.closeObject])

def itemTokens : List Json → List Token
  | [] => []
  | [item] => tokens item
  | item :: items => tokens item ++ .comma :: itemTokens items

def memberTokens : List (List Char × Json) → List Token
  | [] => []
  | [(key, value)] => .string key :: .colon :: tokens value
  | (key, value) :: members => .string key :: .colon :: (tokens value ++ .comma :: memberTokens members)

end

namespace Reading

/-- From its tokens the document is read where a value is due, whatever is open around it. -/
def Reads (json : Json) : Prop :=
  ∀ stack, json.tokens.foldlM step (.valueDue stack) = some (.done json stack)

/-- No document starts with the end of an array. -/
theorem foldlM_firstItem (item : Json) (items : List Json) (rest : List Token) (stack : List Frame) :
    (itemTokens (item :: items) ++ rest).foldlM step (.firstItemDue stack) =
      (itemTokens (item :: items) ++ rest).foldlM step (.valueDue (.array [] :: stack)) := by
  cases items <;> cases item <;> simp [itemTokens, tokens, step]

theorem foldlM_firstKey (member : List Char × Json) (members : List (List Char × Json)) (rest : List Token)
    (stack : List Frame) :
    (memberTokens (member :: members) ++ rest).foldlM step (.firstKeyDue stack) =
      (memberTokens (member :: members) ++ rest).foldlM step (.keyDue [] stack) := by
  cases members <;> simp [memberTokens, step]

/-- The items of an array behind those that have been read. -/
theorem foldlM_itemTokens {item : Json} {items : List Json} (reads : ∀ i ∈ item :: items, Reads i)
    (before : List Json) (stack : List Frame) :
    (itemTokens (item :: items) ++ [Token.closeArray]).foldlM step (.valueDue (.array before :: stack)) =
      some (.done (.array (before ++ item :: items)) stack) := by
  induction items generalizing item before with
  | nil =>
    have first := reads item (by simp)
    simp [itemTokens, first (.array before :: stack), step]
  | cons next items ih =>
    -- The comma moves the item to those before.
    have first := reads item (by simp) (.array before :: stack)
    have others : ∀ i ∈ next :: items, Reads i := fun i inside => reads i (List.mem_cons_of_mem _ inside)
    have further := ih others (before ++ [item])
    rw [itemTokens, List.append_assoc, List.foldlM_append, first]
    · simpa [step] using further
    · simp

/-- The members of an object behind those that have been read. -/
theorem foldlM_memberTokens {member : List Char × Json} {members : List (List Char × Json)}
    (reads : ∀ m ∈ member :: members, Reads m.2) (before : List (List Char × Json)) (stack : List Frame) :
    (memberTokens (member :: members) ++ [Token.closeObject]).foldlM step (.keyDue before stack) =
      some (.done (.object (before ++ member :: members)) stack) := by
  induction members generalizing member before with
  | nil =>
    have first := reads member (by simp)
    simp [memberTokens, first (.object before member.1 :: stack), step, startKey]
  | cons next members ih =>
    have first := reads member (by simp) (.object before member.1 :: stack)
    have others : ∀ m ∈ next :: members, Reads m.2 := fun m inside => reads m (List.mem_cons_of_mem _ inside)
    have further := ih others (before ++ [member])
    rw [memberTokens]
    · simpa [step, startKey, first] using further
    · simp

theorem reads (json : Json) : Reads json := by
  induction json using nested_induction with
  | null | bool | number | string => intro stack; simp [tokens, step, startValue]
  | array items ih =>
    intro stack
    cases items with
    | nil => simp [tokens, itemTokens, step, startValue]
    | cons item items =>
      simp only [tokens, List.foldlM_cons, step, startValue]
      exact (foldlM_firstItem ..).trans (foldlM_itemTokens ih [] stack)
  | object members ih =>
    intro stack
    cases members with
    | nil => simp [tokens, memberTokens, step, startValue]
    | cons member members =>
      simp only [tokens, List.foldlM_cons, step, startValue]
      exact (foldlM_firstKey ..).trans (foldlM_memberTokens ih [] stack)

end Reading

theorem ofTokens?_tokens (json : Json) : ofTokens? json.tokens = some json := by
  rw [ofTokens?, Reading.reads json []]
  rfl

/-- Documents that are written: numbers in the format's form, texts with their escapes. -/
inductive Legal : Json → Prop
  | null : Legal .null
  | bool (value : Bool) : Legal (.bool value)
  | number {literal : List Char} (legal : (Token.number literal).Legal) : Legal (.number literal)
  | string (text : List Char) : Legal (.string (escape text))
  | array {items : List Json} (legal : ∀ item ∈ items, Legal item) : Legal (.array items)
  | object {members : List (List Char × Json)} (keys : ∀ member ∈ members, ∃ text, member.1 = escape text)
    (legal : ∀ member ∈ members, Legal member.2) : Legal (.object members)

/-- The text spells the tokens before every rest that does not carry on a number. -/
def Lays (tokens : List Token) (text : List Char) : Prop :=
  ∀ ts rest, Stops Token.isNumberChar rest → Token.Spells ts rest → Token.Spells (tokens ++ ts) (text ++ rest)

namespace Lays

variable {ts ts' : List Token} {text text' : List Char}

theorem nil : Lays [] [] := fun _ _ _ spelled => spelled

theorem token (token : Token) (legal : token.Legal) : Lays [token] token.chars := by
  intro ts rest stops spelled
  refine .token legal ?_ spelled
  cases token <;> simp [Token.Ends, stops]

theorem append (first : Lays ts text) (second : Lays ts' text') (stops : Stops Token.isNumberChar text') :
    Lays (ts ++ ts') (text ++ text') := by
  intro more rest ends spelled
  rw [List.append_assoc, List.append_assoc]
  exact first _ _ (stops.append ends) (second _ _ ends spelled)

/-- A token that is no number ends before every text. -/
theorem cons (token : Token) (legal : token.Legal) (ends : ∀ rest, token.Ends rest) (further : Lays ts text) :
    Lays (token :: ts) (token.chars ++ text) := by
  intro more rest stops spelled
  rw [List.append_assoc]
  exact .token legal (ends _) (further _ _ stops spelled)

theorem blank {c : Char} (space : Token.isSpace c = true) (further : Lays ts text) : Lays ts (c :: text) :=
  fun _ _ stops spelled => .blank space (further _ _ stops spelled)

theorem newLine (level : Nat) (further : Lays ts text) : Lays ts (Json.newLine level ++ text) := by
  have spaces (n : Nat) : Lays ts (List.replicate n ' ' ++ text) := by
    induction n with
    | zero => exact further
    | succ n ih => exact ih.blank rfl
  exact (spaces _).blank rfl

end Lays

theorem lays_layoutItems {items : List Json} {level : Nat}
    (each : ∀ item ∈ items, Lays item.tokens (layoutChars level item)) :
    Lays (itemTokens items) (layoutItems level items) := by
  induction items with
  | nil =>
    rw [itemTokens, layoutItems]
    exact .nil
  | cons item items ih =>
    have first := (each item (by simp)).newLine level
    cases items with
    | nil => simpa [itemTokens, layoutItems] using first
    | cons next items =>
      have further := ih fun i inside => each i (List.mem_cons_of_mem _ inside)
      have behind := further.cons .comma trivial fun _ => trivial
      simpa [itemTokens, layoutItems, Token.chars] using first.append behind (by simp [Token.chars]; decide)

theorem lays_layoutMembers {members : List (List Char × Json)} {level : Nat}
    (keys : ∀ member ∈ members, ∃ text, member.1 = escape text)
    (each : ∀ member ∈ members, Lays member.2.tokens (layoutChars level member.2)) :
    Lays (memberTokens members) (layoutMembers level members) := by
  induction members with
  | nil =>
    rw [memberTokens, layoutMembers]
    exact .nil
  | cons member members ih =>
    obtain ⟨key, value⟩ := member
    obtain ⟨text, rfl⟩ : ∃ text, key = escape text := keys _ (List.mem_cons_self ..)
    have colon := ((each (_, value) (List.mem_cons_self ..)).blank (c := ' ') rfl).cons .colon trivial fun _ => trivial
    have first := (colon.cons (.string (escape text)) ⟨text, rfl⟩ fun _ => trivial).newLine level
    cases members with
    | nil => simpa [memberTokens, layoutMembers, Token.chars] using first
    | cons next members =>
      have further := ih (fun m inside => keys m (List.mem_cons_of_mem _ inside)) fun m inside =>
        each m (List.mem_cons_of_mem _ inside)
      have behind := further.cons .comma trivial fun _ => trivial
      simpa [memberTokens, layoutMembers, Token.chars] using first.append behind (by simp [Token.chars]; decide)

theorem lays_layoutChars {json : Json} (legal : Legal json) (level : Nat) :
    Lays json.tokens (layoutChars level json) := by
  induction legal generalizing level with
  | null =>
    rw [tokens, layoutChars]
    exact .token .null trivial
  | bool value =>
    rw [tokens, layoutChars]
    exact .token (.bool value) trivial
  | @number literal legal =>
    rw [tokens, layoutChars]
    exact .token (.number literal) legal
  | string text =>
    rw [tokens, layoutChars]
    exact .token (.string (escape text)) ⟨text, rfl⟩
  | @array items legal ih =>
    have close := Lays.token .closeArray trivial
    cases items with
    | nil =>
      rw [tokens, itemTokens, layoutChars]
      exact close.cons .openArray trivial fun _ => trivial
    | cons item items =>
      have inner := lays_layoutItems fun item inside => ih item inside (level + 1)
      have closed := inner.append (close.newLine level) (by simp [newLine]; decide)
      simpa [tokens, layoutChars, Token.chars] using closed.cons .openArray trivial fun _ => trivial
  | @object members keys legal ih =>
    have close := Lays.token .closeObject trivial
    cases members with
    | nil =>
      rw [tokens, memberTokens, layoutChars]
      exact close.cons .openObject trivial fun _ => trivial
    | cons member members =>
      have inner := lays_layoutMembers keys fun member inside => ih member inside (level + 1)
      have closed := inner.append (close.newLine level) (by simp [newLine]; decide)
      simpa [tokens, layoutChars, Token.chars] using closed.cons .openObject trivial fun _ => trivial

/-- A document is read back from the text that it is laid out as. -/
theorem read_layout {json : Json} (legal : Legal json) : read json.layout = some json := by
  have spelled := lays_layoutChars legal 0 [] [] stops_nil .nil
  rw [List.append_nil, List.append_nil] at spelled
  rw [read, layout, String.toList_ofList, spelled.readAll]
  exact ofTokens?_tokens json

/-- A list that is written item by item is read back if each item is. -/
theorem mapM_map {α β : Type} {read? : β → Option α} {write : α → β} (each : ∀ a, read? (write a) = some a)
    (items : List α) : (items.map write).mapM read? = some items := by
  induction items with
  | nil => rfl
  | cons item items ih => simp [each, ih]

theorem legal_record {members : List (String × Json)} (legal : ∀ member ∈ members, Legal member.2) :
    Legal (record members) := by
  refine .object ?_ ?_
  · rintro _ inside
    obtain ⟨member, _, rfl⟩ := List.mem_map.1 inside
    exact ⟨member.1.toList, rfl⟩
  · rintro _ inside
    obtain ⟨member, named, rfl⟩ := List.mem_map.1 inside
    exact legal member named

theorem members?_record (members : List (String × Json)) : (record members).members? = some members :=
  mapM_map (fun member => by simp [key?, unescape?_escape]) members

theorem values?_record {shape : RecordShape} {members : List (String × Json)}
    (once : ∀ name ∈ shape.fields, (members.filter (·.1 = name)).length ≤ 1) :
    shape.values? (record members) =
      some (shape.fields.map fun name => (members.filter (·.1 = name)).head?.map (·.2)) := by
  have found := members?_record members
  unfold record at found ⊢
  have all : shape.fields.all fun name => (members.filter (·.1 = name)).length ≤ 1 := by simpa using once
  simp only [RecordShape.values?, found, Option.bind_eq_bind, Option.bind_some]
  rw [if_pos all]
  rfl

theorem mapOf?_record (texts : List (String × String)) :
    (record (texts.map fun entry => (entry.1, ofText entry.2))).mapOf? some text? = some texts := by
  rw [mapOf?, members?_record]
  exact mapM_map (fun entry => by simp) texts

end Gridbook.Json
