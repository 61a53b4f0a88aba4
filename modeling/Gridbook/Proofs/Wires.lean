import Gridbook.Proofs.Documents
import Gridbook.Wire

/-!
Values on the wire. A document is read back from its compact text too, and this text is a single line: it has no
character below the space, since escaping leaves none and no other token has one. A type whose documents are legal and
read back (`LawfulWire`) is thus read back from what is written for it.
-/
namespace Gridbook.Text.Scanner

variable {p : Char → Bool} {a b : Scanner}

def Takes (p : Char → Bool) (scan : Scanner) : Prop :=
  ∀ {cs taken rest}, scan cs = some (taken, rest) → ∀ c ∈ taken, p c = true

theorem takes_one {q : Char → Bool} (covers : ∀ c, q c = true → p c = true) : Takes p (one q) := by
  intro cs taken rest found c inside
  cases cs with
  | nil => simp [one] at found
  | cons d cs =>
    by_cases fits : q d = true
    · simp only [one, fits, if_true, Option.some.injEq, Prod.mk.injEq] at found
      rw [← found.1, List.mem_singleton] at inside
      exact covers c (inside ▸ fits)
    · simp [one, fits] at found

theorem takes_many {q : Char → Bool} (covers : ∀ c, q c = true → p c = true) : Takes p (many q) := by
  intro cs taken rest found c inside
  simp only [many, Option.some.injEq, Prod.mk.injEq] at found
  rw [← found.1] at inside
  exact covers c (List.mem_takeWhile_imp inside)

theorem takes_seq (first : Takes p a) (second : Takes p b) : Takes p (seq a b) := by
  intro cs taken rest found c inside
  unfold seq at found
  split at found
  · cases found
  · next x middle one =>
    split at found
    · cases found
    · next y last two =>
      cases found
      rcases List.mem_append.1 inside with early | late
      · exact first one c early
      · exact second two c late

theorem takes_orElse (first : Takes p a) (second : Takes p b) : Takes p (orElse a b) := by
  intro cs taken rest found
  unfold orElse at found
  split at found
  · next one => exact first (found ▸ one)
  · exact second found

theorem takes_optional (scan : Takes p a) : Takes p (optional a) := by
  refine takes_orElse scan ?_
  intro cs taken rest found
  cases found
  simp

theorem takes_many1 {q : Char → Bool} (covers : ∀ c, q c = true → p c = true) : Takes p (many1 q) :=
  takes_seq (takes_one covers) (takes_many covers)

end Gridbook.Text.Scanner

namespace Gridbook.Json

open Gridbook.Text

def Visible (text : List Char) : Prop := ∀ c ∈ text, 0x20 ≤ c.toNat

instance : DecidablePred Visible := fun text => List.decidableBAll (fun c : Char => 0x20 ≤ c.toNat) text

section

variable {a b : List Char}

theorem visible_nil : Visible [] := by simp [Visible]

theorem Visible.append (first : Visible a) (second : Visible b) : Visible (a ++ b) := by
  intro c inside
  rcases List.mem_append.1 inside with early | late
  · exact first c early
  · exact second c late

theorem Visible.cons {c : Char} (mark : 0x20 ≤ c.toNat) (rest : Visible a) : Visible (c :: a) := by
  intro d inside
  rcases List.mem_cons.1 inside with rfl | later
  · exact mark
  · exact rest d later

end

theorem visible_hexDigit {n : Nat} (small : n < 16) : 0x20 ≤ (hexDigit n).toNat := by
  have all : ∀ n < 16, 0x20 ≤ (hexDigit n).toNat := by decide
  exact all n small

theorem visible_escapeChar (c : Char) : Visible (escapeChar c) := by
  have letters : Visible (shortEscapes.map (·.1)) := by decide
  rcases escapeChar_cases c with ⟨e, -, short, written⟩ | ⟨control, written⟩ | ⟨-, -, shown, written⟩
  · have letter : 0x20 ≤ e.toNat := by
      obtain ⟨before, after, parts, -⟩ := List.lookup_eq_some_iff.1 short
      exact letters e (by simp [parts])
    rw [written]
    exact .cons (by decide) (.cons letter visible_nil)
  · have high : 0x20 ≤ (hexDigit (c.toNat / 16)).toNat := visible_hexDigit (by omega)
    have low : 0x20 ≤ (hexDigit (c.toNat % 16)).toNat := visible_hexDigit (by omega)
    rw [written]
    have digits : Visible [hexDigit (c.toNat / 16), hexDigit (c.toNat % 16)] := .cons high (.cons low visible_nil)
    exact .cons (by decide) (.cons (by decide) (.cons (by decide) (.cons (by decide) digits)))
  · rw [written]
    exact .cons shown visible_nil

theorem visible_escape (text : List Char) : Visible (escape text) := by
  intro c inside
  obtain ⟨d, -, written⟩ := List.mem_flatMap.1 inside
  exact visible_escapeChar d c written

theorem visible_quoted {literal : List Char} (visible : Visible literal) : Visible (quoted literal) :=
  .cons (by decide) (visible.append (.cons (by decide) visible_nil))

theorem visible_number {literal : List Char} (legal : (Token.number literal).Legal) : Visible literal := by
  have takes : Scanner.Takes Token.isNumberChar Token.scanNumber :=
    Token.scanNumber_induction (fun _ => Scanner.takes_one) (fun _ => Scanner.takes_many1) Scanner.takes_seq
      Scanner.takes_orElse Scanner.takes_optional
  intro c inside
  have part := takes legal.2 c inside
  simp only [Token.isNumberChar, Token.isSign, Bool.or_eq_true, beq_iff_eq] at part
  rcases part with (((digit | rfl | rfl) | rfl) | rfl) | rfl
  · exact Nat.le_trans (by decide) (Char.isDigit_iff_toNat.1 digit).1
  all_goals decide

theorem visible_compactItems {items : List Json} (each : ∀ item ∈ items, Visible (compactChars item)) :
    Visible (compactItems items) := by
  induction items with
  | nil =>
    rw [compactItems]
    exact visible_nil
  | cons item items ih =>
    have first := each item (by simp)
    have further := ih fun i inside => each i (List.mem_cons_of_mem _ inside)
    cases items with
    | nil => simpa [compactItems] using first
    | cons next items => simpa [compactItems] using first.append (further.cons (c := ',') (by decide))

theorem visible_compactMembers {members : List (List Char × Json)}
    (keys : ∀ member ∈ members, ∃ text, member.1 = escape text)
    (each : ∀ member ∈ members, Visible (compactChars member.2)) : Visible (compactMembers members) := by
  induction members with
  | nil =>
    rw [compactMembers]
    exact visible_nil
  | cons member members ih =>
    obtain ⟨key, value⟩ := member
    obtain ⟨text, rfl⟩ : ∃ text, key = escape text := keys _ (List.mem_cons_self ..)
    have key := visible_quoted (visible_escape text)
    have value : Visible (compactChars value) := each (_, value) (List.mem_cons_self ..)
    have further := ih (fun m inside => keys m (List.mem_cons_of_mem _ inside)) fun m inside =>
      each m (List.mem_cons_of_mem _ inside)
    cases members with
    | nil => simpa [compactMembers] using key.append (value.cons (c := ':') (by decide))
    | cons next members =>
      have behind := value.append (further.cons (c := ',') (by decide))
      simpa [compactMembers] using key.append (behind.cons (c := ':') (by decide))

theorem visible_compactChars {json : Json} (legal : Legal json) : Visible (compactChars json) := by
  induction legal with
  | null =>
    rw [compactChars]
    decide
  | bool value =>
    rw [compactChars]
    cases value <;> decide
  | @number literal legal =>
    rw [compactChars]
    exact visible_number legal
  | string text =>
    rw [compactChars]
    exact visible_quoted (visible_escape text)
  | @array items legal ih =>
    rw [compactChars]
    exact .cons (by decide) ((visible_compactItems ih).append (.cons (by decide) visible_nil))
  | @object members keys legal ih =>
    rw [compactChars]
    exact .cons (by decide) ((visible_compactMembers keys ih).append (.cons (by decide) visible_nil))

theorem lays_compactItems {items : List Json} (each : ∀ item ∈ items, Lays item.tokens (compactChars item)) :
    Lays (itemTokens items) (compactItems items) := by
  induction items with
  | nil =>
    rw [itemTokens, compactItems]
    exact .nil
  | cons item items ih =>
    have first := each item (by simp)
    cases items with
    | nil => simpa [itemTokens, compactItems] using first
    | cons next items =>
      have further := ih fun i inside => each i (List.mem_cons_of_mem _ inside)
      have behind := further.cons .comma trivial fun _ => trivial
      simpa [itemTokens, compactItems, Token.chars] using first.append behind (by simp [Token.chars]; decide)

theorem lays_compactMembers {members : List (List Char × Json)}
    (keys : ∀ member ∈ members, ∃ text, member.1 = escape text)
    (each : ∀ member ∈ members, Lays member.2.tokens (compactChars member.2)) :
    Lays (memberTokens members) (compactMembers members) := by
  induction members with
  | nil =>
    rw [memberTokens, compactMembers]
    exact .nil
  | cons member members ih =>
    obtain ⟨key, value⟩ := member
    obtain ⟨text, rfl⟩ : ∃ text, key = escape text := keys _ (List.mem_cons_self ..)
    have colon := (each (_, value) (List.mem_cons_self ..)).cons .colon trivial fun _ => trivial
    have first := colon.cons (.string (escape text)) ⟨text, rfl⟩ fun _ => trivial
    cases members with
    | nil => simpa [memberTokens, compactMembers, Token.chars] using first
    | cons next members =>
      have further := ih (fun m inside => keys m (List.mem_cons_of_mem _ inside)) fun m inside =>
        each m (List.mem_cons_of_mem _ inside)
      have behind := further.cons .comma trivial fun _ => trivial
      simpa [memberTokens, compactMembers, Token.chars] using first.append behind (by simp [Token.chars]; decide)

theorem lays_compactChars {json : Json} (legal : Legal json) : Lays json.tokens (compactChars json) := by
  induction legal with
  | null =>
    rw [tokens, compactChars]
    exact .token .null trivial
  | bool value =>
    rw [tokens, compactChars]
    exact .token (.bool value) trivial
  | @number literal legal =>
    rw [tokens, compactChars]
    exact .token (.number literal) legal
  | string text =>
    rw [tokens, compactChars]
    exact .token (.string (escape text)) ⟨text, rfl⟩
  | @array items legal ih =>
    have closed := (lays_compactItems ih).append (.token .closeArray trivial) (by simp [Token.chars]; decide)
    simpa [tokens, compactChars, Token.chars] using closed.cons .openArray trivial fun _ => trivial
  | @object members keys legal ih =>
    have closed := (lays_compactMembers keys ih).append (.token .closeObject trivial) (by simp [Token.chars]; decide)
    simpa [tokens, compactChars, Token.chars] using closed.cons .openObject trivial fun _ => trivial

/-- A document is read back from its compact text. -/
theorem read_compact {json : Json} (legal : Legal json) : read json.compact = some json := by
  have spelled := lays_compactChars legal [] [] stops_nil .nil
  rw [List.append_nil, List.append_nil] at spelled
  rw [read, compact, String.toList_ofList, spelled.readAll]
  exact ofTokens?_tokens json

theorem listOf?_ofList {α : Type} {write : α → Json} {read? : Json → Option α}
    (each : ∀ a, read? (write a) = some a) (items : List α) : (ofList write items).listOf? read? = some items :=
  mapM_map each items

@[simp] theorem legal_ofText (text : String) : (ofText text).Legal := .string _

@[simp] theorem legal_bool (value : Bool) : (Json.bool value).Legal := .bool value

theorem legal_ofList {α : Type} {write : α → Json} (each : ∀ a, (write a).Legal) (items : List α) :
    (ofList write items).Legal := by
  refine .array ?_
  intro json inside
  obtain ⟨item, -, rfl⟩ := List.mem_map.1 inside
  exact each item

end Gridbook.Json

namespace Gridbook

/-- The documents of the type's values are legal and are read back. -/
class LawfulWire (α : Type) [Wire α] : Prop where
  legal (value : α) : (Wire.toJson value).Legal
  ofJson?_toJson (value : α) : Wire.ofJson? (Wire.toJson value) = some value

attribute [simp] LawfulWire.legal

namespace Wire

theorem read?_write {α : Type} [Wire α] [LawfulWire α] (value : α) : read? (write value) = some value := by
  rw [read?, write, Json.read_compact (LawfulWire.legal value)]
  exact LawfulWire.ofJson?_toJson value

theorem visible_write {α : Type} [Wire α] [LawfulWire α] (value : α) : Json.Visible (write value).toList := by
  rw [write, Json.compact, String.toList_ofList]
  exact Json.visible_compactChars (LawfulWire.legal value)

instance : LawfulWire SheetChange where
  legal change := Json.legal_record (by simp)
  ofJson?_toJson change := by
    simp only [ofJson?, toJson]
    rw [Json.values?_record (by simp)]
    simp

instance : LawfulWire HistoryRecord where
  legal entry := Json.legal_record (by simp [Json.legal_ofList])
  ofJson?_toJson entry := by
    have changes := Json.listOf?_ofList (LawfulWire.ofJson?_toJson (α := SheetChange)) entry.changes
    have values : Json.RecordShape.values? ⟨["title", "changes"], false⟩ (toJson entry) =
        some [some (.ofText entry.title), some (.ofList toJson entry.changes)] :=
      (Json.values?_record (by simp)).trans (by simp)
    change (match Json.RecordShape.values? ⟨["title", "changes"], false⟩ (toJson entry) with
      | some [some title, some changes] => do return HistoryRecord.mk (← title.text?) (← changes.listOf? ofJson?)
      | _ => none) = some entry
    simp [values, changes]

end Wire
end Gridbook
