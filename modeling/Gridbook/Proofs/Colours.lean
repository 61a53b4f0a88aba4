import Gridbook.Colour.Basic
import Gridbook.Proofs.Runs

/-!
Colours from hexadecimal text. A text is taken apart into pairs, and each pair is a byte, so which texts are colours is
said by the place of each character (`isSome_bytes?`). The digits of a number, filled up with zeros, fall into the pairs
of its bytes (`hexForm_bytes`), which is what shifting and masking give too: both ways to a colour lead to the same one.
-/
namespace Gridbook.Text

def IsHexDigit (c : Char) : Prop := ('0' ≤ c ∧ c ≤ '9') ∨ ('a' ≤ c ∧ c ≤ 'f') ∨ ('A' ≤ c ∧ c ≤ 'F')

instance : DecidablePred IsHexDigit := fun c =>
  inferInstanceAs (Decidable (('0' ≤ c ∧ c ≤ '9') ∨ ('a' ≤ c ∧ c ≤ 'f') ∨ ('A' ≤ c ∧ c ≤ 'F')))

theorem isSome_hexValue? (c : Char) : (hexValue? c).isSome ↔ IsHexDigit c := by
  unfold hexValue? IsHexDigit
  split
  · next decimal => simp [decimal]
  · next decimal =>
    split
    · next lower => simp [lower]
    · next lower =>
      split
      · next upper => simp [upper]
      · next upper => simp [decimal, lower, upper]

def hexForm (width n : Nat) : List Char := (Nat.toDigits 16 n).leftpad width '0'

theorem hexForm_one {d : Nat} (small : d < 16) : hexForm 1 d = [Nat.digitChar d] := by
  simp [hexForm, Nat.toDigits_of_lt_base small, List.leftpad]

theorem hexForm_succ {width : Nat} (pos : 0 < width) (n : Nat) :
    hexForm (width + 1) n = hexForm width (n / 16) ++ [Nat.digitChar (n % 16)] := by
  unfold hexForm List.leftpad
  by_cases small : n < 16
  · -- The digit is the only one: what stands before it are zeros, of which one is the digit of the quotient.
    obtain ⟨zeros, rfl⟩ : ∃ zeros, width = zeros + 1 := ⟨width - 1, by omega⟩
    rw [Nat.toDigits_of_lt_base small, Nat.div_eq_of_lt small, Nat.mod_eq_of_lt small, Nat.toDigits_zero]
    simp [List.replicate_succ']
  · rw [Nat.toDigits_of_base_le (by decide) (by omega), List.length_append, List.length_singleton,
      Nat.add_sub_add_right, List.append_assoc]

/-- The last two digits are those of the last byte. -/
theorem hexForm_bytes {width : Nat} (pos : 0 < width) (n : Nat) :
    hexForm (width + 2) n = hexForm width (n / 256) ++ hexForm 2 (n % 256) := by
  have quotient : n / 16 / 16 = n / 256 := by omega
  have high : n / 16 % 16 = n % 256 / 16 := by omega
  have low : n % 256 % 16 = n % 16 := by omega
  rw [hexForm_succ (by omega), hexForm_succ pos, hexForm_succ Nat.one_pos, hexForm_one (by omega), quotient, high, low,
    List.append_assoc]

/-- A digit has its value in either case. -/
theorem hexValue?_digitChar {c : Char} {v : Nat} (small : v < 16) (same : c.toLower = Nat.digitChar v) :
    hexValue? c = some v := by
  have lower : ∀ v < 16, hexValue? (Nat.digitChar v) = some v := by decide
  have upper : ∀ v < 16, ∀ n < 26, (Char.ofNat (65 + n)).toLower = Nat.digitChar v →
      hexValue? (Char.ofNat (65 + n)) = some v := by decide
  by_cases capital : 65 ≤ c.toNat ∧ c.toNat ≤ 90
  · have spelled : c = Char.ofNat (65 + (c.toNat - 65)) := by
      rw [Nat.add_sub_cancel' capital.1, Char.ofNat_toNat]
    rw [spelled] at same ⊢
    exact upper v small _ (by omega) same
  · have kept : c.toLower = c := by
      have outside : ¬(c.val ≥ 'A'.val ∧ c.val ≤ 'Z'.val) := capital
      exact dif_neg outside
    rw [← kept, same]
    exact lower v small

end Gridbook.Text

namespace Gridbook.Colour

open Gridbook.Text

theorem isSome_byte? (high low : Char) :
    (byte? high low).isSome ↔ (IsHexDigit high ∨ high = '+') ∧ IsHexDigit low := by
  rw [← isSome_hexValue? high, ← isSome_hexValue? low, byte?]
  split
  · next plus => simp [plus]
  · next plus => cases hexValue? high <;> cases hexValue? low <;> simp [plus]

theorem length_of_bytes? {cs : List Char} {bytes : List Nat} (found : bytes? cs = some bytes) :
    cs.length = 2 * bytes.length := by
  fun_induction bytes? cs generalizing bytes with
  | case1 =>
    cases found
    rfl
  | case2 => cases found
  | case3 high low cs ih =>
    simp only [Option.bind_eq_bind, Option.bind_eq_some_iff, Option.pure_def, Option.some.injEq] at found
    obtain ⟨byte, -, rest, further, rfl⟩ := found
    simp only [List.length_cons, ih further]
    omega

/-- A sequence of pairs is one of bytes if each character is a digit, or a plus sign where a pair starts. -/
theorem isSome_bytes? (cs : List Char) :
    (bytes? cs).isSome ↔
      cs.length % 2 = 0 ∧ ∀ i c, cs[i]? = some c → IsHexDigit c ∨ (i % 2 = 0 ∧ c = '+') := by
  fun_induction bytes? cs with
  | case1 => simp
  | case2 c => simp
  | case3 high low cs ih =>
    have both : (do return (← byte? high low) :: (← bytes? cs)).isSome ↔
        (byte? high low).isSome ∧ (bytes? cs).isSome := by
      cases byte? high low <;> cases bytes? cs <;> simp
    have even : (cs.length + 1 + 1) % 2 = cs.length % 2 := by omega
    rw [both, isSome_byte?, ih, List.length_cons, List.length_cons, even]
    constructor
    · rintro ⟨⟨first, second⟩, whole, further⟩
      refine ⟨whole, ?_⟩
      intro i c
      match i with
      | 0 =>
        rintro ⟨⟩
        exact first.imp_right fun plus => ⟨rfl, plus⟩
      | 1 =>
        rintro ⟨⟩
        exact .inl second
      | i + 2 =>
        intro at_i
        have parity : (i + 2) % 2 = i % 2 := by omega
        rw [parity]
        exact further i c at_i
    · rintro ⟨whole, each⟩
      have first := each 0 high rfl
      have second := each 1 low rfl
      refine ⟨⟨first.imp_right fun plus => plus.2, second.resolve_right fun odd => absurd odd.1 (by decide)⟩, whole, ?_⟩
      intro i c at_i
      have parity : (i + 2) % 2 = i % 2 := by omega
      have place := each (i + 2) c at_i
      rwa [parity] at place

theorem isSome_read? (text : String) :
    (read? text).isSome ↔
      ∃ bytes, bytes? (text.toList.dropWhile (· == '#')) = some bytes ∧ (bytes.length = 3 ∨ bytes.length = 4) := by
  unfold read?
  split
  · next r g b found => simp [found]
  · next r g b a found => simp [found]
  · next three four =>
    simp only [Option.isSome_none, Bool.false_eq_true, false_iff]
    rintro ⟨bytes, found, count⟩
    match bytes, count with
    | [r, g, b], _ => exact three r g b found
    | [r, g, b, a], _ => exact four r g b a found

def IsHexColour (digits : List Char) : Prop :=
  (digits.length = 6 ∨ digits.length = 8) ∧ ∀ c ∈ digits, IsHexDigit c

/-- The texts that are read: six or eight digits behind the hash marks, where a plus sign may stand for the first digit
of a pair. Those without a plus sign are the hexadecimal colours. -/
theorem read?_accepts (text : String) :
    let digits := text.toList.dropWhile (· == '#')
    ((read? text).isSome ↔
      (digits.length = 6 ∨ digits.length = 8) ∧
        ∀ i c, digits[i]? = some c → IsHexDigit c ∨ (i % 2 = 0 ∧ c = '+')) ∧
    (IsHexColour digits ↔ (read? text).isSome ∧ '+' ∉ digits) := by
  intro digits
  have accepted : (read? text).isSome ↔
      (digits.length = 6 ∨ digits.length = 8) ∧
        ∀ i c, digits[i]? = some c → IsHexDigit c ∨ (i % 2 = 0 ∧ c = '+') := by
    rw [isSome_read?]
    constructor
    · rintro ⟨bytes, found, count⟩
      have length : digits.length = 2 * bytes.length := length_of_bytes? found
      have places := ((isSome_bytes? digits).1 (by simp [digits, found])).2
      exact ⟨by omega, places⟩
    · rintro ⟨length, places⟩
      have some := (isSome_bytes? digits).2 ⟨by omega, places⟩
      obtain ⟨bytes, found⟩ := Option.isSome_iff_exists.1 some
      have count : digits.length = 2 * bytes.length := length_of_bytes? found
      exact ⟨bytes, found, by omega⟩
  refine ⟨accepted, ?_⟩
  rw [accepted]
  constructor
  · rintro ⟨length, hex⟩
    refine ⟨⟨length, fun i c at_i => .inl (hex c (List.mem_of_getElem? at_i))⟩, ?_⟩
    intro plus
    exact absurd (hex '+' plus) (by decide)
  · rintro ⟨⟨length, places⟩, plain⟩
    refine ⟨length, ?_⟩
    intro c inside
    obtain ⟨i, at_i⟩ := List.getElem?_of_mem inside
    refine (places i c at_i).resolve_right ?_
    rintro ⟨-, rfl⟩
    exact plain inside

/-- Three plus signs with a digit each are read, and are no hexadecimal colour. -/
theorem read?_plus_signs :
    read? "#+1+2+3" = some (ofNumber 0x010203) ∧ ¬IsHexColour ("#+1+2+3".toList.dropWhile (· == '#')) := by
  refine ⟨by decide +kernel, ?_⟩
  rintro ⟨-, hex⟩
  exact absurd (hex '+' (by decide)) (by decide)

/-- Hash marks before a sequence of bytes are taken off, and no more. -/
theorem dropWhile_marks {digits : List Char} {bytes : List Nat} (marks : Nat) (found : bytes? digits = some bytes) :
    (List.replicate marks '#' ++ digits).dropWhile (· == '#') = digits := by
  refine dropWhile_run (by simp) ?_
  intro c first
  have places := ((isSome_bytes? digits).1 (by simp [found])).2 0 c (by simpa [List.head?_eq_getElem?] using first)
  by_contra mark
  obtain rfl : c = '#' := by simpa using mark
  exact absurd places (by decide)

theorem byte?_digits {high low : Char} {byte : Nat} (small : byte < 256)
    (first : high.toLower = Nat.digitChar (byte / 16)) (second : low.toLower = Nat.digitChar (byte % 16)) :
    byte? high low = some byte := by
  have left := hexValue?_digitChar (by omega) first
  have right := hexValue?_digitChar (by omega) second
  have digit : high ≠ '+' := by
    rintro rfl
    exact absurd left (by simp [show hexValue? '+' = none by decide])
  simp only [byte?, digit, if_false, left, right, Option.bind_eq_bind, Option.bind_some, Option.pure_def,
    Option.some.injEq]
  omega

/-- Bytes are read from their digits, each in either case. -/
theorem bytes?_digits {bytes : List Nat} {digits : List Char} (small : ∀ byte ∈ bytes, byte < 256)
    (spelled : digits.map Char.toLower = bytes.flatMap (hexForm 2)) : bytes? digits = some bytes := by
  induction bytes generalizing digits with
  | nil =>
    obtain rfl : digits = [] := by simpa using spelled
    rfl
  | cons byte bytes ih =>
    have fits := small byte (by simp)
    rw [List.flatMap_cons, hexForm_succ Nat.one_pos, hexForm_one (by omega)] at spelled
    obtain ⟨high, digits, rfl, first, spelled⟩ := List.map_eq_cons_iff.1 spelled
    obtain ⟨low, digits, rfl, second, spelled⟩ := List.map_eq_cons_iff.1 spelled
    have further := ih (fun b inside => small b (List.mem_cons_of_mem _ inside)) spelled
    simp [bytes?, byte?_digits fits first second, further]

theorem toNat_byte (n : UInt32) {shift : UInt32} (short : shift.toNat < 32) :
    ((n >>> shift) &&& 0xff).toNat = n.toNat / Nat.pow 2 shift.toNat % 256 := by
  rw [UInt32.toNat_and, UInt32.toNat_shiftRight, Nat.mod_eq_of_lt short, Nat.shiftRight_eq_div_pow]
  exact Nat.and_two_pow_sub_one_eq_mod _ 8

/-- The low three bytes of a number, red first. -/
def lowBytes (n : Nat) : List Nat := [n / 0x10000 % 0x100, n / 0x100 % 0x100, n % 0x100]

theorem hexForm_lowBytes (n : Nat) : hexForm 6 (n % 0x1000000) = (lowBytes n).flatMap (hexForm 2) := by
  have red : n % 0x1000000 / 0x100 / 0x100 = n / 0x10000 % 0x100 := by omega
  have green : n % 0x1000000 / 0x100 % 0x100 = n / 0x100 % 0x100 := by omega
  have blue : n % 0x1000000 % 0x100 = n % 0x100 := by omega
  rw [hexForm_bytes (by decide), hexForm_bytes (by decide), red, green, blue]
  simp [lowBytes]

theorem ofNumber_eq (n : UInt32) :
    ofNumber n =
      ⟨channel (n.toNat / 0x10000 % 0x100), channel (n.toNat / 0x100 % 0x100), channel (n.toNat % 0x100), .one⟩ := by
  have red : ((n >>> 16) &&& 0xff).toNat = n.toNat / 0x10000 % 0x100 := toNat_byte n (by decide)
  have green : ((n >>> 8) &&& 0xff).toNat = n.toNat / 0x100 % 0x100 := toNat_byte n (by decide)
  have blue : ((n >>> 0) &&& 0xff).toNat = n.toNat / 1 % 0x100 := toNat_byte n (by decide)
  rw [Nat.div_one] at blue
  simp only [ofNumber, red, green, blue]

/-- A number gives the colour that is read from its low three bytes in hexadecimal, behind any number of hash marks and
with each digit in either case; a fourth byte is the alpha. -/
theorem read?_hexForm (marks : Nat) (n : UInt32) (digits : List Char)
    (spelled : digits.map Char.toLower = hexForm 6 (n.toNat % 0x1000000)) :
    read? (String.ofList (List.replicate marks '#' ++ digits)) = some (ofNumber n) ∧
      ∀ (a : UInt8) (alpha : List Char), alpha.map Char.toLower = hexForm 2 a.toNat →
        read? (String.ofList (List.replicate marks '#' ++ (digits ++ alpha))) =
          some ((ofNumber n).withAlpha (.ofRatio a.toNat 255)) := by
  have small : ∀ byte ∈ lowBytes n.toNat, byte < 256 := by
    simp only [lowBytes, List.mem_cons, List.not_mem_nil, or_false]
    omega
  rw [hexForm_lowBytes] at spelled
  constructor
  · have found := bytes?_digits small spelled
    rw [read?, String.toList_ofList, dropWhile_marks marks found, found, ofNumber_eq]
    rfl
  · intro a alpha written
    have all : ∀ byte ∈ lowBytes n.toNat ++ [a.toNat], byte < 256 := by
      intro byte inside
      rcases List.mem_append.1 inside with low | last
      · exact small byte low
      · rw [List.mem_singleton.1 last]
        exact a.toNat_lt
    have followed : (digits ++ alpha).map Char.toLower = (lowBytes n.toNat ++ [a.toNat]).flatMap (hexForm 2) := by
      simp [spelled, written]
    have found := bytes?_digits all followed
    rw [read?, String.toList_ofList, dropWhile_marks marks found, found, ofNumber_eq]
    rfl

/-- Behind two hash marks, with digits of both cases and a high byte that is left out. -/
theorem read?_hexForm_mixed :
    read? "##3b82F6" = some (ofNumber 0xff3b82f6) ∧
      read? "##3b82F6C0" = some ((ofNumber 0xff3b82f6).withAlpha (.ofRatio 0xc0 255)) := by
  obtain ⟨plain, further⟩ := read?_hexForm 2 0xff3b82f6 "3b82F6".toList (by decide)
  exact ⟨plain, further 0xc0 "C0".toList (by decide)⟩

end Gridbook.Colour
