import Tlgs.Base.Bytes

/-!
# Form-encoded text

The encoding of text in the query of a URL: a plus sign stands for a blank, and a per cent sign with
two hexadecimal digits for the byte that they spell. Every other byte stands for itself, also a per
cent sign without two digits behind it.
-/
namespace FormEncoding

open Bytes

abbrev plus : UInt8 := 43
abbrev percent : UInt8 := 37

/-- The digit of a value under 16, with capital letters. -/
def hexDigit (n : Nat) : UInt8 := if n < 10 then UInt8.ofNat (48 + n) else UInt8.ofNat (55 + n)

def hexValue (c : UInt8) : Option Nat :=
  if 48 ≤ c ∧ c ≤ 57 then some (c.toNat - 48)
  else if 65 ≤ c ∧ c ≤ 70 then some (c.toNat - 55)
  else if 97 ≤ c ∧ c ≤ 102 then some (c.toNat - 87)
  else none

/-- The byte that two digits spell. -/
def hexByte (high low : UInt8) : Option UInt8 :=
  (hexValue high).bind fun h => (hexValue low).map fun l => UInt8.ofNat (16 * h + l)

def decode : Str → Str
  | [] => []
  | c :: high :: low :: s =>
    if c = plus then 32 :: decode (high :: low :: s)
    else if c = percent then
      match hexByte high low with
      | some byte => byte :: decode s
      | none => c :: decode (high :: low :: s)
    else c :: decode (high :: low :: s)
  -- too short for an escape
  | c :: s => (if c = plus then 32 else c) :: decode s

theorem hexValue_hexDigit {n : Nat} (small : n < 16) : hexValue (hexDigit n) = some n := by
  have digits : ∀ n < 16, hexValue (hexDigit n) = some n := by decide
  exact digits n small

/-- A byte is spelt by its two halves. -/
theorem hexByte_halves (c : UInt8) :
    hexByte (hexDigit (c.toNat / 16)) (hexDigit (c.toNat % 16)) = some c := by
  have bound : c.toNat < 256 := c.toNat_lt
  have halves : 16 * (c.toNat / 16) + c.toNat % 16 = c.toNat := Nat.div_add_mod c.toNat 16
  rw [hexByte, hexValue_hexDigit (by omega), hexValue_hexDigit (by omega)]
  simp only [Option.map_some, Option.bind_some, halves, UInt8.ofNat_toNat]

/-! ### Reading one character -/

theorem decode_plus (s : Str) : decode (plus :: s) = 32 :: decode s := by
  rcases s with _ | ⟨high, _ | ⟨low, s⟩⟩ <;> simp [decode]

theorem decode_plain {c : UInt8} (no_plus : c ≠ plus) (no_percent : c ≠ percent) (s : Str) :
    decode (c :: s) = c :: decode s := by
  rcases s with _ | ⟨high, _ | ⟨low, s⟩⟩ <;> simp [decode, no_plus, no_percent]

theorem decode_escape {high low byte : UInt8} (spells : hexByte high low = some byte) (s : Str) :
    decode (percent :: high :: low :: s) = byte :: decode s := by
  have no_plus : percent ≠ plus := by decide
  simp [decode, no_plus, spells]

/-! ### Texts that are encoded -/

/-- The characters that stand for themselves in every part of a URL. -/
abbrev Unreserved (c : UInt8) : Prop := isalnum c = true ∨ c ∈ lit "-_.~"

/-- Unreserved characters, plus signs and escapes. -/
inductive Encoded : Str → Prop
  | nil : Encoded []
  | plain {c : UInt8} {s : Str} (unreserved : Unreserved c) (rest : Encoded s) : Encoded (c :: s)
  | plus {s : Str} (rest : Encoded s) : Encoded (plus :: s)
  | escape {high low byte : UInt8} {s : Str} (spells : hexByte high low = some byte)
    (rest : Encoded s) :
      Encoded (percent :: high :: low :: s)

/-- A library function that is documented to decode encoded text. -/
def DecodesForms (urlDecode : Str → Str) : Prop := ∀ s, Encoded s → urlDecode s = decode s

theorem Unreserved.decode {c : UInt8} (unreserved : Unreserved c) (s : Str) :
    decode (c :: s) = c :: FormEncoding.decode s := by
  apply decode_plain
  · rintro rfl
    exact absurd unreserved (by decide)
  · rintro rfl
    exact absurd unreserved (by decide)

end FormEncoding
