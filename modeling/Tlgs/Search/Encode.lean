import Tlgs.Base.FormEncoding

/-!
# `tlgs::urlEncode`

The encoding of a search term in the links of a result page. Its hexadecimal digits are computed
from a signed `char` that is promoted to `int`; decoding the result gives the term back.
-/
namespace Tlgs

open Bytes FormEncoding

/-- `c += c > 9 ? 'A' - 10 : '0'`. -/
def toDigit (c : Int8) : Int8 := c + if c > 9 then 65 - 10 else 48

/-- The masks and the division are those of `int`. -/
def charToHex (c : UInt8) : Str :=
  let promoted := c.toInt8.toInt32
  let first := ((promoted &&& 0xF0) / 16).toInt8
  let second := (promoted &&& 0x0F).toInt8
  [(toDigit first).toUInt8, (toDigit second).toUInt8]

def urlEncodeChar (ch : UInt8) : Str :=
  if ch = 32 then [plus]
  else if isalnum ch || decide (ch ∈ lit "-_.~") then [ch]
  else percent :: charToHex ch

def urlEncode (src : Str) : Str := src.flatMap urlEncodeChar

/-- The sign does not matter: the digits are those of the two halves of the byte. -/
theorem charToHex_eq (c : UInt8) :
    charToHex c = [hexDigit (c.toNat / 16), hexDigit (c.toNat % 16)] := by
  revert c
  exact forall_byte (by decide +kernel)

theorem decode_urlEncodeChar (ch : UInt8) (s : Str) :
    decode (urlEncodeChar ch ++ s) = ch :: decode s := by
  simp only [urlEncodeChar]
  split
  next blank =>
    subst blank
    exact decode_plus s
  · split
    next plain =>
      have unreserved : Unreserved ch := by simpa using plain
      exact unreserved.decode s
    next =>
      rw [charToHex_eq]
      exact decode_escape (hexByte_halves ch) s

theorem encoded_urlEncodeChar (ch : UInt8) {s : Str} (rest : Encoded s) :
    Encoded (urlEncodeChar ch ++ s) := by
  simp only [urlEncodeChar]
  split
  next => exact .plus rest
  · split
    next plain => exact .plain (by simpa using plain) rest
    next =>
      rw [charToHex_eq]
      exact .escape (hexByte_halves ch) rest

theorem encoded_urlEncode (s : Str) : Encoded (urlEncode s) := by
  induction s with
  | nil => exact .nil
  | cons ch s ih =>
    rw [urlEncode, List.flatMap_cons]
    exact encoded_urlEncodeChar ch ih

variable {urlDecode : Str → Str}

theorem urlDecode_urlEncode (decodes : DecodesForms urlDecode) (s : Str) :
    urlDecode (urlEncode s) = s := by
  rw [decodes _ (encoded_urlEncode s)]
  induction s with
  | nil => rfl
  | cons ch s ih =>
    rw [urlEncode, List.flatMap_cons, decode_urlEncodeChar]
    exact congrArg (ch :: ·) ih

/-- Every byte string is decoded from its encoding, which has no other characters than unreserved
ones, plus signs and escapes. -/
theorem decode_urlEncode (decodes : DecodesForms urlDecode) (s : Str) :
    urlDecode (urlEncode s) = s ∧ Encoded (urlEncode s) :=
  ⟨urlDecode_urlEncode decodes s, encoded_urlEncode s⟩

theorem decode_urlEncode_accent :
    decode (urlEncode (lit "a+b é")) = lit "a+b é" ∧ Encoded (urlEncode (lit "a+b é")) :=
  decode_urlEncode (fun _ _ => rfl) _

example : urlEncode (lit "a+b é") = lit "a%2Bb+%C3%A9" := by decide

end Tlgs
