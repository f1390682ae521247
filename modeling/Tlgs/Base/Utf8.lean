import Tlgs.Base.Bytes

/-!
# Cutting a text in UTF-8

A prefix of a text in UTF-8 is a text in UTF-8 again exactly if a character begins where it was cut
off, or nothing was cut off. What is written behind the cut makes no difference if it is ASCII.
-/
namespace Utf8

open Bytes

/-- The bytes are the encoding of some text. -/
def Valid (s : List UInt8) : Prop := s.toByteArray.IsValidUTF8

/-- A character begins at the offset, unless the text is over by then. -/
def Boundary (s : List UInt8) (n : Nat) : Prop := ∀ c ∈ s[n]?, c.IsUTF8FirstByte

instance (s : List UInt8) (n : Nat) : Decidable (Boundary s n) :=
  inferInstanceAs (Decidable (∀ c ∈ s[n]?, c.IsUTF8FirstByte))

variable {s t : List UInt8}

theorem valid_nil : Valid [] := ByteArray.isValidUTF8_empty

theorem Valid.append (left : Valid s) (right : Valid t) : Valid (s ++ t) := by
  rw [Valid, List.toByteArray_append]
  exact ByteArray.IsValidUTF8.append left right

/-! ### ASCII -/

theorem isUTF8FirstByte_ascii (c : UInt8) : c < 0x80 → c.IsUTF8FirstByte := by
  revert c
  exact forall_byte (by decide +kernel)

/-- A character of ASCII is encoded as itself. -/
theorem utf8EncodeChar_ascii (c : UInt8) :
    c < 0x80 → String.utf8EncodeChar (Char.ofNat c.toNat) = [c] := by
  revert c
  exact forall_byte (by decide +kernel)

theorem valid_cons_iff {c : UInt8} (ascii : c < 0x80) : Valid (c :: s) ↔ Valid s := by
  have encoded : [c].toByteArray = [Char.ofNat c.toNat].utf8Encode := by
    rw [List.utf8Encode_singleton, utf8EncodeChar_ascii c ascii]
  rw [Valid, ← List.singleton_append, List.toByteArray_append, encoded]
  exact ByteArray.isValidUTF8_utf8Encode_singleton_append_iff

theorem valid_ascii (ascii : ∀ c ∈ s, c < 0x80) : Valid s := by
  induction s with
  | nil => exact valid_nil
  | cons c s ih =>
    obtain ⟨first, rest⟩ := List.forall_mem_cons.mp ascii
    exact (valid_cons_iff first).mpr (ih rest)

theorem boundary_ascii (ascii : ∀ c ∈ s, c < 0x80) (n : Nat) : Boundary s n :=
  fun c found => isUTF8FirstByte_ascii c (ascii c (List.mem_of_getElem? found))

/-! ### Cutting -/

theorem boundary_of_length_le {n : Nat} (past : s.length ≤ n) : Boundary s n := by
  intro c found
  rw [List.getElem?_eq_none past] at found
  cases found

theorem toByteArray_take (s : List UInt8) (n : Nat) :
    (s.take n).toByteArray = s.toByteArray.extract 0 n := by
  ext1
  simp [List.data_toByteArray]

/-- A prefix is a text exactly if it ends where a character ends. -/
theorem valid_take_iff (valid : Valid s) (n : Nat) : Valid (s.take n) ↔ Boundary s n := by
  rcases Nat.lt_or_ge n s.length with inside | past
  · let text : String := ⟨s.toByteArray, valid⟩
    have bound : (⟨n⟩ : String.Pos.Raw) < text.rawEndPos := by
      simpa [text, String.Pos.Raw.lt_iff, ← String.size_toByteArray] using inside
    have cut : Valid (s.take n) ↔ (⟨n⟩ : String.Pos.Raw).IsValid text := by
      rw [Valid, toByteArray_take, String.Pos.Raw.isValid_iff_isValidUTF8_extract_zero]
      exact (and_iff_right (String.Pos.Raw.le_of_lt bound)).symm
    have byte : text.getUTF8Byte ⟨n⟩ bound = s[n] := List.getElem_toByteArray
    rw [cut, String.Pos.Raw.isValid_iff_isUTF8FirstByte, Boundary, List.getElem?_eq_getElem inside]
    -- a byte begins a character, or the cut is at the end
    constructor
    · intro boundary c found
      cases found
      rcases boundary with past | ⟨_, first⟩
      · rw [past] at bound
        exact absurd bound (Nat.lt_irrefl _)
      · rwa [byte] at first
    · intro boundary
      refine .inr ⟨bound, ?_⟩
      rw [byte]
      exact boundary _ rfl
  · rw [List.take_of_length_le past]
    exact iff_of_true valid (boundary_of_length_le past)

/-- What is left in front of a character is a text. -/
theorem Valid.of_append (whole : Valid (s ++ t)) (boundary : Boundary t 0) : Valid s := by
  have cut : Boundary (s ++ t) s.length := by
    intro c found
    rw [List.getElem?_append_right (Nat.le_refl _), Nat.sub_self] at found
    exact boundary c found
  simpa using (valid_take_iff whole s.length).mpr cut

/-- A prefix with ASCII behind it. -/
theorem valid_take_append_iff (valid : Valid s) (n : Nat) (ascii : ∀ c ∈ t, c < 0x80) :
    Valid (s.take n ++ t) ↔ Boundary s n := by
  rw [← valid_take_iff valid n]
  constructor
  · intro whole
    exact whole.of_append (boundary_ascii ascii 0)
  · intro cut
    exact cut.append (valid_ascii ascii)

end Utf8
