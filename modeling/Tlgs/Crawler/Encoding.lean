import Tlgs.Base.Charsets
import Tlgs.Crawler.Page

/-!
# Converting a response to UTF-8

The loop of `iconvpp::converter` over the chunks of `iconv`, and what `tryConvertEncoding` makes of
it. The constructor takes the target first, and `tryConvertEncoding` hands it the source first.
-/
namespace Tlgs

open Bytes Charsets Charsets.Conversion

section Converter

variable {Symbol : Type}

-- the charsets that `iconv` knows
variable (charsetOf : Str → Option (Charset Symbol))

/-- `iconv_open`. -/
def iconvOpen (tocode fromcode : Str) : Option (Conversion Symbol) :=
  (charsetOf tocode).bind fun target => (charsetOf fromcode).map fun source => ⟨source, target⟩

/-- The loop of `convert`: `none` if it throws, and if it has not ended when the fuel is used up. -/
def convertLoop (cv : Conversion Symbol) (ignoreError : Bool) (bufSize : Nat) :
    Nat → cv.State → Str → Option Str
  | 0, _, input => if input = [] then some [] else none
  | fuel + 1, s, input =>
    if input = [] then some []
    else
      let chunk := cv.iconv input.length s input bufSize
      match chunk.stop with
      | .illegal =>
        -- "skip character"
        if ignoreError then
          (convertLoop cv ignoreError bufSize fuel chunk.state (chunk.rest.drop 1)).map
            (chunk.written ++ ·)
        else none
      | _ =>
        (convertLoop cv ignoreError bufSize fuel chunk.state chunk.rest).map (chunk.written ++ ·)

/-- `iconvpp::converter converter(outEncode, inEncode, true)` and `converter.convert(input, …)`. -/
def converter (outEncode inEncode input : Str) : Option Str :=
  (iconvOpen charsetOf outEncode inEncode).bind fun cv =>
    convertLoop cv true 1024 input.length cv.start input

variable {charsetOf}

/-- The loop ends, and where the chunks end makes no difference. -/
theorem convertLoop_converts {cv : Conversion Symbol} {bufSize : Nat} (room : 16 ≤ bufSize)
    (fuel : Nat) (s : cv.State) (input : Str) (enough : input.length ≤ fuel) :
    ∃ out, convertLoop cv true bufSize fuel s input = some out ∧ cv.Converts s input out := by
  -- each round reads something, so the length of the input is enough fuel
  induction fuel generalizing s input with
  | zero =>
    have empty : input = [] := List.length_eq_zero_iff.mp (Nat.le_zero.mp enough)
    subst empty
    exact ⟨[], rfl, Converts.nil s⟩
  | succ fuel ih =>
    simp only [convertLoop]
    split
    next empty =>
      subst empty
      exact ⟨[], rfl, Converts.nil s⟩
    next more =>
      have some_input := List.length_pos_of_ne_nil more
      obtain ⟨converts, fewer, done, illegal, noRoom⟩ :=
        iconv_converts input.length s input bufSize (Nat.le_refl _)
      generalize cv.iconv input.length s input bufSize =
        chunk at converts fewer done illegal noRoom ⊢
      cases stop : chunk.stop with
      -- the byte at which `iconv` stopped is skipped
      | illegal =>
        obtain ⟨left, stuck⟩ := illegal stop
        obtain ⟨b, rest, behind⟩ := List.exists_cons_of_ne_nil left
        rw [behind] at fewer stuck converts ⊢
        obtain ⟨out, ended, converted⟩ := ih chunk.state rest (by simp at fewer; omega)
        refine ⟨chunk.written ++ out, ?_, converts out (Converts.skip stuck converted)⟩
        simp [ended]
      -- nothing is left, and the next round ends
      | done =>
        obtain ⟨out, ended, converted⟩ := ih chunk.state chunk.rest (by simp [done stop])
        exact ⟨chunk.written ++ out, by simp [ended], converts out converted⟩
      -- the chunk is full, so something was written and therefore read
      | noRoom =>
        have shorter := noRoom stop room
        obtain ⟨out, ended, converted⟩ := ih chunk.state chunk.rest (by omega)
        exact ⟨chunk.written ++ out, by simp [ended], converts out converted⟩

theorem converter_converts {outEncode inEncode : Str} {target source : Charset Symbol}
    (out_known : charsetOf outEncode = some target) (in_known : charsetOf inEncode = some source)
    (input : Str) :
    ∃ out, converter charsetOf outEncode inEncode input = some out ∧
      Converts ⟨source, target⟩ (start ⟨source, target⟩) input out := by
  have opened : iconvOpen charsetOf outEncode inEncode = some ⟨source, target⟩ := by
    simp [iconvOpen, out_known, in_known]
  obtain ⟨out, ended, converted⟩ := convertLoop_converts (by decide : 16 ≤ 1024) input.length
    (start ⟨source, target⟩) input (Nat.le_refl _)
  exact ⟨out, by rw [converter, opened, Option.bind_some, ended], converted⟩

end Converter

/-! ### `tryConvertEncoding` -/

section TryConvert

variable {Symbol : Type} {charsetOf : Str → Option (Charset Symbol)} {env : Env} {src dst : Str}
  {S D : Charset Symbol} {t : List Symbol} {inSrc inDst : Str}

/-- The bytes of a text in its charset are read in the charset that was asked for. -/
theorem tryConvertEncoding_spells (converts : env.iconv = converter charsetOf)
    (source : charsetOf src = some S) (target : charsetOf dst = some D) (input goal : Str) :
    tryConvertEncoding env input src dst = goal ↔
      ∃ u, Spells ⟨D, S⟩ (start ⟨D, S⟩) input u ∧ S.encode u = some goal := by
  obtain ⟨out, converted, result⟩ := converter_converts source target input
  rw [tryConvertEncoding, converts, converted, Option.getD_some]
  exact converts_iff result goal

/-- A text with the same bytes in both charsets is converted. -/
theorem tryConvertEncoding_same (converts : env.iconv = converter charsetOf)
    (source : charsetOf src = some S) (target : charsetOf dst = some D)
    (written : S.encode t = some inSrc) (written' : D.encode t = some inSrc) :
    tryConvertEncoding env inSrc src dst = inSrc :=
  (tryConvertEncoding_spells converts source target inSrc inSrc).mpr
    ⟨t, spells_encode written' written, written⟩

/-- The body of a plain text is what the conversion to UTF-8 gives. -/
theorem body_plain {url : Url} {lang : Option Str} {input : Str} {doc : Document}
    (processed : processBody env url (lit "text/plain") (some src) lang input = .ok doc) :
    doc.body = tryConvertEncoding env input src (lit "utf-8") := by
  have no_gemini : lit "text/plain" ≠ lit "text/gemini" := by decide
  unfold processBody at processed
  simp only [no_gemini, if_false, true_or, if_true] at processed
  split at processed
  · cases processed
  · cases processed
    rfl

/-- To a wider charset the conversion, which goes the other way round, gives the text in that
charset only if its bytes were these already. -/
theorem tryConvertEncoding_narrower (converts : env.iconv = converter charsetOf)
    (source : charsetOf src = some S) (target : charsetOf dst = some D)
    (written : S.encode t = some inSrc) (written' : D.encode t = some inDst)
    (narrower : S.Narrower D) :
    tryConvertEncoding env inSrc src dst = inDst ↔ inSrc = inDst := by
  constructor
  · intro converted
    obtain ⟨u, spells, encoded⟩ :=
      (tryConvertEncoding_spells converts source target inSrc inDst).mp converted
    exact spells.same_bytes narrower encoded written written' (Nat.le_refl _)
  · rintro rfl
    exact tryConvertEncoding_same converts source target written written'

/-- The conversion goes the other way round. A text with the same bytes in both charsets comes out
as it should, and from a charset that is narrower than the other, as Latin-1 is than UTF-8, no other
text does. The same is true of the body that is indexed for a plain text. -/
theorem tryConvertEncoding_iff (converts : env.iconv = converter charsetOf)
    (source : charsetOf src = some S) (target : charsetOf dst = some D)
    (written : S.encode t = some inSrc) (written' : D.encode t = some inDst) :
    (inSrc = inDst → tryConvertEncoding env inSrc src dst = inDst) ∧
      (S.Narrower D → (tryConvertEncoding env inSrc src dst = inDst ↔ inSrc = inDst)) ∧
      ∀ url lang doc, dst = lit "utf-8" →
        processBody env url (lit "text/plain") (some src) lang inSrc = .ok doc →
        (inSrc = inDst → doc.body = inDst) ∧
          (S.Narrower D → (doc.body = inDst ↔ inSrc = inDst)) := by
  have same : inSrc = inDst → tryConvertEncoding env inSrc src dst = inDst := by
    rintro rfl
    exact tryConvertEncoding_same converts source target written written'
  have only : S.Narrower D → (tryConvertEncoding env inSrc src dst = inDst ↔ inSrc = inDst) :=
    tryConvertEncoding_narrower converts source target written written'
  refine ⟨same, only, ?_⟩
  rintro url lang doc rfl processed
  have body : doc.body = tryConvertEncoding env inSrc src (lit "utf-8") := body_plain processed
  rw [body]
  exact ⟨same, only⟩

end TryConvert

/-! ### The charsets of ISO 8859-1 and 8859-15, and UTF-8 -/

/-- Single bytes. Those of the table have the characters there, the others the ones of Latin-1. -/
def latin (table : List (UInt8 × Char))
    (apart : ∀ e ∈ table, table.find? (·.1 = e.1) = some e) : Charset Char where
  State := Unit
  start := ()
  write _ c :=
    match table.find? (·.2 = c) with
    | some (b, _) => some ([b], ())
    | none =>
      if c.toNat < 256 ∧ table.find? (·.1 = UInt8.ofNat c.toNat) = none then
        some ([UInt8.ofNat c.toNat], ())
      else none
  read _ input :=
    match input with
    | [] => none
    | b :: rest =>
      match table.find? (·.1 = b) with
      | some (_, c) => some (c, rest, ())
      | none => some (Char.ofNat b.toNat, rest, ())
  short := by
    intro s c w s' writes
    split at writes
    · cases writes
      exact Nat.le_of_ble_eq_true rfl
    · split at writes
      · cases writes
        exact Nat.le_of_ble_eq_true rfl
      · cases writes
  read_write := by
    intro s c w s' writes rest
    split at writes
    next b c' found =>
      cases writes
      have listed := apart _ (List.mem_of_find?_eq_some found)
      have same : c' = c := by simpa using List.find?_some found
      subst same
      simp only [List.cons_append, List.nil_append, listed]
    next =>
      split at writes
      next small =>
        cases writes
        simp [small.2, Nat.mod_eq_of_lt small.1]
      · cases writes
  shrinks := by
    intro s input c rest s' reads
    cases input with
    | nil => cases reads
    | cons b input =>
      dsimp only at reads
      split at reads
      all_goals
        cases reads
        exact Nat.lt_succ_self _

def latin1 : Charset Char := latin [] (by simp)

def latin9 : Charset Char :=
  latin [(0xa4, '€'), (0xa6, 'Š'), (0xa8, 'š'), (0xb4, 'Ž'), (0xb8, 'ž'), (0xbc, 'Œ'), (0xbd, 'œ'),
    (0xbe, 'Ÿ')] (by decide)

def utf8 : Charset Char where
  State := Unit
  start := ()
  write _ c := some (String.utf8EncodeChar c, ())
  read _ input := (input.toByteArray.utf8DecodeChar? 0).map fun c => (c, input.drop c.utf8Size, ())
  short := by
    intro s c w s' writes
    cases writes
    have size := c.utf8Size_le_four
    rw [String.length_utf8EncodeChar]
    omega
  read_write := by
    intro s c w s' writes rest
    cases writes
    rw [List.toByteArray_append, ByteArray.utf8DecodeChar?_utf8EncodeChar_append]
    simp [← String.length_utf8EncodeChar]
  shrinks := by
    intro s input c rest s' reads
    obtain ⟨c, decoded, same⟩ := Option.map_eq_some_iff.mp reads
    cases same
    have size := ByteArray.le_size_of_utf8DecodeChar?_eq_some decoded
    have positive := c.utf8Size_pos
    rw [List.size_toByteArray] at size
    rw [List.length_drop]
    omega

def someCharsets (name : Str) : Option (Charset Char) :=
  if name = lit "latin1" then some latin1
  else if name = lit "latin9" then some latin9
  else if name = lit "utf-8" then some utf8
  else none

/-- Latin-1 is narrower than UTF-8. -/
theorem latin1_narrower : latin1.Narrower utf8 := by
  apply Charset.Narrower.of_single
  · intro s c w s' writes
    simp only [latin1, latin, List.find?_nil] at writes
    split at writes
    · cases writes
      rfl
    · cases writes
  · -- one byte in UTF-8 is ASCII, which Latin-1 writes alike
    intro s c w s' writes one d
    cases writes
    have size : c.utf8Size = 1 := by rwa [String.length_utf8EncodeChar] at one
    have ascii : c.toNat ≤ 127 := by
      simpa [UInt32.le_iff_toNat_le] using Char.utf8Size_eq_one_iff.mp size
    have small : c.toNat < 256 := by omega
    refine ⟨(), ?_⟩
    rw [String.utf8EncodeChar_eq_singleton size]
    simp only [latin1, latin, List.find?_nil, small, and_self, if_true]
    rfl

/-- "é" has the same byte in Latin-1 and in Latin-9, and others in UTF-8. -/
theorem tryConvertEncoding_iff_accent :
    let env := { Env.small with iconv := converter someCharsets }
    tryConvertEncoding env [233] (lit "latin1") (lit "latin9") = [233] ∧
      tryConvertEncoding env [233] (lit "latin1") (lit "utf-8") ≠ [195, 169] := by
  intro env
  have source : someCharsets (lit "latin1") = some latin1 := if_pos rfl
  have latin9_known : someCharsets (lit "latin9") = some latin9 :=
    (if_neg (by decide)).trans (if_pos rfl)
  have utf8_known : someCharsets (lit "utf-8") = some utf8 :=
    (if_neg (by decide)).trans ((if_neg (by decide)).trans (if_pos rfl))
  have written : latin1.encode ['é'] = some [233] := by decide
  have converts : env.iconv = converter someCharsets := rfl
  -- the same byte in both charsets comes out right, another one does not
  constructor
  · apply (tryConvertEncoding_iff (D := latin9) converts source latin9_known written
      (by decide)).1
    rfl
  · apply mt ((tryConvertEncoding_iff (D := utf8) converts source utf8_known written
      (by decide)).2.1 latin1_narrower).mp
    decide

/-- "é" in Latin-1 is no UTF-8, and nothing is left of it. -/
theorem latin1_lost :
    let env := { Env.small with iconv := converter someCharsets }
    latin1.encode [Char.ofNat 233] = some [233] ∧ utf8.encode [Char.ofNat 233] = some [195, 169] ∧
      tryConvertEncoding env [233] (lit "latin1") (lit "utf-8") = [] ∧
      tryConvertEncoding env [233] (lit "latin1") (lit "utf-8") ≠ [195, 169] := by
  decide

end Tlgs
