import Mathlib.Data.List.Basic

/-!
# Charsets and their conversion

A charset writes the characters of a text one after another and reads them back, perhaps with a
shift state. A conversion reads a character in one charset and writes it in another. It stops at the
end, where the input has no character that the target has too, or where the output has no room left.
What a conversion makes of an input whose illegal bytes are skipped does not depend on the room.
-/
namespace Charsets

structure Charset (Symbol : Type) where
  State : Type
  start : State
  write : State → Symbol → Option (List UInt8 × State)
  read : State → List UInt8 → Option (Symbol × List UInt8 × State)
  /-- No character takes more bytes than `MB_LEN_MAX`. -/
  short : ∀ {s c w s'}, write s c = some (w, s') → w.length ≤ 16
  read_write : ∀ {s c w s'}, write s c = some (w, s') →
  ∀ rest, read s (w ++ rest) = some (c, rest, s')
  shrinks : ∀ {s input c rest s'}, read s input = some (c, rest, s') → rest.length < input.length

variable {Symbol : Type}

namespace Charset

variable (charset : Charset Symbol)

def encodeFrom : charset.State → List Symbol → Option (List UInt8)
  | _, [] => some []
  | s, c :: t => (charset.write s c).bind fun (w, s') => (encodeFrom s' t).map (w ++ ·)

/-- A text in the charset, if it is representable. -/
def encode (t : List Symbol) : Option (List UInt8) := charset.encodeFrom charset.start t

/-- Every character takes one byte. -/
def SingleByte : Prop := ∀ s c w s', charset.write s c = some (w, s') → w.length = 1

/-- The characters of one byte have the same byte in the other charset. -/
def Extends (other charset : Charset Symbol) : Prop :=
  ∀ s c w s', charset.write s c = some (w, s') → w.length = 1 →
    ∀ d, ∃ d', other.write d c = some (w, d')

/-- No character takes more bytes than the wider charset reads for it. One that takes as many has
the same bytes there, or bytes at which the wider charset reads no character. -/
structure Narrower (charset wider : Charset Symbol) : Prop where
  shorter : ∀ {s input c rest s'}, wider.read s input = some (c, rest, s') →
    ∀ {d w d'}, charset.write d c = some (w, d') → w.length + rest.length ≤ input.length
  apart : ∀ {d c w d' s v s'}, charset.write d c = some (w, d') →
    wider.write s c = some (v, s') → w.length = v.length →
    w = v ∨ ∀ rest, wider.read s (w ++ rest) = none

variable {charset} {s : charset.State} {t : List Symbol} {bytes : List UInt8}

theorem write_pos {c : Symbol} {w : List UInt8} {s' : charset.State}
    (writes : charset.write s c = some (w, s')) :
    0 < w.length := by
  have shrinks := charset.shrinks (charset.read_write writes [])
  simpa using shrinks

/-- The first character of a text and the others. -/
theorem encodeFrom_cons {c : Symbol} (encoded : charset.encodeFrom s (c :: t) = some bytes) :
    ∃ w s' tail, charset.write s c = some (w, s') ∧ charset.encodeFrom s' t = some tail ∧
      bytes = w ++ tail := by
  obtain ⟨⟨w, s'⟩, writes, others⟩ := Option.bind_eq_some_iff.mp encoded
  obtain ⟨tail, written, rfl⟩ := Option.map_eq_some_iff.mp others
  exact ⟨w, s', tail, writes, written, rfl⟩

/-! ### Single bytes and shorter charsets -/

variable {wider : Charset Symbol} {r : wider.State} {bytes' : List UInt8}

theorem Narrower.of_single (single : charset.SingleByte) (extend : Extends charset wider) :
    charset.Narrower wider where
  shorter reads _ _ _ writes := by
    have shrinks := wider.shrinks reads
    rw [single _ _ _ _ writes]
    omega
  apart writes writes' same := by
    left
    obtain ⟨_, writes''⟩ := extend _ _ _ _ writes' (same ▸ single _ _ _ _ writes) _
    cases writes.symm.trans writes''
    rfl

theorem Narrower.write_le (narrower : charset.Narrower wider) {c : Symbol} {w v : List UInt8}
    {s' : charset.State} {r' : wider.State} (writes : charset.write s c = some (w, s'))
    (writes' : wider.write r c = some (v, r')) : w.length ≤ v.length := by
  have shorter := narrower.shorter (wider.read_write writes' []) writes
  simpa using shorter

theorem Narrower.encodeFrom_le (narrower : charset.Narrower wider)
    (encoded : charset.encodeFrom s t = some bytes)
    (encoded' : wider.encodeFrom r t = some bytes') : bytes.length ≤ bytes'.length := by
  induction t generalizing s r bytes bytes' with
  | nil =>
    cases encoded
    exact Nat.zero_le _
  | cons c t ih =>
    obtain ⟨w, s', tail, writes, written, rfl⟩ := encodeFrom_cons encoded
    obtain ⟨v, r', tail', writes', written', rfl⟩ := encodeFrom_cons encoded'
    have first := narrower.write_le writes writes'
    have others := ih written written'
    rw [List.length_append, List.length_append]
    exact Nat.add_le_add first others

end Charset

/-! ### One character after another -/

structure Conversion (Symbol : Type) where
  source : Charset Symbol
  target : Charset Symbol

namespace Conversion

variable (cv : Conversion Symbol)

abbrev State := cv.source.State × cv.target.State

def start : cv.State := (cv.source.start, cv.target.start)

/-- The next character: what is written, and the input that is left. -/
def step (s : cv.State) (input : List UInt8) : Option (List UInt8 × List UInt8 × cv.State) :=
  (cv.source.read s.1 input).bind fun (c, rest, r) =>
    (cv.target.write s.2 c).map fun (w, d) => (w, rest, (r, d))

/-- Why a conversion stops: the input is used up, `E2BIG`, or one of `EILSEQ` and `EINVAL`. -/
inductive Stop
  | done
  | noRoom
  | illegal
  deriving DecidableEq, Repr

structure Chunk where
  stop : Stop
  written : List UInt8
  rest : List UInt8
  state : cv.State

/-- `iconv`, with room for so many bytes. Every character makes the input shorter, so that its
length is enough fuel. -/
def iconv : Nat → cv.State → List UInt8 → Nat → cv.Chunk
  | 0, s, input, _ => ⟨.done, [], input, s⟩
  | fuel + 1, s, input, room =>
    if input = [] then ⟨.done, [], [], s⟩
    else
      match cv.step s input with
      | none => ⟨.illegal, [], input, s⟩
      | some (w, rest, s') =>
        if w.length ≤ room then
          let more := iconv fuel s' rest (room - w.length)
          { more with written := w ++ more.written }
        else ⟨.noRoom, [], input, s⟩

/-- The text that an input spells. A byte at which no character begins that the target has is left
out. -/
inductive Spells : cv.State → List UInt8 → List Symbol → Prop
  | nil (s : cv.State) : Spells s [] []
  | char {s : cv.State} {input rest w : List UInt8} {c : Symbol} {r : cv.source.State}
    {d : cv.target.State}
      {u : List Symbol} (reads : cv.source.read s.1 input = some (c, rest, r))
      (writes : cv.target.write s.2 c = some (w, d)) (spells : Spells (r, d) rest u) :
        Spells s input (c :: u)
  | skip {s : cv.State} {b : UInt8} {rest : List UInt8} {u : List Symbol}
    (illegal : cv.step s (b :: rest) = none)
      (spells : Spells s rest u) : Spells s (b :: rest) u

variable {cv} {s s' : cv.State} {input rest w : List UInt8}

theorem step_shrinks (stepped : cv.step s input = some (w, rest, s')) :
    rest.length < input.length := by
  obtain ⟨⟨c, rest', r⟩, reads, stepped⟩ := Option.bind_eq_some_iff.mp stepped
  obtain ⟨⟨w', d⟩, writes, same⟩ := Option.map_eq_some_iff.mp stepped
  cases same
  exact cv.source.shrinks reads

theorem step_short (stepped : cv.step s input = some (w, rest, s')) : w.length ≤ 16 := by
  obtain ⟨⟨c, rest', r⟩, reads, stepped⟩ := Option.bind_eq_some_iff.mp stepped
  obtain ⟨⟨w', d⟩, writes, same⟩ := Option.map_eq_some_iff.mp stepped
  cases same
  exact cv.target.short writes

/-! ### The text and its bytes -/

theorem Spells.unique {u u' : List Symbol} (spells : cv.Spells s input u)
    (spells' : cv.Spells s input u') :
    u = u' := by
  induction spells generalizing u' with
  | nil s =>
    cases spells' with
    | nil => rfl
    | char reads _ _ => exact absurd (cv.source.shrinks reads) (Nat.not_lt_zero _)
  | char reads writes _ ih =>
    -- what can be read and written is not skipped
    cases spells' with
    | nil => exact absurd (cv.source.shrinks reads) (Nat.not_lt_zero _)
    | char reads' writes' spells' =>
      cases reads.symm.trans reads'
      cases writes.symm.trans writes'
      rw [ih spells']
    | skip illegal _ => simp [step, reads, writes] at illegal
  | skip illegal _ ih =>
    cases spells' with
    | char reads writes _ => simp [step, reads, writes] at illegal
    | skip _ spells' => exact ih spells'

/-- What a narrower charset makes of an input is no longer than the input. -/
theorem Spells.length_le (narrower : cv.target.Narrower cv.source) {u : List Symbol}
    {out : List UInt8} (spells : cv.Spells s input u)
    (encoded : cv.target.encodeFrom s.2 u = some out) : out.length ≤ input.length := by
  induction spells generalizing out with
  | nil =>
    cases encoded
    exact Nat.le_refl _
  | char reads writes _ ih =>
    obtain ⟨w, d, tail, writes', written, rfl⟩ := Charset.encodeFrom_cons encoded
    cases writes.symm.trans writes'
    have first := narrower.shorter reads writes
    have others := ih written
    rw [List.length_append]
    omega
  | skip _ _ ih => exact Nat.le_succ_of_le (ih encoded)

/-- What comes of an input: the bytes in the target of the text that it spells. -/
def Converts (cv : Conversion Symbol) (s : cv.State) (input out : List UInt8) : Prop :=
  ∃ u, cv.Spells s input u ∧ cv.target.encodeFrom s.2 u = some out

theorem Converts.nil (s : cv.State) : cv.Converts s [] [] := ⟨[], .nil s, rfl⟩

theorem Converts.step {out : List UInt8} (stepped : cv.step s input = some (w, rest, s'))
    (converts : cv.Converts s' rest out) : cv.Converts s input (w ++ out) := by
  obtain ⟨⟨c, rest', r⟩, reads, stepped⟩ := Option.bind_eq_some_iff.mp stepped
  obtain ⟨⟨w', d⟩, writes, same⟩ := Option.map_eq_some_iff.mp stepped
  cases same
  obtain ⟨u, spells, encoded⟩ := converts
  refine ⟨c :: u, .char reads writes spells, ?_⟩
  simp only at encoded
  simp [Charset.encodeFrom, writes, encoded]

theorem Converts.skip {b : UInt8} {out : List UInt8} (illegal : cv.step s (b :: rest) = none)
    (converts : cv.Converts s rest out) : cv.Converts s (b :: rest) out := by
  obtain ⟨u, spells, encoded⟩ := converts
  exact ⟨u, .skip illegal spells, encoded⟩

theorem converts_iff {out : List UInt8} (converts : cv.Converts s input out) (goal : List UInt8) :
    out = goal ↔ ∃ u, cv.Spells s input u ∧ cv.target.encodeFrom s.2 u = some goal := by
  constructor
  · rintro rfl
    exact converts
  · rintro ⟨u', spells', encoded'⟩
    -- the input spells one text only
    obtain ⟨u, spells, encoded⟩ := converts
    rw [spells.unique spells', encoded'] at encoded
    exact (Option.some.inj encoded).symm

/-- A text that both charsets have is spelt by its own bytes. -/
theorem spells_encode {t : List Symbol} {bytes bytes' : List UInt8}
    (encoded : cv.source.encodeFrom s.1 t = some bytes)
    (encoded' : cv.target.encodeFrom s.2 t = some bytes') :
    cv.Spells s bytes t := by
  induction t generalizing s bytes bytes' with
  | nil =>
    cases encoded
    exact .nil s
  | cons c t ih =>
    obtain ⟨w, r, tail, writes, written, rfl⟩ := Charset.encodeFrom_cons encoded
    obtain ⟨w', d, tail', writes', written', rfl⟩ := Charset.encodeFrom_cons encoded'
    exact .char (cv.source.read_write writes tail) writes' (ih (s := (r, d)) written written')

/-- Where a text comes out of the bytes that it has in the narrower charset as the bytes that it
has in the wider one, both are the same: no byte of the input can have been lost on the way. -/
theorem Spells.same_bytes (narrower : cv.target.Narrower cv.source) {t u : List Symbol}
    {e : cv.target.State} {bytes bytes' out : List UInt8} (spells : cv.Spells s bytes u)
    (encoded : cv.target.encodeFrom s.2 u = some out)
    (written : cv.target.encodeFrom e t = some bytes)
    (written' : cv.source.encodeFrom s.1 t = some bytes') (long : bytes'.length ≤ out.length) :
    bytes = bytes' := by
  induction t generalizing s u e bytes bytes' out with
  | nil =>
    cases written
    cases written'
    rfl
  | cons c t ih =>
    have enough := spells.length_le narrower encoded
    obtain ⟨w, e', tail, writes, others, rfl⟩ := Charset.encodeFrom_cons written
    obtain ⟨v, r', tail', writes', others', rfl⟩ := Charset.encodeFrom_cons written'
    have first := narrower.write_le writes writes'
    have rest := narrower.encodeFrom_le others others'
    have positive := Charset.write_pos writes
    simp only [List.length_append] at enough long
    generalize input : w ++ tail = bytes at spells
    cases spells with
    | nil =>
      have length := congrArg List.length input
      simp only [List.length_append, List.length_nil] at length
      omega
    | skip illegal spells =>
      -- what is skipped is missing in the end
      have fewer := spells.length_le narrower encoded
      have length := congrArg List.length input
      simp only [List.length_append, List.length_cons] at length
      omega
    | char reads written spells =>
      obtain ⟨x, d', out', written', encoded', rfl⟩ := Charset.encodeFrom_cons encoded
      cases written.symm.trans written'
      subst input
      have read := narrower.shorter reads written
      obtain rfl | nothing := narrower.apart writes writes' (by omega)
      · cases reads.symm.trans (cv.source.read_write writes' tail)
        simp only [List.length_append] at read long
        rw [ih spells encoded' others others' (by omega)]
      · rw [nothing tail] at reads
        cases reads

/-! ### Chunks -/

/-- What `iconv` leaves comes after what it wrote. It has used up the input, or stopped at no
character, or written something unless there was no room for a character at all. -/
theorem iconv_converts (fuel : Nat) (s : cv.State) (input : List UInt8) (room : Nat)
    (enough : input.length ≤ fuel) :
    let chunk := cv.iconv fuel s input room
    (∀ out, cv.Converts chunk.state chunk.rest out → cv.Converts s input (chunk.written ++ out)) ∧
      chunk.rest.length ≤ input.length ∧
      (chunk.stop = .done → chunk.rest = []) ∧
      (chunk.stop = .illegal → chunk.rest ≠ [] ∧ cv.step chunk.state chunk.rest = none) ∧
      (chunk.stop = .noRoom → 16 ≤ room → chunk.rest.length < input.length) := by
  induction fuel generalizing s input room with
  | zero =>
    have empty : input = [] := List.length_eq_zero_iff.mp (Nat.le_zero.mp enough)
    subst empty
    simp [iconv]
  | succ fuel ih =>
    simp only [iconv]
    split
    next empty =>
      subst empty
      simp
    next more =>
      cases stepped : cv.step s input with
      | none => simp [more, stepped]
      | some result =>
        obtain ⟨w, rest, s'⟩ := result
        have shorter := step_shrinks stepped
        have short := step_short stepped
        simp only
        split
        · -- the character is written, and the rest converted
          obtain ⟨converts, fewer, done, illegal, noRoom⟩ :=
            ih s' rest (room - w.length) (by omega)
          refine ⟨fun out converted => ?_, by simp only; omega, done, illegal, fun _ _ => by
            simp only; omega⟩
          rw [List.append_assoc]
          exact Converts.step stepped (converts out converted)
        next full =>
          refine ⟨fun out converted => converted, Nat.le_refl _, nofun, nofun, fun _ room => ?_⟩
          omega

end Conversion

end Charsets
