import Tlgs.Crawler.Page

/-!
# The parameters of a MIME type

Where the three scans of a round of `parseMime` stop. Parameters that are written out are read back.
The scans move on before they look, so that behind a last semicolon with nothing but blanks they
run past the end.
-/
namespace Tlgs

open Bytes

/-! ### Rounds -/

/-- The indices that a round of the loop computes. -/
structure MimeRound where
  keyBegin : Nat
  keyEnd : Nat
  valueEnd : Nat
  deriving DecidableEq, Repr

def mimeRound (mime : Str) (idx : Nat) : MimeRound :=
  let keyBegin := advance (fun c => c != 32 && c != 9) mime idx
  let keyEnd := advance (· == 61) mime keyBegin
  ⟨keyBegin, keyEnd, advance (· == 59) mime keyEnd⟩

/-- The rounds of the loop from `idx` on; `none` if it has not ended when the fuel is used up. -/
def mimeRounds (mime : Str) : Nat → Nat → Option (List MimeRound)
  | 0, idx => if mime.length ≤ idx then some [] else none
  | fuel + 1, idx =>
    if mime.length ≤ idx then some []
    else (mimeRounds mime fuel (mimeRound mime idx).valueEnd).map (mimeRound mime idx :: ·)

/-- The key and the value that a round builds. -/
def MimeRound.slices (mime : Str) (r : MimeRound) : Str × Str :=
  (bufferSlice mime r.keyBegin r.keyEnd, bufferSlice mime (r.keyEnd + 1) r.valueEnd)

theorem lt_advance (stop : UInt8 → Bool) (mime : Str) (idx : Nat) :
    idx < advance stop mime idx := by
  simp only [advance]
  omega

theorem lt_valueEnd (mime : Str) (idx : Nat) : idx < (mimeRound mime idx).valueEnd :=
  ((lt_advance _ mime idx).trans (lt_advance _ mime _)).trans (lt_advance _ mime _)

/-- The loop ends. -/
theorem mimeRounds_ends {mime : Str} {fuel idx : Nat} (enough : mime.length ≤ fuel + idx) :
    ∃ rounds, mimeRounds mime fuel idx = some rounds ∧
      parseMimeParams mime fuel idx = rounds.map (MimeRound.slices mime) := by
  induction fuel generalizing idx with
  | zero => exact ⟨[], if_pos (by omega), rfl⟩
  | succ fuel ih =>
    rw [mimeRounds, parseMimeParams]
    split
    · exact ⟨[], rfl, rfl⟩
    · have moved := lt_valueEnd mime idx
      obtain ⟨rounds, ended, built⟩ :=
        ih (show mime.length ≤ fuel + (mimeRound mime idx).valueEnd by omega)
      refine ⟨mimeRound mime idx :: rounds, by rw [ended, Option.map_some], ?_⟩
      exact congrArg ((mimeRound mime idx).slices mime :: ·) built

/-- A scan over a run of characters up to one that stops it, or up to the end. -/
theorem advance_run {stop : UInt8 → Bool} {mime pre run : Str} (c : UInt8) (rest : Str)
    (text : mime = pre ++ c :: (run ++ rest)) (runs : ∀ x ∈ run, stop x = false)
    (stops : ∀ x ∈ rest.head?, stop x = true) :
    advance stop mime pre.length = (pre ++ c :: run).length := by
  have behind : mime.drop (pre.length + 1) = run ++ rest := by simp [text]
  have none : rest.takeWhile (fun x => !stop x) = [] := by
    cases rest with
    | nil => rfl
    | cons x rest => simp [stops x rfl]
  rw [advance, behind, List.takeWhile_append_of_pos (by simpa using runs), none, List.append_nil,
    List.length_append, List.length_cons]
  omega

theorem advance_past {stop : UInt8 → Bool} {mime : Str} {idx : Nat} (past : mime.length ≤ idx + 1) :
    advance stop mime idx = idx + 1 := by
  simp [advance, past]

theorem bufferSlice_run {mime pre run : Str} (rest : Str) (text : mime = pre ++ run ++ rest) :
    bufferSlice mime pre.length (pre ++ run).length = run := by
  simp [bufferSlice, text]

/-! ### Parameters as they are written -/

def blankOrTab (c : UInt8) : Bool := c == 32 || c == 9

structure MimeParam where
  blanks : Str
  key : Str
  value : Str
  deriving DecidableEq, Repr

namespace MimeParam

def text (p : MimeParam) : Str := 59 :: (p.blanks ++ (p.key ++ 61 :: p.value))

/-- What a round takes for a parameter: the first character of the key may be anything but a
blank. -/
structure Complete (p : MimeParam) : Prop where
  blanks : ∀ c ∈ p.blanks, blankOrTab c = true
  key : ∃ first tail, p.key = first :: tail ∧ blankOrTab first = false ∧ 61 ∉ tail
  value : 59 ∉ p.value

end MimeParam

def renderMime (t : Str) (params : List MimeParam) : Str := t ++ params.flatMap MimeParam.text

/-- The first scan stops behind the semicolon and the blanks. -/
private theorem keyBegin_run {mime pre blanks : Str} (rest : Str)
    (text : mime = pre ++ 59 :: (blanks ++ rest)) (blank : ∀ c ∈ blanks, blankOrTab c = true)
    (visible : ∀ x ∈ rest.head?, blankOrTab x = false) :
    advance (fun c => c != 32 && c != 9) mime pre.length = (pre ++ 59 :: blanks).length := by
  refine advance_run 59 rest text (fun x member => ?_) (fun x member => ?_)
  · simpa [blankOrTab, or_iff_not_imp_left] using blank x member
  · simpa [blankOrTab] using visible x member

theorem mimeRound_text {p : MimeParam} (complete : p.Complete) (pre : Str) {rest : Str}
    (next : ∀ x ∈ rest.head?, x = 59) :
    mimeRound (pre ++ p.text ++ rest) pre.length =
      ⟨(pre ++ 59 :: p.blanks).length, (pre ++ 59 :: p.blanks ++ p.key).length,
        (pre ++ p.text).length⟩ := by
  obtain ⟨first, tail, key, visible, plain⟩ := complete.key
  -- the three scans, each of them up to the mark that ends it
  have keyBegin : advance (fun c => c != 32 && c != 9) (pre ++ p.text ++ rest) pre.length =
      (pre ++ 59 :: p.blanks).length :=
    keyBegin_run (p.key ++ 61 :: p.value ++ rest) (by simp [MimeParam.text]) complete.blanks
      (by simpa [key] using visible)
  have keyEnd : advance (· == 61) (pre ++ p.text ++ rest) (pre ++ 59 :: p.blanks).length =
      (pre ++ 59 :: p.blanks ++ p.key).length := by
    rw [key]
    refine advance_run first (61 :: p.value ++ rest) (by simp [MimeParam.text, key])
      (fun x member => ?_) (by simp)
    simpa using fun same : x = 61 => plain (same ▸ member)
  have valueEnd : advance (· == 59) (pre ++ p.text ++ rest)
      (pre ++ 59 :: p.blanks ++ p.key).length =
      (pre ++ p.text).length := by
    have written : pre ++ p.text = pre ++ 59 :: p.blanks ++ p.key ++ 61 :: p.value := by
      simp [MimeParam.text]
    rw [written]
    refine advance_run 61 rest (by simp) (fun x member => ?_) (fun x member => ?_)
    · simpa using fun same : x = 59 => complete.value (same ▸ member)
    · simpa using next x member
  rw [mimeRound, keyBegin, keyEnd, valueEnd]

/-- The key and the value are read back. -/
theorem slices_text {p : MimeParam} (complete : p.Complete) (pre : Str) {rest : Str}
    (next : ∀ x ∈ rest.head?, x = 59) :
    (mimeRound (pre ++ p.text ++ rest) pre.length).slices (pre ++ p.text ++ rest) =
      (p.key, p.value) := by
  have key : bufferSlice (pre ++ p.text ++ rest) (pre ++ 59 :: p.blanks).length
      (pre ++ 59 :: p.blanks ++ p.key).length = p.key :=
    bufferSlice_run (61 :: p.value ++ rest) (by simp [MimeParam.text])
  have value : bufferSlice (pre ++ p.text ++ rest) (pre ++ 59 :: p.blanks ++ p.key ++ [61]).length
      (pre ++ 59 :: p.blanks ++ p.key ++ [61] ++ p.value).length = p.value :=
    bufferSlice_run rest (by simp [MimeParam.text])
  have valueBegin : (pre ++ 59 :: p.blanks ++ p.key).length + 1 =
      (pre ++ 59 :: p.blanks ++ p.key ++ [61]).length := by
    simp only [List.length_append, List.length_singleton]
  have valueEnd : (pre ++ p.text).length =
      (pre ++ 59 :: p.blanks ++ p.key ++ [61] ++ p.value).length := by
    simp [MimeParam.text]
  rw [mimeRound_text complete pre next, MimeRound.slices, valueBegin, valueEnd, value, key]

/-! ### Reading parameters back -/

theorem head?_params (params : List MimeParam) :
    ∀ x ∈ (params.flatMap MimeParam.text).head?, x = 59 := by
  cases params with
  | nil => simp
  | cons p params => simp [MimeParam.text]

theorem length_le_params (params : List MimeParam) :
    params.length ≤ (params.flatMap MimeParam.text).length := by
  induction params with
  | nil => exact Nat.le_refl 0
  | cons p params ih =>
    simp only [List.flatMap_cons, List.length_append, List.length_cons, MimeParam.text]
    omega

theorem parseMimeParams_render {params : List MimeParam} (complete : ∀ p ∈ params, p.Complete)
    (pre : Str) {fuel : Nat} (enough : params.length ≤ fuel) :
    parseMimeParams (pre ++ params.flatMap MimeParam.text) fuel pre.length =
      params.map fun p => (p.key, p.value) := by
  induction params generalizing pre fuel with
  | nil => cases fuel <;> simp [parseMimeParams]
  | cons p params ih =>
    obtain ⟨first, others⟩ := List.forall_mem_cons.mp complete
    obtain ⟨fuel, rfl⟩ : ∃ fuel', fuel = fuel' + 1 :=
      ⟨fuel - 1, by rw [List.length_cons] at enough; omega⟩
    have more : ¬(pre ++ p.text ++ params.flatMap MimeParam.text).length ≤ pre.length := by
      simp [MimeParam.text]
    -- the position is the length of what was read
    have slices := slices_text first pre (head?_params params)
    have moved := congrArg MimeRound.valueEnd (mimeRound_text first pre (head?_params params))
    rw [List.flatMap_cons, ← List.append_assoc, parseMimeParams, if_neg more, List.map_cons,
      ← ih others (pre ++ p.text) (Nat.le_of_succ_le_succ enough)]
    exact congrArg₂ List.cons slices (congrArg (parseMimeParams _ fuel) moved)

/-- Every key has the value it was given last. -/
private theorem mimeParam_last (params : List MimeParam) (key : Str) :
    mimeParam (params.map fun p => (p.key, p.value)) key =
      ((params.filter fun p => p.key = key).getLast?).map MimeParam.value := by
  induction params using List.reverseRecOn with
  | nil => rfl
  | append_singleton params p ih =>
    rw [mimeParam] at ih ⊢
    by_cases same : p.key = key
    · simp [same]
    · have other : (key == p.key) = false := by simpa using Ne.symm same
      simpa [same, other, List.lookup_cons] using ih

/-- Parameters as they should be. -/
structure MimeParam.Proper (p : MimeParam) : Prop where
  blanks : ∀ c ∈ p.blanks, blankOrTab c = true
  some_key : p.key ≠ []
  visible : ∀ first ∈ p.key.head?, blankOrTab first = false
  key : ∀ c ∈ p.key, c ≠ 61 ∧ c ≠ 59
  value : 59 ∉ p.value

theorem MimeParam.Proper.complete {p : MimeParam} (proper : p.Proper) : p.Complete := by
  refine ⟨proper.blanks, ?_, proper.value⟩
  cases key : p.key with
  | nil => exact absurd key proper.some_key
  | cons first tail =>
    refine ⟨first, tail, rfl, proper.visible first (by simp [key]), fun member => ?_⟩
    exact (proper.key 61 (by simp [key, member])).1 rfl

/-- A type with parameters is read back, each key with its last value. -/
theorem parseMime_render {t : Str} {params : List MimeParam} (type : 59 ∉ t)
    (proper : ∀ p ∈ params, p.Proper) :
    (parseMime (renderMime t params)).1 = t ∧
      ∀ key, mimeParam (parseMime (renderMime t params)).2 key =
        ((params.filter fun p => p.key = key).getLast?).map MimeParam.value := by
  have mimeStr : (renderMime t params).takeWhile (· != 59) = t := by
    have none : (params.flatMap MimeParam.text).takeWhile (· != 59) = [] := by
      cases params with
      | nil => rfl
      | cons p params => simp [MimeParam.text]
    have all : ∀ c ∈ t, (c != 59) = true := fun c member => by
      simpa using fun same : c = 59 => type (same ▸ member)
    rw [renderMime, List.takeWhile_append_of_pos all, none, List.append_nil]
  have enough : params.length ≤ (renderMime t params).length := by
    have each := length_le_params params
    rw [renderMime, List.length_append]
    omega
  refine ⟨mimeStr, fun key => ?_⟩
  rw [← mimeParam_last, parseMime, mimeStr]
  exact congrArg (mimeParam · key)
    (parseMimeParams_render (fun p member => (proper p member).complete) t enough)

theorem parseMime_render_charset :
    (parseMime (renderMime (lit "text/plain")
        [⟨lit " ", lit "charset", lit "x"⟩, ⟨[], lit "charset", []⟩])).1 = lit "text/plain" ∧
      ∀ key, mimeParam (parseMime (renderMime (lit "text/plain")
          [⟨lit " ", lit "charset", lit "x"⟩, ⟨[], lit "charset", []⟩])).2 key =
        (([⟨lit " ", lit "charset", lit "x"⟩, ⟨[], lit "charset", []⟩].filter fun p =>
          p.key = key).getLast?).map
          MimeParam.value := by
  refine parseMime_render (by decide) fun p member => ?_
  have visible : ∀ c ∈ (lit "charset").head?, blankOrTab c = false := by
    rintro c ⟨⟩
    rfl
  simp only [List.mem_cons, List.not_mem_nil, or_false] at member
  rcases member with rfl | rfl
  · exact ⟨by decide, by decide, visible, by decide, by decide⟩
  · exact ⟨by decide, by decide, visible, by decide, by decide⟩

/-! ### Ranges -/

/-- The key lies in the text, and the value lies in it or is empty directly behind it. -/
def MimeRound.Within (mime : Str) (r : MimeRound) : Prop :=
  r.keyBegin ≤ r.keyEnd ∧ r.keyEnd ≤ mime.length ∧ r.keyEnd + 1 ≤ r.valueEnd ∧
    (r.valueEnd ≤ mime.length ∨ r.valueEnd = r.keyEnd + 1 ∧ r.keyEnd + 1 ≤ mime.length + 1)

instance (mime : Str) (r : MimeRound) :
    Decidable (r.Within mime) := inferInstanceAs (Decidable (_ ∧ _))

/-- Complete parameters, and one more semicolon with nothing but blanks behind it. -/
def DanglingFrom (text : Str) : Prop :=
  ∃ (params : List MimeParam) (blanks : Str), (∀ p ∈ params, p.Complete) ∧
    (∀ c ∈ blanks, blankOrTab c = true) ∧ text = params.flatMap MimeParam.text ++ 59 :: blanks

def Dangling (mime : Str) : Prop :=
  ∃ (t : Str) (params : List MimeParam) (blanks : Str), 59 ∉ t ∧ (∀ p ∈ params, p.Complete) ∧
    (∀ c ∈ blanks, blankOrTab c = true) ∧ mime = renderMime t params ++ 59 :: blanks

/-- Nothing but blanks: the key begins at the end, and the other scans run past it. -/
theorem mimeRound_blank {blanks : Str} (blank : ∀ c ∈ blanks, blankOrTab c = true) (pre : Str) :
    mimeRound (pre ++ 59 :: blanks) pre.length =
      ⟨(pre ++ 59 :: blanks).length, (pre ++ 59 :: blanks).length + 1,
        (pre ++ 59 :: blanks).length + 2⟩ := by
  have keyBegin : advance (fun c => c != 32 && c != 9) (pre ++ 59 :: blanks) pre.length =
      (pre ++ 59 :: blanks).length := keyBegin_run [] (by simp) blank (by simp)
  rw [mimeRound, keyBegin, advance_past (Nat.le_succ _), advance_past (by omega)]

/-- No '=' behind the first character of the key: the key goes up to the end. -/
theorem mimeRound_open {blanks tail : Str} {first : UInt8}
    (blank : ∀ c ∈ blanks, blankOrTab c = true) (visible : blankOrTab first = false)
    (plain : 61 ∉ tail) (pre : Str) :
    mimeRound (pre ++ 59 :: blanks ++ first :: tail) pre.length =
      ⟨(pre ++ 59 :: blanks).length, (pre ++ 59 :: blanks ++ first :: tail).length,
        (pre ++ 59 :: blanks ++ first :: tail).length + 1⟩ := by
  have keyBegin : advance (fun c => c != 32 && c != 9)
      (pre ++ 59 :: blanks ++ first :: tail) pre.length =
      (pre ++ 59 :: blanks).length :=
        keyBegin_run (first :: tail) (by simp) blank (by simpa using visible)
  have keyEnd : advance (· == 61) (pre ++ 59 :: blanks ++ first :: tail)
      (pre ++ 59 :: blanks).length =
      (pre ++ 59 :: blanks ++ first :: tail).length := by
    refine advance_run first [] (by simp) (fun x member => ?_) (by simp)
    simpa using fun same : x = 61 => plain (same ▸ member)
  rw [mimeRound, keyBegin, keyEnd, advance_past (Nat.le_succ _)]

/-- What may stand behind a semicolon. -/
theorem behind_semicolon (text : Str) :
    (∀ c ∈ text, blankOrTab c = true) ∨
    (∃ blanks first tail, (∀ c ∈ blanks, blankOrTab c = true) ∧
      blankOrTab first = false ∧ 61 ∉ tail ∧
      text = blanks ++ first :: tail) ∨
    ∃ p rest, MimeParam.Complete p ∧ (∀ x ∈ rest.head?, x = 59) ∧ 59 :: text = p.text ++ rest := by
  have parts : text.takeWhile blankOrTab ++ text.dropWhile blankOrTab = text :=
    List.takeWhile_append_dropWhile
  have blank : ∀ c ∈ text.takeWhile blankOrTab, blankOrTab c = true :=
    fun c member => List.mem_takeWhile_imp member
  generalize text.takeWhile blankOrTab = blanks at parts blank
  cases behind : text.dropWhile blankOrTab with
  | nil =>
    rw [behind, List.append_nil] at parts
    exact .inl (parts ▸ blank)
  | cons first more =>
    have visible : blankOrTab first = false := by
      have head := List.head?_dropWhile_not blankOrTab text
      simpa [behind] using head
    rw [behind] at parts
    by_cases equals : 61 ∈ more
    · -- a value, up to the next semicolon
      obtain ⟨tail, rest, rfl, plain⟩ := List.eq_append_cons_of_mem equals
      have value : rest.takeWhile (· != 59) ++ rest.dropWhile (· != 59) = rest :=
        List.takeWhile_append_dropWhile
      refine .inr (.inr ⟨⟨blanks, first :: tail, rest.takeWhile (· != 59)⟩,
        rest.dropWhile (· != 59), ⟨blank, ⟨first, tail, rfl, visible, plain⟩, fun member => ?_⟩, ?_,
          ?_⟩)
      · simpa using List.mem_takeWhile_imp member
      · intro x head
        have stops := List.head?_dropWhile_not (· != 59) rest
        rw [Option.mem_def.mp head] at stops
        simpa using stops
      · rw [← parts]
        simp [MimeParam.text, value]
    · exact .inr (.inl ⟨_, first, more, blank, visible, equals, parts.symm⟩)

/-- Where a parameter ends is seen from the text. -/
theorem rest_unique {p q : MimeParam} {rest rest' : Str} (complete : p.Complete)
    (complete' : q.Complete) (next : ∀ x ∈ rest.head?, x = 59) (next' : ∀ x ∈ rest'.head?, x = 59)
    (same : p.text ++ rest = q.text ++ rest') : rest = rest' := by
  have round := mimeRound_text complete [] next
  have round' := mimeRound_text complete' [] next'
  simp only [List.nil_append, List.length_nil, same] at round round'
  have length := congrArg MimeRound.valueEnd (round.symm.trans round')
  exact (List.append_inj same length).2

/-- A parameter before it makes no difference. -/
theorem danglingFrom_text {p : MimeParam} {rest : Str} (complete : p.Complete)
    (next : ∀ x ∈ rest.head?, x = 59) :
    DanglingFrom (p.text ++ rest) ↔ DanglingFrom rest := by
  constructor
  · rintro ⟨params, blanks, all, blank, text⟩
    cases params with
    | nil =>
      -- the key is no blank
      have round := mimeRound_text complete [] next
      have round' := mimeRound_blank blank []
      simp only [List.nil_append, List.length_nil, text, List.flatMap_nil] at round round'
      have keyBegin := congrArg MimeRound.keyBegin (round.symm.trans round')
      have length := congrArg List.length text
      simp [MimeParam.text] at keyBegin length
      omega
    | cons q params =>
      obtain ⟨first, others⟩ := List.forall_mem_cons.mp all
      rw [List.flatMap_cons, List.append_assoc] at text
      have next' : ∀ x ∈ (params.flatMap MimeParam.text ++ 59 :: blanks).head?, x = 59 := by
        cases params <;> simp [MimeParam.text]
      exact ⟨params, blanks, others, blank, rest_unique complete first next next' text⟩
  · rintro ⟨params, blanks, all, blank, rfl⟩
    exact ⟨p :: params, blanks, List.forall_mem_cons.mpr ⟨complete, all⟩, blank, by simp⟩

/-- An open parameter is not followed by anything. -/
theorem not_danglingFrom_open {blanks tail : Str} {first : UInt8}
    (blank : ∀ c ∈ blanks, blankOrTab c = true) (visible : blankOrTab first = false)
    (plain : 61 ∉ tail) : ¬DanglingFrom (59 :: blanks ++ first :: tail) := by
  rintro ⟨params, blanks', all, blank', text⟩
  have round := mimeRound_open blank visible plain []
  simp only [List.nil_append, List.length_nil, text] at round
  -- either way the first key would end in two places
  cases params with
  | nil =>
    have round' := mimeRound_blank blank' []
    simp only [List.nil_append, List.length_nil] at round'
    have keyEnd := congrArg MimeRound.keyEnd (round.symm.trans round')
    simp at keyEnd
  | cons q params =>
    obtain ⟨complete, others⟩ := List.forall_mem_cons.mp all
    have next : ∀ x ∈ (params.flatMap MimeParam.text ++ 59 :: blanks').head?, x = 59 := by
      cases params <;> simp [MimeParam.text]
    have round' := mimeRound_text complete [] next
    rw [List.flatMap_cons, List.append_assoc] at round
    simp only [List.nil_append, List.length_nil] at round'
    have keyEnd := congrArg MimeRound.keyEnd (round.symm.trans round')
    simp [MimeParam.text] at keyEnd

/-- The loop ends, and it stays within the text unless that ends in a semicolon for nothing. -/
theorem mimeRounds_within (pre : Str) {rest : Str} (next : ∀ x ∈ rest.head?, x = 59) {fuel : Nat}
    (enough : rest.length ≤ fuel) :
    ∃ rounds, mimeRounds (pre ++ rest) fuel pre.length = some rounds ∧
      ((∀ r ∈ rounds, r.Within (pre ++ rest)) ↔ ¬DanglingFrom rest) := by
  induction fuel generalizing pre rest with
  | zero =>
    have empty : rest = [] := List.length_eq_zero_iff.mp (Nat.le_zero.mp enough)
    subst empty
    refine ⟨[], if_pos (by simp), ?_⟩
    simp [DanglingFrom]
  | succ fuel ih =>
    cases rest with
    | nil =>
      refine ⟨[], if_pos (by simp), ?_⟩
      simp [DanglingFrom]
    | cons c text =>
      -- the invariant: a round starts at a semicolon or at the end
      have semicolon : c = 59 := next c rfl
      subst semicolon
      have more : ¬(pre ++ 59 :: text).length ≤ pre.length := by simp
      have single : ∀ round, mimeRound (pre ++ 59 :: text) pre.length = round →
          (pre ++ 59 :: text).length ≤ round.valueEnd →
            mimeRounds (pre ++ 59 :: text) (fuel + 1) pre.length = some [round] := by
        rintro round rfl ends
        rw [mimeRounds, if_neg more]
        have ended : mimeRounds (pre ++ 59 :: text) fuel
            (mimeRound (pre ++ 59 :: text) pre.length).valueEnd =
            some [] := by
          cases fuel <;> exact if_pos ends
        rw [ended, Option.map_some]
      rcases behind_semicolon text with blank | ⟨blanks, first, tail, blank, visible, plain, rfl⟩ |
        ⟨p, rest, complete, next', text_eq⟩
      · -- the last round, past the end
        refine ⟨_, single _ (mimeRound_blank blank pre) (by simp), ?_⟩
        have dangling : DanglingFrom (59 :: text) := ⟨[], text, by simp, blank, rfl⟩
        simp [MimeRound.Within, dangling]
      · -- the last round, whose key takes the rest of the text
        have round := mimeRound_open blank visible plain pre
        rw [List.append_assoc, List.cons_append] at round
        refine ⟨_, single _ round (by simp), ?_⟩
        have complete := not_danglingFrom_open blank visible plain
        rw [List.cons_append] at complete
        simp [MimeRound.Within, complete]
      · -- a parameter, and the next round from its end
        rw [text_eq] at more enough ⊢
        have round := mimeRound_text complete pre next'
        rw [List.append_assoc] at round
        have shorter : rest.length ≤ fuel := by
          simp [MimeParam.text] at enough
          omega
        obtain ⟨rounds, ended, within⟩ := ih (pre ++ p.text) next' shorter
        rw [List.append_assoc] at ended within
        refine ⟨_, by rw [mimeRounds, if_neg more, round, ended, Option.map_some], ?_⟩
        rw [danglingFrom_text complete next', ← within, List.forall_mem_cons, and_iff_right_iff_imp]
        intro _
        simp only [MimeRound.Within, MimeParam.text, List.length_append, List.length_cons]
        omega

/-- The text before the first semicolon, and what follows from there. -/
private theorem dangling_iff (mime : Str) :
    Dangling mime ↔ DanglingFrom (mime.dropWhile (· != 59)) := by
  have parts : mime.takeWhile (· != 59) ++ mime.dropWhile (· != 59) = mime :=
    List.takeWhile_append_dropWhile
  constructor
  · rintro ⟨t, params, blanks, type, all, blank, rfl⟩
    have plain : ∀ c ∈ t, (c != 59) = true := fun c member => by
      simpa using fun same : c = 59 => type (same ▸ member)
    refine ⟨params, blanks, all, blank, ?_⟩
    rw [renderMime, List.append_assoc, List.dropWhile_append_of_pos plain]
    cases params <;> simp [MimeParam.text]
  · rintro ⟨params, blanks, all, blank, text⟩
    refine ⟨mime.takeWhile (· != 59), params, blanks, fun member => ?_, all, blank, ?_⟩
    · simpa using List.mem_takeWhile_imp member
    · rw [renderMime, List.append_assoc, ← text, parts]

/-- `parseMime` ends on every text, and stays within it unless the text ends in a semicolon for one
more parameter. -/
theorem parseMime_within_iff (mime : Str) :
    ∃ rounds, mimeRounds mime mime.length (parseMime mime).1.length = some rounds ∧
      (parseMime mime).2 = rounds.map (MimeRound.slices mime) ∧
      ((∀ r ∈ rounds, r.Within mime) ↔ ¬Dangling mime) := by
  have parts : mime.takeWhile (· != 59) ++ mime.dropWhile (· != 59) = mime :=
    List.takeWhile_append_dropWhile
  -- where the type ends, a semicolon stands or nothing
  have next : ∀ x ∈ (mime.dropWhile (· != 59)).head?, x = 59 := by
    intro x head
    have stops := List.head?_dropWhile_not (· != 59) mime
    rw [Option.mem_def.mp head] at stops
    simpa using stops
  have shorter : (mime.dropWhile (· != 59)).length ≤ mime.length :=
    (List.dropWhile_sublist _).length_le
  obtain ⟨rounds, ended, within⟩ := mimeRounds_within (mime.takeWhile (· != 59)) next shorter
  rw [parts] at ended within
  obtain ⟨rounds', ended', built⟩ :=
    mimeRounds_ends (Nat.le_add_right mime.length (mime.takeWhile (· != 59)).length)
  cases ended.symm.trans ended'
  exact ⟨rounds, ended, built, within.trans (not_congr (dangling_iff mime)).symm⟩

/-- For "a;" the key ends behind the terminator, and the value would begin behind that. -/
theorem parseMime_past_end :
    mimeRounds (lit "a;") (lit "a;").length (parseMime (lit "a;")).1.length = some [⟨2, 3, 4⟩] ∧
      ¬MimeRound.Within (lit "a;") ⟨2, 3, 4⟩ ∧ (parseMime (lit "a;")).2 = [([0], [])] := by
  decide

end Tlgs
