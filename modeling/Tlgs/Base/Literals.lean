import Mathlib.Data.List.Basic

/-!
# Quoted literals of PostgreSQL

What a quoted literal is: two quotes are one quote, a literal goes on after a gap with a line
end in it, and where escapes are active a backslash begins one. A statement is read as
literals and the characters between them. Both are computed with fuel, for which the length of
the text is enough.
-/
namespace SqlLiterals

abbrev Text := List UInt8

/-- `standard_conforming_strings`: when it is off, backslashes begin escapes. What follows
a backslash in a Unicode escape has a value and a length. -/
structure Dialect where
  escapes : Bool
  unicode : Text → Option (Text × Nat)

/-! ### The gap between two parts of a literal -/

def newline (c : UInt8) : Bool := c == 10 || c == 13

def blank (c : UInt8) : Bool := c == 32 || c == 9 || c == 11 || c == 12

/-- Skip blanks and comments. Is a line end among them? -/
def skipGap : Nat → Text → Bool × Text
  | fuel + 1, c :: text =>
    if newline c then (true, (skipGap fuel text).2)
    else if blank c then skipGap fuel text
    else if c = 45 ∧ text.head? = some 45 then skipGap fuel (text.dropWhile fun d => !newline d)
    else (false, c :: text)
  | _, text => (false, text)

/-- The text after the quote with which a literal goes on. -/
def continued (text : Text) : Option Text :=
  match skipGap text.length text with
  | (true, 39 :: rest) => some rest
  | _ => none

/-! ### Escapes -/

def octal (c : UInt8) : Bool := decide (48 ≤ c) && decide (c ≤ 55)

def hexValue (c : UInt8) : Option UInt8 :=
  if 48 ≤ c ∧ c ≤ 57 then some (c - 48)
  else if 97 ≤ c ∧ c ≤ 102 then some (c - 87)
  else if 65 ≤ c ∧ c ≤ 70 then some (c - 55)
  else none

def letter (c : UInt8) : UInt8 :=
  if c = 98 then 8 else if c = 102 then 12 else if c = 110 then 10
  else if c = 114 then 13 else if c = 116 then 9 else c

/-- What a backslash and a character mean, with what belongs to the escape after them. -/
def Dialect.escape (dialect : Dialect) (c : UInt8) (text : Text) : Option (Text × Text) :=
  if octal c then
    let digits := (text.take 2).takeWhile octal
    some ([(c :: digits).foldl (fun n d => 8 * n + (d - 48)) 0], text.drop digits.length)
  else if c = 120 ∧ text.head?.any (fun d => (hexValue d).isSome) then
    let digits := ((text.take 2).map hexValue).takeWhile Option.isSome
    some ([digits.foldl (fun n d => 16 * n + d.getD 0) 0], text.drop digits.length)
  else if c = 117 ∨ c = 85 then
    (dialect.unicode (c :: text)).map fun (value, length) => (value, text.drop length)
  else if c = 0 then none
  else some ([letter c], text)

/-! ### Literals -/

/-- More of the value, in front. -/
def before (value : Text) : Text × Text → Text × Text := fun (more, rest) => (value ++ more, rest)

variable (dialect : Dialect)

/-- The value of a literal whose opening quote was read, and the text after it; `none` when
it does not end. A zero byte ends the text. -/
def Dialect.scan : Nat → Text → Option (Text × Text)
  | 0, _ => none
  | _ + 1, [] => none
  | fuel + 1, c :: text =>
    if c = 0 then none
    else if c = 39 then
      match text with
      | 39 :: text => (scan fuel text).map (before [39])
      | text =>
        match continued text with
        | some text => scan fuel text
        | none => some ([], text)
    else if c = 92 ∧ dialect.escapes then
      match text with
      | [] => none
      | d :: text =>
        match dialect.escape d text with
        | some (value, text) => (scan fuel text).map (before value)
        | none => none
    else (scan fuel text).map (before [c])

/-- The literal whose opening quote was read. -/
def Dialect.body (text : Text) : Option (Text × Text) := dialect.scan (text.length + 1) text

/-- The literal that a text begins with. -/
def Dialect.read : Text → Option (Text × Text)
  | 39 :: text => dialect.body text
  | _ => none

theorem skipGap_length (fuel : Nat) (text : Text) : (skipGap fuel text).2.length ≤ text.length := by
  induction fuel generalizing text with
  | zero => simp [skipGap]
  | succ fuel ih =>
    cases text with
    | nil => simp [skipGap]
    | cons c text =>
      have rest := ih text
      have comment := ih (text.dropWhile fun d => !newline d)
      have shorter := (List.dropWhile_suffix (l := text) fun d => !newline d).length_le
      simp only [skipGap]
      -- a line end, a blank, a comment, or the end of the gap
      repeat' split
      all_goals simp only [List.length_cons]; omega

theorem continued_length {text rest : Text} (goesOn : continued text = some rest) :
    rest.length < text.length := by
  have shorter := skipGap_length text.length text
  simp only [continued] at goesOn
  split at goesOn
  next gap =>
    cases goesOn
    rw [gap, List.length_cons] at shorter
    omega
  next => cases goesOn

variable {dialect}

theorem Dialect.escape_length {c : UInt8} {text value rest : Text}
    (escaped : dialect.escape c text = some (value, rest)) : rest.length ≤ text.length := by
  simp only [Dialect.escape] at escaped
  split at escaped
  · cases escaped
    simp
  split at escaped
  · cases escaped
    simp
  split at escaped
  · obtain ⟨⟨value', length⟩, _, same⟩ := Option.map_eq_some_iff.mp escaped
    cases same
    simp
  split at escaped <;> cases escaped
  exact Nat.le_refl _

/-- More fuel changes nothing. -/
theorem Dialect.scan_of_lt {fuel : Nat} {text : Text} (enough : text.length < fuel) :
    dialect.scan fuel text = dialect.body text := by
  suffices agree : ∀ fuel fuel' (text : Text), text.length < fuel → text.length < fuel' →
      dialect.scan fuel text = dialect.scan fuel' text from agree _ _ _ enough (Nat.lt_succ_self _)
  intro fuel
  induction fuel with
  | zero => intro _ _ none; omega
  | succ fuel ih =>
    intro fuel' text enough enough'
    obtain ⟨fuel', rfl⟩ : ∃ n, fuel' = n + 1 := ⟨fuel' - 1, by omega⟩
    cases text with
    | nil => rfl
    | cons c text =>
      rw [List.length_cons] at enough enough'
      -- every recursive call is for a shorter text
      have rest (text' : Text) (shorter : text'.length ≤ text.length) :
          dialect.scan fuel text' = dialect.scan fuel' text' := ih _ _ (by omega) (by omega)
      simp only [Dialect.scan]
      split
      · rfl
      split
      · split
        next text' => rw [rest _ (by simp)]
        next =>
          split
          next goesOn => exact rest _ (Nat.le_of_lt (continued_length goesOn))
          next => rfl
      split
      · split
        · rfl
        next d text' =>
          split
          next escaped => rw [rest _ (Nat.le_trans (Dialect.escape_length escaped) (by simp))]
          next => rfl
      · rw [rest _ (Nat.le_refl _)]

private theorem map_before_eq_some {read : Option (Text × Text)} {front value rest : Text}
    (reads : read.map (before front) = some (value, rest)) : ∃ more, read = some (more, rest) := by
  obtain ⟨⟨more, rest'⟩, found, same⟩ := Option.map_eq_some_iff.mp reads
  cases same
  exact ⟨more, found⟩

theorem Dialect.scan_length {fuel : Nat} {text value rest : Text}
    (reads : dialect.scan fuel text = some (value, rest)) : rest.length < text.length := by
  induction fuel generalizing text value rest with
  | zero => cases reads
  | succ fuel ih =>
    cases text with
    | nil => cases reads
    | cons c text =>
      -- what a recursive call leaves is shorter than what it is given
      have later {text' front : Text} (shorter : text'.length ≤ text.length)
          (more : (dialect.scan fuel text').map (before front) = some (value, rest)) :
          rest.length < (c :: text).length := by
        obtain ⟨_, scanned⟩ := map_before_eq_some more
        have less := ih scanned
        rw [List.length_cons]
        omega
      simp only [Dialect.scan] at reads
      split at reads
      · cases reads
      split at reads
      · split at reads
        next => exact later (by simp) reads
        next =>
          split at reads
          next goesOn =>
            have less := ih reads
            have shorter := continued_length goesOn
            rw [List.length_cons]
            omega
          next =>
            cases reads
            simp
      split at reads
      · split at reads
        · cases reads
        next =>
          split at reads
          next escaped =>
            exact later (Nat.le_trans (Dialect.escape_length escaped) (by simp)) reads
          next => cases reads
      · exact later (Nat.le_refl _) reads

theorem Dialect.body_length {text value rest : Text}
    (reads : dialect.body text = some (value, rest)) :
    rest.length < text.length :=
  Dialect.scan_length reads

/-! ### One step of a literal -/

/-- A literal is over before such a text. -/
def Ends (rest : Text) : Prop := rest.head? ≠ some 39 ∧ continued rest = none

theorem ends_nil : Ends [] := ⟨by simp, rfl⟩

theorem ends_cons {c : UInt8} (rest : Text) (quote : c ≠ 39) (line : newline c = false)
    (space : blank c = false) (dash : c ≠ 45) : Ends (c :: rest) := by
  refine ⟨by simpa using quote, ?_⟩
  simp [continued, skipGap, line, space, dash]

theorem Dialect.body_end {rest : Text} (ends : Ends rest) :
    dialect.body (39 :: rest) = some ([], rest) := by
  obtain ⟨quote, gap⟩ := ends
  simp only [Dialect.body, List.length_cons, Dialect.scan]
  cases rest with
  | nil => simp [gap]
  | cons c rest =>
    have different : c ≠ 39 := by simpa using quote
    simp [gap, different]

theorem Dialect.body_quotes (text : Text) :
    dialect.body (39 :: 39 :: text) = (dialect.body text).map (before [39]) := by
  have enough : dialect.scan (text.length + 1 + 1) text = dialect.body text :=
    Dialect.scan_of_lt (by omega)
  rw [← enough]
  simp [Dialect.body, Dialect.scan]

theorem Dialect.body_char {c : UInt8} (text : Text) (zero : c ≠ 0) (quote : c ≠ 39)
    (backslash : c = 92 → dialect.escapes = false) :
    dialect.body (c :: text) = (dialect.body text).map (before [c]) := by
  have plain : ¬(c = 92 ∧ dialect.escapes = true) := by
    rintro ⟨same, active⟩
    rw [backslash same] at active
    cases active
  simp only [Dialect.body, List.length_cons, Dialect.scan]
  rw [if_neg zero, if_neg quote, if_neg plain]

theorem Dialect.body_escape {c : UInt8} {text value rest : Text} (active : dialect.escapes = true)
    (escaped : dialect.escape c text = some (value, rest)) :
    dialect.body (92 :: c :: text) = (dialect.body rest).map (before value) := by
  have shorter := Dialect.escape_length escaped
  have enough : dialect.scan (text.length + 1 + 1) rest = dialect.body rest :=
    Dialect.scan_of_lt (by omega)
  rw [← enough]
  simp [Dialect.body, Dialect.scan, active, escaped]

variable (dialect) in
/-- Between quotes, the text is one literal with this value, whatever comes after it. -/
def Dialect.Denotes (text value : Text) : Prop :=
  ∀ rest, Ends rest → dialect.body (text ++ 39 :: rest) = some (value, rest)

variable (dialect) in
/-- The value that a text has between quotes, if it is one literal there. -/
def Dialect.value (text : Text) : Text :=
  ((dialect.read (39 :: (text ++ [39]))).map Prod.fst).getD []

theorem Dialect.Denotes.read_eq {text value : Text} (denotes : dialect.Denotes text value) :
    dialect.read (39 :: (text ++ [39])) = some (value, []) :=
  denotes [] ends_nil

theorem Dialect.Denotes.value_eq {text value : Text} (denotes : dialect.Denotes text value) :
    dialect.value text = value := by
  simp [Dialect.value, denotes.read_eq]

/-! ### Statements -/

inductive Token
  | char (c : UInt8)
  | literal (value : Text)
  deriving DecidableEq, Repr

/-- Letters, digits and what else may stand right before the quote of another kind of literal. -/
def word (c : UInt8) : Bool :=
  (decide (48 ≤ c) && decide (c ≤ 57)) || (decide (65 ≤ c) && decide (c ≤ 90)) ||
    (decide (97 ≤ c) && decide (c ≤ 122)) || c == 95 || c == 38 || decide (128 ≤ c)

/-- Something else than a plain literal begins here: a quoted name, a dollar quote, a comment,
or a literal with a letter before its quote. -/
def opensOther (c : UInt8) (text : Text) : Bool :=
  c == 34 || c == 36 || (c == 45 && text.head? == some 45) || (c == 47 && text.head? == some 42) ||
    (word c && text.head? == some 39)

/-- The token without the value that a literal has. -/
def Token.blank : Token → Token
  | .char c => .char c
  | .literal _ => .literal []

def Token.value? : Token → Option Text
  | .char _ => none
  | .literal value => some value

variable (dialect) in
def Dialect.tokensFrom : Nat → Text → Option (List Token)
  | _, [] => some []
  | 0, _ :: _ => none
  | fuel + 1, c :: text =>
    if c = 39 then
      match dialect.body text with
      | some (value, rest) => (tokensFrom fuel rest).map (.literal value :: ·)
      | none => none
    else if c = 0 ∨ opensOther c text then none
    else (tokensFrom fuel text).map (.char c :: ·)

variable (dialect) in
/-- A statement as literals and the characters between them. Statements in which something else
is quoted are not read. -/
def Dialect.tokens (text : Text) : Option (List Token) := dialect.tokensFrom text.length text

variable (dialect) in
/-- How a statement is divided, whatever the values in it are. -/
def Dialect.outline (text : Text) : Option (List Token) :=
  (dialect.tokens text).map (List.map Token.blank)

variable (dialect) in
/-- The values of the literals in a statement. -/
def Dialect.values (text : Text) : Option (List Text) :=
  (dialect.tokens text).map (List.filterMap Token.value?)

theorem Dialect.tokensFrom_of_le {fuel : Nat} {text : Text} (enough : text.length ≤ fuel) :
    dialect.tokensFrom fuel text = dialect.tokens text := by
  suffices agree : ∀ fuel fuel' (text : Text), text.length ≤ fuel → text.length ≤ fuel' →
      dialect.tokensFrom fuel text = dialect.tokensFrom fuel' text from agree _ _ _ enough
        (Nat.le_refl _)
  intro fuel
  induction fuel with
  | zero =>
    intro fuel' text enough _
    obtain rfl : text = [] := List.eq_nil_of_length_eq_zero (by omega)
    cases fuel' <;> rfl
  | succ fuel ih =>
    intro fuel' text enough enough'
    cases text with
    | nil => cases fuel' <;> rfl
    | cons c text =>
      rw [List.length_cons] at enough enough'
      obtain ⟨fuel', rfl⟩ : ∃ n, fuel' = n + 1 := ⟨fuel' - 1, by omega⟩
      simp only [Dialect.tokensFrom]
      -- a literal takes at least its opening quote off the text
      split
      · split
        next reads =>
          have shorter := Dialect.body_length reads
          rw [ih _ _ (by omega) (show _ ≤ fuel' by omega)]
        next => rfl
      split
      · rfl
      · rw [ih _ _ (by omega) (show _ ≤ fuel' by omega)]

@[simp] theorem Dialect.tokens_nil : dialect.tokens [] = some [] := rfl

theorem Dialect.tokens_char {c : UInt8} {text : Text} (zero : c ≠ 0) (quote : c ≠ 39)
    (alone : opensOther c text = false) :
    dialect.tokens (c :: text) = (dialect.tokens text).map (.char c :: ·) := by
  simp [Dialect.tokens, Dialect.tokensFrom, zero, quote, alone]

theorem Dialect.tokens_literal {text value rest : Text}
    (reads : dialect.body text = some (value, rest)) :
    dialect.tokens (39 :: text) = (dialect.tokens rest).map (.literal value :: ·) := by
  have shorter := Dialect.body_length reads
  have enough : dialect.tokensFrom text.length rest = dialect.tokens rest :=
    Dialect.tokensFrom_of_le (by omega)
  rw [← enough]
  simp [Dialect.tokens, Dialect.tokensFrom, reads]

/-! ### Statements put together from texts -/

/-- What a statement is put together from. -/
inductive Part
  | plain (text : Text)
  | quoted (text : Text)

def Part.text : Part → Text
  | .plain text => text
  | .quoted text => 39 :: (text ++ [39])

def statement (parts : List Part) : Text := parts.flatMap Part.text

/-- The tokens of a part, with the values that quoted texts have. -/
def Part.tokens (value : Text → Text) : Part → List Token
  | .plain text => text.map .char
  | .quoted text => [.literal (value text)]

def Part.quoted? : Part → Option Text
  | .plain _ => none
  | .quoted text => some text

def quotedTexts (parts : List Part) : List Text := parts.filterMap Part.quoted?

@[simp] theorem quotedTexts_nil : quotedTexts [] = [] := rfl

@[simp] theorem quotedTexts_plain (text : Text) (parts : List Part) :
    quotedTexts (.plain text :: parts) = quotedTexts parts := rfl

@[simp] theorem quotedTexts_quoted (text : Text) (parts : List Part) :
    quotedTexts (.quoted text :: parts) = text :: quotedTexts parts := rfl

@[simp] theorem quotedTexts_append (parts more : List Part) :
    quotedTexts (parts ++ more) = quotedTexts parts ++ quotedTexts more := List.filterMap_append

/-- Before this rest, every character of the text stands for itself. -/
def plainBefore : Text → Text → Bool
  | [], _ => true
  | c :: text, rest => c != 0 && c != 39 && !opensOther c (text ++ rest) && plainBefore text rest

/-- Plain texts are plain where they stand, and quoted ones are over at their quote. -/
def Placed : List Part → Text → Prop
  | [], _ => True
  | .plain text :: parts, rest =>
    plainBefore text (statement parts ++ rest) = true ∧ Placed parts rest
  | .quoted _ :: parts, rest => Ends (statement parts ++ rest) ∧ Placed parts rest

@[simp] theorem statement_nil : statement [] = [] := rfl

@[simp] theorem statement_cons (part : Part) (parts : List Part) :
    statement (part :: parts) = part.text ++ statement parts := rfl

@[simp] theorem statement_append (parts more : List Part) :
    statement (parts ++ more) = statement parts ++ statement more := List.flatMap_append

theorem plainBefore_append (text more rest : Text) :
    plainBefore (text ++ more) rest =
      (plainBefore text (more ++ rest) && plainBefore more rest) := by
  induction text with
  | nil => simp [plainBefore]
  | cons c text ih => simp [plainBefore, ih, Bool.and_assoc]

theorem placed_append {parts more : List Part} {rest : Text} :
    Placed (parts ++ more) rest ↔ Placed parts (statement more ++ rest) ∧ Placed more rest := by
  induction parts with
  | nil => simp [Placed]
  | cons part parts ih => cases part <;> simp [Placed, ih, and_assoc]

theorem Dialect.tokens_plain {text rest : Text} (plain : plainBefore text rest = true) :
    dialect.tokens (text ++ rest) = (dialect.tokens rest).map (text.map .char ++ ·) := by
  induction text with
  | nil => simp
  | cons c text ih =>
    simp only [plainBefore, Bool.and_eq_true, bne_iff_ne, Bool.not_eq_eq_eq_not, Bool.not_true]
      at plain
    obtain ⟨⟨⟨zero, quote⟩, alone⟩, plain⟩ := plain
    rw [List.cons_append, Dialect.tokens_char zero quote alone, ih plain, Option.map_map]
    rfl

/-- A statement is read as it was put together, when each quoted text has a value in its place. -/
theorem Dialect.tokens_statement {parts : List Part} {value : Text → Text}
    (placed : Placed parts [])
    (denotes : ∀ text ∈ quotedTexts parts, dialect.Denotes text (value text)) :
    dialect.tokens (statement parts) = some (parts.flatMap (Part.tokens value)) := by
  induction parts with
  | nil => rfl
  | cons part parts ih =>
    cases part with
    | plain text =>
      obtain ⟨plain, placed⟩ := placed
      rw [List.append_nil] at plain
      rw [statement_cons, Part.text, Dialect.tokens_plain plain, ih placed denotes]
      rfl
    | quoted text =>
      -- the literal is over at its quote, and the rest is read from there
      obtain ⟨ends, placed⟩ := placed
      rw [List.append_nil] at ends
      have later := ih placed fun text member => denotes text (List.mem_cons_of_mem _ member)
      have reads := denotes text List.mem_cons_self _ ends
      rw [statement_cons, Part.text, List.cons_append, List.append_assoc, List.singleton_append,
        Dialect.tokens_literal reads, later]
      rfl

private theorem blank_tokens (value : Text → Text) (part : Part) :
    (part.tokens value).map Token.blank = part.tokens fun _ => [] := by
  cases part <;> simp [Part.tokens, Token.blank]

private theorem values_tokens (value : Text → Text) (parts : List Part) :
    (parts.flatMap (Part.tokens value)).filterMap Token.value? = (quotedTexts parts).map value := by
  induction parts with
  | nil => rfl
  | cons part parts ih =>
    cases part with
    | plain text =>
      have none : (text.map Token.char).filterMap Token.value? = [] := by simp [Token.value?]
      rw [List.flatMap_cons, List.filterMap_append, ih, Part.tokens, none]
      rfl
    | quoted text =>
      rw [List.flatMap_cons, List.filterMap_append, ih]
      rfl

theorem Dialect.outline_statement {parts : List Part} (placed : Placed parts [])
    (denotes : ∀ text ∈ quotedTexts parts, ∃ value, dialect.Denotes text value) :
    dialect.outline (statement parts) = some (parts.flatMap (Part.tokens fun _ => [])) := by
  have read : dialect.tokens (statement parts) =
      some (parts.flatMap (Part.tokens dialect.value)) := by
    apply Dialect.tokens_statement placed
    intro text member
    obtain ⟨value, denotes⟩ := denotes text member
    rwa [denotes.value_eq]
  simp [Dialect.outline, read, List.map_flatMap, blank_tokens]

theorem Dialect.values_statement {parts : List Part} {value : Text → Text}
    (placed : Placed parts [])
    (denotes : ∀ text ∈ quotedTexts parts, dialect.Denotes text (value text)) :
    dialect.values (statement parts) = some ((quotedTexts parts).map value) := by
  simp [Dialect.values, Dialect.tokens_statement placed denotes, values_tokens]

end SqlLiterals
