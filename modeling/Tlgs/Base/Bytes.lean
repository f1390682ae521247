import Mathlib.Data.List.Basic

/-!
# Byte strings

The part of `std::string`, `std::string_view` and the C locale's character
classes that the development uses. A string is the list of its bytes; `find` and
its relatives are stated over any alphabet with decidable equality.
-/
namespace Bytes

abbrev Str := List UInt8

/-- Decided over the bytes of the string, not over all bytes. -/
instance (property : UInt8 → Prop) [DecidablePred property] (str : Str) :
    Decidable (∀ c ∈ str, property c) :=
  List.decidableBAll property str

/-- A string literal of a UTF-8 source file. -/
def lit (s : String) : Str := s.toList.flatMap String.utf8EncodeChar

/-- A property of all bytes, checked value by value. -/
theorem forall_byte {property : UInt8 → Prop} (values : ∀ n < 256, property (UInt8.ofNat n))
    (c : UInt8) :
    property c := by
  have value := values c.toNat c.toNat_lt
  rwa [UInt8.ofNat_toNat] at value

/-! ### Character classes of the C locale -/

def isdigit (c : UInt8) : Bool := decide (48 ≤ c) && decide (c ≤ 57)

def isupper (c : UInt8) : Bool := decide (65 ≤ c) && decide (c ≤ 90)

def islower (c : UInt8) : Bool := decide (97 ≤ c) && decide (c ≤ 122)

def isalpha (c : UInt8) : Bool := isupper c || islower c

def isalnum (c : UInt8) : Bool := isalpha c || isdigit c

def isspace (c : UInt8) : Bool := c == 32 || (decide (9 ≤ c) && decide (c ≤ 13))

def tolower (c : UInt8) : UInt8 := if isupper c then c + 32 else c

theorem isupper_iff (c : UInt8) : isupper c = true ↔ 65 ≤ c.toNat ∧ c.toNat ≤ 90 := by
  simp [isupper, UInt8.le_iff_toNat_le]

theorem islower_iff (c : UInt8) : islower c = true ↔ 97 ≤ c.toNat ∧ c.toNat ≤ 122 := by
  simp [islower, UInt8.le_iff_toNat_le]

theorem isdigit_iff (c : UInt8) : isdigit c = true ↔ 48 ≤ c.toNat ∧ c.toNat ≤ 57 := by
  simp [isdigit, UInt8.le_iff_toNat_le]

theorem tolower_of_not_upper {c : UInt8} (h : isupper c = false) : tolower c = c := by
  simp [tolower, h]

theorem tolower_toNat_of_upper {c : UInt8} (h : isupper c = true) :
    (tolower c).toNat = c.toNat + 32 := by
  have range := (isupper_iff c).mp h
  simp only [tolower, h, if_true, UInt8.toNat_add]
  have : (32 : UInt8).toNat = 32 := rfl
  omega

theorem isupper_tolower (c : UInt8) : isupper (tolower c) = false := by
  cases h : isupper c with
  | false => rw [tolower_of_not_upper h, h]
  | true =>
    have value := tolower_toNat_of_upper h
    have range := (isupper_iff c).mp h
    rw [Bool.eq_false_iff, ne_eq, isupper_iff]
    omega

@[simp] theorem tolower_tolower (c : UInt8) : tolower (tolower c) = tolower c :=
  tolower_of_not_upper (isupper_tolower c)

theorem isalpha_tolower (c : UInt8) : isalpha (tolower c) = isalpha c := by
  cases h : isupper c with
  | false => rw [tolower_of_not_upper h]
  | true =>
    have value := tolower_toNat_of_upper h
    have range := (isupper_iff c).mp h
    have lower : islower (tolower c) = true := (islower_iff _).mpr (by omega)
    simp [isalpha, h, lower]

theorem tolower_eq_self_of_not_alpha {c : UInt8} (h : isalpha c = false) : tolower c = c := by
  simp only [isalpha, Bool.or_eq_false_iff] at h
  exact tolower_of_not_upper h.1

/-- Lower-casing neither creates nor removes a character that is not a letter. -/
theorem tolower_eq_iff {c d : UInt8} (h : isalpha d = false) : tolower c = d ↔ c = d := by
  constructor
  · rintro rfl
    rw [isalpha_tolower] at h
    exact (tolower_eq_self_of_not_alpha h).symm
  · rintro rfl
    exact tolower_eq_self_of_not_alpha h

theorem isalnum_tolower (c : UInt8) : isalnum (tolower c) = isalnum c := by
  cases h : isalpha c with
  | true => simp [isalnum, isalpha_tolower, h]
  | false => rw [tolower_eq_self_of_not_alpha h]

/-! ### Searching -/

section Find

variable {α : Type} [DecidableEq α]

/-- `find`: the offset of the first occurrence of `needle`. -/
def find (needle : List α) : List α → Option Nat
  | [] => if needle = [] then some 0 else none
  | c :: s => if needle.isPrefixOf (c :: s) then some 0 else (find needle s).map (· + 1)

/-- `contains`: whether `find` is not `npos`. -/
def contains (needle s : List α) : Bool := (find needle s).isSome

theorem find_of_prefix (needle rest : List α) : find needle (needle ++ rest) = some 0 := by
  cases needle with
  | nil => cases rest <;> simp [find]
  | cons x needle =>
    have starts : (x :: needle).isPrefixOf (x :: (needle ++ rest)) = true := by
      rw [List.isPrefixOf_iff_prefix]
      exact ⟨rest, by simp⟩
    rw [List.cons_append, find, if_pos starts]

/-- Characters that cannot start the needle are skipped over. -/
theorem find_append_of_not_mem (x : α) (needle pre rest : List α) (absent : x ∉ pre) :
    find (x :: needle) (pre ++ rest) = (find (x :: needle) rest).map (· + pre.length) := by
  induction pre with
  | nil => simp
  | cons c pre ih =>
    simp only [List.mem_cons, not_or] at absent
    have differs : (x :: needle).isPrefixOf (c :: (pre ++ rest)) = false := by
      simp [List.isPrefixOf, absent.1]
    rw [List.cons_append, find, if_neg (by simp [differs]), ih absent.2, Option.map_map]
    cases find (x :: needle) rest with
    | none => rfl
    | some n => exact congrArg some (Nat.add_assoc n pre.length 1)

/-- A single character is found where it stands first. -/
theorem find_cons_of_not_mem {x : α} {front : List α} (absent : x ∉ front) (rest : List α) :
    find [x] (front ++ x :: rest) = some front.length := by
  have here : find [x] (x :: rest) = some 0 := find_of_prefix [x] rest
  rw [find_append_of_not_mem x [] front _ absent, here, Option.map_some, Nat.zero_add]

/-- A hit splits the text around the needle. -/
theorem split_of_find {needle s : List α} {i : Nat} (h : find needle s = some i) :
    s = s.take i ++ needle ++ s.drop (i + needle.length) := by
  induction s generalizing i with
  | nil =>
    simp only [find] at h
    split at h
    next empty => simp [empty]
    next => cases h
  | cons c s ih =>
    simp only [find] at h
    split at h
    -- the text stands here
    next starts =>
      cases h
      obtain ⟨rest, equal⟩ := List.isPrefixOf_iff_prefix.mp starts
      simp [← equal]
    -- the search goes on, one byte further
    next =>
      obtain ⟨j, found, rfl⟩ := Option.map_eq_some_iff.mp h
      have tail := ih found
      rw [show j + 1 + needle.length = j + needle.length + 1 by omega]
      simp only [List.take_succ_cons, List.drop_succ_cons, List.cons_append]
      exact congrArg (c :: ·) tail

/-- The hit is the first one: the needle occurs nowhere before it. -/
theorem find_le_of_occurs {needle s pre post : List α} (occurs : s = pre ++ (needle ++ post)) :
    ∃ i, find needle s = some i ∧ i ≤ pre.length := by
  induction pre generalizing s with
  | nil =>
    subst occurs
    exact ⟨0, find_of_prefix needle post, Nat.zero_le _⟩
  | cons c pre ih =>
    subst occurs
    obtain ⟨i, found, least⟩ := ih rfl
    rw [List.cons_append, find]
    split
    · exact ⟨0, rfl, Nat.zero_le _⟩
    · exact ⟨i + 1, by rw [found, Option.map_some], Nat.succ_le_succ least⟩

omit [DecidableEq α] in
/-- A text is cut at the last occurrence of a character. -/
theorem exists_last_of_mem {x : α} {s : List α} (member : x ∈ s) :
    ∃ before after, s = before ++ x :: after ∧ x ∉ after := by
  obtain ⟨after, before, reversed, last⟩ :=
    List.eq_append_cons_of_mem (List.mem_reverse.mpr member)
  refine ⟨before.reverse, after.reverse, ?_, fun member => last (List.mem_reverse.mp member)⟩
  rw [← List.reverse_reverse s, reversed]
  simp

theorem contains_iff {needle s : List α} : contains needle s = true ↔ needle <:+: s := by
  rw [contains, Option.isSome_iff_exists]
  constructor
  · rintro ⟨i, found⟩
    exact ⟨_, _, (split_of_find found).symm⟩
  · rintro ⟨pre, post, rfl⟩
    obtain ⟨i, found, _⟩ := find_le_of_occurs (List.append_assoc pre needle post)
    exact ⟨i, found⟩

end Find

def startsWith (s pre : Str) : Bool := pre.isPrefixOf s
def endsWith (s suf : Str) : Bool := suf.isSuffixOf s

/-- `replaceAll`: every occurrence of `needle`, from the left, without overlap. The
fuel is the length of the text, which every step shortens. -/
def replaceAllFuel (needle sub : Str) : Nat → Str → Str
  | 0, s => s
  | fuel + 1, s =>
    match find needle s with
    | none => s
    | some i => s.take i ++ sub ++ replaceAllFuel needle sub fuel (s.drop (i + needle.length))

def replaceAll (s needle sub : Str) : Str := replaceAllFuel needle sub s.length s

/-- The parts of a text between delimiters of one character, without the empty ones. -/
def splitString (text : Str) : Str → List Str
  | [c] => (text.splitOn c).filter (· != [])
  | _ => [text]

/-- A library function that is documented to split a text so. -/
def SplitsString (split : Str → Str → List Str) : Prop :=
  ∀ text c, split text [c] = splitString text [c]

/-- A library function that is documented to replace every occurrence. -/
def ReplacesAll (replace : Str → Str → Str → Str) : Prop :=
  ∀ text needle sub, needle ≠ [] → replace text needle sub = replaceAll text needle sub

theorem replaceAllFuel_of_absent {needle sub s : Str} {fuel : Nat} (absent : ¬needle <:+: s) :
    replaceAllFuel needle sub fuel s = s := by
  cases fuel with
  | zero => rfl
  | succ fuel =>
    cases found : find needle s with
    | none => rw [replaceAllFuel, found]
    | some i => exact absurd ⟨_, _, (split_of_find found).symm⟩ absent

theorem replaceAll_of_absent {needle s : Str} (absent : ¬needle <:+: s) (sub : Str) :
    replaceAll s needle sub = s :=
  replaceAllFuel_of_absent absent

/-- What is put in stands in the result. -/
theorem infix_replaceAll {needle s : Str} (nonempty : needle ≠ []) (occurs : needle <:+: s)
    (sub : Str) :
    sub <:+: replaceAll s needle sub := by
  obtain ⟨i, found⟩ := Option.isSome_iff_exists.mp (contains_iff.mpr occurs)
  obtain ⟨fuel, enough⟩ : ∃ fuel, s.length = fuel + 1 := by
    have shorter := occurs.length_le
    have positive := List.length_pos_of_ne_nil nonempty
    exact ⟨s.length - 1, by omega⟩
  rw [replaceAll, enough, replaceAllFuel, found]
  exact ⟨_, _, rfl⟩

/-- No byte comes from elsewhere. -/
theorem mem_replaceAllFuel {needle sub s : Str} {fuel : Nat} {c : UInt8}
    (member : c ∈ replaceAllFuel needle sub fuel s) : c ∈ s ∨ c ∈ sub := by
  induction fuel generalizing s with
  | zero => exact .inl member
  | succ fuel ih =>
    simp only [replaceAllFuel] at member
    split at member
    · exact .inl member
    · rcases List.mem_append.mp member with front | back
      · rcases List.mem_append.mp front with before | new
        · exact .inl (List.mem_of_mem_take before)
        · exact .inr new
      · rcases ih back with after | new
        · exact .inl (List.mem_of_mem_drop after)
        · exact .inr new

theorem mem_replaceAll {needle sub s : Str} {c : UInt8} (member : c ∈ replaceAll s needle sub) :
    c ∈ s ∨ c ∈ sub :=
  mem_replaceAllFuel member

/-- Up to the first occurrence there is none. -/
theorem not_mem_take_find {c : UInt8} {s : Str} {i : Nat} (found : find [c] s = some i) :
    c ∉ s.take i := by
  intro member
  obtain ⟨pre, post, splits⟩ := List.append_of_mem member
  have shorter : pre.length < i := by
    have lengths := congrArg List.length splits
    simp only [List.length_append, List.length_cons, List.length_take] at lengths
    omega
  have occurs : s = pre ++ ([c] ++ (post ++ s.drop i)) := by
    have whole : s = pre ++ c :: post ++ s.drop i := by rw [← splits, List.take_append_drop]
    simpa using whole
  obtain ⟨j, first, least⟩ := find_le_of_occurs occurs
  cases found.symm.trans first
  omega

theorem not_mem_replaceAllFuel {c : UInt8} {sub s : Str} {fuel : Nat} (fresh : c ∉ sub)
    (enough : s.length ≤ fuel) : c ∉ replaceAllFuel [c] sub fuel s := by
  induction fuel generalizing s with
  | zero =>
    rw [List.length_eq_zero_iff.mp (Nat.le_zero.mp enough)]
    exact List.not_mem_nil
  | succ fuel ih =>
    -- what is left stands in front of the first occurrence or behind it
    cases found : find [c] s with
    | none =>
      rw [replaceAllFuel, found]
      intro member
      obtain ⟨pre, post, rfl⟩ := List.append_of_mem member
      have occurs : pre ++ c :: post = pre ++ ([c] ++ post) := rfl
      obtain ⟨i, present, _⟩ := find_le_of_occurs occurs
      cases found.symm.trans present
    | some i =>
      rw [replaceAllFuel, found]
      simp only [List.mem_append, not_or]
      refine ⟨⟨not_mem_take_find found, fresh⟩, ih ?_⟩
      rw [List.length_drop, List.length_singleton]
      omega

/-- A single byte is replaced everywhere. -/
theorem not_mem_replaceAll {c : UInt8} {sub : Str} (s : Str) (fresh : c ∉ sub) :
    c ∉ replaceAll s [c] sub :=
  not_mem_replaceAllFuel fresh (Nat.le_refl _)

end Bytes
