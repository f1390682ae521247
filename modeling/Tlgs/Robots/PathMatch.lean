import Tlgs.Base.LexicalPath
import Mathlib.Algebra.Group.Nat.Defs

/-!
# Blocked paths

`isPathBlocked` and `wildcardPathMatch` of `robots_txt_parser.cpp`: the fast cases in
the order the source tries them, and the regular expression that decides the rest.
-/
namespace Tlgs

open Bytes LexicalPath

abbrev star : UInt8 := 42
abbrev dollar : UInt8 := 36

/-! ### The regular expression of the fallback

`*` becomes `.*` and the characters of `escape_chars` are escaped. What the ECMAScript
grammar still reads as syntax is `^`, `$` and `?`.
-/

inductive RegexItem where
  | anything
  | one (c : UInt8)
  | optional (c : UInt8)
  | lineStart
  | lineEnd
  deriving DecidableEq, Repr

/-- One pattern character after the items compiled so far (latest first). A `?` needs an
atom before it; without one `std::regex` throws `regex_error`. Further quantifiers on
the same atom change nothing. -/
def compileItem (items : List RegexItem) (ch : UInt8) : Option (List RegexItem) :=
  if ch = star then some (.anything :: items)
  else if ch = 63 then
    match items with
    | .one c :: rest => some (.optional c :: rest)
    | .optional c :: rest => some (.optional c :: rest)
    | .anything :: rest => some (.anything :: rest)
    | _ => none
  else if ch = 94 then some (.lineStart :: items)
  else if ch = dollar then some (.lineEnd :: items)
  else some (.one ch :: items)

def compileRegex (pattern : Str) : Option (List RegexItem) :=
  (pattern.foldlM compileItem []).map List.reverse

/-- `.` matches everything but the two line terminators of one byte. -/
def isLineTerminator (c : UInt8) : Bool := c == 10 || c == 13

/-- `.*` before a continuation, which is told whether it stands at the start. -/
def anythingThen (k : Bool → Str → Bool) : Bool → Str → Bool
  | atStart, [] => k atStart []
  | atStart, c :: s => k atStart (c :: s) || (!isLineTerminator c && anythingThen k false s)

/-- `std::regex_match`: the items match the whole text. -/
def matchItems : List RegexItem → Bool → Str → Bool
  | [], _, s => s.isEmpty
  | .anything :: items, atStart, s => anythingThen (matchItems items) atStart s
  | .one d :: items, _, s =>
    match s with
    | [] => false
    | c :: s => c == d && matchItems items false s
  | .optional d :: items, atStart, s =>
    matchItems items atStart s ||
      match s with
      | [] => false
      | c :: s => c == d && matchItems items false s
  | .lineStart :: items, atStart, s => atStart && matchItems items atStart s
  | .lineEnd :: items, atStart, s => s.isEmpty && matchItems items atStart s

def regexMatch (pattern str : Str) : Bool :=
  match compileRegex pattern with
  | none => false
  | some items => matchItems items true str

/-! ### The match -/

def npos : Nat := 2 ^ 64 - 1

/-- `rfind`: the offset of the last occurrence, `npos` without one. -/
def rfind (needle : Str) (s : Str) : Nat :=
  match find needle.reverse s.reverse with
  | none => npos
  | some back => s.length - back - needle.length

/-- The test for patterns without a star. -/
def literalMatch (pattern str : Str) : Bool :=
  str == pattern || str == pattern ++ [slash] ||
    (decide (str.length > pattern.length + 1) && startsWith str pattern &&
      (str[pattern.length]? == some slash || pattern.getLast? == some slash))

/-- The cases for patterns with stars, in the order of the source. -/
def starMatch (starCount : Nat) (pattern str : Str) : Bool :=
  -- */foo/bar/*
  if pattern.head? = some star ∧ pattern.getLast? = some star ∧ starCount = 2 then
    contains ((pattern.drop 1).take (pattern.length - 2)) str
  -- /*/foo/*
  else if startsWith pattern [slash, star] ∧ pattern.getLast? = some star ∧ starCount = 2 then
    contains ((pattern.drop 2).take (pattern.length - 3)) str
  -- *foo
  else if pattern.head? = some star ∧ starCount = 1 then
    endsWith str (pattern.drop 1)
  -- /*foo
  else if startsWith pattern [slash, star] ∧ starCount = 1 then
    endsWith str (pattern.drop 2)
  -- foo*
  else if pattern.getLast? = some star ∧ starCount = 1 then
    startsWith str (pattern.take (pattern.length - 1))
  else
    match find [star] pattern with
    | some n =>
      if starCount = 1 then
        -- `npos`, for a tail that does not occur, is greater than `n` too
        startsWith str (pattern.take n) && decide (rfind (pattern.drop (n + 1)) str > n)
      else regexMatch pattern str
    | none => regexMatch pattern str

def wildcardPathMatch (pattern str : Str) : Bool :=
  if pattern = [] then false
  else
    let starCount := pattern.count star
    if starCount = 0 then literalMatch pattern str
    else if pattern.getLast? = some dollar ∧
        (startsWith pattern [star] ∨ startsWith pattern [slash, star]) then
      starMatch starCount pattern.dropLast str
    else starMatch starCount pattern str

/-- `isPathBlocked` against one rule. -/
def isPathBlockedBy (path disallowed : Str) : Bool := wildcardPathMatch disallowed path

/-- `isPathBlocked` against a list of rules. -/
def isPathBlocked (path : Str) (disallowedPaths : List Str) : Bool :=
  disallowedPaths.any (isPathBlockedBy path)

example : isPathBlockedBy (lit "/foo/123/bar/456/baz") (lit "/foo/*/bar/*/baz") = true := by decide

/-! ### Rules without a star -/

/-- What a literal rule says: it blocks itself and everything below the directory it
names, where a directory ends in a slash or is followed by one. -/
def LiteralBlocks (p r : Str) : Prop :=
  p = r ∨ ∃ c rest, p = r ++ c :: rest ∧ (r.getLast? = some slash ∨ c = slash)

/-- The path is one character, not a slash, below a rule that ends in a slash. -/
def OneBelowDirectory (p r : Str) : Prop :=
  r.getLast? = some slash ∧ ∃ c, c ≠ slash ∧ p = r ++ [c]

theorem literalMatch_iff (r p : Str) :
    literalMatch r p = true ↔ p = r ∨ p = r ++ [slash] ∨
      ∃ c d rest, p = r ++ c :: d :: rest ∧ (c = slash ∨ r.getLast? = some slash) := by
  simp only [literalMatch, startsWith, Bool.or_eq_true, beq_iff_eq, Bool.and_eq_true,
    decide_eq_true_eq, List.isPrefixOf_iff_prefix, or_assoc]
  refine or_congr Iff.rfl (or_congr Iff.rfl ?_)
  constructor
  · rintro ⟨⟨long, rest, rfl⟩, ends⟩
    -- the test of the length asks for two characters after the rule
    match rest with
    | [] =>
      rw [List.append_nil] at long
      omega
    | [c] =>
      rw [List.length_append, List.length_singleton] at long
      omega
    | c :: d :: rest => exact ⟨c, d, rest, rfl, by simpa using ends⟩
  · rintro ⟨c, d, rest, rfl, ends⟩
    exact ⟨⟨by simp, c :: d :: rest, rfl⟩, by simpa using ends⟩

theorem wildcardPathMatch_literal {r : Str} (p : Str) (nonempty : r ≠ []) (no_star : star ∉ r) :
    wildcardPathMatch r p = literalMatch r p := by
  have none : r.count star = 0 := List.count_eq_zero.mpr no_star
  simp [wildcardPathMatch, nonempty, none]

/-- A literal rule blocks no more than it says. -/
theorem literalBlocks_of_blocked {p r : Str} (blocked : literalMatch r p = true) :
    LiteralBlocks p r := by
  rcases (literalMatch_iff r p).mp blocked with equal | slashed | ⟨c, d, rest, below, ends⟩
  · exact Or.inl equal
  · exact Or.inr ⟨slash, [], slashed, Or.inr rfl⟩
  · exact Or.inr ⟨c, d :: rest, below, ends.symm⟩

/-- It blocks all it says, except one character below a rule that ends in a slash. -/
theorem blocked_or_oneBelow {p r : Str} (blocks : LiteralBlocks p r) :
    literalMatch r p = true ∨ OneBelowDirectory p r := by
  rw [literalMatch_iff]
  rcases blocks with equal | ⟨c, rest, below, ends⟩
  · exact Or.inl (Or.inl equal)
  · -- with two characters below the rule the length passes, with one only the slash does
    cases rest with
    | cons d rest => exact Or.inl (Or.inr (Or.inr ⟨c, d, rest, below, ends.symm⟩))
    | nil =>
      by_cases slashed : c = slash
      · subst slashed
        exact Or.inl (Or.inr (Or.inl below))
      · exact Or.inr ⟨ends.resolve_right slashed, c, slashed, below⟩

theorem not_blocked_of_oneBelow {p r : Str} (one : OneBelowDirectory p r) :
    LiteralBlocks p r ∧ literalMatch r p = false := by
  obtain ⟨ends, c, plain, rfl⟩ := one
  refine ⟨Or.inr ⟨c, [], rfl, Or.inl ends⟩, ?_⟩
  rw [Bool.eq_false_iff, ne_eq, literalMatch_iff]
  rintro (equal | slashed | ⟨a, b, rest, below, -⟩)
  · simp at equal
  · exact plain (by simpa using slashed)
  · simp at below

/-- `isPathBlocked` means what a rule without a star says exactly off the boundary
length: the test asks for two characters below the rule even when its last slash
already ends the component. -/
theorem isPathBlockedBy_literal_iff (p r : Str) (nonempty : r ≠ []) (no_star : star ∉ r) :
    (isPathBlockedBy p r = true ↔ LiteralBlocks p r) ↔ ¬OneBelowDirectory p r := by
  rw [isPathBlockedBy, wildcardPathMatch_literal p nonempty no_star]
  constructor
  · intro agrees one
    obtain ⟨blocks, missed⟩ := not_blocked_of_oneBelow one
    rw [agrees.mpr blocks] at missed
    cases missed
  · intro off_boundary
    exact ⟨literalBlocks_of_blocked,
      fun blocks => (blocked_or_oneBelow blocks).resolve_right off_boundary⟩

theorem isPathBlockedBy_literal_iff_foo :
    (isPathBlockedBy (lit "/foo/bar.txt") (lit "/foo/") = true ↔
      LiteralBlocks (lit "/foo/bar.txt") (lit "/foo/")) ↔
    ¬OneBelowDirectory (lit "/foo/bar.txt") (lit "/foo/") :=
  isPathBlockedBy_literal_iff _ _ (by decide) (by decide)

/-- The rule `/` lets every path of one character through. -/
theorem root_rule_misses_one_character :
    LiteralBlocks (lit "/f") (lit "/") ∧ isPathBlockedBy (lit "/f") (lit "/") = false :=
  ⟨Or.inr ⟨102, [], by decide, Or.inl (by decide)⟩, by decide⟩

end Tlgs
