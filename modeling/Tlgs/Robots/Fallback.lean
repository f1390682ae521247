import Tlgs.Base.AnchoredGlob
import Tlgs.Robots.Wildcards

/-!
# The regular expression of the fallback

`escape_chars` has neither `^` nor `$`, so a rule that reaches the regular expression is read as
a glob whose anchors may stand anywhere. As characters they are read only where there are none,
or where the rule cannot match a single line at all.
-/
namespace Tlgs

open Bytes LexicalPath

abbrev caret : UInt8 := 94

/-- What the regular expression reads as syntax where the rule has no `?`. -/
def anchors : Glob.Marks UInt8 := ⟨star, caret, dollar, by decide, by decide, by decide⟩

/-! ### The items -/

/-- The item of a character that is not a `?`. -/
def markItem (c : UInt8) : RegexItem :=
  if c = star then .anything
  else if c = caret then .lineStart
  else if c = dollar then .lineEnd
  else .one c

theorem compileItem_mark {c : UInt8} (no_option : c ≠ 63) (items : List RegexItem) :
    compileItem items c = some (markItem c :: items) := by
  simp only [compileItem, markItem, no_option, if_false]
  split
  · rfl
  · split
    · rfl
    · split <;> rfl

theorem compileRegex_marks {r : Str} (no_option : 63 ∉ r) :
    compileRegex r = some (r.map markItem) :=
  compileRegex_of_items fun _ member => compileItem_mark fun same => no_option (same ▸ member)

/-- The items match a single line as the rule does with its anchors. -/
theorem matchItems_marks {r s : Str} (single : SingleLine s) (b : Bool) :
    matchItems (r.map markItem) b s = true ↔ Glob.Anchored anchors b r s := by
  induction r generalizing s b with
  | nil => simp [matchItems, Glob.Anchored]
  | cons c r ih =>
    rw [List.map_cons, markItem]
    split
    -- a star becomes `.*`, which matches anything within a line
    next starred =>
      subst starred
      refine Iff.trans ?_ Glob.anchored_star.symm
      rw [matchItems, anythingThen_skips single]
      refine exists_congr fun skipped => exists_congr fun rest => and_congr_right fun same => ?_
      exact ih (fun x member => single x (same ▸ List.mem_append_right _ member)) _
    next starless =>
    split
    -- `^` and `$` are not escaped and stay anchors
    next start =>
      subst start
      rw [matchItems, Bool.and_eq_true, ih single]
      exact Glob.anchored_bol.symm
    next startless =>
    split
    next ended =>
      subst ended
      rw [matchItems, Bool.and_eq_true, ih single, List.isEmpty_iff]
      exact Glob.anchored_eol.symm
    next endless =>
      -- every other character matches itself
      refine Iff.trans ?_ (Glob.anchored_cons ⟨starless, startless, endless⟩).symm
      cases s with
      | nil => simp [matchItems]
      | cons d s =>
        have later : SingleLine s := fun x member => single x (List.mem_cons_of_mem d member)
        rw [matchItems, Bool.and_eq_true, beq_iff_eq, ih later]
        exact Glob.exists_cons_iff.symm

theorem regexMatch_marks {r p : Str} (no_option : 63 ∉ r) (single : SingleLine p) :
    regexMatch r p = true ↔ Glob.Anchored anchors true r p := by
  rw [regexMatch, compileRegex_marks no_option]
  exact matchItems_marks single true

/-! ### The rules that reach it -/

/-- The rule without the dollar sign at its end. -/
def ruleBody (r : Str) : Str := if r.getLast? = some dollar then r.dropLast else r

/-- The rule after `pop_back`. -/
def popped (r : Str) : Str :=
  if r.getLast? = some dollar ∧
    (startsWith r [star] ∨ startsWith r [slash, star]) then r.dropLast else r

/-- None of the fast cases applies. -/
def ReachesRegex (r : Str) : Prop :=
  2 ≤ r.count star ∧ ¬(r.count star = 2 ∧ (popped r).getLast? = some star ∧
    (startsWith r [star] = true ∨ startsWith r [slash, star] = true))

instance (r : Str) : Decidable (ReachesRegex r) := inferInstanceAs (Decidable (_ ∧ ¬_))

theorem starMatch_regex {count : Nat} {r : Str} (p : Str) (several : 2 ≤ count)
    (other : ¬(count = 2 ∧ r.getLast? = some star ∧
      (startsWith r [star] = true ∨ startsWith r [slash, star] = true))) :
    starMatch count r p = regexMatch r p := by
  have one : count ≠ 1 := by omega
  rw [starMatch, if_neg ?around, if_neg ?below, if_neg (fun both => one both.2),
    if_neg (fun both => one both.2), if_neg (fun both => one both.2)]
  case around =>
    rintro ⟨first, last, two⟩
    obtain ⟨t, rfl⟩ := List.head?_eq_some_iff.mp first
    exact other ⟨two, last, .inl rfl⟩
  case below =>
    rintro ⟨first, last, two⟩
    exact other ⟨two, last, .inr first⟩
  split
  · rw [if_neg one]
  · rfl

/-- A rule with stars keeps its first two characters without its last. -/
private theorem starts_popped {r : Str} (several : 2 ≤ r.count star)
    (ends : r.getLast? = some dollar) {start : Str} (short : start.length ≤ 2) :
    startsWith r.dropLast start = startsWith r start := by
  obtain ⟨front, rfl⟩ := List.getLast?_eq_some_iff.mp ends
  have none : [dollar].count star = 0 := by decide
  have long : 2 ≤ front.length := by
    rw [List.count_append, none] at several
    exact several.trans List.count_le_length
  rw [List.dropLast_concat, Bool.eq_iff_iff, startsWith, startsWith, List.isPrefixOf_iff_prefix,
    List.isPrefixOf_iff_prefix]
  constructor
  · exact fun starts => starts.trans (List.prefix_append front _)
  · exact fun starts => List.prefix_of_prefix_length_le starts (List.prefix_append front _)
      (short.trans long)

theorem wildcardPathMatch_regex {r : Str} (p : Str) (reaches : ReachesRegex r) :
    wildcardPathMatch r p = regexMatch (popped r) p := by
  obtain ⟨several, other⟩ := reaches
  have some_star : r.count star ≠ 0 := by omega
  have nonempty : r ≠ [] := by
    rintro rfl
    exact some_star rfl
  rw [wildcardPathMatch, if_neg nonempty]
  dsimp only
  rw [if_neg some_star]
  unfold popped at other ⊢
  -- a star at both ends is taken off first
  split
  next both =>
    rw [if_pos both] at other
    refine starMatch_regex p several ?_
    rwa [starts_popped several both.1 (by simp), starts_popped several both.1 (by simp)]
  next kept =>
    rw [if_neg kept] at other
    exact starMatch_regex p several other

/-- What the fallback answers: the rule matches by its edges. -/
theorem blocked_iff_edgesMatch {r p : Str} (reaches : ReachesRegex r) (no_option : 63 ∉ r)
    (single : SingleLine p) :
    isPathBlockedBy p r = true ↔ Glob.EdgesMatch anchors (ruleBody r) p := by
  have rest : 63 ∉ popped r := by
    rw [popped]
    split
    · exact fun member => no_option (List.dropLast_subset r member)
    · exact no_option
  rw [isPathBlockedBy, wildcardPathMatch_regex p reaches,
    regexMatch_marks rest single, ← Glob.anchored_iff,
    popped, ruleBody]
  -- a dollar sign that is left at the end asks for what the match of the whole path does
  by_cases ends : r.getLast? = some dollar
  · rw [if_pos ends]
    split
    · rfl
    · obtain ⟨front, rfl⟩ := List.getLast?_eq_some_iff.mp ends
      rw [List.dropLast_concat]
      exact Glob.anchored_concat_eol (m := anchors)
  · rw [if_neg ends, if_neg fun both => ends both.1]

/-- The rule with its anchors matches the path otherwise than the rule where they are characters. -/
def AnchorRead (r p : Str) : Prop :=
  ¬(Glob.EdgesMatch anchors (ruleBody r) p ↔ GlobMatches (ruleBody r) p)

/-- A rule without `?` that reaches the regular expression blocks what it matches as a glob whose
only anchor is a dollar sign at its end: on all paths of one line exactly if the rest of it has
neither `^` nor `$`, or no such path can match it; and else on the paths that match both with the
anchors and with the characters, or with neither. -/
theorem fallback_matches_iff {r : Str} (reaches : ReachesRegex r) (no_option : 63 ∉ r) :
    ((∀ p, SingleLine p → (isPathBlockedBy p r = true ↔ GlobMatches (ruleBody r) p)) ↔
      (caret ∉ ruleBody r ∧ dollar ∉ ruleBody r) ∨ ¬SingleLine (ruleBody r)) ∧
    ∀ p, SingleLine p →
      ((isPathBlockedBy p r = true ↔ GlobMatches (ruleBody r) p) ↔ ¬AnchorRead r p) := by
  refine ⟨⟨fun agree => ?_, ?_⟩, fun p single => ?_⟩
  · by_contra neither
    obtain ⟨anchor, one_line⟩ := not_or.mp neither
    rw [not_not] at one_line
    obtain ⟨p, inside, misread⟩ := Glob.exists_misread (m := anchors) anchor
    have single : SingleLine p := fun c member => one_line c (inside c member)
    rw [Glob.anchored_iff, ← blocked_iff_edgesMatch reaches no_option single] at misread
    exact misread (agree p single)
  · rintro (plain | broken) p single
    · rw [blocked_iff_edgesMatch reaches no_option single, ← Glob.anchored_iff]
      exact Glob.anchored_iff_matches (m := anchors) plain
    · -- the line terminator of the rule is not in the path
      rw [blocked_iff_edgesMatch reaches no_option single]
      have terminator : ∃ c ∈ ruleBody r, isLineTerminator c = true := by
        simpa [SingleLine] using broken
      obtain ⟨c, member, ends_line⟩ := terminator
      have absent : c ∉ p := fun inside => by simp [single c inside] at ends_line
      have no_mark : ∀ a, isLineTerminator a = false → c ≠ a := by
        rintro a plain rfl
        rw [plain] at ends_line
        cases ends_line
      have plain : c ≠ star ∧ c ≠ caret ∧ c ≠ dollar :=
        ⟨no_mark star (by decide), no_mark caret (by decide), no_mark dollar (by decide)⟩
      exact iff_of_false (fun matched => absent (matched.mem member plain))
        fun matched => absent (Glob.mem_of_matches matched member plain.1)
  · rw [blocked_iff_edgesMatch reaches no_option single, AnchorRead, not_not]

theorem fallback_matches_iff_foo :
    ((∀ p, SingleLine p → (isPathBlockedBy p (lit "/foo/*/bar/*/baz") = true ↔
        GlobMatches (ruleBody (lit "/foo/*/bar/*/baz")) p)) ↔
      (caret ∉ ruleBody (lit "/foo/*/bar/*/baz") ∧ dollar ∉ ruleBody (lit "/foo/*/bar/*/baz")) ∨
        ¬SingleLine (ruleBody (lit "/foo/*/bar/*/baz"))) ∧
    ∀ p, SingleLine p →
      ((isPathBlockedBy p (lit "/foo/*/bar/*/baz") = true ↔
          GlobMatches (ruleBody (lit "/foo/*/bar/*/baz")) p) ↔
            ¬AnchorRead (lit "/foo/*/bar/*/baz") p) :=
  fallback_matches_iff (by decide) (by decide)

/-- The `^` in the rule is read as the start of the path, where the path has one. -/
theorem caret_not_blocked :
    ReachesRegex (lit "/a*^*b") ∧ 63 ∉ lit "/a*^*b" ∧ SingleLine (lit "/a^b") ∧
      GlobMatches (ruleBody (lit "/a*^*b")) (lit "/a^b") ∧
      isPathBlockedBy (lit "/a^b") (lit "/a*^*b") = false :=
  ⟨by decide, by decide, by decide, Glob.matches_literals (lit "/a*^*b"), by decide⟩

end Tlgs
