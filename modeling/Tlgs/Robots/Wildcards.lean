import Tlgs.Robots.PathMatch
import Tlgs.Base.Glob

/-!
# Rules with stars

A rule with stars says what it says as a glob. Six fast cases of `wildcardPathMatch` and
its regular expression each read the rule in their own way; where they differ from the
glob is stated here case by case.
-/
namespace Tlgs

open Bytes LexicalPath

/-- The rule, read as a glob, matches the whole path. -/
abbrev GlobMatches (r p : Str) : Prop := Glob.Matches star r p

/-- The rule has no `?`, `$` or `^`. -/
def Plain (r : Str) : Prop := ∀ c ∈ r, c ≠ 63 ∧ c ≠ dollar ∧ c ≠ 94

def SingleLine (p : Str) : Prop := ∀ c ∈ p, isLineTerminator c = false

instance (r : Str) : Decidable (Plain r) := List.decidableBAll _ r

instance (p : Str) : Decidable (SingleLine p) := List.decidableBAll _ p

/-! ### The regular expression -/

def itemOf (c : UInt8) : RegexItem := if c = star then .anything else .one c

theorem compileItem_plain {c : UInt8} (plain : c ≠ 63 ∧ c ≠ dollar ∧ c ≠ 94)
    (items : List RegexItem) :
    compileItem items c = some (itemOf c :: items) := by
  simp only [compileItem, itemOf, plain, if_false]
  split <;> rfl

/-- Characters that become one item each. -/
theorem foldlM_compileItem {item : UInt8 → RegexItem} {r : Str}
    (each : ∀ c ∈ r, ∀ items, compileItem items c = some (item c :: items))
    (items : List RegexItem) :
    r.foldlM compileItem items = some ((r.map item).reverse ++ items) := by
  induction r generalizing items with
  | nil => rfl
  | cons c r ih =>
    obtain ⟨first, others⟩ := List.forall_mem_cons.mp each
    rw [List.foldlM_cons, first]
    refine (ih others _).trans ?_
    simp

theorem compileRegex_of_items {item : UInt8 → RegexItem} {r : Str}
    (each : ∀ c ∈ r, ∀ items, compileItem items c = some (item c :: items)) :
    compileRegex r = some (r.map item) := by
  rw [compileRegex, foldlM_compileItem each]
  simp

theorem compileRegex_plain {r : Str} (plain : Plain r) : compileRegex r = some (r.map itemOf) :=
  compileRegex_of_items fun c member => compileItem_plain (plain c member)

theorem compileRegex_anchored {r : Str} (plain : Plain r) :
    compileRegex (r ++ [dollar]) = some (r.map itemOf ++ [.lineEnd]) := by
  have last : ∀ items, compileItem items dollar = some (.lineEnd :: items) := fun _ => rfl
  rw [compileRegex, List.foldlM_append,
    foldlM_compileItem fun c member => compileItem_plain (plain c member)]
  simp [last]

/-- `.*` skips any part of a single line, and what it leaves stands at the start if that is none. -/
theorem anythingThen_skips {k : Bool → Str → Bool} {s : Str} (single : SingleLine s) {b : Bool} :
    anythingThen k b s = true ↔
      ∃ skipped rest, s = skipped ++ rest ∧ k (b && skipped.isEmpty) rest = true := by
  induction s generalizing b with
  | nil => simp [anythingThen]
  | cons c s ih =>
    obtain ⟨first, others⟩ := List.forall_mem_cons.mp single
    rw [anythingThen, first, Bool.not_false, Bool.true_and, Bool.or_eq_true, ih others]
    constructor
    · rintro (accepted | ⟨skipped, rest, rfl, accepted⟩)
      · exact ⟨[], c :: s, rfl, by simpa using accepted⟩
      · exact ⟨c :: skipped, rest, rfl, by simpa using accepted⟩
    · rintro ⟨_ | ⟨d, skipped⟩, rest, same, accepted⟩
      · -- nothing is skipped
        rw [List.nil_append] at same
        subst same
        exact .inl (by simpa using accepted)
      · obtain ⟨rfl, rfl⟩ := List.cons.inj same
        exact .inr ⟨skipped, rest, rfl, by simpa using accepted⟩

theorem anythingThen_iff {k : Bool → Str → Bool} {accepts : Str → Prop}
    (decides : ∀ b s, SingleLine s → (k b s = true ↔ accepts s)) {s : Str} (single : SingleLine s)
    (b : Bool) :
    anythingThen k b s = true ↔ ∃ skipped rest, s = skipped ++ rest ∧ accepts rest := by
  rw [anythingThen_skips single]
  refine exists_congr fun skipped => exists_congr fun rest => and_congr_right fun same => ?_
  exact decides _ rest fun x member => single x (same ▸ List.mem_append_right _ member)

/-- The items of a plain rule, before items that match only the end. -/
theorem matchItems_iff {tail : List RegexItem} (ends : ∀ b s, matchItems tail b s = true ↔ s = [])
    {r s : Str} (single : SingleLine s) (b : Bool) :
    matchItems (r.map itemOf ++ tail) b s = true ↔ GlobMatches r s := by
  induction r generalizing s b with
  | nil => exact ends b s
  | cons c r ih =>
    rw [List.map_cons, List.cons_append]
    by_cases starred : c = star
    · subst starred
      exact (anythingThen_iff (fun b s single => ih single b) single b).trans Glob.matches_star.symm
    · rw [itemOf, if_neg starred]
      refine Iff.trans ?_ (Glob.matches_cons starred).symm
      cases s with
      | nil => simp [matchItems]
      | cons d s =>
        rw [matchItems, Bool.and_eq_true, beq_iff_eq,
          ih (fun x member => single x (List.mem_cons_of_mem d member))]
        exact Glob.exists_cons_iff.symm

theorem regexMatch_iff {r p : Str} (plain : Plain r) (single : SingleLine p) :
    regexMatch r p = true ↔ GlobMatches r p := by
  have ends : ∀ b s, matchItems [] b s = true ↔ s = [] := fun _ s => by simp [matchItems]
  have items : matchItems (r.map itemOf ++ []) true p = true ↔ GlobMatches r p :=
    matchItems_iff ends single true
  rw [List.append_nil] at items
  rw [regexMatch, compileRegex_plain plain]
  exact items

theorem regexMatch_anchored_iff {r p : Str} (plain : Plain r) (single : SingleLine p) :
    regexMatch (r ++ [dollar]) p = true ↔ GlobMatches r p := by
  rw [regexMatch, compileRegex_anchored plain]
  exact matchItems_iff (fun _ s => by simp [matchItems]) single true

/-! ### The fast cases -/

/-- Without an occurrence `rfind` is `npos`. -/
theorem rfind_of_absent {needle s : Str} (absent : ¬needle <:+: s) : rfind needle s = npos := by
  cases found : find needle.reverse s.reverse with
  | none => rw [rfind, found]
  | some back => exact absurd (List.reverse_infix.mp ⟨_, _, (split_of_find found).symm⟩) absent

/-- Otherwise it is the offset of the last one. -/
theorem rfind_of_occurs {needle s : Str} (occurs : needle <:+: s) :
    (∃ front tail, s = front ++ (needle ++ tail) ∧ rfind needle s = front.length) ∧
      ∀ pre post, s = pre ++ (needle ++ post) → pre.length ≤ rfind needle s := by
  obtain ⟨back, found⟩ :=
    Option.isSome_iff_exists.mp (contains_iff.mpr (List.reverse_infix.mpr occurs))
  have value : rfind needle s = s.length - back - needle.length := by rw [rfind, found]
  have split := split_of_find found
  have size := congrArg List.length split
  simp only [List.length_append, List.length_take, List.length_drop, List.length_reverse] at size
  -- the last occurrence is the first one in the mirrored text
  constructor
  · refine ⟨(s.reverse.drop (back + needle.length)).reverse, (s.reverse.take back).reverse, ?_, ?_⟩
    · rw [List.length_reverse, List.append_assoc] at split
      have back_again := congrArg List.reverse split
      rwa [List.reverse_reverse, List.reverse_append, List.reverse_append, List.reverse_reverse,
        List.append_assoc] at back_again
    · rw [value, List.length_reverse, List.length_drop, List.length_reverse]
      omega
  · rintro pre post rfl
    have mirrored : (pre ++ (needle ++ post)).reverse =
        post.reverse ++ (needle.reverse ++ pre.reverse) := by
      rw [List.reverse_append, List.reverse_append, List.append_assoc]
    obtain ⟨i, found', least⟩ := find_le_of_occurs mirrored
    cases found.symm.trans found'
    rw [value, List.length_append, List.length_append]
    rw [List.length_reverse] at least
    omega

/-- The needle occurs after `n`, or nowhere at all. -/
def SearchPasses (needle s : Str) (n : Nat) : Prop :=
  ¬needle <:+: s ∧ n < npos ∨ needle <:+: s.drop (n + 1)

/-- This is what `rfind(needle) > n` tests. -/
theorem lt_rfind_iff {needle s : Str} {n : Nat} (nonempty : needle ≠ []) :
    n < rfind needle s ↔ SearchPasses needle s n := by
  by_cases present : needle <:+: s
  case neg =>
    -- a failed search passes, as `npos` is no smaller than any offset
    have later : ¬needle <:+: s.drop (n + 1) := fun later =>
      present (later.trans (List.drop_suffix _ _).isInfix)
    simp [SearchPasses, rfind_of_absent present, present, later]
  case pos =>
    obtain ⟨⟨front, tail, split, value⟩, last⟩ := rfind_of_occurs present
    simp only [SearchPasses, present, not_true_eq_false, false_and, false_or]
    constructor
    · -- the occurrence that was found lies beyond `n`
      intro before
      rw [value] at before
      rw [split, List.drop_append_of_le_length before]
      exact ⟨front.drop (n + 1), tail, List.append_assoc _ _ _⟩
    · -- an occurrence beyond `n` is not after the last one
      rintro ⟨pre, post, same⟩
      rw [List.append_assoc] at same
      have bound := last (s.take (n + 1) ++ pre) post (by
        rw [List.append_assoc, same, List.take_append_drop])
      have size := congrArg List.length same
      have some_needle := List.length_pos_of_ne_nil nonempty
      simp only [List.length_append, List.length_take, List.length_drop] at bound size
      omega

/-- The verdict of `starMatch` on a rule, by the shape of the rule. -/
inductive StarCase (p : Str) : Str → Bool → Prop
  /-- `*…*` -/
  | around {inside : Str} (free : star ∉ inside) :
      StarCase p (star :: (inside ++ [star])) (contains inside p)
  /-- `/*…*` -/
  | below {inside : Str} (free : star ∉ inside) :
      StarCase p (slash :: star :: (inside ++ [star])) (contains inside p)
  /-- `*…` -/
  | ending {tail : Str} (free : star ∉ tail) : StarCase p (star :: tail) (endsWith p tail)
  /-- `/*…` -/
  | belowEnding {tail : Str} (free : star ∉ tail) :
      StarCase p (slash :: star :: tail) (endsWith p tail)
  /-- `…*` -/
  | starting {front : Str} (free : star ∉ front) (long : front ≠ [] ∧ front ≠ [slash]) :
      StarCase p (front ++ [star]) (startsWith p front)
  /-- one star in the middle -/
  | middle {front tail : Str} (free : star ∉ front) (free' : star ∉ tail)
      (long : front ≠ [] ∧ front ≠ [slash]) (some_tail : tail ≠ []) :
      StarCase p (front ++ star :: tail)
        (startsWith p front && decide (front.length < rfind tail p))
  | regex {r : Str} : StarCase p r (regexMatch r p)

/-- Stars at both ends of a text enclose the rest of its stars. -/
private theorem enclosed_of_count {t : Str} (last : (star :: t).getLast? = some star)
    (two : (star :: t).count star = 2) : ∃ inside, t = inside ++ [star] ∧ star ∉ inside := by
  obtain ⟨front, same⟩ := List.getLast?_eq_some_iff.mp last
  cases front with
  | nil =>
    rw [same] at two
    simp at two
  | cons c inside =>
    have rest : t = inside ++ [star] := (List.cons.inj same).2
    subst rest
    refine ⟨inside, rfl, List.count_eq_zero.mp ?_⟩
    rw [List.count_cons_self, List.count_append, List.count_singleton_self] at two
    omega

theorem starMatch_case {r : Str} (p : Str) (starred : star ∈ r) :
    StarCase p r (starMatch (r.count star) r p) := by
  have rooted : ∀ {s : Str}, startsWith s [slash, star] = true → ∃ t, s = slash :: star :: t := by
    intro s starts
    obtain ⟨t, rfl⟩ := List.isPrefixOf_iff_prefix.mp starts
    exact ⟨t, rfl⟩
  simp only [starMatch]
  split
  next both =>
    -- both stars stand at the ends
    obtain ⟨t, rfl⟩ := List.head?_eq_some_iff.mp both.1
    obtain ⟨inside, rfl, free⟩ := enclosed_of_count both.2.1 both.2.2
    have inner : ((star :: (inside ++ [star])).drop 1).take
        ((star :: (inside ++ [star])).length - 2) =
        inside := by simp
    rw [inner]
    exact .around free
  next first =>
  split
  next both =>
    -- and here behind a slash
    obtain ⟨t, rfl⟩ := rooted both.1
    have two := both.2.2
    rw [List.count_cons_of_ne (by decide)] at two
    obtain ⟨inside, rfl, free⟩ := enclosed_of_count (by simpa using both.2.1) two
    have inner : ((slash :: star :: (inside ++ [star])).drop 2).take
        ((slash :: star :: (inside ++ [star])).length - 3) = inside := by simp
    rw [inner]
    exact .below free
  next second =>
  split
  next one =>
    obtain ⟨t, rfl⟩ := List.head?_eq_some_iff.mp one.1
    have none := one.2
    rw [List.count_cons_self] at none
    exact .ending (List.count_eq_zero.mp (by omega))
  next third =>
  split
  next one =>
    obtain ⟨t, rfl⟩ := rooted one.1
    have none := one.2
    rw [List.count_cons_of_ne (by decide), List.count_cons_self] at none
    exact .belowEnding (List.count_eq_zero.mp (by omega))
  next fourth =>
  -- what precedes the star is neither nothing nor a slash
  have long : ∀ {front t : Str}, r = front ++ star :: t → r.count star = 1 →
      front ≠ [] ∧ front ≠ [slash] := by
    rintro front t rfl one
    refine ⟨?_, ?_⟩
    · rintro rfl
      exact third ⟨rfl, one⟩
    · rintro rfl
      exact fourth ⟨rfl, one⟩
  split
  next one =>
    obtain ⟨front, rfl⟩ := List.getLast?_eq_some_iff.mp one.1
    have none := one.2
    rw [List.count_append, List.count_singleton_self] at none
    have kept : (front ++ [star]).take ((front ++ [star]).length - 1) = front := by simp
    rw [kept]
    exact .starting (List.count_eq_zero.mp (by omega)) (long rfl one.2)
  next fifth =>
  obtain ⟨front, tail, rfl⟩ := List.append_of_mem starred
  by_cases one : (front ++ star :: tail).count star = 1
  · -- the only star is the one that `find` returns
    have none := one
    rw [List.count_append, List.count_cons_self] at none
    have free : star ∉ front := List.count_eq_zero.mp (by omega)
    have free' : star ∉ tail := List.count_eq_zero.mp (by omega)
    have found := find_cons_of_not_mem free tail
    have before : (front ++ star :: tail).take front.length = front := by simp
    have after : (front ++ star :: tail).drop (front.length + 1) = tail := by simp
    rw [found]
    dsimp only
    rw [if_pos one, before, after]
    refine .middle free free' (long rfl one) ?_
    rintro rfl
    exact fifth ⟨by simp, one⟩
  · split
    · rw [if_neg one]
      exact .regex
    · exact .regex

/-- A rule with one star that does not stand next to the start or after a slash there. -/
structure MiddleStar (r front tail : Str) : Prop where
  free : star ∉ front
  free' : star ∉ tail
  long : front ≠ [] ∧ front ≠ [slash]
  rule : r = front ++ star :: tail

theorem starMatch_below {inside p : Str} (free : star ∉ inside) :
    starMatch ((slash :: star :: (inside ++ [star])).count star)
      (slash :: star :: (inside ++ [star])) p =
      contains inside p := by
  have none : inside.count star = 0 := List.count_eq_zero.mpr free
  have two : (slash :: star :: (inside ++ [star])).count star = 2 := by
    rw [List.count_cons_of_ne (by decide), List.count_cons_self, List.count_append, none,
      List.count_singleton_self]
  have last : (slash :: star :: (inside ++ [star])).getLast? = some star := by
    rw [← List.cons_append, ← List.cons_append, List.getLast?_concat]
  have inner : ((slash :: star :: (inside ++ [star])).drop 2).take
      ((slash :: star :: (inside ++ [star])).length - 3) = inside := by simp
  rw [starMatch, if_neg (fun both => absurd both.1 (by decide : some slash ≠ some star)),
    if_pos ⟨rfl, last, two⟩, inner]

theorem starMatch_belowEnding {tail p : Str} (free : star ∉ tail) :
    starMatch ((slash :: star :: tail).count star) (slash :: star :: tail) p = endsWith p tail := by
  have one : (slash :: star :: tail).count star = 1 := by
    rw [List.count_cons_of_ne (by decide), List.count_cons_self, List.count_eq_zero.mpr free]
  have first : (slash :: star :: tail).head? ≠ some star :=
    fun same => absurd same (by decide : some slash ≠ some star)
  rw [one, starMatch, if_neg (fun both => first both.1),
    if_neg (fun both => absurd both.2.2 (by decide)),
    if_neg (fun both => first both.1), if_pos ⟨rfl, rfl⟩]
  rfl

theorem MiddleStar.count {r front tail : Str} (shape : MiddleStar r front tail) :
    r.count star = 1 := by
  rw [shape.rule, List.count_append, List.count_cons_self, List.count_eq_zero.mpr shape.free,
    List.count_eq_zero.mpr shape.free']

theorem MiddleStar.first {r front tail : Str} (shape : MiddleStar r front tail) :
    r.head? ≠ some star := by
  obtain ⟨free, _, long, rfl⟩ := shape
  cases front with
  | nil => exact absurd rfl long.1
  | cons c front =>
    intro starts
    exact free (Option.some.inj starts ▸ List.mem_cons_self)

theorem MiddleStar.second {r front tail : Str} (shape : MiddleStar r front tail) :
    startsWith r [slash, star] = false := by
  obtain ⟨free, _, long, rfl⟩ := shape
  match front, free, long with
  | [], _, long => exact absurd rfl long.1
  | [c], _, long =>
    have other : slash ≠ c := fun same => long.2 (by rw [same])
    simp [startsWith, List.isPrefixOf, other]
  | c :: d :: front, free, _ =>
    have other : star ≠ d := fun same => free (by rw [same]; simp)
    simp [startsWith, List.isPrefixOf, other]

/-- There is only one way to cut a rule at its only star. -/
theorem MiddleStar.unique {r front tail front' tail' : Str} (shape : MiddleStar r front tail)
    (shape' : MiddleStar r front' tail') : front = front' ∧ tail = tail' := by
  have same : front ++ star :: tail = front' ++ star :: tail' := shape.rule.symm.trans shape'.rule
  obtain ⟨fronts, -, tails⟩ := (List.append_cons_inj_of_notMem shape.free shape.free').mp same
  exact ⟨fronts, tails⟩

theorem starMatch_middle {r front tail p : Str} (shape : MiddleStar r front tail)
    (some_tail : tail ≠ []) :
    starMatch (r.count star) r p =
      (startsWith p front && decide (front.length < rfind tail p)) := by
  have one := shape.count
  have first := shape.first
  have second := shape.second
  obtain ⟨free, free', long, rfl⟩ := shape
  -- the star is not the last byte, so the case before this one does not apply
  have last : (front ++ star :: tail).getLast? ≠ some star := by
    obtain ⟨c, rest, rfl⟩ := List.exists_cons_of_ne_nil some_tail
    intro ends
    rw [List.getLast?_append_of_ne_nil _ (by simp), List.getLast?_cons_cons] at ends
    exact free' (List.mem_of_getLast? ends)
  have found := find_cons_of_not_mem free tail
  have before : (front ++ star :: tail).take front.length = front := by simp
  have after : (front ++ star :: tail).drop (front.length + 1) = tail := by simp
  rw [one, starMatch, if_neg (fun both => first both.1),
    if_neg (fun both => absurd both.2.2 (by decide)), if_neg (fun both => first both.1),
    if_neg (by simp [second]), if_neg (fun both => last both.1), found]
  dsimp only
  rw [if_pos rfl, before, after]

/-! ### Rules that block too little -/

theorem wildcardPathMatch_starred {r : Str} (p : Str) (starred : star ∈ r)
    (unanchored : dollar ∉ r) :
    wildcardPathMatch r p = starMatch (r.count star) r p := by
  have nonempty : r ≠ [] := List.ne_nil_of_mem starred
  have some_star : r.count star ≠ 0 := fun none => List.count_eq_zero.mp none starred
  have last : r.getLast? ≠ some dollar := fun ends => unanchored (List.mem_of_getLast? ends)
  simp [wildcardPathMatch, nonempty, some_star, last]

/-- The star in the middle of the rule stands for nothing. -/
def StarSkipped (p r : Str) : Prop :=
  ∃ front tail, MiddleStar r front tail ∧ tail ≠ [] ∧ p = front ++ tail

theorem glob_of_starSkipped {p r : Str} (skipped : StarSkipped p r) :
    GlobMatches r p ∧ starMatch (r.count star) r p = false := by
  obtain ⟨front, tail, shape, some_tail, rfl⟩ := skipped
  refine ⟨?_, ?_⟩
  · -- the star may be read as the empty sequence
    rw [shape.rule]
    exact (Glob.matches_middle shape.free shape.free').mpr ⟨[], rfl⟩
  · -- the only room for the tail is right after the front, where `rfind` must be greater
    rw [starMatch_middle shape some_tail, Bool.and_eq_false_iff, decide_eq_false_iff_not]
    right
    rw [lt_rfind_iff some_tail]
    rintro (⟨absent, _⟩ | later)
    · exact absent (List.suffix_append front tail).isInfix
    · have size := later.length_le
      have positive := List.length_pos_of_ne_nil some_tail
      rw [List.length_drop, List.length_append] at size
      omega

/-- A starred rule blocks what it matches as a glob, except where its only star, standing
in the middle, would have to stand for nothing. -/
theorem glob_blocked_or_skipped {p r : Str} (starred : star ∈ r) (plain : Plain r)
    (single : SingleLine p) (matched : GlobMatches r p) :
    starMatch (r.count star) r p = true ∨ StarSkipped p r := by
  have verdict := starMatch_case p starred
  generalize starMatch (r.count star) r p = blocked at verdict
  have none : star ∉ ([] : Str) := List.not_mem_nil
  have rooted : star ∉ [slash] := by decide
  cases verdict with
  | around free =>
    obtain ⟨rest, rfl, inside⟩ := (Glob.matches_around none free).mp matched
    exact .inl (contains_iff.mpr inside)
  | below free =>
    obtain ⟨rest, rfl, inside⟩ := (Glob.matches_around rooted free).mp matched
    exact .inl (contains_iff.mpr (List.infix_cons inside))
  | ending free =>
    obtain ⟨skipped, rfl⟩ := (Glob.matches_middle none free).mp matched
    exact .inl (List.isSuffixOf_iff_suffix.mpr (List.suffix_append _ _))
  | belowEnding free =>
    obtain ⟨skipped, rfl⟩ := (Glob.matches_middle rooted free).mp matched
    exact .inl (List.isSuffixOf_iff_suffix.mpr ⟨slash :: skipped, rfl⟩)
  | starting free long =>
    obtain ⟨skipped, rfl⟩ := (Glob.matches_middle free none).mp matched
    exact .inl (List.isPrefixOf_iff_prefix.mpr (List.prefix_append _ _))
  | middle free free' long some_tail =>
    obtain ⟨skipped, rfl⟩ := (Glob.matches_middle free free').mp matched
    cases skipped with
    | nil => exact .inr ⟨_, _, ⟨free, free', long, rfl⟩, some_tail, rfl⟩
    | cons c skipped =>
      -- the tail occurs beyond the character after the front
      left
      rw [Bool.and_eq_true, decide_eq_true_eq, lt_rfind_iff some_tail]
      refine ⟨List.isPrefixOf_iff_prefix.mpr (List.prefix_append _ _), .inr ?_⟩
      rw [List.drop_append, Nat.add_sub_cancel_left, List.drop_eq_nil_of_le (Nat.le_succ _)]
      exact (List.suffix_append skipped _).isInfix
  | regex => exact .inl ((regexMatch_iff plain single).mpr matched)

/-- Whatever a starred rule matches as a glob is blocked, exactly unless its only star
stands in the middle and for nothing. -/
theorem glob_blocked_iff {p r : Str} (starred : star ∈ r) (plain : Plain r)
    (single : SingleLine p) :
    (GlobMatches r p → isPathBlockedBy p r = true) ↔ ¬StarSkipped p r := by
  have unanchored : dollar ∉ r := fun member => (plain dollar member).2.1 rfl
  rw [isPathBlockedBy, wildcardPathMatch_starred p starred unanchored]
  constructor
  · intro blocks skipped
    obtain ⟨matched, missed⟩ := glob_of_starSkipped skipped
    rw [blocks matched] at missed
    cases missed
  · intro exact_match matched
    exact (glob_blocked_or_skipped starred plain single matched).resolve_right exact_match

theorem glob_blocked_iff_foo :
    (GlobMatches (lit "/foo*bar") (lit "/foo/bar") →
      isPathBlockedBy (lit "/foo/bar") (lit "/foo*bar") = true) ↔
    ¬StarSkipped (lit "/foo/bar") (lit "/foo*bar") :=
  glob_blocked_iff (by decide) (by decide) (by decide)

/-- `/foo*bar` lets the path `/foobar` through. -/
theorem empty_star_not_blocked :
    GlobMatches (lit "/foo*bar") (lit "/foobar") ∧
      isPathBlockedBy (lit "/foobar") (lit "/foo*bar") = false :=
  ⟨(Glob.matches_middle (by decide : star ∉ lit "/foo") (by decide : star ∉ lit "bar")).mpr
    ⟨[], rfl⟩, by decide⟩

/-! ### Rules that block too much -/

/-- The text after `/*` is looked for in the whole path, at its first slash too. -/
inductive SlashSkipped (p : Str) : Str → Prop
  | below {inside : Str} (free : star ∉ inside) (occurs : inside <:+: p)
      (misses : ∀ rest, p = slash :: rest → ¬inside <:+: rest) :
      SlashSkipped p (slash :: star :: (inside ++ [star]))
  | belowEnding {tail : Str} (free : star ∉ tail) (ends : tail <:+ p)
      (misses : p.head? = some slash → p = tail) : SlashSkipped p (slash :: star :: tail)

/-- Such a rule blocks the path, although it matches no part of it as a glob. -/
theorem blocked_of_slashSkipped {p r : Str} (skipped : SlashSkipped p r) :
    starMatch (r.count star) r p = true ∧ ∀ start, start <+: p → ¬GlobMatches r start := by
  have rooted : star ∉ [slash] := by decide
  cases skipped with
  | below free occurs misses =>
    refine ⟨(starMatch_below free).trans (contains_iff.mpr occurs), ?_⟩
    rintro start ⟨after, rfl⟩ matched
    obtain ⟨rest, rfl, inside⟩ := (Glob.matches_around rooted free).mp matched
    exact misses _ rfl (inside.trans (List.prefix_append rest after).isInfix)
  | belowEnding free ends misses =>
    refine ⟨(starMatch_belowEnding free).trans (List.isSuffixOf_iff_suffix.mpr ends), ?_⟩
    rintro start ⟨after, rfl⟩ matched
    obtain ⟨between, rfl⟩ := (Glob.matches_middle rooted free).mp matched
    have size := congrArg List.length (misses rfl)
    simp only [List.length_append, List.length_singleton] at size
    omega

/-- The rest of the rule occurs nowhere, and `npos` passes for an offset. -/
def TailMissing (p r : Str) : Prop :=
  ∃ front tail, MiddleStar r front tail ∧ tail ≠ [] ∧ front <+: p ∧ ¬tail <:+: p ∧
    front.length < npos

theorem blocked_of_tailMissing {p r : Str} (missing : TailMissing p r) :
    starMatch (r.count star) r p = true ∧ ∀ start, start <+: p → ¬GlobMatches r start := by
  obtain ⟨front, tail, shape, some_tail, starts, absent, fits⟩ := missing
  refine ⟨?_, ?_⟩
  · rw [starMatch_middle shape some_tail, Bool.and_eq_true, decide_eq_true_eq,
      lt_rfind_iff some_tail]
    exact ⟨List.isPrefixOf_iff_prefix.mpr starts, .inl ⟨absent, fits⟩⟩
  · rintro start ⟨after, rfl⟩ matched
    rw [shape.rule] at matched
    obtain ⟨between, rfl⟩ := (Glob.matches_middle shape.free shape.free').mp matched
    exact absent ⟨front ++ between, after, by simp⟩

/-- The search for the tail of the rule passes. -/
def TailFound (p r : Str) : Prop :=
  ∃ front tail, MiddleStar r front tail ∧ tail ≠ [] ∧ front <+: p ∧ SearchPasses tail p front.length

/-- A starred rule that blocks a path matches it as a glob, or skips the slash, or has one
star in the middle. -/
theorem blocked_cases {p r : Str} (starred : star ∈ r) (plain : Plain r) (single : SingleLine p)
    (blocked : starMatch (r.count star) r p = true) :
    GlobMatches r p ∨ SlashSkipped p r ∨ TailFound p r := by
  have verdict := starMatch_case p starred
  have none : star ∉ ([] : Str) := List.not_mem_nil
  have rooted : star ∉ [slash] := by decide
  generalize starMatch (r.count star) r p = answer at verdict blocked
  cases verdict with
  | around free =>
    exact .inl ((Glob.matches_around none free).mpr ⟨p, rfl, contains_iff.mp blocked⟩)
  | @below inside free =>
    by_cases matched : ∃ rest, p = slash :: rest ∧ inside <:+: rest
    · exact .inl ((Glob.matches_around rooted free).mpr matched)
    · refine .inr (.inl (.below free (contains_iff.mp blocked) ?_))
      intro rest same occurs
      exact matched ⟨rest, same, occurs⟩
  | ending free =>
    obtain ⟨skipped, rfl⟩ := List.isSuffixOf_iff_suffix.mp blocked
    exact .inl ((Glob.matches_middle none free).mpr ⟨skipped, rfl⟩)
  | belowEnding free =>
    obtain ⟨skipped, rfl⟩ := List.isSuffixOf_iff_suffix.mp blocked
    cases skipped with
    | nil =>
      -- the path is the tail, with no room for the slash
      exact .inr (.inl (.belowEnding free List.suffix_rfl fun _ => rfl))
    | cons c skipped =>
      by_cases first : c = slash
      · subst first
        exact .inl ((Glob.matches_middle rooted free).mpr ⟨skipped, rfl⟩)
      · refine .inr (.inl (.belowEnding free (List.suffix_append _ _) fun starts => ?_))
        exact absurd (Option.some.inj starts) first
  | starting free long =>
    obtain ⟨skipped, rfl⟩ := List.isPrefixOf_iff_prefix.mp blocked
    exact .inl ((Glob.matches_middle free none).mpr ⟨skipped, by simp⟩)
  | middle free free' long some_tail =>
    rw [Bool.and_eq_true, decide_eq_true_eq, lt_rfind_iff some_tail] at blocked
    exact .inr (.inr ⟨_, _, ⟨free, free', long, rfl⟩, some_tail,
      List.isPrefixOf_iff_prefix.mp blocked.1, blocked.2⟩)
  | regex => exact .inl ((regexMatch_iff plain single).mp blocked)

/-- A search that passes finds the tail behind the front, or nowhere. -/
theorem matches_of_tailFound {p r : Str} (found : TailFound p r) :
    (∃ start, start <+: p ∧ GlobMatches r start) ∨ TailMissing p r := by
  obtain ⟨front, tail, shape, some_tail, starts, ⟨absent, fits⟩ | later⟩ := found
  · exact .inr ⟨front, tail, shape, some_tail, starts, absent, fits⟩
  · obtain ⟨rest, rfl⟩ := starts
    rw [List.drop_append, Nat.add_sub_cancel_left, List.drop_eq_nil_of_le (Nat.le_succ _)] at later
    obtain ⟨between, after, same⟩ := later.trans (List.drop_suffix 1 rest).isInfix
    rw [List.append_assoc] at same
    refine .inl ⟨front ++ (between ++ tail), ⟨after, ?_⟩, ?_⟩
    · rw [← same]
      simp
    · rw [shape.rule]
      exact (Glob.matches_middle shape.free shape.free').mpr ⟨between, rfl⟩

/-- A starred rule blocks only paths that it matches a prefix of as a glob, that is, in
which its pieces follow each other from the start, exactly unless the text after `/*` is
found at the first slash or in a path without one, or the text after the star is found
nowhere. -/
theorem blocked_matches_iff {p r : Str} (starred : star ∈ r) (plain : Plain r)
    (single : SingleLine p) :
    ((isPathBlockedBy p r = true → ∃ start, start <+: p ∧ GlobMatches r start) ↔
        ¬SlashSkipped p r ∧ ¬TailMissing p r) ∧
      ((∃ start, start <+: p ∧ GlobMatches r start) ↔ Glob.Follow (r.splitOn star) p) := by
  have unanchored : dollar ∉ r := fun member => (plain dollar member).2.1 rfl
  rw [isPathBlockedBy, wildcardPathMatch_starred p starred unanchored]
  refine ⟨?_, Glob.prefix_matches_iff⟩
  constructor
  · -- each of the exceptions is blocked and matches nowhere
    intro sound
    refine ⟨fun skipped => ?_, fun missing => ?_⟩
    · obtain ⟨blocked, misses⟩ := blocked_of_slashSkipped skipped
      obtain ⟨start, begins, matched⟩ := sound blocked
      exact misses start begins matched
    · obtain ⟨blocked, misses⟩ := blocked_of_tailMissing missing
      obtain ⟨start, begins, matched⟩ := sound blocked
      exact misses start begins matched
  · -- and there are no others
    rintro ⟨reached, present⟩ blocked
    rcases blocked_cases starred plain single blocked with matched | skipped | found
    · exact ⟨p, List.prefix_rfl, matched⟩
    · exact absurd skipped reached
    · exact (matches_of_tailFound found).resolve_right present

theorem blocked_matches_iff_txt :
    ((isPathBlockedBy (lit "/a.txt") (lit "*.txt") = true →
        ∃ start, start <+: lit "/a.txt" ∧ GlobMatches (lit "*.txt") start) ↔
      ¬SlashSkipped (lit "/a.txt") (lit "*.txt") ∧ ¬TailMissing (lit "/a.txt") (lit "*.txt")) ∧
    ((∃ start, start <+: lit "/a.txt" ∧ GlobMatches (lit "*.txt") start) ↔
      Glob.Follow ((lit "*.txt").splitOn star) (lit "/a.txt")) :=
  blocked_matches_iff (by decide) (by decide) (by decide)

/-- `/foo*bar` blocks `/foox`, in which `bar` does not occur. -/
theorem missing_tail_blocked :
    isPathBlockedBy (lit "/foox") (lit "/foo*bar") = true ∧
      ¬∃ start, start <+: lit "/foox" ∧ GlobMatches (lit "/foo*bar") start := by
  have missing : TailMissing (lit "/foox") (lit "/foo*bar") := by
    refine ⟨lit "/foo", lit "bar", ⟨by decide, by decide, by decide, by decide⟩,
      by decide, by decide, ?_, by decide⟩
    rw [← contains_iff]
    decide
  obtain ⟨_, misses⟩ := blocked_of_tailMissing missing
  refine ⟨by decide, ?_⟩
  rintro ⟨start, begins, matched⟩
  exact misses start begins matched

/-! ### Rules that end in a dollar sign -/

/-- Without a star the dollar sign is a character like any other: the path is the rule, or it is
the rule with its dollar sign or below that. -/
def DollarRead (p r : Str) : Prop :=
  star ∉ r ∧ (p = r ∨ LiteralBlocks p (r ++ [dollar]))

/-- With one star in the middle the text to search for includes the dollar sign, and the
search passes where the path does not end in the tail, or fails where it does. -/
def DollarSearched (p r : Str) : Prop :=
  ∃ front tail rest, MiddleStar r front tail ∧ p = front ++ rest ∧
    (tail <:+ rest ↔ ¬SearchPasses (tail ++ [dollar]) p front.length)

/-- The dollar sign is taken off only where the rule starts with a star or `/*`. -/
theorem wildcardPathMatch_anchored {r : Str} (p : Str) (starred : star ∈ r) :
    wildcardPathMatch (r ++ [dollar]) p =
      if startsWith r [star] = true ∨ startsWith r [slash, star] = true then
        starMatch (r.count star) r p
      else starMatch (r.count star) (r ++ [dollar]) p := by
  have count : (r ++ [dollar]).count star = r.count star := by
    -- the "$" changes none of the tests that select a case
    rw [List.count_append, List.count_singleton, if_neg (by decide), Nat.add_zero]
  have some_star : r.count star ≠ 0 := fun none => List.count_eq_zero.mp none starred
  have first : startsWith (r ++ [dollar]) [star] = startsWith r [star] := by
    cases r with
    | nil => cases starred
    | cons c r => simp [startsWith, List.isPrefixOf]
  have second : startsWith (r ++ [dollar]) [slash, star] = startsWith r [slash, star] := by
    cases r with
    | nil => cases starred
    | cons c r =>
      cases r with
      | nil =>
        have other : star ≠ dollar := by decide
        simp [startsWith, List.isPrefixOf, other]
      | cons d r => simp [startsWith, List.isPrefixOf]
  simp [wildcardPathMatch, count, some_star, first, second]

/-- With the dollar sign left in the rule, the search for the tail or the regular
expression decides. -/
theorem starMatch_anchored {r : Str} (p : Str) (starred : star ∈ r)
    (other : ¬(startsWith r [star] = true ∨ startsWith r [slash, star] = true)) :
    (∃ front tail, MiddleStar r front tail ∧
        (starMatch (r.count star) (r ++ [dollar]) p = true ↔
          front <+: p ∧ SearchPasses (tail ++ [dollar]) p front.length)) ∨
      r.count star ≠ 1 ∧
        starMatch (r.count star) (r ++ [dollar]) p = regexMatch (r ++ [dollar]) p := by
  have count : (r ++ [dollar]).count star = r.count star := by
    rw [List.count_append, List.count_singleton, if_neg (by decide), Nat.add_zero]
  by_cases one : r.count star = 1
  · -- the dollar sign is the last character of the tail
    left
    obtain ⟨front, tail, rfl⟩ := List.append_of_mem starred
    rw [List.count_append, List.count_cons_self] at one
    have free : star ∉ front := List.count_eq_zero.mp (by omega)
    have free' : star ∉ tail := List.count_eq_zero.mp (by omega)
    have long : front ≠ [] ∧ front ≠ [slash] := by
      refine ⟨?_, ?_⟩
      · rintro rfl
        exact other (.inl rfl)
      · rintro rfl
        exact other (.inr rfl)
    have free'' : star ∉ tail ++ [dollar] := by
      rw [List.mem_append, not_or]
      exact ⟨free', by decide⟩
    have shape : MiddleStar (front ++ star :: tail ++ [dollar]) front (tail ++ [dollar]) :=
      ⟨free, free'', long, by simp⟩
    refine ⟨front, tail, ⟨free, free', long, rfl⟩, ?_⟩
    rw [← count, starMatch_middle shape (by simp), Bool.and_eq_true, decide_eq_true_eq,
      lt_rfind_iff (by simp), startsWith, List.isPrefixOf_iff_prefix]
  · -- none of the fast cases applies
    refine .inr ⟨one, ?_⟩
    have last : (r ++ [dollar]).getLast? ≠ some star := by
      rw [List.getLast?_concat]
      decide
    rw [starMatch, if_neg (fun both => last both.2.1), if_neg (fun both => last both.2.1),
      if_neg (fun both => one both.2), if_neg (fun both => one both.2),
        if_neg (fun both => last both.1)]
    split
    · rw [if_neg one]
    · rfl

/-- The dollar sign at the end of a rule is misread. -/
def AnchorMisread (p r : Str) : Prop :=
  DollarRead p r ∨ SlashSkipped p r ∨ DollarSearched p r

theorem SlashSkipped.starred {p r : Str} (skipped : SlashSkipped p r) :
    star ∈ r ∧ startsWith r [slash, star] = true := by
  cases skipped with
  | below => exact ⟨by simp, rfl⟩
  | belowEnding => exact ⟨by simp, rfl⟩

theorem MiddleStar.starred {r front tail : Str} (shape : MiddleStar r front tail) : star ∈ r := by
  rw [shape.rule]
  simp

/-- A rule without a star before its dollar sign. -/
private theorem anchored_literal_iff {p r : Str} (no_star : star ∉ r) :
    (literalMatch (r ++ [dollar]) p = true ↔ p = r) ↔ ¬AnchorMisread p r := by
  have no_directory : ¬OneBelowDirectory p (r ++ [dollar]) := by
    rintro ⟨ends, _⟩
    rw [List.getLast?_concat] at ends
    exact absurd ends (by decide)
  have literal : LiteralBlocks p (r ++ [dollar]) ↔ literalMatch (r ++ [dollar]) p = true :=
    ⟨fun blocks => (blocked_or_oneBelow blocks).resolve_right no_directory,
      literalBlocks_of_blocked⟩
  have misread : AnchorMisread p r ↔ p = r ∨ literalMatch (r ++ [dollar]) p = true := by
    rw [← literal]
    constructor
    · rintro (read | skipped | ⟨_, _, _, shape, _⟩)
      · exact read.2
      · exact absurd skipped.starred.1 no_star
      · exact absurd shape.starred no_star
    · intro read
      exact .inl ⟨no_star, read⟩
  -- the rule with its dollar sign is longer than the path
  have apart : p = r → ¬literalMatch (r ++ [dollar]) p = true := by
    rintro rfl
    rw [literalMatch_iff]
    rintro (same | same | ⟨_, _, _, same, _⟩) <;> simpa using congrArg List.length same
  rw [misread]
  constructor
  · rintro agrees (same | blocked)
    · exact apart same (agrees.mpr same)
    · exact apart (agrees.mp blocked) blocked
  · intro neither
    exact iff_of_false (fun blocked => neither (.inr blocked)) fun same => neither (.inl same)

/-- A rule that starts with a star or `/*`, where the dollar sign is taken off. -/
private theorem anchored_stripped_iff {p r : Str} (starred : star ∈ r) (plain : Plain r)
    (single : SingleLine p)
    (starts : startsWith r [star] = true ∨ startsWith r [slash, star] = true) :
    (starMatch (r.count star) r p = true ↔ GlobMatches r p) ↔ ¬AnchorMisread p r := by
  -- the case for a star in the middle is not reached
  have no_middle : ∀ {front tail : Str}, ¬MiddleStar r front tail := by
    intro front tail shape
    rcases starts with first | second
    · obtain ⟨rest, rfl⟩ := List.isPrefixOf_iff_prefix.mp first
      exact shape.first rfl
    · rw [shape.second] at second
      cases second
  constructor
  · rintro agrees (read | skipped | ⟨_, _, _, shape, _⟩)
    · exact read.1 starred
    · obtain ⟨blocked, misses⟩ := blocked_of_slashSkipped skipped
      exact misses p List.prefix_rfl (agrees.mp blocked)
    · exact no_middle shape
  · intro well_read
    constructor
    · intro blocked
      rcases blocked_cases starred plain single blocked with matched | skipped | ⟨_, _, shape, _⟩
      · exact matched
      · exact absurd (.inr (.inl skipped)) well_read
      · exact absurd shape no_middle
    · intro matched
      rcases glob_blocked_or_skipped starred plain single matched with blocked | ⟨_, _, shape, _⟩
      · exact blocked
      · exact absurd shape no_middle

/-- Any other rule with a star, where the dollar sign is left in. -/
private theorem anchored_kept_iff {p r : Str} (starred : star ∈ r) (plain : Plain r)
    (single : SingleLine p)
    (other : ¬(startsWith r [star] = true ∨ startsWith r [slash, star] = true)) :
    (starMatch (r.count star) (r ++ [dollar]) p = true ↔ GlobMatches r p) ↔ ¬AnchorMisread p r := by
  have misread : AnchorMisread p r ↔ DollarSearched p r := by
    constructor
    · rintro (read | skipped | searched)
      · exact absurd starred read.1
      · exact absurd (.inr skipped.starred.2) other
      · exact searched
    · intro searched
      exact .inr (.inr searched)
  rw [misread]
  rcases starMatch_anchored p starred other with ⟨front, tail, shape, verdict⟩ | ⟨several, verdict⟩
  · have matched : GlobMatches r p ↔ ∃ rest, p = front ++ rest ∧ tail <:+ rest := by
      rw [shape.rule]
      refine (Glob.matches_middle shape.free shape.free').trans ?_
      constructor
      · rintro ⟨skipped, rfl⟩
        exact ⟨skipped ++ tail, rfl, List.suffix_append _ _⟩
      · rintro ⟨_, rfl, skipped, rfl⟩
        exact ⟨skipped, rfl⟩
    rw [verdict, matched]
    -- what remains depends on the part of the path behind the front
    by_cases starts : front <+: p
    · obtain ⟨rest, rfl⟩ := starts
      have searched : DollarSearched (front ++ rest) r ↔
          (tail <:+ rest ↔ ¬SearchPasses (tail ++ [dollar]) (front ++ rest) front.length) := by
        constructor
        · rintro ⟨front', tail', rest', shape', same, differs⟩
          obtain ⟨rfl, rfl⟩ := shape.unique shape'
          cases List.append_cancel_left same
          exact differs
        · intro differs
          exact ⟨front, tail, rest, shape, rfl, differs⟩
      have ends : (∃ rest', front ++ rest = front ++ rest' ∧ tail <:+ rest') ↔ tail <:+ rest := by
        simp
      rw [searched, ends, and_iff_right (List.prefix_append front rest), not_iff, not_iff_not]
      exact iff_comm
    · refine iff_of_true (iff_of_false (fun both => starts both.1) ?_) ?_
      · rintro ⟨rest, rfl, _⟩
        exact starts (List.prefix_append front rest)
      · rintro ⟨front', tail', rest, shape', rfl, _⟩
        obtain ⟨rfl, rfl⟩ := shape.unique shape'
        exact starts (List.prefix_append front rest)
  · -- the regular expression reads the dollar sign as the end
    rw [verdict]
    refine iff_of_true (regexMatch_anchored_iff plain single) ?_
    rintro ⟨_, _, _, shape, _⟩
    exact several shape.count

/-- A rule that ends in a dollar sign blocks exactly the paths that the rest of it matches
as a glob, unless the dollar sign is misread. -/
theorem anchored_blocked_iff {p r : Str} (plain : Plain r) (single : SingleLine p) :
    (isPathBlockedBy p (r ++ [dollar]) = true ↔ GlobMatches r p) ↔ ¬AnchorMisread p r := by
  rw [isPathBlockedBy]
  by_cases starred : star ∈ r
  · rw [wildcardPathMatch_anchored p starred]
    split
    next starts => exact anchored_stripped_iff starred plain single starts
    next other => exact anchored_kept_iff starred plain single other
  · have no_star : star ∉ r ++ [dollar] := by
      rw [List.mem_append, not_or]
      exact ⟨starred, by decide⟩
    have matched : GlobMatches r p ↔ p = r := Glob.matches_literal starred
    rw [wildcardPathMatch_literal p (by simp) no_star, matched]
    exact anchored_literal_iff starred

theorem anchored_blocked_iff_txt :
    (isPathBlockedBy (lit "/a.txt") (lit "*.txt" ++ [dollar]) = true ↔
      GlobMatches (lit "*.txt") (lit "/a.txt")) ↔
    ¬AnchorMisread (lit "/a.txt") (lit "*.txt") :=
  anchored_blocked_iff (by decide) (by decide)

/-- `/foo$` does not block the path `/foo`. -/
theorem anchored_literal_not_blocked :
    GlobMatches (lit "/foo") (lit "/foo") ∧
      isPathBlockedBy (lit "/foo") (lit "/foo" ++ [dollar]) = false :=
  ⟨(Glob.matches_literal (by decide : star ∉ lit "/foo")).mpr rfl, by decide⟩

end Tlgs
